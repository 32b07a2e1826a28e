/-
Union, intersection and difference in one word.

`resolve` turns an operand into the word of the positions it names, or fails; the operations are then word operations.
A subset of an equal domain already has that word; the elements of any other one are looked up.
-/
import SubsetAlgebra.Operand

namespace SubsetAlgebra.CompactSubset

open Word (width)

variable {α : Type} [Element α]

/-- the word of the positions of these elements, added to `w` -/
def wordOf (d : Domain α) (rule : ForeignRule) (w : UInt64) : List α → Except Error UInt64
  | [] => .ok w
  | e :: rest =>
    match d.indexOf e with
    | some i => wordOf d rule (w ||| Word.bit i) rest
    | none => if rule = .reject then .error .foreignElement else wordOf d rule w rest

/-- the word of the positions that an operand names -/
def resolve (d : Domain α) (rule : ForeignRule) : Operand α → Except Error UInt64
  | .word w => Mask.acceptWord w d.size
  | .mask m =>
    match Mask.acceptInt m d.size with
    | .error e => .error e
    | .ok buf => .ok (buf.words.head?.getD 0)
  | .bits b =>
    match Mask.acceptBits b d.size with
    | .error e => .error e
    | .ok () => .ok (Mask.wordOfBits b)
  | .elements es => wordOf d rule 0 es
  | .members m => wordOf d rule 0 m.toList
  | .compact t => if d.same t.domain then .ok t.word else wordOf d rule 0 t.toList
  | .general t => if d.same t.domain then .ok (Word.ofPositions t.positions) else wordOf d rule 0 t.toList

theorem wordOf_lt {d : Domain α} {rule : ForeignRule} (hd : d.size ≤ width) (es : List α) {w v : UInt64}
    (hw : w.toNat < 2 ^ d.size) (h : wordOf d rule w es = .ok v) : v.toNat < 2 ^ d.size := by
  induction es generalizing w with
  | nil =>
    cases h
    exact hw
  | cons e rest ih =>
    unfold wordOf at h
    split at h
    · next hi => exact ih (Word.or_lt hw (Word.bit_lt (Domain.indexOf_lt hi) hd)) h
    · split at h
      · cases h
      · exact ih hw h

/-- a resolved operand names positions of the domain only -/
theorem resolve_lt {d : Domain α} {rule : ForeignRule} (hd : d.size ≤ width) {o : Operand α} {v : UInt64}
    (h : resolve d rule o = .ok v) : v.toNat < 2 ^ d.size := by
  cases o with
  | word w => exact Mask.acceptWord_lt h
  | mask m =>
    simp only [resolve] at h
    split at h
    · cases h
    · next buf hb =>
      cases h
      obtain ⟨rfl, hm⟩ := Mask.acceptInt_eq_ok hb
      exact Mask.head_ofNat_lt hm
  | bits b =>
    simp only [resolve] at h
    split at h
    · cases h
    · next hb =>
      cases h
      exact Mask.wordOfBits_lt hb hd
  | elements es => exact wordOf_lt hd es (zero_lt d) h
  | members m => exact wordOf_lt hd m.toList (zero_lt d) h
  | compact t =>
    simp only [resolve] at h
    split at h
    · next hs =>
      cases h
      rw [Domain.size_eq_of_same hs]
      exact t.bounded
    · exact wordOf_lt hd _ (zero_lt d) h
  | general t =>
    simp only [resolve] at h
    split at h
    · next hs =>
      cases h
      apply Word.ofPositions_lt hd
      intro i hi
      rw [Domain.size_eq_of_same hs]
      exact GeneralSubset.lt_of_mem_positions hi
    · exact wordOf_lt hd _ (zero_lt d) h

/-! ## Operations -/

/-- the subset that an operand names -/
def ofOperand (d : Domain α) (o : Operand α) : Except Error (CompactSubset α) :=
  match empty d with
  | .error e => .error e
  | .ok s =>
    match h : resolve s.domain .reject o with
    | .error e => .error e
    | .ok w => .ok (s.withWord w (resolve_lt s.fits h))

/-- the members and what the operand names -/
def union (s : CompactSubset α) (o : Operand α) : Except Error (CompactSubset α) :=
  match h : resolve s.domain .reject o with
  | .error e => .error e
  | .ok w => .ok (s.withWord (s.word ||| w) (Word.or_lt s.bounded (resolve_lt s.fits h)))

/-- the members that the operand names -/
def inter (s : CompactSubset α) (o : Operand α) : Except Error (CompactSubset α) :=
  match resolve s.domain .ignore o with
  | .error e => .error e
  | .ok w => .ok (s.withWord (s.word &&& w) (Word.and_lt_left _ s.bounded))

/-- the members that the operand does not name -/
def diff (s : CompactSubset α) (o : Operand α) : Except Error (CompactSubset α) :=
  match resolve s.domain .ignore o with
  | .error e => .error e
  | .ok w => .ok (s.withWord (s.word &&& ~~~w) (Word.and_lt_left _ s.bounded))

end SubsetAlgebra.CompactSubset
