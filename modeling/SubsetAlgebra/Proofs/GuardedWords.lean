/-
Word operations that ask for their conditions.

A shift is defined by less than the width of a word, a subtraction down to zero, an access up to the end of a list. The
library uses all three without asking, since the conditions follow from bounds that were checked elsewhere. Here its
operations on words, buffers and masks are written once more with every condition asked for on the spot: a `Guarded`
computation that finds one violated is `broken`, which no error of the library is.

For each of them there is one lemma that says when it is not broken and that its result is then the one without the
questions: `bit_of`, `orBits_of`, `low_of`, `dropLowest_of` and `highest_of` need what they say, while `has_eq`,
`drain_eq`, `ones_eq`, `acceptWord_eq` and `acceptInt_eq` need nothing, because they ask the right question themselves.
-/
import SubsetAlgebra.Proofs.MaskRule

universe u

namespace SubsetAlgebra

open Word (width)

/-- why a guarded computation has no result -/
inductive Stop where
  /-- the library reports an error -/
  | failed (e : Error)
  /-- a partial operation is used where it is not defined -/
  | broken
  deriving DecidableEq, Repr

/-- a computation that asks for the condition of every partial operation that it uses -/
abbrev Guarded (β : Type) : Type := Except Stop β

namespace Guarded

section Asking

variable {β γ σ : Type}

/-- an answer of the library, which is never broken -/
def answer (r : Except Error β) : Guarded β := r.mapError .failed

theorem answer_ne_broken (r : Except Error β) : answer r ≠ .error .broken := by
  cases r <;> nofun

theorem ok_bind (b : β) (f : β → Guarded γ) : (Except.ok b >>= f) = f b := rfl

/-- asks for a condition -/
def require (p : Prop) [Decidable p] : Guarded Unit := if p then .ok () else .error .broken

theorem require_of {p : Prop} [Decidable p] (h : p) : require p = .ok () := if_pos h

/-- an element of a list, at a position within it -/
def item (xs : List β) (i : Nat) : Guarded β :=
  match xs[i]? with
  | some x => .ok x
  | none => .error .broken

theorem item_of {xs : List β} {i : Nat} {x : β} (h : xs[i]? = some x) : item xs i = .ok x := by
  simp only [item, h]

/-- the difference of two numbers, the first at least the second -/
def minus (a b : Nat) : Guarded Nat := do
  require (b ≤ a)
  return a - b

theorem minus_of {a b : Nat} (h : b ≤ a) : minus a b = .ok (a - b) := by
  simp only [minus, require_of h]
  rfl

/-- a loop whose steps are not broken, over states that are shown as `view` shows them -/
theorem foldlM_along {τ : Type} {ι : Type u} (view : σ → τ) {f : τ → ι → Guarded τ} {g : σ → ι → σ} {xs : List ι}
    (h : ∀ s, ∀ x ∈ xs, f (view s) x = .ok (view (g s x))) (s : σ) :
    xs.foldlM f (view s) = .ok (view (xs.foldl g s)) := by
  induction xs generalizing s with
  | nil => rfl
  | cons x xs ih =>
    rw [List.foldlM_cons, h s x List.mem_cons_self]
    exact ih (fun s y hy => h s y (List.mem_cons_of_mem _ hy)) (g s x)

end Asking

/-! ## Words -/

/-- a shift to the left by less than the width -/
def shiftLeft (w : UInt64) (k : Nat) : Guarded UInt64 := do
  require (k < width)
  return w <<< UInt64.ofNat k

/-- a shift to the right by less than the width -/
def shiftRight (w : UInt64) (k : Nat) : Guarded UInt64 := do
  require (k < width)
  return w >>> UInt64.ofNat k

theorem shiftRight_of {k : Nat} (h : k < width) (w : UInt64) : shiftRight w k = .ok (w >>> UInt64.ofNat k) := by
  simp only [shiftRight, require_of h]
  rfl

/-- the difference of two words, the first at least the second -/
def minusWord (a b : UInt64) : Guarded UInt64 := do
  require (b ≤ a)
  return a - b

theorem minusWord_of {a b : UInt64} (h : b ≤ a) : minusWord a b = .ok (a - b) := by
  simp only [minusWord, require_of h]
  rfl

/-- the word of one position -/
def bit (i : Nat) : Guarded UInt64 := shiftLeft 1 i

theorem bit_of {i : Nat} (h : i < width) : bit i = .ok (Word.bit i) := by
  simp only [bit, shiftLeft, require_of h]
  rfl

/-- the positions of a list added to a word -/
def orBits (w : UInt64) (ps : List Nat) : Guarded UInt64 := ps.foldlM (fun w i => do return w ||| (← bit i)) w

theorem orBits_of {ps : List Nat} (h : ∀ i ∈ ps, i < width) (w : UInt64) :
    orBits w ps = .ok (ps.foldl (fun w i => w ||| Word.bit i) w) := by
  refine foldlM_along id (fun w i hi => ?_) w
  rw [id_eq, bit_of (h i hi)]
  rfl

/-- the word of the first `n` positions, all of them being a word of their own -/
def low (n : Nat) : Guarded UInt64 := do
  if n = width then return 0xffffffffffffffff
  minusWord (← bit n) 1

theorem low_of {n : Nat} (h : n ≤ width) : low n = .ok (Word.low n) := by
  unfold low Word.low
  by_cases hn : n = width
  · simp only [if_pos hn]
    rfl
  · have hlt : n < width := Nat.lt_of_le_of_ne h hn
    have hone : (1 : UInt64) ≤ Word.bit n :=
      Word.one_le_of_toNat_pos (by rw [Word.toNat_bit hlt]; exact Nat.two_pow_pos n)
    simp only [if_neg hn, bit_of hlt]
    exact minusWord_of hone

/-- whether a position is in a word, asked of the word only below the width -/
def has (w : UInt64) (i : Nat) : Guarded Bool := do
  if i < width then return (← shiftRight w i) &&& 1 == 1
  return false

theorem has_eq (w : UInt64) (i : Nat) : has w i = .ok (Word.has w i) := by
  unfold has Word.has
  by_cases h : i < width
  · simp only [shiftRight_of h, h, decide_true, Bool.true_and]
    rfl
  · simp only [h, decide_false, Bool.false_and]
    rfl

/-- the highest position of a word, counted from its other end -/
def highest (w : UInt64) : Guarded Nat := minus 63 w.toBitVec.clz.toNat

theorem highest_of {w : UInt64} (h : w ≠ 0) : highest w = .ok (Word.highest w) := by
  have hne : w.toBitVec ≠ 0#64 := fun he => h (UInt64.toBitVec_inj.1 he)
  have hlt : w.toBitVec.clz.toNat < 64 := BitVec.clz_lt_iff_ne_zero.2 hne
  have hlow : 2 ^ (63 - w.toBitVec.clz.toNat) ≤ w.toNat := BitVec.two_pow_sub_clz_le_toNat_of_ne_zero (by decide) hne
  have hhigh : w.toNat < 2 ^ (64 - w.toBitVec.clz.toNat) := BitVec.toNat_lt_two_pow_sub_clz
  have hlog : Word.highest w = 63 - w.toBitVec.clz.toNat := by
    refine (Nat.log2_eq_iff (Nat.ne_of_gt (Word.toNat_pos h))).2 ⟨hlow, ?_⟩
    rwa [show 63 - w.toBitVec.clz.toNat + 1 = 64 - w.toBitVec.clz.toNat by omega]
  rw [highest, minus_of (by omega), hlog]

/-- a word without its lowest position -/
def dropLowest (w : UInt64) : Guarded UInt64 := do return w &&& (← minusWord w 1)

theorem dropLowest_of {w : UInt64} (h : w ≠ 0) : dropLowest w = .ok (Word.dropLowest w) := by
  rw [dropLowest, minusWord_of (Word.one_le_of_toNat_pos (Word.toNat_pos h))]
  rfl

theorem lt_of_dropLowest {w rest : UInt64} (h : w ≠ 0) (hr : dropLowest w = .ok rest) : rest.toNat < w.toNat := by
  rw [dropLowest_of h] at hr
  cases hr
  exact Word.dropLowest_lt h

/-- the positions of a word, the lowest one taken off until none is left -/
def drain (w : UInt64) : Guarded (List Nat) :=
  if _h : w = 0 then .ok []
  else
    match _hr : dropLowest w with
    | .error stop => .error stop
    | .ok rest => do return Word.lowest w :: (← drain rest)
termination_by w.toNat
decreasing_by exact lt_of_dropLowest ‹_› ‹_›

theorem drain_eq (w : UInt64) : drain w = .ok (Word.positions w) := by
  rw [drain]
  by_cases h : w = 0
  · rw [dif_pos h, h, Word.positions_zero]
  · rw [dif_neg h, Word.positions_of_ne_zero h]
    split
    · next stop hr =>
      rw [dropLowest_of h] at hr
      cases hr
    · next rest hr =>
      rw [dropLowest_of h] at hr
      cases hr
      rw [drain_eq (Word.dropLowest w)]
      rfl
termination_by w.toNat
decreasing_by exact Word.dropLowest_lt h

/-! ## Buffers -/

/-- position `i` set in words that are grown up to its word first -/
def setBit (words : List UInt64) (i : Nat) : Guarded (List UInt64) := do
  let grown := words.rightpad (i / width + 1) 0
  let w ← item grown (i / width)
  return grown.set (i / width) (w ||| (← bit (i % width)))

theorem getElem?_grown (words : List UInt64) (k : Nat) :
    (words.rightpad (k + 1) 0)[k]? = some (words[k]?.getD 0) := by
  rw [List.rightpad, List.getElem?_append]
  split_ifs with hk
  · rw [List.getElem?_eq_getElem hk]
    rfl
  · rw [List.getElem?_replicate, if_pos (by omega), List.getElem?_eq_none (Nat.le_of_not_lt hk)]
    rfl

theorem set_grown (words : List UInt64) (k b : Nat) :
    (words.rightpad (k + 1) 0).set k (words[k]?.getD 0 ||| Word.bit b) = WordBuffer.setBit words k b := by
  induction k generalizing words with
  | zero =>
    cases words with
    | nil => simp [List.rightpad, WordBuffer.setBit]
    | cons w ws => simp [List.rightpad, WordBuffer.setBit]
  | succ k ih =>
    cases words with
    | nil =>
      have hrest := ih []
      simp only [List.rightpad, List.nil_append, List.length_nil, Nat.sub_zero, List.getElem?_nil] at hrest ⊢
      rw [List.replicate_succ, List.set_cons_succ, hrest, WordBuffer.setBit]
    | cons w ws =>
      have hrest := ih ws
      simp only [List.rightpad, List.cons_append, List.length_cons, Nat.add_sub_add_right, List.getElem?_cons_succ,
        List.set_cons_succ] at hrest ⊢
      rw [hrest, WordBuffer.setBit]

theorem setBit_eq (words : List UInt64) (i : Nat) :
    setBit words i = .ok (WordBuffer.setBit words (i / width) (i % width)) := by
  rw [setBit, item_of (getElem?_grown words _), bit_of (Nat.mod_lt i (by decide)), ← set_grown]
  rfl

/-- the buffer grown from nothing by inserting the positions in turn -/
def buffer (ps : List Nat) : Guarded WordBuffer :=
  ps.foldlM (fun buf i => do return ⟨← setBit buf.words i⟩) WordBuffer.empty

theorem buffer_eq (ps : List Nat) : buffer ps = .ok (WordBuffer.ofPositions ps) := by
  refine foldlM_along id (fun buf i _ => ?_) _
  rw [id_eq, setBit_eq]
  rfl

/-- the positions of words from one of them on, of which `current` is still in hand -/
def ones (words : List UInt64) (index : Nat) (current : UInt64) : Guarded (List Nat) :=
  if _h : current = 0 then
    if index + 1 < words.length then do ones words (index + 1) (← item words (index + 1)) else .ok []
  else
    match _hr : dropLowest current with
    | .error stop => .error stop
    | .ok rest => do return (index * width + Word.lowest current) :: (← ones words index rest)
termination_by (words.length - index, current.toNat)
decreasing_by
  · exact .left _ _ (by omega)
  · exact .right _ (lt_of_dropLowest ‹_› ‹_›)

section Cursors

open WordBuffer (Cursor)

theorem trace_end (k : Nat) : Cursor.trace ⟨k, 0, []⟩ = [] := Cursor.trace_of_next_none (c := ⟨k, 0, []⟩) rfl

theorem trace_skip (k : Nat) (w : UInt64) (ws : List UInt64) :
    Cursor.trace ⟨k, 0, w :: ws⟩ = Cursor.trace ⟨k + 1, w, ws⟩ := by
  rw [Cursor.trace, Cursor.trace]
  rfl

theorem trace_take (k : Nat) {w : UInt64} (h : w ≠ 0) (ws : List UInt64) :
    Cursor.trace ⟨k, w, ws⟩ =
      (k * width + Word.lowest w, ⟨k, Word.dropLowest w, ws⟩) :: Cursor.trace ⟨k, Word.dropLowest w, ws⟩ := by
  have hnext : Cursor.next ⟨k, w, ws⟩ = (some (k * width + Word.lowest w), ⟨k, Word.dropLowest w, ws⟩) := by
    cases ws <;> exact if_neg h
  exact Cursor.trace_of_next_some hnext

theorem ones_eq (words : List UInt64) (index : Nat) (current : UInt64) :
    ones words index current = .ok ((Cursor.trace ⟨index, current, words.drop (index + 1)⟩).map (·.1)) := by
  fun_induction ones words index current with
  | case1 index hlt ih =>
    rw [List.drop_eq_getElem_cons hlt, trace_skip, item_of (List.getElem?_eq_getElem hlt)]
    exact ih _
  | case2 index hle =>
    rw [List.drop_of_length_le (Nat.le_of_not_lt hle), trace_end]
    rfl
  | case3 index current h stop hr =>
    rw [dropLowest_of h] at hr
    cases hr
  | case4 index current h rest hr ih =>
    rw [dropLowest_of h] at hr
    cases hr
    rw [ih, trace_take index h]
    rfl

/-- the positions of a buffer -/
def positions (buf : WordBuffer) : Guarded (List Nat) := ones buf.words 0 (buf.words.head?.getD 0)

theorem positions_eq (buf : WordBuffer) : positions buf = .ok buf.positions := by
  obtain ⟨words⟩ := buf
  rw [positions, ones_eq]
  cases words <;> rfl

end Cursors

/-! ## Masks -/

/-- the word itself, if it is a mask over `size` elements -/
def acceptWord (w : UInt64) (size : Nat) : Guarded UInt64 := do
  if width < size then .error (.failed (.wordOverflow size))
  if size < width then
    if (← shiftRight w size) ≠ 0 then .error (.failed (.maskOutOfDomain (← highest w) size))
  return w

theorem acceptWord_eq (w : UInt64) (size : Nat) : acceptWord w size = answer (Mask.acceptWord w size) := by
  unfold acceptWord Mask.acceptWord
  by_cases hover : width < size
  · simp only [if_pos hover]
    rfl
  · by_cases hlt : size < width
    · simp only [if_neg hover, shiftRight_of hlt, hlt, ok_bind, true_and, if_true]
      by_cases hshift : w >>> UInt64.ofNat size = 0
      · simp only [hshift, ne_eq, not_true_eq_false, if_false]
        rfl
      · have hw : w ≠ 0 := by
          rintro rfl
          exact hshift (UInt64.zero_shiftRight ..)
        simp only [hshift, ne_eq, not_false_eq_true, if_true, highest_of hw]
        rfl
    · simp only [if_neg hover, hlt, false_and, if_false]
      rfl

/-- how many digits a number has in base two -/
def bitLength (n : Nat) : Nat := if n = 0 then 0 else n.log2 + 1

/-- the words of an integer, if it is a mask over `size` elements -/
def acceptInt (m : Int) (size : Nat) : Guarded WordBuffer := do
  if m < 0 then .error (.failed .negativeMask)
  if size < bitLength m.toNat then .error (.failed (.maskOutOfDomain (← minus (bitLength m.toNat) 1) size))
  return WordBuffer.ofNat m.toNat

theorem acceptInt_eq (m : Int) (size : Nat) : acceptInt m size = answer (Mask.acceptInt m size) := by
  unfold acceptInt Mask.acceptInt bitLength
  by_cases hneg : m < 0
  · simp only [if_pos hneg]
    rfl
  · by_cases hzero : m.toNat = 0
    · simp only [if_neg hneg, hzero]
      rfl
    · by_cases hsize : size ≤ m.toNat.log2
      · have hlen : size < m.toNat.log2 + 1 := Nat.lt_succ_of_le hsize
        simp only [if_neg hneg, hzero, hsize, hlen, minus_of (Nat.le_add_left 1 _), ne_eq, not_false_eq_true, and_self,
          if_true, if_false, Nat.add_sub_cancel]
        rfl
      · have hlen : ¬ size < m.toNat.log2 + 1 := by omega
        simp only [if_neg hneg, hzero, hsize, hlen, and_false, if_false]
        rfl

/-- the word of the one-bits of a list that come before the width of a word -/
def wordOfBits (bits : List Bool) : Guarded UInt64 := orBits 0 ((Mask.ones bits).takeWhile (· < width))

theorem wordOfBits_eq (bits : List Bool) : wordOfBits bits = .ok (Mask.wordOfBits bits) := by
  refine orBits_of (fun i hi => ?_) 0
  exact ((Mask.mem_takeWhile_lt (Mask.onesFrom_ascending bits 0)).1 hi).2

end Guarded

end SubsetAlgebra
