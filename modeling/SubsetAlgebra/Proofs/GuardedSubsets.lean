/-
Subsets without their bounds, and every operation on them that asks for its conditions.

The types of the library carry the bounds of a subset: a word has no bit past the end of the domain, and members belong
to it. A `Bare` subset is what is left without them, a domain and a word or members, so nothing but the course of the
program keeps it in order. Each operation is written once more on bare subsets, `Guarded` at every shift, difference and
access and at every place that is held to be out of reach.

For each there is one lemma, named after it: on what a subset is without its bounds (`Subset.bare`) it is not broken,
and its result is what the operation gives without the questions, again without its bounds.
-/
import SubsetAlgebra.Proofs.Agreement
import SubsetAlgebra.Proofs.GuardedWords

namespace SubsetAlgebra

open Guarded
open Word (width)

/-- how a subset is held, without a bound on it -/
inductive Form (α : Type) [Element α] where
  | word (w : UInt64)
  | members (m : Members α)

/-- a subset without its bounds -/
structure Bare (α : Type) [Element α] where
  domain : Domain α
  form : Form α
  adaptive : Bool

variable {α : Type} [Element α]

/-- what a subset is without its bounds -/
def Subset.bare (s : Subset α) : Bare α := ⟨s.domain, s.rep.elim (.word ·.word) (.members ·.members), s.adaptive⟩

namespace Bare

def ofCompact (t : CompactSubset α) : Bare α := (Subset.ofCompact t).bare

def ofGeneral (t : GeneralSubset α) : Bare α := (Subset.ofGeneral t).bare

/-! ## Looking -/

section Picking

variable {β γ : Type}

/-- a list looked up item by item -/
theorem mapM_of {f : β → Guarded γ} {g : β → Option γ} {xs : List β} (h : ∀ x ∈ xs, ∃ y, g x = some y ∧ f x = .ok y) :
    xs.mapM f = .ok (xs.filterMap g) := by
  induction xs with
  | nil => rfl
  | cons x xs ih =>
    obtain ⟨y, hg, hf⟩ := h x List.mem_cons_self
    rw [List.mapM_cons, hf, ih fun z hz => h z (List.mem_cons_of_mem _ hz), List.filterMap_cons_some hg]
    rfl

/-- a question asked of the items in turn, until one denies it -/
theorem allM_of {f : β → Guarded Bool} {g : β → Bool} {xs : List β} (h : ∀ x, f x = .ok (g x)) :
    xs.allM f = .ok (xs.all g) := by
  induction xs with
  | nil => rfl
  | cons x xs ih =>
    rw [List.allM, h x, List.all_cons]
    cases g x
    · rfl
    · exact ih

end Picking

/-- the elements at these positions -/
def pick (d : Domain α) (ps : List Nat) : Guarded (List α) := ps.mapM (item d.elements)

theorem pick_of {d : Domain α} {ps : List Nat} (h : ∀ i ∈ ps, i < d.size) : pick d ps = .ok (d.select ps) := by
  refine mapM_of fun i hi => ?_
  obtain ⟨a, ha⟩ := Domain.exists_getElem? (h i hi)
  exact ⟨a, ha, item_of ha⟩

/-- the positions of members, ascending -/
def sorted (d : Domain α) (m : Members α) : List Nat :=
  (m.toList.filterMap d.indexOf).mergeSort fun i j => decide (i ≤ j)

/-- the positions of the members, ascending -/
def positions (s : Bare α) : Guarded (List Nat) :=
  match s.form with
  | .word w => drain w
  | .members m => .ok (sorted s.domain m)

theorem positions_bare (s : Subset α) : s.bare.positions = .ok s.positions := by
  obtain ⟨rep, adaptive⟩ := s
  cases rep with
  | compact c => exact drain_eq c.word
  | general g => rfl

/-- the members in domain order -/
def toList (s : Bare α) : Guarded (List α) := do pick s.domain (← s.positions)

theorem toList_bare (s : Subset α) : s.bare.toList = .ok s.toList := by
  rw [toList, positions_bare]
  exact pick_of fun i hi => Subset.lt_of_mem_positions hi

theorem toList_ofCompact (t : CompactSubset α) : (ofCompact t).toList = .ok t.toList := toList_bare (.ofCompact t)

/-- the members in domain order, each with its position -/
def indexed (s : Bare α) : Guarded (List (Pair Nat α)) := do
  (← s.positions).mapM fun i => do return ⟨i, ← item s.domain.elements i⟩

theorem indexed_bare (s : Subset α) : s.bare.indexed = .ok s.indexed := by
  rw [indexed, positions_bare]
  refine mapM_of fun i hi => ?_
  obtain ⟨a, ha⟩ := Domain.exists_getElem? (Subset.lt_of_mem_positions hi)
  refine ⟨⟨i, a⟩, by rw [ha]; rfl, ?_⟩
  have hitem : item s.bare.domain.elements i = .ok a := item_of ha
  rw [hitem]
  rfl

/-- whether the element at this position is a member -/
def containsPosition (s : Bare α) (p : Nat) : Guarded Bool :=
  match s.form with
  | .word w => has w p
  | .members m => .ok (match s.domain.get p with
    | .ok e => m.contains e
    | .error _ => false)

theorem containsPosition_bare (s : Subset α) (p : Nat) : s.bare.containsPosition p = .ok (s.containsPosition p) := by
  obtain ⟨rep, adaptive⟩ := s
  cases rep with
  | compact c => exact has_eq c.word p
  | general g => rfl

/-- whether an element equal to `e` is a member -/
def contains (s : Bare α) (e : α) : Guarded Bool :=
  match s.form with
  | .word w =>
    match s.domain.indexOf e with
    | some i => has w i
    | none => .ok false
  | .members m => .ok (m.contains e)

theorem contains_bare (s : Subset α) (e : α) : s.bare.contains e = .ok (s.contains e) := by
  obtain ⟨rep, adaptive⟩ := s
  cases rep with
  | compact c =>
    change contains ⟨c.domain, .word c.word, adaptive⟩ e = .ok (c.contains e)
    simp only [contains, CompactSubset.contains]
    cases c.domain.indexOf e with
    | none => rfl
    | some i => exact has_eq c.word i
  | general g => rfl

/-! ## Changing -/

/-- adds an element; the flag says whether it was not a member before -/
def insert (s : Bare α) (e : α) : Guarded (Bare α × Bool) :=
  match s.form with
  | .word w =>
    match s.domain.indexOf e with
    | none => .error (.failed .foreignElement)
    | some i => do
      let b ← bit i
      return ({ s with form := .word (w ||| b) }, w &&& b == 0)
  | .members m =>
    if s.domain.contains e then .ok ({ s with form := .members (m.insert e) }, !m.contains e)
    else .error (.failed .foreignElement)

theorem insert_bare (s : Subset α) (e : α) : s.bare.insert e = answer ((s.insert e).map fun r => (r.1.bare, r.2)) := by
  obtain ⟨rep, adaptive⟩ := s
  cases rep with
  | compact c =>
    change insert ⟨c.domain, .word c.word, adaptive⟩ e = _
    simp only [insert, Subset.insert, CompactSubset.insert]
    split
    · next hi =>
      split
      · rfl
      · next i hi' => rw [hi] at hi'; cases hi'
    · next i hi =>
      rw [bit_of ((Domain.indexOf_lt hi).trans_le c.fits)]
      split
      · next hi' => rw [hi] at hi'; cases hi'
      · next j hj =>
        rw [hi] at hj
        cases hj
        rfl
  | general g =>
    change insert ⟨g.domain, .members g.members, adaptive⟩ e = _
    simp only [insert, Subset.insert, GeneralSubset.insert]
    by_cases h : g.domain.contains e = true
    · rw [if_pos h, dif_pos h]
      rfl
    · rw [if_neg h, dif_neg h]
      rfl

/-- removes an element; the flag says whether it was a member before -/
def erase (s : Bare α) (e : α) : Guarded (Bare α × Bool) :=
  match s.form with
  | .word w =>
    match s.domain.indexOf e with
    | none => .ok (s, false)
    | some i => do
      let b ← bit i
      return ({ s with form := .word (w &&& ~~~b) }, w &&& b != 0)
  | .members m => .ok ({ s with form := .members (m.erase e) }, m.contains e)

theorem erase_bare (s : Subset α) (e : α) : s.bare.erase e = .ok ((s.erase e).1.bare, (s.erase e).2) := by
  obtain ⟨rep, adaptive⟩ := s
  cases rep with
  | compact c =>
    change erase ⟨c.domain, .word c.word, adaptive⟩ e = _
    simp only [erase, Subset.erase, CompactSubset.erase]
    cases hi : c.domain.indexOf e with
    | none => rfl
    | some i =>
      simp only [bit_of ((Domain.indexOf_lt hi).trans_le c.fits)]
      rfl
  | general g => rfl

/-- removes every member -/
def clear (s : Bare α) : Bare α :=
  { s with form := match s.form with
      | .word _ => .word 0
      | .members _ => .members Members.empty }

theorem clear_bare (s : Subset α) : s.bare.clear = s.clear.bare := by
  obtain ⟨rep, adaptive⟩ := s
  cases rep <;> rfl

/-- the elements of the domain that are not members -/
def complement (s : Bare α) : Guarded (Bare α) :=
  match s.form with
  | .word w => do return { s with form := .word (~~~w &&& (← low s.domain.size)) }
  | .members m => .ok { s with form := .members (Members.ofList (s.domain.elements.filter fun e => !m.contains e)) }

theorem complement_bare (s : Subset α) : s.bare.complement = .ok s.complement.bare := by
  obtain ⟨rep, adaptive⟩ := s
  cases rep with
  | compact c =>
    change complement ⟨c.domain, .word c.word, adaptive⟩ = _
    simp only [complement, low_of c.fits]
    rfl
  | general g => rfl

/-- adds elements in turn that are known to the domain, so none of them is refused -/
def insertAll (s : Bare α) (n : Nat) : List α → Guarded (Bare α × Nat)
  | [] => .ok (s, n)
  | e :: rest =>
    match s.insert e with
    | .error _ => .error .broken
    | .ok (s, new) => s.insertAll (if new then n + 1 else n) rest

theorem insertAll_bare {es : List α} {s : Subset α} (h : ∀ e ∈ es, s.domain.contains e = true) (n : Nat) :
    s.bare.insertAll n es = answer ((s.insertAll n es).map fun r => (r.1.bare, r.2)) := by
  induction es generalizing s n with
  | nil => rfl
  | cons e es ih =>
    obtain ⟨i, hi⟩ := Domain.contains_iff_indexOf.1 (h e List.mem_cons_self)
    obtain ⟨t, ht, hrev⟩ := Subset.insert_known hi
    have hrest : ∀ e' ∈ es, t.domain.contains e' = true := by
      intro e' he'
      rw [hrev.domain]
      exact h e' (List.mem_cons_of_mem _ he')
    have hstep : s.bare.insert e = .ok (t.bare, !s.containsPosition i) := by
      rw [insert_bare, ht]
      rfl
    simp only [insertAll, hstep, Subset.insertAll, ht]
    exact ih hrest _

/-- adds every element and says how many were new, or adds none if one is foreign -/
def extend (s : Bare α) (es : List α) : Guarded (Bare α × Nat) :=
  if es.any fun e => !s.domain.contains e then .error (.failed .foreignElement) else s.insertAll 0 es

theorem extend_bare (s : Subset α) (es : List α) :
    s.bare.extend es = answer ((s.extend es).map fun r => (r.1.bare, r.2)) := by
  change (if es.any (fun e => !s.domain.contains e) then _ else _) = _
  unfold Subset.extend
  split_ifs with hany
  · rfl
  · refine insertAll_bare (fun e he => ?_) 0
    by_contra hc
    exact hany (Domain.any_foreign_iff.2 ⟨e, he, by simpa using hc⟩)

/-! ## Operands -/

/-- the word of the positions of these elements, added to `w` -/
def wordOf (d : Domain α) (rule : ForeignRule) (w : UInt64) : List α → Guarded UInt64
  | [] => .ok w
  | e :: rest =>
    match d.indexOf e with
    | some i => do wordOf d rule (w ||| (← bit i)) rest
    | none => if rule = .reject then .error (.failed .foreignElement) else wordOf d rule w rest

theorem wordOf_eq {d : Domain α} (hd : d.size ≤ width) (rule : ForeignRule) (w : UInt64) (es : List α) :
    wordOf d rule w es = answer (CompactSubset.wordOf d rule w es) := by
  induction es generalizing w with
  | nil => rfl
  | cons e es ih =>
    simp only [wordOf, CompactSubset.wordOf]
    cases hi : d.indexOf e with
    | some i =>
      simp only [bit_of ((Domain.indexOf_lt hi).trans_le hd)]
      exact ih _
    | none =>
      simp only
      split_ifs
      · rfl
      · exact ih w

/-- the word of the positions that an operand names -/
def resolveWord (d : Domain α) (rule : ForeignRule) : Operand α → Guarded UInt64
  | .word w => acceptWord w d.size
  | .mask m => do return (← acceptInt m d.size).words.head?.getD 0
  | .bits b => do
    answer (Mask.acceptBits b d.size)
    wordOfBits b
  | .elements es => wordOf d rule 0 es
  | .members m => wordOf d rule 0 m.toList
  | .compact t => do if d.same t.domain then return t.word else wordOf d rule 0 (← (ofCompact t).toList)
  | .general t => do
    if d.same t.domain then orBits 0 (← (ofGeneral t).positions) else wordOf d rule 0 (← (ofGeneral t).toList)

theorem resolveWord_eq {d : Domain α} (hd : d.size ≤ width) (rule : ForeignRule) (o : Operand α) :
    resolveWord d rule o = answer (CompactSubset.resolve d rule o) := by
  cases o with
  | word w => exact acceptWord_eq w d.size
  | mask m =>
    simp only [resolveWord, CompactSubset.resolve, acceptInt_eq]
    cases Mask.acceptInt m d.size <;> rfl
  | bits b =>
    simp only [resolveWord, CompactSubset.resolve, wordOfBits_eq]
    cases Mask.acceptBits b d.size <;> rfl
  | elements es => exact wordOf_eq hd rule 0 es
  | members m => exact wordOf_eq hd rule 0 m.toList
  | compact t =>
    simp only [resolveWord, CompactSubset.resolve, toList_ofCompact]
    split_ifs
    · rfl
    · exact wordOf_eq hd rule 0 t.toList
  | general t =>
    have hpositions : (ofGeneral t).positions = .ok t.positions := positions_bare (.ofGeneral t)
    have hlist : (ofGeneral t).toList = .ok t.toList := toList_bare (.ofGeneral t)
    simp only [resolveWord, CompactSubset.resolve, hpositions, hlist]
    split_ifs with hs
    · refine orBits_of (fun i hi => ?_) 0
      have hlt := GeneralSubset.lt_of_mem_positions hi
      rw [← Domain.size_eq_of_same hs] at hlt
      omega
    · exact wordOf_eq hd rule 0 t.toList

/-- the elements at these positions, as a set -/
def elementsAt (d : Domain α) (ps : List Nat) : Guarded (Members α) := do return Members.ofList (← pick d ps)

theorem elementsAt_of {d : Domain α} {ps : List Nat} (h : ∀ i ∈ ps, i < d.size) :
    elementsAt d ps = .ok (GeneralSubset.elementsAt d ps) := by
  rw [elementsAt, pick_of h]
  rfl

/-- the set of the elements that an operand names -/
def resolveMembers (d : Domain α) (rule : ForeignRule) : Operand α → Guarded (Members α)
  | .word w => do elementsAt d (← drain (← acceptWord w d.size))
  | .mask m => do elementsAt d (← Guarded.positions (← acceptInt m d.size))
  | .bits b => do
    answer (Mask.acceptBits b d.size)
    elementsAt d (Mask.ones b)
  | .elements es => answer (GeneralSubset.checked d rule es (Members.ofList es))
  | .members m => answer (GeneralSubset.checked d rule m.toList m)
  | .compact t => do
    let es ← (ofCompact t).toList
    if d.same t.domain then return Members.ofList es else answer (GeneralSubset.checked d rule es (Members.ofList es))
  | .general t =>
    if d.same t.domain then .ok t.members else answer (GeneralSubset.checked d rule t.members.toList t.members)

theorem resolveMembers_eq (d : Domain α) (rule : ForeignRule) (o : Operand α) :
    resolveMembers d rule o = answer (GeneralSubset.resolve d rule o) := by
  cases o with
  | word w =>
    simp only [resolveMembers, GeneralSubset.resolve, acceptWord_eq]
    cases hw : Mask.acceptWord w d.size with
    | error e => rfl
    | ok v =>
      have hwithin : ∀ i ∈ Word.positions v, i < d.size := fun i hi =>
        Word.lt_of_mem_positions (Mask.acceptWord_lt hw) hi
      change (do elementsAt d (← drain v)) = _
      rw [drain_eq]
      exact elementsAt_of hwithin
  | mask m =>
    simp only [resolveMembers, GeneralSubset.resolve, acceptInt_eq]
    cases hm : Mask.acceptInt m d.size with
    | error e => rfl
    | ok buf =>
      have hwithin : ∀ i ∈ buf.positions, i < d.size := by
        intro i hi
        obtain ⟨rfl, hlt⟩ := Mask.acceptInt_eq_ok hm
        rw [WordBuffer.mem_positions, WordBuffer.has_ofNat] at hi
        by_contra hge
        rw [Nat.testBit_lt_two_pow (hlt.trans_le (Nat.pow_le_pow_right (by decide) (Nat.le_of_not_lt hge)))] at hi
        cases hi
      change (do elementsAt d (← Guarded.positions buf)) = _
      rw [positions_eq]
      exact elementsAt_of hwithin
  | bits b =>
    simp only [resolveMembers, GeneralSubset.resolve]
    cases hb : Mask.acceptBits b d.size with
    | error e => rfl
    | ok _ => exact elementsAt_of fun i hi => Mask.lt_of_acceptBits hb hi
  | elements es => rfl
  | members m => rfl
  | compact t =>
    simp only [resolveMembers, GeneralSubset.resolve, toList_ofCompact]
    split_ifs <;> rfl
  | general t =>
    simp only [resolveMembers, GeneralSubset.resolve]
    split_ifs <;> rfl

/-! ## Algebra -/

/-- what becomes of a subset by an operand, word by word or set by set -/
def combine (rule : ForeignRule) (onWords : UInt64 → UInt64 → UInt64) (onMembers : Members α → Members α → Members α)
    (s : Bare α) (o : Operand α) : Guarded (Bare α) :=
  match s.form with
  | .word w => do return { s with form := .word (onWords w (← resolveWord s.domain rule o)) }
  | .members m => do return { s with form := .members (onMembers m (← resolveMembers s.domain rule o)) }

theorem combine_bare {rule : ForeignRule} {f : UInt64 → UInt64 → UInt64} {g : Members α → Members α → Members α}
    {o : Operand α} {onCompact : CompactSubset α → Except Error (CompactSubset α)}
    {onGeneral : GeneralSubset α → Except Error (GeneralSubset α)}
    (hc : ∀ c adaptive, (onCompact c).map (fun t => Subset.bare ⟨.compact t, adaptive⟩) =
      (CompactSubset.resolve c.domain rule o).map fun w => ⟨c.domain, .word (f c.word w), adaptive⟩)
    (hg : ∀ c adaptive, (onGeneral c).map (fun t => Subset.bare ⟨.general t, adaptive⟩) =
      (GeneralSubset.resolve c.domain rule o).map fun m => ⟨c.domain, .members (g c.members m), adaptive⟩)
    (s : Subset α) :
    s.bare.combine rule f g o =
      answer (((s.rep.mapM onCompact onGeneral).map fun r => { s with rep := r }).map Subset.bare) := by
  obtain ⟨rep, adaptive⟩ := s
  cases rep with
  | compact c =>
    have hop : (((onCompact c).map Representation.compact).map fun r => (⟨r, adaptive⟩ : Subset α)).map Subset.bare =
        (onCompact c).map fun t => Subset.bare ⟨.compact t, adaptive⟩ := by
      cases onCompact c <;> rfl
    change combine rule f g ⟨c.domain, .word c.word, adaptive⟩ o = answer ((((onCompact c).map _).map _).map _)
    rw [hop, hc]
    simp only [combine, resolveWord_eq c.fits]
    cases CompactSubset.resolve c.domain rule o <;> rfl
  | general c =>
    have hop : (((onGeneral c).map Representation.general).map fun r => (⟨r, adaptive⟩ : Subset α)).map Subset.bare =
        (onGeneral c).map fun t => Subset.bare ⟨.general t, adaptive⟩ := by
      cases onGeneral c <;> rfl
    change combine rule f g ⟨c.domain, .members c.members, adaptive⟩ o = answer ((((onGeneral c).map _).map _).map _)
    rw [hop, hg]
    simp only [combine, resolveMembers_eq]
    cases GeneralSubset.resolve c.domain rule o <;> rfl

/-- the members and what the operand names -/
def union (s : Bare α) (o : Operand α) : Guarded (Bare α) := s.combine .reject (· ||| ·) Members.union o

/-- the members that the operand names -/
def inter (s : Bare α) (o : Operand α) : Guarded (Bare α) := s.combine .ignore (· &&& ·) Members.inter o

/-- the members that the operand does not name -/
def diff (s : Bare α) (o : Operand α) : Guarded (Bare α) := s.combine .ignore (fun w v => w &&& ~~~v) Members.diff o

theorem union_bare (s : Subset α) (o : Operand α) : s.bare.union o = answer ((s.union o).map Subset.bare) := by
  refine combine_bare (fun c adaptive => ?_) (fun c adaptive => ?_) s
  · unfold CompactSubset.union
    split <;> next h => simp only [h]; rfl
  · unfold GeneralSubset.union
    split <;> next h => simp only [h]; rfl

theorem inter_bare (s : Subset α) (o : Operand α) : s.bare.inter o = answer ((s.inter o).map Subset.bare) := by
  refine combine_bare (fun c adaptive => ?_) (fun c adaptive => ?_) s
  · unfold CompactSubset.inter
    split <;> next h => simp only [h]; rfl
  · unfold GeneralSubset.inter
    split <;> next h => simp only [h]; rfl

theorem diff_bare (s : Subset α) (o : Operand α) : s.bare.diff o = answer ((s.diff o).map Subset.bare) := by
  refine combine_bare (fun c adaptive => ?_) (fun c adaptive => ?_) s
  · unfold CompactSubset.diff
    split <;> next h => simp only [h]; rfl
  · unfold GeneralSubset.diff
    split <;> next h => simp only [h]; rfl

end Bare

end SubsetAlgebra
