/-
What an operand selects, and when it is at fault.

An operand names positions by number (`marks`) or elements (`names`); over a domain it selects the positions that it
names and those of the elements that it names (`selection`). It is at fault (`Fault`) if it is a word over more than 64
elements, a negative integer, a mask with a position past the end, or, where foreign elements are rejected, if it names
one. These definitions know nothing of how a subset is held.

Both forms of subset resolve an operand by code of their own, one to a word, the other to a set of elements.
`CompactSubset.resolve_answers` and `GeneralSubset.resolve_answers` say that each fails with the operand's fault exactly
where it has one, and otherwise finds its selection: in particular where a subset of an equal domain is taken over as it
is, and where foreign elements are passed over.
-/
import SubsetAlgebra.Proofs.Positions

namespace SubsetAlgebra

open Word (width)

variable {α : Type} [Element α]

/-- the positions of the elements of a list -/
def Domain.placesOf (d : Domain α) (es : List α) : Set Nat := {i | ∃ e ∈ es, d.indexOf e = some i}

namespace Operand

/-! ## Selection and faults -/

/-- the positions that an operand names by number -/
def marks : Operand α → Nat → Bool
  | word w => Word.has w
  | mask m => m.toNat.testBit
  | bits b => Mask.bitAt b
  | _ => fun _ => false

/-- whether an element equal to `e` is among those that an operand names -/
def names : Operand α → α → Bool
  | elements es, e => es.any (· == e)
  | members m, e => m.contains e
  | compact t, e => t.contains e
  | general t, e => t.contains e
  | _, _ => false

/-- the positions of `d` that an operand selects -/
def selection (o : Operand α) (d : Domain α) : Set Nat :=
  {i | o.marks i = true ∨ ∃ e, o.names e = true ∧ d.indexOf e = some i}

/-- what is wrong with an operand over `d`, under a rule for foreign elements -/
inductive Fault (d : Domain α) : ForeignRule → Operand α → Error → Prop where
  /-- a word has no bit for every position, whatever word it is -/
  | overflow {rule : ForeignRule} {w : UInt64} : width < d.size → Fault d rule (word w) (.wordOverflow d.size)
  | negative {rule : ForeignRule} {m : Int} : m < 0 → Fault d rule (mask m) .negativeMask
  | beyond {rule : ForeignRule} {o : Operand α} {b : Nat} :
    Mask.Highest o.marks b → d.size ≤ b → Fault d rule o (.maskOutOfDomain b d.size)
  | foreign {o : Operand α} {e : α} : o.names e = true → d.contains e = false → Fault d .reject o .foreignElement

theorem fault_or_none (o : Operand α) (d : Domain α) (rule : ForeignRule) :
    (∃ e, o.Fault d rule e) ∨ ∀ e, ¬ o.Fault d rule e :=
  (Classical.em _).imp_right not_exists.1

/-- the answer `r` to an operand is its fault, or something good where there is none -/
structure Answers {β : Type} (o : Operand α) (d : Domain α) (rule : ForeignRule) (r : Except Error β)
    (Good : β → Prop) : Prop where
  fault : ∀ e, o.Fault d rule e → r = .error e
  sound : (∀ e, ¬ o.Fault d rule e) → ∃ v, r = .ok v ∧ Good v

namespace Answers

variable {β γ : Type} {o : Operand α} {d : Domain α} {rule : ForeignRule} {r : Except Error β} {Good : β → Prop}

theorem error_iff (h : Answers o d rule r Good) (e : Error) : r = .error e ↔ o.Fault d rule e := by
  refine ⟨fun hr => ?_, h.fault e⟩
  rcases o.fault_or_none d rule with ⟨e', he'⟩ | hnone
  · have := h.fault e' he'
    rw [hr] at this
    cases this
    exact he'
  · obtain ⟨v, hv, -⟩ := h.sound hnone
    rw [hr] at hv
    cases hv

theorem good (h : Answers o d rule r Good) {v : β} (hv : r = .ok v) : Good v := by
  have hnone : ∀ e, ¬ o.Fault d rule e := by
    intro e he
    have := h.fault e he
    rw [hv] at this
    cases this
  obtain ⟨u, hu, hgood⟩ := h.sound hnone
  rw [hv] at hu
  cases hu
  exact hgood

theorem ok_iff (h : Answers o d rule r Good) : (∃ v, r = .ok v) ↔ ∀ e, ¬ o.Fault d rule e := by
  constructor
  · intro h' e he
    obtain ⟨v, hv⟩ := h'
    rw [h.fault e he] at hv
    cases hv
  · intro hnone
    obtain ⟨v, hv, -⟩ := h.sound hnone
    exact ⟨v, hv⟩

/-- what goes on from an answer fails where it fails, and keeps to what is good about it -/
theorem trans {r' : Except Error γ} {Good' : γ → Prop} (h : Answers o d rule r Good)
    (failed : ∀ e, r = .error e → r' = .error e)
    (went_on : ∀ v, r = .ok v → (∀ e, ¬ o.Fault d rule e) → Good v → ∃ t, r' = .ok t ∧ Good' t) :
    Answers o d rule r' Good' where
  fault e he := failed e (h.fault e he)
  sound hnone := by
    obtain ⟨v, hv, hgood⟩ := h.sound hnone
    exact went_on v hv hnone hgood

theorem map {f : β → γ} {Good' : γ → Prop} (h : Answers o d rule r Good)
    (hf : (∀ e, ¬ o.Fault d rule e) → ∀ v, Good v → Good' (f v)) : Answers o d rule (r.map f) Good' := by
  refine h.trans (fun e he => ?_) fun v hv hnone hgood => ⟨f v, ?_, hf hnone v hgood⟩
  · rw [he]; rfl
  · rw [hv]; rfl

end Answers

theorem marks_bounded (o : Operand α) : ∃ N, ∀ i, o.marks i = true → i < N := by
  cases o with
  | word w => exact ⟨width, fun i hi => Word.lt_width_of_has hi⟩
  | mask m =>
    refine ⟨m.toNat, fun i hi => ?_⟩
    exact Nat.lt_of_lt_of_le Nat.lt_two_pow_self (Nat.ge_two_pow_of_testBit hi)
  | bits b => exact ⟨b.length, fun i hi => Mask.lt_length_of_bitAt hi⟩
  | _ => exact ⟨0, fun i hi => by cases hi⟩

theorem lt_size_of_marks {o : Operand α} {d : Domain α} {rule : ForeignRule} (h : ∀ e, ¬ o.Fault d rule e) {i : Nat}
    (hi : o.marks i = true) : i < d.size := by
  obtain ⟨N, hN⟩ := o.marks_bounded
  rcases Mask.within_or_beyond hN d.size with hw | ⟨b, hb, hn⟩
  · exact hw i hi
  · exact absurd (Fault.beyond hb hn) (h _)

/-- an operand that names no elements selects what it names by number -/
theorem mem_selection_mask {o : Operand α} {d : Domain α} (hnames : ∀ e, o.names e = false) {i : Nat} :
    i ∈ o.selection d ↔ o.marks i = true := by
  simp only [selection, hnames, Set.mem_ofPred_eq, Bool.false_eq_true, false_and, exists_false, or_false]

/-- without a fault only positions of the domain are selected -/
theorem lt_size_of_selection {o : Operand α} {d : Domain α} {rule : ForeignRule} (h : ∀ e, ¬ o.Fault d rule e) {i : Nat}
    (hi : i ∈ o.selection d) : i < d.size := by
  rcases hi with hi | ⟨e, -, hi⟩
  · exact lt_size_of_marks h hi
  · exact Domain.indexOf_lt hi

/-- a mask whose verdict follows the one rule is answered by its fault or by what it stands for -/
theorem answers_of_judged {β : Type} {o : Operand α} {d : Domain α} {rule : ForeignRule} {r : Except Error β} {v : β}
    (hj : Mask.Judged o.marks d.size r v)
    (only : ∀ e, o.Fault d rule e → ∃ b, e = .maskOutOfDomain b d.size ∧ Mask.Highest o.marks b ∧ d.size ≤ b) :
    Answers o d rule r (· = v) where
  fault e he := by
    obtain ⟨b, rfl, hb, hn⟩ := only e he
    exact hj.beyond b hb hn
  sound hnone := ⟨v, hj.within fun _ hi => lt_size_of_marks hnone hi, rfl⟩

theorem word_answers (w : UInt64) (d : Domain α) (rule : ForeignRule) :
    Answers (word w) d rule (Mask.acceptWord w d.size) (· = w) := by
  by_cases hd : d.size ≤ width
  · refine answers_of_judged (Mask.acceptWord_judged w hd) fun e he => ?_
    cases he with
    | overflow h => omega
    | beyond hb hn => exact ⟨_, rfl, hb, hn⟩
    | foreign h _ => cases h
  · refine ⟨fun e he => ?_, fun hnone => absurd (.overflow (by omega)) (hnone _)⟩
    cases he with
    | overflow h => exact Mask.acceptWord_overflow w h
    | beyond hb hn => have := Word.lt_width_of_has hb.1; omega
    | foreign h _ => cases h

theorem mask_answers (m : Int) (d : Domain α) (rule : ForeignRule) :
    Answers (mask m) d rule (Mask.acceptInt m d.size) (· = WordBuffer.ofNat m.toNat) := by
  by_cases hm : 0 ≤ m
  · refine answers_of_judged (Mask.acceptInt_judged hm d.size) fun e he => ?_
    cases he with
    | negative h => omega
    | beyond hb hn => exact ⟨_, rfl, hb, hn⟩
    | foreign h _ => cases h
  · refine ⟨fun e he => ?_, fun hnone => absurd (.negative (by omega)) (hnone _)⟩
    cases he with
    | negative h => exact Mask.acceptInt_negative h _
    | beyond hb hn =>
      have hz : m.toNat = 0 := by omega
      have := hb.1
      simp [marks, hz] at this
    | foreign h _ => cases h

theorem bits_answers (b : List Bool) (d : Domain α) (rule : ForeignRule) :
    Answers (bits b) d rule (Mask.acceptBits b d.size) (fun _ => True) := by
  have h : Answers (bits b) d rule (Mask.acceptBits b d.size) (· = ()) := by
    refine answers_of_judged (Mask.acceptBits_judged b d.size) fun e he => ?_
    cases he with
    | beyond hb hn => exact ⟨_, rfl, hb, hn⟩
    | foreign h _ => cases h
  exact ⟨h.fault, fun hnone => (h.sound hnone).imp fun _ hv => ⟨hv.1, trivial⟩⟩

/-! ## Operands that name elements -/

/-- the elements that an operand names are those of a list, and it names nothing by number -/
structure Lists (o : Operand α) (es : List α) : Prop where
  marks : ∀ i, o.marks i = false
  names : ∀ e, o.names e = es.any (· == e)
  not_word : ∀ w, o ≠ word w
  not_mask : ∀ m, o ≠ mask m

theorem elements_lists (es : List α) : (elements es).Lists es :=
  ⟨fun _ => rfl, fun _ => rfl, fun _ => nofun, fun _ => nofun⟩

theorem members_lists (m : Members α) : (members m).Lists m.toList :=
  ⟨fun _ => rfl, fun _ => rfl, fun _ => nofun, fun _ => nofun⟩

theorem subset_lists (t : Subset α) : t.toOperand.Lists t.toList := by
  obtain ⟨rep, adaptive⟩ := t
  cases rep with
  | compact c =>
    exact ⟨fun _ => rfl, Subset.contains_eq_any_toList ⟨.compact c, adaptive⟩, fun _ => nofun, fun _ => nofun⟩
  | general g =>
    exact ⟨fun _ => rfl, Subset.contains_eq_any_toList ⟨.general g, adaptive⟩, fun _ => nofun, fun _ => nofun⟩

theorem general_lists_members (t : GeneralSubset α) : (general t).Lists t.members.toList :=
  ⟨fun _ => rfl, fun _ => rfl, fun _ => nofun, fun _ => nofun⟩

namespace Lists

variable {o : Operand α} {es : List α} {d : Domain α} {rule : ForeignRule}

theorem fault_iff (h : o.Lists es) (e : Error) :
    o.Fault d rule e ↔ rule = .reject ∧ e = .foreignElement ∧ ∃ x ∈ es, d.contains x = false := by
  constructor
  · intro hf
    cases hf with
    | overflow _ => exact absurd rfl (h.not_word _)
    | negative _ => exact absurd rfl (h.not_mask _)
    | beyond hb _ => have := hb.1; rw [h.marks] at this; cases this
    | @foreign _ x hx hd =>
      rw [h.names, List.any_eq_true] at hx
      obtain ⟨y, hy, hyx⟩ := hx
      refine ⟨rfl, rfl, y, hy, ?_⟩
      rw [← Domain.indexOf_eq_none_iff] at hd ⊢
      rw [Domain.indexOf_congr d hyx, hd]
  · intro h'
    obtain ⟨rfl, rfl, x, hx, hd⟩ := h'
    refine .foreign ?_ hd
    rw [h.names, List.any_eq_true]
    exact ⟨x, hx, BEq.rfl⟩

theorem selection_eq (h : o.Lists es) : o.selection d = d.placesOf es := by
  ext i
  constructor
  · intro h'
    rcases h' with hi | ⟨e, he, hi⟩
    · rw [h.marks] at hi; cases hi
    · rw [h.names, List.any_eq_true] at he
      obtain ⟨x, hx, hxe⟩ := he
      exact ⟨x, hx, by rw [Domain.indexOf_congr d hxe, hi]⟩
  · intro h'
    obtain ⟨e, he, hi⟩ := h'
    refine Or.inr ⟨e, ?_, hi⟩
    rw [h.names, List.any_eq_true]
    exact ⟨e, he, BEq.rfl⟩

/-- a membership test agrees with the selection if it agrees with the list -/
theorem contains_iff (h : o.Lists es) {m : Members α} (hm : ∀ e, m.contains e = es.any (· == e)) {e : α} {i : Nat}
    (hi : d.indexOf e = some i) : m.contains e = true ↔ i ∈ o.selection d := by
  rw [hm, h.selection_eq, List.any_eq_true]
  constructor
  · intro h'
    obtain ⟨x, hx, hxe⟩ := h'
    exact ⟨x, hx, by rw [Domain.indexOf_congr d hxe, hi]⟩
  · intro h'
    obtain ⟨x, hx, hxi⟩ := h'
    obtain ⟨a, ha, hae⟩ := Domain.indexOf_eq_some_iff.1 hi
    obtain ⟨b, hb, hbx⟩ := Domain.indexOf_eq_some_iff.1 hxi
    rw [ha] at hb
    cases hb
    exact ⟨x, hx, BEq.trans (BEq.symm hbx) hae⟩

end Lists

/-! ## Subsets of an equal domain -/

theorem contains_of_mem_toList {d : Domain α} {t : Subset α} (h : d.same t.domain = true) {e : α} (he : e ∈ t.toList) :
    d.contains e = true := by
  rw [Domain.contains_eq_of_same h]
  exact Domain.contains_of_mem (Domain.mem_of_mem_select he)

/-- a subset of an equal domain names nothing foreign -/
theorem not_fault_of_same {d : Domain α} {t : Subset α} (h : d.same t.domain = true) (rule : ForeignRule) (e : Error) :
    ¬ t.toOperand.Fault d rule e := by
  rw [(subset_lists t).fault_iff]
  intro h'
  obtain ⟨-, -, x, hx, hd⟩ := h'
  rw [contains_of_mem_toList h hx] at hd
  cases hd

theorem placesOf_toList {d : Domain α} {t : Subset α} (h : d.same t.domain = true) :
    d.placesOf t.toList = t.places := by
  ext i
  constructor
  · intro h'
    obtain ⟨e, he, hi⟩ := h'
    obtain ⟨j, hj, hget⟩ := Subset.mem_toList.1 he
    rw [Domain.indexOf_eq_of_same h, Domain.indexOf_of_getElem? hget] at hi
    cases hi
    exact hj
  · intro hi
    obtain ⟨a, ha⟩ := Domain.exists_getElem? (Subset.lt_of_mem_positions hi)
    refine ⟨a, Subset.mem_toList.2 ⟨i, hi, ha⟩, ?_⟩
    rw [Domain.indexOf_eq_of_same h, Domain.indexOf_of_getElem? ha]

/-- a subset of an equal domain selects its own positions -/
theorem selection_of_same {d : Domain α} {t : Subset α} (h : d.same t.domain = true) :
    t.toOperand.selection d = t.places :=
  (subset_lists t).selection_eq.trans (placesOf_toList h)

/-- for a subset of an equal domain any good answer will do -/
theorem Answers.of_same {β : Type} {d : Domain α} {t : Subset α} (h : d.same t.domain = true) {rule : ForeignRule}
    {v : β} {Good : β → Prop} (hgood : Good v) : Answers t.toOperand d rule (.ok v) Good :=
  ⟨fun e he => absurd he (not_fault_of_same h rule e), fun _ => ⟨v, rfl, hgood⟩⟩

end Operand

open Operand (Answers)

/-! ## Operands as words -/

namespace CompactSubset

theorem wordOf_foreign {d : Domain α} {es : List α} (h : ∃ x ∈ es, d.contains x = false) (w : UInt64) :
    wordOf d .reject w es = .error .foreignElement := by
  induction es generalizing w with
  | nil => obtain ⟨x, hx, -⟩ := h; cases hx
  | cons e es ih =>
    unfold wordOf
    split
    · next i hi =>
      obtain ⟨x, hx, hc⟩ := h
      rcases List.mem_cons.1 hx with rfl | hx
      · rw [Domain.contains_iff_indexOf.2 ⟨i, hi⟩] at hc; cases hc
      · exact ih ⟨x, hx, hc⟩ _
    · rfl

theorem wordOf_ok {d : Domain α} (hd : d.size ≤ width) {rule : ForeignRule} {es : List α}
    (h : ¬ (rule = .reject ∧ ∃ x ∈ es, d.contains x = false)) (w : UInt64) :
    ∃ v, wordOf d rule w es = .ok v ∧
      ∀ i, Word.has v i = true ↔ Word.has w i = true ∨ ∃ e ∈ es, d.indexOf e = some i := by
  induction es generalizing w with
  | nil => exact ⟨w, rfl, fun i => by simp⟩
  | cons e es ih =>
    have hrest : ¬ (rule = .reject ∧ ∃ x ∈ es, d.contains x = false) := fun ⟨hr, x, hx, hc⟩ =>
      h ⟨hr, x, List.mem_cons_of_mem _ hx, hc⟩
    unfold wordOf
    split
    · next k hk =>
      obtain ⟨v, hv, hbits⟩ := ih hrest (w ||| Word.bit k)
      refine ⟨v, hv, fun i => ?_⟩
      have hkw : k < width := (Domain.indexOf_lt hk).trans_le hd
      rw [hbits, Word.has_or, Word.has_bit hkw]
      simp only [Bool.or_eq_true, decide_eq_true_eq, List.mem_cons, exists_eq_or_imp, hk, Option.some.injEq, or_assoc]
    · next hk =>
      have hr : rule ≠ .reject := fun hr =>
        h ⟨hr, e, List.mem_cons_self, Domain.indexOf_eq_none_iff.1 hk⟩
      obtain ⟨v, hv, hbits⟩ := ih hrest w
      refine ⟨v, by rw [if_neg hr]; exact hv, fun i => ?_⟩
      rw [hbits]
      simp only [List.mem_cons, exists_eq_or_imp, hk, reduceCtorEq, false_or]

theorem wordOf_answers {d : Domain α} (hd : d.size ≤ width) (rule : ForeignRule) {o : Operand α} {es : List α}
    (h : o.Lists es) :
    Answers o d rule (wordOf d rule 0 es) fun w => ∀ i, Word.has w i = true ↔ i ∈ o.selection d where
  fault e he := by
    obtain ⟨rfl, rfl, hx⟩ := (h.fault_iff e).1 he
    exact wordOf_foreign hx 0
  sound hnone := by
    obtain ⟨v, hv, hbits⟩ := wordOf_ok hd (fun hf => hnone _ ((h.fault_iff _).2 ⟨hf.1, rfl, hf.2⟩)) 0
    refine ⟨v, hv, fun i => ?_⟩
    rw [hbits, h.selection_eq, Word.has_zero]
    simp [Domain.placesOf]

/-- a word is found for an operand without a fault, and its bits are the selection -/
theorem resolve_answers {d : Domain α} (hd : d.size ≤ width) (rule : ForeignRule) (o : Operand α) :
    Answers o d rule (resolve d rule o) fun w => ∀ i, Word.has w i = true ↔ i ∈ o.selection d := by
  cases o with
  | word w =>
    refine ⟨(Operand.word_answers w d rule).fault, fun hnone => ?_⟩
    obtain ⟨v, hv, rfl⟩ := (Operand.word_answers w d rule).sound hnone
    refine ⟨v, hv, fun i => ?_⟩
    rw [Operand.mem_selection_mask fun _ => rfl]
    rfl
  | mask m =>
    have hres : resolve d rule (.mask m) = (Mask.acceptInt m d.size).map fun buf => buf.words.head?.getD 0 := by
      simp only [resolve]
      cases Mask.acceptInt m d.size <;> rfl
    rw [hres]
    refine (Operand.mask_answers m d rule).map fun hnone buf hbuf i => ?_
    subst hbuf
    rw [WordBuffer.has_head_ofNat, Operand.mem_selection_mask fun _ => rfl, Bool.and_eq_true, decide_eq_true_eq]
    exact and_iff_right_of_imp fun hi => (Operand.lt_size_of_marks hnone hi).trans_le hd
  | bits b =>
    have hres : resolve d rule (.bits b) = (Mask.acceptBits b d.size).map fun _ => Mask.wordOfBits b := by
      simp only [resolve]
      cases Mask.acceptBits b d.size <;> rfl
    rw [hres]
    refine (Operand.bits_answers b d rule).map fun hnone _ _ i => ?_
    rw [Mask.has_wordOfBits, Operand.mem_selection_mask fun _ => rfl, Bool.and_eq_true, decide_eq_true_eq]
    exact and_iff_right_of_imp fun hi => (Operand.lt_size_of_marks hnone hi).trans_le hd
  | elements es => exact wordOf_answers hd rule (Operand.elements_lists es)
  | members m => exact wordOf_answers hd rule (Operand.members_lists m)
  | compact t =>
    simp only [resolve]
    split_ifs with hs
    · have hsel : (Operand.compact t).selection d = (Subset.ofCompact t).places :=
        Operand.selection_of_same (t := .ofCompact t) hs
      refine Answers.of_same (t := .ofCompact t) hs fun i => ?_
      rw [hsel]
      exact mem_positions.symm
    · exact wordOf_answers hd rule (Operand.subset_lists (.ofCompact t))
  | general t =>
    simp only [resolve]
    split_ifs with hs
    · have hsel : (Operand.general t).selection d = (Subset.ofGeneral t).places :=
        Operand.selection_of_same (t := .ofGeneral t) hs
      have hfit : ∀ j ∈ t.positions, j < width := by
        intro j hj
        have := GeneralSubset.lt_of_mem_positions hj
        have := Domain.size_eq_of_same hs
        omega
      refine Answers.of_same (t := .ofGeneral t) hs fun i => ?_
      rw [Word.has_ofPositions hfit, decide_eq_true_eq, hsel]
      rfl
    · exact wordOf_answers hd rule (Operand.subset_lists (.ofGeneral t))

end CompactSubset

/-! ## Operands as sets of elements -/

namespace GeneralSubset

/-- a set of elements that has, of the elements of `d`, those that the operand selects -/
def Finds (o : Operand α) (d : Domain α) (m : Members α) : Prop :=
  ∀ e i, d.indexOf e = some i → (m.contains e = true ↔ i ∈ o.selection d)

theorem checked_answers {d : Domain α} (rule : ForeignRule) {o : Operand α} {es : List α} (h : o.Lists es)
    {m : Members α} (hm : ∀ e, m.contains e = es.any (· == e)) :
    Answers o d rule (checked d rule es m) (Finds o d) where
  fault e he := by
    obtain ⟨rfl, rfl, hforeign⟩ := (h.fault_iff e).1 he
    exact if_pos ⟨rfl, Domain.any_foreign_iff.2 hforeign⟩
  sound hnone := by
    refine ⟨m, if_neg fun hf => ?_, fun e i hi => h.contains_iff hm hi⟩
    exact hnone _ ((h.fault_iff _).2 ⟨hf.1, rfl, Domain.any_foreign_iff.1 hf.2⟩)

theorem elementsAt_finds {o : Operand α} {d : Domain α} {ps : List Nat}
    (h : ∀ i, i ∈ ps ↔ i ∈ o.selection d) : Finds o d (elementsAt d ps) := by
  intro e i hi
  rw [elementsAt, Members.contains_ofList, Domain.any_select, hi, ← h]
  simp

/-- a set of elements is found for an operand without a fault, and has what is selected -/
theorem resolve_answers (d : Domain α) (rule : ForeignRule) (o : Operand α) :
    Answers o d rule (resolve d rule o) (Finds o d) := by
  cases o with
  | word w =>
    refine (Operand.word_answers w d rule).map fun _ v hv => elementsAt_finds fun i => ?_
    subst hv
    rw [Word.mem_positions, Operand.mem_selection_mask fun _ => rfl]
    rfl
  | mask m =>
    refine (Operand.mask_answers m d rule).map fun _ buf hbuf => elementsAt_finds fun i => ?_
    subst hbuf
    rw [WordBuffer.mem_positions, WordBuffer.has_ofNat, Operand.mem_selection_mask fun _ => rfl]
    rfl
  | bits b =>
    refine (Operand.bits_answers b d rule).map fun _ _ _ => elementsAt_finds fun i => ?_
    rw [Mask.mem_ones, Operand.mem_selection_mask fun _ => rfl]
    rfl
  | elements es => exact checked_answers rule (Operand.elements_lists es) (Members.contains_ofList es)
  | members m => exact checked_answers rule (Operand.members_lists m) fun _ => rfl
  | compact t =>
    have hlist := Operand.subset_lists (.ofCompact t)
    have hm : ∀ e, t.toMembers.contains e = t.toList.any (· == e) := Members.contains_ofList t.toList
    simp only [resolve]
    split_ifs with hs
    · exact Answers.of_same (t := .ofCompact t) hs fun e i hi => hlist.contains_iff hm hi
    · exact checked_answers rule hlist hm
  | general t =>
    have hlist := Operand.general_lists_members t
    simp only [resolve]
    split_ifs with hs
    · exact Answers.of_same (t := .ofGeneral t) hs fun e i hi => hlist.contains_iff (fun _ => rfl) hi
    · exact checked_answers rule hlist fun _ => rfl

end GeneralSubset

end SubsetAlgebra
