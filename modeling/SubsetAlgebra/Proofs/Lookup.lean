/-
Looking things up in a domain.

Elements and positions of a domain determine each other: `indexOf_eq_some_iff` says that `indexOf` finds exactly the
position whose element is equal, and `unique` that there is at most one. All else follows: look-ups of equal elements
agree (`indexOf_congr`), and so do look-ups in domains that hold equal elements at the same positions
(`indexOf_eq_of_same`). A list makes up a domain iff it has no repetition, and the first one is reported otherwise
(`ofList_cases`).
-/
import Mathlib.Tactic.Common
import SubsetAlgebra.Domain

namespace SubsetAlgebra

theorem beq_congr_left {α : Type} [Element α] {a b : α} (h : (a == b) = true) (c : α) : (a == c) = (b == c) :=
  Bool.eq_iff_iff.2 ⟨fun k => BEq.trans (BEq.symm h) k, fun k => BEq.trans h k⟩

theorem beq_congr_right {α : Type} [Element α] {a b : α} (h : (a == b) = true) (c : α) : (c == a) = (c == b) :=
  Bool.eq_iff_iff.2 ⟨fun k => BEq.trans k h, fun k => BEq.trans k (BEq.symm h)⟩

/-- the same elements, in whatever order, however often and by whatever equal values -/
def Coextensive {α : Type} [Element α] (es es' : List α) : Prop := ∀ e, es.any (· == e) = es'.any (· == e)

namespace Coextensive

variable {α : Type} [Element α] {es es' : List α}

theorem symm (h : Coextensive es es') : Coextensive es' es := fun e => (h e).symm

theorem exists_mem (h : Coextensive es es') {e : α} (he : e ∈ es) : ∃ e' ∈ es', (e' == e) = true := by
  rw [← List.any_eq_true, ← h e, List.any_eq_true]
  exact ⟨e, he, BEq.rfl⟩

end Coextensive

namespace Domain

variable {α : Type} [Element α]

/-! ## Elements and positions -/

/-- equal elements stand at one position only -/
theorem unique {d : Domain α} {i j : Nat} {a b : α} (ha : d.elements[i]? = some a) (hb : d.elements[j]? = some b)
    (h : (a == b) = true) : i = j := by
  obtain ⟨hi, rfl⟩ := List.getElem?_eq_some_iff.1 ha
  obtain ⟨hj, rfl⟩ := List.getElem?_eq_some_iff.1 hb
  have apart := List.pairwise_iff_getElem.1 d.distinct
  rcases Nat.lt_trichotomy i j with hij | hij | hij
  · have := apart i j hi hj hij
    rw [this] at h; cases h
  · exact hij
  · have := Unequal.symm (apart j i hj hi hij)
    rw [this] at h; cases h

/-- `indexOf` finds the position whose element is equal, and nothing else -/
theorem indexOf_eq_some_iff {d : Domain α} {e : α} {i : Nat} :
    d.indexOf e = some i ↔ ∃ a, d.elements[i]? = some a ∧ (a == e) = true := by
  constructor
  · intro h
    obtain ⟨hi, he, -⟩ := List.findIdx?_eq_some_iff_getElem.1 h
    exact ⟨_, List.getElem?_eq_getElem hi, he⟩
  · intro h'
    obtain ⟨a, ha, he⟩ := h'
    cases hx : d.indexOf e with
    | none =>
      have := List.findIdx?_eq_none_iff.1 hx a (List.mem_of_getElem? ha)
      rw [this] at he; cases he
    | some j =>
      obtain ⟨hj, hej, -⟩ := List.findIdx?_eq_some_iff_getElem.1 hx
      rw [unique (List.getElem?_eq_getElem hj) ha (BEq.trans hej (BEq.symm he))]

theorem indexOf_of_getElem? {d : Domain α} {i : Nat} {a : α} (h : d.elements[i]? = some a) : d.indexOf a = some i :=
  indexOf_eq_some_iff.2 ⟨a, h, BEq.rfl⟩

theorem indexOf_congr (d : Domain α) {a b : α} (h : (a == b) = true) : d.indexOf a = d.indexOf b := by
  unfold indexOf
  congr 1
  funext c
  exact beq_congr_right h c

/-- what equals a known element is what is found at its position -/
theorem beq_iff_of_indexOf {d : Domain α} {i : Nat} {a b : α} (ha : d.indexOf a = some i) :
    (a == b) = true ↔ d.indexOf b = some i := by
  constructor
  · intro hab
    rw [← indexOf_congr d hab]
    exact ha
  · intro hb
    obtain ⟨x, hx, hxa⟩ := indexOf_eq_some_iff.1 ha
    obtain ⟨y, hy, hyb⟩ := indexOf_eq_some_iff.1 hb
    rw [hx] at hy
    cases hy
    exact BEq.trans (BEq.symm hxa) hyb

theorem indexOf_eq_none_iff {d : Domain α} {e : α} : d.indexOf e = none ↔ d.contains e = false := by
  simp [contains]

theorem contains_iff_indexOf {d : Domain α} {e : α} : d.contains e = true ↔ ∃ i, d.indexOf e = some i := by
  rw [contains, Option.isSome_iff_exists]

theorem exists_getElem? {d : Domain α} {i : Nat} (h : i < d.size) : ∃ a, d.elements[i]? = some a :=
  ⟨_, List.getElem?_eq_getElem h⟩

/-- a list has an element that the domain does not hold, or all its elements are held -/
theorem foreign_or_known (d : Domain α) (es : List α) :
    (∃ e ∈ es, d.contains e = false) ∨ ∀ e ∈ es, d.contains e = true := by
  by_cases h : ∃ e ∈ es, d.contains e = false
  · exact Or.inl h
  · right
    intro e he
    by_contra hc
    exact h ⟨e, he, by simpa using hc⟩

theorem any_foreign_iff {d : Domain α} {es : List α} :
    (es.any fun e => !d.contains e) = true ↔ ∃ e ∈ es, d.contains e = false := by
  simp [List.any_eq_true]

theorem not_any_foreign {d : Domain α} {es : List α} (h : ∀ e ∈ es, d.contains e = true) :
    ¬ (es.any fun e => !d.contains e) = true := by
  rw [any_foreign_iff]
  rintro ⟨e, he, hc⟩
  rw [h e he] at hc
  cases hc

theorem lt_size_of_getElem? {d : Domain α} {i : Nat} {a : α} (h : d.elements[i]? = some a) : i < d.size :=
  (List.getElem?_eq_some_iff.1 h).1

theorem get_eq_ok_iff {d : Domain α} {i : Nat} {a : α} : d.get i = .ok a ↔ d.elements[i]? = some a := by
  unfold get
  cases d.elements[i]? <;> simp

/-! ## Building -/

theorem firstRepeatAfter_eq_none {seen es : List α} (h : (seen ++ es).Pairwise Unequal) :
    firstRepeatAfter seen es = none := by
  induction es generalizing seen with
  | nil => rfl
  | cons e es ih =>
    have hnew : seen.findIdx? (· == e) = none :=
      List.findIdx?_eq_none_iff.2 fun a ha => (List.pairwise_append.1 h).2.2 a ha e List.mem_cons_self
    unfold firstRepeatAfter
    rw [hnew]
    exact ih (by simpa using h)

/-- `j` is the least position of a list whose element occurs before it, and `i` is where -/
structure FirstRepeat (es : List α) (i j : Nat) : Prop where
  before : i < j
  equal : ∃ a b, es[i]? = some a ∧ es[j]? = some b ∧ (a == b) = true
  least : (es.take j).Pairwise Unequal

/-- elements of a list without repetitions that are equal stand at the same position -/
theorem eq_of_pairwise_unequal {es : List α} (h : es.Pairwise Unequal) {i j : Nat} {a b : α} (ha : es[i]? = some a)
    (hb : es[j]? = some b) (hab : (a == b) = true) : i = j :=
  unique (d := { elements := es, distinct := h }) ha hb hab

theorem FirstRepeat.not_pairwise {es : List α} {i j : Nat} (h : FirstRepeat es i j) : ¬ es.Pairwise Unequal := by
  intro hes
  obtain ⟨a, b, ha, hb, hab⟩ := h.equal
  have := eq_of_pairwise_unequal hes ha hb hab
  have := h.before
  omega

theorem FirstRepeat.le {es : List α} {i j i' j' : Nat} (h : FirstRepeat es i j) (h' : FirstRepeat es i' j') :
    j ≤ j' := by
  by_contra hlt
  obtain ⟨a, b, ha, hb, hab⟩ := h'.equal
  have hbefore := h'.before
  rw [← List.getElem?_take_of_lt (show i' < j by omega)] at ha
  rw [← List.getElem?_take_of_lt (show j' < j by omega)] at hb
  have := eq_of_pairwise_unequal h.least ha hb hab
  omega

/-- a list has one first repetition at most -/
theorem FirstRepeat.eq {es : List α} {i j i' j' : Nat} (h : FirstRepeat es i j) (h' : FirstRepeat es i' j') :
    i = i' ∧ j = j' := by
  obtain rfl : j = j' := Nat.le_antisymm (h.le h') (h'.le h)
  obtain ⟨a, b, ha, hb, hab⟩ := h.equal
  obtain ⟨a', b', ha', hb', hab'⟩ := h'.equal
  rw [hb] at hb'
  cases hb'
  rw [← List.getElem?_take_of_lt h.before] at ha
  rw [← List.getElem?_take_of_lt h'.before] at ha'
  exact ⟨eq_of_pairwise_unequal h.least ha ha' (BEq.trans hab (BEq.symm hab')), rfl⟩

theorem firstRepeat_of_eq_some {seen es : List α} (hs : seen.Pairwise Unequal) {i j : Nat}
    (h : firstRepeatAfter seen es = some (i, j)) : FirstRepeat (seen ++ es) i j := by
  induction es generalizing seen with
  | nil => cases h
  | cons e es ih =>
    unfold firstRepeatAfter at h
    split at h
    · next first hf =>
      cases h
      obtain ⟨hlt, heq, -⟩ := List.findIdx?_eq_some_iff_getElem.1 hf
      refine ⟨hlt, ⟨seen[i], e, ?_, ?_, heq⟩, ?_⟩
      · rw [List.getElem?_append_left hlt, List.getElem?_eq_getElem hlt]
      · rw [List.getElem?_append_right (Nat.le_refl _), Nat.sub_self, List.getElem?_cons_zero]
      · rwa [List.take_left]
    · next hf =>
      have hnew : (seen ++ [e]).Pairwise Unequal := by
        refine List.pairwise_append.2 ⟨hs, List.pairwise_singleton _ _, fun a ha b hb => ?_⟩
        rw [List.mem_singleton.1 hb]
        exact List.findIdx?_eq_none_iff.1 hf a ha
      simpa using ih hnew h

theorem ofList_eq {es : List α} (h : es.Pairwise Unequal) : ofList es = .ok { elements := es, distinct := h } := by
  have hnone : firstRepeat es = none := firstRepeatAfter_eq_none h
  unfold ofList
  split
  · next first second h => rw [hnone] at h; cases h
  · rfl

/-- a list without repetitions makes up a domain with its elements in order -/
theorem ofList_ok {es : List α} (h : es.Pairwise Unequal) : ∃ d, ofList es = .ok d ∧ d.elements = es :=
  ⟨_, ofList_eq h, rfl⟩

/-- a list with a repetition is refused, and the first one is reported -/
theorem ofList_error {es : List α} (h : ¬ es.Pairwise Unequal) :
    ∃ i j, FirstRepeat es i j ∧ ofList es = .error (.duplicateElement i j) := by
  unfold ofList
  split
  · next first second hf => exact ⟨first, second, firstRepeat_of_eq_some List.Pairwise.nil hf, rfl⟩
  · next hf => exact absurd (by simpa using pairwise_of_firstRepeatAfter List.Pairwise.nil hf) h

/-- a list makes up a domain, or its first repetition is reported -/
theorem ofList_cases (es : List α) :
    (∃ d, ofList es = .ok d ∧ d.elements = es) ∨
      ∃ i j, FirstRepeat es i j ∧ ofList es = .error (.duplicateElement i j) :=
  (Classical.em (es.Pairwise Unequal)).imp ofList_ok ofList_error

/-- the elements of a domain make up a domain -/
theorem ofList_elements (d : Domain α) : ∃ d', ofList d.elements = .ok d' ∧ d'.elements = d.elements :=
  ofList_ok d.distinct

/-! ## Equal domains -/

theorem findIdx?_eq_of_beq {xs ys : List α} (h : (xs == ys) = true) (e : α) :
    xs.findIdx? (· == e) = ys.findIdx? (· == e) := by
  induction xs generalizing ys with
  | nil => cases ys with
    | nil => rfl
    | cons _ _ => cases h
  | cons x xs ih => cases ys with
    | nil => cases h
    | cons y ys =>
      simp only [List.cons_beq_cons, Bool.and_eq_true] at h
      rw [List.findIdx?_cons, List.findIdx?_cons, ih h.2, beq_congr_left h.1 e]

theorem indexOf_eq_of_same {a b : Domain α} (h : a.same b = true) (e : α) : a.indexOf e = b.indexOf e :=
  findIdx?_eq_of_beq ((same_iff a b).1 h) e

theorem same_of_elements_eq {a b : Domain α} (h : a.elements = b.elements) : a.same b = true :=
  (same_iff a b).2 (by rw [h]; exact BEq.rfl)

theorem same_refl (d : Domain α) : d.same d = true := same_of_elements_eq rfl

theorem beq_symm_of_beq {xs ys : List α} (h : (xs == ys) = true) : (ys == xs) = true := by
  induction xs generalizing ys with
  | nil => cases ys with
    | nil => rfl
    | cons _ _ => cases h
  | cons x xs ih => cases ys with
    | nil => cases h
    | cons y ys =>
      simp only [List.cons_beq_cons, Bool.and_eq_true] at h ⊢
      exact ⟨BEq.symm h.1, ih h.2⟩

theorem same_symm {a b : Domain α} (h : a.same b = true) : b.same a = true :=
  (same_iff b a).2 (beq_symm_of_beq ((same_iff a b).1 h))

/-! ## Selecting -/

theorem mem_select {d : Domain α} {ps : List Nat} {e : α} : e ∈ d.select ps ↔ ∃ i ∈ ps, d.elements[i]? = some e :=
  List.mem_filterMap

/-- an element equal to `e` is selected iff its position is -/
theorem any_select {d : Domain α} {ps : List Nat} {e : α} :
    (d.select ps).any (· == e) = true ↔ ∃ i ∈ ps, d.indexOf e = some i := by
  rw [List.any_eq_true]
  constructor
  · intro h
    obtain ⟨a, ha, hae⟩ := h
    obtain ⟨i, hi, hget⟩ := mem_select.1 ha
    exact ⟨i, hi, indexOf_eq_some_iff.2 ⟨a, hget, hae⟩⟩
  · intro h
    obtain ⟨i, hi, hidx⟩ := h
    obtain ⟨a, hget, hae⟩ := indexOf_eq_some_iff.1 hidx
    exact ⟨a, mem_select.2 ⟨i, hi, hget⟩, hae⟩

theorem length_select {d : Domain α} {ps : List Nat} (h : ∀ i ∈ ps, i < d.size) : (d.select ps).length = ps.length := by
  unfold select
  rw [List.filterMap_length_eq_length]
  intro i hi
  obtain ⟨a, ha⟩ := exists_getElem? (h i hi)
  rw [ha]; rfl

end Domain

end SubsetAlgebra
