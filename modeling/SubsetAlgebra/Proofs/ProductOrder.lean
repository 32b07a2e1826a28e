/-
The order of a product, and what its pairs make up.

For lists of `n` and `m` elements, repetitions kept, a product has `n * m` pairs, and the one at place `k` takes its
first component from round `k / m` of the outer loop and its second one from visit `k % m` of that round
(`getElem?_product`). The pairs make up a domain if neither list repeats an element, and then the place is the position;
a repetition in either list is one of pairs, unless the other list is empty (`product_distinct_iff`).

A product of subsets is the product of their members in domain order, so the same holds of it. As a set it is told by
its two sides (`contains_product`), it has as many pairs as the sides have members multiplied, and exchanging the
components of every pair gives the product the other way round (`map_swap_product`).
-/
import Mathlib.Data.List.Basic
import SubsetAlgebra.Proofs.Products

namespace SubsetAlgebra

open scoped List

namespace Pair

variable {α β : Type}

/-! ## Which pair stands where -/

theorem product_nil (right : List β) : product ([] : List α) right = [] := by
  rw [product_eq, List.flatMap_nil]

theorem product_cons (a : α) (left : List α) (right : List β) :
    product (a :: left) right = right.map (Pair.mk a) ++ product left right := by
  rw [product_eq, product_eq, List.flatMap_cons]

theorem length_product (left : List α) (right : List β) :
    (product left right).length = left.length * right.length := by
  induction left with
  | nil => simp [product_nil]
  | cons a left ih =>
    rw [product_cons, List.length_append, List.length_map, ih, List.length_cons, Nat.succ_mul, Nat.add_comm]

theorem product_eq_nil_iff {left : List α} {right : List β} : product left right = [] ↔ left = [] ∨ right = [] := by
  rw [← List.length_eq_zero_iff, length_product, Nat.mul_eq_zero, List.length_eq_zero_iff, List.length_eq_zero_iff]

/-- the quotient of a place counts the rounds of the outer loop, the remainder the visits in the round -/
theorem getElem?_product {left : List α} {right : List β} {k : Nat} {q : Pair α β} :
    (product left right)[k]? = some q ↔
      left[k / right.length]? = some q.first ∧ right[k % right.length]? = some q.second := by
  rcases Nat.eq_zero_or_pos right.length with hempty | hpos
  · obtain rfl := List.length_eq_zero_iff.1 hempty
    simp [product_eq]
  · induction left generalizing k with
    | nil => simp [product_nil]
    | cons a left ih =>
      rw [product_cons]
      rcases Nat.lt_or_ge k right.length with hk | hk
      · rw [List.getElem?_append_left (by simpa using hk), List.getElem?_map, Nat.div_eq_of_lt hk, Nat.mod_eq_of_lt hk]
        obtain ⟨first, second⟩ := q
        simp [And.comm, eq_comm]
      · -- a later round, seen from the first one
        obtain ⟨j, rfl⟩ : ∃ j, k = j + right.length := ⟨k - right.length, by omega⟩
        rw [List.getElem?_append_right (by simp), List.length_map, Nat.add_sub_cancel, ih, Nat.add_div_right _ hpos,
          Nat.add_mod_right, List.getElem?_cons_succ]

/-- round `i` and visit `j` are at place `i * m + j` -/
theorem getElem?_product_at {left : List α} {right : List β} {i j : Nat} {a : α} {b : β} (ha : left[i]? = some a)
    (hb : right[j]? = some b) : (product left right)[i * right.length + j]? = some ⟨a, b⟩ := by
  have hj : j < right.length := (List.getElem?_eq_some_iff.1 hb).1
  have hround : (i * right.length + j) / right.length = i := by
    rw [Nat.mul_comm, Nat.mul_add_div (by omega), Nat.div_eq_of_lt hj, Nat.add_zero]
  have hvisit : (i * right.length + j) % right.length = j := by
    rw [Nat.mul_comm, Nat.mul_add_mod, Nat.mod_eq_of_lt hj]
  rw [getElem?_product, hround, hvisit]
  exact ⟨ha, hb⟩

/-- the product the other way round has the same pairs, exchanged -/
theorem map_swap_product (left : List α) (right : List β) :
    (product left right).map swap ~ product right left := by
  induction left with
  | nil => simp [product_eq]
  | cons a left ih =>
    have hcolumn : (right.map (Pair.mk a)).map swap = right.map fun b => ⟨b, a⟩ := by
      rw [List.map_map]
      rfl
    calc (product (a :: left) right).map swap
        = (right.map fun b => ⟨b, a⟩) ++ (product left right).map swap := by
          rw [product_cons, List.map_append, hcolumn]
      _ ~ (right.map fun b => ⟨b, a⟩) ++ product right left := ih.append_left _
      _ ~ product right (a :: left) := by
          rw [product_eq, product_eq]
          exact List.map_append_flatMap_perm right (fun b => ⟨b, a⟩) fun b => left.map (Pair.mk b)

/-! ## Repetitions -/

section Elements

variable [Element α] [Element β]

/-- pairs differ if the components do, on one side or the other -/
theorem unequal_iff {p q : Pair α β} : Unequal p q ↔ Unequal p.first q.first ∨ Unequal p.second q.second :=
  Bool.and_eq_false_iff

/-- a repetition in either list is one of pairs, if the other list has an element -/
theorem product_distinct_iff {left : List α} {right : List β} (hl : left ≠ []) (hr : right ≠ []) :
    (product left right).Pairwise Unequal ↔ left.Pairwise Unequal ∧ right.Pairwise Unequal := by
  constructor
  · intro h
    rw [product_eq, List.pairwise_flatMap] at h
    obtain ⟨hrounds, hacross⟩ := h
    obtain ⟨a, ha⟩ := List.exists_mem_of_ne_nil left hl
    obtain ⟨b, hb⟩ := List.exists_mem_of_ne_nil right hr
    constructor
    · refine hacross.imp fun {x y} hxy => ?_
      have hpairs := hxy ⟨x, b⟩ (List.mem_map_of_mem hb) ⟨y, b⟩ (List.mem_map_of_mem hb)
      exact (unequal_iff.1 hpairs).resolve_right (by simp [Unequal])
    · have hround := hrounds a ha
      rw [List.pairwise_map] at hround
      refine hround.imp fun {x y} hxy => ?_
      exact (unequal_iff.1 hxy).resolve_left (by simp [Unequal])
  · rintro ⟨hleft, hright⟩
    exact product_distinct hleft hright

theorem any_product (left : List α) (right : List β) (a : α) (b : β) :
    ((product left right).any (· == ⟨a, b⟩)) = (left.any (· == a) && right.any (· == b)) := by
  rw [Bool.eq_iff_iff, Bool.and_eq_true, List.any_eq_true, List.any_eq_true, List.any_eq_true]
  constructor
  · rintro ⟨q, hq, heq⟩
    obtain ⟨hfirst, hsecond⟩ := mem_product.1 hq
    obtain ⟨ha, hb⟩ := Bool.and_eq_true_iff.1 heq
    exact ⟨⟨q.first, hfirst, ha⟩, q.second, hsecond, hb⟩
  · rintro ⟨⟨x, hx, hxa⟩, y, hy, hyb⟩
    exact ⟨⟨x, y⟩, mem_product.2 ⟨hx, hy⟩, Bool.and_eq_true_iff.2 ⟨hxa, hyb⟩⟩

end Elements

/-! ## What is said of two lists -/

/-- the product of two lists, as a list of visits -/
structure Ordered (left : List α) (right : List β) : Prop where
  /-- whatever a visit does, the visits are those of the product, in its order, and their number is told -/
  visits : ∀ {m : Type → Type} [Monad m] [LawfulMonad m] (visit : α → β → m Unit),
    productM left right visit =
      (do forM (product left right) fun q => visit q.first q.second
          pure (left.length * right.length))
  length : (product left right).length = left.length * right.length
  getElem? : ∀ k q, (product left right)[k]? = some q ↔
    left[k / right.length]? = some q.first ∧ right[k % right.length]? = some q.second
  none_iff : product left right = [] ↔ left = [] ∨ right = []

theorem ordered (left : List α) (right : List β) : Ordered left right where
  visits := productM_eq left right
  length := length_product left right
  getElem? _ _ := getElem?_product
  none_iff := product_eq_nil_iff

/-- the product of two lists, as what a domain may be made of -/
structure MakesUp [Element α] [Element β] (left : List α) (right : List β) : Prop where
  /-- without a repetition on either side, the place of a pair is its position -/
  distinct : left.Pairwise Unequal → right.Pairwise Unequal → ∃ d, Domain.ofList (product left right) = .ok d ∧
    d.elements = product left right ∧
    ∀ i j a b, left[i]? = some a → right[j]? = some b → d.indexOf ⟨a, b⟩ = some (i * right.length + j)
  /-- with one, the first repetition among the pairs is reported -/
  repeated : left ≠ [] → right ≠ [] → ¬ left.Pairwise Unequal ∨ ¬ right.Pairwise Unequal →
    ∃ i j, Domain.FirstRepeat (product left right) i j ∧
      Domain.ofList (product left right) = .error (.duplicateElement i j)

theorem makesUp [Element α] [Element β] (left : List α) (right : List β) : MakesUp left right where
  distinct hl hr := by
    obtain ⟨d, hd, helements⟩ := Domain.ofList_ok (product_distinct hl hr)
    refine ⟨d, hd, helements, fun i j a b ha hb => Domain.indexOf_of_getElem? ?_⟩
    rw [helements]
    exact getElem?_product_at ha hb
  repeated hl hr hrepeat := by
    apply Domain.ofList_error
    rw [product_distinct_iff hl hr]
    rintro ⟨hleft, hright⟩
    exact hrepeat.elim (absurd hleft) (absurd hright)

end Pair

/-! ## Products of subsets -/

namespace Subset

variable {α β : Type} [Element α] [Element β]

theorem contains_product (s : Subset α) (t : Subset β) (a : α) (b : β) :
    (s.product t).contains ⟨a, b⟩ = (s.contains a && t.contains b) := by
  rw [Members.contains_eq_any, toList_product, Pair.any_product, ← contains_eq_any_toList, ← contains_eq_any_toList]

theorem size_product (s : Subset α) (t : Subset β) : (s.product t).size = s.size * t.size := by
  rw [Members.size, toList_product, Pair.length_product, length_toList, length_toList]

theorem product_swap (s : Subset α) (t : Subset β) :
    (s.product t).toList.map Pair.swap ~ (t.product s).toList := by
  rw [toList_product, toList_product]
  exact Pair.map_swap_product s.toList t.toList

/-- the product of two subsets -/
structure Multiplied (s : Subset α) (t : Subset β) : Prop where
  /-- the visits are those of the members in domain order -/
  visits : ∀ {m : Type → Type} [Monad m] [LawfulMonad m] (visit : α → β → m Unit),
    s.productM t visit =
      (do forM (Pair.product s.toList t.toList) fun q => visit q.first q.second
          pure (s.size * t.size))
  toList : (s.product t).toList = Pair.product s.toList t.toList
  contains : ∀ a b, (s.product t).contains ⟨a, b⟩ = true ↔ s.contains a = true ∧ t.contains b = true
  size : (s.product t).size = s.size * t.size
  empty_iff : (s.product t).toList = [] ↔ s.isEmpty = true ∨ t.isEmpty = true
  /-- pair by pair, and so as sets -/
  swap : (s.product t).toList.map Pair.swap ~ (t.product s).toList
  swap_same : (Members.ofList ((s.product t).toList.map Pair.swap)).same (t.product s) = true

theorem multiplied (s : Subset α) (t : Subset β) : Multiplied s t where
  visits visit := by
    rw [productM, Pair.productM_eq, length_toList, length_toList]
  toList := s.toList_product t
  contains a b := by rw [contains_product, Bool.and_eq_true]
  size := s.size_product t
  empty_iff := by
    rw [isEmpty_iff_size, isEmpty_iff_size, ← Nat.mul_eq_zero, ← size_product, Members.size, List.length_eq_zero_iff]
  swap := s.product_swap t
  swap_same := by
    rw [Members.same_iff]
    intro q
    rw [Members.contains_ofList, Members.contains_eq_any]
    exact (s.product_swap t).any_eq

end Subset

/-- **Products are complete, in order and without repetition.** Every pair of two lists is visited once for each place
of the one and each place of the other, the left list in the outer loop, and the visits are counted. The pairs make up a
domain in that order iff nothing is repeated. A product of subsets visits the members in domain order; as a set it has
all pairs of members and no others, and exchanged it is the product the other way round. -/
theorem products_complete_and_ordered (α β : Type) :
    (∀ (left : List α) (right : List β), Pair.Ordered left right) ∧
    ∀ [Element α] [Element β], (∀ (left : List α) (right : List β), Pair.MakesUp left right) ∧
      ∀ (s : Subset α) (t : Subset β), s.Multiplied t :=
  ⟨Pair.ordered, Pair.makesUp, Subset.multiplied⟩

end SubsetAlgebra
