/-
One subset within another.

Inclusion asks for every member of the one in the other; some forms compare the sizes first, which is sound since equal
members are never counted twice (`Subset.counted_eq`). Having the same members is tested on one side only, with the
sizes compared; `sameElements_iff_both` says that this is inclusion both ways. Neither looks at the forms or the
domains, so they hold between subsets of domains that are equal, permuted, overlapping or disjoint.

Inclusion can be read off the algebra too (`isSubsetOf_iff_diff`, `isSubsetOf_iff_inter`, `isSubsetOf_iff_union`): the
difference is empty, the intersection is the one, the union is the other. Only the union asks something of the domains.
-/
import SubsetAlgebra.Proofs.BooleanAlgebra

namespace SubsetAlgebra.Subset

variable {α : Type} [Element α]

/-! ## Inclusion -/

theorem isSubsetOf_refl (a : Subset α) : a.isSubsetOf a = true := (isSubsetOf_iff a a).2 fun _ he => he

theorem isSubsetOf_trans {a b c : Subset α} (h : a.isSubsetOf b = true) (h' : b.isSubsetOf c = true) :
    a.isSubsetOf c = true := by
  rw [isSubsetOf_iff] at h h' ⊢
  intro e he
  exact h' e (h e he)

theorem size_le_of_isSubsetOf {a b : Subset α} (h : a.isSubsetOf b = true) : a.size ≤ b.size := by
  rw [isSubsetOf_eq] at h
  exact size_le_of_all h

/-! ## The same members -/

theorem sameElements_iff_both (a b : Subset α) :
    a.sameElements b = true ↔ a.isSubsetOf b = true ∧ b.isSubsetOf a = true := by
  rw [sameElements_iff, isSubsetOf_iff, isSubsetOf_iff]
  constructor
  · intro h
    exact ⟨fun e he => by rw [← h, he], fun e he => by rw [h, he]⟩
  · intro h' e
    obtain ⟨hab, hba⟩ := h'
    exact Bool.eq_iff_iff.2 ⟨hab e, hba e⟩

theorem sameElements_comm (a b : Subset α) : a.sameElements b = b.sameElements a := by
  rw [Bool.eq_iff_iff, sameElements_iff_both, sameElements_iff_both, and_comm]

theorem sameElements_trans {a b c : Subset α} (h : a.sameElements b = true) (h' : b.sameElements c = true) :
    a.sameElements c = true := by
  rw [sameElements_iff] at h h' ⊢
  intro e
  rw [h, h']

/-- inclusion depends on nothing but the members -/
theorem isSubsetOf_eq_of_sameElements {a a' b b' : Subset α} (ha : a.sameElements a' = true)
    (hb : b.sameElements b' = true) : a.isSubsetOf b = a'.isSubsetOf b' := by
  rw [sameElements_iff] at ha hb
  rw [Bool.eq_iff_iff, isSubsetOf_iff, isSubsetOf_iff]
  simp only [ha, hb]

/-! ## Inclusion in the algebra -/

theorem isSubsetOf_iff_diff {a b r : Subset α} (hr : a.diff b.toOperand = .ok r) :
    a.isSubsetOf b = true ↔ r.isEmpty = true := by
  rw [isSubsetOf_iff, isEmpty_iff]
  simp only [contains_diff hr, not_and, not_not]

theorem isSubsetOf_iff_inter {a b i : Subset α} (hi : a.inter b.toOperand = .ok i) :
    a.isSubsetOf b = true ↔ i.sameElements a = true := by
  rw [isSubsetOf_iff, sameElements_iff]
  refine forall_congr' fun e => ?_
  rw [Bool.eq_iff_iff (a := i.contains e), contains_inter hi, and_iff_left_iff_imp]

theorem isSubsetOf_iff_union {a b u : Subset α} (hu : a.union b.toOperand = .ok u) :
    a.isSubsetOf b = true ↔ u.sameElements b = true := by
  rw [isSubsetOf_iff, sameElements_iff]
  refine forall_congr' fun e => ?_
  rw [Bool.eq_iff_iff (a := u.contains e), contains_union hu, or_iff_right_iff_imp]

theorem union_ok_of_same {a b : Subset α} (h : a.domain.same b.domain = true) : ∃ u, a.union b.toOperand = .ok u :=
  (a.union_answers b.toOperand).ok_iff.2 (Operand.not_fault_of_same h _)

/-! ## Main result -/

/-- what the comparisons of `a` with `b` mean -/
structure Compared (a b : Subset α) : Prop where
  isSubsetOf_iff : a.isSubsetOf b = true ↔ ∀ e, a.contains e = true → b.contains e = true
  /-- member by member, as a fixed compact form asks -/
  direct : a.toList.all b.contains = a.isSubsetOf b
  /-- sizes first, as all others ask -/
  counted : (decide (a.size ≤ b.size) && a.toList.all b.contains) = a.isSubsetOf b
  sameElements_iff : a.sameElements b = true ↔ ∀ e, a.contains e = b.contains e
  sameElements_iff_both : a.sameElements b = true ↔ a.isSubsetOf b = true ∧ b.isSubsetOf a = true
  size_le : a.isSubsetOf b = true → a.size ≤ b.size
  diff : ∃ r, a.diff b.toOperand = .ok r ∧ (a.isSubsetOf b = true ↔ r.isEmpty = true)
  inter : ∃ i, a.inter b.toOperand = .ok i ∧ (a.isSubsetOf b = true ↔ i.sameElements a = true)
  union_ok : a.domain.same b.domain = true → ∃ u, a.union b.toOperand = .ok u
  union : ∀ u, a.union b.toOperand = .ok u → (a.isSubsetOf b = true ↔ u.sameElements b = true)

theorem compared (a b : Subset α) : Compared a b where
  isSubsetOf_iff := isSubsetOf_iff a b
  direct := (isSubsetOf_eq a b).symm
  counted := (counted_eq a b).trans (isSubsetOf_eq a b).symm
  sameElements_iff := sameElements_iff a b
  sameElements_iff_both := sameElements_iff_both a b
  size_le := size_le_of_isSubsetOf
  diff := by
    obtain ⟨r, hr⟩ := a.diff_ok b
    exact ⟨r, hr, isSubsetOf_iff_diff hr⟩
  inter := by
    obtain ⟨i, hi⟩ := a.inter_ok b
    exact ⟨i, hi, isSubsetOf_iff_inter hi⟩
  union_ok := union_ok_of_same
  union _ := isSubsetOf_iff_union

/-- **Comparisons are exact, whatever the forms and the domains.** Inclusion is inclusion of the members, with the sizes
compared first or not, and having the same members is inclusion both ways; so the one is a preorder, the other an
equivalence, and both can be read off the algebra. -/
theorem comparisons_exact :
    (∀ a b : Subset α, Compared a b) ∧
    (∀ a : Subset α, a.isSubsetOf a = true) ∧
    (∀ a b c : Subset α, a.isSubsetOf b = true → b.isSubsetOf c = true → a.isSubsetOf c = true) ∧
    (∀ a b : Subset α, a.sameElements b = b.sameElements a) ∧
    (∀ a b c : Subset α, a.sameElements b = true → b.sameElements c = true → a.sameElements c = true) ∧
    ∀ a a' b b' : Subset α, a.sameElements a' = true → b.sameElements b' = true → a.isSubsetOf b = a'.isSubsetOf b' :=
  ⟨compared, isSubsetOf_refl, fun _ _ _ => isSubsetOf_trans, sameElements_comm, fun _ _ _ => sameElements_trans,
    fun _ _ _ _ => isSubsetOf_eq_of_sameElements⟩

end SubsetAlgebra.Subset
