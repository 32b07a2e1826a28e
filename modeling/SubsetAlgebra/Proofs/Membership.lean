/-
What a set of elements says of each element.

`contains` is the view of a set of elements: each operation is described by what it does to `contains`, with no word of
the representatives.
-/
import SubsetAlgebra.Proofs.Lookup

namespace SubsetAlgebra.Members

variable {α : Type} [Element α]

theorem contains_eq_any (m : Members α) (e : α) : m.contains e = m.toList.any (· == e) := rfl

theorem contains_empty (e : α) : (empty : Members α).contains e = false := rfl

/-! ## Operations, element by element -/

theorem contains_insert (m : Members α) (a e : α) : (m.insert a).contains e = (m.contains e || a == e) := by
  unfold insert
  split_ifs with ha
  · rw [Bool.eq_iff_iff, Bool.or_eq_true]
    refine ⟨Or.inl, fun h => h.elim id fun hae => ?_⟩
    rw [← contains_congr m hae]; exact ha
  · simp [contains]

theorem contains_foldl_insert (es : List α) (m : Members α) (e : α) :
    (es.foldl insert m).contains e = (m.contains e || es.any (· == e)) := by
  induction es generalizing m with
  | nil => simp
  | cons a es ih => rw [List.foldl_cons, ih, contains_insert, List.any_cons, Bool.or_assoc]

theorem contains_ofList (es : List α) (e : α) : (ofList es).contains e = es.any (· == e) := by
  rw [ofList, contains_foldl_insert, contains_empty, Bool.false_or]

/-- filtering by a test that does not tell equal elements apart -/
theorem contains_filter {p : α → Bool} (hp : ∀ a b, (a == b) = true → p a = p b) (m : Members α) (e : α) :
    (m.filter p).contains e = (m.contains e && p e) := by
  rw [Bool.eq_iff_iff, Bool.and_eq_true, contains_iff, contains_iff]
  constructor
  · intro h
    obtain ⟨a, ha, hae⟩ := h
    obtain ⟨hm, hpa⟩ := mem_filter ha
    exact ⟨⟨a, hm, hae⟩, hp a e hae ▸ hpa⟩
  · intro h
    obtain ⟨⟨a, ha, hae⟩, hpe⟩ := h
    exact ⟨a, List.mem_filter.2 ⟨ha, (hp a e hae).trans hpe⟩, hae⟩

theorem contains_erase (m : Members α) (a e : α) : (m.erase a).contains e = (m.contains e && !(e == a)) := by
  refine contains_filter (fun x y hxy => ?_) m e
  rw [beq_congr_left hxy a]

theorem erase_of_not_contains {m : Members α} {a : α} (h : m.contains a = false) : m.erase a = m := by
  obtain ⟨es, distinct⟩ := m
  have hkept : ∀ x ∈ es, (!(x == a)) = true := by
    intro x hx
    rw [Bool.not_eq_true', ← Bool.not_eq_true]
    exact List.any_eq_false.1 h x hx
  simp only [erase, filter, List.filter_eq_self.2 hkept]

theorem contains_diff (a b : Members α) (e : α) : (a.diff b).contains e = (a.contains e && !b.contains e) := by
  refine contains_filter (fun x y hxy => ?_) a e
  rw [contains_congr b hxy]

theorem contains_inter (a b : Members α) (e : α) : (a.inter b).contains e = (a.contains e && b.contains e) := by
  unfold inter
  split_ifs
  · exact contains_filter (fun _ _ => contains_congr b) a e
  · rw [contains_filter (fun _ _ => contains_congr a) b e, Bool.and_comm]

theorem contains_append (a b : Members α) (e : α) : (a.append b).contains e = (a.contains e || b.contains e) := by
  have : (a.append b).contains e = (a.contains e || (b.diff a).contains e) := List.any_append
  rw [this, contains_diff]
  cases a.contains e <;> simp

theorem contains_union (a b : Members α) (e : α) : (a.union b).contains e = (a.contains e || b.contains e) := by
  unfold union
  split_ifs
  · exact contains_append a b e
  · rw [contains_append, Bool.or_comm]

end SubsetAlgebra.Members
