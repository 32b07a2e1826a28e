/-
What comparing two subsets means.

Comparisons count first and then look every member up, straight on words or on members where both sides have the same
form. Lists of pairwise unequal elements obey the pigeonhole principle up to equality of elements (`length_le_of_any`),
so the counts never change an answer:
- `isSubsetOf_iff`: every member of the one is a member of the other;
- `sameElements_iff`: both have the same members, whatever their domains;
- `same_iff`: equal domains and the same positions, whatever the two forms.
-/
import SubsetAlgebra.Proofs.Selection

namespace SubsetAlgebra

variable {α : Type} [Element α]

/-! ## Counting up to equality of elements -/

/-- pairwise unequal elements that all occur in a list are no more than the list has -/
theorem length_le_of_any {xs ys : List α} (hx : xs.Pairwise Unequal) (h : ∀ x ∈ xs, ys.any (· == x) = true) :
    xs.length ≤ ys.length := by
  let spots : List Nat := xs.filterMap fun x => ys.findIdx? (· == x)
  have hlen : spots.length = xs.length := by
    rw [List.filterMap_length_eq_length]
    intro x hxs
    rw [List.findIdx?_isSome]
    exact h x hxs
  have hnodup : spots.Nodup := by
    refine List.Pairwise.filterMap _ (fun a b hab i hi j hj hij => ?_) hx
    subst hij
    obtain ⟨_, hia, -⟩ := List.findIdx?_eq_some_iff_getElem.1 hi
    obtain ⟨_, hib, -⟩ := List.findIdx?_eq_some_iff_getElem.1 hj
    have : (a == b) = true := BEq.trans (BEq.symm hia) hib
    rw [hab] at this
    cases this
  have hsub : spots ⊆ List.range ys.length := by
    intro i hi
    obtain ⟨x, -, hx⟩ := List.mem_filterMap.1 hi
    obtain ⟨hlt, -⟩ := List.findIdx?_eq_some_iff_getElem.1 hx
    exact List.mem_range.2 hlt
  calc xs.length = spots.length := hlen.symm
    _ ≤ (List.range ys.length).length := hnodup.length_le_of_subset hsub
    _ = ys.length := List.length_range

/-- of two lists of pairwise unequal elements, equally long and the one within the other, each is within the other -/
theorem any_eq_iff {xs ys : List α} (hx : xs.Pairwise Unequal) (hy : ys.Pairwise Unequal) :
    (xs.length = ys.length ∧ ∀ x ∈ xs, ys.any (· == x) = true) ↔ ∀ e, xs.any (· == e) = ys.any (· == e) := by
  have any_of_mem : ∀ {zs : List α} {z : α}, z ∈ zs → zs.any (· == z) = true := fun hz =>
    List.any_eq_true.2 ⟨_, hz, BEq.rfl⟩
  have any_congr : ∀ {zs : List α} {a b : α}, (a == b) = true → zs.any (· == a) = zs.any (· == b) := by
    intro zs a b hab
    congr 1
    funext z
    exact beq_congr_right hab z
  constructor
  · intro h' e
    obtain ⟨hlen, hsub⟩ := h'
    rw [Bool.eq_iff_iff]
    constructor
    · intro he
      obtain ⟨x, hxs, hxe⟩ := List.any_eq_true.1 he
      rw [← any_congr hxe]
      exact hsub x hxs
    · intro he
      obtain ⟨y, hys, hye⟩ := List.any_eq_true.1 he
      rw [← any_congr hye]
      by_contra hno
      -- `y` would be one more element of `ys` beside all those of `xs`
      have hmore : (y :: xs).Pairwise Unequal := by
        refine List.pairwise_cons.2 ⟨fun x hxs => ?_, hx⟩
        by_contra hyx
        exact hno (List.any_eq_true.2 ⟨x, hxs, BEq.symm (by simpa using hyx)⟩)
      have hall : ∀ x ∈ y :: xs, ys.any (· == x) = true := by
        intro x hxs
        rcases List.mem_cons.1 hxs with rfl | hxs
        · exact any_of_mem hys
        · exact hsub x hxs
      have hle := length_le_of_any hmore hall
      rw [List.length_cons] at hle
      omega
  · intro h
    have hxy := length_le_of_any hx fun x hxs => (h x).symm.trans (any_of_mem hxs)
    have hyx := length_le_of_any hy fun y hys => (h y).trans (any_of_mem hys)
    exact ⟨Nat.le_antisymm hxy hyx, fun x hxs => (h x).symm.trans (any_of_mem hxs)⟩

theorem Members.same_iff (a b : Members α) : a.same b = true ↔ ∀ e, a.contains e = b.contains e := by
  have h := any_eq_iff a.distinct b.distinct
  simp only [← Members.contains_eq_any] at h
  simp only [Members.same, Bool.and_eq_true, beq_iff_eq, List.all_eq_true]
  exact h

namespace Subset

/-! ## Members in domain order -/

theorem toList_distinct (s : Subset α) : s.toList.Pairwise Unequal := by
  refine List.Pairwise.filterMap _ (fun i j hij a ha b hb => ?_) s.positions_ascending
  obtain ⟨hi, rfl⟩ := List.getElem?_eq_some_iff.1 ha
  obtain ⟨hj, rfl⟩ := List.getElem?_eq_some_iff.1 hb
  exact List.pairwise_iff_getElem.1 s.domain.distinct i j hi hj hij

theorem length_toList (s : Subset α) : s.toList.length = s.size := by
  rw [size_eq_length]
  exact Domain.length_select fun i hi => lt_of_mem_positions hi

/-! ## Comparisons -/

theorem size_le_of_all {s t : Subset α} (h : s.toList.all t.contains = true) : s.size ≤ t.size := by
  rw [List.all_eq_true] at h
  rw [← length_toList, ← length_toList]
  refine length_le_of_any s.toList_distinct fun x hx => ?_
  rw [← contains_eq_any_toList]
  exact h x hx

/-- comparing the sizes first never changes the answer -/
theorem counted_eq (s t : Subset α) :
    (decide (s.size ≤ t.size) && s.toList.all t.contains) = s.toList.all t.contains := by
  rw [Bool.and_eq_right_iff_imp, decide_eq_true_eq]
  exact size_le_of_all

/-- the count that some forms start with never changes the answer -/
theorem isSubsetOf_eq (s t : Subset α) : s.isSubsetOf t = s.toList.all t.contains := by
  have hcount := counted_eq s t
  obtain ⟨rep, adaptive⟩ := s
  cases rep with
  | compact c =>
    cases adaptive with
    | false => rfl
    | true => exact hcount
  | general g => cases adaptive <;> exact hcount

theorem contains_congr (s : Subset α) {a b : α} (h : (a == b) = true) : s.contains a = s.contains b := by
  rw [contains_eq, contains_eq, Domain.indexOf_congr _ h]

theorem isSubsetOf_iff (s t : Subset α) : s.isSubsetOf t = true ↔ ∀ e, s.contains e = true → t.contains e = true := by
  rw [isSubsetOf_eq, List.all_eq_true]
  constructor
  · intro h e he
    rw [contains_eq_any_toList, List.any_eq_true] at he
    obtain ⟨a, ha, hae⟩ := he
    rw [← contains_congr t hae]
    exact h a ha
  · intro h e he
    apply h
    rw [contains_eq_any_toList, List.any_eq_true]
    exact ⟨e, he, BEq.rfl⟩

theorem sameElements_iff (s t : Subset α) : s.sameElements t = true ↔ ∀ e, s.contains e = t.contains e := by
  have h := any_eq_iff s.toList_distinct t.toList_distinct
  rw [length_toList, length_toList] at h
  simp only [← contains_eq_any_toList] at h
  simp only [sameElements, Bool.and_eq_true, beq_iff_eq, List.all_eq_true]
  exact h

/-- over equal domains the positions say the same as the members -/
theorem places_eq_iff {s t : Subset α} (h : s.domain.same t.domain = true) :
    s.places = t.places ↔ ∀ e, s.contains e = t.contains e := by
  have hidx : ∀ {i a}, s.domain.elements[i]? = some a → (i ∈ t.places ↔ t.contains a = true) := by
    intro i a ha
    rw [contains_iff, ← Domain.indexOf_eq_of_same h, Domain.indexOf_of_getElem? ha]
    simp [mem_places]
  constructor
  · intro hp e
    rw [contains_eq, contains_eq, Domain.indexOf_eq_of_same h, positions_eq_of_places hp]
  · intro hc
    ext i
    constructor
    · intro hi
      obtain ⟨a, ha⟩ := Domain.exists_getElem? (lt_of_mem_positions hi)
      rw [hidx ha, ← hc, contains_iff]
      exact ⟨i, hi, Domain.indexOf_of_getElem? ha⟩
    · intro hi
      have hlt : i < s.domain.size := by
        rw [Domain.size_eq_of_same h]
        exact lt_of_mem_positions hi
      obtain ⟨a, ha⟩ := Domain.exists_getElem? hlt
      have hca := (hidx ha).1 hi
      rw [← hc, contains_iff] at hca
      obtain ⟨j, hj, hja⟩ := hca
      rw [Domain.indexOf_of_getElem? ha] at hja
      cases hja
      exact hj

/-- **Equality does not see the form.** Two subsets are equal iff they have the same positions of equal domains. -/
theorem same_iff (s t : Subset α) : s.same t = true ↔ s.domain.same t.domain = true ∧ s.places = t.places := by
  have mixed : (s.sameDomain t && s.sameElements t) = true ↔ s.domain.same t.domain = true ∧ s.places = t.places := by
    rw [Bool.and_eq_true, sameElements_iff]
    exact and_congr_right fun h => (places_eq_iff h).symm
  obtain ⟨r, a⟩ := s
  obtain ⟨r', b⟩ := t
  cases r with
  | compact c =>
    cases r' with
    | compact c' =>
      change (c.word == c'.word && c.domain.same c'.domain) = true ↔ _
      rw [Bool.and_eq_true, And.comm, beq_iff_eq]
      refine and_congr_right fun _ => ⟨fun hw => ?_, fun hp => Word.ext_has fun i => ?_⟩
      · ext i
        change i ∈ Word.positions c.word ↔ i ∈ Word.positions c'.word
        rw [hw]
      · have := Set.ext_iff.1 hp i
        rw [Bool.eq_iff_iff, ← Word.mem_positions, ← Word.mem_positions]
        exact this
    | general g => exact mixed
  | general g =>
    cases r' with
    | compact c' => exact mixed
    | general g' =>
      change (g.members.same g'.members && g.domain.same g'.domain) = true ↔ _
      rw [Bool.and_eq_true, And.comm, Members.same_iff]
      exact and_congr_right fun h => (places_eq_iff (s := ⟨.general g, a⟩) (t := ⟨.general g', b⟩) h).symm

end Subset

end SubsetAlgebra
