/-
What a subset says of each position, however it is held.

A word says it by its bits, a set of members by what the domain has at the position; `mem_positions` and `contains_iff`
bring both to one form, and `positions_ascending` fixes the order. From there on a subset is its domain and its list of
positions: every query is a function of these two (`size_eq_length`, `contains_eq`, `toWord_eq`, `toMask_eq`,
`toBits_eq` and so on), whatever the form and whatever representatives the members are. `places` is the set of the
positions.
-/
import Mathlib.Data.Set.Insert
import SubsetAlgebra.Proofs.MaskRule
import SubsetAlgebra.Proofs.Membership
import SubsetAlgebra.Subset.Basic

namespace SubsetAlgebra

open Word (width)

variable {α : Type} [Element α]

/-! ## Compact subsets -/

namespace CompactSubset

theorem mem_positions {s : CompactSubset α} {i : Nat} : i ∈ s.positions ↔ s.containsPosition i = true :=
  Word.mem_positions

theorem contains_iff {s : CompactSubset α} {e : α} :
    s.contains e = true ↔ ∃ i, s.domain.indexOf e = some i ∧ s.containsPosition i = true := by
  unfold contains
  cases s.domain.indexOf e <;> simp

end CompactSubset

/-! ## General subsets -/

namespace GeneralSubset

theorem contains_congr (s : GeneralSubset α) {a b : α} (h : (a == b) = true) : s.contains a = s.contains b :=
  Members.contains_congr s.members h

theorem containsPosition_iff {s : GeneralSubset α} {i : Nat} :
    s.containsPosition i = true ↔ ∃ a, s.domain.elements[i]? = some a ∧ s.contains a = true := by
  unfold containsPosition Domain.get
  cases s.domain.elements[i]? <;> simp

theorem contains_iff {s : GeneralSubset α} {e : α} :
    s.contains e = true ↔ ∃ i, s.domain.indexOf e = some i ∧ s.containsPosition i = true := by
  constructor
  · intro h
    obtain ⟨a, ha, hae⟩ := Members.contains_iff.1 h
    obtain ⟨i, hi⟩ := Domain.contains_iff_indexOf.1 (s.inside a ha)
    rw [Domain.indexOf_congr _ hae] at hi
    obtain ⟨b, hb, hbe⟩ := Domain.indexOf_eq_some_iff.1 hi
    exact ⟨i, hi, containsPosition_iff.2 ⟨b, hb, by rw [contains_congr s hbe]; exact h⟩⟩
  · intro h'
    obtain ⟨i, hi, hp⟩ := h'
    obtain ⟨a, ha, hae⟩ := Domain.indexOf_eq_some_iff.1 hi
    obtain ⟨b, hb, hc⟩ := containsPosition_iff.1 hp
    rw [ha] at hb
    cases hb
    rwa [← contains_congr s hae]

theorem mem_positions {s : GeneralSubset α} {i : Nat} : i ∈ s.positions ↔ s.containsPosition i = true := by
  have hmem : i ∈ s.positions ↔ ∃ e ∈ s.members.toList, s.domain.indexOf e = some i :=
    (List.mergeSort_perm _ _).mem_iff.trans List.mem_filterMap
  rw [hmem, containsPosition_iff]
  constructor
  · intro h
    obtain ⟨e, he, hi⟩ := h
    obtain ⟨a, ha, hae⟩ := Domain.indexOf_eq_some_iff.1 hi
    exact ⟨a, ha, by rw [contains_congr s hae]; exact Members.contains_of_mem he⟩
  · intro h
    obtain ⟨a, ha, hc⟩ := h
    obtain ⟨e, he, hea⟩ := Members.contains_iff.1 hc
    exact ⟨e, he, Domain.indexOf_eq_some_iff.2 ⟨a, ha, BEq.symm hea⟩⟩

/-- at a position of the domain, membership is that of the element there -/
theorem containsPosition_at {s : GeneralSubset α} {i : Nat} {a : α} (ha : s.domain.elements[i]? = some a) :
    s.containsPosition i = s.contains a := by
  unfold containsPosition Domain.get
  rw [ha]

theorem not_containsPosition_of_le {s : GeneralSubset α} {i : Nat} (h : s.domain.size ≤ i) :
    s.containsPosition i = false := by
  rw [← Bool.not_eq_true, ← mem_positions]
  intro hi
  have := lt_of_mem_positions hi
  omega

/-- the positions of a subset are known once its elements are, and there is nothing past the end -/
theorem containsPosition_iff_of {d : Domain α} {t : GeneralSubset α} (hd : t.domain = d) {P : Nat → Prop}
    (within : ∀ i a, d.elements[i]? = some a → (t.contains a = true ↔ P i)) (past : ∀ i, d.size ≤ i → ¬ P i) (i : Nat) :
    t.containsPosition i = true ↔ P i := by
  subst hd
  rcases Nat.lt_or_ge i t.domain.size with hi | hi
  · obtain ⟨a, ha⟩ := Domain.exists_getElem? hi
    rw [containsPosition_at ha, within i a ha]
  · have hnone := not_containsPosition_of_le hi
    have hP := past i hi
    simp [hnone, hP]

/-- unequal members have different positions, so sorting them leaves no repetition -/
theorem positions_ascending (s : GeneralSubset α) : s.positions.Pairwise (· < ·) := by
  have hle : s.positions.Pairwise (fun i j => decide (i ≤ j) = true) := by
    apply List.pairwise_mergeSort
    · intro a b c hab hbc
      simp only [decide_eq_true_eq] at *
      omega
    · intro a b
      simp only [Bool.or_eq_true, decide_eq_true_eq]
      omega
  have hne : s.positions.Nodup := by
    apply (List.mergeSort_perm _ _).nodup_iff.2
    refine List.Pairwise.filterMap _ (fun a b hab i hi j hj hij => ?_) s.members.distinct
    subst hij
    obtain ⟨x, hx, hxa⟩ := Domain.indexOf_eq_some_iff.1 hi
    obtain ⟨y, hy, hyb⟩ := Domain.indexOf_eq_some_iff.1 hj
    rw [hx] at hy
    cases hy
    have := BEq.trans (BEq.symm hxa) hyb
    rw [hab] at this
    cases this
  refine (hle.and hne).imp fun h => ?_
  have := of_decide_eq_true h.1
  omega

/-- every member has a position -/
theorem size_eq_length (s : GeneralSubset α) : s.size = s.positions.length := by
  have hall : (s.members.toList.filterMap s.domain.indexOf).length = s.members.toList.length := by
    rw [List.filterMap_length_eq_length]
    exact fun e he => s.inside e he
  rw [positions, List.length_mergeSort, hall]
  rfl

end GeneralSubset

/-! ## Subsets of either form -/

namespace Subset

/-- the positions of the members, as a set -/
def places (s : Subset α) : Set Nat := {i | i ∈ s.positions}

theorem containsPosition_iff {s : Subset α} {i : Nat} : s.containsPosition i = true ↔ i ∈ s.positions := by
  obtain ⟨rep, _⟩ := s
  cases rep with
  | compact c => exact CompactSubset.mem_positions.symm
  | general g => exact GeneralSubset.mem_positions.symm

theorem mem_places {s : Subset α} {i : Nat} : i ∈ s.places ↔ i ∈ s.positions := Iff.rfl

theorem mem_places_compact (c : CompactSubset α) (adaptive : Bool) (i : Nat) :
    i ∈ places ⟨.compact c, adaptive⟩ ↔ c.containsPosition i = true := CompactSubset.mem_positions

theorem mem_places_general (g : GeneralSubset α) (adaptive : Bool) (i : Nat) :
    i ∈ places ⟨.general g, adaptive⟩ ↔ g.containsPosition i = true := GeneralSubset.mem_positions

theorem positions_ascending (s : Subset α) : s.positions.Pairwise (· < ·) := by
  obtain ⟨rep, _⟩ := s
  cases rep with
  | compact c => exact Word.positions_ascending c.word
  | general g => exact g.positions_ascending

theorem positions_nodup (s : Subset α) : s.positions.Nodup := s.positions_ascending.imp fun h => Nat.ne_of_lt h

theorem lt_of_mem_positions {s : Subset α} {i : Nat} (h : i ∈ s.positions) : i < s.domain.size := by
  obtain ⟨rep, _⟩ := s
  cases rep with
  | compact c => exact CompactSubset.lt_of_mem_positions h
  | general g => exact GeneralSubset.lt_of_mem_positions h

theorem positions_eq_of_places {s t : Subset α} (h : s.places = t.places) : s.positions = t.positions :=
  eq_of_ascending s.positions_ascending t.positions_ascending fun i => Set.ext_iff.1 h i

theorem positions_eq_filter (s : Subset α) : s.positions = (List.range s.domain.size).filter s.containsPosition := by
  apply eq_filter_range s.positions_ascending
  intro i
  rw [containsPosition_iff]
  exact ⟨fun h => ⟨lt_of_mem_positions h, h⟩, And.right⟩

/-! ## Queries -/

theorem size_eq_length (s : Subset α) : s.size = s.positions.length := by
  obtain ⟨rep, _⟩ := s
  cases rep with
  | compact c => exact Word.count_eq_length c.word
  | general g => exact g.size_eq_length

theorem size_le (s : Subset α) : s.size ≤ s.domain.size := by
  calc s.size = ((List.range s.domain.size).filter s.containsPosition).length := by
        rw [size_eq_length, ← positions_eq_filter]
    _ ≤ (List.range s.domain.size).length := List.length_filter_le _ _
    _ = s.domain.size := List.length_range

theorem isEmpty_eq (s : Subset α) : s.isEmpty = s.positions.isEmpty := by
  obtain ⟨rep, _⟩ := s
  cases rep with
  | compact c =>
    rw [Bool.eq_iff_iff, List.isEmpty_iff, List.eq_nil_iff_forall_not_mem]
    change (c.word == 0) = true ↔ ∀ i, i ∉ c.positions
    simp only [beq_iff_eq, Word.eq_zero_iff, CompactSubset.mem_positions, Bool.not_eq_true]
    rfl
  | general g =>
    change (g.size == 0) = g.positions.isEmpty
    rw [g.size_eq_length, Bool.eq_iff_iff, beq_iff_eq, List.isEmpty_iff, List.length_eq_zero_iff]

theorem isEmpty_iff_size (s : Subset α) : s.isEmpty = true ↔ s.size = 0 := by
  rw [isEmpty_eq, size_eq_length, List.isEmpty_iff, List.length_eq_zero_iff]

theorem containsPosition_eq (s : Subset α) (i : Nat) : s.containsPosition i = decide (i ∈ s.positions) := by
  rw [Bool.eq_iff_iff, containsPosition_iff, decide_eq_true_eq]

theorem contains_iff {s : Subset α} {e : α} : s.contains e = true ↔ ∃ i ∈ s.positions, s.domain.indexOf e = some i := by
  obtain ⟨rep, _⟩ := s
  cases rep with
  | compact c =>
    refine CompactSubset.contains_iff.trans (exists_congr fun i => ?_)
    rw [And.comm, ← mem_places, mem_places_compact]
    rfl
  | general g =>
    refine GeneralSubset.contains_iff.trans (exists_congr fun i => ?_)
    rw [And.comm, ← mem_places, mem_places_general]
    rfl

/-- an element is a member iff the position that the domain has for it is -/
theorem contains_eq (s : Subset α) (e : α) :
    s.contains e = (s.domain.indexOf e).any fun i => decide (i ∈ s.positions) := by
  rw [Bool.eq_iff_iff, contains_iff]
  cases s.domain.indexOf e <;> simp

theorem not_contains_of_foreign {s : Subset α} {e : α} (he : s.domain.contains e = false) : s.contains e = false := by
  rw [contains_eq, Domain.indexOf_eq_none_iff.2 he, Option.any_none]

theorem containsPosition_of_indexOf {s : Subset α} {e : α} {i : Nat} (h : s.domain.indexOf e = some i) :
    s.containsPosition i = s.contains e := by
  rw [containsPosition_eq, contains_eq, h, Option.any_some]

theorem contains_eq_any_toList (s : Subset α) (e : α) : s.contains e = s.toList.any (· == e) := by
  rw [Bool.eq_iff_iff, contains_iff, toList, Domain.any_select]

theorem mem_toList {s : Subset α} {e : α} : e ∈ s.toList ↔ ∃ i ∈ s.positions, s.domain.elements[i]? = some e :=
  Domain.mem_select

theorem mem_elements {s : Subset α} {e : α} (h : e ∈ s.toList) : e ∈ s.domain.elements :=
  Domain.mem_of_mem_select h

theorem has_ofPositions_positions {s : Subset α} (h : s.domain.size ≤ width) (i : Nat) :
    Word.has (Word.ofPositions s.positions) i = s.containsPosition i := by
  rw [Word.has_ofPositions (fun j hj => (lt_of_mem_positions hj).trans_le h), containsPosition_eq]

/-- a word is to be had of a domain that fits in one, whatever the form -/
theorem toWord_eq (s : Subset α) :
    s.toWord =
      if width < s.domain.size then .error (.wordOverflow s.domain.size) else .ok (Word.ofPositions s.positions) := by
  obtain ⟨rep, adaptive⟩ := s
  cases rep with
  | compact c =>
    have hfit : (Subset.mk (.compact c) adaptive).domain.size ≤ width := c.fits
    rw [if_neg (by omega)]
    change Except.ok c.word = _
    congr 1
    exact Word.ext_has fun i => (has_ofPositions_positions hfit i).symm
  | general g => rfl

theorem toMask_eq (s : Subset α) : s.toMask = (WordBuffer.ofPositions s.positions).toNat := by
  obtain ⟨rep, adaptive⟩ := s
  cases rep with
  | compact c =>
    change ((c.word.toNat : Nat) : Int) = _
    congr 1
    apply Nat.eq_of_testBit_eq
    intro i
    rw [WordBuffer.testBit_toNat, WordBuffer.has_ofPositions, ← containsPosition_eq, ← Word.has_eq_testBit]
    rfl
  | general g => rfl

/-- one bit for each element of the domain, whatever the form -/
theorem toBits_eq (s : Subset α) : s.toBits = (List.range s.domain.size).map s.containsPosition := by
  obtain ⟨rep, adaptive⟩ := s
  cases rep with
  | compact c =>
    refine (WordBuffer.toBits_eq _ _).trans (List.map_congr_left fun i _ => ?_)
    exact WordBuffer.has_singleton c.word i
  | general g =>
    refine (WordBuffer.toBits_eq _ _).trans (List.map_congr_left fun i _ => ?_)
    rw [WordBuffer.has_ofPositions, containsPosition_eq]
    rfl

/-- the members without the domain are the members, whichever representatives are given out -/
theorem contains_toMembers (s : Subset α) (e : α) : s.toMembers.contains e = s.contains e := by
  have hlist : (Members.ofList s.toList).contains e = s.contains e := by
    rw [Members.contains_ofList, contains_eq_any_toList]
  unfold toMembers
  split_ifs
  · exact hlist
  · obtain ⟨rep, adaptive⟩ := s
    cases rep with
    | compact c => exact hlist
    | general g => rfl

end Subset

end SubsetAlgebra
