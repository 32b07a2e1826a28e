/-
The views of a subset, which agree bit for bit.

A subset can be asked for the positions of its members, for one position or one element, for the members as an integer,
as bits, as a word, as a list, as a set or as text. The two forms answer by code of their own: a word counts and shifts
bits, a set of members is looked up, sorted and folded into a growing buffer. `SeenAt` says what each view tells of one
position, `SeenOf` what each tells of one element, and `SeenWhole` what they tell of the subset as a whole.

Positions past the end of the domain are covered, and so are domains without elements and those just above and below
the width of a word.
-/
import Mathlib.Data.Nat.BitIndices
import SubsetAlgebra.Proofs.RoundTrip
import SubsetAlgebra.Subset.Presented

namespace SubsetAlgebra

open Word (width)

variable {α : Type} [Element α]

/-! ## Elements at positions -/

namespace Domain

theorem forall₂_select {d : Domain α} {ps : List Nat} (h : ∀ i ∈ ps, i < d.size) :
    List.Forall₂ (fun i a => d.get i = .ok a) ps (d.select ps) := by
  induction ps with
  | nil => exact .nil
  | cons i ps ih =>
    obtain ⟨a, ha⟩ := exists_getElem? (h i List.mem_cons_self)
    rw [select, List.filterMap_cons_some ha]
    exact .cons (get_eq_ok_iff.2 ha) (ih fun j hj => h j (List.mem_cons_of_mem i hj))

end Domain

/-- two lists side by side, as what a function makes of the first one -/
theorem filterMap_eq_zipWith {β γ δ : Type} {f : β → Option γ} (g : β → γ → δ) {xs : List β} {ys : List γ}
    (h : List.Forall₂ (fun x y => f x = some y) xs ys) :
    xs.filterMap (fun x => (f x).map (g x)) = List.zipWith g xs ys := by
  induction h with
  | nil => rfl
  | cons hxy _ ih => rw [List.filterMap_cons_some (by rw [hxy]; rfl), ih, List.zipWith_cons_cons]

/-- a set made of pairwise unequal elements has them all -/
theorem Members.size_ofList {es : List α} (h : es.Pairwise Unequal) : (Members.ofList es).size = es.length :=
  ((any_eq_iff (Members.ofList es).distinct h).2 (Members.contains_ofList es)).1

/-- texts one after another, a comma and a space between any two -/
def listed : List String → String
  | [] => ""
  | [t] => t
  | t :: u :: ts => t ++ ", " ++ listed (u :: ts)

theorem intercalate_eq_listed (ts : List String) : ", ".intercalate ts = listed ts := by
  induction ts with
  | nil => simp [listed]
  | cons t ts ih =>
    cases ts with
    | nil => simp [listed]
    | cons u ts => rw [String.intercalate_cons_cons, ih, listed]

namespace Subset

/-! ## One position -/

/-- what every view tells of position `i` -/
structure SeenAt (s : Subset α) (i : Nat) : Prop where
  containsPosition : s.containsPosition i = true ↔ i ∈ s.positions
  element : (∃ a, s.domain.get i = .ok a ∧ s.contains a = true) ↔ i ∈ s.positions
  mask : s.toMask.toNat.testBit i = true ↔ i ∈ s.positions
  bits : s.toBits[i]? = some true ↔ i ∈ s.positions
  word : ∀ w, s.toWord = .ok w → (w.toNat.testBit i = true ↔ i ∈ s.positions)
  within : i ∈ s.positions → i < s.domain.size

theorem seenAt (s : Subset α) (i : Nat) : s.SeenAt i where
  containsPosition := containsPosition_iff
  element := by
    constructor
    · intro h
      obtain ⟨a, ha, hc⟩ := h
      obtain ⟨j, hj, hidx⟩ := contains_iff.1 hc
      rw [Domain.indexOf_of_getElem? (Domain.get_eq_ok_iff.1 ha)] at hidx
      cases hidx
      exact hj
    · intro hi
      obtain ⟨a, ha⟩ := Domain.exists_getElem? (lt_of_mem_positions hi)
      exact ⟨a, Domain.get_eq_ok_iff.2 ha, contains_iff.2 ⟨i, hi, Domain.indexOf_of_getElem? ha⟩⟩
  mask := by rw [testBit_toMask, decide_eq_true_eq]
  bits := getElem?_toBits s i
  word w hw := by
    rw [← Word.has_eq_testBit]
    exact (has_of_toWord hw).2 i
  within := lt_of_mem_positions

/-! ## One element -/

/-- what every view tells of the element `e` -/
structure SeenOf (s : Subset α) (e : α) : Prop where
  position : s.contains e = true ↔ ∃ i ∈ s.positions, s.domain.indexOf e = some i
  members : s.contains e = true ↔ s.toMembers.contains e = true

theorem seenOf (s : Subset α) (e : α) : s.SeenOf e := ⟨contains_iff, by rw [contains_toMembers]⟩

/-! ## The whole -/

/-- there is a word for every domain that fits in one, whatever the form and the members -/
theorem toWord_error_iff (s : Subset α) (err : Error) :
    s.toWord = .error err ↔ width < s.domain.size ∧ err = .wordOverflow s.domain.size := by
  rw [toWord_eq]
  split_ifs with h
  · simp [h, eq_comm]
  · simp [h]

theorem forall₂_toList (s : Subset α) : List.Forall₂ (fun i a => s.domain.get i = .ok a) s.positions s.toList :=
  Domain.forall₂_select fun _ => lt_of_mem_positions

theorem indexed_eq (s : Subset α) : s.indexed = List.zipWith Pair.mk s.positions s.toList :=
  filterMap_eq_zipWith Pair.mk (s.forall₂_toList.imp fun _ _ => Domain.get_eq_ok_iff.1)

/-- the one-bits of a number that has those of the positions are the positions -/
theorem bitIndices_eq {s : Subset α} {m : Nat} (h : ∀ i, m.testBit i = true ↔ i ∈ s.positions) :
    m.bitIndices = s.positions := by
  apply eq_of_ascending Nat.bitIndices_sorted.pairwise s.positions_ascending
  intro i
  rw [Nat.mem_bitIndices, h]

theorem count_toBits (s : Subset α) : s.toBits.count true = s.size := by
  calc s.toBits.count true = ((List.range s.domain.size).map s.containsPosition).count true := by rw [toBits_eq]
    _ = (List.range s.domain.size).countP s.containsPosition := by
      rw [List.count, List.countP_map]
      congr 1
      funext i
      simp
    _ = s.positions.length := by rw [List.countP_eq_length_filter, ← positions_eq_filter]
    _ = s.size := s.size_eq_length.symm

theorem size_toMembers (s : Subset α) : s.toMembers.size = s.size := by
  have hlist : (Members.ofList s.toList).size = s.size := by
    rw [Members.size_ofList s.toList_distinct, length_toList]
  unfold toMembers
  split_ifs
  · exact hlist
  · obtain ⟨rep, adaptive⟩ := s
    cases rep with
    | compact c => exact hlist
    | general g => rfl

theorem isFull_iff (s : Subset α) : s.isFull = true ↔ s.positions = List.range s.domain.size := by
  rw [isFull, beq_iff_eq, size_eq_length]
  constructor
  · intro h
    rw [positions_eq_filter] at h ⊢
    rw [List.filter_eq_self, ← List.length_filter_eq_length_iff, h, List.length_range]
  · intro h
    rw [h, List.length_range]

/-- what the views tell of the subset as a whole -/
structure SeenWhole (s : Subset α) : Prop where
  ascending : s.positions.Pairwise (· < ·)
  /-- the elements at the positions, in that order -/
  toList : List.Forall₂ (fun i a => s.domain.get i = .ok a) s.positions s.toList
  indexed : s.indexed = List.zipWith Pair.mk s.positions s.toList
  mask_nonneg : 0 ≤ s.toMask
  bits_length : s.toBits.length = s.domain.size
  word_ok_iff : (∃ w, s.toWord = .ok w) ↔ s.domain.size ≤ 64
  word_error_iff : ∀ err, s.toWord = .error err ↔ 64 < s.domain.size ∧ err = .wordOverflow s.domain.size
  size : s.size = s.positions.length
  mask_ones : s.toMask.toNat.bitIndices.length = s.size
  bits_ones : s.toBits.count true = s.size
  word_ones : ∀ w, s.toWord = .ok w → w.toNat.bitIndices.length = s.size
  members_size : s.toMembers.size = s.size
  isEmpty : s.isEmpty = true ↔ s.positions = []
  isFull : s.isFull = true ↔ s.positions = List.range s.domain.size
  display : ∀ [Presented α], s.display = "\x7b" ++ listed (s.toList.map Presented.display) ++ "\x7d"

theorem seenWhole (s : Subset α) : s.SeenWhole where
  ascending := s.positions_ascending
  toList := s.forall₂_toList
  indexed := s.indexed_eq
  mask_nonneg := s.toMask_nonneg
  bits_length := by rw [toBits_eq, List.length_map, List.length_range]
  word_ok_iff := by
    constructor
    · intro h
      obtain ⟨w, hw⟩ := h
      exact (has_of_toWord hw).1
    · intro h
      obtain ⟨w, hw, -⟩ := s.toWord_has h
      exact ⟨w, hw⟩
  word_error_iff := s.toWord_error_iff
  size := s.size_eq_length
  mask_ones := by rw [bitIndices_eq fun i => (s.seenAt i).mask, size_eq_length]
  bits_ones := s.count_toBits
  word_ones w hw := by rw [bitIndices_eq fun i => (s.seenAt i).word w hw, size_eq_length]
  members_size := s.size_toMembers
  isEmpty := by rw [isEmpty_eq, List.isEmpty_iff]
  isFull := s.isFull_iff
  display := by
    intro _
    rw [Subset.display, Presented.displaySet, intercalate_eq_listed]

/-! ## Main result -/

/-- **All views agree.** Every view of a subset, of either form and over a domain of any size, tells the same of each
position, of each element and of the whole. -/
theorem views_agree (s : Subset α) : (∀ i, s.SeenAt i) ∧ (∀ e, s.SeenOf e) ∧ s.SeenWhole :=
  ⟨s.seenAt, s.seenOf, s.seenWhole⟩

end Subset

end SubsetAlgebra
