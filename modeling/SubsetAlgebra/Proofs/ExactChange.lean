/-
What the changes of a subset leave, and what they answer.

As for the algebra, each change is described by what becomes of the positions, whatever the form: `insert_known` and
`insert_foreign`, `erase_revised`, `clear_revised`, `extend_known` and `extend_foreign`, `semijoin_revised`. The flag of
an insertion is what was not there before, that of a removal what was, and the count of an extension is the growth of
the subset, also where the list names an element twice.
-/
import SubsetAlgebra.Proofs.ExactAlgebra
import SubsetAlgebra.Subset.Relation

namespace SubsetAlgebra

variable {α : Type} [Element α]

/-! ## Compact subsets -/

namespace CompactSubset

theorem insert_foreign {s : CompactSubset α} {e : α} (h : s.domain.indexOf e = none) :
    s.insert e = .error .foreignElement := by
  unfold insert
  split
  · rfl
  · next hi => rw [h] at hi; cases hi

theorem insert_known {s : CompactSubset α} {e : α} {i : Nat} (h : s.domain.indexOf e = some i) :
    ∃ t, s.insert e = .ok (t, !s.containsPosition i) ∧ t.domain = s.domain ∧
      ∀ j, t.containsPosition j = true ↔ j = i ∨ s.containsPosition j = true := by
  have hw : i < Word.width := (Domain.indexOf_lt h).trans_le s.fits
  unfold insert
  split
  · next hn => rw [h] at hn; cases hn
  · next k hk =>
    rw [h] at hk
    cases hk
    have hflag : (s.word &&& Word.bit i == 0) = !s.containsPosition i := Word.and_bit_eq_zero hw
    refine ⟨s.withWord (s.word ||| Word.bit i) _, by rw [hflag], rfl, fun j => ?_⟩
    change Word.has (s.word ||| Word.bit i) j = true ↔ _ ∨ Word.has s.word j = true
    rw [Word.has_or, Word.has_bit hw, Bool.or_eq_true, decide_eq_true_eq, Or.comm, eq_comm (a := i)]

theorem erase_revised (s : CompactSubset α) (e : α) :
    (s.erase e).2 = s.contains e ∧ (s.erase e).1.domain = s.domain ∧
      ∀ j, (s.erase e).1.containsPosition j = true ↔ s.containsPosition j = true ∧ s.domain.indexOf e ≠ some j := by
  unfold erase contains
  cases hi : s.domain.indexOf e with
  | none => exact ⟨rfl, rfl, fun j => by simp⟩
  | some i =>
    have hw : i < Word.width := (Domain.indexOf_lt hi).trans_le s.fits
    refine ⟨?_, rfl, fun j => ?_⟩
    · have := Word.and_bit_eq_zero (w := s.word) hw
      simp only [bne, this, Bool.not_not]
      rfl
    · change Word.has (s.word &&& ~~~Word.bit i) j = true ↔ Word.has s.word j = true ∧ _
      rw [Word.has_andNot, Word.has_bit hw, Bool.and_eq_true, Bool.not_eq_true', decide_eq_false_iff_not, Ne,
        Option.some_inj, eq_comm (a := i)]

theorem not_containsPosition_clear (s : CompactSubset α) (j : Nat) : s.clear.containsPosition j = false :=
  Word.has_zero j

end CompactSubset

/-! ## General subsets -/

namespace GeneralSubset

theorem insert_foreign {s : GeneralSubset α} {e : α} (h : s.domain.indexOf e = none) :
    s.insert e = .error .foreignElement := by
  have hc : s.domain.contains e = false := Domain.indexOf_eq_none_iff.1 h
  exact dif_neg (by simp [hc])

theorem insert_known {s : GeneralSubset α} {e : α} {i : Nat} (h : s.domain.indexOf e = some i) :
    ∃ t, s.insert e = .ok (t, !s.containsPosition i) ∧ t.domain = s.domain ∧
      ∀ j, t.containsPosition j = true ↔ j = i ∨ s.containsPosition j = true := by
  have hc : s.domain.contains e = true := Domain.contains_iff_indexOf.2 ⟨i, h⟩
  obtain ⟨a, ha, hae⟩ := Domain.indexOf_eq_some_iff.1 h
  have hflag : s.members.contains e = s.containsPosition i := by
    rw [containsPosition_at ha, contains_congr s hae]
    rfl
  obtain ⟨t, ht, hmem⟩ : ∃ t : GeneralSubset α, s.insert e = .ok (t, !s.containsPosition i) ∧
      t.domain = s.domain ∧ t.members = s.members.insert e := by
    rw [insert, dif_pos hc, hflag]
    exact ⟨_, rfl, rfl, rfl⟩
  refine ⟨t, ht, hmem.1, containsPosition_iff_of hmem.1 (fun j b hb => ?_) fun j hj => ?_⟩
  · have hpos : (e == b) = true ↔ j = i := by
      constructor
      · intro heb
        have := Domain.indexOf_of_getElem? hb
        rw [← Domain.indexOf_congr _ heb, h] at this
        exact (Option.some.inj this).symm
      · rintro rfl
        rw [ha] at hb
        cases hb
        exact BEq.symm hae
    rw [containsPosition_at hb, ← hpos]
    change t.members.contains b = true ↔ _ ∨ s.members.contains b = true
    rw [hmem.2, Members.contains_insert, Bool.or_eq_true, Or.comm]
  · have hi : i < s.domain.size := Domain.indexOf_lt h
    rw [not_containsPosition_of_le hj]
    intro h'
    rcases h' with rfl | hf
    · omega
    · cases hf

theorem erase_revised (s : GeneralSubset α) (e : α) :
    (s.erase e).2 = s.contains e ∧ (s.erase e).1.domain = s.domain ∧
      ∀ j, (s.erase e).1.containsPosition j = true ↔ s.containsPosition j = true ∧ s.domain.indexOf e ≠ some j := by
  refine ⟨rfl, rfl, ?_⟩
  refine containsPosition_iff_of (t := (s.erase e).1) (d := s.domain) rfl (fun j b hb => ?_) fun j hj => ?_
  · have hpos : (b == e) = true ↔ s.domain.indexOf e = some j := by
      rw [Domain.indexOf_eq_some_iff]
      exact ⟨fun h => ⟨b, hb, h⟩, fun ⟨x, hx, hxe⟩ => by rw [hb] at hx; cases hx; exact hxe⟩
    rw [containsPosition_at hb, Ne, ← hpos]
    change (s.members.erase e).contains b = true ↔ s.members.contains b = true ∧ _
    rw [Members.contains_erase, Bool.and_eq_true, Bool.not_eq_true', Bool.not_eq_true]
  · simp [not_containsPosition_of_le hj]

theorem not_containsPosition_clear (s : GeneralSubset α) (j : Nat) : s.clear.containsPosition j = false := by
  rw [← Bool.not_eq_true, containsPosition_iff]
  intro h
  obtain ⟨a, -, ha⟩ := h
  cases ha

end GeneralSubset

/-! ## Subsets of either form -/

namespace Subset

theorem insert_foreign {s : Subset α} {e : α} (h : s.domain.indexOf e = none) :
    s.insert e = .error .foreignElement := by
  obtain ⟨rep, adaptive⟩ := s
  cases rep with
  | compact c =>
    have := CompactSubset.insert_foreign (s := c) h
    simp only [insert, this]
    rfl
  | general g =>
    have := GeneralSubset.insert_foreign (s := g) h
    simp only [insert, this]
    rfl

theorem insert_known {s : Subset α} {e : α} {i : Nat} (h : s.domain.indexOf e = some i) :
    ∃ t, s.insert e = .ok (t, !s.containsPosition i) ∧ s.Revised t (Insert.insert i s.places) := by
  obtain ⟨rep, adaptive⟩ := s
  cases rep with
  | compact c =>
    obtain ⟨t, ht, hd, hp⟩ := CompactSubset.insert_known (s := c) h
    refine ⟨⟨.compact t, adaptive⟩, by simp only [insert, ht]; rfl, Revised.of_compact hd fun j => ?_⟩
    rw [hp, ← mem_places_compact c adaptive]
    rfl
  | general g =>
    obtain ⟨t, ht, hd, hp⟩ := GeneralSubset.insert_known (s := g) h
    refine ⟨⟨.general t, adaptive⟩, by simp only [insert, ht]; rfl, Revised.of_general hd fun j => ?_⟩
    rw [hp, ← mem_places_general g adaptive]
    rfl

/-- an insertion gives the subset other positions and nothing else -/
theorem revised_of_insert {s t : Subset α} {e : α} {new : Bool} (h : s.insert e = .ok (t, new)) :
    ∃ P, s.Revised t P := by
  cases hi : s.domain.indexOf e with
  | none =>
    rw [insert_foreign hi] at h
    cases h
  | some i =>
    obtain ⟨u, hu, hrev⟩ := insert_known hi
    rw [hu] at h
    cases h
    exact ⟨_, hrev⟩

theorem erase_revised (s : Subset α) (e : α) :
    (s.erase e).2 = s.contains e ∧ s.Revised (s.erase e).1 {j | j ∈ s.places ∧ s.domain.indexOf e ≠ some j} := by
  obtain ⟨rep, adaptive⟩ := s
  cases rep with
  | compact c =>
    obtain ⟨hflag, hd, hp⟩ := c.erase_revised e
    refine ⟨hflag, Revised.of_compact hd fun j => ?_⟩
    rw [hp, ← mem_places_compact c adaptive]
    rfl
  | general g =>
    obtain ⟨hflag, hd, hp⟩ := g.erase_revised e
    refine ⟨hflag, Revised.of_general hd fun j => ?_⟩
    rw [hp, ← mem_places_general g adaptive]
    rfl

theorem clear_revised (s : Subset α) : s.Revised s.clear ∅ := by
  obtain ⟨rep, adaptive⟩ := s
  cases rep with
  | compact c => exact Revised.of_compact rfl fun j => by simp [c.not_containsPosition_clear j]
  | general g => exact Revised.of_general rfl fun j => by simp [g.not_containsPosition_clear j]

/-! ## Extending -/

theorem placesOf_cons {d : Domain α} {e : α} {i : Nat} (h : d.indexOf e = some i) (es : List α) :
    d.placesOf (e :: es) = Insert.insert i (d.placesOf es) := by
  ext j
  simp only [Domain.placesOf, List.mem_cons, exists_eq_or_imp, h, Option.some.injEq, Set.mem_ofPred_eq,
    Set.mem_insert_iff, eq_comm (a := i)]

theorem size_insert {s t : Subset α} {i : Nat} (h : s.Revised t (Insert.insert i s.places)) :
    t.size = s.size + if s.containsPosition i then 0 else 1 := by
  have hmem : ∀ j, j ∈ t.positions ↔ j = i ∨ j ∈ s.positions := by
    intro j
    rw [← mem_places, h.places, Set.mem_insert_iff, mem_places]
  split_ifs with hi
  · have hsame : t.places = s.places := by
      rw [h.places, Set.insert_eq_of_mem]
      exact containsPosition_iff.1 hi
    rw [size_eq_length, size_eq_length, positions_eq_of_places hsame, Nat.add_zero]
  · rw [containsPosition_iff] at hi
    have hnew : (i :: s.positions).Nodup := List.nodup_cons.2 ⟨hi, s.positions_nodup⟩
    have hle : (i :: s.positions).length ≤ t.positions.length :=
      hnew.length_le_of_subset fun j hj => (hmem j).2 (List.mem_cons.1 hj)
    have hge : t.positions.length ≤ (i :: s.positions).length :=
      t.positions_nodup.length_le_of_subset fun j hj => List.mem_cons.2 ((hmem j).1 hj)
    rw [List.length_cons] at hle hge
    rw [size_eq_length, size_eq_length]
    omega

/-- elements of the domain are all added, and the count goes up by the growth -/
theorem insertAll_known {es : List α} {s : Subset α} (h : ∀ e ∈ es, s.domain.contains e = true) (n : Nat) :
    ∃ t m, s.insertAll n es = .ok (t, m) ∧ s.Revised t (s.places ∪ s.domain.placesOf es) ∧
      t.size + n = s.size + m := by
  induction es generalizing s n with
  | nil =>
    refine ⟨s, n, rfl, (Revised.refl s).of_places ?_, rfl⟩
    simp [Domain.placesOf]
  | cons e es ih =>
    obtain ⟨i, hi⟩ := Domain.contains_iff_indexOf.1 (h e List.mem_cons_self)
    obtain ⟨u, hu, hrev⟩ := insert_known hi
    have hsize := size_insert hrev
    have hrest : ∀ x ∈ es, u.domain.contains x = true := by
      intro x hx
      rw [hrev.domain]
      exact h x (List.mem_cons_of_mem e hx)
    obtain ⟨t, m, ht, hrev', hcount⟩ := ih hrest (if !s.containsPosition i then n + 1 else n)
    refine ⟨t, m, by simp only [insertAll, hu]; exact ht, ?_, ?_⟩
    · refine (hrev.trans hrev').of_places ?_
      rw [hrev.places, hrev.domain, placesOf_cons hi, Set.insert_union, Set.union_insert]
    · cases hc : s.containsPosition i <;> simp [hc] at hcount hsize <;> omega

theorem extend_foreign {s : Subset α} {es : List α} (h : ∃ e ∈ es, s.domain.contains e = false) :
    s.extend es = .error .foreignElement := by
  exact if_pos (Domain.any_foreign_iff.2 h)

theorem extend_eq_insertAll {s : Subset α} {es : List α} (h : ∀ e ∈ es, s.domain.contains e = true) :
    s.extend es = s.insertAll 0 es :=
  if_neg (Domain.not_any_foreign h)

theorem extend_known {s : Subset α} {es : List α} (h : ∀ e ∈ es, s.domain.contains e = true) :
    ∃ t n, s.extend es = .ok (t, n) ∧ s.Revised t (s.places ∪ s.domain.placesOf es) ∧ t.size = s.size + n := by
  obtain ⟨t, n, ht, hrev, hcount⟩ := insertAll_known h 0
  exact ⟨t, n, by rw [extend_eq_insertAll h, ht], hrev, hcount⟩

/-- an extension gives the subset other positions and nothing else -/
theorem revised_of_extend {s t : Subset α} {es : List α} {n : Nat} (h : s.extend es = .ok (t, n)) :
    ∃ P, s.Revised t P := by
  rcases s.domain.foreign_or_known es with hforeign | hknown
  · rw [extend_foreign hforeign] at h
    cases h
  · obtain ⟨u, m, hu, hrev, -⟩ := extend_known hknown
    rw [hu] at h
    cases h
    exact ⟨_, hrev⟩

/-! ## Semijoins -/

variable {β : Type} [Element β]

/-- a semijoin removes, in turn, the members that are related to nothing -/
theorem semijoin_eq_foldl (s : Subset α) (t : Subset β) (related : α → β → Bool) :
    s.semijoin t related =
      s.toList.foldl (fun kept a => if t.toList.any (related a) then kept else (kept.erase a).1) s := by
  simp [semijoin, semijoinM]

theorem foldl_erase_revised (keep : α → Bool) (as : List α) (s : Subset α) :
    s.Revised (as.foldl (fun kept a => if keep a then kept else (kept.erase a).1) s)
      {j | j ∈ s.places ∧ ∀ a ∈ as, s.domain.indexOf a = some j → keep a = true} := by
  induction as generalizing s with
  | nil =>
    refine (Revised.refl s).of_places ?_
    simp
  | cons a as ih =>
    rw [List.foldl_cons]
    by_cases hk : keep a = true
    · rw [if_pos hk]
      refine (ih s).of_places ?_
      simp [hk]
    · rw [if_neg hk]
      have herase := (s.erase_revised a).2
      refine (herase.trans (ih _)).of_places ?_
      rw [herase.places, herase.domain]
      ext j
      simp only [Set.mem_ofPred_eq, List.mem_cons, forall_eq_or_imp, hk, Bool.false_eq_true, imp_false,
        and_assoc, Ne]

/-- a member is kept iff it is related to some member of the right side -/
theorem semijoin_revised (s : Subset α) (t : Subset β) (related : α → β → Bool) :
    s.Revised (s.semijoin t related)
      {j | j ∈ s.places ∧ ∃ a, s.domain.elements[j]? = some a ∧ ∃ b ∈ t.toList, related a b = true} := by
  rw [semijoin_eq_foldl]
  refine (foldl_erase_revised _ s.toList s).of_places ?_
  ext j
  simp only [Set.mem_ofPred_eq, List.any_eq_true]
  refine and_congr_right fun hj => ?_
  obtain ⟨a, ha⟩ := Domain.exists_getElem? (lt_of_mem_positions hj)
  constructor
  · intro h
    exact ⟨a, ha, h a (mem_toList.2 ⟨j, hj, ha⟩) (Domain.indexOf_of_getElem? ha)⟩
  · intro h' y hy hidx
    obtain ⟨x, hx, hrel⟩ := h'
    -- the members are the domain's own elements, so the one at position `j` is `x` itself
    obtain ⟨k, -, hk⟩ := mem_toList.1 hy
    rw [Domain.indexOf_of_getElem? hk] at hidx
    cases hidx
    rw [hx] at hk
    cases hk
    exact hrel

end Subset

end SubsetAlgebra
