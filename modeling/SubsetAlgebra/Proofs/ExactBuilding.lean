/-
What building a subset gives, and when it fails.

A choice admits every domain, except that a compact subset has to fit in a word (`Choice.Admits`). What is built has the
domain and the choice that were asked for (`Built`); whether the form was chosen by the caller or by the size of the
domain makes no other difference.

Results:
- `empty_built`, `empty_refused`, `full_built`;
- `ofList_built`, `ofList_foreign`: the positions of the elements, or nothing if one of them is foreign;
- `ofOperand_answers`: what the operand selects, or its fault;
- `reattach_built`, `reattach_mismatch`: the same positions of an equal domain, and of no other.
-/
import SubsetAlgebra.Proofs.ExactChange

namespace SubsetAlgebra

open Word (width)
open Operand (Answers)

variable {α : Type} [Element α]

/-! ## Forms named by an operand -/

theorem CompactSubset.ofOperand_answers {d : Domain α} (hd : d.size ≤ width) (o : Operand α) :
    Answers o d .reject (ofOperand d o) fun t =>
      t.domain = d ∧ ∀ i, t.containsPosition i = true ↔ i ∈ o.selection d := by
  refine (resolve_answers hd .reject o).trans (fun e he => ?_) fun w hw _ hbits => ?_
  · simp only [ofOperand, empty, dif_pos hd]
    split
    · next e' he' => rw [he] at he'; cases he'; rfl
    · next v hv => rw [he] at hv; cases hv
  · simp only [ofOperand, empty, dif_pos hd]
    split
    · next e he => rw [hw] at he; cases he
    · next v hv =>
      rw [hw] at hv
      cases hv
      exact ⟨_, rfl, rfl, hbits⟩

theorem GeneralSubset.ofOperand_answers (d : Domain α) (o : Operand α) :
    Answers o d .reject (ofOperand d o) fun t =>
      t.domain = d ∧ ∀ i, t.containsPosition i = true ↔ i ∈ o.selection d := by
  refine (resolve_answers d .reject o).trans (fun e he => ?_) fun m hm hnone hfinds => ?_
  · unfold ofOperand
    split
    · next e' he' => rw [he] at he'; cases he'; rfl
    · next v hv => rw [he] at hv; cases hv
  · unfold ofOperand
    split
    · next e he => rw [hm] at he; cases he
    · next v hv =>
      rw [hm] at hv
      cases hv
      refine ⟨_, rfl, rfl, containsPosition_iff_of (d := d) (by rfl) (fun i a ha => hfinds.at ha) fun i hi hsel => ?_⟩
      have := Operand.lt_size_of_selection hnone hsel
      omega

/-! ## Choices -/

/-- whether subsets of `d` can be had under a choice -/
def Choice.Admits (c : Choice) (d : Domain α) : Prop := c = .compact → d.size ≤ width

theorem Choice.admits_iff_of_same {d d' : Domain α} (h : d.same d' = true) (c : Choice) : c.Admits d ↔ c.Admits d' := by
  rw [Admits, Admits, Domain.size_eq_of_same h]

namespace Subset

/-- the subset `t` of `d` was built under the choice `c` and has the positions `P` -/
structure Built (c : Choice) (d : Domain α) (t : Subset α) (P : Set Nat) : Prop where
  domain : t.domain = d
  choice : t.choice = c
  places : t.places = P

theorem Built.revised {c : Choice} {d : Domain α} {s t : Subset α} {P Q : Set Nat} (h : Built c d s P)
    (h' : s.Revised t Q) : Built c d t Q :=
  ⟨h'.domain.trans h.domain, h'.choice.trans h.choice, h'.places⟩

theorem Built.of_places {c : Choice} {d : Domain α} {t : Subset α} {P Q : Set Nat} (h : Built c d t P) (hPQ : P = Q) :
    Built c d t Q := hPQ ▸ h

/-- a subset's own choice admits its domain -/
theorem admits_choice (s : Subset α) : s.choice.Admits s.domain := by
  intro h
  obtain ⟨rep, adaptive⟩ := s
  cases rep with
  | compact c => exact c.fits
  | general g => cases adaptive <;> cases h

/-- a form that the caller fixed is the one that was asked for -/
theorem resolve_choice (s : Subset α) (h : s.choice ≠ .auto) : s.choice.resolve s.domain.size = .ok s.strategy := by
  obtain ⟨rep, adaptive⟩ := s
  cases adaptive with
  | true => exact absurd rfl h
  | false =>
    cases rep with
    | compact c => exact if_neg (Nat.not_lt.2 c.fits)
    | general g => rfl

/-! ## Subsets without members -/

theorem places_of_zero {d : Domain α} (h : d.size ≤ width) (adaptive : Bool) :
    places ⟨.compact ⟨d, 0, h, CompactSubset.zero_lt d⟩, adaptive⟩ = ∅ := by
  ext i
  rw [mem_places_compact]
  change Word.has 0 i = true ↔ _
  simp [Word.has_zero]

theorem places_of_empty (d : Domain α) (adaptive : Bool) : places ⟨.general (.empty d), adaptive⟩ = ∅ := by
  ext i
  have hnone : (GeneralSubset.empty d).containsPosition i = false :=
    GeneralSubset.not_containsPosition_clear (.empty d) i
  simp [mem_places_general, hnone]

theorem emptyAuto_built (d : Domain α) : Built .auto d (emptyAuto d) ∅ := by
  unfold emptyAuto
  split_ifs with h
  · exact ⟨rfl, rfl, places_of_zero h true⟩
  · exact ⟨rfl, rfl, places_of_empty d true⟩

theorem empty_built {c : Choice} {d : Domain α} (h : c.Admits d) : ∃ t, empty c d = .ok t ∧ Built c d t ∅ := by
  cases c with
  | auto => exact ⟨_, rfl, emptyAuto_built d⟩
  | compact =>
    have hd := h rfl
    refine ⟨_, ?_, rfl, rfl, places_of_zero hd false⟩
    simp only [empty, CompactSubset.empty, dif_pos hd]
    rfl
  | general => exact ⟨_, rfl, rfl, rfl, places_of_empty d false⟩

theorem empty_refused {c : Choice} {d : Domain α} (h : ¬ c.Admits d) : empty c d = .error (.wordOverflow d.size) := by
  have hc : c = .compact := by
    by_contra hne
    exact h fun heq => absurd heq hne
  have hd : ¬ d.size ≤ width := fun hle => h fun _ => hle
  subst hc
  simp only [empty, CompactSubset.empty, dif_neg hd]
  rfl

/-! ## Subsets of all elements -/

theorem containsPosition_full {d : Domain α} : ∀ i, (GeneralSubset.full d).containsPosition i = true ↔ i < d.size := by
  refine GeneralSubset.containsPosition_iff_of (t := .full d) (d := d) rfl (fun i a ha => ?_) fun i hi hlt => by omega
  refine iff_of_true ?_ (Domain.lt_size_of_getElem? ha)
  change (Members.ofList d.elements).contains a = true
  rw [Members.contains_ofList, List.any_eq_true]
  exact ⟨a, List.mem_of_getElem? ha, BEq.rfl⟩

theorem full_built {c : Choice} {d : Domain α} (h : c.Admits d) :
    ∃ t, full c d = .ok t ∧ Built c d t {i | i < d.size} := by
  cases c with
  | auto =>
    have hb := emptyAuto_built d
    refine ⟨_, rfl, (hb.revised (emptyAuto d).complement_revised).of_places ?_⟩
    rw [hb.domain, hb.places]
    ext i
    simp
  | compact =>
    have hd : d.size ≤ width := h rfl
    have hword : d.fullWord = .ok (Word.low d.size) := if_neg (by omega)
    have hfull : ∃ s, CompactSubset.full d = .ok s ∧ s.domain = d ∧ s.word = Word.low d.size := by
      unfold CompactSubset.full
      split
      · next e he => rw [hword] at he; cases he
      · next w hw =>
        rw [hword] at hw
        cases hw
        exact ⟨_, rfl, rfl, rfl⟩
    obtain ⟨s, hs, hdom, hw⟩ := hfull
    refine ⟨ofCompact s, by simp only [full, hs]; rfl, hdom, rfl, Set.ext fun i => ?_⟩
    rw [ofCompact, mem_places_compact]
    change Word.has s.word i = true ↔ _
    rw [hw, Word.has_low hd, decide_eq_true_eq]
    rfl
  | general => exact ⟨_, rfl, rfl, rfl, Set.ext fun i => (mem_places_general _ _ i).trans (containsPosition_full i)⟩

/-! ## Subsets of given elements -/

theorem ofList_refused {c : Choice} {d : Domain α} (h : ¬ c.Admits d) (es : List α) :
    ofList c d es = .error (.wordOverflow d.size) := by
  simp only [ofList, empty_refused h]

theorem ofList_foreign {c : Choice} {d : Domain α} (h : c.Admits d) {es : List α}
    (hes : ∃ e ∈ es, d.contains e = false) : ofList c d es = .error .foreignElement := by
  obtain ⟨s, hs, hb⟩ := empty_built h
  rw [← hb.domain] at hes
  simp only [ofList, hs, extend_foreign hes]
  rfl

theorem ofList_built {c : Choice} {d : Domain α} (h : c.Admits d) {es : List α} (hes : ∀ e ∈ es, d.contains e = true) :
    ∃ t, ofList c d es = .ok t ∧ Built c d t (d.placesOf es) := by
  obtain ⟨s, hs, hb⟩ := empty_built h
  rw [← hb.domain] at hes
  obtain ⟨t, n, ht, hrev, -⟩ := extend_known hes
  refine ⟨t, by simp only [ofList, hs, ht]; rfl, (hb.revised hrev).of_places ?_⟩
  rw [hb.places, hb.domain, Set.empty_union]

/-- the form is the one that the choice settles on for a domain of that size -/
theorem empty_strategy {c : Choice} {d : Domain α} {t : Subset α} (h : empty c d = .ok t) :
    c.resolve d.size = .ok t.strategy := by
  cases c with
  | auto =>
    cases h
    unfold emptyAuto Choice.resolve
    split_ifs <;> rfl
  | compact =>
    by_cases hd : d.size ≤ width
    · simp only [empty, CompactSubset.empty, dif_pos hd] at h
      cases h
      exact if_neg (by omega)
    · simp only [empty, CompactSubset.empty, dif_neg hd] at h
      cases h
  | general => cases h; rfl

theorem ofList_strategy {c : Choice} {d : Domain α} {es : List α} {t : Subset α} (h : ofList c d es = .ok t) :
    c.resolve d.size = .ok t.strategy := by
  unfold ofList at h
  split at h
  · cases h
  · next s hs =>
    rcases s.domain.foreign_or_known es with hforeign | hknown
    · rw [extend_foreign hforeign] at h
      cases h
    · obtain ⟨u, n, hu, hrev, -⟩ := extend_known hknown
      rw [hu] at h
      cases h
      rw [empty_strategy hs, hrev.strategy]

/-! ## Subsets named by an operand -/

theorem ofOperand_refused {c : Choice} {d : Domain α} (h : ¬ c.Admits d) (o : Operand α) :
    ofOperand c d o = .error (.wordOverflow d.size) := by
  have hempty := empty_refused h
  cases c with
  | auto => exact absurd nofun h
  | general => exact absurd nofun h
  | compact =>
    have hd : ¬ d.size ≤ width := fun hle => h fun _ => hle
    simp only [ofOperand, CompactSubset.ofOperand, CompactSubset.empty, dif_neg hd]
    rfl

theorem admits_of_read {c : Choice} {d : Domain α} {o : Operand α} {t : Subset α} (h : ofOperand c d o = .ok t) :
    c.Admits d := by
  by_contra hc
  rw [ofOperand_refused hc] at h
  cases h

theorem ofOperand_answers {c : Choice} {d : Domain α} (h : c.Admits d) (o : Operand α) :
    Answers o d .reject (ofOperand c d o) fun t => Built c d t (o.selection d) := by
  cases c with
  | auto =>
    have hb := emptyAuto_built d
    have hunion := (emptyAuto d).union_answers o
    rw [hb.domain, hb.places, Set.empty_union] at hunion
    exact hunion.trans (fun e he => he) fun t ht _ hrev => ⟨t, ht, hb.revised hrev⟩
  | compact =>
    refine (CompactSubset.ofOperand_answers (h rfl) o).map fun _ t ht => ⟨ht.1, rfl, Set.ext fun i => ?_⟩
    rw [ofCompact, mem_places_compact, ht.2]
  | general =>
    refine (GeneralSubset.ofOperand_answers d o).map fun _ t ht => ⟨ht.1, rfl, Set.ext fun i => ?_⟩
    rw [ofGeneral, mem_places_general, ht.2]

theorem ofOperand_strategy {c : Choice} {d : Domain α} {o : Operand α} {t : Subset α} (h : ofOperand c d o = .ok t) :
    c.resolve d.size = .ok t.strategy := by
  by_cases hc : c = .auto
  · subst hc
    have hrev := ((emptyAuto d).union_answers o).good h
    rw [empty_strategy (c := .auto) rfl, hrev.strategy]
  · have hb := (ofOperand_answers (admits_of_read h) o).good h
    rw [← hb.choice, ← hb.domain]
    exact t.resolve_choice (by rwa [hb.choice])

/-! ## Subsets attached to another domain -/

theorem reattach_mismatch {s : Subset α} {d : Domain α} (h : s.domain.same d = false) :
    s.reattach d = .error .domainMismatch := by
  simp only [reattach, h, Bool.false_eq_true, if_false]

theorem reattach_built {s : Subset α} {d : Domain α} (h : s.domain.same d = true) :
    ∃ t, s.reattach d = .ok t ∧ Built s.choice d t s.places := by
  have hadm : s.choice.Admits d := (Choice.admits_iff_of_same h s.choice).1 s.admits_choice
  have hes : ∀ e ∈ s.toList, d.contains e = true := fun _ => Operand.contains_of_mem_toList (Domain.same_symm h)
  obtain ⟨t, ht, hb⟩ := ofList_built hadm hes
  refine ⟨t, by rw [reattach, if_pos h, ht], hb.of_places ?_⟩
  exact Operand.placesOf_toList (Domain.same_symm h)

theorem built_of_reattach {s t : Subset α} {d : Domain α} (h : s.reattach d = .ok t) : Built s.choice d t s.places := by
  cases hd : s.domain.same d with
  | false =>
    rw [reattach_mismatch hd] at h
    cases h
  | true =>
    obtain ⟨u, hu, hb⟩ := reattach_built hd
    rw [hu] at h
    cases h
    exact hb

theorem reattach_strategy {s t : Subset α} {d : Domain α} (h : s.reattach d = .ok t) :
    s.choice.resolve d.size = .ok t.strategy := by
  unfold reattach at h
  split_ifs at h
  exact ofList_strategy h

end Subset

end SubsetAlgebra
