/-
How long a subset keeps the form it is held in.

The form is settled when a subset is built, by the policy of whoever builds it (`build_strategy`); where that is left to
the library the subset is compact iff the domain fits in a word. Every change keeps the form but one: attaching a subset
to an equal domain builds it anew, and its choice settles the form again (`step_form`, `run_form`).

So a run loses the form of a subset in one case only. Its form was left to the library, it is held as members although
its domain fits in a word (a policy asked for that, or it was converted), and it is attached anew on the way
(`form_kept_unless_reattached`); three elements will do (`reattach_loses_form`).
-/
import SubsetAlgebra.Proofs.Reachable
import SubsetAlgebra.Proofs.Representatives

namespace SubsetAlgebra

open Word (width)

variable {α β : Type} [Element α] [Element β]

/-! ## Settled when built -/

/-- the policy under which a recipe builds; bits of a word are always built compact -/
def Store.Recipe.choice : Store.Recipe α → Choice
  | empty c => c
  | emptyUnder c => c
  | full c => c
  | singleton c _ => c
  | ofList c _ => c
  | ofOperand c _ => c
  | ofWord _ => .compact

theorem Choice.resolve_auto_iff {n : Nat} {st : Strategy} (h : Choice.auto.resolve n = .ok st) :
    st = .compact ↔ n ≤ 64 := by
  by_cases hn : n ≤ width
  · have hauto : Choice.auto.resolve n = .ok .compact := if_pos hn
    rw [hauto] at h
    exact iff_of_true (Except.ok.inj h).symm hn
  · have hauto : Choice.auto.resolve n = .ok .general := if_neg hn
    rw [hauto] at h
    cases h
    exact iff_of_false (by decide) hn

namespace Subset

theorem emptyUnder_strategy {c : Choice} {d : Domain α} {t : Subset α} (h : emptyUnder c d = .ok t) :
    c.resolve d.size = .ok t.strategy := by
  unfold emptyUnder at h
  split at h
  · cases h
  · next hc =>
    obtain ⟨s, -, rfl⟩ := ok_of_map h
    exact hc
  · next hc =>
    cases h
    exact hc

theorem fullAuto_strategy (d : Domain α) : Choice.auto.resolve d.size = .ok (fullAuto d).strategy := by
  rw [fullAuto, (emptyAuto d).complement_revised.strategy]
  exact empty_strategy (c := .auto) rfl

theorem full_strategy {c : Choice} {d : Domain α} {t : Subset α} (h : full c d = .ok t) :
    c.resolve d.size = .ok t.strategy := by
  cases c with
  | auto =>
    cases h
    exact fullAuto_strategy d
  | compact =>
    obtain ⟨s, hs, rfl⟩ := ok_of_map h
    have hd : d.size ≤ width := by
      unfold CompactSubset.full at hs
      split at hs
      · cases hs
      · next w hw => exact Domain.le_width_of_fullWord hw
    exact if_neg (Nat.not_lt.2 hd)
  | general =>
    cases h
    rfl

theorem singleton_strategy {c : Choice} {d : Domain α} {e : α} {t : Subset α} (h : singleton c d e = .ok t) :
    c.resolve d.size = .ok t.strategy := by
  unfold singleton at h
  split at h
  · cases h
  · next s hs =>
    obtain ⟨x, hx, rfl⟩ := ok_of_map h
    obtain ⟨P, hrev⟩ := revised_of_insert hx
    rw [hrev.strategy]
    exact empty_strategy hs

theorem ofWord_strategy {d : Domain α} {w : UInt64} {t : Subset α} (h : ofWord d w = .ok t) :
    Choice.compact.resolve d.size = .ok t.strategy := by
  obtain ⟨s, hs, rfl⟩ := ok_of_map h
  have hd : d.size ≤ width := by
    unfold CompactSubset.ofWord at hs
    split at hs
    · cases hs
    · next v hv => exact Mask.le_width_of_acceptWord hv
  exact if_neg (Nat.not_lt.2 hd)

/-- whatever is built is held as the policy settles it for the size of the domain -/
theorem build_strategy {d : Domain α} {r : Store.Recipe α} {t : Subset α} (h : r.build d = .ok t) :
    r.choice.resolve d.size = .ok t.strategy := by
  cases r with
  | empty c => exact empty_strategy h
  | emptyUnder c => exact emptyUnder_strategy h
  | full c => exact full_strategy h
  | singleton c e => exact singleton_strategy h
  | ofList c es => exact ofList_strategy h
  | ofOperand c o => exact ofOperand_strategy h
  | ofWord w => exact ofWord_strategy h

theorem fits_of_compact {s : Subset α} (h : s.strategy = .compact) : s.domain.size ≤ 64 := by
  obtain ⟨rep, adaptive⟩ := s
  cases rep with
  | compact c => exact c.fits
  | general g => cases h

/-! ## One step -/

/-- a change that builds subsets of `d` anew: it attaches them to a domain equal to `d` -/
def Rebuilds (d : Domain α) (c : Change α β) : Prop := ∃ e, c = .reattach e ∧ d.same e = true

theorem step_domain (s : Subset α) (c : Change α β) : s.domain.same (s.step c).1.domain = true := by
  unfold step
  split
  · next t r h =>
    by_cases hc : ∃ d, c = .reattach d
    · obtain ⟨d, rfl⟩ := hc
      obtain ⟨u, hu, hy⟩ := ok_of_map h
      cases hy
      rw [(built_of_reattach hu).domain]
      by_contra hd
      rw [reattach_mismatch (by simpa using hd)] at hu
      cases hu
    · obtain ⟨P, hrev⟩ := revised_of_apply h (by simpa using hc)
      rw [hrev.domain]
      exact Domain.same_refl s.domain
  · exact Domain.same_refl s.domain

theorem rebuilds_iff_of_step (s : Subset α) (c : Change α β) {γ : Type} [Element γ] (c' : Change α γ) :
    Rebuilds (s.step c).1.domain c' ↔ Rebuilds s.domain c' := by
  simp only [Rebuilds, Domain.same_congr_left (s.step_domain c)]

/-- a step keeps the form, except that one that builds the subset anew has it settled again -/
theorem step_form (s : Subset α) (c : Change α β) :
    (Rebuilds s.domain c → s.choice.resolve s.domain.size = .ok (s.step c).1.strategy) ∧
    (¬ Rebuilds s.domain c → (s.step c).1.strategy = s.strategy) := by
  refine ⟨?_, fun hc => ?_⟩
  · rintro ⟨d, rfl, hd⟩
    obtain ⟨t, ht, -⟩ := reattach_built hd
    have hstep : (s.step (.reattach d : Change α β)).1 = t := by simp only [step, Change.apply, ht]; rfl
    rw [hstep, Domain.size_eq_of_same hd]
    exact reattach_strategy ht
  · unfold step
    split
    · next t r h =>
      by_cases hd : ∃ d, c = .reattach d
      · obtain ⟨d, rfl⟩ := hd
        obtain ⟨u, hu, -⟩ := ok_of_map h
        rw [reattach_mismatch (by simpa [Rebuilds] using hc)] at hu
        cases hu
      · obtain ⟨P, hrev⟩ := revised_of_apply h (by simpa using hd)
        exact hrev.strategy
    · rfl

/-! ## Runs -/

theorem run_form (s : Subset α) (cs : List (AnyChange α)) :
    ((∃ c ∈ cs, Rebuilds s.domain c.change) → s.choice.resolve s.domain.size = .ok (s.runAny cs).1.strategy) ∧
    ((¬ ∃ c ∈ cs, Rebuilds s.domain c.change) → (s.runAny cs).1.strategy = s.strategy) := by
  induction cs generalizing s with
  | nil => exact ⟨fun h => by simp at h, fun _ => rfl⟩
  | cons c cs ih =>
    obtain ⟨hsettled, hkept⟩ := s.step_form c.change
    obtain ⟨ihsettled, ihkept⟩ := ih (s.step c.change).1
    simp only [rebuilds_iff_of_step, step_choice, ← Domain.size_eq_of_same (s.step_domain c.change)] at ihsettled ihkept
    have hrun : (s.runAny (c :: cs)).1 = ((s.step c.change).1.runAny cs).1 := rfl
    rw [hrun]
    -- what counts is the last time that the subset is built anew
    by_cases hlater : ∃ c ∈ cs, Rebuilds s.domain c.change
    · refine ⟨fun _ => ihsettled hlater, fun hnone => absurd ?_ hnone⟩
      obtain ⟨c', hmem, hc'⟩ := hlater
      exact ⟨c', List.mem_cons_of_mem c hmem, hc'⟩
    · rw [ihkept hlater]
      refine ⟨fun h => hsettled ?_, fun hnone => hkept fun hc => hnone ⟨c, List.mem_cons_self, hc⟩⟩
      obtain ⟨c', hmem, hc'⟩ := h
      rcases List.mem_cons.1 hmem with rfl | hmem
      · exact hc'
      · exact absurd ⟨c', hmem, hc'⟩ hlater

theorem runAny_adaptive (s : Subset α) (cs : List (AnyChange α)) : (s.runAny cs).1.adaptive = s.adaptive := by
  rw [Bool.eq_iff_iff, adaptive_iff_choice, adaptive_iff_choice, runAny_choice]

/-- the form at the end of a run is that of the start, unless the choice settles on another one on the way -/
theorem strategy_run_iff (s : Subset α) (cs : List (AnyChange α)) :
    (s.runAny cs).1.strategy = s.strategy ↔
      ¬ (s.adaptive = true ∧ s.strategy = .general ∧ s.domain.size ≤ 64 ∧ ∃ c ∈ cs, Rebuilds s.domain c.change) := by
  obtain ⟨hsettled, hkept⟩ := s.run_form cs
  by_cases hre : ∃ c ∈ cs, Rebuilds s.domain c.change
  · have hend := hsettled hre
    by_cases hauto : s.choice = .auto
    · rw [hauto] at hend
      have hcompact := Choice.resolve_auto_iff hend
      have hadaptive := (adaptive_iff_choice s).2 hauto
      cases hs : s.strategy with
      | compact => simp [hcompact, fits_of_compact hs]
      | general =>
        have hgeneral : (s.runAny cs).1.strategy = .general ↔ ¬ (s.runAny cs).1.strategy = .compact := by
          cases (s.runAny cs).1.strategy <;> simp
        rw [hgeneral, hcompact]
        simp [hadaptive, hre]
    · -- a form that the caller fixed is the one that the choice settles on
      rw [s.resolve_choice hauto] at hend
      have hfixed : ¬ s.adaptive = true := fun h => hauto ((adaptive_iff_choice s).1 h)
      exact iff_of_true (Except.ok.inj hend).symm fun h => hfixed h.1
  · exact iff_of_true (hkept hre) fun h => hre h.2.2.2

/-! ## Main result -/

/-- **The form is kept unless a subset is attached anew.** A run of changes keeps what was promised of the form, and the
form itself unless it was left to the library, the subset is held as members over a domain that fits in a word, and it
is attached to an equal domain on the way: a run without that keeps every form. No subset of a larger domain is compact.
What is built under no policy of its own is compact iff the domain fits in a word. -/
theorem form_kept_unless_reattached (s : Subset α) (cs : List (AnyChange α)) :
    (s.runAny cs).1.adaptive = s.adaptive ∧
    ((s.runAny cs).1.strategy = s.strategy ↔
      ¬ (s.adaptive = true ∧ s.strategy = .general ∧ s.domain.size ≤ 64 ∧ ∃ c ∈ cs, Rebuilds s.domain c.change)) ∧
    (s.strategy = .compact → s.domain.size ≤ 64) ∧
    (∀ (d : Domain α) (r : Store.Recipe α) (t : Subset α), r.choice = .auto → r.build d = .ok t →
      (t.strategy = .compact ↔ d.size ≤ 64)) ∧
    ∀ (es : List α) (t : Subset α), ofDistinct es = .ok t → (t.strategy = .compact ↔ t.domain.size ≤ 64) := by
  refine ⟨s.runAny_adaptive cs, s.strategy_run_iff cs, fits_of_compact, fun d r t hr ht => ?_, fun es t ht => ?_⟩
  · have hform := build_strategy ht
    rw [hr] at hform
    exact Choice.resolve_auto_iff hform
  · obtain ⟨d, -, rfl⟩ := ok_of_map ht
    have hdomain : (fullAuto d).domain = d := by
      rw [fullAuto, (emptyAuto d).complement_revised.domain, (emptyAuto_built d).domain]
    rw [hdomain]
    exact Choice.resolve_auto_iff (fullAuto_strategy d)

/-- three elements, a policy that asks for members: attached to their own domain they come out compact -/
theorem reattach_loses_form :
    ∃ (d : Domain Nat) (s t u : Subset Nat), d.elements = [1, 2, 3] ∧ emptyUnder .general d = .ok s ∧
      s.insert 2 = .ok (t, true) ∧ t.adaptive = true ∧ t.strategy = .general ∧ t.domain.same d = true ∧
      t.reattach d = .ok u ∧ u.strategy = .compact := by
  let d : Domain Nat := { elements := [1, 2, 3], distinct := by decide }
  let g : GeneralSubset Nat := ⟨d, ⟨[2], by decide⟩, by decide⟩
  let t : Subset Nat := ⟨.general g, true⟩
  have hd : t.domain.same d = true := Domain.same_refl d
  obtain ⟨u, hu, -⟩ := reattach_built hd
  refine ⟨d, ⟨.general (.empty d), true⟩, t, u, rfl, rfl, rfl, rfl, rfl, hd, hu, ?_⟩
  exact Except.ok.inj (reattach_strategy hu).symm

end Subset

end SubsetAlgebra
