/-
What holds of every domain and every subset at every point of every run.

A command to a `Store` makes a domain, builds, reads, converts or derives a subset, or changes one in place, with any
arguments. The representations carry their own bounds, so every operation had to prove when it was defined that it keeps
them; here it is said what they come to for whoever looks (`Domain.Indexed`, `Subset.Sound`), and that nothing else is
ever found in a store (`step_sound`, `run_sound`).
-/
import SubsetAlgebra.Proofs.Agreement
import SubsetAlgebra.Store

namespace SubsetAlgebra

open Word (width)

variable {α : Type} [Element α]

/-! ## Domains and subsets in order -/

/-- positions and elements are matched one to one, up to equality of elements -/
structure Domain.Indexed (d : Domain α) : Prop where
  indexOf_get : ∀ i, i < d.size → ∃ e, d.get i = .ok e ∧ d.indexOf e = some i
  get_indexOf : ∀ e i, d.indexOf e = some i → ∃ a, d.get i = .ok a ∧ (a == e) = true
  indexOf_none : ∀ e, d.indexOf e = none → ∀ i a, d.get i = .ok a → (a == e) = false

theorem Domain.indexed (d : Domain α) : d.Indexed where
  indexOf_get i hi := by
    obtain ⟨a, ha⟩ := exists_getElem? hi
    exact ⟨a, get_eq_ok_iff.2 ha, indexOf_of_getElem? ha⟩
  get_indexOf e i h := by
    obtain ⟨a, ha, hae⟩ := indexOf_eq_some_iff.1 h
    exact ⟨a, get_eq_ok_iff.2 ha, hae⟩
  indexOf_none e h i a ha := by
    by_contra hae
    have hfound : d.indexOf e = some i := indexOf_eq_some_iff.2 ⟨a, get_eq_ok_iff.1 ha, by simpa using hae⟩
    rw [h] at hfound
    cases hfound

/-- a word has a bit for every position and none past the end; members are pairwise unequal and belong to the domain -/
def Representation.Sound : Representation α → Prop
  | .compact c => c.domain.size ≤ 64 ∧ ∀ p, c.domain.size ≤ p → c.word.toNat.testBit p = false
  | .general g => g.members.toList.Pairwise Unequal ∧
    ∀ m ∈ g.members.toList, ∃ i a, g.domain.get i = .ok a ∧ (a == m) = true

theorem Representation.sound (r : Representation α) : r.Sound := by
  cases r with
  | compact c =>
    refine ⟨c.fits, fun p hp => ?_⟩
    rw [← Word.has_eq_testBit]
    exact Word.has_eq_false_of_lt c.bounded hp
  | general g =>
    refine ⟨g.members.distinct, fun m hm => ?_⟩
    obtain ⟨i, hi⟩ := Domain.contains_iff_indexOf.1 (g.inside m hm)
    obtain ⟨a, ha, ham⟩ := g.domain.indexed.get_indexOf m i hi
    exact ⟨i, a, ha, ham⟩

/-- what is promised of a subset, whatever it went through -/
structure Subset.Sound (s : Subset α) : Prop where
  domain : s.domain.Indexed
  rep : s.rep.Sound
  size_le : s.size ≤ s.domain.size
  size_eq : s.size = s.positions.length
  ascending : s.positions.Pairwise (· < ·)
  within : ∀ p ∈ s.positions, p < s.domain.size

theorem Subset.sound (s : Subset α) : s.Sound where
  domain := s.domain.indexed
  rep := s.rep.sound
  size_le := s.size_le
  size_eq := s.size_eq_length
  ascending := s.positions_ascending
  within _ := lt_of_mem_positions

/-! ## Runs -/

namespace Store

/-- every domain and every subset is in order -/
structure Sound (st : Store α) : Prop where
  domains : ∀ d ∈ st.domains, d.Indexed
  subsets : ∀ s ∈ st.subsets, s.Sound

theorem Sound.addDomain {st : Store α} (h : st.Sound) (d : Domain α) : (st.addDomain d).Sound where
  domains x hx := by
    rcases List.mem_append.1 hx with hx | hx
    · exact h.domains x hx
    · rw [List.mem_singleton.1 hx]
      exact d.indexed
  subsets := h.subsets

theorem Sound.addSubset {st : Store α} (h : st.Sound) (s : Subset α) : (st.addSubset s).Sound where
  domains := h.domains
  subsets x hx := by
    rcases List.mem_append.1 hx with hx | hx
    · exact h.subsets x hx
    · rw [List.mem_singleton.1 hx]
      exact s.sound

theorem Sound.setSubset {st : Store α} (h : st.Sound) (a : Nat) (s : Subset α) : (st.setSubset a s).Sound where
  domains := h.domains
  subsets x hx := by
    rcases List.mem_or_eq_of_mem_set hx with hx | rfl
    · exact h.subsets x hx
    · exact x.sound

theorem attempt_sound {st st' : Store α} {c : Command α} (h : st.Sound) (hc : st.attempt c = some st') : st'.Sound := by
  cases c with
  | domain es | domainOfOptions es | domainOfText text | domainOf a =>
    obtain ⟨d, -, rfl⟩ := Option.map_eq_some_iff.1 hc
    exact h.addDomain d
  | build d r | ofDistinct es | read c doc | readText c text | convert a k | derive a c =>
    obtain ⟨s, -, rfl⟩ := Option.map_eq_some_iff.1 hc
    exact h.addSubset s
  | change a c | remember a =>
    obtain ⟨s, -, rfl⟩ := Option.map_eq_some_iff.1 hc
    exact h.setSubset a s

theorem step_sound {st : Store α} (h : st.Sound) (c : Command α) : (st.step c).Sound := by
  unfold step
  cases hc : st.attempt c with
  | none => exact h
  | some st' => exact attempt_sound h hc

theorem sound_of_run {st : Store α} (h : st.Sound) (cs : List (Command α)) : (st.run cs).Sound := by
  induction cs generalizing st with
  | nil => exact h
  | cons c cs ih => exact ih (step_sound h c)

theorem sound_empty : ({} : Store α).Sound :=
  ⟨fun _ hd => (List.not_mem_nil hd).elim, fun _ hs => (List.not_mem_nil hs).elim⟩

/-- **Every reachable state is in order.** At every point of every run from an empty store, with any arguments and with
commands that fail among them, each domain matches its positions with its elements and each subset keeps within its
bounds. -/
theorem run_sound (cs : List (Command α)) (n : Nat) : (run ({} : Store α) (cs.take n)).Sound :=
  sound_of_run sound_empty (cs.take n)

end Store

end SubsetAlgebra
