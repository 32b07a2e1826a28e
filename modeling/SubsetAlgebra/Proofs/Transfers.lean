/-
Moving a subset to another domain or into another form.

There are three ways, each with code of its own: attaching it to a domain puts its members in one by one, making it
compact folds its positions into a word, and making it general collects its members. None of them loses anything
(`Carried`): the positions are the same, and with them the size, the masks, the bits and what is fed to a hash,
whichever representatives a general subset holds.

What decides whether a subset can be attached to a domain is the domain alone. It has to hold equal elements at the same
positions; one with the same elements in another order, or with one more or one less, is refused, even where it holds
all members and even if there are none (`apart_iff`). What decides whether a subset can be made compact is the size of
its domain alone, and there and back again is no change (`ofGeneral_ofCompact`, `ofCompact_ofGeneral`).
-/
import SubsetAlgebra.Proofs.Equality

namespace SubsetAlgebra

open Word (width)

variable {α : Type} [Element α]

/-! ## Domains apart -/

/-- two domains are apart iff one is longer or unequal elements stand at some position -/
theorem Domain.apart_iff {d d' : Domain α} : d.same d' = false ↔
    d.size ≠ d'.size ∨ ∃ (i : Nat) (a b : α), d.elements[i]? = some a ∧ d'.elements[i]? = some b ∧ Unequal a b := by
  rw [← Bool.not_eq_true, same_iff, beq_iff_forall₂, List.forall₂_iff_get]
  constructor
  · intro h
    by_contra! hno
    obtain ⟨hsize, hequal⟩ := hno
    refine h ⟨hsize, fun i hi hi' => ?_⟩
    have := hequal i _ _ (List.getElem?_eq_getElem hi) (List.getElem?_eq_getElem hi')
    simpa [Unequal] using this
  · rintro (hsize | ⟨i, a, b, ha, hb, hab⟩) ⟨hlen, hequal⟩
    · exact hsize hlen
    · obtain ⟨hi, rfl⟩ := List.getElem?_eq_some_iff.1 ha
      obtain ⟨hi', rfl⟩ := List.getElem?_eq_some_iff.1 hb
      have heq := hequal i hi hi'
      simp only [List.get_eq_getElem] at heq
      rw [hab] at heq
      cases heq

namespace Subset

/-! ## Nothing lost -/

/-- `t` is `s` elsewhere: an equal subset, and the same to everything that goes by positions -/
structure Carried (s t : Subset α) : Prop where
  same : t.same s = true
  positions : t.positions = s.positions
  size : t.size = s.size
  contains : ∀ e, t.contains e = s.contains e
  digest : t.digest = s.digest
  toWord : t.toWord = s.toWord
  toMask : t.toMask = s.toMask
  toBits : t.toBits = s.toBits

theorem Carried.of_same {s t : Subset α} (h : t.same s = true) : Carried s t where
  same := h
  positions := positions_of_same h
  size := size_of_same h
  contains _ := contains_of_same h BEq.rfl
  digest := digest_eq_of_same h
  toWord := toWord_of_same h
  toMask := toMask_of_same h
  toBits := toBits_of_same h

/-- what was built over an equal domain with the positions of `s` is `s` elsewhere -/
theorem Carried.of_built {c : Choice} {d : Domain α} {s t : Subset α} (hd : s.domain.same d = true)
    (h : Built c d t s.places) : Carried s t := by
  apply Carried.of_same
  rw [same_iff, h.domain, h.places]
  exact ⟨Domain.same_symm hd, rfl⟩

/-! ## To another domain -/

theorem reattach_ok_iff {s : Subset α} {d : Domain α} : (∃ t, s.reattach d = .ok t) ↔ s.domain.same d = true := by
  constructor
  · rintro ⟨t, ht⟩
    by_contra hd
    rw [reattach_mismatch (by simpa using hd)] at ht
    cases ht
  · intro hd
    obtain ⟨t, ht, -⟩ := reattach_built hd
    exact ⟨t, ht⟩

/-- attaching `s` to the domain `d` -/
structure Attaches (s : Subset α) (d : Domain α) : Prop where
  ok_iff : (∃ t, s.reattach d = .ok t) ↔ List.Forall₂ (fun a b => (a == b) = true) s.domain.elements d.elements
  /-- another length or another element at some position, and nothing else, is refused, whatever the members -/
  mismatch_iff : ∀ err, s.reattach d = .error err ↔ err = .domainMismatch ∧ (s.domain.size ≠ d.size ∨
    ∃ (i : Nat) (a b : α), s.domain.elements[i]? = some a ∧ d.elements[i]? = some b ∧ (a == b) = false)
  carried : ∀ t, s.reattach d = .ok t → t.domain = d ∧ t.choice = s.choice ∧ Carried s t

theorem attaches (s : Subset α) (d : Domain α) : Attaches s d where
  ok_iff := by rw [reattach_ok_iff, Domain.same_iff, beq_iff_forall₂]
  mismatch_iff err := by
    rw [← Domain.apart_iff]
    constructor
    · intro herr
      have hd : s.domain.same d = false := by
        by_contra hd
        obtain ⟨t, ht⟩ := reattach_ok_iff.2 (by simpa using hd)
        rw [ht] at herr
        cases herr
      rw [reattach_mismatch hd] at herr
      exact ⟨(Except.error.inj herr).symm, hd⟩
    · rintro ⟨rfl, hd⟩
      exact reattach_mismatch hd
  carried t ht := by
    have hb := built_of_reattach ht
    exact ⟨hb.domain, hb.choice, .of_built (reattach_ok_iff.1 ⟨t, ht⟩) hb⟩

/-! ## To another form -/

theorem carried_toGeneral (s : Subset α) : Carried s s.toGeneral :=
  .of_built (Domain.same_refl s.domain) s.toGeneral_built

/-- the word of a compact subset is found again in its members -/
theorem ofGeneral_ofCompact (c : CompactSubset α) : CompactSubset.ofGeneral (.ofCompact c) = .ok c := by
  have hword : (GeneralSubset.ofCompact c).toWord = .ok c.word := (carried_toGeneral (ofCompact c)).toWord
  obtain ⟨c', hc', hdomain, hw⟩ := CompactSubset.ofGeneral_of_toWord hword
  obtain ⟨d, w, _, _⟩ := c'
  subst hdomain hw
  exact hc'

theorem ofGeneral_error_iff (g : GeneralSubset α) (err : Error) :
    CompactSubset.ofGeneral g = .error err ↔ 64 < g.domain.size ∧ err = .wordOverflow g.domain.size := by
  by_cases hg : g.domain.size ≤ width
  · obtain ⟨c, hc, -⟩ := ofGeneral_built hg
    have hfit : ¬ 64 < g.domain.size := Nat.not_lt.2 hg
    simp [hc, hfit]
  · have hlarge : 64 < g.domain.size := Nat.lt_of_not_le hg
    rw [ofGeneral_refused hg]
    simp [hlarge, eq_comm]

/-- the members of a general subset are found again in its word, up to equality of elements -/
theorem ofCompact_ofGeneral {g : GeneralSubset α} (hg : g.domain.size ≤ 64) :
    ∃ c, CompactSubset.ofGeneral g = .ok c ∧ c.domain = g.domain ∧ Carried (ofGeneral g) (ofCompact c) ∧
      (GeneralSubset.ofCompact c).same g = true := by
  obtain ⟨c, hc, hb⟩ := ofGeneral_built hg
  have hcarried : Carried (ofGeneral g) (ofCompact c) := .of_built (Domain.same_refl g.domain) hb
  exact ⟨c, hc, hb.domain, hcarried, same_trans (carried_toGeneral (ofCompact c)).same hcarried.same⟩

/-- a compact subset made general, and back -/
structure WidensAndBack (c : CompactSubset α) : Prop where
  domain : (GeneralSubset.ofCompact c).domain = c.domain
  carried : Carried (ofCompact c) (ofGeneral (.ofCompact c))
  back : CompactSubset.ofGeneral (.ofCompact c) = .ok c

/-- a general subset made compact, and back -/
structure NarrowsAndBack (g : GeneralSubset α) : Prop where
  /-- the size of the domain decides, whatever the members -/
  refused_iff : ∀ err, CompactSubset.ofGeneral g = .error err ↔
    64 < g.domain.size ∧ err = .wordOverflow g.domain.size
  back : g.domain.size ≤ 64 → ∃ c, CompactSubset.ofGeneral g = .ok c ∧ c.domain = g.domain ∧
    Carried (ofGeneral g) (ofCompact c) ∧ (GeneralSubset.ofCompact c).same g = true

/-- a subset of any form made general, and its form left to the library again -/
structure Widens (s : Subset α) : Prop where
  domain : s.toGeneral.domain = s.domain
  choice : s.toGeneral.choice = .general
  carried : Carried s s.toGeneral
  carried_auto : Carried s s.toGeneral.toAuto

/-- **Moving a subset loses nothing.** A subset can be attached to the domains that are equal to its own, position by
position, and to no others; it can be made general always, and compact iff its domain has at most 64 elements. What
comes of it is an equal subset of the domain in question, the same to every question that goes by positions, and made
compact and general in turn it is what it was. -/
theorem moving_loses_nothing :
    (∀ (s : Subset α) (d : Domain α), Attaches s d) ∧ (∀ c : CompactSubset α, WidensAndBack c) ∧
    (∀ g : GeneralSubset α, NarrowsAndBack g) ∧ ∀ s : Subset α, Widens s := by
  refine ⟨attaches, fun c => ?_, fun g => ?_, fun s => ?_⟩
  · exact ⟨rfl, carried_toGeneral (ofCompact c), ofGeneral_ofCompact c⟩
  · exact ⟨ofGeneral_error_iff g, ofCompact_ofGeneral⟩
  · have hb := s.toGeneral_built
    refine ⟨hb.domain, hb.choice, s.carried_toGeneral, .of_same ?_⟩
    exact (same_iff _ _).2 ((same_iff _ _).1 s.carried_toGeneral.same)

end Subset

end SubsetAlgebra
