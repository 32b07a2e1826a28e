/-
Which of several equal elements a caller uses makes no difference.

Where equality is coarser than identity a domain has its own element at each position, and an argument may bring another
one that is equal. Arguments are `Kin` if they are equal up to that, and where they serve as sets also up to order and
repetition. Carried out on subsets over one domain with the same positions (`Twins`), kin changes give the same answer
and twins again (`apply_kin`), although the members that a general subset keeps may then differ.

What is asked of twins is answered alike (`Twins.indistinct`), also with kin arguments and where a caller's function is
called back: it is called with the domains' own elements and nothing else, the same ones in the same order. Only the set
of members that a fixed general form gives out is as the caller left it.
-/
import SubsetAlgebra.Proofs.Agreement
import SubsetAlgebra.Proofs.Equality

namespace SubsetAlgebra

variable {α β : Type} [Element α] [Element β]

/-! ## Kin arguments -/

/-- the same positions by number, or equal elements, in any order and by any representatives -/
inductive Operand.Kin : Operand α → Operand α → Prop where
  | mask (m : Int) : Kin (.mask m) (.mask m)
  | bits (b : List Bool) : Kin (.bits b) (.bits b)
  | word (w : UInt64) : Kin (.word w) (.word w)
  | elements {es es' : List α} : Coextensive es es' → Kin (.elements es) (.elements es')
  | members {m m' : Members α} : m.same m' = true → Kin (.members m) (.members m')
  /-- subsets with equal members, held in any form and over any domains -/
  | subset {t t' : Subset α} : (∀ e, t.contains e = t'.contains e) → Kin t.toOperand t'.toOperand

theorem Operand.Kin.interchangeable {o o' : Operand α} (h : o.Kin o') (d : Domain α) : Interchangeable d d o o' := by
  have hd := Domain.same_refl d
  cases h with
  | mask m => exact .refl d _
  | bits b => exact .refl d _
  | word w => exact .refl d _
  | elements hes => exact .of_lists (elements_lists _) (elements_lists _) hd hes
  | members hm => exact .of_lists (members_lists _) (members_lists _) hd ((Members.same_iff _ _).1 hm)
  | @subset t t' ht =>
    refine .of_lists (subset_lists t) (subset_lists t') hd fun e => ?_
    rw [(subset_lists t).names, (subset_lists t').names, ← Subset.contains_eq_any_toList,
      ← Subset.contains_eq_any_toList, ht]

/-- changes of one kind with kin arguments; what a subset is attached to or joined with is over the same domain -/
inductive Change.Kin : Change α β → Change α β → Prop where
  | insert {e e' : α} : (e == e') = true → Kin (.insert e) (.insert e')
  | erase {e e' : α} : (e == e') = true → Kin (.erase e) (.erase e')
  | clear : Kin .clear .clear
  | extend {es es' : List α} : Coextensive es es' → Kin (.extend es) (.extend es')
  | union {o o' : Operand α} : o.Kin o' → Kin (.union o) (.union o')
  | inter {o o' : Operand α} : o.Kin o' → Kin (.inter o) (.inter o')
  | diff {o o' : Operand α} : o.Kin o' → Kin (.diff o) (.diff o')
  | complement : Kin .complement .complement
  | reattach (d : Domain α) : Kin (.reattach d) (.reattach d)
  /-- by any relation, also by one that tells equal elements apart -/
  | semijoin {u u' : Subset β} (related : α → β → Bool) : u.Alike u' → Kin (.semijoin u related) (.semijoin u' related)

theorem Change.Kin.reattach_or {c c' : Change α β} (h : c.Kin c') :
    (∃ d, c = .reattach d ∧ c' = .reattach d) ∨ (∀ d, c ≠ .reattach d) ∧ ∀ d, c' ≠ .reattach d := by
  cases h <;> simp

namespace Subset

open Operand (Interchangeable)
open Word (width)

/-! ## Twins -/

theorem Twins.refl (s : Subset α) : Twins s s := ⟨same_refl s, rfl, rfl, rfl⟩

theorem Twins.alike {s t : Subset α} (h : Twins s t) : Alike s t := ⟨h.domain, places_of_same h.same⟩

theorem Twins.choice {s t : Subset α} (h : Twins s t) : s.choice = t.choice := by
  simp only [Subset.choice, h.adaptive, h.strategy]

/-- compact twins are one subset -/
theorem Twins.eq_of_compact {s t : Subset α} (h : Twins s t) (hs : s.strategy = .compact) : s = t := by
  obtain ⟨hsame, hdomain, hstrategy, hadaptive⟩ := h
  obtain ⟨rep, adaptive⟩ := s
  obtain ⟨rep', adaptive'⟩ := t
  rcases rep with c | g
  · rcases rep' with c' | g'
    · have hword : c.word = c'.word := eq_of_beq (Bool.and_eq_true_iff.1 hsame).1
      obtain ⟨d, w, _, _⟩ := c
      obtain ⟨d', w', _, _⟩ := c'
      change d = d' at hdomain
      change adaptive = adaptive' at hadaptive
      change w = w' at hword
      subst hdomain hadaptive hword
      rfl
    · nomatch hstrategy
  · nomatch hs

theorem Twins.revised {s t u v : Subset α} {P Q : Set Nat} (h : Twins s t) (hu : s.Revised u P) (hv : t.Revised v Q)
    (hsame : u.same v = true) : Twins u v where
  same := hsame
  domain := by rw [hu.domain, hv.domain, h.domain]
  strategy := by rw [hu.strategy, hv.strategy, h.strategy]
  adaptive := by rw [hu.adaptive, hv.adaptive, h.adaptive]

theorem adaptive_iff_choice (s : Subset α) : s.adaptive = true ↔ s.choice = .auto := by
  obtain ⟨rep, adaptive⟩ := s
  cases adaptive <;> cases rep <;> simp [choice, strategy, Representation.strategy]

theorem Built.strategy_eq {c : Choice} {d : Domain α} {u v : Subset α} {P Q : Set Nat} (hu : Built c d u P)
    (hv : Built c d v Q) (hc : c ≠ .auto) : u.strategy = v.strategy := by
  have hform := u.resolve_choice (by rwa [hu.choice])
  have hform' := v.resolve_choice (by rwa [hv.choice])
  rw [hu.choice, hu.domain] at hform
  rw [hv.choice, hv.domain] at hform'
  exact Except.ok.inj (hform.symm.trans hform')

theorem Twins.of_built {c : Choice} {d : Domain α} {u v : Subset α} {P : Set Nat} (hu : Built c d u P)
    (hv : Built c d v P) (hform : u.strategy = v.strategy) : Twins u v where
  same := by
    rw [same_iff, hu.domain, hv.domain, hu.places, hv.places]
    exact ⟨Domain.same_refl d, rfl⟩
  domain := by rw [hu.domain, hv.domain]
  strategy := hform
  adaptive := by rw [Bool.eq_iff_iff, adaptive_iff_choice, adaptive_iff_choice, hu.choice, hv.choice]

/-! ## Changes -/

/-- twins, and the same answer besides -/
def TwinsWith {γ : Type} (x y : Subset α × γ) : Prop := Twins x.1 y.1 ∧ x.2 = y.2

section Changes

variable {s t : Subset α}

theorem interchangeable_of_twins (h : Twins s t) {o o' : Operand α} (ho : o.Kin o') :
    Interchangeable s.domain t.domain o o' := by
  rw [← h.domain]
  exact ho.interchangeable s.domain

theorem insert_kin (h : Twins s t) {e e' : α} (he : (e == e') = true) :
    Parallel TwinsWith (s.insert e) (t.insert e') := by
  refine (insert_same h.same he).of_results fun x y hx hy hsame => ?_
  obtain ⟨P, hu⟩ := revised_of_insert hx
  obtain ⟨Q, hv⟩ := revised_of_insert hy
  exact ⟨h.revised hu hv hsame.1, hsame.2⟩

theorem extend_kin (h : Twins s t) {es es' : List α} (hes : Coextensive es es') :
    Parallel TwinsWith (s.extend es) (t.extend es') := by
  have hlists := interchangeable_of_twins h (.elements hes)
  refine (extend_interchangeable h.same hlists).of_results fun x y hx hy hsame => ?_
  obtain ⟨P, hu⟩ := revised_of_extend hx
  obtain ⟨Q, hv⟩ := revised_of_extend hy
  exact ⟨h.revised hu hv hsame.1, hsame.2⟩

theorem Twins.erase (h : Twins s t) (e : α) : Twins (s.erase e).1 (t.erase e).1 :=
  h.revised (s.erase_revised e).2 (t.erase_revised e).2 (erase_same h.same BEq.rfl).1

/-- both are built anew over the domain, and the choice settles on the same form -/
theorem reattach_kin (h : Twins s t) (d : Domain α) : Parallel Twins (s.reattach d) (t.reattach d) := by
  refine (reattach_same h.same (Domain.same_refl d)).of_results fun u v hu hv _ => ?_
  have hb := built_of_reattach hu
  have hb' := built_of_reattach hv
  have hform := reattach_strategy hu
  rw [h.choice] at hb hform
  refine .of_built hb (hb'.of_places (places_of_same h.same).symm) ?_
  exact Except.ok.inj (hform.symm.trans (reattach_strategy hv))

theorem apply_kin_same (h : Twins s t) {c c' : Change α β} (hc : c.Kin c') :
    Parallel SameWith (c.apply s) (c'.apply t) := by
  cases hc with
  | insert he => exact parallel_answer (insert_same h.same he) .flag
  | erase he => exact .done ⟨(erase_same h.same he).1, congrArg Outcome.flag (erase_same h.same he).2⟩
  | clear => exact .done ⟨clear_same h.same, rfl⟩
  | extend hes =>
    exact parallel_answer (extend_interchangeable h.same (interchangeable_of_twins h (.elements hes))) .count
  | union ho => exact parallel_done (union_same h.same (interchangeable_of_twins h ho))
  | inter ho => exact parallel_done (inter_same h.same (interchangeable_of_twins h ho))
  | diff ho => exact parallel_done (diff_same h.same (interchangeable_of_twins h ho))
  | complement => exact .done ⟨complement_same h.same, rfl⟩
  | reattach d => exact parallel_done (reattach_same h.same (Domain.same_refl d))
  | @semijoin u u' related hu =>
    -- both sides ask about the elements of one domain, so the relation need not respect equality
    refine .done ⟨same_of_revised h.same (s.semijoin_revised u related) (t.semijoin_revised u' related) ?_, rfl⟩
    rw [places_of_same h.same, h.domain, hu.toList]

theorem apply_kin (h : Twins s t) {c c' : Change α β} (hc : c.Kin c') :
    Parallel TwinsWith (c.apply s) (c'.apply t) := by
  rcases hc.reattach_or with ⟨d, rfl, rfl⟩ | ⟨hne, hne'⟩
  · exact (reattach_kin h d).map fun u v huv => ⟨huv, rfl⟩
  · refine (apply_kin_same h hc).of_results fun x y hx hy hsame => ?_
    obtain ⟨P, hu⟩ := revised_of_apply hx hne
    obtain ⟨Q, hv⟩ := revised_of_apply hy hne'
    exact ⟨h.revised hu hv hsame.1, hsame.2⟩

end Changes

/-! ## Other forms -/

theorem remember_revised (s : Subset α) :
    s.remember.domain = s.domain.remember ∧ s.remember.strategy = s.strategy ∧ s.remember.adaptive = s.adaptive := by
  obtain ⟨rep, adaptive⟩ := s
  cases rep <;> exact ⟨rfl, rfl, rfl⟩

section Forms

variable {s t : Subset α}

theorem Twins.remember (h : Twins s t) : Twins s.remember t.remember := by
  obtain ⟨hdomain, hform, hadaptive⟩ := s.remember_revised
  obtain ⟨hdomain', hform', hadaptive'⟩ := t.remember_revised
  refine ⟨?_, by rw [hdomain, hdomain', h.domain], by rw [hform, hform', h.strategy],
    by rw [hadaptive, hadaptive', h.adaptive]⟩
  exact same_trans s.remember_same (same_trans h.same (same_symm t.remember_same))

theorem Twins.toCompact (h : Twins s t) : Parallel Twins s.toCompact t.toCompact := by
  by_cases hd : s.domain.size ≤ width
  · obtain ⟨u, hu, hb⟩ := toCompact_built hd
    obtain ⟨v, hv, hb'⟩ := toCompact_built (s := t) (h.domain ▸ hd)
    rw [← h.domain, ← places_of_same h.same] at hb'
    rw [hu, hv]
    exact .done (.of_built hb hb' (hb.strategy_eq hb' (by decide)))
  · rw [toCompact_refused hd, toCompact_refused (s := t) (h.domain ▸ hd), h.domain]
    exact .failed _

theorem Twins.toGeneral (h : Twins s t) : Twins s.toGeneral t.toGeneral := by
  have hb := t.toGeneral_built
  rw [← h.domain, ← places_of_same h.same] at hb
  exact .of_built s.toGeneral_built hb (s.toGeneral_built.strategy_eq hb (by decide))

theorem Twins.toAuto (h : Twins s t) : Twins s.toAuto t.toAuto :=
  ⟨(same_iff _ _).2 ((same_iff s t).1 h.same), h.domain, h.strategy, rfl⟩

theorem Twins.ofStrategy? (h : Twins s t) (wanted : Strategy) :
    Option.Rel Twins (s.ofStrategy? wanted) (t.ofStrategy? wanted) := by
  unfold Subset.ofStrategy?
  rw [h.strategy]
  split_ifs
  · exact .some ⟨(same_iff _ _).2 ((same_iff s t).1 h.same), h.domain, h.strategy, rfl⟩
  · exact .none

end Forms

/-! ## Calls back -/

section Calls

variable {m : Type → Type} [Monad m]

theorem foldlM_congr {γ δ : Type} {f g : δ → γ → m δ} {xs : List γ} (h : ∀ d, ∀ x ∈ xs, f d x = g d x) (d : δ) :
    xs.foldlM f d = xs.foldlM g d := by
  induction xs generalizing d with
  | nil => rfl
  | cons x xs ih =>
    rw [List.foldlM_cons, List.foldlM_cons, h d x List.mem_cons_self]
    congr 1
    funext d'
    exact ih (fun d y hy => h d y (List.mem_cons_of_mem x hy)) d'

theorem anyM_congr {γ : Type} {p q : γ → m Bool} {xs : List γ} (h : ∀ x ∈ xs, p x = q x) : xs.anyM p = xs.anyM q := by
  induction xs with
  | nil => rfl
  | cons x xs ih =>
    rw [List.anyM, List.anyM, h x List.mem_cons_self, ih fun y hy => h y (List.mem_cons_of_mem x hy)]

/-- the pairs that are visited are the domains' own, and the same in the same order -/
theorem productM_alike {s t : Subset α} {u u' : Subset β} (h : Alike s t) (hu : Alike u u')
    {visit visit' : α → β → m Unit}
    (hvisit : ∀ a ∈ s.domain.elements, ∀ b ∈ u.domain.elements, visit a b = visit' a b) :
    s.productM u visit = t.productM u' visit' := by
  rw [productM, productM, ← h.toList, ← hu.toList, Pair.productM, Pair.productM]
  congr 1
  refine foldlM_congr (fun n a ha => ?_) 0
  refine foldlM_congr (fun n b hb => ?_) n
  rw [hvisit a (mem_elements ha) b (mem_elements hb)]

variable [LawfulMonad m]

/-- removing elements in turn, as answers come in, takes twins to twins -/
theorem foldlM_erase_twins {γ : Type} {view : Subset α → γ} (hview : ∀ x y, Twins x y → view x = view y)
    (keep : α → m Bool) (as : List α) {s t : Subset α} (h : Twins s t) :
    view <$> as.foldlM (fun kept a => do return if ← keep a then kept else (kept.erase a).1) s =
      view <$> as.foldlM (fun kept a => do return if ← keep a then kept else (kept.erase a).1) t := by
  induction as generalizing s t with
  | nil => simp only [List.foldlM_nil, map_pure, hview s t h]
  | cons a as ih =>
    simp only [List.foldlM_cons, bind_assoc, pure_bind, map_bind]
    congr 1
    funext answer
    cases answer with
    | false => exact ih (h.erase a)
    | true => exact ih h

/-- the questions that are asked are about the domains' own elements, and the same in the same order; the answers leave
twins -/
theorem semijoinM_twins {s t : Subset α} {u u' : Subset β} (h : Twins s t) (hu : Alike u u')
    {related related' : α → β → m Bool}
    (hrel : ∀ a ∈ s.domain.elements, ∀ b ∈ u.domain.elements, related a b = related' a b)
    {γ : Type} {view : Subset α → γ} (hview : ∀ x y, Twins x y → view x = view y) :
    view <$> s.semijoinM u related = view <$> t.semijoinM u' related' := by
  have hasked : s.semijoinM u related = s.semijoinM u' related' := by
    rw [semijoinM, semijoinM, ← hu.toList]
    refine foldlM_congr (fun kept a ha => ?_) s
    rw [anyM_congr fun b hb => hrel a (mem_elements ha) b (mem_elements hb)]
  calc view <$> s.semijoinM u related = view <$> s.semijoinM u' related' := by rw [hasked]
    _ = view <$> t.semijoinM u' related' := by
      rw [semijoinM, semijoinM, ← h.alike.toList]
      exact foldlM_erase_twins hview _ s.toList h

end Calls

/-! ## Queries -/

/-- everything that is shown of the subset is the domain's own -/
structure ShowsOwn (s : Subset α) : Prop where
  toList : ∀ e ∈ s.toList, e ∈ s.domain.elements
  indexed : ∀ p ∈ s.indexed, s.domain.elements[p.first]? = some p.second
  display : ∀ [Presented α], s.display = Presented.displaySet (s.domain.select s.positions)
  layout : ∀ [Presented α], s.layout = .braces ((s.domain.select s.positions).map Presented.layout)
  tree : ∀ [Presented α], s.tree = .object
    [("domain", s.domain.tree), ("members", .array ((s.domain.select s.positions).map Presented.tree))]
  document : Persisted.Document.ofSubset s =
    .record [⟨"domain", s.domain.elements⟩, ⟨"members", s.domain.select s.positions⟩]
  /-- a fixed general form gives its members as the caller did -/
  toMembers : s.choice ≠ .general → ∀ e ∈ s.toMembers.toList, e ∈ s.domain.elements

theorem toMembers_eq {s : Subset α} (h : s.choice ≠ .general) : s.toMembers = Members.ofList s.toList := by
  obtain ⟨rep, adaptive⟩ := s
  cases adaptive with
  | true => rfl
  | false =>
    cases rep with
    | compact c => rfl
    | general g => exact absurd rfl h

theorem showsOwn (s : Subset α) : s.ShowsOwn where
  toList _ := mem_elements
  indexed p hp := by
    obtain ⟨i, -, hi⟩ := List.mem_filterMap.1 hp
    obtain ⟨e, he, rfl⟩ := Option.map_eq_some_iff.1 hi
    exact he
  display := rfl
  layout := rfl
  tree := rfl
  document := rfl
  toMembers h e he := by
    rw [toMembers_eq h] at he
    exact mem_elements (Members.mem_ofList he)

theorem word?_eq (s : Subset α) : s.word? = if s.choice = .compact then s.toWord.toOption else none := by
  obtain ⟨rep, adaptive⟩ := s
  cases adaptive <;> cases rep <;> rfl

/-- nothing that can be asked of `s` and, with kin arguments, of `t` tells which of them was asked -/
structure Indistinct (s t : Subset α) : Prop where
  agree : Agree s t
  domain : s.domain = t.domain
  strategy : s.strategy = t.strategy
  choice : s.choice = t.choice
  word? : s.word? = t.word?
  toMembers : s.choice ≠ .general → s.toMembers = t.toMembers
  contains : ∀ e e', (e == e') = true → s.contains e = t.contains e'
  isSubsetOf : ∀ u u' : Subset α, (∀ e, u.contains e = u'.contains e) → s.isSubsetOf u = t.isSubsetOf u'
  isSupersetOf : ∀ u u' : Subset α, (∀ e, u.contains e = u'.contains e) → u.isSubsetOf s = u'.isSubsetOf t
  sameElements : ∀ u u' : Subset α, (∀ e, u.contains e = u'.contains e) → s.sameElements u = t.sameElements u'
  sameDomain : ∀ u u', u.same u' = true → s.sameDomain u = t.sameDomain u'
  same : ∀ u u', u.same u' = true → s.same u = t.same u'
  product : ∀ {β : Type} [Element β] (u u' : Subset β), Alike u u' → s.product u = t.product u'
  /-- whatever is done with each pair, if only it is the same for the domains' own elements -/
  productM : ∀ {m : Type → Type} [Monad m] {β : Type} [Element β] (u u' : Subset β) (visit visit' : α → β → m Unit),
    Alike u u' → (∀ a ∈ s.domain.elements, ∀ b ∈ u.domain.elements, visit a b = visit' a b) →
    s.productM u visit = t.productM u' visit'
  /-- whatever is done to answer each question, if only it is the same for the domains' own elements -/
  semijoinM : ∀ {m : Type → Type} [Monad m] [LawfulMonad m] {β : Type} [Element β] (u u' : Subset β)
    (related related' : α → β → m Bool) {γ : Type} (view : Subset α → γ), Alike u u' →
    (∀ a ∈ s.domain.elements, ∀ b ∈ u.domain.elements, related a b = related' a b) →
    (∀ x y, Twins x y → view x = view y) → view <$> s.semijoinM u related = view <$> t.semijoinM u' related'

theorem Twins.indistinct {s t : Subset α} (h : Twins s t) : Indistinct s t where
  agree := h.alike.agree
  domain := h.domain
  strategy := h.strategy
  choice := h.choice
  word? := by rw [word?_eq, word?_eq, h.choice, toWord_of_same h.same]
  toMembers hc := by rw [toMembers_eq hc, toMembers_eq (h.choice ▸ hc), h.alike.toList]
  contains _ _ he := contains_of_same h.same he
  isSubsetOf u u' hu := by
    have : u.contains = u'.contains := funext hu
    rw [isSubsetOf_eq, isSubsetOf_eq, h.alike.toList, this]
  isSupersetOf u u' hu := by
    rw [Bool.eq_iff_iff, isSubsetOf_iff, isSubsetOf_iff]
    simp only [hu, h.alike.contains]
  sameElements u u' hu := by
    rw [Bool.eq_iff_iff, sameElements_iff, sameElements_iff]
    simp only [hu, h.alike.contains]
  sameDomain _ _ hu := sameDomain_congr h.same hu
  same _ _ hu := same_congr h.same hu
  product u u' hu := by rw [Subset.product, Subset.product, h.alike.toList, hu.toList]
  productM _ _ _ _ hu hvisit := productM_alike h.alike hu hvisit
  semijoinM _ _ _ _ _ _ hu hrel hview := semijoinM_twins h hu hrel hview

end Subset

end SubsetAlgebra
