/-
Steps of a session that only look.

To answer a step the fingerprints of some domains may have to be taken, and they are remembered from then on. Workspaces
are `Alike` if their names stand for domains and subsets that differ in what is remembered and in nothing else. Every
step is answered alike in both, and they are alike behind it (`step_alike`, and `run_alike` by induction). A step that
only looks leaves a workspace like the one that it found (`look_alike`), so that no later answer shows whether it was
there (`answers_after_look`).
-/
import SubsetAlgebra.Proofs.AskedRuns
import SubsetAlgebra.Proofs.SessionSteps

namespace SubsetAlgebra

theorem Subset.toOperand_remember {α : Type} [Element α] (s : Subset α) :
    s.remember.toOperand = s.toOperand.remember := by
  obtain ⟨rep, adaptive⟩ := s
  cases rep <;> rfl

namespace Session.Workspace

open Persisted.Document (ok_of_bind)

/-! ## Alike workspaces -/

/-- the same names, for what differs in what is remembered and in nothing else -/
structure Alike (w w' : Workspace) : Prop where
  domain : ∀ name, Paired (fun d e => d.remember = e.remember) (w.domain name) (w'.domain name)
  subset : ∀ name, Paired (fun s t => s.remember = t.remember) (w.subset name) (w'.subset name)

theorem lookup_filter_ne {γ : Type} (bindings : List (String × γ)) {name other : String} (h : other ≠ name) :
    (bindings.filter (·.1 != name)).lookup other = bindings.lookup other := by
  induction bindings with
  | nil => rfl
  | cons x bindings ih =>
    by_cases hx : x.1 = name
    · have hother : (other == x.1) = false := beq_eq_false_iff_ne.2 (hx ▸ h)
      rw [List.filter_cons_of_neg (by simpa using hx), ih, List.lookup_cons, hother]
    · rw [List.filter_cons_of_pos (by simpa using hx), List.lookup_cons, List.lookup_cons, ih]

/-- what is bound to a name is found under it, and nothing else under other names -/
theorem lookup_bind {γ : Type} (bindings : List (String × γ)) (name : String) (y : γ) (other : String) :
    ((name, y) :: bindings.filter (·.1 != name)).lookup other =
      if other = name then some y else bindings.lookup other := by
  by_cases h : other = name
  · rw [if_pos h, List.lookup_cons, beq_iff_eq.2 h]
  · rw [if_neg h, List.lookup_cons, beq_eq_false_iff_ne.2 h]
    exact lookup_filter_ne bindings h

theorem domain_setDomain (w : Workspace) (name : String) (d : Domain Value) (other : String) :
    (w.setDomain name d).domain other = if other = name then .ok d else w.domain other := by
  rw [domain, setDomain, lookup_bind]
  by_cases h : other = name
  · rw [if_pos h, if_pos h]
  · rw [if_neg h, if_neg h, domain]

theorem subset_setSubset (w : Workspace) (name : String) (s : Subset Value) (other : String) :
    (w.setSubset name s).subset other = if other = name then .ok s else w.subset other := by
  rw [subset, setSubset, lookup_bind]
  by_cases h : other = name
  · rw [if_pos h, if_pos h]
  · rw [if_neg h, if_neg h, subset]

section Alike

variable {w w' : Workspace} {d e : Domain Value} {s t u v : Subset Value}

theorem Alike.refl (w : Workspace) : Alike w w where
  domain _ := (Paired.refl _).mono fun _ _ h => congrArg Domain.remember h
  subset _ := (Paired.refl _).mono fun _ _ h => congrArg Subset.remember h

theorem Alike.setDomain (h : w.Alike w') (hd : d.remember = e.remember) (name : String) :
    (w.setDomain name d).Alike (w'.setDomain name e) where
  domain other := by
    rw [domain_setDomain, domain_setDomain]
    split
    · exact .done hd
    · exact h.domain other
  subset := h.subset

theorem Alike.setSubset (h : w.Alike w') (hs : s.remember = t.remember) (name : String) :
    (w.setSubset name s).Alike (w'.setSubset name t) where
  domain := h.domain
  subset other := by
    rw [subset_setSubset, subset_setSubset]
    split
    · exact .done hs
    · exact h.subset other

/-- binding to a name what it stands for, up to what is remembered -/
theorem Alike.rebindDomain (h : w.Alike w') {name : String} (hd : w'.domain name = .ok e)
    (hde : d.remember = e.remember) : (w.setDomain name d).Alike w' where
  domain other := by
    rw [domain_setDomain]
    split
    · next heq => rw [heq, hd]; exact .done hde
    · exact h.domain other
  subset := h.subset

theorem Alike.rebindSubset (h : w.Alike w') {name : String} (hs : w'.subset name = .ok t)
    (hst : s.remember = t.remember) : (w.setSubset name s).Alike w' where
  domain := h.domain
  subset other := by
    rw [subset_setSubset]
    split
    · next heq => rw [heq, hs]; exact .done hst
    · exact h.subset other

/-! ## What steps refer to -/

theorem Alike.operand (h : w.Alike w') (src : Source) :
    Paired (fun o o' => o.remember = o'.remember) (w.operand src) (w'.operand src) := by
  cases src with
  | literal o => exact .done rfl
  | named name =>
    refine (h.subset name).map fun s t hst => ?_
    rw [← s.toOperand_remember, ← t.toOperand_remember, hst]

theorem Alike.recipeOf (h : w.Alike w') (r : Recipe) :
    Paired (fun x y => x.remember = y.remember) (w.recipeOf r) (w'.recipeOf r) := by
  cases r with
  | ofSource c src => exact (h.operand src).map fun o o' ho => congrArg (Store.Recipe.ofOperand c) ho
  | _ => exact .done rfl

theorem Alike.changeOf (h : w.Alike w') (x : Derivation) :
    Paired (fun c c' => c.remember = c'.remember) (w.changeOf x) (w'.changeOf x) := by
  cases x with
  | union src => exact (h.operand src).bind fun o o' ho => .done (congrArg Change.union ho)
  | inter src => exact (h.operand src).bind fun o o' ho => .done (congrArg Change.inter ho)
  | diff src => exact (h.operand src).bind fun o o' ho => .done (congrArg Change.diff ho)
  | complement => exact .done rfl
  | reattach name => exact (h.domain name).bind fun d e hde => .done (congrArg Change.reattach hde)

theorem Alike.build (h : w.Alike w') (hd : d.remember = e.remember) (r : Recipe) :
    Paired (fun s t => s.remember = t.remember) (w.build d r) (w'.build e r) := by
  rw [build_eq, build_eq]
  refine (h.recipeOf r).bind fun x y hxy => paired_checked ?_
  rw [← x.build_remember d, ← y.build_remember e, hxy, hd]

/-! ## Answers -/

theorem reportDomain_alike (h : d.remember = e.remember) : reportDomain d = reportDomain e := by
  have hd := Domain.unmoved h
  simp only [reportDomain, hd.size, Domain.isEmpty, hd.elements, hd.fitsWord, hd.fullWord, hd.layout, hd.tree]

theorem state_alike (h : s.remember = t.remember) : state s = state t := by
  have hs := Subset.unmoved h
  simp only [state, form, hs.choice, hs.strategy, hs.agree.positions]

theorem reportSubset_alike (h : s.remember = t.remember) : reportSubset s = reportSubset t := by
  have hs := Subset.unmoved h
  simp only [reportSubset, form, hs.choice, hs.strategy, hs.domain.size, hs.agree.size, hs.agree.isEmpty,
    hs.agree.isFull, hs.agree.positions, hs.agree.toList, hs.agree.toWord, hs.agree.toMask, hs.agree.toBits,
    hs.agree.display]

theorem answerQuery_alike (h : s.remember = t.remember) (q : Query) : answerQuery s q = answerQuery t q := by
  have hs := Subset.unmoved h
  cases q with
  | all => exact congrArg Answer.subset (reportSubset_alike h)
  | size => exact congrArg Answer.count hs.agree.size
  | isEmpty => exact congrArg Answer.flag hs.agree.isEmpty
  | isFull => exact congrArg Answer.flag hs.agree.isFull
  | contains e => exact congrArg Answer.flag (hs.agree.contains e)
  | containsPosition p => exact congrArg Answer.flag (hs.agree.containsPosition p)
  | toWord => exact congrArg Answer.word hs.agree.toWord
  | heldWord => exact congrArg Answer.heldWord hs.word?
  | toMask => exact congrArg Answer.mask hs.agree.toMask
  | toBits => exact congrArg Answer.bits hs.agree.toBits
  | toMembers => simp only [answerQuery, hs.toMembers]
  | indexed => simp only [answerQuery, hs.agree.indexed]
  | display => exact congrArg Answer.text hs.agree.display
  | layout => simp only [answerQuery, hs.agree.layout]
  | spread => simp only [answerQuery, hs.agree.layout]
  | json => simp only [answerQuery, hs.agree.tree]
  | digest => simp only [answerQuery, hs.agree.digest, hs.domain.fingerprint]

theorem answerComparison_alike (hs : s.remember = t.remember) (hu : u.remember = v.remember) (c : Comparison) :
    answerComparison s u c = answerComparison t v c := by
  have hst := Subset.same_of_remember hs
  have huv := Subset.same_of_remember hu
  cases c with
  | isSubset => exact congrArg Answer.flag (Subset.isSubsetOf_congr hst huv)
  | sameDomain => exact congrArg Answer.flag (Subset.sameDomain_congr hst huv)
  | sameElements => exact congrArg Answer.flag (Subset.sameElements_congr hst huv)
  | same =>
    simp only [answerComparison, Subset.same_congr hst huv, Subset.digest_eq_of_same hst, Subset.digest_eq_of_same huv]
  | product =>
    simp only [answerComparison, (Subset.agree_of_remember hs).product, (Subset.agree_of_remember hu).product_right]
  | visits =>
    rw [answer_visits, answer_visits, (Subset.agree_of_remember hs).toList, (Subset.agree_of_remember hu).toList]

/-! ## Steps -/

/-- the same is told, and the workspaces are alike -/
structure Told (x y : Workspace × Answer) : Prop where
  workspace : x.1.Alike y.1
  answer : x.2 = y.2

theorem makeDomain_told (h : w.Alike w') (hd : d.remember = e.remember) (into : String) :
    Told (w.makeDomain into d) (w'.makeDomain into e) :=
  ⟨h.setDomain hd into, congrArg Answer.domainMade (Domain.unmoved hd).size⟩

theorem makeSubset_told (h : w.Alike w') (hs : s.remember = t.remember) (into : String) :
    Told (w.makeSubset into s) (w'.makeSubset into t) :=
  ⟨h.setSubset hs into, congrArg Answer.made (state_alike hs)⟩

theorem convert_alike (h : s.remember = t.remember) (c : Conversion) :
    Paired (fun x y => x.map Subset.remember = y.map Subset.remember) (convert s c) (convert t c) := by
  cases c with
  | copy => exact .done (congrArg some h)
  | toCompact =>
    refine (paired_checked ?_).map fun x y hxy => congrArg some hxy
    rw [← s.toCompact_remember, ← t.toCompact_remember, h]
  | toGeneral =>
    refine .done (congrArg some ?_)
    rw [← s.toGeneral_remember, ← t.toGeneral_remember, h]
  | toAuto => exact .done (congrArg (fun x : Subset Value => some x.toAuto) h)
  | asHeld wanted =>
    refine .done ?_
    rw [← s.ofStrategy?_remember, ← t.ofStrategy?_remember, h]
  | reload c =>
    simp only [convert, (Subset.unmoved h).agree.document]
    exact (Paired.refl _).map fun _ _ hxy => congrArg (fun x => some (Subset.remember x)) hxy

theorem semijoin_alike (hs : s.remember = t.remember) (hu : u.remember = v.remember) (related : Value → Value → Bool) :
    (s.semijoin u related).remember = (t.semijoin v related).remember := by
  rw [← s.semijoin_remember u related, ← t.semijoin_remember v related, hs, hu]

theorem change_alike (h : s.remember = t.remember) (c : Change Value Value) :
    (s.step c).1.remember = (t.step c).1.remember ∧ (s.step c).2 = (t.step c).2 := by
  have happly := (Subset.unmoved h).apply c c rfl
  unfold Subset.step
  generalize c.apply s = x at happly
  generalize c.apply t = y at happly
  cases x with
  | error e =>
    cases y with
    | error e' => cases happly; exact ⟨h, rfl⟩
    | ok y => cases happly
  | ok x =>
    cases y with
    | error e' => cases happly
    | ok y =>
      have hxy := Except.ok.inj happly
      exact ⟨congrArg Prod.fst hxy, congrArg (fun p => Except.ok p.2) hxy⟩

/-- a step is answered alike in alike workspaces -/
theorem attempt_alike (h : w.Alike w') (x : Step) : Paired Told (w.attempt x) (w'.attempt x) := by
  cases x with
  | domain into es =>
    exact (Paired.refl _).bind fun d _ hd => .done (makeDomain_told h (congrArg Domain.remember hd) into)
  | domainOfOptions into es =>
    exact (Paired.refl _).bind fun d _ hd => .done (makeDomain_told h (congrArg Domain.remember hd) into)
  | domainCopy into d => exact (h.domain d).bind fun d e hde => .done (makeDomain_told h hde into)
  | domainOf into a =>
    exact (h.subset a).bind fun s t hst => .done (makeDomain_told h (Subset.domain_of_remember hst) into)
  | domainInfo d => exact (h.domain d).bind fun d e hde => .done ⟨h, congrArg Answer.domain (reportDomain_alike hde)⟩
  | domainGet d i =>
    refine (h.domain d).bind fun d e hde => ?_
    rw [(Domain.unmoved hde).get]
    exact (Paired.refl _).bind fun v _ hv => .done ⟨h, congrArg Answer.element hv⟩
  | domainAt d i =>
    refine (h.domain d).bind fun d e hde => ?_
    simp only [(Domain.unmoved hde).elements, (Domain.unmoved hde).size]
    cases e.elements[i]? with
    | none => exact .failed _
    | some v => exact .done ⟨h, rfl⟩
  | domainIndexOf d v =>
    exact (h.domain d).bind fun d e hde => .done ⟨h, by rw [(Domain.unmoved hde).indexOf]⟩
  | domainContains d v =>
    exact (h.domain d).bind fun d e hde => .done ⟨h, by rw [(Domain.unmoved hde).contains]⟩
  | domainSame d e =>
    refine (h.domain d).bind fun x x' hx => (h.domain e).bind fun y y' hy => .done ⟨h, ?_⟩
    exact congrArg Answer.flag ((Domain.unmoved hx).same y y' hy)
  | fingerprints d e =>
    refine (h.domain d).bind fun x x' hx => (h.domain e).bind fun y y' hy => .done ⟨?_, ?_⟩
    · exact (h.setDomain (congrArg Domain.remember hx) d).setDomain (congrArg Domain.remember hy) e
    · simp only [(Domain.unmoved hx).fingerprint, (Domain.unmoved hy).fingerprint]
  | build into d r =>
    exact (h.domain d).bind fun d e hde => (h.build hde r).bind fun s t hst => .done (makeSubset_told h hst into)
  | ofDistinct into es =>
    exact (Paired.refl _).bind fun s _ hs => .done (makeSubset_told h (congrArg Subset.remember hs) into)
  | convert into a c =>
    refine (h.subset a).bind fun s t hst => (convert_alike hst c).bind fun x y hxy => ?_
    cases x with
    | none =>
      cases y with
      | none => exact .done ⟨h, rfl⟩
      | some t => cases hxy
    | some s =>
      cases y with
      | none => cases hxy
      | some t => exact .done (makeSubset_told h (Option.some.inj hxy) into)
  | derive into a x =>
    refine (h.changeOf x).bind fun c c' hc => (h.subset a).bind fun s t hst => ?_
    refine (paired_checked ((Subset.unmoved hst).apply c c' hc)).bind fun x y hxy => .done ?_
    exact makeSubset_told h (congrArg Prod.fst hxy) into
  | semijoin into a b r =>
    rw [attempt_semijoin, attempt_semijoin]
    refine (h.subset a).bind fun s s' hs => (h.subset b).bind fun t t' ht => .done ?_
    have hkept := semijoin_alike hs ht r.holds
    rw [(Subset.agree_of_remember hs).toList, (Subset.agree_of_remember ht).toList]
    exact ⟨h.setSubset hkept into, by rw [state_alike hkept]⟩
  | change a c =>
    refine (h.subset a).bind fun s t hst => .done ?_
    obtain ⟨hafter, hcame⟩ := change_alike hst c
    exact ⟨h.setSubset hafter a, congrArg₂ Answer.changed hcame (state_alike hafter)⟩
  | ask a q =>
    by_cases hq : q = .digest
    · subst hq
      refine (h.subset a).bind fun s t hst => .done ⟨?_, answerQuery_alike hst .digest⟩
      exact h.setSubset (congrArg Subset.remember hst) a
    · rw [attempt_ask w a hq, attempt_ask w' a hq]
      exact (h.subset a).bind fun s t hst => .done ⟨h, answerQuery_alike hst q⟩
  | compare a b c =>
    by_cases hc : c = .same
    · subst hc
      refine (h.subset a).bind fun s s' hs => (h.subset b).bind fun t t' ht =>
        .done ⟨?_, answerComparison_alike hs ht .same⟩
      exact (h.setSubset (congrArg Subset.remember hs) a).setSubset (congrArg Subset.remember ht) b
    · rw [attempt_compare w a b hc, attempt_compare w' a b hc]
      exact (h.subset a).bind fun s s' hs => (h.subset b).bind fun t t' ht => .done ⟨h, answerComparison_alike hs ht c⟩
  | describe src =>
    refine (h.operand src).bind fun o o' ho => .done ⟨h, ?_⟩
    have hshown : ∀ o : Operand Value,
        Answer.operand o.form o.layout? = .operand o.remember.form o.remember.layout? := by
      intro o
      cases o <;> rfl
    exact (hshown o).trans ((congrArg (fun o => Answer.operand o.form o.layout?) ho).trans (hshown o').symm)

theorem step_alike (h : w.Alike w') (x : Step) : Told (w.step x) (w'.step x) := by
  have hx := attempt_alike h x
  unfold Workspace.step
  generalize w.attempt x = r at hx
  generalize w'.attempt x = r' at hx
  cases hx with
  | failed f => exact ⟨h, rfl⟩
  | done htold => exact htold

/-- whatever is done with them, alike workspaces stay alike, and every step is answered alike -/
theorem run_alike (h : w.Alike w') (steps : List Step) :
    (w.run steps).1.Alike (w'.run steps).1 ∧ (w.run steps).2 = (w'.run steps).2 := by
  induction steps generalizing w w' with
  | nil => exact ⟨h, rfl⟩
  | cons x steps ih =>
    have hx := step_alike h x
    obtain ⟨hend, hanswers⟩ := ih hx.workspace
    exact ⟨hend, congrArg₂ List.cons hx.answer hanswers⟩

/-! ## Looking -/

/-- a step that leaves all names standing for what they stood for -/
inductive Looks : Step → Prop where
  | keeps {x : Step} : Keeps x → Looks x
  | fingerprints (d e : String) : Looks (.fingerprints d e)
  | digest (a : String) : Looks (.ask a .digest)
  | same (a b : String) : Looks (.compare a b .same)

/-- what a step that only looks leaves behind is like what it found -/
theorem look_alike (w : Workspace) {x : Step} (hx : Looks x) : (w.step x).1.Alike w := by
  have hw := Alike.refl w
  unfold Workspace.step
  cases hs : w.attempt x with
  | error f => exact hw
  | ok y =>
    cases hx with
    | keeps hx =>
      rw [attempt_keeps hx hs]
      exact hw
    | fingerprints d e =>
      obtain ⟨y, hy, hs⟩ := ok_of_bind hs
      obtain ⟨z, hz, hs⟩ := ok_of_bind hs
      cases hs
      exact (hw.rebindDomain hy y.remember_remember).rebindDomain hz z.remember_remember
    | digest a =>
      obtain ⟨s, ha, hs⟩ := ok_of_bind hs
      cases hs
      exact hw.rebindSubset ha s.remember_remember
    | same a b =>
      obtain ⟨s, ha, hs⟩ := ok_of_bind hs
      obtain ⟨t, hb, hs⟩ := ok_of_bind hs
      cases hs
      exact (hw.rebindSubset ha s.remember_remember).rebindSubset hb t.remember_remember

/-- **Looking is not seen later.** Whether a step that only looks is taken or left out, all later steps are answered
alike, although fingerprints may have been remembered. -/
theorem answers_after_look (w : Workspace) {x : Step} (hx : Looks x) (steps : List Step) :
    (w.run (x :: steps)).2 = (w.step x).2 :: (w.run steps).2 :=
  congrArg ((w.step x).2 :: ·) (run_alike (w.look_alike hx) steps).2

end Alike

end Session.Workspace

end SubsetAlgebra
