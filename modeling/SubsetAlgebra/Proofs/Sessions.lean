/-
Sessions as runs of a store.

A session is the run of its ledger: at every point the workspace is what the ledger shows, and the ledger's store is at
the end of a run of commands; and every answer tells the reply that the store gives to the command to which the step
comes (`Fits` for what becomes of a step, `step_fits`, and `run_fits` by induction). So whatever holds of the domains
and subsets in all runs of a store holds of those of every session (`domain_of_runs`, `subset_of_runs`).
-/
import SubsetAlgebra.Proofs.Reachable
import SubsetAlgebra.Proofs.SessionSteps

namespace SubsetAlgebra

/-! ## What commands add -/

/-- a place is not moved by what comes behind -/
theorem getElem?_of_prefix {γ : Type} {ys ys' : List γ} (h : ys <+: ys') {i : Nat} {y : γ} (hi : ys[i]? = some y) :
    ys'[i]? = some y := by
  obtain ⟨zs, rfl⟩ := h
  rw [List.getElem?_append_left (List.getElem?_eq_some_iff.1 hi).1, hi]

namespace Store

variable {α : Type} [Element α] {st st' st'' : Store α}

theorem run_append (st : Store α) (cs ds : List (Command α)) : st.run (cs ++ ds) = (st.run cs).run ds :=
  List.foldl_append

theorem step_of_attempt {c : Command α} (h : st.attempt c = some st') : st.step c = st' := by
  rw [step, h, Option.getD_some]

/-- commands lead from `st` to `st'`, and all that was made stays where it was -/
structure Leads (st st' : Store α) : Prop where
  run : ∃ cs, st.run cs = st'
  domains : st.domains <+: st'.domains
  subsets : st.subsets <+: st'.subsets

theorem Leads.refl (st : Store α) : Leads st st := ⟨⟨[], rfl⟩, List.prefix_rfl, List.prefix_rfl⟩

theorem Leads.trans (h : Leads st st') (h' : Leads st' st'') : Leads st st'' := by
  obtain ⟨cs, rfl⟩ := h.run
  obtain ⟨ds, rfl⟩ := h'.run
  exact ⟨⟨cs ++ ds, st.run_append cs ds⟩, h.domains.trans h'.domains, h.subsets.trans h'.subsets⟩

theorem leads_addDomain (cs : List (Command α)) {d : Domain α} (h : st.run cs = st.addDomain d) :
    Leads st (st.addDomain d) :=
  ⟨⟨cs, h⟩, List.prefix_append _ _, List.prefix_rfl⟩

theorem leads_addSubset (cs : List (Command α)) {s : Subset α} (h : st.run cs = st.addSubset s) :
    Leads st (st.addSubset s) :=
  ⟨⟨cs, h⟩, List.prefix_rfl, List.prefix_append _ _⟩

theorem getElem?_addDomain (st : Store α) (d : Domain α) : (st.addDomain d).domains[st.domains.length]? = some d :=
  List.getElem?_concat_length

theorem getElem?_addSubset (st : Store α) (s : Subset α) : (st.addSubset s).subsets[st.subsets.length]? = some s :=
  List.getElem?_concat_length

theorem Leads.domain (h : Leads st st') {i : Nat} {d : Domain α} (hi : st.domains[i]? = some d) :
    st'.domains[i]? = some d :=
  getElem?_of_prefix h.domains hi

theorem Leads.subset (h : Leads st st') {i : Nat} {s : Subset α} (hi : st.subsets[i]? = some s) :
    st'.subsets[i]? = some s :=
  getElem?_of_prefix h.subsets hi

section Places

variable {β : Type} [Element β] {i : Nat} {d : Domain α} {s : Subset α}

theorem attempt_build (hi : st.domains[i]? = some d) (r : Recipe α) :
    st.attempt (.build i r) = (r.build d).toOption.map st.addSubset := by
  rw [attempt, hi, Option.bind_some]

theorem reply_build (hi : st.domains[i]? = some d) (r : Recipe α) : st.reply (.build i r) = .ofResult (r.build d) := by
  rw [reply, hi, Reply.ofOption]

theorem attempt_domainOf (hi : st.subsets[i]? = some s) : st.attempt (.domainOf i) = some (st.addDomain s.domain) := by
  rw [attempt, hi, Option.map_some, Option.map_some]

theorem reply_domainOf (hi : st.subsets[i]? = some s) : st.reply (.domainOf i) = .done .done := by
  rw [reply, hi, Reply.ofOption]

theorem attempt_convert (hi : st.subsets[i]? = some s) (k : Conversion) :
    st.attempt (.convert i k) = (k.apply s).map st.addSubset := by
  rw [attempt, hi, Option.bind_some]

theorem reply_convert (hi : st.subsets[i]? = some s) (k : Conversion) : st.reply (.convert i k) = k.reply s := by
  rw [reply, hi, Reply.ofOption]

theorem attempt_derive (hi : st.subsets[i]? = some s) (c : Change α β) :
    st.attempt (.derive i ⟨c⟩) = ((c.apply s).toOption.map (·.1)).map st.addSubset := by
  rw [attempt, changed, hi, Option.bind_some]

theorem reply_derive (hi : st.subsets[i]? = some s) (c : Change α β) :
    st.reply (.derive i ⟨c⟩) = .ofChange (c.apply s) := by
  rw [reply, hi, Reply.ofOption]

/-- what was made last is put in the place of itself -/
theorem attempt_remember_last (st : Store α) (s : Subset α) :
    (st.addSubset s).attempt (.remember st.subsets.length) = some (st.addSubset s.remember) := by
  rw [attempt, getElem?_addSubset, Option.map_some, Option.map_some, addSubset, setSubset, addSubset]
  simp only [List.set_append_right _ _ Nat.le.refl, Nat.sub_self, List.set_cons_zero]

/-- extending by nothing makes a copy, which alone is asked -/
theorem run_ask_subset (hi : st.subsets[i]? = some s) :
    st.run [.derive i ⟨(.extend [] : Change α α)⟩, .remember st.subsets.length] = st.addSubset s.remember := by
  have hcopy : st.attempt (.derive i ⟨(.extend [] : Change α α)⟩) = some (st.addSubset s) := attempt_derive hi _
  change (st.step _).step _ = _
  rw [step_of_attempt hcopy, step_of_attempt (st.attempt_remember_last s)]

/-- a domain is asked by way of a subset over it -/
theorem run_ask_domain (hi : st.domains[i]? = some d) :
    st.run [.build i (.empty .general), .remember st.subsets.length, .domainOf st.subsets.length] =
      (st.addSubset (Subset.ofGeneral (.empty d)).remember).addDomain d.remember := by
  have hbuild : st.attempt (.build i (.empty .general)) = some (st.addSubset (.ofGeneral (.empty d))) :=
    attempt_build hi _
  have hdomain := attempt_domainOf (st.getElem?_addSubset (Subset.ofGeneral (.empty d)).remember)
  change ((st.step _).step _).step _ = _
  rw [step_of_attempt hbuild, step_of_attempt (st.attempt_remember_last _), step_of_attempt hdomain]
  rfl

end Places

end Store

namespace Session

namespace Ledger

open Workspace

/-! ## What a ledger shows -/

section Standing

variable {γ : Type} {ys ys' : List γ} {names : List (String × Nat)}

/-- what is made behind them changes nothing about what stands at places -/
theorem standing_of_prefix (h : ys <+: ys') (hnames : ∀ x ∈ names, x.2 < ys.length) :
    standing ys' names = standing ys names := by
  obtain ⟨zs, rfl⟩ := h
  exact List.filterMap_congr fun x hx => by rw [List.getElem?_append_left (hnames x hx)]

theorem standing_bind {i : Nat} {y : γ} (hi : ys[i]? = some y) (name : String) (names : List (String × Nat)) :
    standing ys ((name, i) :: names.filter (·.1 != name)) =
      (name, y) :: (standing ys names).filter (·.1 != name) := by
  rw [standing, List.filterMap_cons_some (by rw [hi]; rfl), List.filterMap_filter, standing, List.filter_filterMap]
  congr 1
  refine List.filterMap_congr fun x _ => ?_
  cases ys[x.2]? with
  | none => exact ite_self none
  | some z => rfl

/-- a name stands for what is at its place, or has no place and stands for nothing -/
theorem lookup_standing (hnames : ∀ x ∈ names, x.2 < ys.length) (name : String) :
    names.lookup name = none ∧ (standing ys names).lookup name = none ∨
      ∃ i y, names.lookup name = some i ∧ ys[i]? = some y ∧ (standing ys names).lookup name = some y := by
  induction names with
  | nil => exact .inl ⟨rfl, rfl⟩
  | cons x names ih =>
    have hx := List.getElem?_eq_getElem (hnames x List.mem_cons_self)
    rw [standing, List.filterMap_cons_some (by rw [hx]; rfl), List.lookup_cons, List.lookup_cons]
    cases name == x.1 with
    | true => exact .inr ⟨x.2, _, rfl, hx, rfl⟩
    | false => exact ih fun y hy => hnames y (List.mem_cons_of_mem x hy)

theorem lt_of_bind {i : Nat} {y : γ} (hi : ys[i]? = some y) (hnames : ∀ x ∈ names, x.2 < ys.length) (name : String) :
    ∀ x ∈ (name, i) :: names.filter (·.1 != name), x.2 < ys.length := by
  intro x hx
  rcases List.mem_cons.1 hx with rfl | hx
  · exact (List.getElem?_eq_some_iff.1 hi).1
  · exact hnames x (List.mem_of_mem_filter hx)

end Standing

/-- every name is one of a place that there is -/
structure Placed (l : Ledger) : Prop where
  domains : ∀ x ∈ l.domains, x.2 < l.store.domains.length
  subsets : ∀ x ∈ l.subsets, x.2 < l.store.subsets.length

/-- commands and names lead from `l` to `l'`, which shows `w` -/
structure Reaches (l l' : Ledger) (w : Workspace) : Prop where
  leads : l.store.Leads l'.store
  placed : l'.Placed
  shown : l'.shown = w

section Reaches

variable {l l' : Ledger} {w : Workspace} {st : Store Value} {i : Nat} {d : Domain Value} {s : Subset Value}

theorem Placed.reaches (h : l.Placed) : Reaches l l l.shown := ⟨.refl _, h, rfl⟩

/-- commands that only make something change nothing about what is shown -/
theorem Reaches.grow (h : Reaches l l' w) (hst : l'.store.Leads st) : Reaches l { l' with store := st } w where
  leads := h.leads.trans hst
  placed := ⟨fun x hx => (h.placed.domains x hx).trans_le hst.domains.length_le,
    fun x hx => (h.placed.subsets x hx).trans_le hst.subsets.length_le⟩
  shown := by
    rw [← h.shown, Ledger.shown, standing_of_prefix hst.domains h.placed.domains,
      standing_of_prefix hst.subsets h.placed.subsets, Ledger.shown]

theorem Reaches.nameDomain (h : Reaches l l' w) (hi : l'.store.domains[i]? = some d) (name : String) :
    Reaches l (l'.nameDomain name i) (w.setDomain name d) where
  leads := h.leads
  placed := ⟨lt_of_bind hi h.placed.domains name, h.placed.subsets⟩
  shown := by
    rw [← h.shown, Ledger.shown, Ledger.nameDomain, standing_bind hi]
    rfl

theorem Reaches.nameSubset (h : Reaches l l' w) (hi : l'.store.subsets[i]? = some s) (name : String) :
    Reaches l (l'.nameSubset name i) (w.setSubset name s) where
  leads := h.leads
  placed := ⟨h.placed.domains, lt_of_bind hi h.placed.subsets name⟩
  shown := by
    rw [← h.shown, Ledger.shown, Ledger.nameSubset, standing_bind hi]
    rfl

end Reaches

/-! ## Names and commands -/

section Steps

variable {l l' : Ledger} {w : Workspace} {i j : Nat} {d e : Domain Value} {s t : Subset Value}
  {c : Store.Command Value}

/-- a domain is found under its name at its place, or not at all -/
theorem Placed.domain (h : l.Placed) (name : String) :
    Paired (fun i d => l.store.domains[i]? = some d) (l.domainPlace name) (l.shown.domain name) := by
  rw [domainPlace, Workspace.domain, shown]
  rcases lookup_standing h.domains name with ⟨hplace, hshown⟩ | ⟨i, d, hplace, hi, hshown⟩
  · rw [hplace, hshown]
    exact .failed _
  · rw [hplace, hshown]
    exact .done hi

theorem Placed.subset (h : l.Placed) (name : String) :
    Paired (fun i s => l.store.subsets[i]? = some s ∧ l.shown.subset name = .ok s) (l.subsetPlace name)
      (l.shown.subset name) := by
  rw [subsetPlace, Workspace.subset, shown]
  rcases lookup_standing h.subsets name with ⟨hplace, hshown⟩ | ⟨i, s, hplace, hi, hshown⟩
  · rw [hplace, hshown]
    exact .failed _
  · rw [hplace, hshown]
    exact .done ⟨hi, rfl⟩

theorem Reaches.makeDomain (h : Reaches l l' w) (hc : l'.store.attempt c = some (l'.store.addDomain d))
    (into : String) : Reaches l (l'.makeDomain into c).1 (w.setDomain into d) := by
  rw [Ledger.makeDomain, hc]
  refine (h.grow ?_).nameDomain (l'.store.getElem?_addDomain d) into
  exact Store.leads_addDomain [c] (Store.step_of_attempt hc)

theorem Reaches.makeSubset (h : Reaches l l' w) (hc : l'.store.attempt c = some (l'.store.addSubset s))
    (into : String) : Reaches l (l'.makeSubset into c).1 (w.setSubset into s) := by
  rw [Ledger.makeSubset, hc]
  refine (h.grow ?_).nameSubset (l'.store.getElem?_addSubset s) into
  exact Store.leads_addSubset [c] (Store.step_of_attempt hc)

theorem Reaches.askDomain (h : Reaches l l' w) (hi : l'.store.domains[i]? = some d) (name : String) :
    Reaches l (l'.askDomain name i) (w.setDomain name d.remember) := by
  rw [Ledger.askDomain, Store.run_ask_domain hi]
  refine (h.grow ⟨⟨_, Store.run_ask_domain hi⟩, List.prefix_append _ _, List.prefix_append _ _⟩).nameDomain ?_ name
  exact (l'.store.addSubset _).getElem?_addDomain d.remember

theorem Reaches.askSubset (h : Reaches l l' w) (hi : l'.store.subsets[i]? = some s) (name : String) :
    Reaches l (l'.askSubset name i) (w.setSubset name s.remember) := by
  rw [Ledger.askSubset, Store.run_ask_subset hi]
  exact (h.grow (Store.leads_addSubset _ (Store.run_ask_subset hi))).nameSubset (l'.store.getElem?_addSubset _) name

theorem makeDomain_of_refused (hc : l.store.attempt c = none) (into : String) :
    l.makeDomain into c = (l, some (l.store.reply c)) := by
  rw [makeDomain, hc]

theorem makeSubset_of_refused (hc : l.store.attempt c = none) (into : String) :
    l.makeSubset into c = (l, some (l.store.reply c)) := by
  rw [makeSubset, hc]

theorem makeDomain_reply (l : Ledger) (into : String) (c : Store.Command Value) :
    (l.makeDomain into c).2 = some (l.store.reply c) := by
  rw [makeDomain]
  split <;> rfl

theorem makeSubset_reply (l : Ledger) (into : String) (c : Store.Command Value) :
    (l.makeSubset into c).2 = some (l.store.reply c) := by
  rw [makeSubset]
  split <;> rfl

/-! ## What becomes of a step -/

/-- a command makes what a step makes, or fails for the reason for which the step fails -/
inductive Makes {γ : Type} (st : Store Value) (add : γ → Store Value) (c : Store.Command Value) :
    Except Failure γ → Prop where
  | made {y : γ} : st.attempt c = some (add y) → st.reply c = .done .done → Makes st add c (.ok y)
  | failed {f : Failure} : st.attempt c = none → (Answer.failed f).reply? = some (st.reply c) →
      Makes st add c (.error f)

theorem makes_checked {γ : Type} {st : Store Value} {add : γ → Store Value} {r : Except Error γ}
    (hc : st.attempt c = r.toOption.map add) (hreply : st.reply c = .ofResult r) : Makes st add c (checked r) := by
  cases r with
  | error e => exact .failed hc (congrArg some hreply.symm)
  | ok y => exact .made hc hreply

/-- the ledger shows the workspace that the step leaves, and the answer tells the reply to the command -/
structure Fits (l : Ledger) (y : Ledger × Option Store.Reply) (x : Workspace × Answer) : Prop where
  reaches : Reaches l y.1 x.1
  reply : ∀ r ∈ y.2, x.2.reply? = some r

/-- a step in a ledger, and in the workspace that it shows -/
inductive Follows (l : Ledger) : Except Failure (Ledger × Option Store.Reply) →
    Except Failure (Workspace × Answer) → Prop where
  /-- a name stands for nothing -/
  | unbound (f : Failure) : Follows l (.error f) (.error f)
  | done {y : Ledger × Option Store.Reply} {x : Workspace × Answer} : Fits l y x → Follows l (.ok y) (.ok x)
  /-- the command fails, and what is shown stays as it is -/
  | refused {y : Ledger × Option Store.Reply} {f : Failure} : Fits l y (l.shown, .failed f) →
      Follows l (.ok y) (.error f)

theorem Follows.of_paired {β γ : Type} {R : β → γ → Prop} {x : Except Failure β} {y : Except Failure γ}
    {f : β → Except Failure (Ledger × Option Store.Reply)} {g : γ → Except Failure (Workspace × Answer)}
    (h : Paired R x y) (hR : ∀ b c, R b c → Follows l (f b) (g c)) : Follows l (x >>= f) (y >>= g) := by
  cases h with
  | failed e => exact .unbound e
  | done hbc => exact hR _ _ hbc

/-- names and questions alone have no reply -/
theorem Reaches.follows {answer : Answer} (h : Reaches l l' w) : Follows l (.ok (l', none)) (.ok (w, answer)) :=
  .done ⟨h, fun _ hr => nomatch hr⟩

theorem Makes.domain (hl : l.Placed) {r : Except Failure (Domain Value)} (h : Makes l.store l.store.addDomain c r)
    (into : String) :
    Follows l (.ok (l.makeDomain into c)) (do return l.shown.makeDomain into (← r)) := by
  cases h with
  | made hc hreply =>
    refine .done ⟨hl.reaches.makeDomain hc into, fun r hr => ?_⟩
    rw [makeDomain_reply, hreply] at hr
    exact hr
  | failed hc hreply =>
    rw [makeDomain_of_refused hc]
    exact .refused ⟨hl.reaches, fun r hr => hreply.trans hr⟩

theorem Makes.subset (hl : l.Placed) {r : Except Failure (Subset Value)} (h : Makes l.store l.store.addSubset c r)
    (into : String) :
    Follows l (.ok (l.makeSubset into c)) (do return l.shown.makeSubset into (← r)) := by
  cases h with
  | made hc hreply =>
    refine .done ⟨hl.reaches.makeSubset hc into, fun r hr => ?_⟩
    rw [makeSubset_reply, hreply] at hr
    exact hr
  | failed hc hreply =>
    rw [makeSubset_of_refused hc]
    exact .refused ⟨hl.reaches, fun r hr => hreply.trans hr⟩

/-- a step that keeps the workspace comes to nothing -/
theorem follows_keeps (hl : l.Placed) {x : Step} (hx : Keeps x) : Follows l (l.attempt x) (l.shown.attempt x) := by
  have hlook : l.attempt x = .ok (l, none) := by
    cases hx with
    | @ask a q hq =>
      cases q with
      | digest => exact absurd rfl hq
      | _ => rfl
    | @compare a b c hc =>
      cases c with
      | same => exact absurd rfl hc
      | _ => rfl
    | _ => rfl
  rw [hlook]
  cases hw : l.shown.attempt x with
  | error f => exact .refused ⟨hl.reaches, fun _ hr => nomatch hr⟩
  | ok y =>
    obtain ⟨w', answer⟩ := y
    rw [attempt_keeps hx hw]
    exact hl.reaches.follows

/-- a recipe is carried out by a command -/
theorem follows_build (hl : l.Placed) (hi : l.store.domains[i]? = some d) (into : String) (r : Recipe) :
    Follows l (do return l.makeSubset into (.build i (← l.shown.recipeOf r)))
      (do return l.shown.makeSubset into (← l.shown.build d r)) := by
  rw [build_eq]
  cases l.shown.recipeOf r with
  | error f => exact .unbound f
  | ok recipe =>
    exact Makes.subset hl (makes_checked (Store.attempt_build hi recipe) (Store.reply_build hi recipe)) into

/-- a subset is brought into another form by a command, unless it stays the same -/
theorem follows_convert (hl : l.Placed) {a : String} (hi : l.store.subsets[i]? = some s)
    (hs : l.shown.subset a = .ok s) (into : String) (c : Conversion) :
    Follows l (.ok (l.convert into i s c)) (l.shown.attempt (.convert into a c)) := by
  have hattempt := fun k => Store.attempt_convert hi k
  have hreply := fun k => Store.reply_convert hi k
  cases c with
  | copy =>
    rw [attempt_convert (r := .ok s) _ hs rfl]
    exact (hl.reaches.nameSubset hi into).follows
  | toCompact =>
    rw [attempt_convert (r := checked s.toCompact) _ hs rfl]
    exact Makes.subset hl (makes_checked (hattempt .toCompact) (hreply .toCompact)) into
  | toGeneral =>
    rw [attempt_convert (r := .ok s.toGeneral) _ hs rfl]
    exact Makes.subset hl (.made (hattempt .toGeneral) (hreply .toGeneral)) into
  | toAuto =>
    rw [attempt_convert (r := .ok s.toAuto) _ hs rfl]
    exact Makes.subset hl (.made (hattempt .toAuto) (hreply .toAuto)) into
  | asHeld wanted =>
    have hattempt := hattempt (.ofStrategy wanted)
    have hreply := hreply (.ofStrategy wanted)
    rw [Store.Conversion.apply] at hattempt
    rw [Store.Conversion.reply] at hreply
    cases hw : s.ofStrategy? wanted with
    | none =>
      rw [hw] at hattempt hreply
      rw [attempt_convert_not_held _ hs (by rw [Workspace.convert, hw]), convert, makeSubset_of_refused hattempt,
        hreply]
      exact .done ⟨hl.reaches, fun r hr => hr⟩
    | some t =>
      rw [hw] at hattempt hreply
      rw [attempt_convert (r := .ok t) _ hs (by rw [Workspace.convert, hw]; rfl)]
      exact Makes.subset hl (.made hattempt hreply) into
  | reload c =>
    rw [attempt_convert (r := ((Persisted.Document.ofSubset s).read c).mapError .unreadable) _ hs rfl]
    refine Makes.subset hl ?_ into
    cases hr : (Persisted.Document.ofSubset s).read c with
    | error why => exact .failed (by rw [Store.attempt, hr]; rfl) (by rw [Store.reply, hr]; rfl)
    | ok t => exact .made (by rw [Store.attempt, hr]; rfl) (by rw [Store.reply, hr]; rfl)

/-- a change that has nothing to say makes what it makes -/
theorem makes_derive (hi : l.store.subsets[i]? = some s) {c : Change Value Value}
    (hdone : ∀ {t : Subset Value} {r : Outcome}, c.apply s = .ok (t, r) → r = .done) :
    Makes l.store l.store.addSubset (.derive i ⟨c⟩) (checked ((c.apply s).map (·.1))) := by
  have hattempt := Store.attempt_derive hi c
  have hreply := Store.reply_derive hi c
  cases hc : c.apply s with
  | error e =>
    rw [hc] at hattempt hreply
    exact .failed hattempt (congrArg some hreply.symm)
  | ok x =>
    obtain ⟨t, r⟩ := x
    obtain rfl := hdone hc
    rw [hc] at hattempt hreply
    exact .made hattempt hreply

/-- a change in place is derived; where it fails, the name stands for what it stood for -/
theorem follows_change (hl : l.Placed) (hi : l.store.subsets[i]? = some s) (a : String) (c : Change Value Value) :
    Follows l (.ok ((l.nameSubset a i).makeSubset a (.derive i ⟨c⟩)))
      (.ok (l.shown.setSubset a (s.step c).1, .changed (s.step c).2 (state (s.step c).1))) := by
  have hnamed := hl.reaches.nameSubset hi a
  have hnext : (l.nameSubset a i).store.subsets[i]? = some s := hi
  have hattempt := Store.attempt_derive hnext c
  have hreply := Store.reply_derive hnext c
  rw [Subset.step]
  cases hc : c.apply s with
  | error e =>
    rw [hc] at hattempt hreply
    rw [makeSubset_of_refused hattempt, hreply]
    exact .done ⟨hnamed, fun r hr => hr⟩
  | ok x =>
    rw [hc] at hattempt hreply
    refine .done ⟨?_, ?_⟩
    · rw [← setSubset_setSubset _ a s]
      exact hnamed.makeSubset hattempt a
    · rw [makeSubset_reply, hreply]
      exact fun r hr => hr

/-- every step comes to the same in the ledger and in the workspace that it shows -/
theorem attempt_follows (hl : l.Placed) (x : Step) : Follows l (l.attempt x) (l.shown.attempt x) := by
  cases x with
  | domain into es => exact Makes.domain hl (makes_checked rfl rfl) into
  | domainOfOptions into es => exact Makes.domain hl (makes_checked rfl rfl) into
  | domainCopy into d =>
    exact .of_paired (hl.domain d) fun i d hi => (hl.reaches.nameDomain hi into).follows
  | domainOf into a =>
    refine .of_paired (hl.subset a) fun i s hi => ?_
    exact Makes.domain hl (r := .ok s.domain) (.made (Store.attempt_domainOf hi.1) (Store.reply_domainOf hi.1)) into
  | fingerprints d e =>
    refine .of_paired (hl.domain d) fun i y hi => .of_paired (hl.domain e) fun j z hj => ?_
    have hd := hl.reaches.askDomain hi d
    exact (hd.askDomain (hd.leads.domain hj) e).follows
  | build into d r => exact .of_paired (hl.domain d) fun i d hi => follows_build hl hi into r
  | ofDistinct into es => exact Makes.subset hl (makes_checked rfl rfl) into
  | convert into a c =>
    refine .of_paired (hl.subset a) fun i s hi => ?_
    have hc := follows_convert hl hi.1 hi.2 into c
    rw [Workspace.attempt, hi.2] at hc
    rw [hi.2]
    exact hc
  | derive into a x =>
    change Follows l (l.shown.changeOf x >>= _) (l.shown.changeOf x >>= _)
    cases hc : l.shown.changeOf x with
    | error f => exact .unbound f
    | ok c =>
      change Follows l (l.subsetPlace a >>= _) (l.shown.subset a >>= _)
      refine .of_paired (hl.subset a) fun i s hi => ?_
      have hmade := Makes.subset hl (makes_derive hi.1 fun h => outcome_of_changeOf hc h) into
      generalize c.apply s = y at hmade ⊢
      cases y <;> exact hmade
  | semijoin into a b r =>
    rw [attempt_semijoin]
    refine .of_paired (hl.subset a) fun i s hi => ?_
    cases hb : l.shown.subset b with
    | error f => exact .unbound f
    | ok t =>
      have hkept := Store.attempt_derive hi.1 (.semijoin t r.holds)
      refine .done ⟨hl.reaches.makeSubset hkept into, ?_⟩
      rw [makeSubset_reply, Store.reply_derive hi.1]
      exact fun r hr => hr
  | change a c =>
    refine .of_paired (hl.subset a) fun i s hi => ?_
    exact follows_change hl hi.1 a c
  | ask a q =>
    by_cases hq : q = .digest
    · subst hq
      exact .of_paired (hl.subset a) fun i s hi => (hl.reaches.askSubset hi.1 a).follows
    · exact follows_keeps hl (.ask a hq)
  | compare a b c =>
    by_cases hc : c = .same
    · subst hc
      refine .of_paired (hl.subset a) fun i s hi => .of_paired (hl.subset b) fun j t hj => ?_
      have ha := hl.reaches.askSubset hi.1 a
      exact (ha.askSubset (ha.leads.subset hj.1) b).follows
    · exact follows_keeps hl (.compare a b hc)
  | domainInfo d => exact follows_keeps hl (.domainInfo d)
  | domainGet d i => exact follows_keeps hl (.domainGet d i)
  | domainAt d i => exact follows_keeps hl (.domainAt d i)
  | domainIndexOf d e => exact follows_keeps hl (.domainIndexOf d e)
  | domainContains d e => exact follows_keeps hl (.domainContains d e)
  | domainSame d e => exact follows_keeps hl (.domainSame d e)
  | describe src => exact follows_keeps hl (.describe src)

theorem step_fits (hl : l.Placed) (x : Step) : Fits l (l.step x) (l.shown.step x) := by
  have hx := attempt_follows hl x
  unfold step Workspace.step
  generalize l.attempt x = y at hx
  generalize l.shown.attempt x = z at hx
  cases hx with
  | unbound f => exact ⟨hl.reaches, fun _ hr => nomatch hr⟩
  | done h => exact h
  | refused h => exact h

/-- a session is a run of its ledger -/
theorem run_fits (hl : l.Placed) (steps : List Step) :
    Reaches l (l.run steps).1 (l.shown.run steps).1 ∧
      List.Forall₂ (fun reply answer => ∀ r ∈ reply, answer.reply? = some r) (l.run steps).2 (l.shown.run steps).2 := by
  induction steps generalizing l with
  | nil => exact ⟨hl.reaches, .nil⟩
  | cons x steps ih =>
    have hx := step_fits hl x
    obtain ⟨hreaches, hreplies⟩ := ih hx.reaches.placed
    rw [hx.reaches.shown] at hreaches hreplies
    exact ⟨⟨hx.reaches.leads.trans hreaches.leads, hreaches.placed, hreaches.shown⟩, .cons hx.reply hreplies⟩

theorem Placed.mem_of_domain (h : l.Placed) {name : String} (hd : l.shown.domain name = .ok d) :
    d ∈ l.store.domains := by
  have hfound := h.domain name
  rw [hd] at hfound
  generalize l.domainPlace name = place at hfound
  cases hfound with
  | done hi => exact List.mem_of_getElem? hi

theorem Placed.mem_of_subset (h : l.Placed) {name : String} (hs : l.shown.subset name = .ok s) :
    s ∈ l.store.subsets := by
  have hfound := h.subset name
  rw [hs] at hfound
  generalize l.subsetPlace name = place at hfound
  cases hfound with
  | done hi => exact List.mem_of_getElem? hi.1

end Steps

theorem placed_empty : ({} : Ledger).Placed :=
  ⟨fun _ hx => (List.not_mem_nil hx).elim, fun _ hx => (List.not_mem_nil hx).elim⟩

end Ledger

/-! ## Sessions from nothing -/

section Sessions

variable (steps : List Step)

theorem reaches_session : Ledger.Reaches {} (({} : Ledger).run steps).1 (({} : Workspace).run steps).1 :=
  (Ledger.run_fits Ledger.placed_empty steps).1

/-- **A session is a run of a store.** At its end the workspace is what its ledger shows, and the store of the ledger is
at the end of a run of commands. -/
theorem session_shown :
    (({} : Ledger).run steps).1.shown = (({} : Workspace).run steps).1 ∧
      ∃ cs, Store.run {} cs = (({} : Ledger).run steps).1.store :=
  ⟨(reaches_session steps).shown, (reaches_session steps).leads.run⟩

/-- every answer tells the reply to the command that its step came to -/
theorem answers_tell_replies :
    List.Forall₂ (fun reply answer => ∀ r ∈ reply, answer.reply? = some r) (({} : Ledger).run steps).2
      (answers steps) :=
  (Ledger.run_fits Ledger.placed_empty steps).2

variable {steps}

/-- what holds of every domain in every run of a store holds of those of every session -/
theorem domain_of_runs {P : Domain Value → Prop} (hP : ∀ cs, ∀ d ∈ (Store.run {} cs).domains, P d) {name : String}
    {d : Domain Value} (hd : (({} : Workspace).run steps).1.domain name = .ok d) : P d := by
  have hreaches := reaches_session steps
  obtain ⟨cs, hcs⟩ := hreaches.leads.run
  rw [← hreaches.shown] at hd
  exact hP cs d (hcs ▸ hreaches.placed.mem_of_domain hd)

/-- what holds of every subset in every run of a store holds of those of every session -/
theorem subset_of_runs {P : Subset Value → Prop} (hP : ∀ cs, ∀ s ∈ (Store.run {} cs).subsets, P s) {name : String}
    {s : Subset Value} (hs : (({} : Workspace).run steps).1.subset name = .ok s) : P s := by
  have hreaches := reaches_session steps
  obtain ⟨cs, hcs⟩ := hreaches.leads.run
  rw [← hreaches.shown] at hs
  exact hP cs s (hcs ▸ hreaches.placed.mem_of_subset hs)

/-- at any point of any session everything that is bound is in order -/
theorem bound_sound (steps : List Step) :
    (∀ name d, (({} : Workspace).run steps).1.domain name = .ok d → d.Indexed) ∧
      ∀ name s, (({} : Workspace).run steps).1.subset name = .ok s → s.Sound :=
  ⟨fun _ _ => domain_of_runs fun cs => (Store.sound_of_run Store.sound_empty cs).domains,
    fun _ _ => subset_of_runs fun cs => (Store.sound_of_run Store.sound_empty cs).subsets⟩

end Sessions

end Session

end SubsetAlgebra
