/-
Runs in which fingerprints are asked for now and then.

Between the commands of a run fingerprints may be asked for, of any domains and subsets and by way of whatever shares
them, and the arguments of the commands may remember theirs or not. The caller is told the same as in the run of the
commands alone (`told_eq`): each command commutes with asking for everything beforehand (`attempt_remember`), so stores
that differ in what is remembered and in nothing else go on doing so. Whatever is asked of their domains and subsets is
answered alike, and whatever is done with them comes to the same (`Domain.Unmoved`, `Subset.Unmoved`).

With what holds of handles, copies and slots after any history this says that the equality of domains does not depend on
which fingerprints are remembered (`equality_ignores_fingerprints`).
-/
import SubsetAlgebra.Proofs.Fingerprints
import SubsetAlgebra.Proofs.Remembering
import SubsetAlgebra.Proofs.TwoRuns

namespace SubsetAlgebra

variable {α : Type} [Element α]

/-! ## Ways of building and conversions -/

namespace Store

def Recipe.remember : Recipe α → Recipe α
  | ofOperand c o => ofOperand c o.remember
  | r => r

theorem Recipe.build_remember (d : Domain α) (r : Recipe α) :
    r.remember.build d.remember = (r.build d).map Subset.remember := by
  cases r with
  | empty c => exact Subset.empty_remember c d
  | emptyUnder c => exact Subset.emptyUnder_remember c d
  | full c => exact Subset.full_remember c d
  | singleton c e => exact Subset.singleton_remember c d e
  | ofList c es => exact Subset.ofList_remember c d es
  | ofOperand c o => exact Subset.ofOperand_remember c d o
  | ofWord w => exact Subset.ofWord_remember d w

theorem Conversion.apply_remember (k : Conversion) (s : Subset α) :
    k.apply s.remember = (k.apply s).map Subset.remember := by
  cases k with
  | toCompact =>
    simp only [apply, s.toCompact_remember]
    cases s.toCompact <;> rfl
  | toGeneral => exact congrArg some s.toGeneral_remember
  | toAuto => rfl
  | ofStrategy wanted => exact s.ofStrategy?_remember wanted

/-! ## Commands -/

/-- the same command, every fingerprint among its arguments remembered -/
def Command.asked : Command α → Command α
  | build d r => build d r.remember
  | derive a c => derive a ⟨c.change.remember⟩
  | change a c => change a ⟨c.change.remember⟩
  | c => c

/-- the same store, every fingerprint remembered -/
def remember (st : Store α) : Store α := ⟨st.domains.map Domain.remember, st.subsets.map Subset.remember⟩

@[simp] theorem remember_remember (st : Store α) : st.remember.remember = st.remember := by
  simp [remember, Function.comp_def]

theorem addDomain_remember (st : Store α) (d : Domain α) :
    (st.addDomain d).remember = st.remember.addDomain d.remember := by
  simp [addDomain, remember]

theorem addSubset_remember (st : Store α) (s : Subset α) :
    (st.addSubset s).remember = st.remember.addSubset s.remember := by
  simp [addSubset, remember]

theorem setSubset_remember (a : Nat) (st : Store α) (s : Subset α) :
    (st.setSubset a s).remember = st.remember.setSubset a s.remember := by
  simp [setSubset, remember, List.map_set]

/-- what is put into a store is the same up to what is remembered, so the stores are -/
theorem map_put {γ : Type} {f : γ → γ} {put : Store α → γ → Store α}
    (hput : ∀ st y, (put st y).remember = put st.remember (f y)) (st : Store α) {x x' : Option γ}
    (hx : x'.map f = x.map f) : (x'.map (put st.remember)).map remember = (x.map (put st)).map remember := by
  have hmap : ∀ (st : Store α) (x : Option γ), (x.map (put st)).map remember = (x.map f).map (put st.remember) := by
    intro st x
    cases x with
    | none => rfl
    | some y => exact congrArg some (hput st y)
  rw [hmap, hmap, hx, remember_remember]

theorem getElem?_subsets_remember (st : Store α) (a : Nat) :
    st.remember.subsets[a]? = st.subsets[a]?.map Subset.remember :=
  List.getElem?_map

theorem toOption_remember {γ : Type} {f : γ → γ} (hf : ∀ y, f (f y) = f y) (r : Except Error γ) :
    (r.map f).toOption.map f = r.toOption.map f := by
  cases r with
  | error e => rfl
  | ok y => exact congrArg some (hf y)

theorem Reply.ofResult_map {γ δ : Type} (f : γ → δ) (r : Except Error γ) : ofResult (r.map f) = ofResult r := by
  cases r <;> rfl

theorem Reply.ofChange_map {γ δ : Type} (f : γ → δ) (r : Except Error (γ × Outcome)) :
    ofChange (r.map (Prod.map f id)) = ofChange r := by
  cases r <;> rfl

theorem Conversion.reply_remember (k : Conversion) (s : Subset α) : k.reply s.remember = k.reply s := by
  cases k with
  | toCompact => simp only [reply, s.toCompact_remember, Reply.ofResult_map]
  | toGeneral | toAuto => rfl
  | ofStrategy wanted =>
    simp only [reply, s.ofStrategy?_remember]
    cases s.ofStrategy? wanted <;> rfl

/-- what becomes of the subset at a place by a change -/
theorem changed_remember (st : Store α) (a : Nat) (c : Subset.AnyChange α) :
    Reply.ofOption (fun s => .ofChange (c.change.remember.apply s)) st.remember.subsets[a]? =
      Reply.ofOption (fun s => .ofChange (c.change.apply s)) st.subsets[a]? ∧
    (st.remember.changed a ⟨c.change.remember⟩).map Subset.remember = (st.changed a c).map Subset.remember := by
  simp only [changed, getElem?_subsets_remember]
  cases st.subsets[a]? with
  | none => exact ⟨rfl, rfl⟩
  | some s =>
    simp only [Option.map_some, Option.bind_some, Reply.ofOption, c.change.apply_remember s, Reply.ofChange_map,
      true_and]
    cases c.change.apply s with
    | error e => rfl
    | ok x => exact congrArg some x.1.remember_remember

/-- a command is answered alike, and leaves stores that differ in what is remembered and in nothing else -/
theorem attempt_remember (st : Store α) (c : Command α) :
    st.remember.reply c.asked = st.reply c ∧
    (st.remember.attempt c.asked).map remember = (st.attempt c).map remember := by
  cases c with
  | domain es | domainOfOptions es | domainOfText text => exact ⟨rfl, map_put addDomain_remember st rfl⟩
  | ofDistinct es | read c doc | readText c text => exact ⟨rfl, map_put addSubset_remember st rfl⟩
  | domainOf a =>
    simp only [Command.asked, reply, attempt, getElem?_subsets_remember]
    cases st.subsets[a]? with
    | none => exact ⟨rfl, rfl⟩
    | some s =>
      refine ⟨rfl, map_put addDomain_remember st ?_⟩
      simp only [Option.map_some, Subset.remember_domain, Domain.remember_remember]
  | build d r =>
    have hfind : st.remember.domains[d]? = st.domains[d]?.map Domain.remember := List.getElem?_map
    simp only [Command.asked, reply, attempt, hfind]
    cases st.domains[d]? with
    | none => exact ⟨rfl, rfl⟩
    | some d =>
      simp only [Option.map_some, Option.bind_some, Reply.ofOption, r.build_remember d, Reply.ofResult_map, true_and]
      exact map_put addSubset_remember st (toOption_remember Subset.remember_remember _)
  | convert a k =>
    simp only [Command.asked, reply, attempt, getElem?_subsets_remember]
    cases st.subsets[a]? with
    | none => exact ⟨rfl, rfl⟩
    | some s =>
      simp only [Option.map_some, Option.bind_some, Reply.ofOption, k.reply_remember s, k.apply_remember s, true_and]
      refine map_put addSubset_remember st ?_
      simp [Function.comp_def]
  | derive a c => exact ⟨(st.changed_remember a c).1, map_put addSubset_remember st (st.changed_remember a c).2⟩
  | change a c => exact ⟨(st.changed_remember a c).1, map_put (setSubset_remember a) st (st.changed_remember a c).2⟩
  | remember a =>
    simp only [Command.asked, reply, attempt, getElem?_subsets_remember]
    cases st.subsets[a]? with
    | none => exact ⟨rfl, rfl⟩
    | some s =>
      refine ⟨rfl, map_put (setSubset_remember a) st ?_⟩
      exact congrArg (fun t : Subset α => some t.remember) s.remember_remember

theorem step_remember (st : Store α) (c : Command α) : (st.remember.step c.asked).remember = (st.step c).remember := by
  have h := (st.attempt_remember c).2
  unfold step
  cases hx : st.remember.attempt c.asked with
  | none =>
    cases hy : st.attempt c with
    | none => exact st.remember_remember
    | some y => rw [hx, hy] at h; cases h
  | some x =>
    cases hy : st.attempt c with
    | none => rw [hx, hy] at h; cases h
    | some y =>
      rw [hx, hy] at h
      exact Option.some.inj h

/-! ## Runs in which fingerprints are asked for -/

theorem map_mapIdx_ite {γ : Type} {f : γ → γ} (hf : ∀ y, f (f y) = f y) (p : Nat → Prop) [DecidablePred p]
    (ys : List γ) :
    (ys.mapIdx fun i y => if p i then f y else y).map f = ys.map f := by
  refine List.ext_getElem (by simp) fun i h h' => ?_
  simp only [List.getElem_map, List.getElem_mapIdx]
  split
  · exact hf _
  · rfl

theorem ask_remember (st : Store α) (ds as : List Nat) : (st.ask ds as).remember = st.remember := by
  simp only [remember, ask, map_mapIdx_ite Domain.remember_remember, map_mapIdx_ite Subset.remember_remember]

/-- whether and when fingerprints are asked for, the caller is told the same and the stores go on alike -/
theorem told_eq {st st' : Store α} (h : st.remember = st'.remember) {es : List (Event α)} {cs : List (Command α)}
    (hcs : List.Forall₂ (fun c c' => c.asked = c'.asked) (commands es) cs) :
    st.told es = st'.replies cs ∧ (st.after es).remember = (st'.run cs).remember := by
  induction es generalizing st st' cs with
  | nil =>
    cases hcs
    exact ⟨rfl, h⟩
  | cons event es ih =>
    cases event with
    | ask ds as => exact ih ((st.ask_remember ds as).trans h) hcs
    | command c =>
      obtain ⟨c', cs, hc, hrest, rfl⟩ := List.forall₂_cons_left_iff.1 hcs
      have hreply : st.reply c = st'.reply c' := by
        rw [← (st.attempt_remember c).1, ← (st'.attempt_remember c').1, h, hc]
      have hstep : (st.step c).remember = (st'.step c').remember := by
        rw [← st.step_remember c, ← st'.step_remember c', h, hc]
      obtain ⟨htold, hafter⟩ := ih hstep hrest
      exact ⟨congrArg₂ List.cons hreply htold, hafter⟩

end Store

/-! ## What is asked of domains and subsets -/

/-- nothing that is asked of a domain tells it from another -/
structure Domain.Unmoved (d e : Domain α) : Prop where
  elements : d.elements = e.elements
  size : d.size = e.size
  get : d.get = e.get
  indexOf : d.indexOf = e.indexOf
  contains : d.contains = e.contains
  fitsWord : d.fitsWord = e.fitsWord
  fullWord : d.fullWord = e.fullWord
  fingerprint : d.fingerprint = e.fingerprint
  same : ∀ x y : Domain α, x.remember = y.remember → d.same x = e.same y
  layout : ∀ [Presented α], d.layout = e.layout
  tree : ∀ [Presented α], d.tree = e.tree

theorem Domain.unmoved {d e : Domain α} (h : d.remember = e.remember) : d.Unmoved e := by
  have hfingerprint : d.fingerprint = e.fingerprint := by
    rw [fingerprint_eq, fingerprint_eq, remember_eq_iff.1 h]
  have hsame : ∀ x y : Domain α, x.remember = y.remember → d.same x = e.same y := by
    intro x y hxy
    rw [← d.remember_same_remember x, ← e.remember_same_remember y, h, hxy]
  have helements := remember_eq_iff.1 h
  obtain ⟨es, _, _, _⟩ := d
  obtain ⟨es', _, _, _⟩ := e
  cases helements
  exact ⟨rfl, rfl, rfl, rfl, rfl, rfl, rfl, hfingerprint, hsame, rfl, rfl⟩

namespace Subset

/-- nothing that is asked of a subset, and nothing that is done with it, tells it from another -/
structure Unmoved (s t : Subset α) : Prop where
  domain : s.domain.Unmoved t.domain
  agree : Agree s t
  strategy : s.strategy = t.strategy
  choice : s.choice = t.choice
  word? : s.word? = t.word?
  toMembers : s.toMembers = t.toMembers
  apply : ∀ {β : Type} [Element β] (c c' : Change α β), c.remember = c'.remember →
    (c.apply s).map (Prod.map remember id) = (c'.apply t).map (Prod.map remember id)
  semijoinM : ∀ {m : Type → Type} [Monad m] [LawfulMonad m] {β : Type} [Element β] (u u' : Subset β)
    (related : α → β → m Bool), u.remember = u'.remember →
    remember <$> s.semijoinM u related = remember <$> t.semijoinM u' related

section Unmoved

variable {s t : Subset α}

theorem domain_of_remember (h : s.remember = t.remember) : s.domain.remember = t.domain.remember := by
  rw [← s.remember_domain, ← t.remember_domain, h]

theorem choice_of_remember (h : s.remember = t.remember) : s.choice = t.choice := by
  rw [← s.remember_choice, ← t.remember_choice, h]

theorem same_of_remember (h : s.remember = t.remember) : s.same t = true := by
  have ht := t.remember_same
  rw [← h] at ht
  exact same_trans (same_symm s.remember_same) ht

theorem agree_of_remember (h : s.remember = t.remember) : Agree s t := by
  have hs := same_of_remember h
  have helements := Domain.remember_eq_iff.1 (domain_of_remember h)
  have hlist : s.toList = t.toList := by rw [← s.remember_toList, ← t.remember_toList, h]
  exact {
    size := size_of_same hs
    isEmpty := isEmpty_of_same hs
    isFull := isFull_of_same hs
    contains := fun e => contains_of_same hs BEq.rfl
    containsPosition := containsPosition_of_same hs
    positions := positions_of_same hs
    toList := hlist
    indexed := by rw [indexed, indexed, helements, positions_of_same hs]
    toWord := toWord_of_same hs
    toMask := toMask_of_same hs
    toBits := toBits_of_same hs
    toMembers := by
      rw [Members.same_iff]
      intro e
      rw [contains_toMembers, contains_toMembers, contains_of_same hs BEq.rfl]
    digest := digest_eq_of_same hs
    isSubsetOf := fun u => isSubsetOf_congr hs (same_refl u)
    isSupersetOf := fun u => isSubsetOf_congr (same_refl u) hs
    sameDomain := fun u => sameDomain_congr hs (same_refl u)
    sameElements := fun u => sameElements_congr hs (same_refl u)
    same := fun u => same_congr hs (same_refl u)
    same_right := fun u => same_congr (same_refl u) hs
    selection := fun d => by
      rw [(Operand.subset_lists s).selection_eq, (Operand.subset_lists t).selection_eq, hlist]
    product := fun u => by rw [product, product, hlist]
    product_right := fun u => by rw [product, product, hlist]
    productM := fun u visit => by rw [productM, productM, hlist]
    semijoin_right := fun u related => by rw [Subset.semijoinM, Subset.semijoinM, hlist]
    display := by simp only [Subset.display, hlist, implies_true]
    layout := by simp only [Subset.layout, hlist, implies_true]
    tree := by simp only [Subset.tree, Domain.tree, helements, hlist, implies_true]
    document := by rw [Persisted.Document.ofSubset, Persisted.Document.ofSubset, helements, hlist] }

theorem unmoved (h : s.remember = t.remember) : s.Unmoved t where
  domain := Domain.unmoved (domain_of_remember h)
  agree := agree_of_remember h
  strategy := by rw [← s.remember_strategy, ← t.remember_strategy, h]
  choice := choice_of_remember h
  word? := by rw [word?_eq, word?_eq, choice_of_remember h, toWord_of_same (same_of_remember h)]
  toMembers := by rw [← s.remember_toMembers, ← t.remember_toMembers, h]
  apply c c' hc := by rw [← c.apply_remember s, ← c'.apply_remember t, h, hc]
  semijoinM u u' related hu := by rw [← s.semijoinM_remember u related, ← t.semijoinM_remember u' related, h, hu]

end Unmoved

end Subset

/-! ## Main result -/

namespace Domain

/-- what a run with questions for fingerprints shows of itself is what a run of its commands shows, with arguments that
remember the same or not -/
structure Unasked (es : List (Store.Event α)) (cs : List (Store.Command α)) : Prop where
  told : Store.told {} es = Store.replies {} cs
  domains : List.Forall₂ Unmoved (Store.after {} es).domains (Store.run {} cs).domains
  subsets : List.Forall₂ Subset.Unmoved (Store.after {} es).subsets (Store.run {} cs).subsets

theorem forall₂_of_map_eq {γ δ : Type} {f : γ → δ} {xs ys : List γ} (h : xs.map f = ys.map f) :
    List.Forall₂ (fun x y => f x = f y) xs ys := by
  rw [← List.forall₂_map_right_iff, ← List.forall₂_map_left_iff, h]
  exact List.forall₂_refl _

theorem unasked {es : List (Store.Event α)} {cs : List (Store.Command α)}
    (h : List.Forall₂ (fun c c' => c.asked = c'.asked) (Store.commands es) cs) : Unasked es cs := by
  have hempty : ({} : Store α).remember = ({} : Store α).remember := rfl
  obtain ⟨htold, hafter⟩ := Store.told_eq hempty h
  refine ⟨htold, ?_, ?_⟩
  · exact (forall₂_of_map_eq (congrArg Store.domains hafter)).imp fun _ _ => unmoved
  · exact (forall₂_of_map_eq (congrArg Store.subsets hafter)).imp fun _ _ => Subset.unmoved

/-- **Equality does not depend on what is remembered.** After any history of making, copying, asking and comparing, a
filled slot has the value that would be computed anew, and two handles compare as equal iff equal elements stand at the
same positions; domains are equal iff their cells are. Equality is an equivalence, and equal domains have equal
fingerprints. No command of any run is answered otherwise, and nothing is found otherwise at its end, because
fingerprints have been asked for. -/
theorem equality_ignores_fingerprints :
    (∀ (hash : Fingerprint → UInt64) (calls : List (Memory.Call α)), (Memory.run hash [] calls).Trusty hash) ∧
    (∀ (hash : Fingerprint → UInt64) (a b : Domain α), (a.cell hash).same (b.cell hash) = a.same b) ∧
    (∀ a b : Domain α, a.same b = true ↔ List.Forall₂ (fun x y => (x == y) = true) a.elements b.elements) ∧
    Equivalence (fun a b : Domain α => a.same b = true) ∧
    (∀ a b : Domain α, a.same b = true → a.fingerprint = b.fingerprint) ∧
    ∀ (es : List (Store.Event α)) (cs : List (Store.Command α)),
      List.Forall₂ (fun c c' => c.asked = c'.asked) (Store.commands es) cs → Unasked es cs := by
  refine ⟨Memory.run_trusty, fun _ => cell_same, fun a b => ?_, ⟨same_refl, same_symm, same_trans⟩,
    fun _ _ => fingerprint_eq_of_same, fun _ _ => unasked⟩
  rw [same_iff, beq_iff_forall₂]

end Domain

end SubsetAlgebra
