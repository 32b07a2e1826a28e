/-
Two runs side by side, with equal arguments that differ in their representatives.

A run is a list of commands to a store, and a second run is kin to it if each of its commands is of the same kind and
its arguments are kin: the same domains, and equal elements, lists, sets and subsets, by other representatives and where
they are used as sets in another order. What the caller is told of each command (`Store.reply`) is then the same in both
runs, and the stores go on with the same domains and with twins in the place of each subset (`step_kin`, and `run_kin`
by induction). So nothing that is shown, counted, written or called back in the one run differs from the other
(`representatives_do_not_leak`); the members that a general subset hands out do (`folded_members_differ`).
-/
import SubsetAlgebra.Proofs.Acceptance
import SubsetAlgebra.Proofs.Constructors
import SubsetAlgebra.Value

namespace SubsetAlgebra

open Persisted (Document)
open Subset (Indistinct Twins TwinsWith)

variable {α : Type} [Element α]

namespace Store

/-! ## Kin commands -/

/-- one way of building with kin arguments -/
inductive Recipe.Kin : Recipe α → Recipe α → Prop where
  | empty (c : Choice) : Kin (.empty c) (.empty c)
  | emptyUnder (c : Choice) : Kin (.emptyUnder c) (.emptyUnder c)
  | full (c : Choice) : Kin (.full c) (.full c)
  | singleton (c : Choice) {e e' : α} : (e == e') = true → Kin (.singleton c e) (.singleton c e')
  | ofList (c : Choice) {es es' : List α} : Coextensive es es' → Kin (.ofList c es) (.ofList c es')
  | ofOperand (c : Choice) {o o' : Operand α} : o.Kin o' → Kin (.ofOperand c o) (.ofOperand c o')
  | ofWord (w : UInt64) : Kin (.ofWord w) (.ofWord w)

/-- commands of one kind to the same places with kin arguments; new domains are made of the same elements -/
inductive Command.Kin : Command α → Command α → Prop where
  | domain (es : List α) : Kin (.domain es) (.domain es)
  | domainOfOptions (es : List (Option α)) : Kin (.domainOfOptions es) (.domainOfOptions es)
  | domainOfText [Persisted.Readable α] (text : String) : Kin (.domainOfText text) (.domainOfText text)
  | domainOf (a : Nat) : Kin (.domainOf a) (.domainOf a)
  | build (d : Nat) {r r' : Recipe α} : r.Kin r' → Kin (.build d r) (.build d r')
  | ofDistinct (es : List α) : Kin (.ofDistinct es) (.ofDistinct es)
  | read (c : Choice) (doc : Document α) : Kin (.read c doc) (.read c doc)
  /-- in any layout, the members in any order and by any representatives -/
  | readLists (c : Choice) {L M M' : List α} {doc doc' : Document α} : Coextensive M M' → doc.Holds L M →
    doc'.Holds L M' → Kin (.read c doc) (.read c doc')
  | readText [Persisted.Readable α] (c : Choice) (text : String) : Kin (.readText c text) (.readText c text)
  | convert (a : Nat) (k : Conversion) : Kin (.convert a k) (.convert a k)
  | derive (a : Nat) {β : Type} [Element β] {c c' : Change α β} : c.Kin c' → Kin (.derive a ⟨c⟩) (.derive a ⟨c'⟩)
  | change (a : Nat) {β : Type} [Element β] {c c' : Change α β} : c.Kin c' → Kin (.change a ⟨c⟩) (.change a ⟨c'⟩)
  | remember (a : Nat) : Kin (.remember a) (.remember a)

/-! ## Answers of kin commands -/

theorem parallel_refl (r : Except Error (Subset α)) : Parallel Twins r r := by
  cases r with
  | error e => exact .failed e
  | ok s => exact .done (.refl s)

theorem Recipe.Kin.parallel {r r' : Recipe α} (h : r.Kin r') (d : Domain α) :
    Parallel Twins (r.build d) (r'.build d) := by
  have first : ∀ {γ : Type} {x y : Except Error (Subset α × γ)}, Parallel TwinsWith x y →
      Parallel Twins (x.map (·.1)) (y.map (·.1)) := fun hxy => hxy.map fun _ _ h => h.1
  cases h with
  | empty c => exact parallel_refl _
  | emptyUnder c => exact parallel_refl _
  | full c => exact parallel_refl _
  | ofWord w => exact parallel_refl _
  | singleton c he =>
    simp only [Recipe.build, Subset.singleton]
    cases Subset.empty c d with
    | error e => exact .failed e
    | ok s => exact first (Subset.insert_kin (.refl s) he)
  | ofList c hes =>
    simp only [Recipe.build, Subset.ofList]
    cases Subset.empty c d with
    | error e => exact .failed e
    | ok s => exact first (Subset.extend_kin (.refl s) hes)
  | @ofOperand c o o' ho =>
    exact (Subset.ofOperand_founds c d o).parallel (Subset.ofOperand_founds c d o') (ho.interchangeable d)

/-- the caller is told the same, and gets twins or nothing -/
structure Answered (told told' : Reply) (x x' : Option (Subset α)) : Prop where
  told : told = told'
  made : Option.Rel Twins x x'

theorem rel_cases {γ : Type} {R : γ → γ → Prop} {x x' : Option γ} (h : Option.Rel R x x') :
    x = none ∧ x' = none ∨ ∃ b b', x = some b ∧ x' = some b' ∧ R b b' := by
  cases h with
  | none => exact .inl ⟨rfl, rfl⟩
  | some hR => exact .inr ⟨_, _, rfl, rfl, hR⟩

theorem rel_refl (x : Option (Subset α)) : Option.Rel Twins x x := by
  cases x with
  | none => exact .none
  | some s => exact .some (.refl s)

theorem answered_of_parallel {r r' : Except Error (Subset α)} (h : Parallel Twins r r') :
    Answered (.ofResult r) (.ofResult r') r.toOption r'.toOption := by
  cases h with
  | failed e => exact ⟨rfl, .none⟩
  | done hst => exact ⟨rfl, .some hst⟩

theorem answered_of_change {r r' : Except Error (Subset α × Outcome)} (h : Parallel TwinsWith r r') :
    Answered (.ofChange r) (.ofChange r') (r.toOption.map (·.1)) (r'.toOption.map (·.1)) := by
  cases h with
  | failed e => exact ⟨rfl, .none⟩
  | done hst => exact ⟨congrArg Reply.done hst.2, .some hst.1⟩

/-- what is done with what stands at one place of both stores -/
theorem answered_bind {γ : Type} {R : γ → γ → Prop} {y y' : Option γ} (h : Option.Rel R y y') {told told' : γ → Reply}
    {f f' : γ → Option (Subset α)} (hf : ∀ b b', R b b' → Answered (told b) (told' b') (f b) (f' b')) :
    Answered (.ofOption told y) (.ofOption told' y') (y.bind f) (y'.bind f') := by
  cases h with
  | none => exact ⟨rfl, .none⟩
  | some hR => exact hf _ _ hR

theorem answered_read (c : Choice) {L M M' : List α} {doc doc' : Document α} (hM : Coextensive M M') (h : doc.Holds L M)
    (h' : doc'.Holds L M') :
    Answered (.ofRead (doc.read c)) (.ofRead (doc'.read c)) (doc.read c).toOption (doc'.read c).toOption := by
  have hlists : Parallel Twins (Persisted.assemble c L M) (Persisted.assemble c L M') := by
    unfold Persisted.assemble
    cases Domain.ofList L with
    | error e => exact .failed e
    | ok d => exact (Recipe.Kin.ofList c hM).parallel d
  rw [Document.read_of_holds h, Document.read_of_holds h']
  generalize Persisted.assemble c L M = r at hlists
  generalize Persisted.assemble c L M' = r' at hlists
  cases hlists with
  | failed e => exact ⟨rfl, .none⟩
  | done hst => exact ⟨rfl, .some hst⟩

theorem Conversion.answered {s t : Subset α} (h : Twins s t) (k : Conversion) :
    Answered (k.reply s) (k.reply t) (k.apply s) (k.apply t) := by
  cases k with
  | toCompact => exact answered_of_parallel h.toCompact
  | toGeneral => exact ⟨rfl, .some h.toGeneral⟩
  | toAuto => exact ⟨rfl, .some h.toAuto⟩
  | ofStrategy wanted =>
    refine ⟨?_, h.ofStrategy? wanted⟩
    rcases rel_cases (h.ofStrategy? wanted) with ⟨hs, ht⟩ | ⟨u, v, hs, ht, -⟩
    · rw [reply, reply, hs, ht]
    · simp only [reply, hs, ht, Reply.ofOption]

/-! ## Kin stores -/

/-- the same domains, and twins in the place of each subset -/
structure Kin (st st' : Store α) : Prop where
  domains : st.domains = st'.domains
  subsets : List.Forall₂ Twins st.subsets st'.subsets

theorem rel_getElem? {γ : Type} {R : γ → γ → Prop} {xs ys : List γ} (h : List.Forall₂ R xs ys) (a : Nat) :
    Option.Rel R xs[a]? ys[a]? := by
  induction h generalizing a with
  | nil => exact .none
  | cons hR _ ih =>
    cases a with
    | zero => exact .some hR
    | succ a => exact ih a

theorem forall₂_set {γ : Type} {R : γ → γ → Prop} {xs ys : List γ} (h : List.Forall₂ R xs ys) (a : Nat) {x y : γ}
    (hxy : R x y) : List.Forall₂ R (xs.set a x) (ys.set a y) := by
  induction h generalizing a with
  | nil => exact .nil
  | cons hR hrest ih =>
    cases a with
    | zero => exact .cons hxy hrest
    | succ a => exact .cons hR (ih a)

section Steps

variable {st st' : Store α}

theorem Kin.addDomain (h : st.Kin st') (x : Option (Domain α)) :
    Option.Rel Kin (x.map st.addDomain) (x.map st'.addDomain) := by
  cases x with
  | none => exact .none
  | some d => exact .some ⟨congrArg (· ++ [d]) h.domains, h.subsets⟩

theorem Kin.addSubset (h : st.Kin st') {x x' : Option (Subset α)} (hx : Option.Rel Twins x x') :
    Option.Rel Kin (x.map st.addSubset) (x'.map st'.addSubset) := by
  cases hx with
  | none => exact .none
  | some hst => exact .some ⟨h.domains, List.rel_append h.subsets (.cons hst .nil)⟩

theorem Kin.setSubset (h : st.Kin st') (a : Nat) {x x' : Option (Subset α)} (hx : Option.Rel Twins x x') :
    Option.Rel Kin (x.map (st.setSubset a)) (x'.map (st'.setSubset a)) := by
  cases hx with
  | none => exact .none
  | some hst => exact .some ⟨h.domains, forall₂_set h.subsets a hst⟩

theorem Kin.changed (h : st.Kin st') (a : Nat) {β : Type} [Element β] {c c' : Change α β} (hc : c.Kin c') :
    Answered (.ofOption (fun s => .ofChange (c.apply s)) st.subsets[a]?)
      (.ofOption (fun s => .ofChange (c'.apply s)) st'.subsets[a]?) (st.changed a ⟨c⟩) (st'.changed a ⟨c'⟩) :=
  answered_bind (rel_getElem? h.subsets a) fun _ _ hst => answered_of_change (Subset.apply_kin hst hc)

theorem attempt_kin (h : st.Kin st') {c c' : Command α} (hc : c.Kin c') :
    st.reply c = st'.reply c' ∧ Option.Rel Kin (st.attempt c) (st'.attempt c') := by
  cases hc with
  | domain es => exact ⟨rfl, h.addDomain _⟩
  | domainOfOptions es => exact ⟨rfl, h.addDomain _⟩
  | domainOfText text => exact ⟨rfl, h.addDomain _⟩
  | domainOf a =>
    rcases rel_cases (rel_getElem? h.subsets a) with ⟨hs, ht⟩ | ⟨s, t, hs, ht, hst⟩
    · rw [reply, reply, attempt, attempt, hs, ht]
      exact ⟨rfl, .none⟩
    · simp only [reply, attempt, hs, ht, Option.map_some, hst.domain]
      exact ⟨rfl, h.addDomain (some t.domain)⟩
  | build d hr =>
    simp only [reply, attempt, ← h.domains]
    cases st.domains[d]? with
    | none => exact ⟨rfl, .none⟩
    | some d =>
      have hanswer := answered_of_parallel (hr.parallel d)
      exact ⟨hanswer.told, h.addSubset hanswer.made⟩
  | ofDistinct es => exact ⟨rfl, h.addSubset (rel_refl _)⟩
  | read c doc => exact ⟨rfl, h.addSubset (rel_refl _)⟩
  | readText c text => exact ⟨rfl, h.addSubset (rel_refl _)⟩
  | readLists c hM hdoc hdoc' =>
    have hanswer := answered_read c hM hdoc hdoc'
    exact ⟨hanswer.told, h.addSubset hanswer.made⟩
  | convert a k =>
    have hanswer := answered_bind (rel_getElem? h.subsets a) fun _ _ hst => k.answered hst
    exact ⟨hanswer.told, h.addSubset hanswer.made⟩
  | derive a hc =>
    have hanswer := h.changed a hc
    exact ⟨hanswer.told, h.addSubset hanswer.made⟩
  | change a hc =>
    have hanswer := h.changed a hc
    exact ⟨hanswer.told, h.setSubset a hanswer.made⟩
  | remember a =>
    rcases rel_cases (rel_getElem? h.subsets a) with ⟨hs, ht⟩ | ⟨s, t, hs, ht, hst⟩
    · rw [reply, reply, attempt, attempt, hs, ht]
      exact ⟨rfl, .none⟩
    · simp only [reply, attempt, hs, ht, Option.map_some]
      exact ⟨rfl, h.setSubset a (.some hst.remember)⟩

theorem step_kin (h : st.Kin st') {c c' : Command α} (hc : c.Kin c') :
    st.reply c = st'.reply c' ∧ (st.step c).Kin (st'.step c') := by
  obtain ⟨htold, hmade⟩ := attempt_kin h hc
  refine ⟨htold, ?_⟩
  rcases rel_cases hmade with ⟨hs, hs'⟩ | ⟨after, after', hs, hs', hafter⟩
  · rw [step, step, hs, hs']
    exact h
  · rw [step, step, hs, hs']
    exact hafter

theorem run_kin (h : st.Kin st') {cs cs' : List (Command α)} (hcs : List.Forall₂ Command.Kin cs cs') :
    st.replies cs = st'.replies cs' ∧ (st.run cs).Kin (st'.run cs') := by
  induction hcs generalizing st st' with
  | nil => exact ⟨rfl, h⟩
  | cons hc _ ih =>
    obtain ⟨htold, hafter⟩ := step_kin h hc
    obtain ⟨hrest, hend⟩ := ih hafter
    exact ⟨congrArg₂ List.cons htold hrest, hend⟩

end Steps

/-! ## Main result -/

/-- **Representatives do not leak.** In two runs with kin arguments the caller is told the same of every command, the
domains are the same, and no subset can be told from the one in its place. Whatever is shown of either is the domain's
own, unless it is the set of members that a fixed general form hands out. -/
theorem representatives_do_not_leak {cs cs' : List (Command α)} (h : List.Forall₂ Command.Kin cs cs') :
    replies {} cs = replies {} cs' ∧
    (run {} cs).domains = (run {} cs').domains ∧
    List.Forall₂ Indistinct (run {} cs).subsets (run {} cs').subsets ∧
    ∀ s : Subset α, s.ShowsOwn := by
  have hempty : Kin ({} : Store α) {} := ⟨rfl, .nil⟩
  obtain ⟨htold, hend⟩ := run_kin hempty h
  exact ⟨htold, hend.domains, hend.subsets.imp fun _ _ => Twins.indistinct, Subset.showsOwn⟩

/-- a letter, the case of which does not matter, is named as the domain has it -/
def namedAlike : List (Command Value) := [.domain [.folded "a"], .build 0 (.ofList .general [.folded "a"])]

/-- the letter is named otherwise, and twice -/
def namedOtherwise : List (Command Value) :=
  [.domain [.folded "a"], .build 0 (.ofList .general [.folded "A", .folded "a"])]

/-- all that is shown is the same, and the members as they were given are not -/
theorem folded_members_differ : List.Forall₂ Command.Kin namedAlike namedOtherwise ∧
    replies {} namedAlike = replies {} namedOtherwise ∧
    List.Forall₂ Indistinct (run {} namedAlike).subsets (run {} namedOtherwise).subsets ∧
    (run {} namedAlike).subsets.map (·.toMembers.toList) = [[.folded "a"]] ∧
    (run {} namedOtherwise).subsets.map (·.toMembers.toList) = [[.folded "A"]] := by
  have hcase : (Value.folded "a" == Value.folded "A") = true := by
    have hlower : "a".toLower = "a" := by decide +kernel
    have hupper : "A".toLower = "a" := by decide +kernel
    rw [Value.beq_iff, Value.key, Value.key, hlower, hupper]
  have hlists : Coextensive [Value.folded "a"] [Value.folded "A", Value.folded "a"] := by
    intro e
    simp only [List.any_cons, List.any_nil, beq_congr_left hcase e, Bool.or_false, Bool.or_self]
  have hkin : List.Forall₂ Command.Kin namedAlike namedOtherwise :=
    .cons (.domain _) (.cons (.build 0 (.ofList .general hlists)) .nil)
  obtain ⟨htold, -, hsubsets, -⟩ := representatives_do_not_leak hkin
  exact ⟨hkin, htold, hsubsets, by decide +kernel, by decide +kernel⟩

end Store

end SubsetAlgebra
