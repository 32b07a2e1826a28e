/-
Subsets that are held differently behave alike, over whole runs.

Two subsets are `Alike` if they have the same positions of the same domain; how they are held, what was asked for when
they were built and which representatives their members are is left open. Carrying out a change of either side with the
same arguments gives the same answer and leaves them alike (`step_alike`), so a run gives the same answers throughout
(`runAny_alike`); and no query tells them apart (`Alike.agree`). A compact subset and a general one with the same
positions are a case of this: `compact_general_agree`.
-/
import SubsetAlgebra.Persisted.Document
import SubsetAlgebra.Proofs.Comparison
import SubsetAlgebra.Proofs.ExactBuilding
import SubsetAlgebra.Subset.Change
import SubsetAlgebra.Subset.Presented

namespace SubsetAlgebra.Subset

open Operand (Answers)

variable {α β : Type} [Element α] [Element β]

/-! ## Alike -/

/-- the same positions of the same domain, however they are held -/
structure Alike (s t : Subset α) : Prop where
  domain : s.domain = t.domain
  places : s.places = t.places

theorem Alike.revised {s t s' t' : Subset α} {P : Set Nat} (h : Alike s t) (hs : s.Revised s' P) (ht : t.Revised t' P) :
    Alike s' t' :=
  ⟨by rw [hs.domain, ht.domain, h.domain], by rw [hs.places, ht.places]⟩

theorem Alike.positions {s t : Subset α} (h : Alike s t) : s.positions = t.positions := positions_eq_of_places h.places

theorem Alike.containsPosition {s t : Subset α} (h : Alike s t) (i : Nat) :
    s.containsPosition i = t.containsPosition i := by
  rw [containsPosition_eq, containsPosition_eq, h.positions]

theorem Alike.contains {s t : Subset α} (h : Alike s t) (e : α) : s.contains e = t.contains e := by
  rw [contains_eq, contains_eq, h.domain, h.positions]

theorem Alike.size {s t : Subset α} (h : Alike s t) : s.size = t.size := by
  rw [size_eq_length, size_eq_length, h.positions]

theorem Alike.toList {s t : Subset α} (h : Alike s t) : s.toList = t.toList := by
  rw [Subset.toList, Subset.toList, h.domain, h.positions]

/-! ## Changes -/

/-- two answers to a change: both fail with the same error, or both say the same and the subsets are alike -/
inductive Matched : Except Error (Subset α × Outcome) → Except Error (Subset α × Outcome) → Prop where
  | failed (e : Error) : Matched (.error e) (.error e)
  | done {s t : Subset α} (r : Outcome) : Alike s t → Matched (.ok (s, r)) (.ok (t, r))

/-- an operation that sees of a subset nothing but its domain and its positions -/
theorem Matched.of_answers {o : Operand α} {rule : ForeignRule} {op : Subset α → Except Error (Subset α)}
    (f : Set Nat → Set Nat → Set Nat)
    (hop : ∀ s, Answers o s.domain rule (op s) fun u => s.Revised u (f s.places (o.selection s.domain)))
    {s t : Subset α} (h : Alike s t) :
    Matched ((op s).map fun u => (u, Outcome.done)) ((op t).map fun u => (u, Outcome.done)) := by
  have hs := hop s
  have ht := hop t
  rw [← h.domain, ← h.places] at ht
  rcases o.fault_or_none s.domain rule with ⟨e, he⟩ | hnone
  · rw [hs.fault e he, ht.fault e he]
    exact .failed e
  · obtain ⟨u, hu, hrev⟩ := hs.sound hnone
    obtain ⟨v, hv, hrev'⟩ := ht.sound hnone
    rw [hu, hv]
    exact .done _ (h.revised hrev hrev')

theorem insert_matched {s t : Subset α} (h : Alike s t) (e : α) :
    Matched ((Change.insert e : Change α β).apply s) ((Change.insert e : Change α β).apply t) := by
  simp only [Change.apply]
  cases hi : s.domain.indexOf e with
  | none =>
    rw [insert_foreign hi, insert_foreign (h.domain ▸ hi)]
    exact .failed _
  | some i =>
    obtain ⟨u, hu, hrev⟩ := insert_known hi
    obtain ⟨v, hv, hrev'⟩ := insert_known (s := t) (h.domain ▸ hi)
    rw [← h.containsPosition i] at hv
    rw [← h.places] at hrev'
    rw [hu, hv]
    exact .done _ (h.revised hrev hrev')

theorem erase_matched {s t : Subset α} (h : Alike s t) (e : α) :
    Matched ((Change.erase e : Change α β).apply s) ((Change.erase e : Change α β).apply t) := by
  obtain ⟨hflag, hrev⟩ := s.erase_revised e
  obtain ⟨hflag', hrev'⟩ := t.erase_revised e
  rw [← h.contains e, ← hflag] at hflag'
  rw [← h.domain, ← h.places] at hrev'
  simp only [Change.apply, hflag']
  exact .done _ (h.revised hrev hrev')

theorem extend_matched {s t : Subset α} (h : Alike s t) (es : List α) :
    Matched ((Change.extend es : Change α β).apply s) ((Change.extend es : Change α β).apply t) := by
  simp only [Change.apply]
  rcases s.domain.foreign_or_known es with hforeign | hknown
  · have hforeign' := hforeign
    rw [h.domain] at hforeign'
    rw [extend_foreign hforeign, extend_foreign hforeign']
    exact .failed _
  · have hknown' := hknown
    rw [h.domain] at hknown'
    obtain ⟨u, n, hu, hrev, hn⟩ := extend_known hknown
    obtain ⟨v, m, hv, hrev', hm⟩ := extend_known hknown'
    rw [← h.domain, ← h.places] at hrev'
    have hafter := h.revised hrev hrev'
    -- the counts are the growth, and both sides have grown alike
    have hcount : n = m := by
      have := h.size
      have := hafter.size
      omega
    rw [hu, hv, hcount]
    exact .done _ hafter

theorem reattach_matched {s t : Subset α} (h : Alike s t) (d : Domain α) :
    Matched ((Change.reattach d : Change α β).apply s) ((Change.reattach d : Change α β).apply t) := by
  simp only [Change.apply]
  cases hd : s.domain.same d with
  | false =>
    rw [reattach_mismatch hd, reattach_mismatch (h.domain ▸ hd)]
    exact .failed _
  | true =>
    obtain ⟨u, hu, hb⟩ := reattach_built hd
    obtain ⟨v, hv, hb'⟩ := reattach_built (s := t) (h.domain ▸ hd)
    rw [hu, hv]
    exact .done _ ⟨by rw [hb.domain, hb'.domain], by rw [hb.places, hb'.places, h.places]⟩

theorem apply_matched {s t : Subset α} (h : Alike s t) (c : Change α β) : Matched (c.apply s) (c.apply t) := by
  cases c with
  | insert e => exact insert_matched h e
  | erase e => exact erase_matched h e
  | clear => exact .done _ (h.revised s.clear_revised t.clear_revised)
  | extend es => exact extend_matched h es
  | union o => exact .of_answers (· ∪ ·) (fun s => s.union_answers o) h
  | inter o => exact .of_answers (· ∩ ·) (fun s => s.inter_answers o) h
  | diff o => exact .of_answers (· \ ·) (fun s => s.diff_answers o) h
  | complement =>
    have ht := t.complement_revised
    rw [← h.domain, ← h.places] at ht
    exact .done _ (h.revised s.complement_revised ht)
  | reattach d => exact reattach_matched h d
  | semijoin u related =>
    have ht := t.semijoin_revised u related
    rw [← h.domain, ← h.places] at ht
    exact .done _ (h.revised (s.semijoin_revised u related) ht)

/-! ## Runs -/

theorem step_alike {s t : Subset α} (h : Alike s t) (c : Change α β) :
    (s.step c).2 = (t.step c).2 ∧ Alike (s.step c).1 (t.step c).1 := by
  have hm := apply_matched h c
  unfold step
  generalize c.apply s = x at hm
  generalize c.apply t = y at hm
  cases hm with
  | failed e => exact ⟨rfl, h⟩
  | done r hafter => exact ⟨rfl, hafter⟩

theorem run_eq_runAny (s : Subset α) (cs : List (Change α β)) : s.run cs = s.runAny (cs.map fun c => ⟨c⟩) := by
  induction cs generalizing s with
  | nil => rfl
  | cons c cs ih =>
    simp only [run, ih, List.map_cons, runAny]

theorem runAny_alike {s t : Subset α} (h : Alike s t) (cs : List (AnyChange α)) :
    (s.runAny cs).2 = (t.runAny cs).2 ∧ Alike (s.runAny cs).1 (t.runAny cs).1 := by
  induction cs generalizing s t with
  | nil => exact ⟨rfl, h⟩
  | cons c cs ih =>
    obtain ⟨hanswer, hafter⟩ := step_alike h c.change
    obtain ⟨hanswers, hend⟩ := ih hafter
    refine ⟨?_, hend⟩
    simp only [runAny, hanswer, hanswers]

theorem run_alike {s t : Subset α} (h : Alike s t) (cs : List (Change α β)) :
    (s.run cs).2 = (t.run cs).2 ∧ Alike (s.run cs).1 (t.run cs).1 := by
  rw [run_eq_runAny, run_eq_runAny]
  exact runAny_alike h _

theorem run_append (s : Subset α) (cs ds : List (Change α β)) :
    s.run (cs ++ ds) = (((s.run cs).1.run ds).1, (s.run cs).2 ++ ((s.run cs).1.run ds).2) := by
  induction cs generalizing s with
  | nil => rfl
  | cons c cs ih => simp only [List.cons_append, run, ih]

theorem length_run (s : Subset α) (cs : List (Change α β)) : (s.run cs).2.length = cs.length := by
  induction cs generalizing s with
  | nil => rfl
  | cons c cs ih => simp only [run, List.length_cons, ih]

/-! ## The choice stays -/

theorem ok_of_map {γ δ : Type} {r : Except Error γ} {f : γ → δ} {y : δ} (h : r.map f = .ok y) :
    ∃ x, r = .ok x ∧ f x = y := by
  cases r with
  | error e => cases h
  | ok x => exact ⟨x, rfl, Except.ok.inj h⟩

/-- a change gives the subset other positions and nothing else, unless it builds it anew over another domain -/
theorem revised_of_apply {s s' : Subset α} {c : Change α β} {r : Outcome} (h : c.apply s = .ok (s', r))
    (hc : ∀ d, c ≠ .reattach d) : ∃ P, s.Revised s' P := by
  cases c with
  | insert e =>
    obtain ⟨_, hx, hy⟩ := ok_of_map h
    cases hy
    exact revised_of_insert hx
  | extend es =>
    obtain ⟨_, hx, hy⟩ := ok_of_map h
    cases hy
    exact revised_of_extend hx
  | union o =>
    obtain ⟨_, hx, hy⟩ := ok_of_map h
    cases hy
    exact ⟨_, (s.union_answers o).good hx⟩
  | inter o =>
    obtain ⟨_, hx, hy⟩ := ok_of_map h
    cases hy
    exact ⟨_, (s.inter_answers o).good hx⟩
  | diff o =>
    obtain ⟨_, hx, hy⟩ := ok_of_map h
    cases hy
    exact ⟨_, (s.diff_answers o).good hx⟩
  | erase e => cases h; exact ⟨_, (s.erase_revised e).2⟩
  | clear => cases h; exact ⟨_, s.clear_revised⟩
  | complement => cases h; exact ⟨_, s.complement_revised⟩
  | semijoin u related => cases h; exact ⟨_, s.semijoin_revised u related⟩
  | reattach d => exact absurd rfl (hc d)

theorem choice_of_apply {s s' : Subset α} {c : Change α β} {r : Outcome} (h : c.apply s = .ok (s', r)) :
    s'.choice = s.choice := by
  by_cases hc : ∃ d, c = .reattach d
  · obtain ⟨d, rfl⟩ := hc
    obtain ⟨_, hx, hy⟩ := ok_of_map h
    cases hy
    exact (built_of_reattach hx).choice
  · obtain ⟨P, hrev⟩ := revised_of_apply h (by simpa using hc)
    exact hrev.choice

theorem step_choice (s : Subset α) (c : Change α β) : (s.step c).1.choice = s.choice := by
  unfold step
  split
  · next s' r h => exact choice_of_apply h
  · rfl

theorem runAny_choice (s : Subset α) (cs : List (AnyChange α)) : (s.runAny cs).1.choice = s.choice := by
  induction cs generalizing s with
  | nil => rfl
  | cons c cs ih =>
    calc (s.runAny (c :: cs)).1.choice = ((s.step c.change).1.runAny cs).1.choice := rfl
      _ = (s.step c.change).1.choice := ih _
      _ = s.choice := step_choice s c.change

/-! ## Queries -/

/-- no query tells the one from the other, neither by itself nor against a third subset, on either side -/
structure Agree (s t : Subset α) : Prop where
  size : s.size = t.size
  isEmpty : s.isEmpty = t.isEmpty
  isFull : s.isFull = t.isFull
  contains : ∀ e, s.contains e = t.contains e
  containsPosition : ∀ p, s.containsPosition p = t.containsPosition p
  positions : s.positions = t.positions
  toList : s.toList = t.toList
  indexed : s.indexed = t.indexed
  toWord : s.toWord = t.toWord
  toMask : s.toMask = t.toMask
  toBits : s.toBits = t.toBits
  /-- as sets: which of several equal elements is given out is not looked at -/
  toMembers : s.toMembers.same t.toMembers = true
  digest : s.digest = t.digest
  isSubsetOf : ∀ u, s.isSubsetOf u = t.isSubsetOf u
  isSupersetOf : ∀ u : Subset α, u.isSubsetOf s = u.isSubsetOf t
  sameDomain : ∀ u, s.sameDomain u = t.sameDomain u
  sameElements : ∀ u, s.sameElements u = t.sameElements u
  same : ∀ u, s.same u = t.same u
  same_right : ∀ u : Subset α, u.same s = u.same t
  selection : ∀ d, s.toOperand.selection d = t.toOperand.selection d
  product : ∀ {β : Type} [Element β] (u : Subset β), s.product u = t.product u
  product_right : ∀ {β : Type} [Element β] (u : Subset β), u.product s = u.product t
  productM : ∀ {m : Type → Type} [Monad m] {β : Type} [Element β] (u : Subset β) (visit : α → β → m Unit),
    s.productM u visit = t.productM u visit
  semijoin_right : ∀ {m : Type → Type} [Monad m] {β : Type} [Element β] (u : Subset β) (related : β → α → m Bool),
    u.semijoinM s related = u.semijoinM t related
  display : ∀ [Presented α], s.display = t.display
  layout : ∀ [Presented α], s.layout = t.layout
  tree : ∀ [Presented α], s.tree = t.tree
  document : Persisted.Document.ofSubset s = Persisted.Document.ofSubset t

theorem Alike.agree {s t : Subset α} (h : Alike s t) : Agree s t where
  size := h.size
  isEmpty := by rw [isEmpty_eq, isEmpty_eq, h.positions]
  isFull := by rw [isFull, isFull, h.size, h.domain]
  contains := h.contains
  containsPosition := h.containsPosition
  positions := h.positions
  toList := h.toList
  indexed := by rw [indexed, indexed, h.positions, h.domain]
  toWord := by rw [toWord_eq, toWord_eq, h.positions, h.domain]
  toMask := by rw [toMask_eq, toMask_eq, h.positions]
  toBits := by
    have : s.containsPosition = t.containsPosition := funext h.containsPosition
    rw [toBits_eq, toBits_eq, this, h.domain]
  toMembers := by
    rw [Members.same_iff]
    intro e
    rw [contains_toMembers, contains_toMembers, h.contains]
  digest := by rw [digest, digest, h.domain, h.size, h.positions]
  isSubsetOf u := by rw [isSubsetOf_eq, isSubsetOf_eq, h.toList]
  isSupersetOf u := by
    have : s.contains = t.contains := funext h.contains
    rw [isSubsetOf_eq, isSubsetOf_eq, this]
  sameDomain u := by rw [sameDomain, sameDomain, h.domain]
  sameElements u := by rw [sameElements, sameElements, h.size, h.toList]
  same u := by rw [Bool.eq_iff_iff, same_iff, same_iff, h.domain, h.places]
  same_right u := by rw [Bool.eq_iff_iff, same_iff, same_iff, h.domain, h.places]
  selection d := by
    rw [(Operand.subset_lists s).selection_eq, (Operand.subset_lists t).selection_eq, h.toList]
  product u := by rw [product, product, h.toList]
  product_right u := by rw [product, product, h.toList]
  productM u visit := by rw [productM, productM, h.toList]
  semijoin_right u related := by rw [semijoinM, semijoinM, h.toList]
  display := by simp only [Subset.display, h.toList, implies_true]
  layout := by simp only [Subset.layout, h.toList, implies_true]
  tree := by simp only [Subset.tree, h.domain, h.toList, implies_true]
  document := by rw [Persisted.Document.ofSubset, Persisted.Document.ofSubset, h.domain, h.toList]

/-! ## Main result -/

/-- **Compact subsets refine general ones.** A compact and a general subset with the same positions of the same domain
give the same answers to every run of changes with the same arguments. At its end the one is still compact, the other
still general, and no query tells them apart; and every point of a run is the end of a shorter one. -/
theorem compact_general_agree (c : CompactSubset α) (g : GeneralSubset α) (hd : c.domain = g.domain)
    (hp : c.positions = g.positions) (cs : List (AnyChange α)) :
    ((ofCompact c).runAny cs).2 = ((ofGeneral g).runAny cs).2 ∧
    ((ofCompact c).runAny cs).1.choice = .compact ∧ ((ofGeneral g).runAny cs).1.choice = .general ∧
    ((ofCompact c).runAny cs).1.domain = ((ofGeneral g).runAny cs).1.domain ∧
    Agree ((ofCompact c).runAny cs).1 ((ofGeneral g).runAny cs).1 := by
  have hstart : Alike (ofCompact c) (ofGeneral g) := by
    refine ⟨hd, Set.ext fun i => ?_⟩
    change i ∈ c.positions ↔ i ∈ g.positions
    rw [hp]
  obtain ⟨hanswers, hend⟩ := runAny_alike hstart cs
  exact ⟨hanswers, runAny_choice _ cs, runAny_choice _ cs, hend.domain, hend.agree⟩

/-- two of the elements 7, 8 and 9, in a word and as members in another order -/
theorem compact_general_agree_digits :
    ∃ (c : CompactSubset Nat) (g : GeneralSubset Nat), c.domain = g.domain ∧ c.positions = g.positions ∧
      c.size = 2 ∧ ∀ cs : List (AnyChange Nat), ((ofCompact c).runAny cs).2 = ((ofGeneral g).runAny cs).2 := by
  let d : Domain Nat := { elements := [7, 8, 9], distinct := by decide }
  let c : CompactSubset Nat := ⟨d, 5, by decide, by decide⟩
  let g : GeneralSubset Nat := ⟨d, ⟨[9, 7], by decide⟩, by decide⟩
  have hc : c.positions = [0, 2] := (ofCompact c).positions_eq_filter.trans (by decide)
  have hg : g.positions = [0, 2] := (ofGeneral g).positions_eq_filter.trans (by decide)
  have hp : c.positions = g.positions := by rw [hc, hg]
  exact ⟨c, g, rfl, hp, by decide, fun cs => (compact_general_agree c g rfl hp cs).1⟩

end SubsetAlgebra.Subset
