/-
The ways of naming the members of a subset to an operation.

The members of `t` can be handed over as `t` itself, as a set or as a list of elements, and over an equal domain also
by number, as an integer, as bits or as a word; `Names` lists these ways. They are read by code of their own, and `t`
itself by two pieces of code: position by position where the domains are equal, element by element where they are not.
None of this can be told from an answer (`forms_interchangeable`).

Behind it stands one relation. Two operands, each over a domain of its own, are `Interchangeable` if they have the same
faults and select the same positions; what is answered to the one is then answered to the other (`parallel`).
-/
import SubsetAlgebra.Proofs.RoundTrip

namespace SubsetAlgebra

open Word (width)
open Operand (Answers)

variable {α : Type} [Element α]

/-! ## Answers side by side -/

/-- both fail with the same error, or both succeed and `R` holds of the results -/
inductive Parallel {β γ : Type} (R : β → γ → Prop) : Except Error β → Except Error γ → Prop where
  | failed (e : Error) : Parallel R (.error e) (.error e)
  | done {b : β} {c : γ} : R b c → Parallel R (.ok b) (.ok c)

/-- the results may be looked at where they come from -/
theorem Parallel.of_results {β γ : Type} {R S : β → γ → Prop} {r : Except Error β} {r' : Except Error γ}
    (h : Parallel R r r') (hRS : ∀ b c, r = .ok b → r' = .ok c → R b c → S b c) : Parallel S r r' := by
  cases h with
  | failed e => exact .failed e
  | done hR => exact .done (hRS _ _ rfl rfl hR)

theorem Parallel.map {β γ β' γ' : Type} {R : β → γ → Prop} {S : β' → γ' → Prop} {r : Except Error β}
    {r' : Except Error γ} {f : β → β'} {g : γ → γ'} (h : Parallel R r r') (hRS : ∀ b c, R b c → S (f b) (g c)) :
    Parallel S (r.map f) (r'.map g) := by
  cases h with
  | failed e => exact .failed e
  | done hR => exact .done (hRS _ _ hR)

theorem Parallel.mono {β γ : Type} {R S : β → γ → Prop} {r : Except Error β} {r' : Except Error γ} (h : Parallel R r r')
    (hRS : ∀ b c, R b c → S b c) : Parallel S r r' :=
  h.of_results fun b c _ _ => hRS b c

namespace Operand

/-! ## Interchangeable operands -/

/-- `o` over `d` and `o'` over `d'` have the same faults and select the same positions -/
structure Interchangeable (d d' : Domain α) (o o' : Operand α) : Prop where
  fault : ∀ rule e, o.Fault d rule e ↔ o'.Fault d' rule e
  selection : o.selection d = o'.selection d'

namespace Interchangeable

variable {d d' d'' : Domain α} {o o' o'' : Operand α}

theorem refl (d : Domain α) (o : Operand α) : Interchangeable d d o o := ⟨fun _ _ => Iff.rfl, rfl⟩

theorem symm (h : Interchangeable d d' o o') : Interchangeable d' d o' o :=
  ⟨fun rule e => (h.fault rule e).symm, h.selection.symm⟩

theorem trans (h : Interchangeable d d' o o') (h' : Interchangeable d' d'' o' o'') : Interchangeable d d'' o o'' :=
  ⟨fun rule e => (h.fault rule e).trans (h'.fault rule e), h.selection.trans h'.selection⟩

/-- interchangeable operands are answered side by side -/
theorem parallel {β γ : Type} {rule : ForeignRule} {r : Except Error β} {r' : Except Error γ} {Good : β → Prop}
    {Good' : γ → Prop} (h : Interchangeable d d' o o') (ha : Answers o d rule r Good)
    (ha' : Answers o' d' rule r' Good') :
    Parallel (fun b c => Good b ∧ Good' c) r r' := by
  rcases o.fault_or_none d rule with ⟨e, he⟩ | hnone
  · rw [ha.fault e he, ha'.fault e ((h.fault rule e).1 he)]
    exact .failed e
  · have hnone' : ∀ e, ¬ o'.Fault d' rule e := fun e he => hnone e ((h.fault rule e).2 he)
    obtain ⟨b, rfl, hb⟩ := ha.sound hnone
    obtain ⟨c, rfl, hc⟩ := ha'.sound hnone'
    exact .done ⟨hb, hc⟩

/-- one operand over two equal domains -/
theorem of_domains (hd : d.same d' = true) (o : Operand α) : Interchangeable d d' o o := by
  have hfault : ∀ {x y : Domain α}, x.same y = true → ∀ rule e, o.Fault x rule e → o.Fault y rule e := by
    intro x y hxy rule e hf
    have hn := Domain.size_eq_of_same hxy
    cases hf with
    | overflow hover => rw [hn] at hover ⊢; exact .overflow hover
    | negative hneg => exact .negative hneg
    | beyond hb hle => rw [hn] at hle ⊢; exact .beyond hb hle
    | foreign hname hc => rw [Domain.contains_eq_of_same hxy] at hc; exact .foreign hname hc
  refine ⟨fun rule e => ⟨hfault hd rule e, hfault (Domain.same_symm hd) rule e⟩, ?_⟩
  simp only [Operand.selection, Domain.indexOf_eq_of_same hd]

/-- operands that name equal elements, over equal domains -/
theorem of_lists {es es' : List α} (h : o.Lists es) (h' : o'.Lists es') (hd : d.same d' = true)
    (hnames : ∀ e, o.names e = o'.names e) : Interchangeable d d' o o' := by
  have hfault : ∀ {p q : Operand α} {xs : List α} {x y : Domain α}, p.Lists xs → (∀ e, p.names e = q.names e) →
      x.same y = true → ∀ rule e, p.Fault x rule e → q.Fault y rule e := by
    intro p q xs x y hp hpq hxy rule e hf
    obtain ⟨rfl, rfl, a, ha, hc⟩ := (hp.fault_iff e).1 hf
    have hname : p.names a = true := by
      rw [hp.names, List.any_eq_true]
      exact ⟨a, ha, BEq.rfl⟩
    exact .foreign (by rw [← hpq, hname]) (by rw [← Domain.contains_eq_of_same hxy, hc])
  refine ⟨fun rule e =>
    ⟨hfault h hnames hd rule e, hfault h' (fun e => (hnames e).symm) (Domain.same_symm hd) rule e⟩, ?_⟩
  simp only [Operand.selection, h.marks, h'.marks, hnames, Domain.indexOf_eq_of_same hd]

/-- a subset of an equal domain, and its positions by number -/
theorem of_marks {t : Subset α} (hd : d.same t.domain = true) (hnames : ∀ e, o.names e = false) (hproper : o.Proper d)
    (hmarks : ∀ i, o.marks i = true ↔ i ∈ t.positions) : Interchangeable d d t.toOperand o := by
  have hin : ∀ i, o.marks i = true → i < d.size := by
    intro i hi
    rw [Domain.size_eq_of_same hd]
    exact Subset.lt_of_mem_positions ((hmarks i).1 hi)
  refine ⟨fun rule e => iff_of_false (not_fault_of_same hd rule e) ?_, ?_⟩
  · exact (not_fault_iff hnames).2 ⟨hproper, hin⟩ e
  · rw [selection_of_same hd]
    ext i
    rw [mem_selection_mask hnames, hmarks, Subset.mem_places]

end Interchangeable

end Operand

namespace Subset

open Operand (Interchangeable)

/-! ## Ways of naming the members -/

/-- the ways of naming the members of `t` to an operation over `d` -/
inductive Names (t : Subset α) (d : Domain α) : Operand α → Prop where
  | subset : Names t d t.toOperand
  | members {m : Members α} : m.same t.toMembers = true → Names t d (.members m)
  /-- the members in any order, each named once or more, by any equal element -/
  | elements {es : List α} : (∀ e, es.any (· == e) = t.contains e) → Names t d (.elements es)
  | mask : t.domain.same d = true → Names t d (.mask t.toMask)
  /-- clear bits may follow -/
  | bits (k : Nat) : t.domain.same d = true → Names t d (.bits (t.toBits ++ List.replicate k false))
  | word {w : UInt64} : t.domain.same d = true → t.toWord = .ok w → Names t d (.word w)

theorem getElem?_padded (t : Subset α) (k i : Nat) :
    (t.toBits ++ List.replicate k false)[i]? = some true ↔ i ∈ t.positions := by
  rw [← getElem?_toBits, List.getElem?_append]
  split_ifs with hi
  · rfl
  · rw [List.getElem?_replicate, List.getElem?_eq_none (Nat.le_of_not_lt hi)]
    split_ifs <;> simp

theorem Names.interchangeable {t : Subset α} {d : Domain α} {o : Operand α} (h : t.Names d o) :
    Interchangeable d d t.toOperand o := by
  have hlist := Operand.subset_lists t
  have hself : ∀ e, t.toOperand.names e = t.contains e := fun e => by rw [hlist.names, contains_eq_any_toList]
  cases h with
  | subset => exact .refl d _
  | @members m hm =>
    refine .of_lists hlist (Operand.members_lists m) (Domain.same_refl d) fun e => ?_
    rw [hself, ← contains_toMembers, ← (Members.same_iff m t.toMembers).1 hm]
    rfl
  | @elements es hes =>
    refine .of_lists hlist (Operand.elements_lists es) (Domain.same_refl d) fun e => ?_
    rw [hself, ← hes]
    rfl
  | mask hd =>
    refine .of_marks (Domain.same_symm hd) (fun _ => rfl) t.toMask_nonneg fun i => ?_
    simp only [Operand.marks, testBit_toMask, decide_eq_true_eq]
  | bits k hd =>
    refine .of_marks (Domain.same_symm hd) (fun _ => rfl) trivial fun i => ?_
    rw [Operand.marks_bits, getElem?_padded]
  | @word w hd hw =>
    obtain ⟨hfit, hbits⟩ := has_of_toWord hw
    rw [Domain.size_eq_of_same hd] at hfit
    exact .of_marks (Domain.same_symm hd) (fun _ => rfl) hfit hbits

/-! ## Main result -/

/-- equal, over one domain, and held in the same form under the same promise -/
structure Twins (u v : Subset α) : Prop where
  same : u.same v = true
  domain : u.domain = v.domain
  strategy : u.strategy = v.strategy
  adaptive : u.adaptive = v.adaptive

theorem Twins.of_revised {s u v : Subset α} {P : Set Nat} (hu : s.Revised u P) (hv : s.Revised v P) : Twins u v where
  same := by
    rw [same_iff, hu.domain, hv.domain, hu.places, hv.places]
    exact ⟨Domain.same_refl _, rfl⟩
  domain := by rw [hu.domain, hv.domain]
  strategy := by rw [hu.strategy, hv.strategy]
  adaptive := by rw [hu.adaptive, hv.adaptive]

/-- every operation gives the same answer to `o` as to `o'` -/
structure AnswersAlike (s : Subset α) (o o' : Operand α) : Prop where
  union : Parallel Twins (s.union o) (s.union o')
  inter : Parallel Twins (s.inter o) (s.inter o')
  diff : Parallel Twins (s.diff o) (s.diff o')
  ofOperand : ∀ c, Parallel (fun u v => u.same v = true ∧ u.domain = v.domain ∧ u.choice = v.choice)
    (ofOperand c s.domain o) (ofOperand c s.domain o')

/-- no operation refuses `o`, where the domain is not too large for what is to be built -/
structure Takes (s : Subset α) (o : Operand α) : Prop where
  union : ∃ u, s.union o = .ok u
  inter : ∃ u, s.inter o = .ok u
  diff : ∃ u, s.diff o = .ok u
  ofOperand : ∀ c : Choice, c.Admits s.domain → ∃ u, ofOperand c s.domain o = .ok u

theorem answersAlike_of_interchangeable {s : Subset α} {o o' : Operand α}
    (h : Interchangeable s.domain s.domain o o') : s.AnswersAlike o o' where
  union := (h.parallel (s.union_answers o) (s.union_answers o')).mono fun _ _ hr =>
    .of_revised hr.1 (hr.2.of_places (by rw [h.selection]))
  inter := (h.parallel (s.inter_answers o) (s.inter_answers o')).mono fun _ _ hr =>
    .of_revised hr.1 (hr.2.of_places (by rw [h.selection]))
  diff := (h.parallel (s.diff_answers o) (s.diff_answers o')).mono fun _ _ hr =>
    .of_revised hr.1 (hr.2.of_places (by rw [h.selection]))
  ofOperand c := by
    by_cases hc : c.Admits s.domain
    · refine (h.parallel (ofOperand_answers hc o) (ofOperand_answers hc o')).mono fun u v hr => ?_
      obtain ⟨hu, hv⟩ := hr
      refine ⟨?_, by rw [hu.domain, hv.domain], by rw [hu.choice, hv.choice]⟩
      rw [same_iff, hu.domain, hv.domain, hu.places, hv.places, h.selection]
      exact ⟨Domain.same_refl _, rfl⟩
    · rw [ofOperand_refused hc, ofOperand_refused hc]
      exact .failed _

theorem takes_of_not_fault {s : Subset α} {o : Operand α} (h : ∀ rule e, ¬ o.Fault s.domain rule e) : s.Takes o where
  union := (s.union_answers o).ok_iff.2 (h .reject)
  inter := (s.inter_answers o).ok_iff.2 (h .ignore)
  diff := (s.diff_answers o).ok_iff.2 (h .ignore)
  ofOperand _ hc := (ofOperand_answers hc o).ok_iff.2 (h .reject)

/-- **The form of an operand does not matter.** However the members of `t` are named to an operation on `s`, the answer
is the same. Over an equal domain no way of naming them is refused, and there is a word if the domain fits in one. -/
theorem forms_interchangeable (s t : Subset α) :
    (∀ o o', t.Names s.domain o → t.Names s.domain o' → s.AnswersAlike o o') ∧
    (t.domain.same s.domain = true → (∀ o, t.Names s.domain o → s.Takes o) ∧
      (s.domain.size ≤ 64 → ∃ w, t.toWord = .ok w)) := by
  refine ⟨fun o o' ho ho' => ?_, fun hd => ⟨fun o ho => ?_, fun hfit => ?_⟩⟩
  · exact answersAlike_of_interchangeable (ho.interchangeable.symm.trans ho'.interchangeable)
  · refine takes_of_not_fault fun rule e he => ?_
    exact Operand.not_fault_of_same (Domain.same_symm hd) rule e ((ho.interchangeable.fault rule e).2 he)
  · rw [← Domain.size_eq_of_same hd] at hfit
    obtain ⟨w, hw, -⟩ := t.toWord_has hfit
    exact ⟨w, hw⟩

end Subset

end SubsetAlgebra
