/-
The laws of Boolean algebra, across forms and across domains.

An expression (`Expr`) is made of subsets, unions, intersections, differences and complements. Over equal domains,
however the subsets are held, its evaluation succeeds at every step and leaves the positions that sets would have
(`eval_gives`, by induction on the expression). So whatever identity holds of sets of positions holds of subsets:
`agree_of_places`. The laws are cases of it, and the numbers of members add up as those of sets do (`Expr.Laws`).

Over domains that differ, what is left of the laws is said of members and not of positions: `contains_inter`,
`contains_diff` and `contains_union` describe each result element by element (`AcrossDomains`).
-/
import Mathlib.Data.Finset.Card
import Mathlib.Order.BooleanAlgebra.Set
import SubsetAlgebra.Proofs.Equality

namespace SubsetAlgebra

open Operand (Answers)

variable {α : Type} [Element α]

/-- both succeed, with equal results -/
def SameResult (r r' : Except Error (Subset α)) : Prop := ∃ s t, r = .ok s ∧ r' = .ok t ∧ s.same t = true

namespace Subset

/-! ## Counting -/

theorem size_eq_card (s : Subset α) : s.size = s.positions.toFinset.card := by
  rw [size_eq_length, List.toFinset_card_of_nodup s.positions_nodup]

/-- inclusion and exclusion -/
theorem size_union_inter {a b u i : Subset α} (hu : u.places = a.places ∪ b.places)
    (hi : i.places = a.places ∩ b.places) : u.size + i.size = a.size + b.size := by
  have hunion : u.positions.toFinset = a.positions.toFinset ∪ b.positions.toFinset := by
    ext j
    rw [Finset.mem_union, List.mem_toFinset, List.mem_toFinset, List.mem_toFinset, ← mem_places, hu]
    rfl
  have hinter : i.positions.toFinset = a.positions.toFinset ∩ b.positions.toFinset := by
    ext j
    rw [Finset.mem_inter, List.mem_toFinset, List.mem_toFinset, List.mem_toFinset, ← mem_places, hi]
    rfl
  rw [size_eq_card, size_eq_card, size_eq_card, size_eq_card, hunion, hinter]
  exact Finset.card_union_add_card_inter _ _

theorem size_complement (a : Subset α) : a.size + a.complement.size = a.domain.size := by
  have hrest : a.complement.positions.toFinset = Finset.range a.domain.size \ a.positions.toFinset := by
    ext j
    rw [Finset.mem_sdiff, List.mem_toFinset, List.mem_toFinset, Finset.mem_range, ← mem_places,
      a.complement_revised.places]
    rfl
  have hsub : a.positions.toFinset ⊆ Finset.range a.domain.size := fun j hj =>
    Finset.mem_range.2 (lt_of_mem_positions (List.mem_toFinset.1 hj))
  calc a.size + a.complement.size
      = (Finset.range a.domain.size \ a.positions.toFinset).card + a.positions.toFinset.card := by
        rw [size_eq_card, size_eq_card, hrest, Nat.add_comm]
    _ = (Finset.range a.domain.size).card := Finset.card_sdiff_add_card_eq_card hsub
    _ = a.domain.size := Finset.card_range _

end Subset

/-! ## Expressions -/

/-- an expression over subsets -/
inductive Expr (α : Type) [Element α] where
  | subset (s : Subset α)
  | union (x y : Expr α)
  | inter (x y : Expr α)
  | diff (x y : Expr α)
  | complement (x : Expr α)

namespace Expr

instance : Coe (Subset α) (Expr α) := ⟨subset⟩

instance : Union (Expr α) := ⟨union⟩

instance : Inter (Expr α) := ⟨inter⟩

instance : SDiff (Expr α) := ⟨diff⟩

/-- carries out the operations from the inside; the first that fails is the failure of the whole -/
def eval : Expr α → Except Error (Subset α)
  | subset s => .ok s
  | union x y => do (← x.eval).union (← y.eval).toOperand
  | inter x y => do (← x.eval).inter (← y.eval).toOperand
  | diff x y => do (← x.eval).diff (← y.eval).toOperand
  | complement x => do return (← x.eval).complement

/-- the same operations on sets of positions, of which there are `n` -/
def places (n : Nat) : Expr α → Set Nat
  | subset s => s.places
  | union x y => x.places n ∪ y.places n
  | inter x y => x.places n ∩ y.places n
  | diff x y => x.places n \ y.places n
  | complement x => {i | i < n} \ x.places n

/-- every subset of the expression is one of a domain equal to `d` -/
def Over (d : Domain α) : Expr α → Prop
  | subset s => s.domain.same d = true
  | union x y | inter x y | diff x y => x.Over d ∧ y.Over d
  | complement x => x.Over d

variable {d : Domain α}

theorem places_within {x : Expr α} (h : x.Over d) : x.places d.size ⊆ {i | i < d.size} := by
  induction x with
  | subset s =>
    intro i hi
    change i < d.size
    rw [← Domain.size_eq_of_same h]
    exact Subset.lt_of_mem_positions hi
  | union x y ihx ihy => exact Set.union_subset (ihx h.1) (ihy h.2)
  | inter x y ihx _ => exact fun i hi => ihx h.1 hi.1
  | diff x y ihx _ => exact fun i hi => ihx h.1 hi.1
  | complement x _ => exact fun i hi => hi.1

/-- `r` is a subset of a domain equal to `d`, with the positions `P` -/
def Gives (d : Domain α) (r : Except Error (Subset α)) (P : Set Nat) : Prop :=
  ∃ s, r = .ok s ∧ s.domain.same d = true ∧ s.places = P

/-- an operation that fails only with its operand's fault goes through, since there is none over equal domains -/
theorem Gives.binary {op : Subset α → Operand α → Except Error (Subset α)} {rule : ForeignRule}
    {R : Set Nat → Set Nat → Set Nat}
    (answers : ∀ s o, Answers o s.domain rule (op s o) fun t => s.Revised t (R s.places (o.selection s.domain)))
    {r r' : Except Error (Subset α)} {P Q : Set Nat} (h : Gives d r P) (h' : Gives d r' Q) :
    Gives d (do op (← r) (← r').toOperand) (R P Q) := by
  obtain ⟨s, rfl, hsd, rfl⟩ := h
  obtain ⟨t, rfl, htd, rfl⟩ := h'
  have hst : s.domain.same t.domain = true := Domain.same_trans hsd (Domain.same_symm htd)
  obtain ⟨u, hu, hrev⟩ := (answers s t.toOperand).sound (Operand.not_fault_of_same hst rule)
  refine ⟨u, hu, by rw [hrev.domain]; exact hsd, ?_⟩
  rw [hrev.places, Operand.selection_of_same hst]

/-- over equal domains nothing fails, and the positions are those of the sets -/
theorem eval_gives {x : Expr α} (h : x.Over d) : Gives d x.eval (x.places d.size) := by
  induction x with
  | subset s => exact ⟨s, rfl, h, rfl⟩
  | union x y ihx ihy => exact .binary Subset.union_answers (ihx h.1) (ihy h.2)
  | inter x y ihx ihy => exact .binary Subset.inter_answers (ihx h.1) (ihy h.2)
  | diff x y ihx ihy => exact .binary Subset.diff_answers (ihx h.1) (ihy h.2)
  | complement x ih =>
    obtain ⟨s, hs, hd, hp⟩ := ih h
    have hrev := s.complement_revised
    refine ⟨s.complement, by rw [eval, hs]; rfl, by rw [hrev.domain]; exact hd, ?_⟩
    rw [hrev.places, Domain.size_eq_of_same hd, hp]
    rfl

theorem Gives.same {r r' : Except Error (Subset α)} {P : Set Nat} (h : Gives d r P) (h' : Gives d r' P) :
    SameResult r r' := by
  obtain ⟨s, hs, hsd, hsp⟩ := h
  obtain ⟨t, ht, htd, htp⟩ := h'
  refine ⟨s, t, hs, ht, (Subset.same_iff s t).2 ⟨Domain.same_trans hsd (Domain.same_symm htd), ?_⟩⟩
  rw [hsp, htp]

/-- both expressions succeed, with equal results -/
def Agree (x y : Expr α) : Prop := SameResult x.eval y.eval

/-- **What holds of sets of positions holds of subsets.** -/
theorem agree_of_places {x y : Expr α} (hx : x.Over d) (hy : y.Over d) (h : x.places d.size = y.places d.size) :
    Agree x y :=
  (eval_gives hx).same (h ▸ eval_gives hy)

/-! ## The laws -/

/-- the laws of Boolean algebra, where the greatest and the least subset are those of any domain equal to `d` -/
structure Laws (d : Domain α) (x y z : Expr α) : Prop where
  union_comm : Agree (x ∪ y) (y ∪ x)
  inter_comm : Agree (x ∩ y) (y ∩ x)
  union_assoc : Agree (x ∪ y ∪ z) (x ∪ (y ∪ z))
  inter_assoc : Agree (x ∩ y ∩ z) (x ∩ (y ∩ z))
  union_self : Agree (x ∪ x) x
  inter_self : Agree (x ∩ x) x
  union_inter_distrib : Agree (x ∪ y ∩ z) ((x ∪ y) ∩ (x ∪ z))
  inter_union_distrib : Agree (x ∩ (y ∪ z)) (x ∩ y ∪ x ∩ z)
  union_absorb : Agree (x ∪ x ∩ y) x
  inter_absorb : Agree (x ∩ (x ∪ y)) x
  union_complement : ∀ c d', d'.same d = true → Choice.Admits c d' →
    SameResult (x ∪ complement x).eval (Subset.full c d')
  inter_complement : ∀ c d', d'.same d = true → Choice.Admits c d' →
    SameResult (x ∩ complement x).eval (Subset.empty c d')
  complement_complement : Agree (complement (complement x)) x
  complement_union : Agree (complement (x ∪ y)) (complement x ∩ complement y)
  complement_inter : Agree (complement (x ∩ y)) (complement x ∪ complement y)
  diff_eq : Agree (x \ y) (x ∩ complement y)
  size_union_inter : ∃ s t u i, x.eval = .ok s ∧ y.eval = .ok t ∧ (x ∪ y).eval = .ok u ∧ (x ∩ y).eval = .ok i ∧
    u.size + i.size = s.size + t.size
  size_complement : ∃ s t, x.eval = .ok s ∧ (complement x).eval = .ok t ∧ s.size + t.size = d.size

theorem laws {x y z : Expr α} (hx : x.Over d) (hy : y.Over d) (hz : z.Over d) : Laws d x y z where
  union_comm := agree_of_places ⟨hx, hy⟩ ⟨hy, hx⟩ (Set.union_comm _ _)
  inter_comm := agree_of_places ⟨hx, hy⟩ ⟨hy, hx⟩ (Set.inter_comm _ _)
  union_assoc := agree_of_places ⟨⟨hx, hy⟩, hz⟩ ⟨hx, hy, hz⟩ (Set.union_assoc _ _ _)
  inter_assoc := agree_of_places ⟨⟨hx, hy⟩, hz⟩ ⟨hx, hy, hz⟩ (Set.inter_assoc _ _ _)
  union_self := agree_of_places ⟨hx, hx⟩ hx (Set.union_self _)
  inter_self := agree_of_places ⟨hx, hx⟩ hx (Set.inter_self _)
  union_inter_distrib := agree_of_places ⟨hx, hy, hz⟩ ⟨⟨hx, hy⟩, hx, hz⟩ (Set.union_inter_distrib_left _ _ _)
  inter_union_distrib := agree_of_places ⟨hx, hy, hz⟩ ⟨⟨hx, hy⟩, hx, hz⟩ (Set.inter_union_distrib_left _ _ _)
  union_absorb := agree_of_places ⟨hx, hx, hy⟩ hx (Set.union_eq_self_of_subset_right Set.inter_subset_left)
  inter_absorb := agree_of_places ⟨hx, hx, hy⟩ hx (Set.inter_eq_self_of_subset_left Set.subset_union_left)
  union_complement c d' hd hc := by
    obtain ⟨t, ht, hb⟩ := Subset.full_built hc
    refine (eval_gives (x := x ∪ complement x) ⟨hx, hx⟩).same ⟨t, ht, by rw [hb.domain]; exact hd, ?_⟩
    rw [hb.places, Domain.size_eq_of_same hd]
    exact (Set.union_sdiff_cancel (places_within hx)).symm
  inter_complement c d' hd hc := by
    obtain ⟨t, ht, hb⟩ := Subset.empty_built hc
    refine (eval_gives (x := x ∩ complement x) ⟨hx, hx⟩).same ⟨t, ht, by rw [hb.domain]; exact hd, ?_⟩
    rw [hb.places]
    exact (Set.inter_sdiff_self _ _).symm
  complement_complement := agree_of_places hx hx (Set.sdiff_sdiff_cancel_left (places_within hx))
  complement_union := agree_of_places ⟨hx, hy⟩ ⟨hx, hy⟩ Set.sdiff_inter_sdiff.symm
  complement_inter := agree_of_places ⟨hx, hy⟩ ⟨hx, hy⟩ Set.sdiff_inter
  diff_eq := by
    refine agree_of_places ⟨hx, hy⟩ ⟨hx, hy⟩ ?_
    -- what is left of `x` lies inside the domain
    change x.places d.size \ y.places d.size = x.places d.size ∩ ({i | i < d.size} \ y.places d.size)
    rw [← Set.inter_sdiff_assoc, Set.inter_eq_self_of_subset_left (places_within hx)]
  size_union_inter := by
    obtain ⟨s, hs, -, hsp⟩ := eval_gives hx
    obtain ⟨t, ht, -, htp⟩ := eval_gives hy
    obtain ⟨u, hu, -, hup⟩ := eval_gives (x := x ∪ y) ⟨hx, hy⟩
    obtain ⟨i, hi, -, hip⟩ := eval_gives (x := x ∩ y) ⟨hx, hy⟩
    refine ⟨s, t, u, i, hs, ht, hu, hi, Subset.size_union_inter ?_ ?_⟩
    · rw [hup, hsp, htp]; rfl
    · rw [hip, hsp, htp]; rfl
  size_complement := by
    obtain ⟨s, hs, hsd, -⟩ := eval_gives hx
    refine ⟨s, s.complement, hs, by rw [eval, hs]; rfl, ?_⟩
    rw [s.size_complement, Domain.size_eq_of_same hsd]

end Expr

namespace Subset

/-! ## Across domains -/

/-- a subset of any domain selects the elements of `d` that are its members -/
theorem mem_selection_iff (t : Subset α) {d : Domain α} {e : α} {i : Nat} (hi : d.indexOf e = some i) :
    i ∈ t.toOperand.selection d ↔ t.contains e = true := by
  have hlist : ∀ e, t.toMembers.contains e = t.toList.any (· == e) := fun e => by
    rw [contains_toMembers, contains_eq_any_toList]
  rw [← contains_toMembers, (Operand.subset_lists t).contains_iff hlist hi]

/-- where foreign elements are passed over, a subset is never at fault -/
theorem not_fault_ignore (t : Subset α) (d : Domain α) (e : Error) : ¬ t.toOperand.Fault d .ignore e := by
  rw [(Operand.subset_lists t).fault_iff]
  exact fun h => nomatch h.1

theorem inter_ok (s t : Subset α) : ∃ u, s.inter t.toOperand = .ok u :=
  (s.inter_answers t.toOperand).ok_iff.2 (t.not_fault_ignore s.domain)

theorem diff_ok (s t : Subset α) : ∃ u, s.diff t.toOperand = .ok u :=
  (s.diff_answers t.toOperand).ok_iff.2 (t.not_fault_ignore s.domain)

/-- a union goes through iff the domain has every member of the other side -/
theorem union_ok_iff (s t : Subset α) :
    (∃ u, s.union t.toOperand = .ok u) ↔ ∀ e, t.contains e = true → s.domain.contains e = true := by
  rw [(s.union_answers t.toOperand).ok_iff]
  simp only [(Operand.subset_lists t).fault_iff, true_and]
  constructor
  · intro h e he
    rw [contains_eq_any_toList, List.any_eq_true] at he
    obtain ⟨x, hx, hxe⟩ := he
    refine Domain.contains_of_beq (BEq.symm hxe) ?_
    by_contra hforeign
    exact h _ ⟨rfl, x, hx, by simpa using hforeign⟩
  · rintro h _ ⟨-, x, hx, hforeign⟩
    rw [h x] at hforeign
    · cases hforeign
    · rw [contains_eq_any_toList, List.any_eq_true]
      exact ⟨x, hx, BEq.rfl⟩

theorem contains_union {s t u : Subset α} (hu : s.union t.toOperand = .ok u) (e : α) :
    u.contains e = true ↔ s.contains e = true ∨ t.contains e = true := by
  rw [contains_revised ((s.union_answers t.toOperand).good hu), contains_iff (s := s)]
  constructor
  · rintro ⟨i, his | hit, hi⟩
    · exact .inl ⟨i, his, hi⟩
    · exact .inr ((t.mem_selection_iff hi).1 hit)
  · rintro (⟨i, his, hi⟩ | hte)
    · exact ⟨i, .inl his, hi⟩
    · obtain ⟨i, hi⟩ := Domain.contains_iff_indexOf.1 ((union_ok_iff s t).1 ⟨u, hu⟩ e hte)
      exact ⟨i, .inr ((t.mem_selection_iff hi).2 hte), hi⟩

theorem contains_inter {s t u : Subset α} (hu : s.inter t.toOperand = .ok u) (e : α) :
    u.contains e = true ↔ s.contains e = true ∧ t.contains e = true := by
  rw [contains_revised ((s.inter_answers t.toOperand).good hu), contains_iff (s := s)]
  constructor
  · rintro ⟨i, ⟨his, hit⟩, hi⟩
    exact ⟨⟨i, his, hi⟩, (t.mem_selection_iff hi).1 hit⟩
  · rintro ⟨⟨i, his, hi⟩, hte⟩
    exact ⟨i, ⟨his, (t.mem_selection_iff hi).2 hte⟩, hi⟩

theorem contains_diff {s t u : Subset α} (hu : s.diff t.toOperand = .ok u) (e : α) :
    u.contains e = true ↔ s.contains e = true ∧ ¬ t.contains e = true := by
  rw [contains_revised ((s.diff_answers t.toOperand).good hu), contains_iff (s := s)]
  constructor
  · rintro ⟨i, ⟨his, hit⟩, hi⟩
    exact ⟨⟨i, his, hi⟩, fun hte => hit ((t.mem_selection_iff hi).2 hte)⟩
  · rintro ⟨⟨i, his, hi⟩, hte⟩
    exact ⟨i, ⟨his, fun hit => hte ((t.mem_selection_iff hi).1 hit)⟩, hi⟩

theorem isEmpty_iff (s : Subset α) : s.isEmpty = true ↔ ∀ e, ¬ s.contains e = true := by
  rw [isEmpty_eq, List.isEmpty_iff]
  constructor
  · intro h e he
    obtain ⟨i, hi, -⟩ := contains_iff.1 he
    rw [h] at hi
    cases hi
  · intro h
    refine List.eq_nil_iff_forall_not_mem.2 fun i hi => ?_
    obtain ⟨a, ha⟩ := Domain.exists_getElem? (lt_of_mem_positions hi)
    exact h a (contains_iff.2 ⟨i, hi, Domain.indexOf_of_getElem? ha⟩)

/-- what is left of the laws for subsets of any two domains -/
structure AcrossDomains (a b : Subset α) : Prop where
  inter_comm : ∃ i j, a.inter b.toOperand = .ok i ∧ b.inter a.toOperand = .ok j ∧ i.sameElements j = true
  /-- the intersection and the difference are apart and make up the whole -/
  split : ∃ i r w u, a.inter b.toOperand = .ok i ∧ a.diff b.toOperand = .ok r ∧ i.inter r.toOperand = .ok w ∧
    w.isEmpty = true ∧ i.union r.toOperand = .ok u ∧ u.same a = true
  union_ok_iff : (∃ u, a.union b.toOperand = .ok u) ↔ ∀ e, b.contains e = true → a.domain.contains e = true
  union_comm : ∀ u v, a.union b.toOperand = .ok u → b.union a.toOperand = .ok v → u.sameElements v = true

theorem inter_diff_partition (a b : Subset α) :
    ∃ i r w u, a.inter b.toOperand = .ok i ∧ a.diff b.toOperand = .ok r ∧ i.inter r.toOperand = .ok w ∧
      w.isEmpty = true ∧ i.union r.toOperand = .ok u ∧ u.same a = true := by
  obtain ⟨i, hi⟩ := a.inter_ok b
  obtain ⟨r, hr⟩ := a.diff_ok b
  obtain ⟨w, hw⟩ := i.inter_ok r
  have hirev := (a.inter_answers b.toOperand).good hi
  have hrrev := (a.diff_answers b.toOperand).good hr
  have hdom : i.domain.same r.domain = true := by
    rw [hirev.domain, hrrev.domain]
    exact Domain.same_refl a.domain
  obtain ⟨u, hu, hurev⟩ := (i.union_answers r.toOperand).sound (Operand.not_fault_of_same hdom _)
  refine ⟨i, r, w, u, hi, hr, hw, (isEmpty_iff w).2 fun e he => ?_, hu, (same_iff u a).2 ⟨?_, ?_⟩⟩
  · obtain ⟨hei, her⟩ := (contains_inter hw e).1 he
    exact ((contains_diff hr e).1 her).2 ((contains_inter hi e).1 hei).2
  · rw [hurev.domain, hirev.domain]
    exact Domain.same_refl a.domain
  · rw [hurev.places, Operand.selection_of_same hdom, hirev.places, hrrev.places]
    exact Set.inter_union_sdiff _ _

theorem acrossDomains (a b : Subset α) : AcrossDomains a b where
  inter_comm := by
    obtain ⟨i, hi⟩ := a.inter_ok b
    obtain ⟨j, hj⟩ := b.inter_ok a
    refine ⟨i, j, hi, hj, (sameElements_iff i j).2 fun e => Bool.eq_iff_iff.2 ?_⟩
    rw [contains_inter hi, contains_inter hj, and_comm]
  split := a.inter_diff_partition b
  union_ok_iff := a.union_ok_iff b
  union_comm u v hu hv := by
    refine (sameElements_iff u v).2 fun e => Bool.eq_iff_iff.2 ?_
    rw [contains_union hu, contains_union hv, or_comm]

/-! ## Main result -/

/-- **Subsets of equal domains are a Boolean algebra, whatever their forms.** No operation on them fails, the laws hold
under equality, and the numbers of members add up. Of subsets of any two domains there remain the laws of
`AcrossDomains`. -/
theorem boolean_algebra :
    (∀ a b c : Subset α, a.domain.same b.domain = true → a.domain.same c.domain = true → Expr.Laws a.domain a b c) ∧
    ∀ a b : Subset α, AcrossDomains a b :=
  ⟨fun a _ _ hb hc => Expr.laws (Domain.same_refl a.domain) (Domain.same_symm hb) (Domain.same_symm hc), acrossDomains⟩

end Subset

end SubsetAlgebra
