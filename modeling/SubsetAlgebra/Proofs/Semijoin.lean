/-
Semijoins: the members of the left side that are related to some member of the right one.

A semijoin takes the whole left side and removes, one after the other, the members that are related to nothing. What is
left are the members that a filter lets through, in their order (`toList_semijoin`), and so the left components of those
pairs of the product that are related (`mem_semijoin_iff_product`). Domain, form and promise are those of the left side.
The questions are asked in domain order, for each left member those about the right members up to the first that is
related and no further (`semijoinM_asks`).

Laws that compare several semijoins do so through elements that are equal, not identical. Over one domain that is the
same, since no two of its elements are equal, and any relation will do. Between equal domains that were built apart, the
relation has to answer alike for the element of the one and the equal element of the other (`Blind`), as one does that
respects equality; `union_left_needs_blind` shows what becomes of the laws otherwise.
-/
import SubsetAlgebra.Proofs.Inclusion
import SubsetAlgebra.Proofs.Products
import SubsetAlgebra.Proofs.Reachable
import SubsetAlgebra.Value

namespace SubsetAlgebra

variable {α β : Type} [Element α] [Element β]

/-! ## What is asked -/

section Questions

variable {γ δ : Type}

/-- those of a list that are asked about, if one that passes is looked for: up to the first that does -/
def askedOf (p : δ → Bool) (bs : List δ) : List δ := bs.takeWhile (fun b => !p b) ++ (bs.find? p).toList

theorem askedOf_cons (p : δ → Bool) (b : δ) (bs : List δ) :
    askedOf p (b :: bs) = b :: if p b then [] else askedOf p bs := by
  cases h : p b <;> simp [askedOf, h]

/-- all questions of a semijoin in their order -/
def questions (p : γ → δ → Bool) (as : List γ) (bs : List δ) : List (Pair γ δ) :=
  as.flatMap fun a => (askedOf (p a) bs).map (Pair.mk a)

variable {m : Type → Type} [Monad m] [LawfulMonad m]

/-- looking for one that passes stops at the first -/
theorem anyM_asks (p : δ → Bool) (bs : List δ) (visit : δ → m Unit) :
    bs.anyM (fun b => do visit b; pure (p b)) = (do forM (askedOf p bs) visit; pure (bs.any p)) := by
  induction bs with
  | nil => simp [askedOf]
  | cons b bs ih =>
    simp only [List.anyM, bind_assoc, pure_bind, askedOf_cons, List.forM_cons, List.any_cons]
    cases p b with
    | true => simp
    | false => simp only [ih, Bool.false_or, Bool.false_eq_true, if_false]

end Questions

namespace Subset

open Operand (Answers)

/-- where what is left of a subset are the positions whose elements pass a test, it has the members that pass -/
theorem toList_of_revised {s u : Subset α} {keep : α → Bool}
    (h : s.Revised u {i | i ∈ s.places ∧ ∃ a, s.domain.elements[i]? = some a ∧ keep a = true}) :
    u.toList = s.toList.filter keep := by
  have hpositions : u.positions = s.positions.filter fun i => s.domain.elements[i]?.any keep := by
    refine eq_of_ascending u.positions_ascending (s.positions_ascending.filter _) fun i => ?_
    rw [← mem_places, h.places, List.mem_filter]
    simp only [Set.mem_ofPred_eq, mem_places, Option.any_eq_true]
  rw [toList, toList, h.domain, hpositions, Domain.select, Domain.select, List.filterMap_filter, List.filter_filterMap]
  refine List.filterMap_congr fun i _ => ?_
  cases s.domain.elements[i]? with
  | none => simp
  | some a => simp [Option.filter]

section One

variable (s : Subset α) (t : Subset β) (p : α → β → Bool)

omit [Element β] in
/-- removing members in turn asks the questions and has their answers -/
theorem foldlM_asks {m : Type → Type} [Monad m] [LawfulMonad m] (bs : List β) (visit : α → β → m Unit) (as : List α)
    (kept : Subset α) :
    as.foldlM (fun kept a => do
        return if ← bs.anyM (fun b => do visit a b; pure (p a b)) then kept else (kept.erase a).1) kept =
      (do forM (questions p as bs) fun q => visit q.first q.second
          pure (as.foldl (fun kept a => if bs.any (p a) then kept else (kept.erase a).1) kept)) := by
  induction as generalizing kept with
  | nil => simp [questions]
  | cons a as ih =>
    rw [List.foldlM_cons, anyM_asks]
    simp only [bind_assoc, pure_bind, ih, questions, List.flatMap_cons, List.forM_append, List.forM_map,
      List.foldl_cons]

theorem semijoinM_asks {m : Type → Type} [Monad m] [LawfulMonad m] (visit : α → β → m Unit) :
    s.semijoinM t (fun a b => do visit a b; pure (p a b)) =
      (do forM (questions p s.toList t.toList) fun q => visit q.first q.second
          pure (s.semijoin t p)) := by
  rw [semijoin_eq_foldl]
  exact foldlM_asks p t.toList visit s.toList s

/-! ## What is left -/

theorem toList_semijoin : (s.semijoin t p).toList = s.toList.filter fun a => t.toList.any (p a) := by
  refine toList_of_revised ((s.semijoin_revised t p).of_places ?_)
  simp only [List.any_eq_true]

theorem mem_semijoin_iff (a : α) :
    a ∈ (s.semijoin t p).toList ↔ a ∈ s.toList ∧ ∃ b ∈ t.toList, p a b = true := by
  rw [toList_semijoin, List.mem_filter, List.any_eq_true]

/-- the left components of the related pairs of the product -/
theorem mem_semijoin_iff_product (a : α) :
    a ∈ (s.semijoin t p).toList ↔ ∃ q ∈ (s.product t).toList, q.first = a ∧ p q.first q.second = true := by
  rw [mem_semijoin_iff, toList_product]
  constructor
  · rintro ⟨ha, b, hb, hab⟩
    exact ⟨⟨a, b⟩, Pair.mem_product.2 ⟨ha, hb⟩, rfl, hab⟩
  · rintro ⟨q, hq, rfl, hab⟩
    obtain ⟨ha, hb⟩ := Pair.mem_product.1 hq
    exact ⟨ha, q.second, hb, hab⟩

theorem contains_iff_mem {s : Subset α} {x : α} : s.contains x = true ↔ ∃ a ∈ s.toList, (a == x) = true := by
  rw [contains_eq_any_toList, List.any_eq_true]

theorem contains_semijoin (x : α) : (s.semijoin t p).contains x = true ↔
    ∃ a ∈ s.toList, (a == x) = true ∧ ∃ b ∈ t.toList, p a b = true := by
  simp only [contains_iff_mem, mem_semijoin_iff, and_assoc]
  exact exists_congr fun a => and_congr_right fun _ => and_comm

theorem semijoin_isSubsetOf : (s.semijoin t p).isSubsetOf s = true := by
  rw [isSubsetOf_iff]
  intro x hx
  obtain ⟨a, ha, hax, -⟩ := (s.contains_semijoin t p x).1 hx
  exact contains_iff_mem.2 ⟨a, ha, hax⟩

theorem isEmpty_iff_toList (s : Subset α) : s.isEmpty = true ↔ s.toList = [] := by
  rw [isEmpty_iff_size, ← length_toList, List.length_eq_zero_iff]

theorem semijoin_empty_left (h : s.isEmpty = true) : (s.semijoin t p).isEmpty = true := by
  rw [isEmpty_iff_toList] at h ⊢
  rw [toList_semijoin, h, List.filter_nil]

theorem semijoin_empty_right (h : t.isEmpty = true) : (s.semijoin t p).isEmpty = true := by
  rw [isEmpty_iff_toList] at h ⊢
  rw [toList_semijoin, h, List.filter_eq_nil_iff]
  exact fun a _ => Bool.false_ne_true

/-- where every member is related to something, nothing is touched -/
theorem semijoin_eq_self (h : ∀ a ∈ s.toList, ∃ b ∈ t.toList, p a b = true) : s.semijoin t p = s := by
  have hfold : ∀ as : List α, (∀ a ∈ as, t.toList.any (p a) = true) →
      as.foldl (fun kept a => if t.toList.any (p a) then kept else (kept.erase a).1) s = s := by
    intro as
    induction as with
    | nil => intro _; rfl
    | cons a as ih =>
      intro has
      rw [List.foldl_cons, if_pos (has a List.mem_cons_self)]
      exact ih fun x hx => has x (List.mem_cons_of_mem a hx)
  rw [semijoin_eq_foldl]
  exact hfold s.toList fun a ha => List.any_eq_true.2 (h a ha)

/-- with a relation that holds always, nothing is touched unless there is nothing on the right -/
theorem semijoin_always (h : ∀ a b, p a b = true) (ht : t.isEmpty = false) : s.semijoin t p = s := by
  refine s.semijoin_eq_self t p fun a _ => ?_
  obtain ⟨b, hb⟩ := List.exists_mem_of_ne_nil t.toList fun hnil => by
    rw [(isEmpty_iff_toList t).2 hnil] at ht
    cases ht
  exact ⟨b, hb, h a b⟩

/-- in a store the semijoin is a new subset, and the left side is as it was -/
theorem semijoin_derived {st : Store α} {a : Nat} (hs : st.subsets[a]? = some s) :
    (st.step (.derive a ⟨.semijoin t p⟩)).subsets = st.subsets ++ [s.semijoin t p] := by
  simp only [Store.step, Store.attempt, Store.changed, hs, Option.bind_some, Change.apply]
  rfl

end One

/-! ## Relations that do not see which of several equal elements they are asked about -/

/-- `p` answers alike for an element of `d` and an equal one of `d'`, and on the right for those of `e` and `e'` -/
def Blind (p : α → β → Bool) (d d' : Domain α) (e e' : Domain β) : Prop :=
  ∀ a ∈ d.elements, ∀ a' ∈ d'.elements, (a == a') = true →
    ∀ b ∈ e.elements, ∀ b' ∈ e'.elements, (b == b') = true → p a b = p a' b'

theorem eq_of_beq_of_mem {d : Domain α} {a a' : α} (ha : a ∈ d.elements) (ha' : a' ∈ d.elements)
    (h : (a == a') = true) : a = a' := by
  obtain ⟨i, hi⟩ := List.getElem?_of_mem ha
  obtain ⟨j, hj⟩ := List.getElem?_of_mem ha'
  obtain rfl := Domain.unique hi hj h
  exact Option.some.inj (hi.symm.trans hj)

/-- over the elements of one domain on either side any relation is -/
theorem blind_of_elements {d d' : Domain α} {e e' : Domain β} (hd : d.elements = d'.elements)
    (he : e.elements = e'.elements) (p : α → β → Bool) : Blind p d d' e e' := by
  intro a ha a' ha' haa' b hb b' hb' hbb'
  rw [eq_of_beq_of_mem ha (hd ▸ ha') haa', eq_of_beq_of_mem hb (he ▸ hb') hbb']

/-- a relation that respects equality is -/
theorem blind_of_respects {p : α → β → Bool}
    (hp : ∀ a a' b b', (a == a') = true → (b == b') = true → p a b = p a' b') (d d' : Domain α) (e e' : Domain β) :
    Blind p d d' e e' :=
  fun a _ a' _ haa' b _ b' _ hbb' => hp a a' b b' haa' hbb'

/-- an element of a domain is kept iff it is a member and related to some member of the right side -/
theorem contains_semijoin_at {d : Domain α} {s : Subset α} {t : Subset β} {p : α → β → Bool}
    (hp : Blind p d s.domain t.domain t.domain) {a : α} (ha : a ∈ d.elements) :
    (s.semijoin t p).contains a = true ↔ s.contains a = true ∧ ∃ b ∈ t.toList, p a b = true := by
  have hanswer : ∀ x ∈ s.toList, (x == a) = true → ∀ b ∈ t.toList, p a b = p x b := fun x hx hxa b hb =>
    hp a ha x (mem_elements hx) (BEq.symm hxa) b (mem_elements hb) b (mem_elements hb) BEq.rfl
  rw [contains_semijoin, contains_iff_mem]
  constructor
  · rintro ⟨x, hx, hxa, b, hb, hxb⟩
    exact ⟨⟨x, hx, hxa⟩, b, hb, (hanswer x hx hxa b hb).trans hxb⟩
  · rintro ⟨⟨x, hx, hxa⟩, b, hb, hab⟩
    exact ⟨x, hx, hxa, b, hb, (hanswer x hx hxa b hb).symm.trans hab⟩

/-- something is related to a member of a union iff it is to a member of one of the two -/
theorem related_union_iff {t t' w : Subset β} (hw : t.union t'.toOperand = .ok w) {d : Domain α} {p : α → β → Bool}
    (hp : Blind p d d t.domain t'.domain) {a : α} (ha : a ∈ d.elements) :
    (∃ b ∈ w.toList, p a b = true) ↔ (∃ b ∈ t.toList, p a b = true) ∨ ∃ b ∈ t'.toList, p a b = true := by
  have hdomain : w.domain = t.domain := ((t.union_answers t'.toOperand).good hw).domain
  have own : ∀ b ∈ w.toList, b ∈ t.domain.elements := fun b hb => hdomain ▸ mem_elements hb
  constructor
  · rintro ⟨b, hb, hab⟩
    rcases (contains_union hw b).1 (contains_iff_mem.2 ⟨b, hb, BEq.rfl⟩) with ht | ht
    · obtain ⟨x, hx, hxb⟩ := contains_iff_mem.1 ht
      rw [← eq_of_beq_of_mem (mem_elements hx) (own b hb) hxb] at hab
      exact .inl ⟨x, hx, hab⟩
    · obtain ⟨x, hx, hxb⟩ := contains_iff_mem.1 ht
      rw [hp a ha a ha BEq.rfl b (own b hb) x (mem_elements hx) (BEq.symm hxb)] at hab
      exact .inr ⟨x, hx, hab⟩
  · rintro (⟨x, hx, hax⟩ | ⟨x, hx, hax⟩)
    · obtain ⟨b, hb, hbx⟩ := contains_iff_mem.1 ((contains_union hw x).2 (.inl (contains_iff_mem.2 ⟨x, hx, BEq.rfl⟩)))
      rw [← eq_of_beq_of_mem (own b hb) (mem_elements hx) hbx] at hax
      exact ⟨b, hb, hax⟩
    · obtain ⟨b, hb, hbx⟩ := contains_iff_mem.1 ((contains_union hw x).2 (.inr (contains_iff_mem.2 ⟨x, hx, BEq.rfl⟩)))
      rw [← hp a ha a ha BEq.rfl b (own b hb) x (mem_elements hx) hbx] at hax
      exact ⟨b, hb, hax⟩

/-! ## Several semijoins -/

/-- subsets of equal domains are equal if they agree on the elements of the one -/
theorem same_of_contains {u v : Subset α} (hd : u.domain.same v.domain = true)
    (h : ∀ a ∈ u.domain.elements, u.contains a = true ↔ v.contains a = true) : u.same v = true := by
  refine (same_iff u v).2 ⟨hd, (places_eq_iff hd).2 fun e => ?_⟩
  cases he : u.domain.contains e with
  | false => rw [not_contains_of_foreign he, not_contains_of_foreign ((Domain.contains_eq_of_same hd e).symm.trans he)]
  | true =>
    obtain ⟨a, ha, hae⟩ := Domain.contains_iff.1 he
    rw [← contains_congr u hae, ← contains_congr v hae, Bool.eq_iff_iff]
    exact h a ha

/-- with more on the left, on the right or in the relation, more is left -/
theorem semijoin_mono {s s' : Subset α} {t t' : Subset β} {p p' : α → β → Bool}
    (hp : Blind p s.domain s'.domain t.domain t'.domain) (hpp' : ∀ a b, p a b = true → p' a b = true)
    (hs : s.isSubsetOf s' = true) (ht : t.isSubsetOf t' = true) :
    (s.semijoin t p).isSubsetOf (s'.semijoin t' p') = true := by
  rw [isSubsetOf_iff] at hs ht ⊢
  intro x hx
  obtain ⟨a, ha, hax, b, hb, hab⟩ := (s.contains_semijoin t p x).1 hx
  obtain ⟨a', ha', haa'⟩ := contains_iff_mem.1 (hs a (contains_iff_mem.2 ⟨a, ha, BEq.rfl⟩))
  obtain ⟨b', hb', hbb'⟩ := contains_iff_mem.1 (ht b (contains_iff_mem.2 ⟨b, hb, BEq.rfl⟩))
  refine (s'.contains_semijoin t' p' x).2 ⟨a', ha', BEq.trans haa' hax, b', hb', hpp' a' b' ?_⟩
  rw [← hp a (mem_elements ha) a' (mem_elements ha') (BEq.symm haa') b (mem_elements hb) b' (mem_elements hb')
    (BEq.symm hbb'), hab]

/-- a semijoin of a union on the left is the union of the semijoins -/
theorem semijoin_union_left {s s' : Subset α} {t : Subset β} {p : α → β → Bool}
    (hd : s.domain.same s'.domain = true) (hp : Blind p s.domain s'.domain t.domain t.domain) :
    ∃ u v, s.union s'.toOperand = .ok u ∧ (s.semijoin t p).union (s'.semijoin t p).toOperand = .ok v ∧
      (u.semijoin t p).same v = true := by
  have hdom := (s.semijoin_revised t p).domain
  have hdom' := (s'.semijoin_revised t p).domain
  obtain ⟨u, hu⟩ := union_ok_of_same hd
  obtain ⟨v, hv⟩ := union_ok_of_same (a := s.semijoin t p) (b := s'.semijoin t p) (by rw [hdom, hdom', hd])
  have hu' : u.domain = s.domain := ((s.union_answers s'.toOperand).good hu).domain
  have hv' : v.domain = s.domain := ((union_answers _ _).good hv).domain.trans hdom
  have hjoin : (u.semijoin t p).domain = s.domain := (u.semijoin_revised t p).domain.trans hu'
  refine ⟨u, v, hu, hv, same_of_contains (by rw [hjoin, hv']; exact Domain.same_refl _) fun a ha => ?_⟩
  rw [hjoin] at ha
  have one : ∀ x : Subset α, x.domain = s.domain → Blind p s.domain x.domain t.domain t.domain :=
    fun x hx => blind_of_elements (congrArg Domain.elements hx.symm) rfl p
  rw [contains_semijoin_at (one u hu') ha, contains_union hu, contains_union hv, contains_semijoin_at (one s rfl) ha,
    contains_semijoin_at hp ha, or_and_right]

/-- a letter, the case of which does not matter -/
def lowerLetter : Domain Value := { elements := [.folded "a"], distinct := List.pairwise_singleton _ _ }

/-- the same letter, in the other case -/
def upperLetter : Domain Value := { elements := [.folded "A"], distinct := List.pairwise_singleton _ _ }

/-- a relation that asks for the very letter tells the elements of equal domains apart; what a union takes over from the
right side is then judged by the left side's element, and by itself if it was judged before -/
theorem union_left_needs_blind :
    lowerLetter.same upperLetter = true ∧
    ((emptyAuto lowerLetter).union (fullAuto upperLetter).toOperand).map
      (fun u => (u.semijoin (fullAuto lowerLetter) fun a b => decide (a = b)).toList) = .ok [.folded "a"] ∧
    (((emptyAuto lowerLetter).semijoin (fullAuto lowerLetter) fun a b => decide (a = b)).union
      ((fullAuto upperLetter).semijoin (fullAuto lowerLetter) fun a b => decide (a = b)).toOperand).map toList =
        .ok [] := by
  decide +kernel

/-- a semijoin with a union on the right is the union of the semijoins -/
theorem semijoin_union_right {s : Subset α} {t t' : Subset β} {p : α → β → Bool}
    (hd : t.domain.same t'.domain = true) (hp : Blind p s.domain s.domain t.domain t'.domain) :
    ∃ w v, t.union t'.toOperand = .ok w ∧ (s.semijoin t p).union (s.semijoin t' p).toOperand = .ok v ∧
      (s.semijoin w p).same v = true := by
  have hdom := (s.semijoin_revised t p).domain
  have hdom' := (s.semijoin_revised t' p).domain
  obtain ⟨w, hw⟩ := union_ok_of_same hd
  obtain ⟨v, hv⟩ := union_ok_of_same (a := s.semijoin t p) (b := s.semijoin t' p)
    (by rw [hdom, hdom']; exact Domain.same_refl _)
  have hv' : v.domain = s.domain := ((union_answers _ _).good hv).domain.trans hdom
  have hjoin : (s.semijoin w p).domain = s.domain := (s.semijoin_revised w p).domain
  refine ⟨w, v, hw, hv, same_of_contains (by rw [hjoin, hv']; exact Domain.same_refl _) fun a ha => ?_⟩
  rw [hjoin] at ha
  have one : ∀ x : Subset β, Blind p s.domain s.domain x.domain x.domain := fun x => blind_of_elements rfl rfl p
  rw [contains_semijoin_at (one w) ha, contains_union hv, contains_semijoin_at (one t) ha,
    contains_semijoin_at (one t') ha, related_union_iff hw hp ha, and_or_left]

/-- nor does such a relation let a semijoin grow with its left side, or distribute over unions of right sides, where the
sides are over equal domains that were built apart -/
theorem mono_and_union_right_need_blind :
    (fullAuto lowerLetter).isSubsetOf (fullAuto upperLetter) = true ∧
    ((fullAuto lowerLetter).semijoin (fullAuto lowerLetter) fun a b => decide (a = b)).isSubsetOf
      ((fullAuto upperLetter).semijoin (fullAuto lowerLetter) fun a b => decide (a = b)) = false ∧
    ((emptyAuto lowerLetter).union (fullAuto upperLetter).toOperand).map
      (fun w => ((fullAuto lowerLetter).semijoin w fun a b => decide (a = b)).toList) = .ok [.folded "a"] ∧
    (((fullAuto lowerLetter).semijoin (emptyAuto lowerLetter) fun a b => decide (a = b)).union
      ((fullAuto lowerLetter).semijoin (fullAuto upperLetter) fun a b => decide (a = b)).toOperand).map toList =
        .ok [] := by
  decide +kernel

/-! ## Main result -/

/-- what the semijoin of `s` with `t` by `p` is -/
structure Semijoined (s : Subset α) (t : Subset β) (p : α → β → Bool) : Prop where
  domain : (s.semijoin t p).domain = s.domain
  strategy : (s.semijoin t p).strategy = s.strategy
  adaptive : (s.semijoin t p).adaptive = s.adaptive
  toList : (s.semijoin t p).toList = s.toList.filter fun a => t.toList.any (p a)
  mem_iff : ∀ a, a ∈ (s.semijoin t p).toList ↔ a ∈ s.toList ∧ ∃ b ∈ t.toList, p a b = true
  mem_iff_product : ∀ a, a ∈ (s.semijoin t p).toList ↔
    ∃ q ∈ (s.product t).toList, q.first = a ∧ p q.first q.second = true
  contains : ∀ x, (s.semijoin t p).contains x = true ↔
    ∃ a ∈ s.toList, (a == x) = true ∧ ∃ b ∈ t.toList, p a b = true
  isSubsetOf : (s.semijoin t p).isSubsetOf s = true
  empty_left : s.isEmpty = true → (s.semijoin t p).isEmpty = true
  empty_right : t.isEmpty = true → (s.semijoin t p).isEmpty = true
  always : (∀ a b, p a b = true) → t.isEmpty = false → s.semijoin t p = s
  /-- in a store the left side stays as it is, and the semijoin is put beside it -/
  derived : ∀ (st : Store α) (a : Nat), st.subsets[a]? = some s →
    (st.step (.derive a ⟨.semijoin t p⟩)).subsets = st.subsets ++ [s.semijoin t p]
  /-- for each left member in order, about the right members in order, up to the first that is related -/
  asked : ∀ {m : Type → Type} [Monad m] [LawfulMonad m] (visit : α → β → m Unit),
    s.semijoinM t (fun a b => do visit a b; pure (p a b)) =
      (do forM (questions p s.toList t.toList) fun q => visit q.first q.second
          pure (s.semijoin t p))

theorem semijoined (s : Subset α) (t : Subset β) (p : α → β → Bool) : Semijoined s t p where
  domain := (s.semijoin_revised t p).domain
  strategy := (s.semijoin_revised t p).strategy
  adaptive := (s.semijoin_revised t p).adaptive
  toList := s.toList_semijoin t p
  mem_iff := s.mem_semijoin_iff t p
  mem_iff_product := s.mem_semijoin_iff_product t p
  contains := s.contains_semijoin t p
  isSubsetOf := s.semijoin_isSubsetOf t p
  empty_left := s.semijoin_empty_left t p
  empty_right := s.semijoin_empty_right t p
  always := s.semijoin_always t p
  derived _ _ := s.semijoin_derived t p
  asked := s.semijoinM_asks t p

/-- how semijoins by one relation or two compare -/
structure SemijoinLaws (α β : Type) [Element α] [Element β] : Prop where
  /-- any relation is blind over one domain on either side -/
  blind_of_elements : ∀ (p : α → β → Bool) (d d' : Domain α) (e e' : Domain β), d.elements = d'.elements →
    e.elements = e'.elements → Blind p d d' e e'
  /-- a relation that respects equality is blind over any domains -/
  blind_of_respects : ∀ p : α → β → Bool,
    (∀ a a' b b', (a == a') = true → (b == b') = true → p a b = p a' b') → ∀ d d' e e', Blind p d d' e e'
  mono : ∀ (s s' : Subset α) (t t' : Subset β) (p p' : α → β → Bool),
    Blind p s.domain s'.domain t.domain t'.domain → (∀ a b, p a b = true → p' a b = true) →
    s.isSubsetOf s' = true → t.isSubsetOf t' = true → (s.semijoin t p).isSubsetOf (s'.semijoin t' p') = true
  union_left : ∀ (s s' : Subset α) (t : Subset β) (p : α → β → Bool), s.domain.same s'.domain = true →
    Blind p s.domain s'.domain t.domain t.domain →
    ∃ u v, s.union s'.toOperand = .ok u ∧ (s.semijoin t p).union (s'.semijoin t p).toOperand = .ok v ∧
      (u.semijoin t p).same v = true
  union_right : ∀ (s : Subset α) (t t' : Subset β) (p : α → β → Bool), t.domain.same t'.domain = true →
    Blind p s.domain s.domain t.domain t'.domain →
    ∃ w v, t.union t'.toOperand = .ok w ∧ (s.semijoin t p).union (s.semijoin t' p).toOperand = .ok v ∧
      (s.semijoin w p).same v = true

/-- **A semijoin filters the product and projects it to the left.** Its members are those of the left side that are
related to some member of the right one, in their order; domain, form and promise are the left side's, which is left as
it is. Each question is asked in its turn and none after the first that settles the matter. A semijoin grows with either
side and with the relation, and it distributes over unions on either side: over one domain by any relation, and over
equal ones by any that answers alike for equal elements. -/
theorem semijoin_filters_product :
    (∀ (s : Subset α) (t : Subset β) (p : α → β → Bool), Semijoined s t p) ∧ SemijoinLaws α β where
  left := semijoined
  right := {
    blind_of_elements := fun p _ _ _ _ hd he => blind_of_elements hd he p
    blind_of_respects := fun _ hp => blind_of_respects hp
    mono := fun _ _ _ _ _ _ => semijoin_mono
    union_left := fun _ _ _ _ => semijoin_union_left
    union_right := fun _ _ _ _ => semijoin_union_right }

end Subset

end SubsetAlgebra
