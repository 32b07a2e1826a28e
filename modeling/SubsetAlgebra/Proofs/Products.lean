/-
Cartesian products: the pairs that are visited, and the order in which they are.

Visiting every pair of two lists, with whatever effects, is visiting the list of the pairs, the left list in the outer
loop (`productM_eq`); collecting them is a visit that notes each one, so `product` is that list (`product_eq`). Pairs of
lists without repetitions are no repetitions themselves, and a set made of them has them all in that order
(`toList_product`).
-/
import SubsetAlgebra.Proofs.Views
import SubsetAlgebra.Subset.Relation

namespace SubsetAlgebra

namespace Pair

variable {α β : Type}

section Visits

variable {m : Type → Type} [Monad m] [LawfulMonad m] {visit : α → β → m Unit}

/-- one round of the outer loop -/
theorem foldlM_round (a : α) (right : List β) (n : Nat) :
    right.foldlM (fun n b => do visit a b; pure (n + 1)) n =
      (do forM right (visit a); pure (n + right.length)) := by
  induction right generalizing n with
  | nil => simp
  | cons b right ih =>
    simp only [List.foldlM_cons, List.forM_cons, bind_assoc, pure_bind, ih, List.length_cons]
    rw [Nat.add_right_comm, Nat.add_assoc]

/-- all rounds -/
theorem foldlM_rounds (left : List α) (right : List β) (n : Nat) :
    left.foldlM (fun n a => right.foldlM (fun n b => do visit a b; pure (n + 1)) n) n =
      (do forM (left.flatMap fun a => right.map (Pair.mk a)) fun q => visit q.first q.second
          pure (n + left.length * right.length)) := by
  induction left generalizing n with
  | nil => simp
  | cons a left ih =>
    rw [List.foldlM_cons, foldlM_round]
    simp only [bind_assoc, pure_bind, ih, List.flatMap_cons, List.forM_append, List.forM_map, List.length_cons]
    rw [Nat.succ_mul, Nat.add_assoc, Nat.add_comm right.length]

end Visits

theorem flatMap_nil_right (left : List α) : (left.flatMap fun a => ([] : List β).map (Pair.mk a)) = [] := by
  simp

/-- visiting every pair, in any way, is visiting the list of the pairs and counting them -/
theorem productM_visits {m : Type → Type} [Monad m] [LawfulMonad m] (left : List α) (right : List β)
    (visit : α → β → m Unit) : productM left right visit =
      (do forM (left.flatMap fun a => right.map (Pair.mk a)) fun q => visit q.first q.second
          pure (left.length * right.length)) := by
  unfold productM
  split
  · next h =>
    rw [List.isEmpty_iff.1 h, flatMap_nil_right]
    simp
  · rw [foldlM_rounds, Nat.zero_add]

/-- noting things one after the other, the latest in front -/
theorem run_forM_modify {γ : Type} (ys zs : List γ) :
    (forM ys (fun y => (modify (y :: ·) : StateM (List γ) Unit))).run zs = ((), ys.reverse ++ zs) := by
  induction ys generalizing zs with
  | nil => rfl
  | cons y ys ih =>
    rw [List.forM_cons, List.reverse_cons, List.append_assoc]
    exact ih (y :: zs)

theorem product_eq (left : List α) (right : List β) :
    product left right = left.flatMap fun a => right.map (Pair.mk a) := by
  have hrun := congrArg (fun x => x.2.reverse) (run_forM_modify (left.flatMap fun a => right.map (Pair.mk a)) [])
  rw [product, productM_visits]
  refine Eq.trans hrun ?_
  simp

theorem productM_eq {m : Type → Type} [Monad m] [LawfulMonad m] (left : List α) (right : List β)
    (visit : α → β → m Unit) : productM left right visit =
      (do forM (product left right) fun q => visit q.first q.second
          pure (left.length * right.length)) := by
  rw [productM_visits, product_eq]

theorem mem_product {left : List α} {right : List β} {q : Pair α β} :
    q ∈ product left right ↔ q.first ∈ left ∧ q.second ∈ right := by
  simp only [product_eq, List.mem_flatMap, List.mem_map]
  constructor
  · rintro ⟨a, ha, b, hb, rfl⟩
    exact ⟨ha, hb⟩
  · intro h
    exact ⟨q.first, h.1, q.second, h.2, rfl⟩

theorem product_distinct [Element α] [Element β] {left : List α} {right : List β} (hl : left.Pairwise Unequal)
    (hr : right.Pairwise Unequal) : (product left right).Pairwise Unequal := by
  have hunequal : ∀ {p q : Pair α β}, (p.first == q.first) = false ∨ (p.second == q.second) = false → Unequal p q := by
    intro p q h
    exact Bool.and_eq_false_iff.2 h
  rw [product_eq, List.pairwise_flatMap]
  constructor
  · intro a _
    rw [List.pairwise_map]
    exact hr.imp fun hbb' => hunequal (.inr hbb')
  · refine hl.imp fun haa' p hp q hq => ?_
    obtain ⟨b, -, rfl⟩ := List.mem_map.1 hp
    obtain ⟨b', -, rfl⟩ := List.mem_map.1 hq
    exact hunequal (.inl haa')

end Pair

/-! ## As sets -/

variable {α β : Type} [Element α] [Element β]

theorem Members.toList_insert_new {m : Members α} {e : α} (h : m.contains e = false) :
    (m.insert e).toList = m.toList ++ [e] := by
  unfold Members.insert
  split
  · next hc => rw [hc] at h; cases h
  · rfl

/-- a set made of pairwise unequal elements has them all, in their order -/
theorem Members.toList_ofList {es : List α} (h : es.Pairwise Unequal) : (Members.ofList es).toList = es := by
  have hfold : ∀ (m : Members α), (m.toList ++ es).Pairwise Unequal →
      (es.foldl Members.insert m).toList = m.toList ++ es := by
    clear h
    induction es with
    | nil => intro m _; exact (List.append_nil _).symm
    | cons e es ih =>
      intro m hm
      have hnew : m.contains e = false := by
        unfold Members.contains
        rw [List.any_eq_false]
        intro a ha
        have := (List.pairwise_append.1 hm).2.2 a ha e List.mem_cons_self
        rw [this]
        exact Bool.false_ne_true
      have hinsert := Members.toList_insert_new hnew
      rw [List.foldl_cons, ih _ (by rw [hinsert]; simpa using hm), hinsert]
      simp
  exact hfold Members.empty h

/-- the product of two subsets is the list of their pairs, the left members in the outer loop -/
theorem Subset.toList_product (s : Subset α) (t : Subset β) : (s.product t).toList = Pair.product s.toList t.toList :=
  Members.toList_ofList (Pair.product_distinct s.toList_distinct t.toList_distinct)

end SubsetAlgebra
