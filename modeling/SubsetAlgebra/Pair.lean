/-
Ordered pairs and Cartesian products of lists.

`productM` visits every pair, the left list in the outer loop, and counts its visits; `product` collects the pairs in
that order. Nothing is visited if either list is empty.
-/
import SubsetAlgebra.Element

namespace SubsetAlgebra

/-- an ordered pair; equality, imprint and order look at `first`, then at `second` -/
structure Pair (α β : Type) where
  first : α
  second : β
  deriving DecidableEq, Repr

namespace Pair

variable {α β : Type}

/-- the pair with its components exchanged -/
def swap (p : Pair α β) : Pair β α := ⟨p.second, p.first⟩

/-- the components as a tuple -/
def toProd (p : Pair α β) : α × β := (p.first, p.second)

/-- the pair of a tuple's components -/
def ofProd (t : α × β) : Pair α β := ⟨t.1, t.2⟩

/-- both components, for a pair over one type -/
def toList (p : Pair α α) : List α := [p.first, p.second]

instance [BEq α] [BEq β] : BEq (Pair α β) := ⟨fun p q => p.first == q.first && p.second == q.second⟩

instance [Element α] [Element β] : EquivBEq (Pair α β) where
  rfl := by simp [BEq.beq]
  symm := by
    intro p q h
    simp only [BEq.beq, Bool.and_eq_true] at h ⊢
    exact ⟨BEq.symm h.1, BEq.symm h.2⟩
  trans := by
    intro p q r h k
    simp only [BEq.beq, Bool.and_eq_true] at h k ⊢
    exact ⟨BEq.trans h.1 k.1, BEq.trans h.2 k.2⟩

instance [Element α] [Element β] : Element (Pair α β) where
  imprint p := Element.imprint p.first ++ Element.imprint p.second
  imprint_eq_of_beq := by
    intro p q h
    simp only [BEq.beq, Bool.and_eq_true] at h
    rw [Element.imprint_eq_of_beq h.1, Element.imprint_eq_of_beq h.2]

/-- compares the first components, and the second ones where the first are equal -/
def compare [Ord α] [Ord β] (p q : Pair α β) : Ordering :=
  (Ord.compare p.first q.first).then (Ord.compare p.second q.second)

instance [Ord α] [Ord β] : Ord (Pair α β) := ⟨compare⟩

/-! ## Products -/

/-- visits every pair of an element of `left` and one of `right`, `left` in the outer loop, and counts the visits -/
def productM {m : Type → Type} [Monad m] (left : List α) (right : List β) (visit : α → β → m Unit) : m Nat :=
  if right.isEmpty then pure 0
  else left.foldlM (fun n a => right.foldlM (fun n b => do visit a b; pure (n + 1)) n) 0

/-- every pair of an element of `left` and one of `right`, in the order in which `productM` visits them -/
def product (left : List α) (right : List β) : List (Pair α β) :=
  ((productM left right fun a b => modify (⟨a, b⟩ :: ·) : StateM (List (Pair α β)) Nat).run []).2.reverse

end Pair

end SubsetAlgebra
