/-
Subsets of two domains, related element by element.

`productM` visits every pair of members; `semijoinM` keeps the members that are related to some member of the other
side. Both go through the members in domain order, and the test of a semijoin is asked for the members of the right
side up to the first that is related and no further. The test may have effects, so the order and number of the
questions can be recorded; `product` and `semijoin` are the plain results.
-/
import SubsetAlgebra.Subset.Basic

namespace SubsetAlgebra.Subset

variable {α β : Type} [Element α] [Element β]

/-- visits every pair of members, `s` in the outer loop, and counts the visits -/
def productM {m : Type → Type} [Monad m] (s : Subset α) (t : Subset β) (visit : α → β → m Unit) : m Nat :=
  Pair.productM s.toList t.toList visit

/-- the set of all pairs of members -/
def product (s : Subset α) (t : Subset β) : Members (Pair α β) := Members.ofList (Pair.product s.toList t.toList)

/-- the members of `s` that `related` holds of together with some member of `t` -/
def semijoinM {m : Type → Type} [Monad m] (s : Subset α) (t : Subset β) (related : α → β → m Bool) : m (Subset α) :=
  s.toList.foldlM (fun kept a => do return if ← t.toList.anyM (related a) then kept else (kept.erase a).1) s

/-- the members of `s` that are related to some member of `t` -/
def semijoin (s : Subset α) (t : Subset β) (related : α → β → Bool) : Subset α :=
  Id.run (semijoinM s t fun a b => pure (related a b))

end SubsetAlgebra.Subset
