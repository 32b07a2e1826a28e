/-
The right-hand side of the algebra: every form in which some positions of a domain can be named.

Masks name positions by number and must stay inside the domain. Elements are looked up; what happens to one that the
domain does not hold is the operation's choice (`ForeignRule`): a union rejects it, an intersection or a difference
passes over it, since it cannot match a member.
-/
import SubsetAlgebra.GeneralSubset

namespace SubsetAlgebra

/-- one form in which positions of a domain are named -/
inductive Operand (α : Type) [Element α] where
  /-- an integer mask -/
  | mask (m : Int)
  /-- a mask as a list of bits -/
  | bits (b : List Bool)
  /-- a mask in a word, for domains that fit in one -/
  | word (w : UInt64)
  /-- elements, in any order and with repetitions -/
  | elements (es : List α)
  /-- a set of elements without a domain -/
  | members (m : Members α)
  /-- a subset, possibly of another domain -/
  | compact (s : CompactSubset α)
  /-- a subset, possibly of another domain -/
  | general (s : GeneralSubset α)

/-- what becomes of an operand's element that the domain does not hold -/
inductive ForeignRule where
  | reject
  | ignore
  deriving DecidableEq, Repr

namespace Operand

/-- the form of an operand, in a word -/
def form {α : Type} [Element α] : Operand α → String
  | mask _ => "bigint"
  | bits _ => "bits"
  | word _ => "word"
  | elements _ => "elements"
  | members _ => "members"
  | compact _ => "compact"
  | general _ => "general"

end Operand

end SubsetAlgebra
