/-
How domains, subsets and operands are shown.

A subset is shown by its members in domain order, as the domain has them, so the representative that was inserted never
appears and equal subsets of one domain look alike whatever their form.
-/
import SubsetAlgebra.Presented
import SubsetAlgebra.Subset.Basic

namespace SubsetAlgebra

open Presented (layout tree)
open Text (Layout)

variable {α : Type} [Element α] [Presented α]

/-- the elements between brackets -/
def Domain.layout (d : Domain α) : Layout := .brackets (d.elements.map Presented.layout)

/-- the elements as an array -/
def Domain.tree (d : Domain α) : Json.Tree := .array (d.elements.map Presented.tree)

/-- the members between braces, as plain text -/
def Subset.display (s : Subset α) : String := Presented.displaySet s.toList

/-- the members between braces -/
def Subset.layout (s : Subset α) : Layout := .braces (s.toList.map Presented.layout)

/-- the domain and the members -/
def Subset.tree (s : Subset α) : Json.Tree :=
  .object [("domain", s.domain.tree), ("members", .array (s.toList.map Presented.tree))]

/-- the operand as a call of its form; a list of bits has no such text, nor has a set of two or more elements, which
has no order -/
def Operand.layout? : Operand α → Option Layout
  | mask m => some (.call "BigInt" [.plain (toString m)])
  | word w => some (.call "Word" [.plain (toString w)])
  | bits _ => none
  | elements es => some (.call "Elements" [.brackets (es.map Presented.layout)])
  | members m => if m.size ≤ 1 then some (.call "Members" [.braces (m.toList.map Presented.layout)]) else none
  | compact s => some (.call "Compact" [.braces (s.toList.map Presented.layout)])
  | general s => some (.call "General" [.braces (s.toList.map Presented.layout)])

end SubsetAlgebra
