/-
How elements are shown: as plain text, as a layout that shows their structure, and as a JSON value.
-/
import SubsetAlgebra.Json.Tree
import SubsetAlgebra.Pair
import SubsetAlgebra.Text.Layout

namespace SubsetAlgebra

/-- the three ways of showing an element -/
class Presented (α : Type) where
  /-- plain text -/
  display : α → String
  /-- structure -/
  layout : α → Text.Layout
  /-- JSON -/
  tree : α → Json.Tree

namespace Presented

/-- elements between braces, separated by commas -/
def displaySet {α : Type} [Presented α] (es : List α) : String :=
  "\x7b" ++ ", ".intercalate (es.map display) ++ "\x7d"

instance : Presented Int := ⟨toString, fun n => .plain (toString n), .number⟩

instance : Presented UInt8 := ⟨toString, fun n => .plain (toString n), fun n => .number n.toNat⟩

instance : Presented Bool := ⟨toString, fun b => .plain (toString b), .boolean⟩

instance : Presented Char := ⟨Char.toString, fun c => .plain (Text.quoteChar c), fun c => .text c.toString⟩

instance : Presented String := ⟨id, fun s => .plain (Text.quote s), .text⟩

instance {α β : Type} [Presented α] [Presented β] : Presented (Pair α β) where
  display p := "(" ++ display p.first ++ ", " ++ display p.second ++ ")"
  layout p := .record "Pair" [("first", layout p.first), ("second", layout p.second)]
  tree p := .object [("first", tree p.first), ("second", tree p.second)]

end Presented

end SubsetAlgebra
