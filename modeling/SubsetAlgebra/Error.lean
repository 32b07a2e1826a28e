/-
The ways in which building a domain, looking something up in it or working with its subsets can fail.

Every failure is a cause with its numbers (positions, sizes); the sentence a reader sees is `Error.message`, the same
cause spelt as a value is `Error.spelt`. A failing operation returns the cause and no new value.
-/

namespace SubsetAlgebra

/-- one cause of failure, with the numbers that belong to it -/
inductive Error where
  /-- a source of elements has a hole at this position -/
  | missingElement (position : Nat)
  /-- a source of elements holds equal elements at two positions, `second` being the first repetition -/
  | duplicateElement (first second : Nat)
  /-- a mask given as an integer is negative -/
  | negativeMask
  /-- a mask selects a position past the end of a domain of `size` elements; `bit` is its highest one -/
  | maskOutOfDomain (bit size : Nat)
  /-- an element does not belong to the domain -/
  | foreignElement
  /-- a position past the end of a domain of `size` elements was looked up -/
  | indexOutOfRange (index size : Nat)
  /-- a 64-bit word cannot address every position of a domain of `size` elements -/
  | wordOverflow (size : Nat)
  /-- two domains were expected to be equal and are not -/
  | domainMismatch
  deriving DecidableEq, Repr

namespace Error

/-- the sentence that reports the cause -/
def message : Error → String
  | missingElement p => s!"missing element at position {p}"
  | duplicateElement f s => s!"duplicate element at positions {f} and {s}"
  | negativeMask => "negative mask is not applicable to a domain"
  | maskOutOfDomain b n => s!"mask sets bit {b}, but the domain has only {n} elements"
  | foreignElement => "element is not a member of the domain"
  | indexOutOfRange i n => s!"index {i} is out of range for a domain of {n} elements"
  | wordOverflow n => s!"domain of {n} elements does not fit in a 64-bit word"
  | domainMismatch => "domains differ"

/-- the one-word name of the cause -/
def label : Error → String
  | missingElement _ => "NullElement"
  | duplicateElement _ _ => "DuplicateElement"
  | negativeMask => "NegativeMask"
  | maskOutOfDomain _ _ => "MaskOutOfDomain"
  | foreignElement => "ElementNotInDomain"
  | indexOutOfRange _ _ => "IndexOutOfRange"
  | wordOverflow _ => "WordOverflow"
  | domainMismatch => "DomainMismatch"

/-- the numbers of the cause, each with its name -/
def numbers : Error → List (String × Nat)
  | missingElement p => [("position", p)]
  | duplicateElement f s => [("first", f), ("second", s)]
  | maskOutOfDomain b n => [("bit", b), ("size", n)]
  | indexOutOfRange i n => [("index", i), ("size", n)]
  | wordOverflow n => [("size", n)]
  | negativeMask | foreignElement | domainMismatch => []

/-- the cause written as a value: its label, then its numbers in braces if it has any -/
def spelt (e : Error) : String :=
  match e.numbers with
  | [] => e.label
  | ns => e.label ++ " \x7b " ++ ", ".intercalate (ns.map fun (name, n) => name ++ ": " ++ toString n) ++ " \x7d"

/-- whether the cause is an argument that no domain of that kind could take, as opposed to a hole in a source or a
limit of size or range -/
def isIllegalArgument : Error → Bool
  | duplicateElement _ _ | negativeMask | maskOutOfDomain _ _ | foreignElement | domainMismatch => true
  | missingElement _ | indexOutOfRange _ _ | wordOverflow _ => false

end Error

end SubsetAlgebra
