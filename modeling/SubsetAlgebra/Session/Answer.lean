/-
What a workspace answers.
-/
import SubsetAlgebra.Json.Refusal
import SubsetAlgebra.Subset.Change
import SubsetAlgebra.Value

namespace SubsetAlgebra.Session

/-- why a step fails -/
inductive Failure where
  /-- a rule of domains and subsets is broken -/
  | broken (e : Error)
  /-- a name stands for nothing -/
  | unbound (name : String)
  /-- an element is asked for past the end of a domain, where that is not allowed to happen -/
  | outOfBounds (size index : Nat)
  /-- what was written cannot be read back -/
  | unreadable (e : Json.ReadError)

/-- the form and the positions of a subset -/
structure State where
  form : String
  positions : List Nat

/-- what is told of a domain at once -/
structure DomainReport where
  size : Nat
  isEmpty : Bool
  fitsWord : Bool
  fullWord : Except Error UInt64
  elements : List Value
  layout : Text.Layout
  tree : Json.Tree

/-- what is told of a subset at once -/
structure SubsetReport where
  form : String
  domainSize : Nat
  size : Nat
  isEmpty : Bool
  isFull : Bool
  positions : List Nat
  members : List Value
  word : Except Error UInt64
  mask : Int
  bits : List Bool
  display : String

/-- pairs of values in the order in which a function was called on them -/
abbrev Calls := List (Pair Value Value)

/-- the answer to a step -/
inductive Answer where
  | failed (f : Failure)
  | domainMade (size : Nat)
  | domain (r : DomainReport)
  | element (v : Value)
  | position (p : Option Nat)
  | flag (b : Bool)
  | count (n : Nat)
  | word (w : Except Error UInt64)
  | heldWord (w : Option UInt64)
  | mask (m : Int)
  | bits (b : List Bool)
  | text (s : String)
  | fingerprints (sameFingerprint sameHash : Bool)
  | made (s : State)
  | notHeldSo
  | joined (s : State) (calls : Calls)
  | changed (r : Except Error Outcome) (s : State)
  | subset (r : SubsetReport)
  | members (vs : List Value)
  | indexed (ps : List (Pair Nat Value))
  | digest (startsWithFingerprint : Bool) (sizes : List Nat)
  | same (equal sameHash : Bool)
  | pairs (ps : List (Pair Value Value))
  | visits (count : Nat) (calls : Calls)
  | operand (form : String) (layout : Option Text.Layout)

end SubsetAlgebra.Session
