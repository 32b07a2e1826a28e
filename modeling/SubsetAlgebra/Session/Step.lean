/-
What can be asked of a workspace: a machine that holds domains and subsets of values under names.

A step refers to domains and subsets by name. Most steps either bind a result to a name, change a named subset in place,
or only look.
-/
import SubsetAlgebra.Subset.Change
import SubsetAlgebra.Value

namespace SubsetAlgebra.Session

/-- an operand, given as it is or as the name of a subset -/
inductive Source where
  | literal (o : Operand Value)
  | named (name : String)

/-- the bits of a list from index `k` on, as an operand -/
def Source.slice (bits : List Bool) (k : Nat) : Source := .literal (.bits (bits.drop k))

/-- how a subset of a named domain is built -/
inductive Recipe where
  | empty (c : Choice)
  | emptyUnder (c : Choice)
  | full (c : Choice)
  | singleton (c : Choice) (e : Value)
  | ofList (c : Choice) (es : List Value)
  | ofSource (c : Choice) (src : Source)
  | ofWord (w : UInt64)

/-- how a new subset comes from a named one -/
inductive Derivation where
  | union (src : Source)
  | inter (src : Source)
  | diff (src : Source)
  | complement
  | reattach (d : String)

/-- a form into which a subset is brought -/
inductive Conversion where
  /-- the same subset, whatever its form -/
  | copy
  | toCompact
  | toGeneral
  | toAuto
  /-- with its form fixed, if that is how it is held already -/
  | asHeld (st : Strategy)
  /-- written and read back -/
  | reload (c : Choice)

/-- what is asked of one subset -/
inductive Query where
  | all
  | size
  | isEmpty
  | isFull
  | contains (e : Value)
  | containsPosition (p : Nat)
  | toWord
  | heldWord
  | toMask
  | toBits
  | toMembers
  | indexed
  | display
  | layout
  | spread
  | json
  | digest

/-- what is asked of two subsets -/
inductive Comparison where
  | isSubset
  | sameDomain
  | sameElements
  | same
  | product
  | visits

/-- one step -/
inductive Step where
  | domain (into : String) (es : List Value)
  | domainOfOptions (into : String) (es : List (Option Value))
  | domainCopy (into d : String)
  | domainOf (into a : String)
  | domainInfo (d : String)
  | domainGet (d : String) (i : Nat)
  | domainAt (d : String) (i : Nat)
  | domainIndexOf (d : String) (e : Value)
  | domainContains (d : String) (e : Value)
  | domainSame (d e : String)
  | fingerprints (d e : String)
  | build (into d : String) (r : Recipe)
  | ofDistinct (into : String) (es : List Value)
  | convert (into a : String) (c : Conversion)
  | derive (into a : String) (d : Derivation)
  | semijoin (into a b : String) (r : Value.Relation)
  | change (a : String) (c : Change Value Value)
  | ask (a : String) (q : Query)
  | compare (a b : String) (c : Comparison)
  | describe (src : Source)

end SubsetAlgebra.Session
