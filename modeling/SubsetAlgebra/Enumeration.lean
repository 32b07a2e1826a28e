/-
Types with finitely many values, declared by listing their names.

The values of such a type, in the order of declaration, make up a domain, so sets of values are subsets of it and a
value owns the bit of its position. `bitmask` builds the word of a list of values without going through a subset.
-/
import SubsetAlgebra.Subset.Presented

namespace SubsetAlgebra

/-- a finite type, as the list of its values' names -/
structure Enumeration where
  names : List String
  deriving Repr

namespace Enumeration

variable (E : Enumeration)

/-- number of values -/
def size : Nat := E.names.length

/-- a value, known by its position in the declaration -/
abbrev Value : Type := Fin E.size

/-- all values, in the order of declaration -/
def variants : List E.Value := List.finRange E.size

theorem variants_unequal : E.variants.Pairwise Unequal := by
  apply (List.nodup_finRange E.size).imp
  intro a b h
  exact beq_eq_false_iff_ne.2 h

/-- the domain of all values -/
def domain : Domain E.Value := { elements := E.variants, distinct := E.variants_unequal }

/-- the subset of all values -/
def all : Subset E.Value := .fullAuto E.domain

/-- the subset without values -/
def none : Subset E.Value := .emptyAuto E.domain

/-- the subset of these values; it never fails, since values belong to their own domain -/
def setOf (vs : List E.Value) : Except Error (Subset E.Value) := Subset.ofList .auto E.domain vs

variable {E}

/-- the value of a name -/
def valueOf? (E : Enumeration) (name : String) : Option E.Value := E.names.findFinIdx? (· == name)

/-- the name of a value -/
def nameOf (v : E.Value) : String := E.names.get v

/-- the position of a value in the declaration -/
def position (v : E.Value) : Nat := v.val

/-- the word with only this value's bit -/
def bit (v : E.Value) : Except Error UInt64 :=
  if Word.width < E.size then .error (.wordOverflow E.size) else .ok (Word.bit (position v))

/-- the bits of these values added to `w`; each value is asked for its bit in turn -/
def addBits (w : UInt64) : List E.Value → Except Error UInt64
  | [] => .ok w
  | v :: vs =>
    match bit v with
    | .error e => .error e
    | .ok b => addBits (w ||| b) vs

/-- the word with the bits of these values -/
def bitmask (vs : List E.Value) : Except Error UInt64 := addBits 0 vs

/-- whether a value is in a subset of the type -/
def elementOf (v : E.Value) (s : Subset E.Value) : Bool := s.contains v

/-- the values in the order of declaration, repetitions kept -/
def sorted (vs : List E.Value) : List E.Value := vs.mergeSort fun a b => decide (position a ≤ position b)

instance : Presented E.Value where
  display := nameOf
  layout v := .plain (nameOf v)
  tree v := .text (nameOf v)

end Enumeration

/-! ## Some enumerations -/

namespace Enumeration

/-- a type with a single value -/
def solo : Enumeration := ⟨["Only"]⟩

/-- the suits of a pack of cards -/
def suit : Enumeration := ⟨["Clubs", "Diamonds", "Hearts", "Spades"]⟩

/-- the planets, from the sun outwards -/
def planet : Enumeration :=
  ⟨["Mercury", "Venus", "Earth", "Mars", "Jupiter", "Saturn", "Uranus", "Neptune"]⟩

/-- `n` values named `V0`, `V1` and so on -/
def wide (n : Nat) : Enumeration := ⟨(List.range n).map fun i => "V" ++ toString i⟩

end Enumeration

end SubsetAlgebra
