/-
Domains in memory: cells that remember the value of a fingerprint, and handles that name them.

A cell has elements, which never change, and a slot for the value of its fingerprint, which is filled when that is first
asked for. Handles name cells, so two of them may name one; a copy is another cell, and takes along what is in the slot.
A comparison looks at the handles first, then at the lengths, then at the slots if both are filled, and only then at the
elements. The function that condenses fingerprints into machine words may give one value to many of them.
-/
import SubsetAlgebra.Domain

namespace SubsetAlgebra

variable {α : Type} [Element α]

/-! ## Cells -/

/-- a domain in memory: its elements, and a slot for the value of its fingerprint -/
structure Cell (α : Type) where
  elements : List α
  slot : Option UInt64

namespace Cell

section Value

variable (hash : Fingerprint → UInt64)

/-- the value of the fingerprint, computed anew -/
def afresh (c : Cell α) : UInt64 := hash (fingerprintOf c.elements)

/-- the value of the fingerprint: what is in the slot, or else computed -/
def value (c : Cell α) : UInt64 := c.slot.getD (c.afresh hash)

/-- the cell once the fingerprint has been asked for -/
def filled (c : Cell α) : Cell α := { c with slot := some (c.value hash) }

end Value

/-- both slots are filled, and not alike -/
def apart (a b : Cell α) : Bool :=
  match a.slot, b.slot with
  | some v, some w => v != w
  | _, _ => false

/-- compares the lengths, the slots if both are filled, and the elements -/
def same (a b : Cell α) : Bool :=
  a.elements.length == b.elements.length && !a.apart b && a.elements == b.elements

end Cell

/-- the cell of a domain -/
def Domain.cell (hash : Fingerprint → UInt64) (d : Domain α) : Cell α := ⟨d.elements, d.known.map hash⟩

/-! ## Histories -/

/-- the cells in the order in which they were made; a handle is the place of a cell -/
abbrev Memory (α : Type) : Type := List (Cell α)

/-- what can be done with domains in memory -/
inductive Memory.Call (α : Type) where
  | make (es : List α)
  /-- another cell with the same elements and the same slot -/
  | copy (h : Nat)
  /-- the fingerprint is asked for, by itself or to be fed to a hash -/
  | ask (h : Nat)
  | compare (h k : Nat)

namespace Memory

/-- compares what two handles name: it is one cell, or the cells are the same -/
def compare (m : Memory α) (h k : Nat) : Option Bool :=
  m[h]?.bind fun a => m[k]?.map fun b => h == k || a.same b

/-- compares two handles before what they name -/
def sameDomain (m : Memory α) (h k : Nat) : Option Bool := (m.compare h k).map fun b => h == k || b

section Steps

variable (hash : Fingerprint → UInt64)

/-- one call; nothing is made of a list with a repetition -/
def step (m : Memory α) : Call α → Memory α
  | .make es => m ++ ((Domain.ofList es).toOption.map (Domain.cell hash)).toList
  | .copy h => m ++ m[h]?.toList
  | .ask h => m.modify h (Cell.filled hash)
  | .compare _ _ => m

/-- a history of calls -/
def run (m : Memory α) (calls : List (Call α)) : Memory α := calls.foldl (step hash) m

end Steps

end Memory

end SubsetAlgebra
