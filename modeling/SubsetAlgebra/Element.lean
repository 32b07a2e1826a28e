/-
What a type needs before its values can be elements of a domain: an equality that is an equivalence, and imprints that
agree with it. The equality may be coarser than identity, so two different values can be the same element.

The imprint of a value is the list of numbers that stands for it wherever values are compared by a hash. It is kept
whole and not condensed into a machine word, so unequal values do not share one by accident.
-/

namespace SubsetAlgebra

/-- types whose values can be elements: equality is an equivalence and equal values have the same imprint -/
class Element (α : Type) extends BEq α where
  [equiv : EquivBEq α]
  /-- the numbers that stand for a value in a hash -/
  imprint : α → List Int
  imprint_eq_of_beq {a b : α} : (a == b) = true → imprint a = imprint b

attribute [instance] Element.equiv

-- a type that has an equality of its own is compared by that
attribute [instance (low)] Element.toBEq

/-- the pairwise difference that domains and member lists keep -/
abbrev Unequal {α : Type} [BEq α] (a b : α) : Prop := (a == b) = false

theorem Unequal.symm {α : Type} [Element α] {a b : α} (h : Unequal a b) : Unequal b a := by
  unfold Unequal at *
  rw [BEq.comm, h]

namespace Element

/-- any imprint agrees with an equality that is identity -/
abbrev ofLawful {α : Type} [BEq α] [LawfulBEq α] (imprint : α → List Int) : Element α where
  imprint := imprint
  imprint_eq_of_beq h := congrArg imprint (eq_of_beq h)

/-- the imprint of a text: the number of its characters, then each of them -/
def ofText (s : String) : List Int := (s.toList.length : Int) :: s.toList.map fun c => (c.toNat : Int)

end Element

instance : Element Int := .ofLawful fun n => [n]
instance : Element Nat := .ofLawful fun n => [(n : Int)]
instance : Element UInt8 := .ofLawful fun n => [(n.toNat : Int)]
instance : Element Bool := .ofLawful fun b => [(b.toNat : Int)]
instance : Element Char := .ofLawful fun c => [(c.toNat : Int)]
instance : Element String := .ofLawful Element.ofText
instance (n : Nat) : Element (Fin n) := .ofLawful fun i => [(i.val : Int)]

end SubsetAlgebra
