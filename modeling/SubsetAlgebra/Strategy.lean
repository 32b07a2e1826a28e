/-
How a subset is held, and what a caller may ask for.

A subset is held compactly, in one word, or generally, as its members. A caller chooses one of the two or leaves the
choice to the size of the domain; `Choice.resolve` settles it, and fails only where a word is too small.
-/
import SubsetAlgebra.Error
import SubsetAlgebra.Word

namespace SubsetAlgebra

/-- how a subset is held -/
inductive Strategy where
  /-- in one word -/
  | compact
  /-- as its members -/
  | general
  deriving DecidableEq, Repr

/-- the strategy's name -/
def Strategy.name : Strategy → String
  | compact => "Compact"
  | general => "General"

/-- what a caller asks for -/
inductive Choice where
  /-- compact where the domain fits in a word, general otherwise -/
  | auto
  /-- compact, even if that fails -/
  | compact
  /-- general, which always succeeds -/
  | general
  deriving DecidableEq, Repr, Inhabited

/-- the strategy for a domain of `size` elements -/
def Choice.resolve (c : Choice) (size : Nat) : Except Error Strategy :=
  match c with
  | auto => if size ≤ Word.width then .ok .compact else .ok .general
  | compact => if Word.width < size then .error (.wordOverflow size) else .ok .compact
  | general => .ok .general

end SubsetAlgebra
