/-
Why a JSON text is not taken.

A text may be malformed, may end too early, or may be well-formed so far and hold something that is not wanted. Reading
goes from left to right and stops at the first of these; a refusal says what was found, or which rule of domains and
subsets is broken.
-/
import SubsetAlgebra.Error

namespace SubsetAlgebra.Json

/-- what is wrong with the content of a well-formed text -/
inductive Refusal where
  /-- the content breaks a rule of domains or subsets -/
  | broken (e : Error)
  /-- a record ends without this field -/
  | missingField (name : String)
  /-- a record has this field twice -/
  | duplicateField (name : String)
  /-- a record has a field that is none of `wanted` -/
  | unknownField (name : String) (wanted : List String)
  /-- an array ends after `count` of the two items that `wanted` has -/
  | tooShort (count : Nat) (wanted : String)
  /-- a value of one kind stands where another is wanted -/
  | wrongType (found wanted : String)
  /-- a value of the wanted kind is out of its range -/
  | wrongValue (found wanted : String)
  deriving DecidableEq, Repr

/-- the sentence that reports the refusal -/
def Refusal.message : Refusal → String
  | broken e => e.message
  | missingField name => "missing field `" ++ name ++ "`"
  | duplicateField name => "duplicate field `" ++ name ++ "`"
  | unknownField name wanted =>
    "unknown field `" ++ name ++ "`, expected " ++ " or ".intercalate (wanted.map fun w => "`" ++ w ++ "`")
  | tooShort count wanted => s!"invalid length {count}, expected {wanted} with 2 elements"
  | wrongType found wanted => s!"invalid type: {found}, expected {wanted}"
  | wrongValue found wanted => s!"invalid value: {found}, expected {wanted}"

/-- why reading stopped -/
inductive ReadError where
  /-- the text is not JSON -/
  | malformed
  /-- the text ends where more has to follow -/
  | ended
  /-- the text is JSON so far and its content is refused -/
  | refused (why : Refusal)
  deriving DecidableEq, Repr

end SubsetAlgebra.Json
