/-
The persisted form as JSON text.

`Readable` is how the elements of a type are read; `readDomain` and `readSubset` read whole texts. Reading stops at the
first fault met from left to right, whether it lies in the text or in what the text holds.
-/
import SubsetAlgebra.Json.Scan
import SubsetAlgebra.Persisted.Document

namespace SubsetAlgebra.Persisted

open Json (ReadError Refusal Scan)
open Json.Scan

/-! ## Elements -/

/-- types whose values can be read from JSON text -/
class Readable (α : Type) where
  scan : Scan α

/-- a whole number between two bounds; `wanted` names the type in a refusal -/
def boundedInt (wanted : String) (low high : Int) : Scan Int := do
  let number ←
    match ← peekPart with
    | none => throw .ended
    | some c =>
      if c = '-' then
        advance
        numeral false
      else if c.isDigit then numeral true
      else wrongType wanted
  let check (n : Int) : Scan Int :=
    if low ≤ n ∧ n ≤ high then pure n else refuse (.wrongValue number.found wanted)
  match number with
  | .natural n => check n
  | .negative n => check n
  | .real _ => refuse (.wrongType number.found wanted)

/-- signed numbers of 64 bits -/
instance : Readable Int := ⟨boundedInt "i64" (-(2 : Int) ^ (63 : Nat)) ((2 : Int) ^ (63 : Nat) - 1)⟩

/-- unsigned numbers of 8 bits -/
instance : Readable UInt8 := ⟨return UInt8.ofNat (← boundedInt "u8" 0 255).toNat⟩

instance : Readable Bool where
  scan := do
    match ← peekPart with
    | none => throw .ended
    | some 't' => word "true".toList; return true
    | some 'f' => word "false".toList; return false
    | some _ => wrongType "a boolean"

/-- a string; `wanted` names the type in a refusal -/
def stringAs (wanted : String) : Scan String := do
  match ← peekPart with
  | none => throw .ended
  | some '"' => advance; string
  | some _ => wrongType wanted

instance : Readable String := ⟨stringAs "a string"⟩

/-- characters are strings of one character -/
instance : Readable Char where
  scan := do
    let s ← stringAs "a character"
    match s.toList with
    | [c] => return c
    | _ => refuse (.wrongValue (stringFound s) "a character")

/-- what has been read of a pair -/
structure PairDraft (α β : Type) where
  first : Option α := none
  second : Option β := none

/-- both components, if they are there -/
def PairDraft.finish {α β : Type} (d : PairDraft α β) : Except Refusal (Pair α β) :=
  match d.first, d.second with
  | none, _ => .error (.missingField "first")
  | some _, none => .error (.missingField "second")
  | some a, some b => .ok ⟨a, b⟩

/-- pairs are records with the fields `first` and `second`, others passed over, or arrays of two items -/
instance {α β : Type} [Readable α] [Readable β] : Readable (Pair α β) where
  scan :=
    record "struct Pair" ({} : PairDraft α β)
      (fun d key => do
        match key with
        | "first" =>
          if d.first.isSome then refuse (.duplicateField key)
          colon
          return { d with first := some (← Readable.scan) }
        | "second" =>
          if d.second.isSome then refuse (.duplicateField key)
          colon
          return { d with second := some (← Readable.scan) }
        | _ =>
          colon
          skipValue
          return d)
      (fun d isSecond => do
        if isSecond then return { d with second := some (← Readable.scan) }
        else return { d with first := some (← Readable.scan) })
      PairDraft.finish

/-! ## Domains and subsets -/

variable {α : Type} [Element α] [Readable α]

/-- a field's elements, into the draft -/
def scanField (d : Draft α) (f : Field) : Scan (Draft α) := do
  let es ← array Readable.scan
  lift (d.set f es)

/-- the two lists of a document -/
def scanParts : Scan (Domain α × List α) :=
  record Document.recordName ({} : Draft α)
    (fun d key => do
      let f ← lift (d.announce key)
      colon
      scanField d f)
    (fun d isSecond => scanField d (if isSecond then .members else .domain))
    Draft.finish

/-- the domain that a text holds -/
def readDomain (text : String) : Except ReadError (Domain α) :=
  run (do lift ((Domain.ofList (← array Readable.scan)).mapError .broken)) text

/-- the subset that a text holds -/
def readSubset (c : Choice) (text : String) : Except ReadError (Subset α) :=
  run (do lift (restore c (← scanParts))) text

end SubsetAlgebra.Persisted
