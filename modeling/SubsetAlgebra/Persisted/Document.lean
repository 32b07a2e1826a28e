/-
The persisted form of a subset: a record of its domain's elements and of its members, or an array of the two lists.

Writing lists the members in domain order, so the form shows which positions are members and nothing else. Reading
collects the two lists in a `Draft`, in whatever order they come: the domain is checked as soon as it is there, the
members only when the whole document has been read. Every document that is refused is refused for its first fault in
this order.
-/
import SubsetAlgebra.Json.Refusal
import SubsetAlgebra.Subset.Basic

namespace SubsetAlgebra.Persisted

open Json (ReadError Refusal)

/-! ## Drafts -/

/-- the two fields of the record -/
inductive Field where
  | domain
  | members
  deriving DecidableEq, Repr

/-- the name of a field -/
def Field.name : Field → String
  | domain => "domain"
  | members => "members"

/-- the field of a name -/
def Field.ofName? (name : String) : Option Field := [domain, members].find? fun f => f.name == name

/-- what has been read of a document -/
structure Draft (α : Type) [Element α] where
  domain : Option (Domain α) := none
  members : Option (List α) := none

namespace Draft

variable {α : Type} [Element α]

/-- the field that a name announces, if it is one of the two and has not been read before -/
def announce (d : Draft α) (name : String) : Except Refusal Field :=
  match Field.ofName? name with
  | none => .error (.unknownField name [Field.domain.name, Field.members.name])
  | some .domain => if d.domain.isSome then .error (.duplicateField name) else .ok .domain
  | some .members => if d.members.isSome then .error (.duplicateField name) else .ok .members

/-- the draft with the elements of a field; a domain may have no repetition -/
def set (d : Draft α) (f : Field) (es : List α) : Except Refusal (Draft α) :=
  match f with
  | .domain => ((Domain.ofList es).map fun domain => { d with domain := some domain }).mapError .broken
  | .members => .ok { d with members := some es }

/-- the domain and the members, if both are there -/
def finish (d : Draft α) : Except Refusal (Domain α × List α) :=
  match d.domain, d.members with
  | none, _ => .error (.missingField Field.domain.name)
  | some _, none => .error (.missingField Field.members.name)
  | some domain, some members => .ok (domain, members)

end Draft

/-- the subset of the members that were read, over the domain that was read -/
def restore {α : Type} [Element α] (c : Choice) (parts : Domain α × List α) : Except Refusal (Subset α) :=
  (Subset.ofList c parts.1 parts.2).mapError .broken

/-! ## Documents -/

/-- one entry of a record: a field's name and its elements -/
structure Entry (α : Type) where
  name : String
  elements : List α
  deriving DecidableEq, Repr

/-- a document with elements of type `α` -/
inductive Document (α : Type) where
  /-- named lists in any order -/
  | record (entries : List (Entry α))
  /-- lists in a fixed order, the domain first -/
  | array (lists : List (List α))
  deriving DecidableEq, Repr

namespace Document

variable {α : Type} [Element α]

/-- the persisted form of a subset -/
def ofSubset (s : Subset α) : Document α :=
  .record [⟨Field.domain.name, s.domain.elements⟩, ⟨Field.members.name, s.toList⟩]

/-- the draft after one more entry -/
def addEntry (d : Draft α) (entry : Entry α) : Except Refusal (Draft α) := do
  let f ← d.announce entry.name
  d.set f entry.elements

/-- what the record is called when its parts are missing -/
def recordName : String := "struct Persisted"

/-- the two lists of a document, the domain checked -/
def parts : Document α → Except ReadError (Domain α × List α)
  | .record entries => do
    let d ← (entries.foldlM addEntry {}).mapError .refused
    d.finish.mapError .refused
  | .array lists => do
    match lists with
    | [] => throw (.refused (.tooShort 0 recordName))
    | es :: rest =>
      let d ← (({} : Draft α).set .domain es).mapError .refused
      match rest with
      | [] => throw (.refused (.tooShort 1 recordName))
      | ms :: others =>
        let d ← (d.set .members ms).mapError .refused
        if others.isEmpty then d.finish.mapError .refused else throw .malformed

/-- the subset that a document holds -/
def read (c : Choice) (doc : Document α) : Except ReadError (Subset α) := do
  let parts ← doc.parts
  (restore c parts).mapError .refused

end Document

end SubsetAlgebra.Persisted
