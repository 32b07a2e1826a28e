/-
Changes of a subset as values, and runs of them.

`Change.apply` carries out one change and says what came of it; `Subset.run` carries out a list of changes one after the
other, going on with the subset as it was where one of them fails. In `Subset.runAny` the changes may be joined with
subsets of different types of elements.
-/
import SubsetAlgebra.Subset.Relation

namespace SubsetAlgebra

/-- one change of a subset of `α`; what it is joined with are subsets of `β` -/
inductive Change (α β : Type) [Element α] [Element β] where
  | insert (e : α)
  | erase (e : α)
  | clear
  | extend (es : List α)
  | union (o : Operand α)
  | inter (o : Operand α)
  | diff (o : Operand α)
  | complement
  | reattach (d : Domain α)
  | semijoin (t : Subset β) (related : α → β → Bool)

/-- what came of a change -/
inductive Outcome where
  /-- whether membership changed -/
  | flag (b : Bool)
  /-- how many elements were new -/
  | count (n : Nat)
  /-- nothing to say -/
  | done
  deriving DecidableEq, Repr

variable {α β : Type} [Element α] [Element β]

/-- carries out a change -/
def Change.apply (s : Subset α) : Change α β → Except Error (Subset α × Outcome)
  | .insert e => (s.insert e).map fun (s, new) => (s, .flag new)
  | .erase e => .ok ((s.erase e).1, .flag (s.erase e).2)
  | .clear => .ok (s.clear, .done)
  | .extend es => (s.extend es).map fun (s, n) => (s, .count n)
  | .union o => (s.union o).map fun s => (s, .done)
  | .inter o => (s.inter o).map fun s => (s, .done)
  | .diff o => (s.diff o).map fun s => (s, .done)
  | .complement => .ok (s.complement, .done)
  | .reattach d => (s.reattach d).map fun s => (s, .done)
  | .semijoin t related => .ok (s.semijoin t related, .done)

/-- one step of a run: a failing change leaves the subset as it is -/
def Subset.step (s : Subset α) (c : Change α β) : Subset α × Except Error Outcome :=
  match c.apply s with
  | .ok (s', r) => (s', .ok r)
  | .error e => (s, .error e)

/-- a run of changes: the subset at its end and what came of each change -/
def Subset.run (s : Subset α) : List (Change α β) → Subset α × List (Except Error Outcome)
  | [] => (s, [])
  | c :: cs =>
    let (s', r) := s.step c
    let (s'', rs) := s'.run cs
    (s'', r :: rs)

/-- a change that may be joined with subsets of elements of any type -/
structure Subset.AnyChange (α : Type) [Element α] where
  {β : Type}
  [element : Element β]
  change : Change α β

attribute [instance] Subset.AnyChange.element

/-- a run in which each change may be joined with subsets of another type -/
def Subset.runAny (s : Subset α) : List (Subset.AnyChange α) → Subset α × List (Except Error Outcome)
  | [] => (s, [])
  | c :: cs =>
    let (s', r) := s.step c.change
    let (s'', rs) := s'.runAny cs
    (s'', r :: rs)

end SubsetAlgebra
