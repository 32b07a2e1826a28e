/-
Subsets of a domain, however they are held.

A `Subset` is a representation together with the promise made when it was built: either the caller fixed the
representation (`adaptive := false`), or left it to the library (`adaptive := true`). Every operation is carried out by
the representation and keeps both, so a subset's strategy never changes under the algebra. Only building a subset anew
(`empty`, `ofList`, `reattach`) chooses again.

Subsets of different domains and strategies can be compared and combined; where the right-hand side lives in another
domain its elements are looked up.
-/
import SubsetAlgebra.CompactSubset.Algebra
import SubsetAlgebra.GeneralSubset.Algebra
import SubsetAlgebra.Pair
import SubsetAlgebra.Strategy

namespace SubsetAlgebra

/-- a subset in one of the two forms -/
inductive Representation (α : Type) [Element α] where
  | compact (s : CompactSubset α)
  | general (s : GeneralSubset α)

/-- a subset, and whether its form was left to the library -/
structure Subset (α : Type) [Element α] where
  rep : Representation α
  adaptive : Bool

namespace Representation

variable {α : Type} [Element α]

/-- asks whichever form is there -/
def elim {β : Type} (onCompact : CompactSubset α → β) (onGeneral : GeneralSubset α → β) : Representation α → β
  | compact s => onCompact s
  | general s => onGeneral s

/-- changes whichever form is there, keeping the form -/
def mapM (onCompact : CompactSubset α → Except Error (CompactSubset α))
    (onGeneral : GeneralSubset α → Except Error (GeneralSubset α)) : Representation α → Except Error (Representation α)
  | compact s => (onCompact s).map compact
  | general s => (onGeneral s).map general

/-- the strategy of the form -/
def strategy : Representation α → Strategy
  | compact _ => .compact
  | general _ => .general

/-- the form as an operand -/
def toOperand : Representation α → Operand α
  | compact s => .compact s
  | general s => .general s

end Representation

namespace Subset

variable {α : Type} [Element α]

open SubsetAlgebra.Representation (elim)

/-! ## Looking -/

/-- the domain that the subset is a part of -/
def domain (s : Subset α) : Domain α := s.rep.elim (·.domain) (·.domain)

/-- number of members -/
def size (s : Subset α) : Nat := s.rep.elim (·.size) (·.size)

/-- whether there is no member -/
def isEmpty (s : Subset α) : Bool := s.rep.elim (·.isEmpty) (·.isEmpty)

/-- whether every element of the domain is a member -/
def isFull (s : Subset α) : Bool := s.size == s.domain.size

/-- whether an element equal to `e` is a member -/
def contains (s : Subset α) (e : α) : Bool := s.rep.elim (·.contains e) (·.contains e)

/-- whether the element at this position is a member -/
def containsPosition (s : Subset α) (p : Nat) : Bool := s.rep.elim (·.containsPosition p) (·.containsPosition p)

/-- the positions of the members, ascending -/
def positions (s : Subset α) : List Nat := s.rep.elim (·.positions) (·.positions)

/-- the members in domain order, as the domain has them -/
def toList (s : Subset α) : List α := s.domain.select s.positions

/-- the members in domain order, each with its position -/
def indexed (s : Subset α) : List (Pair Nat α) :=
  s.positions.filterMap fun i => s.domain.elements[i]?.map fun e => ⟨i, e⟩

/-- how the subset is held -/
def strategy (s : Subset α) : Strategy := s.rep.strategy

/-- what was asked for when the subset was built -/
def choice (s : Subset α) : Choice :=
  if s.adaptive then .auto
  else match s.strategy with
    | .compact => .compact
    | .general => .general

/-- the subset as an operand -/
def toOperand (s : Subset α) : Operand α := s.rep.toOperand

/-! ## Building -/

/-- a subset whose form was fixed by the caller -/
def ofCompact (s : CompactSubset α) : Subset α := ⟨.compact s, false⟩

/-- a subset whose form was fixed by the caller -/
def ofGeneral (s : GeneralSubset α) : Subset α := ⟨.general s, false⟩

/-- the subset without members, in the form that fits the domain -/
def emptyAuto (d : Domain α) : Subset α :=
  if h : d.size ≤ Word.width then ⟨.compact ⟨d, 0, h, CompactSubset.zero_lt d⟩, true⟩ else ⟨.general (.empty d), true⟩

/-- the subset without members -/
def empty (c : Choice) (d : Domain α) : Except Error (Subset α) :=
  match c with
  | .auto => .ok (emptyAuto d)
  | .compact => (CompactSubset.empty d).map ofCompact
  | .general => .ok (ofGeneral (.empty d))

/-- the subset without members, its form left to the library under a policy of its own -/
def emptyUnder (c : Choice) (d : Domain α) : Except Error (Subset α) :=
  match c.resolve d.size with
  | .error e => .error e
  | .ok .compact => (CompactSubset.empty d).map fun s => ⟨.compact s, true⟩
  | .ok .general => .ok ⟨.general (.empty d), true⟩

/-! ## Changing -/

/-- adds an element; the flag says whether it was not a member before -/
def insert (s : Subset α) (e : α) : Except Error (Subset α × Bool) :=
  match s.rep with
  | .compact c => (c.insert e).map fun (c, new) => ({ s with rep := .compact c }, new)
  | .general g => (g.insert e).map fun (g, new) => ({ s with rep := .general g }, new)

/-- removes an element; the flag says whether it was a member before -/
def erase (s : Subset α) (e : α) : Subset α × Bool :=
  match s.rep with
  | .compact c => ({ s with rep := .compact (c.erase e).1 }, (c.erase e).2)
  | .general g => ({ s with rep := .general (g.erase e).1 }, (g.erase e).2)

/-- removes every member -/
def clear (s : Subset α) : Subset α :=
  { s with rep := s.rep.elim (fun c => .compact c.clear) (fun g => .general g.clear) }

/-- adds elements in turn, adding to `n` the number of those that were new -/
def insertAll (s : Subset α) (n : Nat) : List α → Except Error (Subset α × Nat)
  | [] => .ok (s, n)
  | e :: rest =>
    match s.insert e with
    | .error err => .error err
    | .ok (s, new) => s.insertAll (if new then n + 1 else n) rest

/-- adds every element and says how many were new, or adds none if one is foreign -/
def extend (s : Subset α) (es : List α) : Except Error (Subset α × Nat) :=
  if es.any fun e => !s.domain.contains e then .error .foreignElement else s.insertAll 0 es

/-! ## Algebra -/

/-- the members and what the operand names -/
def union (s : Subset α) (o : Operand α) : Except Error (Subset α) :=
  (s.rep.mapM (·.union o) (·.union o)).map fun r => { s with rep := r }

/-- the members that the operand names -/
def inter (s : Subset α) (o : Operand α) : Except Error (Subset α) :=
  (s.rep.mapM (·.inter o) (·.inter o)).map fun r => { s with rep := r }

/-- the members that the operand does not name -/
def diff (s : Subset α) (o : Operand α) : Except Error (Subset α) :=
  (s.rep.mapM (·.diff o) (·.diff o)).map fun r => { s with rep := r }

/-- the elements of the domain that are not members -/
def complement (s : Subset α) : Subset α :=
  { s with rep := s.rep.elim (fun c => .compact c.complement) (fun g => .general g.complement) }

/-! ## Building from members -/

/-- the subset of all elements, in the form that fits the domain -/
def fullAuto (d : Domain α) : Subset α := (emptyAuto d).complement

/-- the subset of all elements -/
def full (c : Choice) (d : Domain α) : Except Error (Subset α) :=
  match c with
  | .auto => .ok (fullAuto d)
  | .compact => (CompactSubset.full d).map ofCompact
  | .general => .ok (ofGeneral (.full d))

/-- all of these elements, as a subset of the domain that they make up -/
def ofDistinct (es : List α) : Except Error (Subset α) := (Domain.ofList es).map fullAuto

/-- the subset that an operand names -/
def ofOperand (c : Choice) (d : Domain α) (o : Operand α) : Except Error (Subset α) :=
  match c with
  | .auto => (emptyAuto d).union o
  | .compact => (CompactSubset.ofOperand d o).map ofCompact
  | .general => (GeneralSubset.ofOperand d o).map ofGeneral

/-- the compact subset whose positions are the bits of `w` -/
def ofWord (d : Domain α) (w : UInt64) : Except Error (Subset α) := (CompactSubset.ofWord d w).map ofCompact

/-- the subset of one element -/
def singleton (c : Choice) (d : Domain α) (e : α) : Except Error (Subset α) :=
  match empty c d with
  | .error err => .error err
  | .ok s => (s.insert e).map (·.1)

/-- the subset of these elements -/
def ofList (c : Choice) (d : Domain α) (es : List α) : Except Error (Subset α) :=
  match empty c d with
  | .error err => .error err
  | .ok s => (s.extend es).map (·.1)

/-- whether both are parts of equal domains -/
def sameDomain (s t : Subset α) : Bool := s.domain.same t.domain

/-- the same members over a domain that has to be equal -/
def reattach (s : Subset α) (d : Domain α) : Except Error (Subset α) :=
  if s.domain.same d then ofList s.choice d s.toList else .error .domainMismatch

/-! ## Between forms -/

/-- the same subset, held in one word -/
def toCompact (s : Subset α) : Except Error (Subset α) :=
  match s.rep with
  | .compact c => .ok (ofCompact c)
  | .general g => (CompactSubset.ofGeneral g).map ofCompact

/-- the same subset, held as its members -/
def toGeneral (s : Subset α) : Subset α := ofGeneral (s.rep.elim GeneralSubset.ofCompact id)

/-- the same subset, its form from now on left to the library -/
def toAuto (s : Subset α) : Subset α := { s with adaptive := true }

/-- the same subset with its form fixed, if that is the form asked for -/
def ofStrategy? (s : Subset α) (wanted : Strategy) : Option (Subset α) :=
  if s.strategy = wanted then some { s with adaptive := false } else none

/-- the members as a word -/
def toWord (s : Subset α) : Except Error UInt64 := s.rep.elim (·.toWord) (·.toWord)

/-- the word itself, of a subset whose compact form was fixed by the caller -/
def word? (s : Subset α) : Option UInt64 :=
  match s.adaptive, s.rep with
  | false, .compact c => some c.word
  | _, _ => none

/-- the members as an integer mask -/
def toMask (s : Subset α) : Int := s.rep.elim (·.toMask) (·.toMask)

/-- the members as one bit for each element of the domain -/
def toBits (s : Subset α) : List Bool := s.rep.elim (·.toBits) (·.toBits)

/-- the members without the domain; a fixed general form gives them as the caller did -/
def toMembers (s : Subset α) : Members α :=
  if s.adaptive then Members.ofList s.toList else s.rep.elim (·.toMembers) (·.toMembers)

/-! ## Comparing -/

/-- whether every member is a member of the other; a fixed compact form goes straight to the members, all others
compare the sizes first -/
def isSubsetOf (s t : Subset α) : Bool :=
  match s.adaptive, s.rep with
  | false, .compact c => c.toList.all t.contains
  | _, _ => s.size ≤ t.size && s.toList.all t.contains

/-- whether both have equal members, whatever the domains -/
def sameElements (s t : Subset α) : Bool := s.size == t.size && s.toList.all t.contains

/-- whether both have the same positions of equal domains -/
def same (s t : Subset α) : Bool :=
  match s.rep, t.rep with
  | .compact a, .compact b => a.same b
  | .general a, .general b => a.same b
  | _, _ => s.sameDomain t && s.sameElements t

/-- what stands for the subset in a hash: the domain's fingerprint, then the size and each position -/
def digest (s : Subset α) : Fingerprint × List Nat := (s.domain.fingerprint, s.size :: s.positions)

/-- the same subset of the same domain, the domain's fingerprint remembered -/
def remember (s : Subset α) : Subset α :=
  { s with
    rep := s.rep.elim (fun c => .compact { c with domain := c.domain.remember, fits := c.fits, bounded := c.bounded })
      (fun g => .general { g with domain := g.domain.remember, inside := g.inside }) }

end Subset

end SubsetAlgebra
