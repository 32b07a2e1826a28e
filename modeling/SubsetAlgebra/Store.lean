/-
A store: domains and subsets, and the commands that make and change them.

`Store.step` carries out a command, and `Store.run` a list of them; one that fails leaves the store as it is. What the
caller is told of a command is its `Store.reply`. Between the commands fingerprints may be asked for: `Store.after` and
`Store.told` are for runs in which that happens as well.
-/
import SubsetAlgebra.Persisted.Text
import SubsetAlgebra.Subset.Change

namespace SubsetAlgebra

variable {α : Type} [Element α]

namespace Store

/-! ## Commands -/

/-- how a subset of a domain is built -/
inductive Recipe (α : Type) [Element α] where
  | empty (c : Choice)
  | emptyUnder (c : Choice)
  | full (c : Choice)
  | singleton (c : Choice) (e : α)
  | ofList (c : Choice) (es : List α)
  | ofOperand (c : Choice) (o : Operand α)
  | ofWord (w : UInt64)

def Recipe.build (d : Domain α) : Recipe α → Except Error (Subset α)
  | empty c => Subset.empty c d
  | emptyUnder c => Subset.emptyUnder c d
  | full c => Subset.full c d
  | singleton c e => Subset.singleton c d e
  | ofList c es => Subset.ofList c d es
  | ofOperand c o => Subset.ofOperand c d o
  | ofWord w => Subset.ofWord d w

/-- how a subset is brought into another form -/
inductive Conversion where
  | toCompact
  | toGeneral
  | toAuto
  | ofStrategy (st : Strategy)

def Conversion.apply (k : Conversion) (s : Subset α) : Option (Subset α) :=
  match k with
  | toCompact => s.toCompact.toOption
  | toGeneral => some s.toGeneral
  | toAuto => some s.toAuto
  | ofStrategy st => s.ofStrategy? st

/-- one step; domains and subsets that are there already are named by their places in the store -/
inductive Command (α : Type) [Element α] where
  | domain (es : List α)
  | domainOfOptions (es : List (Option α))
  | domainOfText [Persisted.Readable α] (text : String)
  | domainOf (a : Nat)
  | build (d : Nat) (r : Recipe α)
  | ofDistinct (es : List α)
  | read (c : Choice) (doc : Persisted.Document α)
  | readText [Persisted.Readable α] (c : Choice) (text : String)
  | convert (a : Nat) (k : Conversion)
  /-- a new subset, by a change of one that stays as it is -/
  | derive (a : Nat) (c : Subset.AnyChange α)
  | change (a : Nat) (c : Subset.AnyChange α)
  /-- the fingerprint of a subset's domain is asked for -/
  | remember (a : Nat)

end Store

/-- domains and subsets, in the order in which they were made -/
structure Store (α : Type) [Element α] where
  domains : List (Domain α) := []
  subsets : List (Subset α) := []

namespace Store

def addDomain (st : Store α) (d : Domain α) : Store α := { st with domains := st.domains ++ [d] }

def addSubset (st : Store α) (s : Subset α) : Store α := { st with subsets := st.subsets ++ [s] }

def setSubset (st : Store α) (a : Nat) (s : Subset α) : Store α := { st with subsets := st.subsets.set a s }

/-- what becomes of a subset by a change, if that does not fail -/
def changed (st : Store α) (a : Nat) (c : Subset.AnyChange α) : Option (Subset α) :=
  st.subsets[a]?.bind fun s => (c.change.apply s).toOption.map (·.1)

/-- carries out a command, or fails -/
def attempt (st : Store α) : Command α → Option (Store α)
  | .domain es => (Domain.ofList es).toOption.map st.addDomain
  | .domainOfOptions es => (Domain.ofOptions es).toOption.map st.addDomain
  | @Command.domainOfText _ _ _ text => (Persisted.readDomain text).toOption.map st.addDomain
  | .domainOf a => (st.subsets[a]?.map (·.domain)).map st.addDomain
  | .build d r => (st.domains[d]?.bind fun d => (r.build d).toOption).map st.addSubset
  | .ofDistinct es => (Subset.ofDistinct es).toOption.map st.addSubset
  | .read c doc => (doc.read c).toOption.map st.addSubset
  | @Command.readText _ _ _ c text => (Persisted.readSubset c text).toOption.map st.addSubset
  | .convert a k => (st.subsets[a]?.bind k.apply).map st.addSubset
  | .derive a c => (st.changed a c).map st.addSubset
  | .change a c => (st.changed a c).map (st.setSubset a)
  | .remember a => (st.subsets[a]?.map (·.remember)).map (st.setSubset a)

/-- one that fails leaves the store as it is -/
def step (st : Store α) (c : Command α) : Store α := (st.attempt c).getD st

def run (st : Store α) (cs : List (Command α)) : Store α := cs.foldl step st

/-! ## Replies -/

/-- what the caller is told of a command -/
inductive Reply where
  | done (r : Outcome)
  | failed (e : Error)
  | unreadable (why : Json.ReadError)
  /-- there is no domain or subset at that place, or the subset is not in the form asked for -/
  | absent
  deriving DecidableEq

namespace Reply

def ofResult {γ : Type} : Except Error γ → Reply
  | .ok _ => done .done
  | .error e => failed e

def ofChange {γ : Type} : Except Error (γ × Outcome) → Reply
  | .ok (_, r) => done r
  | .error e => failed e

def ofRead {γ : Type} : Except Json.ReadError γ → Reply
  | .ok _ => done .done
  | .error why => unreadable why

def ofOption {γ : Type} (f : γ → Reply) : Option γ → Reply
  | some y => f y
  | none => absent

end Reply

def Conversion.reply (k : Conversion) (s : Subset α) : Reply :=
  match k with
  | toCompact => .ofResult s.toCompact
  | toGeneral | toAuto => .done .done
  | ofStrategy wanted => .ofOption (fun _ => .done .done) (s.ofStrategy? wanted)

/-- what the caller is told of a command that is carried out now -/
def reply (st : Store α) : Command α → Reply
  | .domain es => .ofResult (Domain.ofList es)
  | .domainOfOptions es => .ofResult (Domain.ofOptions es)
  | @Command.domainOfText _ _ _ text => .ofRead (Persisted.readDomain text : Except _ (Domain α))
  | .domainOf a => .ofOption (fun _ => .done .done) st.subsets[a]?
  | .build d r => .ofOption (fun d => .ofResult (r.build d)) st.domains[d]?
  | .ofDistinct es => .ofResult (Subset.ofDistinct es)
  | .read c doc => .ofRead (doc.read c)
  | @Command.readText _ _ _ c text => .ofRead (Persisted.readSubset c text : Except _ (Subset α))
  | .convert a k => .ofOption k.reply st.subsets[a]?
  | .derive a c | .change a c => .ofOption (fun s => .ofChange (c.change.apply s)) st.subsets[a]?
  | .remember a => .ofOption (fun _ => .done .done) st.subsets[a]?

/-- what the caller is told in the course of a run -/
def replies (st : Store α) : List (Command α) → List Reply
  | [] => []
  | c :: cs => st.reply c :: (st.step c).replies cs

/-! ## Questions for fingerprints -/

/-- a command, or a question for fingerprints: those of the domains and of the subsets' domains at these places, which
may be any that share them -/
inductive Event (α : Type) [Element α] where
  | command (c : Command α)
  | ask (ds as : List Nat)

/-- the commands in their order -/
def commands (es : List (Event α)) : List (Command α) :=
  es.filterMap fun
    | .command c => some c
    | .ask _ _ => none

/-- the store after fingerprints have been asked for -/
def ask (st : Store α) (ds as : List Nat) : Store α where
  domains := st.domains.mapIdx fun i d => if i ∈ ds then d.remember else d
  subsets := st.subsets.mapIdx fun a s => if a ∈ as then s.remember else s

/-- the store at the end of a run -/
def after (st : Store α) : List (Event α) → Store α
  | [] => st
  | .command c :: es => (st.step c).after es
  | .ask ds as :: es => (st.ask ds as).after es

/-- what the caller is told of the commands of a run -/
def told (st : Store α) : List (Event α) → List Reply
  | [] => []
  | .command c :: es => st.reply c :: (st.step c).told es
  | .ask ds as :: es => (st.ask ds as).told es

end Store

end SubsetAlgebra
