/-
The ledger of a session: its steps as commands to a store.

A workspace knows domains and subsets by name and forgets what a name stood for when it is bound anew. A ledger keeps in
a store all that was ever made, and knows places of the store by name. `attempt` says what a step comes to there: a
command that makes something, a name for what is there already, or nothing. Several names may stand for one place, so
what is in the store stays as it is: a change in place makes a new subset that the name stands for from then on, and
what is asked for its fingerprint is copied first.
-/
import SubsetAlgebra.Session.Workspace
import SubsetAlgebra.Store

namespace SubsetAlgebra.Session

/-- the store's recipe for a recipe of the session -/
def Workspace.recipeOf (w : Workspace) : Recipe → Except Failure (Store.Recipe Value)
  | .empty c => .ok (.empty c)
  | .emptyUnder c => .ok (.emptyUnder c)
  | .full c => .ok (.full c)
  | .singleton c e => .ok (.singleton c e)
  | .ofList c es => .ok (.ofList c es)
  | .ofSource c src => (w.operand src).map (.ofOperand c)
  | .ofWord v => .ok (.ofWord v)

/-- what the answer to a step tells of the command that it came to -/
def Answer.reply? : Answer → Option Store.Reply
  | .domainMade _ | .made _ | .joined _ _ => some (.done .done)
  | .changed (.ok r) _ => some (.done r)
  | .changed (.error e) _ | .failed (.broken e) => some (.failed e)
  | .failed (.unreadable why) => some (.unreadable why)
  | .notHeldSo => some .absent
  | _ => none

/-- a store, and names for places in it; the latest binding of a name stands first -/
structure Ledger where
  store : Store Value := {}
  domains : List (String × Nat) := []
  subsets : List (String × Nat) := []

namespace Ledger

/-! ## Names -/

/-- what stands at the places, under their names -/
def standing {γ : Type} (ys : List γ) (names : List (String × Nat)) : List (String × γ) :=
  names.filterMap fun x => ys[x.2]?.map (x.1, ·)

/-- the workspace in which names stand for what is at their places -/
def shown (l : Ledger) : Workspace where
  domains := standing l.store.domains l.domains
  subsets := standing l.store.subsets l.subsets

/-- the place of a domain -/
def domainPlace (l : Ledger) (name : String) : Except Failure Nat :=
  match l.domains.lookup name with
  | some i => .ok i
  | none => .error (.unbound name)

/-- the place of a subset -/
def subsetPlace (l : Ledger) (name : String) : Except Failure Nat :=
  match l.subsets.lookup name with
  | some i => .ok i
  | none => .error (.unbound name)

def nameDomain (l : Ledger) (name : String) (i : Nat) : Ledger :=
  { l with domains := (name, i) :: l.domains.filter (·.1 != name) }

def nameSubset (l : Ledger) (name : String) (i : Nat) : Ledger :=
  { l with subsets := (name, i) :: l.subsets.filter (·.1 != name) }

/-! ## Commands -/

/-- carries out a command, names the domain that it makes, and tells the reply -/
def makeDomain (l : Ledger) (into : String) (c : Store.Command Value) : Ledger × Option Store.Reply :=
  match l.store.attempt c with
  | some st => ({ l with store := st }.nameDomain into l.store.domains.length, l.store.reply c)
  | none => (l, l.store.reply c)

/-- carries out a command, names the subset that it makes, and tells the reply -/
def makeSubset (l : Ledger) (into : String) (c : Store.Command Value) : Ledger × Option Store.Reply :=
  match l.store.attempt c with
  | some st => ({ l with store := st }.nameSubset into l.store.subsets.length, l.store.reply c)
  | none => (l, l.store.reply c)

/-- copies the subset at a place, has the fingerprint of the copy's domain remembered, and names the copy -/
def askSubset (l : Ledger) (name : String) (i : Nat) : Ledger :=
  let n := l.store.subsets.length
  { l with store := l.store.run [.derive i ⟨(.extend [] : Change Value Value)⟩, .remember n] }.nameSubset name n

/-- asks for the fingerprint of the domain at a place by way of a subset over it, and names the domain of that -/
def askDomain (l : Ledger) (name : String) (i : Nat) : Ledger :=
  let n := l.store.subsets.length
  { l with store := l.store.run [.build i (.empty .general), .remember n, .domainOf n] }.nameDomain name
    l.store.domains.length

/-- brings the subset `s` at a place into another form, and names what comes of it -/
def convert (l : Ledger) (into : String) (i : Nat) (s : Subset Value) : Conversion → Ledger × Option Store.Reply
  | .copy => (l.nameSubset into i, none)
  | .toCompact => l.makeSubset into (.convert i .toCompact)
  | .toGeneral => l.makeSubset into (.convert i .toGeneral)
  | .toAuto => l.makeSubset into (.convert i .toAuto)
  | .asHeld wanted => l.makeSubset into (.convert i (.ofStrategy wanted))
  | .reload c => l.makeSubset into (.read c (.ofSubset s))

/-! ## Steps -/

/-- carries out a step, or fails because a name stands for nothing; a command that fails is told of by its reply -/
def attempt (l : Ledger) : Step → Except Failure (Ledger × Option Store.Reply)
  | .domain into es => return l.makeDomain into (.domain es)
  | .domainOfOptions into es => return l.makeDomain into (.domainOfOptions es)
  | .domainCopy into d => do return (l.nameDomain into (← l.domainPlace d), none)
  | .domainOf into a => do return l.makeDomain into (.domainOf (← l.subsetPlace a))
  | .fingerprints d e => do
    let i ← l.domainPlace d
    let j ← l.domainPlace e
    return ((l.askDomain d i).askDomain e j, none)
  | .build into d r => do return l.makeSubset into (.build (← l.domainPlace d) (← l.shown.recipeOf r))
  | .ofDistinct into es => return l.makeSubset into (.ofDistinct es)
  | .convert into a c => do return l.convert into (← l.subsetPlace a) (← l.shown.subset a) c
  | .derive into a d => do
    let c ← l.shown.changeOf d
    return l.makeSubset into (.derive (← l.subsetPlace a) ⟨c⟩)
  | .semijoin into a b r => do
    let i ← l.subsetPlace a
    let t ← l.shown.subset b
    return l.makeSubset into (.derive i ⟨.semijoin t r.holds⟩)
  | .change a c => do
    let i ← l.subsetPlace a
    return (l.nameSubset a i).makeSubset a (.derive i ⟨c⟩)
  | .ask a .digest => do return (l.askSubset a (← l.subsetPlace a), none)
  | .compare a b .same => do
    let i ← l.subsetPlace a
    let j ← l.subsetPlace b
    return ((l.askSubset a i).askSubset b j, none)
  | _ => return (l, none)

/-- carries out a step; one that fails leaves the ledger as it is -/
def step (l : Ledger) (x : Step) : Ledger × Option Store.Reply :=
  match l.attempt x with
  | .ok y => y
  | .error _ => (l, none)

/-- carries out steps one after the other and tells what replies they had -/
def run (l : Ledger) : List Step → Ledger × List (Option Store.Reply)
  | [] => (l, [])
  | x :: rest =>
    let (l', r) := l.step x
    let (l'', rs) := l'.run rest
    (l'', r :: rs)

end Ledger

end SubsetAlgebra.Session
