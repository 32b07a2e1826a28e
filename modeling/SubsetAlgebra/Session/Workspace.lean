/-
The workspace: named domains, named subsets and the run of a list of steps.

`step` answers one step. A step that fails binds nothing and changes nothing. A step that takes fingerprints or hashes
leaves them remembered by the domains involved, which no later answer can show.
-/
import SubsetAlgebra.Persisted.Document
import SubsetAlgebra.Session.Answer
import SubsetAlgebra.Session.Step
import SubsetAlgebra.Subset.Presented

namespace SubsetAlgebra.Session

/-- named domains and named subsets; the latest binding of a name stands first -/
structure Workspace where
  domains : List (String × Domain Value) := []
  subsets : List (String × Subset Value) := []

namespace Workspace

/-! ## Names -/

/-- the domain of a name -/
def domain (w : Workspace) (name : String) : Except Failure (Domain Value) :=
  match w.domains.lookup name with
  | some d => .ok d
  | none => .error (.unbound name)

/-- the subset of a name -/
def subset (w : Workspace) (name : String) : Except Failure (Subset Value) :=
  match w.subsets.lookup name with
  | some s => .ok s
  | none => .error (.unbound name)

/-- the operand of a source -/
def operand (w : Workspace) : Source → Except Failure (Operand Value)
  | .literal o => .ok o
  | .named name => (w.subset name).map (·.toOperand)

/-- binds a domain to a name -/
def setDomain (w : Workspace) (name : String) (d : Domain Value) : Workspace :=
  { w with domains := (name, d) :: w.domains.filter (·.1 != name) }

/-- binds a subset to a name -/
def setSubset (w : Workspace) (name : String) (s : Subset Value) : Workspace :=
  { w with subsets := (name, s) :: w.subsets.filter (·.1 != name) }

/-- a rule of domains and subsets, as part of a step -/
def checked {α : Type} (r : Except Error α) : Except Failure α := r.mapError .broken

/-! ## Describing -/

/-- the name of a subset's form -/
def form (s : Subset Value) : String :=
  match s.choice with
  | .auto => "auto/" ++ s.strategy.name
  | .compact => "compact"
  | .general => "general"

/-- the form and the positions of a subset -/
def state (s : Subset Value) : State := ⟨form s, s.positions⟩

/-- what is told of a domain at once -/
def reportDomain (d : Domain Value) : DomainReport where
  size := d.size
  isEmpty := d.isEmpty
  fitsWord := d.fitsWord
  fullWord := d.fullWord
  elements := d.elements
  layout := d.layout
  tree := d.tree

/-- what is told of a subset at once -/
def reportSubset (s : Subset Value) : SubsetReport where
  form := form s
  domainSize := s.domain.size
  size := s.size
  isEmpty := s.isEmpty
  isFull := s.isFull
  positions := s.positions
  members := s.toList
  word := s.toWord
  mask := s.toMask
  bits := s.toBits
  display := s.display

/-- values in ascending order -/
def ascending (vs : List Value) : List Value := vs.mergeSort fun v w => (compare v w).isLE

/-- pairs of values in ascending order -/
def ascendingPairs (ps : List (Pair Value Value)) : List (Pair Value Value) :=
  ps.mergeSort fun p q => (compare p q).isLE

/-- the answer to a question about one subset -/
def answerQuery (s : Subset Value) : Query → Answer
  | .all => .subset (reportSubset s)
  | .size => .count s.size
  | .isEmpty => .flag s.isEmpty
  | .isFull => .flag s.isFull
  | .contains e => .flag (s.contains e)
  | .containsPosition p => .flag (s.containsPosition p)
  | .toWord => .word s.toWord
  | .heldWord => .heldWord s.word?
  | .toMask => .mask s.toMask
  | .toBits => .bits s.toBits
  | .toMembers => .members (ascending s.toMembers.toList)
  | .indexed => .indexed s.indexed
  | .display => .text s.display
  | .layout => .text s.layout.inline
  | .spread => .text s.layout.spread
  | .json => .text s.tree.compact
  | .digest => .digest (s.digest.1 == s.domain.fingerprint) s.digest.2

/-- records a call -/
def record (v w : Value) : StateM Calls Unit := modify (⟨v, w⟩ :: ·)

/-- the answer to a question about two subsets -/
def answerComparison (s t : Subset Value) : Comparison → Answer
  | .isSubset => .flag (s.isSubsetOf t)
  | .sameDomain => .flag (s.sameDomain t)
  | .sameElements => .flag (s.sameElements t)
  | .same => .same (s.same t) (s.digest == t.digest)
  | .product => .pairs (ascendingPairs (s.product t).toList)
  | .visits =>
    let (n, calls) := (s.productM t record).run []
    .visits n calls.reverse

/-! ## Steps -/

/-- the subset that a recipe makes over a domain -/
def build (w : Workspace) (d : Domain Value) : Recipe → Except Failure (Subset Value)
  | .empty c => checked (Subset.empty c d)
  | .emptyUnder c => checked (Subset.emptyUnder c d)
  | .full c => checked (Subset.full c d)
  | .singleton c e => checked (Subset.singleton c d e)
  | .ofList c es => checked (Subset.ofList c d es)
  | .ofSource c src => do checked (Subset.ofOperand c d (← w.operand src))
  | .ofWord v => checked (Subset.ofWord d v)

/-- the change that a derivation asks for -/
def changeOf (w : Workspace) : Derivation → Except Failure (Change Value Value)
  | .union src => return .union (← w.operand src)
  | .inter src => return .inter (← w.operand src)
  | .diff src => return .diff (← w.operand src)
  | .complement => return .complement
  | .reattach d => return .reattach (← w.domain d)

/-- a subset brought into another form, or none if it is not held in the form asked for -/
def convert (s : Subset Value) : Conversion → Except Failure (Option (Subset Value))
  | .copy => .ok (some s)
  | .toCompact => (checked s.toCompact).map some
  | .toGeneral => .ok (some s.toGeneral)
  | .toAuto => .ok (some s.toAuto)
  | .asHeld st => .ok (s.ofStrategy? st)
  | .reload c => ((Persisted.Document.ofSubset s).read c).mapError .unreadable |>.map some

/-- binds a new subset and answers its state -/
def makeSubset (w : Workspace) (into : String) (s : Subset Value) : Workspace × Answer :=
  (w.setSubset into s, .made (state s))

/-- binds a new domain and answers its size -/
def makeDomain (w : Workspace) (into : String) (d : Domain Value) : Workspace × Answer :=
  (w.setDomain into d, .domainMade d.size)

/-- carries out a step, or fails -/
def attempt (w : Workspace) : Step → Except Failure (Workspace × Answer)
  | .domain into es => do return w.makeDomain into (← checked (Domain.ofList es))
  | .domainOfOptions into es => do return w.makeDomain into (← checked (Domain.ofOptions es))
  | .domainCopy into d => do return w.makeDomain into (← w.domain d)
  | .domainOf into a => do return w.makeDomain into (← w.subset a).domain
  | .domainInfo d => do return (w, .domain (reportDomain (← w.domain d)))
  | .domainGet d i => do return (w, .element (← checked ((← w.domain d).get i)))
  | .domainAt d i => do
    let d ← w.domain d
    match d.elements[i]? with
    | some e => return (w, .element e)
    | none => throw (.outOfBounds d.size i)
  | .domainIndexOf d e => do return (w, .position ((← w.domain d).indexOf e))
  | .domainContains d e => do return (w, .flag ((← w.domain d).contains e))
  | .domainSame d e => do
    let d ← w.domain d
    return (w, .flag (d.same (← w.domain e)))
  | .fingerprints d e => do
    let x ← w.domain d
    let y ← w.domain e
    let same := x.fingerprint == y.fingerprint
    return ((w.setDomain d x.remember).setDomain e y.remember, .fingerprints same same)
  | .build into d r => do return w.makeSubset into (← w.build (← w.domain d) r)
  | .ofDistinct into es => do return w.makeSubset into (← checked (Subset.ofDistinct es))
  | .convert into a c => do
    match ← convert (← w.subset a) c with
    | some s => return w.makeSubset into s
    | none => return (w, .notHeldSo)
  | .derive into a d => do
    let c ← w.changeOf d
    let (s, _) ← checked (c.apply (← w.subset a))
    return w.makeSubset into s
  | .semijoin into a b r => do
    let s ← w.subset a
    let t ← w.subset b
    let ask (v u : Value) : StateM Calls Bool := do
      record v u
      return r.holds v u
    let (kept, calls) := (s.semijoinM t ask).run []
    return (w.setSubset into kept, .joined (state kept) calls.reverse)
  | .change a c => do
    let (s, r) := (← w.subset a).step c
    return (w.setSubset a s, .changed r (state s))
  | .ask a .digest => do
    let s ← w.subset a
    return (w.setSubset a s.remember, answerQuery s .digest)
  | .ask a q => do return (w, answerQuery (← w.subset a) q)
  | .compare a b .same => do
    let s ← w.subset a
    let t ← w.subset b
    return ((w.setSubset a s.remember).setSubset b t.remember, answerComparison s t .same)
  | .compare a b c => do
    let s ← w.subset a
    return (w, answerComparison s (← w.subset b) c)
  | .describe src => do
    let o ← w.operand src
    return (w, .operand o.form o.layout?)

/-- carries out a step; one that fails leaves the workspace as it is -/
def step (w : Workspace) (s : Step) : Workspace × Answer :=
  match w.attempt s with
  | .ok (w', a) => (w', a)
  | .error f => (w, .failed f)

/-- carries out steps one after the other and answers each -/
def run (w : Workspace) : List Step → Workspace × List Answer
  | [] => (w, [])
  | s :: rest =>
    let (w', a) := w.step s
    let (w'', as) := w'.run rest
    (w'', a :: as)

end Workspace

/-- the answers to steps from the workspace without names -/
def answers (steps : List Step) : List Answer := (({} : Workspace).run steps).2

end SubsetAlgebra.Session
