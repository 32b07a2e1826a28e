/-
No partial operation is used where it is not defined.

`GuardedSubsets` and `GuardedLibrary` have every operation on words and subsets with its conditions asked for. Here a
store of bare subsets carries out commands with them, one after the other. It goes through the same states as the store
whose subsets carry their bounds (`attempt_bare`, and `run_bare` by induction), so nothing that any sequence of calls
can bring about is ever `broken`; and neither is any question that is asked of a subset then, nor any value of a finite
type (`never_broken`). Errors of the library are not that: they are answers, and the same ones are given here.
-/
import SubsetAlgebra.Enumeration
import SubsetAlgebra.Proofs.GuardedLibrary

namespace SubsetAlgebra

open Guarded
open Word (width)

/-! ## Stores -/

/-- domains, and subsets without their bounds -/
structure BareStore (α : Type) [Element α] where
  domains : List (Domain α) := []
  subsets : List (Bare α) := []

section Stores

variable {α : Type} [Element α]

/-- what a store is without the bounds of its subsets -/
def Store.bare (st : Store α) : BareStore α := ⟨st.domains, st.subsets.map Subset.bare⟩

namespace BareStore

open Bare (tolerate tolerate_answer)

def addDomain (st : BareStore α) (d : Domain α) : BareStore α := { st with domains := st.domains ++ [d] }

def addSubset (st : BareStore α) (s : Bare α) : BareStore α := { st with subsets := st.subsets ++ [s] }

def setSubset (st : BareStore α) (a : Nat) (s : Bare α) : BareStore α := { st with subsets := st.subsets.set a s }

theorem addSubset_bare (st : Store α) (s : Subset α) : st.bare.addSubset s.bare = (st.addSubset s).bare := by
  simp [addSubset, Store.addSubset, Store.bare]

theorem setSubset_bare (st : Store α) (a : Nat) (s : Subset α) :
    st.bare.setSubset a s.bare = (st.setSubset a s).bare := by
  simp [setSubset, Store.setSubset, Store.bare]

/-- what is made of something that may not be there -/
def found {β γ : Type} (x : Option β) (f : β → Guarded (Option γ)) : Guarded (Option γ) :=
  match x with
  | some b => f b
  | none => .ok none

theorem found_map {σ β γ : Type} (view : σ → β) (f : β → Guarded (Option γ)) (x : Option σ) :
    found (x.map view) f = found x fun s => f (view s) := by
  cases x <;> rfl

theorem found_of {β γ δ : Type} {f : β → Guarded (Option γ)} {g : β → Option δ} {view : δ → γ}
    (h : ∀ b, f b = .ok ((g b).map view)) (x : Option β) : found x f = .ok ((x.bind g).map view) := by
  cases x with
  | none => rfl
  | some b => exact h b

theorem toOption_map {β γ : Type} (r : Except Error β) (f : β → γ) : (r.map f).toOption = r.toOption.map f := by
  cases r <;> rfl

theorem tolerate_map {β γ : Type} (r : Except Error β) (f : β → γ) :
    tolerate (answer (r.map f)) = .ok (r.toOption.map f) := by
  rw [tolerate_answer, toOption_map]

/-- what becomes of a subset by a change, if that does not fail -/
def changed (st : BareStore α) (a : Nat) (c : Subset.AnyChange α) : Guarded (Option (Bare α)) :=
  found st.subsets[a]? fun s => do return (← tolerate (s.apply c.change)).map (·.1)

theorem changed_bare (st : Store α) (a : Nat) (c : Subset.AnyChange α) :
    st.bare.changed a c = .ok ((st.changed a c).map Subset.bare) := by
  simp only [changed, Store.changed, Store.bare, List.getElem?_map, found_map]
  refine found_of (fun s => ?_) _
  rw [Bare.apply_bare, tolerate_map]
  cases (c.change.apply s).toOption <;> rfl

/-- the subset of a document's two lists -/
def restore (c : Choice) (parts : Domain α × List α) : Guarded (Option (Bare α)) :=
  tolerate (Bare.ofList c parts.1 parts.2)

theorem restore_eq (c : Choice) (parts : Domain α × List α) :
    restore c parts = .ok ((Persisted.restore c parts).toOption.map Subset.bare) := by
  rw [restore, Bare.ofList_eq, tolerate_map, Persisted.restore]
  cases Subset.ofList c parts.1 parts.2 <;> rfl

/-- the subset that a text holds, which is made before the end of the text is looked for -/
def readText [Persisted.Readable α] (c : Choice) (text : String) : Guarded (Option (Bare α)) :=
  match StateT.run Persisted.scanParts text.toList with
  | .error _ => .ok none
  | .ok (parts, rest) => do
    let made ← restore c parts
    return if (rest.dropWhile Json.Scan.isBlank).isEmpty then made else none

theorem readText_eq [Persisted.Readable α] (c : Choice) (text : String) :
    readText c text = .ok ((Persisted.readSubset c text : Except _ (Subset α)).toOption.map Subset.bare) := by
  unfold readText Persisted.readSubset Json.Scan.run
  rw [StateT.run_bind]
  cases StateT.run (Persisted.scanParts (α := α)) text.toList with
  | error e => rfl
  | ok p =>
    obtain ⟨parts, rest⟩ := p
    simp only [restore_eq]
    change _ = Except.ok (Option.map Subset.bare (Except.toOption (do
      let p ← StateT.run (Json.Scan.lift (Persisted.restore c parts)) rest
      if (p.2.dropWhile Json.Scan.isBlank).isEmpty then return p.1 else throw .malformed)))
    cases Persisted.restore c parts with
    | error why => cases (rest.dropWhile Json.Scan.isBlank).isEmpty <;> rfl
    | ok s =>
      change _ = Except.ok (Option.map Subset.bare (Except.toOption
        (if (rest.dropWhile Json.Scan.isBlank).isEmpty then Except.ok s else Except.error Json.ReadError.malformed)))
      cases (rest.dropWhile Json.Scan.isBlank).isEmpty <;> rfl

/-- carries out a command, or fails -/
def attempt (st : BareStore α) : Store.Command α → Guarded (Option (BareStore α))
  | .domain es => .ok ((Domain.ofList es).toOption.map st.addDomain)
  | .domainOfOptions es => .ok ((Domain.ofOptions es).toOption.map st.addDomain)
  | @Store.Command.domainOfText _ _ _ text => .ok ((Persisted.readDomain text).toOption.map st.addDomain)
  | .domainOf a => .ok ((st.subsets[a]?.map (·.domain)).map st.addDomain)
  | .build d r => do return (← found st.domains[d]? fun d => tolerate (Bare.build d r)).map st.addSubset
  | .ofDistinct es => do
    return (← found (Domain.ofList es).toOption fun d => tolerate (Bare.full .auto d)).map st.addSubset
  | .read c doc => do return (← found doc.parts.toOption (restore c)).map st.addSubset
  | @Store.Command.readText _ _ _ c text => do return (← readText c text).map st.addSubset
  | .convert a k => do return (← found st.subsets[a]? fun s => s.convert k).map st.addSubset
  | .derive a c => do return (← st.changed a c).map st.addSubset
  | .change a c => do return (← st.changed a c).map (st.setSubset a)
  | .remember a => .ok ((st.subsets[a]?.map fun s => { s with domain := s.domain.remember }).map (st.setSubset a))

theorem map_addSubset (st : Store α) (x : Option (Subset α)) :
    (x.map Subset.bare).map st.bare.addSubset = (x.map st.addSubset).map Store.bare := by
  cases x with
  | none => rfl
  | some s => exact congrArg some (addSubset_bare st s)

theorem map_setSubset (st : Store α) (a : Nat) (x : Option (Subset α)) :
    (x.map Subset.bare).map (st.bare.setSubset a) = (x.map (st.setSubset a)).map Store.bare := by
  cases x with
  | none => rfl
  | some s => exact congrArg some (setSubset_bare st a s)

theorem attempt_bare (st : Store α) (c : Store.Command α) :
    st.bare.attempt c = .ok ((st.attempt c).map Store.bare) := by
  cases c with
  | domain es =>
    simp only [attempt, Store.attempt]
    cases Domain.ofList es <;> rfl
  | domainOfOptions es =>
    simp only [attempt, Store.attempt]
    cases Domain.ofOptions es <;> rfl
  | domainOfText text =>
    simp only [attempt, Store.attempt]
    cases (Persisted.readDomain text : Except _ (Domain α)) <;> rfl
  | domainOf a =>
    simp only [attempt, Store.attempt, Store.bare, List.getElem?_map]
    cases st.subsets[a]? <;> rfl
  | build d r =>
    have hmade : found st.domains[d]? (fun d => tolerate (Bare.build d r)) =
        .ok ((st.domains[d]?.bind fun d => (r.build d).toOption).map Subset.bare) :=
      found_of (fun d => by rw [Bare.build_eq, tolerate_map]) _
    simp only [attempt, Store.attempt]
    change (do return (← found st.domains[d]? _).map st.bare.addSubset) = _
    rw [hmade, ← map_addSubset]
    rfl
  | ofDistinct es =>
    have hmade : found (Domain.ofList es).toOption (fun d => tolerate (Bare.full .auto d)) =
        .ok ((Subset.ofDistinct es).toOption.map Subset.bare) := by
      rw [found_of (g := fun d => some (Subset.fullAuto d)) fun d => by rw [Bare.fullAuto_eq]; rfl, Subset.ofDistinct]
      cases Domain.ofList es <;> rfl
    simp only [attempt, Store.attempt, hmade, ← map_addSubset]
    rfl
  | read c doc =>
    have hmade : found doc.parts.toOption (restore c) = .ok ((doc.read c).toOption.map Subset.bare) := by
      rw [found_of (restore_eq c), Persisted.Document.read]
      cases doc.parts with
      | error e => rfl
      | ok parts =>
        change Except.ok ((Persisted.restore c parts).toOption.map _) =
          Except.ok ((((Persisted.restore c parts).mapError Json.ReadError.refused).toOption).map _)
        cases Persisted.restore c parts <;> rfl
    simp only [attempt, Store.attempt, hmade, ← map_addSubset]
    rfl
  | readText c text =>
    simp only [attempt, Store.attempt, readText_eq, ← map_addSubset]
    rfl
  | convert a k =>
    have hmade : found st.bare.subsets[a]? (fun s => s.convert k) =
        .ok ((st.subsets[a]?.bind k.apply).map Subset.bare) := by
      rw [Store.bare, List.getElem?_map, found_map]
      exact found_of (Bare.convert_bare k) _
    simp only [attempt, Store.attempt, hmade, ← map_addSubset]
    rfl
  | derive a c =>
    simp only [attempt, Store.attempt, changed_bare, ← map_addSubset]
    rfl
  | change a c =>
    simp only [attempt, Store.attempt, changed_bare, ← map_setSubset]
    rfl
  | remember a =>
    have hremember : ∀ s : Subset α, { s.bare with domain := s.bare.domain.remember } = s.remember.bare := by
      intro s
      obtain ⟨rep, adaptive⟩ := s
      cases rep <;> rfl
    simp only [attempt, Store.attempt, ← map_setSubset]
    simp only [Store.bare, List.getElem?_map, Option.map_map, Function.comp_def, hremember]

/-- carries out commands; one that fails leaves the store as it is -/
def run (st : BareStore α) (cs : List (Store.Command α)) : Guarded (BareStore α) :=
  cs.foldlM (fun st c => do return (← st.attempt c).getD st) st

theorem run_bare (st : Store α) (cs : List (Store.Command α)) : st.bare.run cs = .ok (st.run cs).bare := by
  unfold run Store.run
  refine foldlM_along Store.bare (fun st c _ => ?_) st
  rw [attempt_bare, Store.step]
  cases st.attempt c <;> rfl

end BareStore

end Stores

/-! ## Finite types -/

namespace Guarded

variable {E : Enumeration}

/-- the domain of all values, which are held to be distinct -/
def domainOf (E : Enumeration) : Guarded (Domain E.Value) :=
  match Domain.ofList E.variants with
  | .ok d => .ok d
  | .error _ => .error .broken

theorem domainOf_eq (E : Enumeration) : domainOf E = .ok E.domain := by
  rw [domainOf, Domain.ofList_eq E.variants_unequal]
  rfl

/-- the word with only this value's bit -/
def valueBit (v : E.Value) : Guarded UInt64 :=
  if width < E.size then .error (.failed (.wordOverflow E.size)) else bit (Enumeration.position v)

theorem valueBit_eq (v : E.Value) : valueBit v = answer (Enumeration.bit v) := by
  unfold valueBit Enumeration.bit
  split_ifs with h
  · rfl
  · have hlt : Enumeration.position v < E.size := v.isLt
    exact bit_of (by omega)

/-- the bits of these values added to `w` -/
def addBits (w : UInt64) (vs : List E.Value) : Guarded UInt64 := vs.foldlM (fun w v => do return w ||| (← valueBit v)) w

theorem addBits_eq (w : UInt64) (vs : List E.Value) : addBits w vs = answer (Enumeration.addBits w vs) := by
  unfold addBits
  induction vs generalizing w with
  | nil => rfl
  | cons v vs ih =>
    rw [List.foldlM_cons, valueBit_eq, Enumeration.addBits]
    cases Enumeration.bit v with
    | error e => rfl
    | ok b => exact ih (w ||| b)

/-- the subset of these values, which are held to belong to their own domain -/
def setOf (vs : List E.Value) : Guarded (Bare E.Value) := do
  match Bare.ofList .auto (← domainOf E) vs with
  | .ok s => .ok s
  | .error _ => .error .broken

theorem setOf_eq (vs : List E.Value) : ∃ s, E.setOf vs = .ok s ∧ setOf vs = .ok s.bare := by
  have hknown : ∀ v ∈ vs, E.domain.contains v = true := fun v _ => Domain.contains_of_mem (List.mem_finRange v)
  have hauto : Choice.auto.Admits E.domain := nofun
  obtain ⟨s, hs, -⟩ := Subset.ofList_built hauto hknown
  refine ⟨s, hs, ?_⟩
  rw [setOf, domainOf_eq, ok_bind, Bare.ofList_eq, hs]
  rfl

end Guarded

/-! ## Main result -/

/-- no operation on words, buffers and masks is broken, whatever it is given -/
structure WordsUnbroken : Prop where
  drain : ∀ w, Guarded.drain w = .ok (Word.positions w)
  has : ∀ w i, Guarded.has w i = .ok (Word.has w i)
  buffer : ∀ ps, Guarded.buffer ps = .ok (WordBuffer.ofPositions ps)
  positions : ∀ buf, Guarded.positions buf = .ok buf.positions
  acceptWord : ∀ w n, Guarded.acceptWord w n = answer (Mask.acceptWord w n)
  acceptInt : ∀ m n, Guarded.acceptInt m n = answer (Mask.acceptInt m n)
  wordOfBits : ∀ bits, Guarded.wordOfBits bits = .ok (Mask.wordOfBits bits)

/-- nothing that is asked of a finite type is broken -/
structure Enumeration.Unbroken (E : Enumeration) : Prop where
  domain : Guarded.domainOf E = .ok E.domain
  bit : ∀ v : E.Value, Guarded.valueBit v = answer (Enumeration.bit v)
  bitmask : ∀ vs : List E.Value, Guarded.addBits 0 vs = answer (Enumeration.bitmask vs)
  setOf : ∀ vs : List E.Value, ∃ s, E.setOf vs = .ok s ∧ Guarded.setOf vs = .ok s.bare
  all : (do Bare.full .auto (← Guarded.domainOf E)) = .ok E.all.bare
  none : (do Bare.emptyAuto (← Guarded.domainOf E)) = .ok E.none.bare

/-- nothing that is asked of a subset, alone or with another one, is broken, and no change that is tried on it -/
structure Subset.Unbroken {α : Type} [Element α] (s : Subset α) : Prop where
  positions : s.bare.positions = .ok s.positions
  toList : s.bare.toList = .ok s.toList
  indexed : s.bare.indexed = .ok s.indexed
  containsPosition : ∀ p, s.bare.containsPosition p = .ok (s.containsPosition p)
  contains : ∀ e, s.bare.contains e = .ok (s.contains e)
  toWord : s.bare.toWord = answer s.toWord
  toMask : s.bare.toMask = .ok s.toMask
  toBits : s.bare.toBits = .ok s.toBits
  toMembers : s.bare.toMembers = .ok s.toMembers
  digest : s.bare.digest = .ok s.digest
  isSubsetOf : ∀ t : Subset α, s.bare.isSubsetOf t.bare = .ok (s.isSubsetOf t)
  sameElements : ∀ t : Subset α, s.bare.sameElements t.bare = .ok (s.sameElements t)
  same : ∀ t : Subset α, s.bare.same t.bare = .ok (s.same t)
  product : ∀ {β : Type} [Element β] (t : Subset β), s.bare.product t.bare = .ok (s.product t)
  apply : ∀ {β : Type} [Element β] (c : Change α β),
    s.bare.apply c = answer ((c.apply s).map fun r => (r.1.bare, r.2))

theorem wordsUnbroken : WordsUnbroken where
  drain := drain_eq
  has := has_eq
  buffer := buffer_eq
  positions := positions_eq
  acceptWord := acceptWord_eq
  acceptInt := acceptInt_eq
  wordOfBits := wordOfBits_eq

theorem Enumeration.unbroken (E : Enumeration) : E.Unbroken where
  domain := domainOf_eq E
  bit := valueBit_eq
  bitmask := addBits_eq 0
  setOf := setOf_eq
  all := by
    rw [domainOf_eq]
    exact Bare.fullAuto_eq E.domain
  none := by
    rw [domainOf_eq]
    exact Bare.emptyAuto_eq E.domain

theorem Subset.unbroken {α : Type} [Element α] (s : Subset α) : s.Unbroken where
  positions := Bare.positions_bare s
  toList := Bare.toList_bare s
  indexed := Bare.indexed_bare s
  containsPosition := Bare.containsPosition_bare s
  contains := Bare.contains_bare s
  toWord := Bare.toWord_bare s
  toMask := Bare.toMask_bare s
  toBits := Bare.toBits_bare s
  toMembers := Bare.toMembers_bare s
  digest := Bare.digest_bare s
  isSubsetOf := Bare.isSubsetOf_bare s
  sameElements := Bare.sameElements_bare s
  same := Bare.same_bare s
  product := Bare.product_bare s
  apply := Bare.apply_bare s

/-- **No partial operation is ever broken.** Carried out with every condition asked for, from an empty store, with any
commands and arguments, the library goes through the states that it goes through without the questions; and nothing that
is asked of a subset, a finite type or a word is broken either. What is answered instead is at most an error of the
library, and the same one. -/
theorem never_broken :
    (∀ (α : Type) [Element α] (cs : List (Store.Command α)), BareStore.run {} cs = .ok (Store.run {} cs).bare) ∧
    (∀ (α : Type) [Element α] (s : Subset α), s.Unbroken) ∧
    (∀ (α : Type) [Element α] (d : Domain α), Bare.fullWord d = answer d.fullWord) ∧
    (∀ E : Enumeration, E.Unbroken) ∧
    WordsUnbroken ∧
    ∀ (β : Type) (r : Except Error β), answer r ≠ .error .broken := by
  refine ⟨fun α _ cs => ?_, fun α _ s => s.unbroken, fun α _ d => Bare.fullWord_eq d, Enumeration.unbroken,
    wordsUnbroken, ?_⟩
  · exact BareStore.run_bare ({} : Store α) cs
  · exact fun β r => answer_ne_broken r

end SubsetAlgebra
