/-
Building, other forms and comparisons of subsets that ask for their conditions.

`GuardedSubsets` goes on here with the operations that give a subset, or that take two. The lemmas are of the same kind:
on subsets that are without their bounds (`Subset.bare`) nothing is broken, and the results are the known ones. Where a
bound is asserted of what is built (`emptyAuto`), the assertion is asked as well.
-/
import SubsetAlgebra.Proofs.GuardedSubsets
import SubsetAlgebra.Proofs.Reachable

namespace SubsetAlgebra

open Guarded
open Word (width)

variable {α : Type} [Element α]

namespace Bare

/-! ## Building -/

/-- the subset without members, in the form that fits the domain; the bounds are asserted of it -/
def emptyAuto (d : Domain α) : Guarded (Bare α) :=
  if d.fitsWord then do
    require ((acceptWord 0 d.size).toBool = true)
    return ⟨d, .word 0, true⟩
  else do
    require (Members.empty.toList.all d.contains = true)
    return ⟨d, .members Members.empty, true⟩

theorem emptyAuto_eq (d : Domain α) : emptyAuto d = .ok (Subset.emptyAuto d).bare := by
  unfold emptyAuto Subset.emptyAuto Domain.fitsWord
  by_cases h : d.size ≤ width
  · have hzero : acceptWord 0 d.size = .ok 0 := by
      rw [acceptWord_eq, (Mask.acceptWord_judged 0 h).within fun i hi => by rw [Word.has_zero] at hi; cases hi]
      rfl
    simp only [h, decide_true, if_true, dite_true, hzero]
    rfl
  · simp only [h, decide_false, dite_false]
    rfl

/-- the subset without members -/
def empty (c : Choice) (d : Domain α) : Guarded (Bare α) :=
  match c with
  | .auto => emptyAuto d
  | .compact => if d.fitsWord then .ok ⟨d, .word 0, false⟩ else .error (.failed (.wordOverflow d.size))
  | .general => .ok ⟨d, .members Members.empty, false⟩

theorem empty_eq (c : Choice) (d : Domain α) : empty c d = answer ((Subset.empty c d).map Subset.bare) := by
  cases c with
  | auto => exact emptyAuto_eq d
  | compact =>
    unfold empty Subset.empty CompactSubset.empty Domain.fitsWord
    by_cases h : d.size ≤ width
    · simp only [h, decide_true, if_true, dite_true]
      rfl
    · simp only [h, decide_false, dite_false]
      rfl
  | general => rfl

/-- the subset without members, its form left to the library under a policy of its own -/
def emptyUnder (c : Choice) (d : Domain α) : Guarded (Bare α) := do
  let strategy ← answer (c.resolve d.size)
  let s ← empty (match strategy with | .compact => .compact | .general => .general) d
  return { s with adaptive := true }

theorem emptyUnder_eq (c : Choice) (d : Domain α) :
    emptyUnder c d = answer ((Subset.emptyUnder c d).map Subset.bare) := by
  unfold emptyUnder Subset.emptyUnder
  cases c.resolve d.size with
  | error e => rfl
  | ok strategy =>
    cases strategy with
    | compact =>
      simp only [empty_eq, Subset.empty]
      cases CompactSubset.empty d <;> rfl
    | general => rfl

/-- the word of all positions -/
def fullWord (d : Domain α) : Guarded UInt64 :=
  if width < d.size then .error (.failed (.wordOverflow d.size)) else low d.size

theorem fullWord_eq (d : Domain α) : fullWord d = answer d.fullWord := by
  unfold fullWord Domain.fullWord
  split_ifs with h
  · rfl
  · exact low_of (Nat.le_of_not_lt h)

/-- the subset of all elements -/
def full (c : Choice) (d : Domain α) : Guarded (Bare α) :=
  match c with
  | .auto => do (← emptyAuto d).complement
  | .compact => do return ⟨d, .word (← fullWord d), false⟩
  | .general => .ok ⟨d, .members (Members.ofList d.elements), false⟩

theorem fullAuto_eq (d : Domain α) : full .auto d = .ok (Subset.fullAuto d).bare := by
  simp only [full, emptyAuto_eq]
  exact complement_bare (Subset.emptyAuto d)

theorem full_eq (c : Choice) (d : Domain α) : full c d = answer ((Subset.full c d).map Subset.bare) := by
  cases c with
  | auto => exact fullAuto_eq d
  | compact =>
    simp only [full, fullWord_eq, Subset.full]
    unfold CompactSubset.full
    split <;> next h => simp only [h]; rfl
  | general => rfl

/-- the subset of one element -/
def singleton (c : Choice) (d : Domain α) (e : α) : Guarded (Bare α) := do return (← (← empty c d).insert e).1

theorem singleton_eq (c : Choice) (d : Domain α) (e : α) :
    singleton c d e = answer ((Subset.singleton c d e).map Subset.bare) := by
  simp only [singleton, empty_eq, Subset.singleton]
  cases Subset.empty c d with
  | error err => rfl
  | ok s =>
    change (do return (← s.bare.insert e).1) = answer (((s.insert e).map (·.1)).map Subset.bare)
    rw [insert_bare]
    cases s.insert e <;> rfl

/-- the subset of these elements -/
def ofList (c : Choice) (d : Domain α) (es : List α) : Guarded (Bare α) := do return (← (← empty c d).extend es).1

theorem ofList_eq (c : Choice) (d : Domain α) (es : List α) :
    ofList c d es = answer ((Subset.ofList c d es).map Subset.bare) := by
  simp only [ofList, empty_eq, Subset.ofList]
  cases Subset.empty c d with
  | error err => rfl
  | ok s =>
    change (do return (← s.bare.extend es).1) = answer (((s.extend es).map (·.1)).map Subset.bare)
    rw [extend_bare]
    cases s.extend es <;> rfl

/-- the subset that an operand names -/
def ofOperand (c : Choice) (d : Domain α) (o : Operand α) : Guarded (Bare α) :=
  match c with
  | .auto => do (← emptyAuto d).union o
  | .compact => do
    let s ← empty .compact d
    return { s with form := .word (← resolveWord d .reject o) }
  | .general => do return ⟨d, .members (← resolveMembers d .reject o), false⟩

theorem ofOperand_eq (c : Choice) (d : Domain α) (o : Operand α) :
    ofOperand c d o = answer ((Subset.ofOperand c d o).map Subset.bare) := by
  cases c with
  | auto =>
    simp only [ofOperand, emptyAuto_eq]
    exact union_bare (Subset.emptyAuto d) o
  | compact =>
    by_cases hd : d.size ≤ width
    · have hempty : CompactSubset.empty d = .ok ⟨d, 0, hd, CompactSubset.zero_lt d⟩ := dif_pos hd
      simp only [ofOperand, empty_eq, resolveWord_eq hd, Subset.empty, Subset.ofOperand, CompactSubset.ofOperand,
        hempty]
      split <;> next h => simp only [h]; rfl
    · have hempty : CompactSubset.empty d = .error (.wordOverflow d.size) := dif_neg hd
      simp only [ofOperand, empty_eq, Subset.empty, Subset.ofOperand, CompactSubset.ofOperand, hempty]
      rfl
  | general =>
    simp only [ofOperand, resolveMembers_eq, Subset.ofOperand]
    unfold GeneralSubset.ofOperand
    split <;> next h => simp only [h]; rfl

/-- the compact subset whose positions are the bits of `w` -/
def ofWord (d : Domain α) (w : UInt64) : Guarded (Bare α) := do return ⟨d, .word (← acceptWord w d.size), false⟩

theorem ofWord_eq (d : Domain α) (w : UInt64) : ofWord d w = answer ((Subset.ofWord d w).map Subset.bare) := by
  simp only [ofWord, acceptWord_eq, Subset.ofWord]
  unfold CompactSubset.ofWord
  split <;> next h => simp only [h]; rfl

/-- how a subset of a domain is built -/
def build (d : Domain α) : Store.Recipe α → Guarded (Bare α)
  | .empty c => empty c d
  | .emptyUnder c => emptyUnder c d
  | .full c => full c d
  | .singleton c e => singleton c d e
  | .ofList c es => ofList c d es
  | .ofOperand c o => ofOperand c d o
  | .ofWord w => ofWord d w

theorem build_eq (d : Domain α) (r : Store.Recipe α) : build d r = answer ((r.build d).map Subset.bare) := by
  cases r with
  | empty c => exact empty_eq c d
  | emptyUnder c => exact emptyUnder_eq c d
  | full c => exact full_eq c d
  | singleton c e => exact singleton_eq c d e
  | ofList c es => exact ofList_eq c d es
  | ofOperand c o => exact ofOperand_eq c d o
  | ofWord w => exact ofWord_eq d w

/-! ## Other forms -/

/-- what was asked for when the subset was built -/
def choice (s : Bare α) : Choice :=
  if s.adaptive then .auto
  else match s.form with
    | .word _ => .compact
    | .members _ => .general

theorem choice_bare (s : Subset α) : s.bare.choice = s.choice := by
  obtain ⟨rep, adaptive⟩ := s
  cases rep <;> cases adaptive <;> rfl

/-- the same members over a domain that has to be equal -/
def reattach (s : Bare α) (d : Domain α) : Guarded (Bare α) := do
  if s.domain.same d then ofList s.choice d (← s.toList) else .error (.failed .domainMismatch)

theorem reattach_bare (s : Subset α) (d : Domain α) :
    s.bare.reattach d = answer ((s.reattach d).map Subset.bare) := by
  simp only [reattach, Subset.reattach, choice_bare, toList_bare]
  change (if s.domain.same d then _ else _) = _
  split_ifs
  · exact ofList_eq s.choice d s.toList
  · rfl

/-- the members as a word -/
def toWord (s : Bare α) : Guarded UInt64 :=
  match s.form with
  | .word w => .ok w
  | .members m =>
    if width < s.domain.size then .error (.failed (.wordOverflow s.domain.size)) else orBits 0 (sorted s.domain m)

theorem toWord_bare (s : Subset α) : s.bare.toWord = answer s.toWord := by
  obtain ⟨rep, adaptive⟩ := s
  cases rep with
  | compact c => rfl
  | general g =>
    change (if width < g.domain.size then _ else _) = answer g.toWord
    unfold GeneralSubset.toWord
    split_ifs with h
    · rfl
    · refine orBits_of (fun i hi => ?_) 0
      have hlt : i < g.domain.size := GeneralSubset.lt_of_mem_positions hi
      omega

/-- the same subset, held in one word -/
def toCompact (s : Bare α) : Guarded (Bare α) := do return ⟨s.domain, .word (← s.toWord), false⟩

theorem toCompact_bare (s : Subset α) : s.bare.toCompact = answer (s.toCompact.map Subset.bare) := by
  rw [toCompact, toWord_bare]
  obtain ⟨rep, adaptive⟩ := s
  cases rep with
  | compact c => rfl
  | general g =>
    change (do return ⟨g.domain, .word (← answer g.toWord), false⟩) =
      answer (((CompactSubset.ofGeneral g).map Subset.ofCompact).map Subset.bare)
    unfold CompactSubset.ofGeneral
    split <;> next h => simp only [h]; rfl

/-- the same subset, held as its members -/
def toGeneral (s : Bare α) : Guarded (Bare α) :=
  match s.form with
  | .word _ => do return ⟨s.domain, .members (Members.ofList (← s.toList)), false⟩
  | .members _ => .ok { s with adaptive := false }

theorem toGeneral_bare (s : Subset α) : s.bare.toGeneral = .ok s.toGeneral.bare := by
  have hlist := toList_bare s
  obtain ⟨rep, adaptive⟩ := s
  cases rep with
  | compact c =>
    change (do return (⟨c.domain, .members (Members.ofList (← _)), false⟩ : Bare α)) = _
    rw [hlist]
    rfl
  | general g => rfl

/-- the members as an integer mask -/
def toMask (s : Bare α) : Guarded Int :=
  match s.form with
  | .word w => .ok w.toNat
  | .members m => do return (← buffer (sorted s.domain m)).toNat

theorem toMask_bare (s : Subset α) : s.bare.toMask = .ok s.toMask := by
  obtain ⟨rep, adaptive⟩ := s
  cases rep with
  | compact c => rfl
  | general g =>
    change (do return ((← buffer g.positions).toNat : Int)) = _
    rw [buffer_eq]
    rfl

/-- the members as one bit for each element of the domain -/
def toBits (s : Bare α) : Guarded (List Bool) :=
  match s.form with
  | .word w => .ok (WordBuffer.toBits ⟨[w]⟩ s.domain.size)
  | .members m => do return (← buffer (sorted s.domain m)).toBits s.domain.size

theorem toBits_bare (s : Subset α) : s.bare.toBits = .ok s.toBits := by
  obtain ⟨rep, adaptive⟩ := s
  cases rep with
  | compact c => rfl
  | general g =>
    change (do return (← buffer g.positions).toBits g.domain.size) = _
    rw [buffer_eq]
    rfl

/-- the members without the domain; a fixed general form gives them as the caller did -/
def toMembers (s : Bare α) : Guarded (Members α) := do
  match s.adaptive, s.form with
  | false, .members m => return m
  | _, _ => return Members.ofList (← s.toList)

theorem toMembers_bare (s : Subset α) : s.bare.toMembers = .ok s.toMembers := by
  rw [toMembers, toList_bare]
  obtain ⟨rep, adaptive⟩ := s
  cases rep <;> cases adaptive <;> rfl

/-! ## Comparing -/

/-- number of members -/
def size (s : Bare α) : Nat :=
  match s.form with
  | .word w => Word.count w
  | .members m => m.size

theorem size_bare (s : Subset α) : s.bare.size = s.size := by
  obtain ⟨rep, adaptive⟩ := s
  cases rep <;> rfl

/-- whether every member is a member of the other -/
def within (s t : Bare α) : Guarded Bool := do (← s.toList).allM t.contains

theorem within_bare (s t : Subset α) : s.bare.within t.bare = .ok (s.toList.all t.contains) := by
  rw [within, toList_bare]
  exact allM_of (contains_bare t)

/-- whether every member is a member of the other; a fixed compact form goes straight to the members -/
def isSubsetOf (s t : Bare α) : Guarded Bool :=
  match s.adaptive, s.form with
  | false, .word _ => s.within t
  | _, _ => if s.size ≤ t.size then s.within t else .ok false

theorem isSubsetOf_bare (s t : Subset α) : s.bare.isSubsetOf t.bare = .ok (s.isSubsetOf t) := by
  have hsizes : (if s.bare.size ≤ t.bare.size then s.bare.within t.bare else .ok false) =
      .ok (s.size ≤ t.size && s.toList.all t.contains) := by
    rw [size_bare, size_bare, within_bare]
    by_cases h : s.size ≤ t.size
    · simp [h]
    · simp [h]
  have hwithin := within_bare s t
  obtain ⟨rep, adaptive⟩ := s
  cases rep <;> cases adaptive
  · exact hwithin
  all_goals exact hsizes

/-- whether both have equal members, whatever the domains -/
def sameElements (s t : Bare α) : Guarded Bool := if s.size = t.size then s.within t else .ok false

theorem sameElements_bare (s t : Subset α) : s.bare.sameElements t.bare = .ok (s.sameElements t) := by
  rw [sameElements, size_bare, size_bare, within_bare, Subset.sameElements]
  by_cases h : s.size = t.size
  · simp [h]
  · simp [h]

/-- whether both have the same positions of equal domains -/
def same (s t : Bare α) : Guarded Bool :=
  match s.form, t.form with
  | .word w, .word v => .ok (w == v && s.domain.same t.domain)
  | .members m, .members k => .ok (m.same k && s.domain.same t.domain)
  | _, _ => if s.domain.same t.domain then s.sameElements t else .ok false

theorem same_bare (s t : Subset α) : s.bare.same t.bare = .ok (s.same t) := by
  have hmixed : (if s.domain.same t.domain then s.bare.sameElements t.bare else .ok false) =
      .ok (s.sameDomain t && s.sameElements t) := by
    rw [sameElements_bare, Subset.sameDomain]
    cases s.domain.same t.domain <;> rfl
  obtain ⟨rep, adaptive⟩ := s
  obtain ⟨rep', adaptive'⟩ := t
  cases rep <;> cases rep'
  · rfl
  · exact hmixed
  · exact hmixed
  · rfl

/-- what stands for the subset in a hash -/
def digest (s : Bare α) : Guarded (Fingerprint × List Nat) := do
  return (s.domain.fingerprint, s.size :: (← s.positions))

theorem digest_bare (s : Subset α) : s.bare.digest = .ok s.digest := by
  rw [digest, positions_bare, size_bare]
  rfl

/-! ## Two subsets together -/

section Joining

variable {β : Type} [Element β]

/-- the set of all pairs of members -/
def product (s : Bare α) (t : Bare β) : Guarded (Members (Pair α β)) := do
  return Members.ofList (Pair.product (← s.toList) (← t.toList))

theorem product_bare (s : Subset α) (t : Subset β) : s.bare.product t.bare = .ok (s.product t) := by
  rw [product, toList_bare, toList_bare]
  rfl

/-- the members that are related to some member of the other side -/
def semijoin (s : Bare α) (t : Bare β) (related : α → β → Bool) : Guarded (Bare α) := do
  let right ← t.toList
  (← s.toList).foldlM (fun kept a => do if right.any (related a) then return kept else return (← kept.erase a).1) s

theorem semijoin_bare (s : Subset α) (t : Subset β) (related : α → β → Bool) :
    s.bare.semijoin t.bare related = .ok (s.semijoin t related).bare := by
  rw [semijoin, toList_bare, toList_bare, Subset.semijoin_eq_foldl]
  refine foldlM_along Subset.bare (fun kept a _ => ?_) s
  split_ifs
  · rfl
  · rw [erase_bare]
    rfl

/-- carries out a change -/
def apply (s : Bare α) : Change α β → Guarded (Bare α × Outcome)
  | .insert e => do let (s, new) ← s.insert e; return (s, .flag new)
  | .erase e => do let (s, old) ← s.erase e; return (s, .flag old)
  | .clear => .ok (s.clear, .done)
  | .extend es => do let (s, n) ← s.extend es; return (s, .count n)
  | .union o => do return (← s.union o, .done)
  | .inter o => do return (← s.inter o, .done)
  | .diff o => do return (← s.diff o, .done)
  | .complement => do return (← s.complement, .done)
  | .reattach d => do return (← s.reattach d, .done)
  | .semijoin t related => do return (← s.semijoin t.bare related, .done)

theorem apply_bare (s : Subset α) (c : Change α β) :
    s.bare.apply c = answer ((c.apply s).map fun r => (r.1.bare, r.2)) := by
  cases c with
  | insert e =>
    simp only [apply, insert_bare, Change.apply]
    cases s.insert e <;> rfl
  | erase e =>
    simp only [apply, erase_bare, Change.apply]
    rfl
  | clear =>
    simp only [apply, clear_bare, Change.apply]
    rfl
  | extend es =>
    simp only [apply, extend_bare, Change.apply]
    cases s.extend es <;> rfl
  | union o =>
    simp only [apply, union_bare, Change.apply]
    cases s.union o <;> rfl
  | inter o =>
    simp only [apply, inter_bare, Change.apply]
    cases s.inter o <;> rfl
  | diff o =>
    simp only [apply, diff_bare, Change.apply]
    cases s.diff o <;> rfl
  | complement =>
    simp only [apply, complement_bare, Change.apply]
    rfl
  | reattach d =>
    simp only [apply, reattach_bare, Change.apply]
    cases s.reattach d <;> rfl
  | semijoin t related =>
    simp only [apply, semijoin_bare, Change.apply]
    rfl

end Joining

/-- what answers a call that may fail: nothing where the library reports an error -/
def tolerate {β : Type} : Guarded β → Guarded (Option β)
  | .ok b => .ok (some b)
  | .error (.failed _) => .ok none
  | .error .broken => .error .broken

theorem tolerate_answer {β : Type} (r : Except Error β) : tolerate (answer r) = .ok r.toOption := by
  cases r <;> rfl

/-- how a subset is brought into another form -/
def convert (k : Store.Conversion) (s : Bare α) : Guarded (Option (Bare α)) :=
  match k with
  | .toCompact => tolerate s.toCompact
  | .toGeneral => do return some (← s.toGeneral)
  | .toAuto => .ok (some { s with adaptive := true })
  | .ofStrategy wanted => .ok (match s.form, wanted with
    | .word _, .compact | .members _, .general => some { s with adaptive := false }
    | _, _ => none)

theorem convert_bare (k : Store.Conversion) (s : Subset α) : s.bare.convert k = .ok ((k.apply s).map Subset.bare) := by
  cases k with
  | toCompact =>
    simp only [convert, toCompact_bare, tolerate_answer, Store.Conversion.apply]
    cases s.toCompact <;> rfl
  | toGeneral =>
    simp only [convert, toGeneral_bare, Store.Conversion.apply]
    rfl
  | toAuto => rfl
  | ofStrategy wanted =>
    obtain ⟨rep, adaptive⟩ := s
    cases rep <;> cases wanted <;> rfl

end Bare

end SubsetAlgebra
