/-
Asking for a fingerprint before or after an operation.

`remember` asks a domain for its fingerprint, and a subset for that of its domain. Nothing but a comparison of domains
looks at what is remembered, and that comes to comparing elements (`Domain.remember_same_remember`). So every operation
commutes with asking: whether it is done beforehand, of all that goes in, or afterwards, of what comes out, the outcome
is the same, down to the representatives that a general subset keeps. Changes are taken together in
`Change.apply_remember`, and questions that a caller's function answers one by one in `semijoinM_remember`.
-/
import SubsetAlgebra.Proofs.Representatives

namespace SubsetAlgebra

variable {α β : Type} [Element α] [Element β]

/-! ## Domains -/

namespace Domain

@[simp] theorem remember_elements (d : Domain α) : d.remember.elements = d.elements := rfl

@[simp] theorem remember_size (d : Domain α) : d.remember.size = d.size := rfl

@[simp] theorem remember_indexOf (d : Domain α) : d.remember.indexOf = d.indexOf := rfl

@[simp] theorem remember_contains (d : Domain α) : d.remember.contains = d.contains := rfl

@[simp] theorem remember_select (d : Domain α) : d.remember.select = d.select := rfl

@[simp] theorem remember_fullWord (d : Domain α) : d.remember.fullWord = d.fullWord := rfl

@[simp] theorem remember_remember (d : Domain α) : d.remember.remember = d.remember := rfl

@[simp] theorem remember_same_remember (d e : Domain α) : d.remember.same e.remember = d.same e := by
  rw [Bool.eq_iff_iff, same_iff, same_iff]
  rfl

theorem remember_eq_iff {d e : Domain α} : d.remember = e.remember ↔ d.elements = e.elements := by
  refine ⟨congrArg elements, fun h => ?_⟩
  unfold remember
  congr 1
  rw [h]

end Domain

/-! ## The two forms and operands -/

def CompactSubset.remember (s : CompactSubset α) : CompactSubset α :=
  { s with
    domain := s.domain.remember
    fits := s.fits
    bounded := s.bounded }

def GeneralSubset.remember (s : GeneralSubset α) : GeneralSubset α :=
  { s with
    domain := s.domain.remember
    inside := s.inside }

def Operand.remember : Operand α → Operand α
  | compact s => compact s.remember
  | general s => general s.remember
  | o => o

namespace CompactSubset

@[simp] theorem remember_domain (s : CompactSubset α) : s.remember.domain = s.domain.remember := rfl

@[simp] theorem remember_word (s : CompactSubset α) : s.remember.word = s.word := rfl

@[simp] theorem remember_toList (s : CompactSubset α) : s.remember.toList = s.toList := rfl

@[simp] theorem remember_toMembers (s : CompactSubset α) : s.remember.toMembers = s.toMembers := rfl

end CompactSubset

namespace GeneralSubset

@[simp] theorem remember_domain (s : GeneralSubset α) : s.remember.domain = s.domain.remember := rfl

@[simp] theorem remember_members (s : GeneralSubset α) : s.remember.members = s.members := rfl

@[simp] theorem remember_positions (s : GeneralSubset α) : s.remember.positions = s.positions := rfl

@[simp] theorem remember_toList (s : GeneralSubset α) : s.remember.toList = s.toList := rfl

end GeneralSubset

namespace CompactSubset

theorem empty_remember (d : Domain α) : empty d.remember = (empty d).map remember := by
  by_cases h : d.size ≤ Word.width
  · simp [empty, h, Except.map, remember]
  · simp [empty, h, Except.map]

theorem full_remember (d : Domain α) : full d.remember = (full d).map remember := by
  have hword := d.remember_fullWord
  unfold full
  -- the word kept carries where it comes from, so both sides are split and the two sources compared
  split <;> next h =>
    split <;> next h' =>
      rw [hword, h'] at h
      cases h <;> rfl

theorem ofWord_remember (d : Domain α) (w : UInt64) : ofWord d.remember w = (ofWord d w).map remember := by
  unfold ofWord
  split <;> next h =>
    split <;> next h' =>
      rw [Domain.remember_size, h'] at h
      cases h <;> rfl

theorem ofGeneral_remember (s : GeneralSubset α) : ofGeneral s.remember = (ofGeneral s).map remember := by
  have hword : s.remember.toWord = s.toWord := rfl
  unfold ofGeneral
  split <;> next h =>
    split <;> next h' =>
      rw [hword, h'] at h
      cases h <;> rfl

theorem insert_remember (s : CompactSubset α) (e : α) :
    s.remember.insert e = (s.insert e).map (Prod.map remember id) := by
  unfold insert
  split <;> next h =>
    split <;> next h' =>
      rw [remember_domain, Domain.remember_indexOf, h'] at h
      cases h <;> rfl

theorem erase_remember (s : CompactSubset α) (e : α) : s.remember.erase e = Prod.map remember id (s.erase e) := by
  simp only [erase, remember_domain, Domain.remember_indexOf]
  split <;> rfl

theorem wordOf_remember (d : Domain α) (rule : ForeignRule) (w : UInt64) (es : List α) :
    wordOf d.remember rule w es = wordOf d rule w es := by
  induction es generalizing w with
  | nil => rfl
  | cons e es ih => simp only [wordOf, Domain.remember_indexOf, ih]

theorem resolve_remember (d : Domain α) (rule : ForeignRule) (o : Operand α) :
    resolve d.remember rule o.remember = resolve d rule o := by
  cases o <;> simp [Operand.remember, resolve, wordOf_remember]

theorem ofOperand_remember (d : Domain α) (o : Operand α) :
    ofOperand d.remember o.remember = (ofOperand d o).map remember := by
  unfold ofOperand
  rw [empty_remember]
  cases empty d with
  | error e => rfl
  | ok s =>
    have hs : Except.map remember (.ok s : Except Error _) = .ok s.remember := rfl
    simp only [hs]
    split <;> next h =>
      split <;> next h' =>
        rw [remember_domain, resolve_remember, h'] at h
        cases h <;> rfl

theorem union_remember (s : CompactSubset α) (o : Operand α) :
    s.remember.union o.remember = (s.union o).map remember := by
  unfold union
  split <;> next h =>
    split <;> next h' =>
      rw [remember_domain, resolve_remember, h'] at h
      cases h <;> rfl

theorem inter_remember (s : CompactSubset α) (o : Operand α) :
    s.remember.inter o.remember = (s.inter o).map remember := by
  simp only [inter, remember_domain, resolve_remember]
  split <;> rfl

theorem diff_remember (s : CompactSubset α) (o : Operand α) : s.remember.diff o.remember = (s.diff o).map remember := by
  simp only [diff, remember_domain, resolve_remember]
  split <;> rfl

end CompactSubset

namespace GeneralSubset

theorem insert_remember (s : GeneralSubset α) (e : α) :
    s.remember.insert e = (s.insert e).map (Prod.map remember id) := by
  by_cases h : s.domain.contains e = true
  · simp [insert, h, Except.map, remember]
  · simp [insert, h, Except.map]

theorem resolve_remember (d : Domain α) (rule : ForeignRule) (o : Operand α) :
    resolve d.remember rule o.remember = resolve d rule o := by
  cases o <;> simp [Operand.remember, resolve, checked, elementsAt]

theorem ofOperand_remember (d : Domain α) (o : Operand α) :
    ofOperand d.remember o.remember = (ofOperand d o).map remember := by
  unfold ofOperand
  split <;> next h =>
    split <;> next h' =>
      rw [resolve_remember, h'] at h
      cases h <;> rfl

theorem union_remember (s : GeneralSubset α) (o : Operand α) :
    s.remember.union o.remember = (s.union o).map remember := by
  unfold union
  split <;> next h =>
    split <;> next h' =>
      rw [remember_domain, resolve_remember, h'] at h
      cases h <;> rfl

theorem inter_remember (s : GeneralSubset α) (o : Operand α) :
    s.remember.inter o.remember = (s.inter o).map remember := by
  simp only [inter, remember_domain, resolve_remember]
  split <;> rfl

theorem diff_remember (s : GeneralSubset α) (o : Operand α) : s.remember.diff o.remember = (s.diff o).map remember := by
  simp only [diff, remember_domain, resolve_remember]
  split <;> rfl

end GeneralSubset

/-! ## Subsets -/

namespace Subset

theorem remember_compact (c : CompactSubset α) (adaptive : Bool) :
    remember ⟨.compact c, adaptive⟩ = ⟨.compact c.remember, adaptive⟩ := rfl

theorem remember_general (g : GeneralSubset α) (adaptive : Bool) :
    remember ⟨.general g, adaptive⟩ = ⟨.general g.remember, adaptive⟩ := rfl

@[simp] theorem remember_remember (s : Subset α) : s.remember.remember = s.remember := by
  obtain ⟨rep, adaptive⟩ := s
  cases rep <;> rfl

@[simp] theorem remember_domain (s : Subset α) : s.remember.domain = s.domain.remember := s.remember_revised.1

@[simp] theorem remember_strategy (s : Subset α) : s.remember.strategy = s.strategy := s.remember_revised.2.1

@[simp] theorem remember_positions (s : Subset α) : s.remember.positions = s.positions := by
  obtain ⟨rep, adaptive⟩ := s
  cases rep <;> rfl

@[simp] theorem remember_toList (s : Subset α) : s.remember.toList = s.toList := by
  simp only [toList, remember_domain, remember_positions, Domain.remember_select]

@[simp] theorem remember_choice (s : Subset α) : s.remember.choice = s.choice := by
  obtain ⟨rep, adaptive⟩ := s
  cases rep <;> rfl

@[simp] theorem remember_toMembers (s : Subset α) : s.remember.toMembers = s.toMembers := by
  obtain ⟨rep, adaptive⟩ := s
  cases rep <;> rfl

/-! ### Changing -/

theorem insert_remember (s : Subset α) (e : α) : s.remember.insert e = (s.insert e).map (Prod.map remember id) := by
  obtain ⟨rep, adaptive⟩ := s
  cases rep with
  | compact c =>
    simp only [insert, remember_compact, c.insert_remember]
    cases c.insert e <;> rfl
  | general g =>
    simp only [insert, remember_general, g.insert_remember]
    cases g.insert e <;> rfl

theorem erase_remember (s : Subset α) (e : α) : s.remember.erase e = Prod.map remember id (s.erase e) := by
  obtain ⟨rep, adaptive⟩ := s
  cases rep with
  | compact c =>
    simp only [erase, remember_compact, c.erase_remember]
    rfl
  | general g => rfl

theorem clear_remember (s : Subset α) : s.remember.clear = s.clear.remember := by
  obtain ⟨rep, adaptive⟩ := s
  cases rep <;> rfl

theorem insertAll_remember (s : Subset α) (n : Nat) (es : List α) :
    s.remember.insertAll n es = (s.insertAll n es).map (Prod.map remember id) := by
  induction es generalizing s n with
  | nil => rfl
  | cons e es ih =>
    unfold insertAll
    rw [insert_remember]
    cases s.insert e with
    | error err => rfl
    | ok x => exact ih x.1 _

theorem extend_remember (s : Subset α) (es : List α) :
    s.remember.extend es = (s.extend es).map (Prod.map remember id) := by
  simp only [extend, remember_domain, Domain.remember_contains, insertAll_remember]
  split <;> rfl

/-- what either form does to the representation, the whole subset does -/
theorem mapM_remember {onCompact onCompact' : CompactSubset α → Except Error (CompactSubset α)}
    {onGeneral onGeneral' : GeneralSubset α → Except Error (GeneralSubset α)}
    (hc : ∀ c, onCompact c.remember = (onCompact' c).map CompactSubset.remember)
    (hg : ∀ g, onGeneral g.remember = (onGeneral' g).map GeneralSubset.remember) (s : Subset α) :
    ((s.remember.rep.mapM onCompact onGeneral).map fun r => { s.remember with rep := r }) =
      ((s.rep.mapM onCompact' onGeneral').map fun r => { s with rep := r }).map remember := by
  obtain ⟨rep, adaptive⟩ := s
  cases rep with
  | compact c =>
    simp only [remember_compact, Representation.mapM, hc]
    cases onCompact' c <;> rfl
  | general g =>
    simp only [remember_general, Representation.mapM, hg]
    cases onGeneral' g <;> rfl

theorem union_remember (s : Subset α) (o : Operand α) : s.remember.union o.remember = (s.union o).map remember :=
  mapM_remember (fun c => c.union_remember o) (fun g => g.union_remember o) s

theorem inter_remember (s : Subset α) (o : Operand α) : s.remember.inter o.remember = (s.inter o).map remember :=
  mapM_remember (fun c => c.inter_remember o) (fun g => g.inter_remember o) s

theorem diff_remember (s : Subset α) (o : Operand α) : s.remember.diff o.remember = (s.diff o).map remember :=
  mapM_remember (fun c => c.diff_remember o) (fun g => g.diff_remember o) s

theorem complement_remember (s : Subset α) : s.remember.complement = s.complement.remember := by
  obtain ⟨rep, adaptive⟩ := s
  cases rep <;> rfl

theorem semijoinM_remember {m : Type → Type} [Monad m] [LawfulMonad m] (s : Subset α) (t : Subset β)
    (related : α → β → m Bool) : s.remember.semijoinM t.remember related = remember <$> s.semijoinM t related := by
  have hfold : ∀ (keep : α → m Bool) (as : List α) (kept : Subset α),
      as.foldlM (fun kept a => do return if ← keep a then kept else (kept.erase a).1) kept.remember =
        remember <$> as.foldlM (fun kept a => do return if ← keep a then kept else (kept.erase a).1) kept := by
    intro keep as
    induction as with
    | nil => intro kept; simp only [List.foldlM_nil, map_pure]
    | cons a as ih =>
      intro kept
      simp only [List.foldlM_cons, bind_assoc, pure_bind, map_bind, ← ih]
      congr 1
      funext answer
      cases answer with
      | true => rfl
      | false => simp only [erase_remember, Prod.map_fst, Bool.false_eq_true, if_false]
  rw [semijoinM, semijoinM, remember_toList, remember_toList]
  exact hfold _ s.toList s

theorem semijoin_remember (s : Subset α) (t : Subset β) (related : α → β → Bool) :
    s.remember.semijoin t.remember related = (s.semijoin t related).remember :=
  semijoinM_remember s t fun a b => (pure (related a b) : Id Bool)

/-! ### Building -/

theorem emptyAuto_remember (d : Domain α) : emptyAuto d.remember = (emptyAuto d).remember := by
  by_cases h : d.size ≤ Word.width
  · simp [emptyAuto, h, remember_compact, CompactSubset.remember]
  · simp [emptyAuto, h, remember_general, GeneralSubset.remember, GeneralSubset.empty]

theorem ofCompact_remember (r : Except Error (CompactSubset α)) :
    (r.map CompactSubset.remember).map ofCompact = (r.map ofCompact).map remember := by
  cases r <;> rfl

theorem ofGeneral_remember (r : Except Error (GeneralSubset α)) :
    (r.map GeneralSubset.remember).map ofGeneral = (r.map ofGeneral).map remember := by
  cases r <;> rfl

theorem empty_remember (c : Choice) (d : Domain α) : empty c d.remember = (empty c d).map remember := by
  cases c with
  | auto => simp only [empty, emptyAuto_remember]; rfl
  | compact => simp only [empty, CompactSubset.empty_remember, ofCompact_remember]
  | general => rfl

theorem emptyUnder_remember (c : Choice) (d : Domain α) : emptyUnder c d.remember = (emptyUnder c d).map remember := by
  simp only [emptyUnder, Domain.remember_size, CompactSubset.empty_remember]
  split
  · rfl
  · cases CompactSubset.empty d <;> rfl
  · rfl

theorem fullAuto_remember (d : Domain α) : fullAuto d.remember = (fullAuto d).remember := by
  rw [fullAuto, emptyAuto_remember, complement_remember]
  rfl

theorem full_remember (c : Choice) (d : Domain α) : full c d.remember = (full c d).map remember := by
  cases c with
  | auto => simp only [full, fullAuto_remember]; rfl
  | compact => simp only [full, CompactSubset.full_remember, ofCompact_remember]
  | general => rfl

theorem ofOperand_remember (c : Choice) (d : Domain α) (o : Operand α) :
    ofOperand c d.remember o.remember = (ofOperand c d o).map remember := by
  cases c with
  | auto => simp only [ofOperand, emptyAuto_remember, union_remember]
  | compact => simp only [ofOperand, CompactSubset.ofOperand_remember, ofCompact_remember]
  | general => simp only [ofOperand, GeneralSubset.ofOperand_remember, ofGeneral_remember]

theorem ofWord_remember (d : Domain α) (w : UInt64) : ofWord d.remember w = (ofWord d w).map remember := by
  simp only [ofWord, CompactSubset.ofWord_remember, ofCompact_remember]

theorem first_remember {γ : Type} (r : Except Error (Subset α × γ)) :
    (r.map (Prod.map remember id)).map (·.1) = (r.map (·.1)).map remember := by
  cases r <;> rfl

theorem singleton_remember (c : Choice) (d : Domain α) (e : α) :
    singleton c d.remember e = (singleton c d e).map remember := by
  simp only [singleton, empty_remember]
  cases empty c d with
  | error err => rfl
  | ok s => exact (congrArg _ (s.insert_remember e)).trans (first_remember _)

theorem ofList_remember (c : Choice) (d : Domain α) (es : List α) :
    ofList c d.remember es = (ofList c d es).map remember := by
  simp only [ofList, empty_remember]
  cases empty c d with
  | error err => rfl
  | ok s => exact (congrArg _ (s.extend_remember es)).trans (first_remember _)

theorem reattach_remember (s : Subset α) (d : Domain α) :
    s.remember.reattach d.remember = (s.reattach d).map remember := by
  simp only [reattach, remember_domain, Domain.remember_same_remember, remember_choice, remember_toList,
    ofList_remember]
  split <;> rfl

/-! ### Other forms -/

theorem toCompact_remember (s : Subset α) : s.remember.toCompact = s.toCompact.map remember := by
  obtain ⟨rep, adaptive⟩ := s
  cases rep with
  | compact c => rfl
  | general g => simp only [toCompact, remember_general, CompactSubset.ofGeneral_remember, ofCompact_remember]

theorem toGeneral_remember (s : Subset α) : s.remember.toGeneral = s.toGeneral.remember := by
  obtain ⟨rep, adaptive⟩ := s
  cases rep <;> rfl

theorem ofStrategy?_remember (s : Subset α) (wanted : Strategy) :
    s.remember.ofStrategy? wanted = (s.ofStrategy? wanted).map remember := by
  simp only [ofStrategy?, remember_strategy]
  split <;> rfl

end Subset

/-! ## Changes -/

def Change.remember : Change α β → Change α β
  | union o => union o.remember
  | inter o => inter o.remember
  | diff o => diff o.remember
  | reattach d => reattach d.remember
  | semijoin t related => semijoin t.remember related
  | c => c

theorem Change.apply_remember (s : Subset α) (c : Change α β) :
    c.remember.apply s.remember = (c.apply s).map (Prod.map Subset.remember id) := by
  have done : ∀ r : Except Error (Subset α), (r.map Subset.remember).map (fun t => (t, Outcome.done)) =
      (r.map fun t => (t, Outcome.done)).map (Prod.map Subset.remember id) := by
    intro r
    cases r <;> rfl
  cases c with
  | insert e =>
    simp only [Change.remember, apply, s.insert_remember]
    cases s.insert e <;> rfl
  | extend es =>
    simp only [Change.remember, apply, s.extend_remember]
    cases s.extend es <;> rfl
  | erase e =>
    simp only [Change.remember, apply, s.erase_remember]
    rfl
  | clear =>
    simp only [Change.remember, apply, s.clear_remember]
    rfl
  | complement =>
    simp only [Change.remember, apply, s.complement_remember]
    rfl
  | semijoin t related =>
    simp only [Change.remember, apply, s.semijoin_remember]
    rfl
  | union o => exact (congrArg _ (s.union_remember o)).trans (done _)
  | inter o => exact (congrArg _ (s.inter_remember o)).trans (done _)
  | diff o => exact (congrArg _ (s.diff_remember o)).trans (done _)
  | reattach d => exact (congrArg _ (s.reattach_remember d)).trans (done _)

end SubsetAlgebra
