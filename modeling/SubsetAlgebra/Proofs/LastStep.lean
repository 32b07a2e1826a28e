/-
What a run of insertions, removals and clearings leaves.

An element of the domain is decided by the last step that names it since the subset was last cleared, by whichever equal
value: it is in after an insertion and out after a removal. Where no step names it, clearing has put it out, or it is as
it was at the start (`contains_mutated_iff`). Steps that name other elements do not touch it, so neighbours that name
unequal elements may change places (`mutated_swap`).

The answers account for the size: an insertion that says yes is one member more, a removal that says yes one member less
(`size_step`), and since the last clearing nothing else has counted (`size_mutated`).
-/
import Mathlib.Data.List.DropRight
import SubsetAlgebra.Proofs.Representatives

namespace SubsetAlgebra

variable {α : Type}

/-! ## Mutations -/

/-- a change of one element, or the removal of all -/
inductive Mutation (α : Type) where
  | insert (e : α)
  | erase (e : α)
  | clear

namespace Mutation

/-- the element that is named, if the change is of one element -/
def target : Mutation α → Option α
  | insert e => some e
  | erase e => some e
  | clear => none

def isClear (m : Mutation α) : Bool := m.target.isNone

theorem isClear_of_target {m : Mutation α} {x : α} (hm : m.target = some x) : m.isClear = false := by
  rw [isClear, hm, Option.isNone_some]

variable [Element α]

def change : Mutation α → Change α α
  | insert e => .insert e
  | erase e => .erase e
  | clear => .clear

/-- whether an element equal to `e` is named -/
def names (m : Mutation α) (e : α) : Bool := m.target.any (· == e)

/-- whether `e` is a member afterwards, if it is an element of the domain and `before` says whether it was one -/
def leaves (m : Mutation α) (e : α) (before : Bool) : Bool :=
  match m with
  | insert a => a == e || before
  | erase a => before && !(a == e)
  | clear => false

theorem leaves_other {m : Mutation α} {e : α} (hm : m.isClear = false) (he : m.names e = false) (before : Bool) :
    m.leaves e before = before := by
  cases m with
  | clear => cases hm
  | _ a =>
    have hae : (a == e) = false := he
    simp [leaves, hae]

theorem names_of_target {m : Mutation α} {x : α} (hm : m.target = some x) (e : α) : m.names e = (x == e) := by
  rw [names, hm, Option.any_some]

/-- of two mutations that name unequal elements one leaves `e` alone -/
theorem leaves_comm {m n : Mutation α} {x y : α} (hm : m.target = some x) (hn : n.target = some y)
    (hxy : (x == y) = false) (e : α) (before : Bool) :
    n.leaves e (m.leaves e before) = m.leaves e (n.leaves e before) := by
  have hclearm := isClear_of_target hm
  have hclearn := isClear_of_target hn
  cases hye : y == e with
  | false =>
    have hne : n.names e = false := by rw [names_of_target hn, hye]
    rw [leaves_other hclearn hne, leaves_other hclearn hne]
  | true =>
    have hme : m.names e = false := by rw [names_of_target hm, ← hxy, beq_congr_right hye]
    rw [leaves_other hclearm hme, leaves_other hclearm hme]

end Mutation

/-! ## Histories -/

/-- one step of a run and what came of it -/
structure Entry (α : Type) where
  mutation : Mutation α
  answer : Except Error Outcome

/-- an insertion that says that membership changed -/
def Entry.adds : Entry α → Bool
  | ⟨.insert _, .ok (.flag new)⟩ => new
  | _ => false

/-- a removal that says that membership changed -/
def Entry.removes : Entry α → Bool
  | ⟨.erase _, .ok (.flag gone)⟩ => gone
  | _ => false

/-- what comes after the last clearing; everything if there was none -/
def sinceClear (h : List (Entry α)) : List (Entry α) := h.rtakeWhile fun x => !x.mutation.isClear

theorem sinceClear_clear (h : List (Entry α)) {x : Entry α} (hx : x.mutation.isClear = true) :
    sinceClear (h ++ [x]) = [] :=
  List.rtakeWhile_concat_neg _ _ _ (by simp [hx])

theorem sinceClear_snoc (h : List (Entry α)) {x : Entry α} (hx : x.mutation.isClear = false) :
    sinceClear (h ++ [x]) = sinceClear h ++ [x] :=
  List.rtakeWhile_concat_pos _ _ _ (by simp [hx])

variable [Element α]

/-- the last step that names an element equal to `e` -/
def lastNaming (e : α) (h : List (Entry α)) : Option (Entry α) := (h.filter fun x => x.mutation.names e).getLast?

theorem lastNaming_snoc (e : α) (h : List (Entry α)) (x : Entry α) :
    lastNaming e (h ++ [x]) = if x.mutation.names e then some x else lastNaming e h := by
  unfold lastNaming
  rw [List.filter_append]
  split_ifs with hx <;> simp [hx]

namespace Subset

/-- the subset at the end of a run of mutations -/
def mutated (s : Subset α) (ms : List (Mutation α)) : Subset α := (s.run (ms.map Mutation.change)).1

/-- the steps of a run of mutations, each with its answer -/
def history (s : Subset α) (ms : List (Mutation α)) : List (Entry α) :=
  List.zipWith Entry.mk ms (s.run (ms.map Mutation.change)).2

theorem mutated_append (s : Subset α) (ms ns : List (Mutation α)) :
    s.mutated (ms ++ ns) = (s.mutated ms).mutated ns := by
  simp only [mutated, List.map_append, run_append]

theorem history_append (s : Subset α) (ms ns : List (Mutation α)) :
    s.history (ms ++ ns) = s.history ms ++ (s.mutated ms).history ns := by
  simp only [history, mutated, List.map_append, run_append]
  exact List.zipWith_append (by rw [length_run, List.length_map])

theorem history_cons (s : Subset α) (m : Mutation α) (ms : List (Mutation α)) :
    s.history (m :: ms) = ⟨m, (s.step m.change).2⟩ :: (s.step m.change).1.history ms := rfl

theorem mutated_snoc (s : Subset α) (ms : List (Mutation α)) (m : Mutation α) :
    s.mutated (ms ++ [m]) = ((s.mutated ms).step m.change).1 := s.mutated_append ms [m]

theorem history_snoc (s : Subset α) (ms : List (Mutation α)) (m : Mutation α) :
    s.history (ms ++ [m]) = s.history ms ++ [⟨m, ((s.mutated ms).step m.change).2⟩] := s.history_append ms [m]

theorem length_history (s : Subset α) (ms : List (Mutation α)) : (s.history ms).length = ms.length := by
  rw [history, List.length_zipWith, length_run, List.length_map, Nat.min_self]

/-! ## One step -/

theorem step_insert_known {s : Subset α} {a : α} {i : Nat} (hi : s.domain.indexOf a = some i) :
    ∃ t, s.step (Mutation.insert a).change = (t, .ok (.flag (!s.contains a))) ∧
      s.Revised t (Insert.insert i s.places) := by
  obtain ⟨t, ht, hrev⟩ := insert_known hi
  refine ⟨t, ?_, hrev⟩
  simp only [Mutation.change, step, Change.apply, ht, containsPosition_of_indexOf hi]
  rfl

theorem step_insert_foreign {s : Subset α} {a : α} (h : s.domain.indexOf a = none) :
    s.step (Mutation.insert a).change = (s, .error .foreignElement) := by
  simp only [Mutation.change, step, Change.apply, insert_foreign h]
  rfl

theorem step_erase (s : Subset α) (a : α) :
    s.step (Mutation.erase a).change = ((s.erase a).1, .ok (.flag (s.contains a))) := by
  simp only [Mutation.change, step, Change.apply, (s.erase_revised a).1]

theorem step_clear (s : Subset α) : s.step Mutation.clear.change = (s.clear, .ok .done) := rfl

theorem step_revised (s : Subset α) (m : Mutation α) : ∃ P, s.Revised (s.step m.change).1 P := by
  cases m with
  | insert a =>
    cases hi : s.domain.indexOf a with
    | none => exact ⟨_, by rw [step_insert_foreign hi]; exact Revised.refl s⟩
    | some i =>
      obtain ⟨t, ht, hrev⟩ := step_insert_known hi
      exact ⟨_, by rw [ht]; exact hrev⟩
  | erase a => exact ⟨_, by rw [step_erase]; exact (s.erase_revised a).2⟩
  | clear => exact ⟨_, s.clear_revised⟩

theorem mutated_revised (s : Subset α) (ms : List (Mutation α)) : ∃ P, s.Revised (s.mutated ms) P := by
  induction ms using List.reverseRecOn with
  | nil => exact ⟨_, Revised.refl s⟩
  | append_singleton ms m ih =>
    obtain ⟨P, hrev⟩ := ih
    obtain ⟨Q, hstep⟩ := (s.mutated ms).step_revised m
    exact ⟨Q, by rw [mutated_snoc]; exact hrev.trans hstep⟩

/-- what a step makes of the membership of one element depends on nothing but that membership -/
theorem contains_step {s : Subset α} {e : α} (he : s.domain.contains e = true) (m : Mutation α) :
    (s.step m.change).1.contains e = m.leaves e (s.contains e) := by
  cases m with
  | insert a =>
    change _ = (a == e || s.contains e)
    cases hi : s.domain.indexOf a with
    | none =>
      have hae : (a == e) = false := by
        rw [← Bool.not_eq_true]
        intro hae
        rw [Domain.contains, ← Domain.indexOf_congr _ hae, hi] at he
        cases he
      rw [step_insert_foreign hi, hae, Bool.false_or]
    | some i =>
      obtain ⟨t, ht, hrev⟩ := step_insert_known hi
      rw [ht, Bool.eq_iff_iff, contains_revised hrev, Bool.or_eq_true, Domain.beq_iff_of_indexOf hi, contains_iff]
      simp only [Set.mem_insert_iff, or_and_right, exists_or, exists_eq_left, mem_places]
  | erase a =>
    change _ = (s.contains e && !(a == e))
    rw [step_erase, Bool.eq_iff_iff, contains_revised (s.erase_revised a).2, Bool.and_eq_true, Bool.not_eq_true',
      ← Bool.not_eq_true, contains_iff]
    have hnamed : ∀ {j}, s.domain.indexOf e = some j → (s.domain.indexOf a = some j ↔ (a == e) = true) := fun hj =>
      (Domain.beq_iff_of_indexOf hj).symm.trans ⟨BEq.symm, BEq.symm⟩
    constructor
    · rintro ⟨j, ⟨hj, hne⟩, hje⟩
      exact ⟨⟨j, hj, hje⟩, (hnamed hje).not.1 hne⟩
    · rintro ⟨⟨j, hj, hje⟩, hne⟩
      exact ⟨j, ⟨hj, (hnamed hje).not.2 hne⟩, hje⟩
  | clear =>
    change s.clear.contains e = false
    rw [← Bool.not_eq_true, contains_revised s.clear_revised]
    rintro ⟨i, hi, -⟩
    exact hi

/-- a step that names another element does not touch `e` -/
theorem contains_step_other (s : Subset α) {m : Mutation α} {e : α} (hm : m.isClear = false) (he : m.names e = false) :
    (s.step m.change).1.contains e = s.contains e := by
  obtain ⟨P, hrev⟩ := s.step_revised m
  cases hd : s.domain.contains e with
  | false => rw [not_contains_of_foreign hd, not_contains_of_foreign (by rw [hrev.domain, hd])]
  | true => rw [contains_step hd, m.leaves_other hm he]

theorem erase_foreign {s : Subset α} {a : α} (h : s.domain.contains a = false) : s.erase a = (s, false) := by
  have hout := not_contains_of_foreign h
  obtain ⟨rep, adaptive⟩ := s
  cases rep with
  | compact c =>
    have hi : c.domain.indexOf a = none := Domain.indexOf_eq_none_iff.2 h
    have hc : c.erase a = (c, false) := by simp only [CompactSubset.erase, hi]
    simp only [erase, hc]
  | general g =>
    have hg : g.erase a = (g, false) := by
      obtain ⟨d, members, inside⟩ := g
      have hm : members.contains a = false := hout
      simp only [GeneralSubset.erase, hm, Members.erase_of_not_contains hm]
    simp only [erase, hg]

/-! ## Flags -/

theorem insert_error_iff (s : Subset α) (e : α) (err : Error) :
    s.insert e = .error err ↔ err = .foreignElement ∧ s.domain.contains e = false := by
  rw [← Domain.indexOf_eq_none_iff]
  constructor
  · intro h
    cases hi : s.domain.indexOf e with
    | none =>
      rw [insert_foreign hi] at h
      exact ⟨(Except.error.inj h).symm, rfl⟩
    | some i =>
      obtain ⟨t, ht, -⟩ := insert_known hi
      rw [ht] at h
      cases h
  · rintro ⟨rfl, hi⟩
    exact insert_foreign hi

theorem insert_flag_iff {s t : Subset α} {e : α} {new : Bool} (h : s.insert e = .ok (t, new)) :
    new = true ↔ t.contains e ≠ s.contains e := by
  cases hi : s.domain.indexOf e with
  | none =>
    rw [insert_foreign hi] at h
    cases h
  | some i =>
    obtain ⟨u, hu, hrev⟩ := insert_known hi
    rw [hu, containsPosition_of_indexOf hi] at h
    cases h
    have hin : t.contains e = true := (contains_revised hrev e).2 ⟨i, .inl rfl, hi⟩
    rw [hin]
    cases s.contains e <;> simp

theorem erase_flag_iff (s : Subset α) (e : α) : (s.erase e).2 = true ↔ (s.erase e).1.contains e ≠ s.contains e := by
  obtain ⟨hflag, hrev⟩ := s.erase_revised e
  have hout : (s.erase e).1.contains e = false := by
    rw [← Bool.not_eq_true, contains_revised hrev]
    rintro ⟨i, ⟨-, hne⟩, hi⟩
    exact hne hi
  rw [hflag, hout]
  cases s.contains e <;> simp

/-! ## Sizes -/

theorem size_clear (s : Subset α) : s.clear.size = 0 := by
  rw [size_eq_length, List.length_eq_zero_iff, List.eq_nil_iff_forall_not_mem]
  intro i hi
  rw [← mem_places, s.clear_revised.places] at hi
  exact hi

theorem size_erase (s : Subset α) (a : α) : (s.erase a).1.size + (if s.contains a then 1 else 0) = s.size := by
  have hrev := (s.erase_revised a).2
  split_ifs with hc
  · obtain ⟨i, hi, hia⟩ := contains_iff.1 hc
    have hout : ¬ (s.erase a).1.containsPosition i = true := by
      rw [containsPosition_iff, ← mem_places, hrev.places]
      exact fun h => h.2 hia
    -- put back, what was removed makes the subset what it was
    have hback : (s.erase a).1.Revised s (Insert.insert i (s.erase a).1.places) := by
      refine ⟨hrev.domain.symm, hrev.strategy.symm, hrev.adaptive.symm, ?_⟩
      rw [hrev.places]
      ext j
      simp only [Set.mem_insert_iff, Set.mem_ofPred_eq, hia]
      constructor
      · intro hj
        by_cases hji : j = i
        · exact .inl hji
        · exact .inr ⟨hj, fun h => hji (Option.some.inj h).symm⟩
      · rintro (rfl | ⟨hj, -⟩)
        · exact hi
        · exact hj
    rw [size_insert hback, if_neg hout]
  · have hsame : (s.erase a).1.places = s.places := by
      rw [hrev.places]
      ext j
      refine ⟨fun h => h.1, fun hj => ⟨hj, fun hja => hc ?_⟩⟩
      exact contains_iff.2 ⟨j, hj, hja⟩
    rw [size_eq_length, size_eq_length, positions_eq_of_places hsame, Nat.add_zero]

/-- a step on one element changes the size by what its answer says -/
theorem size_step (s : Subset α) {m : Mutation α} (hm : m.isClear = false) :
    (s.step m.change).1.size + (if (Entry.mk m (s.step m.change).2).removes then 1 else 0) =
      s.size + (if (Entry.mk m (s.step m.change).2).adds then 1 else 0) := by
  cases m with
  | insert a =>
    cases hi : s.domain.indexOf a with
    | none =>
      rw [step_insert_foreign hi]
      rfl
    | some i =>
      obtain ⟨t, ht, hrev⟩ := step_insert_known hi
      rw [ht]
      simp only [Entry.removes, Entry.adds, size_insert hrev, containsPosition_of_indexOf hi]
      cases s.contains a <;> rfl
  | erase a =>
    rw [step_erase]
    exact s.size_erase a
  | clear => cases hm

/-! ## Runs -/

/-- **The last step decides.** -/
theorem contains_mutated_iff (s : Subset α) (ms : List (Mutation α)) {e : α} (he : s.domain.contains e = true) :
    (s.mutated ms).contains e = true ↔
      (∃ a r, lastNaming e (sinceClear (s.history ms)) = some ⟨.insert a, r⟩) ∨
      (lastNaming e (sinceClear (s.history ms)) = none ∧ ms.any Mutation.isClear = false ∧ s.contains e = true) := by
  induction ms using List.reverseRecOn with
  | nil => simp [mutated, history, run, sinceClear, lastNaming]
  | append_singleton ms m ih =>
    obtain ⟨P, hrev⟩ := s.mutated_revised ms
    have he' : (s.mutated ms).domain.contains e = true := by rw [hrev.domain, he]
    rw [mutated_snoc, history_snoc, contains_step he', List.any_append, List.any_cons, List.any_nil, Bool.or_false]
    cases hm : m.isClear with
    | true =>
      rw [sinceClear_clear _ hm]
      cases m with
      | clear => simp [Mutation.leaves, lastNaming]
      | _ a => cases hm
    | false =>
      rw [sinceClear_snoc _ hm, lastNaming_snoc, Bool.or_false]
      cases hn : m.names e with
      | false =>
        rw [m.leaves_other hm hn]
        exact ih
      | true =>
        cases m with
        | insert a =>
          have hae : (a == e) = true := hn
          simp [Mutation.leaves, hae]
        | erase a =>
          have hae : (a == e) = true := hn
          simp [Mutation.leaves, hae]
        | clear => cases hm

theorem size_mutated (s : Subset α) (ms : List (Mutation α)) :
    (s.mutated ms).size + (sinceClear (s.history ms)).countP Entry.removes =
      (if ms.any Mutation.isClear then 0 else s.size) + (sinceClear (s.history ms)).countP Entry.adds := by
  induction ms using List.reverseRecOn with
  | nil => rfl
  | append_singleton ms m ih =>
    rw [mutated_snoc, history_snoc, List.any_append, List.any_cons, List.any_nil, Bool.or_false]
    cases hm : m.isClear with
    | true =>
      rw [sinceClear_clear _ hm]
      cases m with
      | clear => simp [step_clear, size_clear]
      | _ a => cases hm
    | false =>
      have hstep := (s.mutated ms).size_step hm
      rw [sinceClear_snoc _ hm, Bool.or_false, List.countP_append, List.countP_append, List.countP_singleton,
        List.countP_singleton]
      omega

/-! ## Neighbours -/

theorem answer_after_other (s : Subset α) {m n : Mutation α} {x y : α} (hm : m.target = some x)
    (hn : n.target = some y) (hxy : (x == y) = false) :
    ((s.step n.change).1.step m.change).2 = (s.step m.change).2 := by
  obtain ⟨P, hrev⟩ := s.step_revised n
  have hkept : (s.step n.change).1.contains x = s.contains x :=
    s.contains_step_other (Mutation.isClear_of_target hn) (by rw [Mutation.names_of_target hn]; exact Unequal.symm hxy)
  cases m with
  | insert a =>
    obtain rfl : a = x := Option.some.inj hm
    cases hi : s.domain.indexOf a with
    | none =>
      have hi' : (s.step n.change).1.domain.indexOf a = none := by rw [hrev.domain, hi]
      rw [step_insert_foreign hi, step_insert_foreign hi']
    | some i =>
      have hi' : (s.step n.change).1.domain.indexOf a = some i := by rw [hrev.domain, hi]
      obtain ⟨t, ht, -⟩ := step_insert_known hi
      obtain ⟨u, hu, -⟩ := step_insert_known hi'
      rw [ht, hu, hkept]
  | erase a =>
    cases hm
    rw [step_erase, step_erase, hkept]
  | clear => cases hm

/-- steps that name unequal elements make the same of the subset in either order -/
theorem step_swap (s : Subset α) {m n : Mutation α} {x y : α} (hm : m.target = some x) (hn : n.target = some y)
    (hxy : (x == y) = false) :
    Twins ((s.step m.change).1.step n.change).1 ((s.step n.change).1.step m.change).1 := by
  obtain ⟨P, hrevm⟩ := s.step_revised m
  obtain ⟨Q, hrevn⟩ := s.step_revised n
  obtain ⟨P', hrevmn⟩ := (s.step m.change).1.step_revised n
  obtain ⟨Q', hrevnm⟩ := (s.step n.change).1.step_revised m
  have hmn := hrevm.trans hrevmn
  have hnm := hrevn.trans hrevnm
  have hdomain :
      ((s.step m.change).1.step n.change).1.domain.same ((s.step n.change).1.step m.change).1.domain = true := by
    rw [hmn.domain, hnm.domain]
    exact Domain.same_refl s.domain
  refine (Twins.refl s).revised hmn hnm ((same_iff _ _).2 ⟨hdomain, (places_eq_iff hdomain).2 fun e => ?_⟩)
  cases he : s.domain.contains e with
  | false => rw [not_contains_of_foreign (hmn.domain ▸ he), not_contains_of_foreign (hnm.domain ▸ he)]
  | true =>
    have hem : (s.step m.change).1.domain.contains e = true := by rw [hrevm.domain, he]
    have hen : (s.step n.change).1.domain.contains e = true := by rw [hrevn.domain, he]
    calc ((s.step m.change).1.step n.change).1.contains e = n.leaves e (m.leaves e (s.contains e)) := by
          rw [contains_step hem, contains_step he]
      _ = m.leaves e (n.leaves e (s.contains e)) := Mutation.leaves_comm hm hn hxy e _
      _ = ((s.step n.change).1.step m.change).1.contains e := by rw [contains_step hen, contains_step he]

theorem mutated_swap (s : Subset α) (pre post : List (Mutation α)) {m n : Mutation α} {x y : α}
    (hm : m.target = some x) (hn : n.target = some y) (hxy : (x == y) = false) :
    Twins (s.mutated (pre ++ m :: n :: post)) (s.mutated (pre ++ n :: m :: post)) ∧
    ∃ earlier later r q, earlier.length = pre.length ∧
      s.history (pre ++ m :: n :: post) = earlier ++ ⟨m, r⟩ :: ⟨n, q⟩ :: later ∧
      s.history (pre ++ n :: m :: post) = earlier ++ ⟨n, q⟩ :: ⟨m, r⟩ :: later := by
  have htwins := (s.mutated pre).step_swap hm hn hxy
  obtain ⟨hanswers, halike⟩ := run_alike htwins.alike (post.map Mutation.change)
  obtain ⟨P, hu⟩ := (((s.mutated pre).step m.change).1.step n.change).1.mutated_revised post
  obtain ⟨Q, hv⟩ := (((s.mutated pre).step n.change).1.step m.change).1.mutated_revised post
  refine ⟨?_, s.history pre, (((s.mutated pre).step m.change).1.step n.change).1.history post,
    ((s.mutated pre).step m.change).2, ((s.mutated pre).step n.change).2, s.length_history pre, ?_, ?_⟩
  · rw [mutated_append, mutated_append]
    refine htwins.revised hu hv ((same_iff _ _).2 ⟨?_, halike.places⟩)
    exact Domain.same_of_elements_eq (congrArg Domain.elements halike.domain)
  · rw [history_append, history_cons, history_cons, answer_after_other _ hn hm (Unequal.symm hxy)]
  · rw [history_append, history_cons, history_cons, answer_after_other _ hm hn hxy]
    simp only [history, hanswers]

/-! ## Main result -/

/-- what mutations do to `s`: each by itself, and the run `ms` of them -/
structure Accounted (s : Subset α) (ms : List (Mutation α)) : Prop where
  insert_error_iff : ∀ e err, s.insert e = .error err ↔ err = .foreignElement ∧ s.domain.contains e = false
  insert_foreign : ∀ e, s.domain.contains e = false → s.step (Mutation.insert e).change = (s, .error .foreignElement)
  /-- the flag says whether membership changed -/
  insert_flag : ∀ e t new, s.insert e = .ok (t, new) → (new = true ↔ t.contains e ≠ s.contains e)
  erase_flag : ∀ e, (s.erase e).2 = true ↔ (s.erase e).1.contains e ≠ s.contains e
  erase_foreign : ∀ e, s.domain.contains e = false → s.erase e = (s, false)
  size_clear : s.clear.size = 0
  member_iff : ∀ e, s.domain.contains e = true → ((s.mutated ms).contains e = true ↔
    (∃ a r, lastNaming e (sinceClear (s.history ms)) = some ⟨.insert a, r⟩) ∨
    (lastNaming e (sinceClear (s.history ms)) = none ∧ ms.any Mutation.isClear = false ∧ s.contains e = true))
  size : (s.mutated ms).size + (sinceClear (s.history ms)).countP Entry.removes =
    (if ms.any Mutation.isClear then 0 else s.size) + (sinceClear (s.history ms)).countP Entry.adds
  /-- neighbours that name unequal elements change places, each with its answer -/
  swap : ∀ pre m n post x y, ms = pre ++ m :: n :: post → m.target = some x → n.target = some y → (x == y) = false →
    Twins (s.mutated ms) (s.mutated (pre ++ n :: m :: post)) ∧
    ∃ earlier later r q, earlier.length = pre.length ∧ s.history ms = earlier ++ ⟨m, r⟩ :: ⟨n, q⟩ :: later ∧
      s.history (pre ++ n :: m :: post) = earlier ++ ⟨n, q⟩ :: ⟨m, r⟩ :: later

/-- **The last step decides, and the flags account for the size.** After any run of insertions, removals and clearings
an element of the domain is a member iff the last step that names it since the last clearing is an insertion, or none
does, nothing was cleared and it was a member before. An insertion fails iff its element is foreign; every flag says
whether membership changed, so the size is that of the start, or zero after a clearing, with the members that the flags
tell of. Steps that name unequal elements may change places. -/
theorem last_step_decides (s : Subset α) (ms : List (Mutation α)) : Accounted s ms where
  insert_error_iff := s.insert_error_iff
  insert_foreign e h := step_insert_foreign (Domain.indexOf_eq_none_iff.2 h)
  insert_flag _ _ _ := insert_flag_iff
  erase_flag := s.erase_flag_iff
  erase_foreign _ := Subset.erase_foreign
  size_clear := s.size_clear
  member_iff _ := s.contains_mutated_iff ms
  size := s.size_mutated ms
  swap pre m n post x y h hm hn hxy := by
    subst h
    exact s.mutated_swap pre post hm hn hxy

end Subset

end SubsetAlgebra
