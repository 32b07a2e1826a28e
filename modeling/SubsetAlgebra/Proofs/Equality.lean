/-
Equality of subsets: an equivalence that every operation respects.

Two subsets are equal iff their domains have equal elements at the same positions and they have the same positions,
whatever their forms (`same_iff_forall₂`). Equal subsets are fed to a hash in the same way, whether or not a fingerprint
has been taken before (`digest_eq_of_same`). Each operation, on equal subsets with equal arguments, fails with the same
error or gives equal results: `union_same` and so on. A change of one kind on either side is a step of that sort
(`apply_same`), so runs of equal changes go on side by side (`run_same`).
-/
import Mathlib.Data.List.Forall2
import SubsetAlgebra.Proofs.Interchange
import SubsetAlgebra.Subset.Change

namespace SubsetAlgebra

open Word (width)

variable {α β : Type} [Element α] [Element β]

/-! ## Equal domains -/

theorem beq_iff_forall₂ {xs ys : List α} : (xs == ys) = true ↔ List.Forall₂ (fun a b => (a == b) = true) xs ys := by
  induction xs generalizing ys with
  | nil => cases ys <;> simp
  | cons x xs ih =>
    cases ys with
    | nil => simp
    | cons y ys => rw [List.cons_beq_cons, Bool.and_eq_true, List.forall₂_cons, ih]

theorem beq_trans_of_beq {xs ys zs : List α} (h : (xs == ys) = true) (h' : (ys == zs) = true) : (xs == zs) = true := by
  induction xs generalizing ys zs with
  | nil =>
    cases ys with
    | nil => exact h'
    | cons _ _ => cases h
  | cons x xs ih =>
    cases ys with
    | nil => cases h
    | cons y ys =>
      cases zs with
      | nil => cases h'
      | cons z zs =>
        simp only [List.cons_beq_cons, Bool.and_eq_true] at h h' ⊢
        exact ⟨BEq.trans h.1 h'.1, ih h.2 h'.2⟩

namespace Domain

theorem same_trans {a b c : Domain α} (h : a.same b = true) (h' : b.same c = true) : a.same c = true :=
  (same_iff a c).2 (beq_trans_of_beq ((same_iff a b).1 h) ((same_iff b c).1 h'))

/-- a fingerprint that is remembered is the one that would be computed -/
theorem fingerprint_eq (d : Domain α) : d.fingerprint = fingerprintOf d.elements := by
  unfold fingerprint
  cases hk : d.known with
  | none => rfl
  | some k => exact d.known_eq k hk

theorem fingerprint_eq_of_same {a b : Domain α} (h : a.same b = true) : a.fingerprint = b.fingerprint := by
  rw [fingerprint_eq, fingerprint_eq, fingerprintOf_eq_of_beq ((same_iff a b).1 h)]

theorem same_congr_left {a b : Domain α} (h : a.same b = true) (c : Domain α) : a.same c = b.same c :=
  Bool.eq_iff_iff.2 ⟨same_trans (same_symm h), same_trans h⟩

theorem same_congr_right {a b : Domain α} (h : a.same b = true) (c : Domain α) : c.same a = c.same b :=
  Bool.eq_iff_iff.2 ⟨fun k => same_trans k h, fun k => same_trans k (same_symm h)⟩

end Domain

/-! ## Equal operands -/

/-- operands that are equal: the same one, or equal lists, sets or subsets of any two forms -/
inductive Operand.Equal : Operand α → Operand α → Prop where
  | refl (o : Operand α) : Equal o o
  | elements {es es' : List α} : (es == es') = true → Equal (.elements es) (.elements es')
  | members {m m' : Members α} : m.same m' = true → Equal (.members m) (.members m')
  | subset {s t : Subset α} : s.same t = true → Equal s.toOperand t.toOperand

theorem Operand.Equal.interchangeable {d d' : Domain α} (hd : d.same d' = true) {o o' : Operand α} (h : o.Equal o') :
    Interchangeable d d' o o' := by
  cases h with
  | refl => exact .of_domains hd o
  | @elements es es' hes => exact .of_lists (elements_lists es) (elements_lists es') hd (Domain.any_eq_of_beq hes)
  | @members m m' hm => exact .of_lists (members_lists m) (members_lists m') hd ((Members.same_iff m m').1 hm)
  | @subset s t hst =>
    refine .of_lists (subset_lists s) (subset_lists t) hd fun e => ?_
    obtain ⟨hdom, hplaces⟩ := (Subset.same_iff s t).1 hst
    rw [(subset_lists s).names, (subset_lists t).names, ← Subset.contains_eq_any_toList,
      ← Subset.contains_eq_any_toList]
    exact (Subset.places_eq_iff hdom).1 hplaces e

namespace Subset

open Operand (Interchangeable)

/-! ## An equivalence -/

theorem same_iff_forall₂ (s t : Subset α) :
    s.same t = true ↔ List.Forall₂ (fun a b => (a == b) = true) s.domain.elements t.domain.elements ∧
      s.positions = t.positions := by
  rw [same_iff, Domain.same_iff, beq_iff_forall₂]
  refine and_congr_right fun _ => ⟨positions_eq_of_places, fun h => ?_⟩
  ext i
  rw [mem_places, mem_places, h]

theorem same_refl (s : Subset α) : s.same s = true := (same_iff s s).2 ⟨Domain.same_refl s.domain, rfl⟩

theorem same_symm {s t : Subset α} (h : s.same t = true) : t.same s = true := by
  rw [same_iff] at h ⊢
  exact ⟨Domain.same_symm h.1, h.2.symm⟩

theorem same_trans {s t u : Subset α} (h : s.same t = true) (h' : t.same u = true) : s.same u = true := by
  rw [same_iff] at h h' ⊢
  exact ⟨Domain.same_trans h.1 h'.1, h.2.trans h'.2⟩

theorem same_congr {s t s' t' : Subset α} (h : s.same t = true) (h' : s'.same t' = true) : s.same s' = t.same t' :=
  Bool.eq_iff_iff.2 ⟨fun k => same_trans (same_symm h) (same_trans k h'),
    fun k => same_trans h (same_trans k (same_symm h'))⟩

section Equal

variable {s t : Subset α}

theorem sameDomain_of_same (h : s.same t = true) : s.domain.same t.domain = true := ((same_iff s t).1 h).1

theorem places_of_same (h : s.same t = true) : s.places = t.places := ((same_iff s t).1 h).2

theorem positions_of_same (h : s.same t = true) : s.positions = t.positions := positions_eq_of_places (places_of_same h)

/-! ## Queries -/

theorem size_of_same (h : s.same t = true) : s.size = t.size := by
  rw [size_eq_length, size_eq_length, positions_of_same h]

theorem containsPosition_of_same (h : s.same t = true) (i : Nat) : s.containsPosition i = t.containsPosition i := by
  rw [containsPosition_eq, containsPosition_eq, positions_of_same h]

theorem contains_of_same (h : s.same t = true) {e e' : α} (he : (e == e') = true) : s.contains e = t.contains e' := by
  rw [contains_congr s he]
  exact (places_eq_iff (sameDomain_of_same h)).1 (places_of_same h) e'

theorem isEmpty_of_same (h : s.same t = true) : s.isEmpty = t.isEmpty := by
  rw [isEmpty_eq, isEmpty_eq, positions_of_same h]

theorem isFull_of_same (h : s.same t = true) : s.isFull = t.isFull := by
  rw [isFull, isFull, size_of_same h, Domain.size_eq_of_same (sameDomain_of_same h)]

theorem toWord_of_same (h : s.same t = true) : s.toWord = t.toWord := by
  rw [toWord_eq, toWord_eq, Domain.size_eq_of_same (sameDomain_of_same h), positions_of_same h]

theorem toMask_of_same (h : s.same t = true) : s.toMask = t.toMask := by
  rw [toMask_eq, toMask_eq, positions_of_same h]

theorem toBits_of_same (h : s.same t = true) : s.toBits = t.toBits := by
  have : s.containsPosition = t.containsPosition := funext (containsPosition_of_same h)
  rw [toBits_eq, toBits_eq, this, Domain.size_eq_of_same (sameDomain_of_same h)]

/-- equal subsets are fed to a hash alike -/
theorem digest_eq_of_same (h : s.same t = true) : s.digest = t.digest := by
  rw [digest, digest, Domain.fingerprint_eq_of_same (sameDomain_of_same h), size_of_same h, positions_of_same h]

/-- taking a fingerprint changes nothing that is fed to a hash -/
theorem remember_same (s : Subset α) : s.remember.same s = true := by
  obtain ⟨rep, adaptive⟩ := s
  rw [same_iff]
  cases rep with
  | compact c => exact ⟨(Domain.same_iff _ _).2 BEq.rfl, rfl⟩
  | general g => exact ⟨(Domain.same_iff _ _).2 BEq.rfl, rfl⟩

variable {s' t' : Subset α}

theorem sameDomain_congr (h : s.same t = true) (h' : s'.same t' = true) : s.sameDomain s' = t.sameDomain t' := by
  rw [sameDomain, sameDomain, Domain.same_congr_left (sameDomain_of_same h),
    Domain.same_congr_right (sameDomain_of_same h')]

theorem isSubsetOf_congr (h : s.same t = true) (h' : s'.same t' = true) : s.isSubsetOf s' = t.isSubsetOf t' := by
  have hs : ∀ e, s.contains e = t.contains e := fun e => contains_of_same h BEq.rfl
  have hs' : ∀ e, s'.contains e = t'.contains e := fun e => contains_of_same h' BEq.rfl
  rw [Bool.eq_iff_iff, isSubsetOf_iff, isSubsetOf_iff]
  simp only [hs, hs']

theorem sameElements_congr (h : s.same t = true) (h' : s'.same t' = true) : s.sameElements s' = t.sameElements t' := by
  have hs : ∀ e, s.contains e = t.contains e := fun e => contains_of_same h BEq.rfl
  have hs' : ∀ e, s'.contains e = t'.contains e := fun e => contains_of_same h' BEq.rfl
  rw [Bool.eq_iff_iff, sameElements_iff, sameElements_iff]
  simp only [hs, hs']

/-! ## Changes -/

theorem same_of_revised {u v : Subset α} {P Q : Set Nat} (h : s.same t = true) (hu : s.Revised u P) (hv : t.Revised v Q)
    (hPQ : P = Q) : u.same v = true := by
  rw [same_iff, hu.domain, hv.domain, hu.places, hv.places]
  exact ⟨sameDomain_of_same h, hPQ⟩

/-- equal subsets, and the same answer besides -/
def SameWith {γ : Type} (x y : Subset α × γ) : Prop := x.1.same y.1 = true ∧ x.2 = y.2

theorem union_same (h : s.same t = true) {o o' : Operand α} (ho : Interchangeable s.domain t.domain o o') :
    Parallel (fun u v => u.same v = true) (s.union o) (t.union o') :=
  (ho.parallel (s.union_answers o) (t.union_answers o')).mono fun _ _ hr =>
    same_of_revised h hr.1 hr.2 (by rw [places_of_same h, ho.selection])

theorem inter_same (h : s.same t = true) {o o' : Operand α} (ho : Interchangeable s.domain t.domain o o') :
    Parallel (fun u v => u.same v = true) (s.inter o) (t.inter o') :=
  (ho.parallel (s.inter_answers o) (t.inter_answers o')).mono fun _ _ hr =>
    same_of_revised h hr.1 hr.2 (by rw [places_of_same h, ho.selection])

theorem diff_same (h : s.same t = true) {o o' : Operand α} (ho : Interchangeable s.domain t.domain o o') :
    Parallel (fun u v => u.same v = true) (s.diff o) (t.diff o') :=
  (ho.parallel (s.diff_answers o) (t.diff_answers o')).mono fun _ _ hr =>
    same_of_revised h hr.1 hr.2 (by rw [places_of_same h, ho.selection])

theorem complement_same (h : s.same t = true) : s.complement.same t.complement = true := by
  refine same_of_revised h s.complement_revised t.complement_revised ?_
  rw [Domain.size_eq_of_same (sameDomain_of_same h), places_of_same h]

theorem clear_same (h : s.same t = true) : s.clear.same t.clear = true :=
  same_of_revised h s.clear_revised t.clear_revised rfl

theorem indexOf_of_same (h : s.same t = true) {e e' : α} (he : (e == e') = true) :
    s.domain.indexOf e = t.domain.indexOf e' := by
  rw [Domain.indexOf_eq_of_same (sameDomain_of_same h), Domain.indexOf_congr _ he]

theorem insert_same (h : s.same t = true) {e e' : α} (he : (e == e') = true) :
    Parallel SameWith (s.insert e) (t.insert e') := by
  have hidx := indexOf_of_same h he
  cases hi : s.domain.indexOf e with
  | none =>
    rw [insert_foreign hi, insert_foreign (hidx ▸ hi)]
    exact .failed _
  | some i =>
    obtain ⟨u, hu, hrev⟩ := insert_known hi
    obtain ⟨v, hv, hrev'⟩ := insert_known (s := t) (hidx ▸ hi)
    rw [hu, hv]
    refine .done ⟨same_of_revised h hrev hrev' ?_, ?_⟩
    · rw [places_of_same h]
    · exact congrArg (! ·) (containsPosition_of_same h i)

theorem erase_same (h : s.same t = true) {e e' : α} (he : (e == e') = true) : SameWith (s.erase e) (t.erase e') := by
  obtain ⟨hflag, hrev⟩ := s.erase_revised e
  obtain ⟨hflag', hrev'⟩ := t.erase_revised e'
  refine ⟨same_of_revised h hrev hrev' ?_, ?_⟩
  · rw [places_of_same h, indexOf_of_same h he]
  · rw [hflag, hflag', contains_of_same h he]

/-- lists that name the same elements to the two domains -/
theorem extend_interchangeable (h : s.same t = true) {es es' : List α}
    (hlists : Interchangeable s.domain t.domain (.elements es) (.elements es')) :
    Parallel SameWith (s.extend es) (t.extend es') := by
  have hplaces : s.domain.placesOf es = t.domain.placesOf es' := by
    rw [← (Operand.elements_lists es).selection_eq, hlists.selection, (Operand.elements_lists es').selection_eq]
  have hforeign_iff : (∃ e ∈ es, s.domain.contains e = false) ↔ ∃ e ∈ es', t.domain.contains e = false := by
    simpa [(Operand.elements_lists _).fault_iff] using hlists.fault .reject .foreignElement
  rcases t.domain.foreign_or_known es' with hforeign | hknown
  · rw [extend_foreign (hforeign_iff.2 hforeign), extend_foreign hforeign]
    exact .failed _
  · have hknown' : ∀ e ∈ es, s.domain.contains e = true := by
      intro e he
      by_contra hc
      obtain ⟨x, hx, hxc⟩ := hforeign_iff.1 ⟨e, he, by simpa using hc⟩
      rw [hknown x hx] at hxc
      cases hxc
    obtain ⟨u, n, hu, hrev, hn⟩ := extend_known hknown'
    obtain ⟨v, m, hv, hrev', hm⟩ := extend_known hknown
    have hafter : u.same v = true := same_of_revised h hrev hrev' (by rw [places_of_same h, hplaces])
    -- the counts are the growth, and both sides have grown alike
    have hcount : n = m := by
      have := size_of_same h
      have := size_of_same hafter
      omega
    rw [hu, hv]
    exact .done ⟨hafter, hcount⟩

theorem extend_same (h : s.same t = true) {es es' : List α} (hes : (es == es') = true) :
    Parallel SameWith (s.extend es) (t.extend es') :=
  extend_interchangeable h ((Operand.Equal.elements hes).interchangeable (sameDomain_of_same h))

theorem reattach_same (h : s.same t = true) {d d' : Domain α} (hd : d.same d' = true) :
    Parallel (fun u v => u.same v = true) (s.reattach d) (t.reattach d') := by
  have hmatch : s.domain.same d = t.domain.same d' := by
    rw [Domain.same_congr_left (sameDomain_of_same h), Domain.same_congr_right hd]
  cases hsd : s.domain.same d with
  | false =>
    rw [reattach_mismatch hsd, reattach_mismatch (hmatch ▸ hsd)]
    exact .failed _
  | true =>
    obtain ⟨u, hu, hb⟩ := reattach_built hsd
    obtain ⟨v, hv, hb'⟩ := reattach_built (s := t) (hmatch ▸ hsd)
    rw [hu, hv]
    refine .done ?_
    rw [same_iff, hb.domain, hb'.domain, hb.places, hb'.places]
    exact ⟨hd, places_of_same h⟩

end Equal

theorem exists_mem_toList_of_same {s t : Subset α} (h : s.same t = true) {a : α} (ha : a ∈ s.toList) :
    ∃ b ∈ t.toList, (a == b) = true := by
  have hc : s.contains a = true := by
    rw [contains_eq_any_toList, List.any_eq_true]
    exact ⟨a, ha, BEq.rfl⟩
  rw [contains_of_same h BEq.rfl, contains_eq_any_toList, List.any_eq_true] at hc
  obtain ⟨b, hb, hba⟩ := hc
  exact ⟨b, hb, BEq.symm hba⟩

/-- a semijoin by relations that answer alike on equal elements -/
theorem semijoin_same {s t : Subset α} {s' t' : Subset β} (h : s.same t = true) (h' : s'.same t' = true)
    {related related' : α → β → Bool}
    (hrel : ∀ a a' b b', (a == a') = true → (b == b') = true → related a b = related' a' b') :
    (s.semijoin s' related).same (t.semijoin t' related') = true := by
  refine same_of_revised h (s.semijoin_revised s' related) (t.semijoin_revised t' related') ?_
  rw [places_of_same h]
  ext j
  refine and_congr_right fun hj => ?_
  have hlt := lt_of_mem_positions hj
  obtain ⟨a', ha'⟩ := Domain.exists_getElem? hlt
  rw [← Domain.size_eq_of_same (sameDomain_of_same h)] at hlt
  obtain ⟨a, ha⟩ := Domain.exists_getElem? hlt
  have haa' : (a == a') = true := by
    have hidx := Domain.indexOf_of_getElem? ha
    rw [Domain.indexOf_eq_of_same (sameDomain_of_same h)] at hidx
    obtain ⟨x, hx, hxa⟩ := Domain.indexOf_eq_some_iff.1 hidx
    rw [ha'] at hx
    cases hx
    exact BEq.symm hxa
  rw [ha, ha']
  constructor
  · rintro ⟨_, hx, b, hb, hab⟩
    cases hx
    obtain ⟨b', hb', hbb'⟩ := exists_mem_toList_of_same h' hb
    exact ⟨a', rfl, b', hb', by rw [← hrel a a' b b' haa' hbb', hab]⟩
  · rintro ⟨_, hx, b', hb', hab⟩
    cases hx
    obtain ⟨b, hb, hbb'⟩ := exists_mem_toList_of_same (same_symm h') hb'
    exact ⟨a, rfl, b, hb, by rw [hrel a a' b b' haa' (BEq.symm hbb'), hab]⟩

/-! ## Steps and runs -/

/-- changes of one kind with equal arguments -/
inductive ChangesAlike : Change α β → Change α β → Prop where
  | insert {e e' : α} : (e == e') = true → ChangesAlike (.insert e) (.insert e')
  | erase {e e' : α} : (e == e') = true → ChangesAlike (.erase e) (.erase e')
  | clear : ChangesAlike .clear .clear
  | extend {es es' : List α} : (es == es') = true → ChangesAlike (.extend es) (.extend es')
  | union {o o' : Operand α} : o.Equal o' → ChangesAlike (.union o) (.union o')
  | inter {o o' : Operand α} : o.Equal o' → ChangesAlike (.inter o) (.inter o')
  | diff {o o' : Operand α} : o.Equal o' → ChangesAlike (.diff o) (.diff o')
  | complement : ChangesAlike .complement .complement
  | reattach {d d' : Domain α} : d.same d' = true → ChangesAlike (.reattach d) (.reattach d')
  | semijoin {t t' : Subset β} {related related' : α → β → Bool} : t.same t' = true →
    (∀ a a' b b', (a == a') = true → (b == b') = true → related a b = related' a' b') →
    ChangesAlike (.semijoin t related) (.semijoin t' related')

theorem parallel_done {r r' : Except Error (Subset α)} (h : Parallel (fun u v => u.same v = true) r r') :
    Parallel SameWith (r.map fun u => (u, Outcome.done)) (r'.map fun u => (u, Outcome.done)) :=
  h.map fun _ _ huv => ⟨huv, rfl⟩

theorem parallel_answer {γ : Type} {r r' : Except Error (Subset α × γ)} (h : Parallel SameWith r r') (f : γ → Outcome) :
    Parallel SameWith (r.map fun x => (x.1, f x.2)) (r'.map fun x => (x.1, f x.2)) :=
  h.map fun _ _ huv => ⟨huv.1, congrArg f huv.2⟩

theorem apply_same {s t : Subset α} (h : s.same t = true) {c c' : Change α β} (hc : ChangesAlike c c') :
    Parallel SameWith (c.apply s) (c'.apply t) := by
  have hdom := sameDomain_of_same h
  cases hc with
  | insert he => exact parallel_answer (insert_same h he) .flag
  | erase he => exact .done ⟨(erase_same h he).1, congrArg Outcome.flag (erase_same h he).2⟩
  | clear => exact .done ⟨clear_same h, rfl⟩
  | extend hes => exact parallel_answer (extend_same h hes) .count
  | union ho => exact parallel_done (union_same h (ho.interchangeable hdom))
  | inter ho => exact parallel_done (inter_same h (ho.interchangeable hdom))
  | diff ho => exact parallel_done (diff_same h (ho.interchangeable hdom))
  | complement => exact .done ⟨complement_same h, rfl⟩
  | reattach hd => exact parallel_done (reattach_same h hd)
  | semijoin ht hrel => exact .done ⟨semijoin_same h ht hrel, rfl⟩

theorem step_same {s t : Subset α} (h : s.same t = true) {c c' : Change α β} (hc : ChangesAlike c c') :
    SameWith (s.step c) (t.step c') := by
  have hp := apply_same h hc
  unfold step
  generalize c.apply s = x at hp
  generalize c'.apply t = y at hp
  cases hp with
  | failed e => exact ⟨h, rfl⟩
  | done huv => exact ⟨huv.1, congrArg Except.ok huv.2⟩

/-- **Runs respect equality.** Equal subsets under runs of equal changes give the same answers and end equal. -/
theorem run_same {s t : Subset α} (h : s.same t = true) {cs cs' : List (Change α β)}
    (hcs : List.Forall₂ ChangesAlike cs cs') : SameWith (s.run cs) (t.run cs') := by
  induction hcs generalizing s t with
  | nil => exact ⟨h, rfl⟩
  | cons hc _ ih =>
    obtain ⟨hafter, hanswer⟩ := step_same h hc
    obtain ⟨hend, hanswers⟩ := ih hafter
    refine ⟨hend, ?_⟩
    simp only [run, hanswer, hanswers]

/-! ## Main result -/

/-- nothing that is done with `s`, alone or with `s'`, or asked of it tells it from `t`, alone or with `t'` -/
structure Congruent (s t s' t' : Subset α) : Prop where
  union : Parallel (fun u v => u.same v = true) (s.union s'.toOperand) (t.union t'.toOperand)
  inter : Parallel (fun u v => u.same v = true) (s.inter s'.toOperand) (t.inter t'.toOperand)
  diff : Parallel (fun u v => u.same v = true) (s.diff s'.toOperand) (t.diff t'.toOperand)
  complement : s.complement.same t.complement = true
  insert : ∀ e e', (e == e') = true → Parallel SameWith (s.insert e) (t.insert e')
  erase : ∀ e e', (e == e') = true → SameWith (s.erase e) (t.erase e')
  extend : ∀ es es', (es == es') = true → Parallel SameWith (s.extend es) (t.extend es')
  clear : s.clear.same t.clear = true
  reattach : ∀ d d', d.same d' = true → Parallel (fun u v => u.same v = true) (s.reattach d) (t.reattach d')
  isSubsetOf : s.isSubsetOf s' = t.isSubsetOf t'
  sameElements : s.sameElements s' = t.sameElements t'
  sameDomain : s.sameDomain s' = t.sameDomain t'
  same : s.same s' = t.same t'
  size : s.size = t.size
  isEmpty : s.isEmpty = t.isEmpty
  isFull : s.isFull = t.isFull
  positions : s.positions = t.positions
  contains : ∀ e e', (e == e') = true → s.contains e = t.contains e'
  containsPosition : ∀ i, s.containsPosition i = t.containsPosition i
  toWord : s.toWord = t.toWord
  toMask : s.toMask = t.toMask
  toBits : s.toBits = t.toBits

theorem congruent_of_same {s t s' t' : Subset α} (h : s.same t = true) (h' : s'.same t' = true) :
    Congruent s t s' t' where
  union := union_same h ((Operand.Equal.subset h').interchangeable (sameDomain_of_same h))
  inter := inter_same h ((Operand.Equal.subset h').interchangeable (sameDomain_of_same h))
  diff := diff_same h ((Operand.Equal.subset h').interchangeable (sameDomain_of_same h))
  complement := complement_same h
  insert _ _ he := insert_same h he
  erase _ _ he := erase_same h he
  extend _ _ hes := extend_same h hes
  clear := clear_same h
  reattach _ _ hd := reattach_same h hd
  isSubsetOf := isSubsetOf_congr h h'
  sameElements := sameElements_congr h h'
  sameDomain := sameDomain_congr h h'
  same := same_congr h h'
  size := size_of_same h
  isEmpty := isEmpty_of_same h
  isFull := isFull_of_same h
  positions := positions_of_same h
  contains _ _ he := contains_of_same h he
  containsPosition := containsPosition_of_same h
  toWord := toWord_of_same h
  toMask := toMask_of_same h
  toBits := toBits_of_same h

/-- **Equality is an equivalence, a congruence and consistent with hashing.** Subsets of any two forms are equal iff
equal elements stand at the same positions of their domains and they have the same positions. Equal subsets are fed to a
hash alike, whichever fingerprints are remembered, and no operation on subsets tells equal ones apart. -/
theorem same_equivalence_and_congruence :
    (∀ s t : Subset α, s.same t = true ↔
      List.Forall₂ (fun a b => (a == b) = true) s.domain.elements t.domain.elements ∧ s.positions = t.positions) ∧
    Equivalence (fun s t : Subset α => s.same t = true) ∧
    (∀ s t : Subset α, s.same t = true → s.digest = t.digest ∧ s.remember.digest = t.digest) ∧
    ∀ s t s' t' : Subset α, s.same t = true → s'.same t' = true → Congruent s t s' t' := by
  refine ⟨same_iff_forall₂, ⟨same_refl, same_symm, same_trans⟩, fun s t h => ⟨digest_eq_of_same h, ?_⟩, ?_⟩
  · exact digest_eq_of_same (same_trans s.remember_same h)
  · exact fun s t s' t' h h' => congruent_of_same h h'

end Subset

end SubsetAlgebra
