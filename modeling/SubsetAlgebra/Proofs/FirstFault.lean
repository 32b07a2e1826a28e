/-
Building a domain: which lists are accepted, and which fault is reported of the others.

A list is accepted iff no two positions hold equal elements. Of the pairs of positions that do, the one that is reported
has the earliest later position, and the earlier one is then the only one that it can have (`Culprit`). Holes come
before repetitions: the first hole is reported whatever is repeated before or behind it.

An index that is filled on the way decides this in one pass (`Table.fill`): it maps each element to its position, and
the first element that it already has is the fault. What carries the pass is that the table is the inverse of what has
been read so far (`Inverse`). In particular no two elements read so far are equal (`Inverse.pairwise`), the table
answers like a search through them (`Inverse.find_eq`), and what it holds in the end are the look-ups of the domain
(`fill_ofList`).
-/
import Mathlib.Tactic.Common
import SubsetAlgebra.Proofs.Lookup

namespace SubsetAlgebra

variable {α : Type} [Element α]

/-! ## Repetitions and the one that is reported -/

/-- equal elements stand at positions `i` and `j`, in this order -/
structure Repeats (es : List α) (i j : Nat) : Prop where
  before : i < j
  equal : ∃ a b, es[i]? = some a ∧ es[j]? = some b ∧ (a == b) = true

/-- of all repetitions of a list, the one that ends first -/
structure Culprit (es : List α) (i j : Nat) : Prop where
  repeats : Repeats es i j
  least : ∀ i' j', Repeats es i' j' → j ≤ j'
  only : ∀ i', Repeats es i' j → i' = i

theorem Culprit.eq {es : List α} {i j i' j' : Nat} (h : Culprit es i j) (h' : Culprit es i' j') : i = i' ∧ j = j' := by
  obtain rfl : j = j' := Nat.le_antisymm (h.least _ _ h'.repeats) (h'.least _ _ h.repeats)
  exact ⟨h'.only i h.repeats, rfl⟩

/-- a list without repetitions is one whose positions are told apart by their elements -/
theorem pairwise_unequal_iff {es : List α} : es.Pairwise Unequal ↔ ∀ i j, ¬ Repeats es i j := by
  constructor
  · rintro hes i j ⟨hlt, a, b, ha, hb, hab⟩
    have := Domain.eq_of_pairwise_unequal hes ha hb hab
    omega
  · intro h
    refine List.pairwise_iff_getElem.2 fun i j hi hj hlt => ?_
    by_contra hne
    refine h i j ⟨hlt, es[i], es[j], List.getElem?_eq_getElem hi, List.getElem?_eq_getElem hj, ?_⟩
    simpa using hne

theorem Domain.FirstRepeat.culprit {es : List α} {i j : Nat} (h : FirstRepeat es i j) : Culprit es i j where
  repeats := ⟨h.before, h.equal⟩
  least i' j' h' := by
    by_contra hlt
    obtain ⟨a, b, ha, hb, hab⟩ := h'.equal
    have hbefore := h'.before
    refine pairwise_unequal_iff.1 h.least i' j' ⟨hbefore, a, b, ?_, ?_, hab⟩
    · rwa [List.getElem?_take_of_lt (by omega)]
    · rwa [List.getElem?_take_of_lt (by omega)]
  only i' h' := by
    obtain ⟨a, c, ha, hc, hac⟩ := h.equal
    obtain ⟨b, c', hb, hc', hbc⟩ := h'.equal
    rw [hc] at hc'
    cases hc'
    rw [← List.getElem?_take_of_lt h.before] at ha
    rw [← List.getElem?_take_of_lt h'.before] at hb
    exact eq_of_pairwise_unequal h.least hb ha (BEq.trans hbc (BEq.symm hac))

/-! ## An index that is filled in one pass -/

omit [Element α] in
theorem getElem?_snoc_eq_some_iff {es : List α} {e a : α} {i : Nat} :
    (es ++ [e])[i]? = some a ↔ es[i]? = some a ∨ i = es.length ∧ e = a := by
  rcases Nat.lt_trichotomy i es.length with hlt | rfl | hgt
  · rw [List.getElem?_append_left hlt]
    simp [Nat.ne_of_lt hlt]
  · simp
  · have hlength : (es ++ [e]).length ≤ i := by
      rw [List.length_append, List.length_singleton]
      omega
    rw [List.getElem?_eq_none hlength, List.getElem?_eq_none (Nat.le_of_lt hgt)]
    simp [Nat.ne_of_gt hgt]

/-- elements with their positions -/
abbrev Table (α : Type) : Type := List (α × Nat)

namespace Table

/-- the position that is noted for an element equal to `e` -/
def find (t : Table α) (e : α) : Option Nat := (List.find? (fun x => x.1 == e) t).map Prod.snd

/-- one pass over a list, the first of whose elements is at `position`: the filled table, or the position that was noted
for an element and the one where it comes again -/
def fill (t : Table α) (position : Nat) : List α → Except (Nat × Nat) (Table α)
  | [] => .ok t
  | e :: rest =>
    match t.find e with
    | some first => .error (first, position)
    | none => fill ((e, position) :: t) (position + 1) rest

@[simp] theorem find_nil (e : α) : find [] e = none := rfl

theorem find_cons (x : α × Nat) (t : Table α) (e : α) : find (x :: t) e = if x.1 == e then some x.2 else t.find e := by
  simp only [find, List.find?_cons]
  cases x.1 == e <;> rfl

/-- a table is the inverse of a list: it has an element at `i` iff the list does -/
def Inverse (t : Table α) (seen : List α) : Prop :=
  ∀ e i, t.find e = some i ↔ ∃ a, seen[i]? = some a ∧ (a == e) = true

namespace Inverse

variable {t : Table α} {seen : List α}

theorem nil : Inverse (α := α) [] [] := by simp [Inverse]

/-- only a list without repetitions has an inverse -/
theorem pairwise (h : Inverse t seen) : seen.Pairwise Unequal := by
  refine pairwise_unequal_iff.2 fun i j hr => ?_
  obtain ⟨a, b, ha, hb, hab⟩ := hr.equal
  have hi : t.find b = some i := (h b i).2 ⟨a, ha, hab⟩
  have hj : t.find b = some j := (h b j).2 ⟨b, hb, BEq.rfl⟩
  rw [hi] at hj
  cases hj
  exact absurd hr.before (Nat.lt_irrefl i)

/-- the table answers like a search through what has been read -/
theorem find_eq (h : Inverse t seen) (e : α) : t.find e = seen.findIdx? (· == e) := by
  refine Option.ext fun i => (h e i).trans ?_
  exact (Domain.indexOf_eq_some_iff (d := { elements := seen, distinct := h.pairwise })).symm

/-- the step of the pass: a new element is noted with the position it is read at -/
theorem push (h : Inverse t seen) {e : α} (hnew : t.find e = none) : Inverse ((e, seen.length) :: t) (seen ++ [e]) := by
  intro x i
  have hread : (∃ a, (seen ++ [e])[i]? = some a ∧ (a == x) = true) ↔
      t.find x = some i ∨ i = seen.length ∧ (e == x) = true := by
    simp only [getElem?_snoc_eq_some_iff, or_and_right, exists_or, h x i]
    refine or_congr_right ⟨?_, ?_⟩
    · rintro ⟨a, ⟨hi, rfl⟩, hax⟩
      exact ⟨hi, hax⟩
    · rintro ⟨hi, hex⟩
      exact ⟨e, ⟨hi, rfl⟩, hex⟩
  rw [hread, find_cons]
  cases hx : e == x with
  | true =>
    -- what has been read holds nothing equal to the new element, so its own position is the only one
    have hold : t.find x = none := by
      rw [h.find_eq] at hnew ⊢
      rw [List.findIdx?_eq_none_iff] at hnew ⊢
      exact fun a ha => (beq_congr_right hx a).symm.trans (hnew a ha)
    simp [hold, eq_comm]
  | false => simp

/-- the whole pass: it stops where the search for a repetition does, or leaves the inverse of all that was read -/
theorem run (h : Inverse t seen) (es : List α) :
    (∀ p, Domain.firstRepeatAfter seen es = some p → t.fill seen.length es = .error p) ∧
    (Domain.firstRepeatAfter seen es = none → ∃ t', t.fill seen.length es = .ok t' ∧ Inverse t' (seen ++ es)) := by
  induction es generalizing t seen with
  | nil =>
    refine ⟨fun p hp => ?_, fun _ => ⟨t, rfl, by simpa using h⟩⟩
    cases hp
  | cons e rest ih =>
    unfold Domain.firstRepeatAfter fill
    rw [← h.find_eq e]
    cases hfind : t.find e with
    | some first =>
      refine ⟨fun p hp => ?_, fun hp => ?_⟩
      · cases hp
        rfl
      · cases hp
    | none => simpa using ih (h.push hfind)

end Inverse

/-- the index of a list: one pass from the empty table -/
def ofList (es : List α) : Except (Nat × Nat) (Table α) := fill [] 0 es

/-- the pass fails exactly as the domain of the list does, with the same two positions -/
theorem ofList_error_iff (es : List α) (i j : Nat) :
    ofList es = .error (i, j) ↔ Domain.ofList es = .error (.duplicateElement i j) := by
  obtain ⟨hstop, hend⟩ := Inverse.nil.run es
  rcases Domain.ofList_cases es with ⟨d, hd, rfl⟩ | ⟨i', j', hfirst, herror⟩
  · obtain ⟨t, ht, -⟩ := hend (Domain.firstRepeatAfter_eq_none d.distinct)
    have hpass : ofList d.elements = .ok t := ht
    simp [hpass, hd]
  · cases hr : Domain.firstRepeatAfter [] es with
    | none => exact absurd (Domain.pairwise_of_firstRepeatAfter List.Pairwise.nil hr) hfirst.not_pairwise
    | some p =>
      obtain ⟨first, second⟩ := p
      obtain ⟨rfl, rfl⟩ := hfirst.eq (Domain.firstRepeat_of_eq_some List.Pairwise.nil hr)
      have hpass : ofList es = .error (i', j') := hstop _ hr
      simp [hpass, herror]

/-- the pass over the elements of a domain leaves its look-ups -/
theorem ofList_elements (d : Domain α) : ∃ t, ofList d.elements = .ok t ∧ ∀ e, t.find e = d.indexOf e := by
  obtain ⟨t, ht, hinv⟩ := (Inverse.nil.run d.elements).2 (Domain.firstRepeatAfter_eq_none d.distinct)
  exact ⟨t, ht, hinv.find_eq⟩

end Table

/-! ## What becomes of a list -/

namespace Domain

/-- `d` is the domain whose elements are `es` in order -/
structure Indexes (d : Domain α) (es : List α) : Prop where
  elements : d.elements = es
  indexOf : ∀ e i, d.indexOf e = some i ↔ ∃ a, es[i]? = some a ∧ (a == e) = true
  contains : ∀ e, d.contains e = true ↔ ∃ i, d.indexOf e = some i
  get_of_lt : ∀ i (h : i < es.length), d.get i = .ok (es.get ⟨i, h⟩)
  get_of_ge : ∀ i, es.length ≤ i → d.get i = .error (.indexOutOfRange i es.length)
  /-- the look-ups are those of the index that one pass over the list fills -/
  table : ∃ t, Table.ofList es = .ok t ∧ ∀ e, t.find e = d.indexOf e

theorem indexes (d : Domain α) : d.Indexes d.elements where
  elements := rfl
  indexOf _ _ := indexOf_eq_some_iff
  contains _ := contains_iff_indexOf
  get_of_lt i h := get_eq_ok_iff.2 (List.getElem?_eq_getElem h)
  get_of_ge i h := by
    unfold get
    rw [List.getElem?_eq_none h]
    rfl
  table := Table.ofList_elements d

/-- `r` is what becomes of `es` as the elements of a domain -/
structure Judges (es : List α) (r : Except Error (Domain α)) : Prop where
  refused_iff : (∃ err, r = .error err) ↔ ∃ i j, Repeats es i j
  error_iff : ∀ err, r = .error err ↔ ∃ i j, Culprit es i j ∧ err = .duplicateElement i j
  /-- the pass that fills an index stops at the same two positions -/
  table : ∀ i j, r = .error (.duplicateElement i j) ↔ Table.ofList es = .error (i, j)
  accepted : ∀ d, r = .ok d → d.Indexes es

theorem ofList_judges (es : List α) : Judges es (ofList es) := by
  rcases ofList_cases es with ⟨d, hd, rfl⟩ | ⟨i, j, hfirst, herror⟩
  · have hnone := pairwise_unequal_iff.1 d.distinct
    have hrefused : (∃ err, ofList d.elements = .error err) ↔ ∃ i j, Repeats d.elements i j := by
      rw [hd]
      exact ⟨nofun, fun ⟨i, j, hr⟩ => absurd hr (hnone i j)⟩
    refine ⟨hrefused, fun err => ?_, fun i j => (Table.ofList_error_iff _ i j).symm, fun d' hd' => ?_⟩
    · rw [hd]
      exact ⟨nofun, fun ⟨i, j, hc, _⟩ => absurd hc.repeats (hnone i j)⟩
    · rw [hd] at hd'
      cases hd'
      exact d.indexes
  · have hculprit := hfirst.culprit
    refine ⟨⟨fun _ => ⟨i, j, hculprit.repeats⟩, fun _ => ⟨_, herror⟩⟩, fun err => ?_,
      fun i j => (Table.ofList_error_iff _ i j).symm, fun d hd => by rw [herror] at hd; cases hd⟩
    rw [herror]
    constructor
    · intro h
      exact ⟨i, j, hculprit, (Except.error.inj h).symm⟩
    · rintro ⟨i', j', hc, rfl⟩
      obtain ⟨rfl, rfl⟩ := hculprit.eq hc
      rfl

/-! ## Lists with holes -/

/-- the first hole of a list -/
structure FirstHole (xs : List (Option α)) (p : Nat) : Prop where
  hole : xs[p]? = some none
  least : ∀ q, xs[q]? = some none → p ≤ q

omit [Element α] in
/-- a list has a first hole, or it consists of elements -/
theorem firstHole_or_map_some (xs : List (Option α)) : (∃ p, FirstHole xs p) ∨ ∃ es : List α, xs = es.map some := by
  induction xs with
  | nil => exact Or.inr ⟨[], rfl⟩
  | cons x xs ih =>
    cases x with
    | none => exact Or.inl ⟨0, rfl, fun q _ => Nat.zero_le q⟩
    | some e =>
      rcases ih with ⟨p, hp⟩ | ⟨es, rfl⟩
      · refine Or.inl ⟨p + 1, by simpa using hp.hole, fun q hq => ?_⟩
        cases q with
        | zero => cases hq
        | succ q => exact Nat.succ_le_succ (hp.least q (by simpa using hq))
      · exact Or.inr ⟨e :: es, rfl⟩

theorem ofOptions_of_firstHole {xs : List (Option α)} {p : Nat} (h : FirstHole xs p) :
    ofOptions xs = .error (.missingElement p) := by
  have hp : xs.findIdx? Option.isNone = some p := by
    refine List.findIdx?_eq_some_iff_getElem.2 ?_
    obtain ⟨hlt, hget⟩ := List.getElem?_eq_some_iff.1 h.hole
    refine ⟨hlt, by rw [hget]; rfl, fun q hq hnone => ?_⟩
    have hhole : xs[q]? = some none := by
      rw [List.getElem?_eq_getElem (Nat.lt_trans hq hlt), Option.isNone_iff_eq_none.1 hnone]
    have := h.least q hhole
    omega
  simp only [ofOptions, hp]

theorem ofOptions_map_some (es : List α) : ofOptions (es.map some) = ofList es := by
  have hnone : (es.map some).findIdx? Option.isNone = none := by simp [List.findIdx?_eq_none_iff]
  simp only [ofOptions, hnone]
  congr 1
  simp [List.filterMap_map]

theorem ofOptions_missing_iff (xs : List (Option α)) (p : Nat) :
    ofOptions xs = .error (.missingElement p) ↔ FirstHole xs p := by
  refine ⟨fun h => ?_, ofOptions_of_firstHole⟩
  rcases firstHole_or_map_some xs with ⟨q, hq⟩ | ⟨es, rfl⟩
  · rw [ofOptions_of_firstHole hq] at h
    cases h
    exact hq
  · -- without a hole the only fault is a repetition
    rw [ofOptions_map_some] at h
    obtain ⟨i, j, -, herr⟩ := ((ofList_judges es).error_iff _).1 h
    cases herr

/-! ## Main result -/

/-- **A domain is built from exactly the lists without repetition, and the first fault is reported.** A list fails iff
two positions hold equal elements; the error then names the least position whose element came before, and the only
earlier one that has it. Otherwise elements and positions are those of the list. A list with holes fails at the first of
them, whatever is repeated; without one it is judged as the list of its elements. -/
theorem ofList_pinpoints :
    (∀ es : List α, Judges es (ofList es)) ∧
    (∀ (xs : List (Option α)) (p : Nat), ofOptions xs = .error (.missingElement p) ↔ FirstHole xs p) ∧
    ∀ xs : List (Option α), (∃ p, FirstHole xs p) ∨ ∃ es, xs = es.map some ∧ ofOptions xs = ofList es := by
  refine ⟨ofList_judges, ofOptions_missing_iff, fun xs => (firstHole_or_map_some xs).imp id ?_⟩
  rintro ⟨es, rfl⟩
  exact ⟨es, rfl, ofOptions_map_some es⟩

end Domain

end SubsetAlgebra
