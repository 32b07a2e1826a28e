/-
Fingerprints that are taken once and kept, over any history.

Nothing in the type of a cell ties its slot to the elements, and the function that condenses fingerprints into machine
words may give one value to many of them. Whatever was made, copied, asked and compared before, in whatever order, each
cell is that of a domain which remembers its fingerprint or does not (`step_holds`, and `run_holds` by induction): a
filled slot has the value that would be computed anew. So comparing by way of handles and slots comes to comparing the
elements (`compare_eq`), at the time and at any later one, and cells are told apart as `Domain.same` tells domains apart
(`cell_same`).
-/
import SubsetAlgebra.Memory
import SubsetAlgebra.Proofs.Equality

namespace SubsetAlgebra

variable {α : Type} [Element α]

/-! ## Cells -/

/-- a cell is in order if it is that of a domain -/
def Cell.Holds (hash : Fingerprint → UInt64) (c : Cell α) : Prop := ∃ d : Domain α, d.cell hash = c

section Cells

variable {hash : Fingerprint → UInt64}

theorem Domain.cell_afresh (d : Domain α) : (d.cell hash).afresh hash = hash d.fingerprint := by
  rw [fingerprint_eq]
  rfl

theorem Domain.cell_value (d : Domain α) : (d.cell hash).value hash = hash d.fingerprint := by
  unfold Cell.value cell
  cases hk : d.known with
  | none => exact d.cell_afresh
  | some k => simp only [Option.map_some, Option.getD_some, fingerprint, hk]

/-- asking a cell fills its slot with what the domain then remembers -/
theorem Domain.cell_remember (d : Domain α) : d.remember.cell hash = (d.cell hash).filled hash := by
  unfold Cell.filled
  rw [d.cell_value, fingerprint_eq]
  rfl

theorem Cell.Holds.filled {c : Cell α} (h : c.Holds hash) : (c.filled hash).Holds hash := by
  obtain ⟨d, rfl⟩ := h
  exact ⟨d.remember, d.cell_remember⟩

theorem Cell.Holds.value_eq {c : Cell α} (h : c.Holds hash) : c.value hash = c.afresh hash := by
  obtain ⟨d, rfl⟩ := h
  rw [d.cell_value, d.cell_afresh]

/-- equal elements are never told apart by what is in the slots -/
theorem Cell.Holds.not_apart {a b : Cell α} (ha : a.Holds hash) (hb : b.Holds hash)
    (h : (a.elements == b.elements) = true) : a.apart b = false := by
  have hvalue : a.value hash = b.value hash := by
    rw [ha.value_eq, hb.value_eq, Cell.afresh, Cell.afresh, Domain.fingerprintOf_eq_of_beq h]
  unfold Cell.value at hvalue
  unfold Cell.apart
  cases hv : a.slot with
  | none => rfl
  | some v =>
    cases hw : b.slot with
    | none => rfl
    | some w =>
      rw [hv, hw, Option.getD_some, Option.getD_some] at hvalue
      simp [hvalue]

/-- the shortcuts do not change the answer -/
theorem Cell.Holds.same_eq {a b : Cell α} (ha : a.Holds hash) (hb : b.Holds hash) :
    a.same b = (a.elements == b.elements) := by
  unfold Cell.same
  cases h : a.elements == b.elements with
  | false => rw [Bool.and_false]
  | true => simp [List.length_eq_of_beq h, ha.not_apart hb h]

/-- cells are told apart as their domains are, although a value says less than a fingerprint -/
theorem Domain.cell_same (a b : Domain α) : (a.cell hash).same (b.cell hash) = a.same b := by
  rw [Cell.Holds.same_eq ⟨a, rfl⟩ ⟨b, rfl⟩, Bool.eq_iff_iff, same_iff]
  rfl

end Cells

/-! ## Histories -/

namespace Memory

section Steps

variable (hash : Fingerprint → UInt64)

/-- every cell is in order -/
def Holds (m : Memory α) : Prop := ∀ c ∈ m, c.Holds hash

variable {hash}

theorem step_holds {m : Memory α} (hm : m.Holds hash) (call : Call α) : (m.step hash call).Holds hash := by
  intro c hc
  cases call with
  | make es =>
    rcases List.mem_append.1 hc with hc | hc
    · exact hm c hc
    · obtain ⟨d, -, rfl⟩ := Option.map_eq_some_iff.1 (Option.mem_toList.1 hc)
      exact ⟨d, rfl⟩
  | copy h =>
    rcases List.mem_append.1 hc with hc | hc
    · exact hm c hc
    · exact hm c (List.mem_of_getElem? (Option.mem_toList.1 hc))
  | ask h =>
    obtain ⟨i, hi⟩ := List.getElem?_of_mem hc
    rw [step, List.getElem?_modify] at hi
    obtain ⟨c', hc', rfl⟩ := Option.map_eq_some_iff.1 hi
    have hold := hm c' (List.mem_of_getElem? hc')
    split
    · exact hold.filled
    · exact hold
  | compare h k => exact hm c hc

/-- at any point of any history every filled slot has the value that would be computed anew -/
theorem run_holds {m : Memory α} (hm : m.Holds hash) (calls : List (Call α)) : (m.run hash calls).Holds hash := by
  induction calls generalizing m with
  | nil => exact hm
  | cons call calls ih => exact ih (step_holds hm call)

/-- a handle goes on naming a cell with the same elements -/
theorem step_elements {m : Memory α} {h : Nat} {c : Cell α} (hc : m[h]? = some c) (call : Call α) :
    ∃ c', (m.step hash call)[h]? = some c' ∧ c'.elements = c.elements := by
  have hlt : h < m.length := (List.getElem?_eq_some_iff.1 hc).1
  cases call with
  | make es => exact ⟨c, by rw [step, List.getElem?_append_left hlt, hc], rfl⟩
  | copy k => exact ⟨c, by rw [step, List.getElem?_append_left hlt, hc], rfl⟩
  | ask k =>
    rw [step, List.getElem?_modify, hc]
    refine ⟨_, rfl, ?_⟩
    split
    · rfl
    · rfl
  | compare k l => exact ⟨c, hc, rfl⟩

theorem run_elements {m : Memory α} {h : Nat} {c : Cell α} (hc : m[h]? = some c) (calls : List (Call α)) :
    ∃ c', (m.run hash calls)[h]? = some c' ∧ c'.elements = c.elements := by
  induction calls generalizing m c with
  | nil => exact ⟨c, hc, rfl⟩
  | cons call calls ih =>
    obtain ⟨c', hc', he'⟩ := step_elements hc call
    obtain ⟨c'', hc'', he''⟩ := ih hc'
    exact ⟨c'', hc'', he''.trans he'⟩

/-! ## Comparing -/

section Comparing

variable {m : Memory α} (hm : m.Holds hash) {h k l : Nat} {a b : Cell α}

include hm

/-- the answer is that of the elements: neither the handles nor the lengths nor the slots change it -/
theorem compare_eq (ha : m[h]? = some a) (hb : m[k]? = some b) : m.compare h k = some (a.elements == b.elements) := by
  have hsame := (hm a (List.mem_of_getElem? ha)).same_eq (hm b (List.mem_of_getElem? hb))
  simp only [compare, ha, hb, Option.bind_some, Option.map_some, hsame, Option.some.injEq, Bool.or_eq_right_iff_imp,
    beq_iff_eq]
  rintro rfl
  rw [ha] at hb
  cases hb
  exact BEq.rfl

omit hm in
theorem exists_of_compare {answer : Bool} (h' : m.compare h k = some answer) :
    ∃ a b, m[h]? = some a ∧ m[k]? = some b := by
  obtain ⟨a, ha, hab⟩ := Option.bind_eq_some_iff.1 h'
  obtain ⟨b, hb, -⟩ := Option.map_eq_some_iff.1 hab
  exact ⟨a, b, ha, hb⟩

theorem beq_of_compare (ha : m[h]? = some a) (hb : m[k]? = some b) (h' : m.compare h k = some true) :
    (a.elements == b.elements) = true :=
  Option.some.inj ((compare_eq hm ha hb).symm.trans h')

theorem compare_symm (h' : m.compare h k = some true) : m.compare k h = some true := by
  obtain ⟨a, b, ha, hb⟩ := exists_of_compare h'
  rw [compare_eq hm hb ha, Domain.beq_symm_of_beq (beq_of_compare hm ha hb h')]

theorem compare_trans (h' : m.compare h k = some true) (h'' : m.compare k l = some true) :
    m.compare h l = some true := by
  obtain ⟨a, b, ha, hb⟩ := exists_of_compare h'
  obtain ⟨b', c, hb', hc⟩ := exists_of_compare h''
  rw [compare_eq hm ha hc, beq_trans_of_beq (beq_of_compare hm ha hb h') (beq_of_compare hm hb hc h'')]

/-- an answer stands whatever is done afterwards -/
theorem compare_run {answer : Bool} (h' : m.compare h k = some answer) (calls : List (Call α)) :
    (m.run hash calls).compare h k = some answer := by
  obtain ⟨a, b, ha, hb⟩ := exists_of_compare h'
  obtain ⟨a', ha', hea⟩ := run_elements ha calls
  obtain ⟨b', hb', heb⟩ := run_elements hb calls
  rw [← h', compare_eq (run_holds hm calls) ha' hb', compare_eq hm ha hb, hea, heb]

end Comparing

/-! ## Main result -/

/-- what slots and comparisons come to in a memory -/
structure Trusty (hash : Fingerprint → UInt64) (m : Memory α) : Prop where
  slot : ∀ (h : Nat) (c : Cell α) v, m[h]? = some c → c.slot = some v → v = c.afresh hash
  value : ∀ (h : Nat) (c : Cell α), m[h]? = some c → c.value hash = c.afresh hash
  compare : ∀ (h k : Nat) (a b : Cell α), m[h]? = some a → m[k]? = some b → ∃ answer, m.compare h k = some answer ∧
    (answer = true ↔ List.Forall₂ (fun x y => (x == y) = true) a.elements b.elements)
  value_eq : ∀ (h k : Nat) (a b : Cell α), m[h]? = some a → m[k]? = some b → m.compare h k = some true →
    a.value hash = b.value hash
  refl : ∀ (h : Nat) (c : Cell α), m[h]? = some c → m.compare h h = some true
  symm : ∀ h k, m.compare h k = some true → m.compare k h = some true
  trans : ∀ h k l, m.compare h k = some true → m.compare k l = some true → m.compare h l = some true
  sameDomain : ∀ h k, m.sameDomain h k = m.compare h k
  /-- an answer is the same at any later time -/
  later : ∀ h k answer calls, m.compare h k = some answer → (m.run hash calls).compare h k = some answer

theorem trusty {m : Memory α} (hm : m.Holds hash) : m.Trusty hash where
  slot h c v hc hv := by
    rw [← (hm c (List.mem_of_getElem? hc)).value_eq, Cell.value, hv, Option.getD_some]
  value _ c hc := (hm c (List.mem_of_getElem? hc)).value_eq
  compare h k a b ha hb := ⟨_, compare_eq hm ha hb, beq_iff_forall₂⟩
  value_eq h k a b ha hb h' := by
    rw [(hm a (List.mem_of_getElem? ha)).value_eq, (hm b (List.mem_of_getElem? hb)).value_eq, Cell.afresh, Cell.afresh,
      Domain.fingerprintOf_eq_of_beq (beq_of_compare hm ha hb h')]
  refl h c hc := by rw [compare_eq hm hc hc, BEq.rfl]
  symm _ _ := compare_symm hm
  trans _ _ _ := compare_trans hm
  sameDomain h k := by
    cases hc : m.compare h k with
    | none => rw [Memory.sameDomain, hc]; rfl
    | some answer =>
      obtain ⟨a, b, ha, hb⟩ := exists_of_compare hc
      rw [Memory.sameDomain, hc, Option.map_some, Option.some.injEq, Bool.or_eq_right_iff_imp, beq_iff_eq]
      rintro rfl
      rw [compare_eq hm ha ha, BEq.rfl] at hc
      exact (Option.some.inj hc).symm
  later _ _ _ calls h' := compare_run hm h' calls

/-- after any history, whatever values the fingerprints have -/
theorem run_trusty (hash : Fingerprint → UInt64) (calls : List (Call α)) :
    (run hash ([] : Memory α) calls).Trusty hash :=
  trusty (run_holds (fun _ hc => (List.not_mem_nil hc).elim) calls)

end Steps

end Memory

end SubsetAlgebra
