/-
Round trips between subsets and what stands for them outside.

A subset can be written as a word, as an integer, as one bit for each element, as a set or as a list of its members, and
read back under any choice. Reading undoes writing (`Decoded`); writing undoes reading for exactly the masks without a
position past the end (`Encoded`), where bits are cut or filled up to one for each element. The two forms have encoders
and decoders of their own: `toMask_eq`, `toBits_eq`, `toWord_eq` and `ofOperand_answers` are all that is used of them.
-/
import SubsetAlgebra.Proofs.Comparison
import SubsetAlgebra.Proofs.ExactBuilding

namespace SubsetAlgebra

open Word (width)

variable {α : Type} [Element α]

/-! ## Masks without a fault -/

theorem nat_lt_two_pow_iff {m n : Nat} : m < 2 ^ n ↔ ∀ i, m.testBit i = true → i < n := by
  constructor
  · intro h i hi
    by_contra hn
    have hle : 2 ^ n ≤ 2 ^ i := Nat.pow_le_pow_right (by decide) (by omega)
    have := Nat.ge_two_pow_of_testBit hi
    omega
  · intro h
    refine Nat.lt_pow_two_of_testBit m fun i hi => ?_
    by_contra hb
    have := h i (by simpa using hb)
    omega

theorem toNat_lt_two_pow_iff {m : Int} (hm : 0 ≤ m) {n : Nat} : m.toNat < 2 ^ n ↔ m < 2 ^ n := by
  have hcast : ((2 ^ n : Nat) : Int) = 2 ^ n := by norm_cast
  omega

namespace Operand

variable {d : Domain α} {rule : ForeignRule}

/-- what a mask asks of itself or of the domain, beside keeping to the domain -/
def Proper (d : Domain α) : Operand α → Prop
  | word _ => d.size ≤ width
  | mask m => 0 ≤ m
  | _ => True

/-- an operand that names no elements is without a fault iff what it names by number lies in the domain -/
theorem not_fault_iff {o : Operand α} (hnames : ∀ e, o.names e = false) :
    (∀ e, ¬ o.Fault d rule e) ↔ o.Proper d ∧ ∀ i, o.marks i = true → i < d.size := by
  constructor
  · intro hnone
    refine ⟨?_, fun i hi => lt_size_of_marks hnone hi⟩
    cases o with
    | word w =>
      change d.size ≤ width
      by_contra hover
      exact hnone _ (.overflow (by omega))
    | mask m =>
      change 0 ≤ m
      by_contra hneg
      exact hnone _ (.negative (by omega))
    | _ => trivial
  · intro h e he
    obtain ⟨hproper, hin⟩ := h
    cases he with
    | overflow hover =>
      change d.size ≤ width at hproper
      omega
    | negative hneg => exact absurd hproper (by simpa [Proper] using hneg)
    | beyond hb hn =>
      have := hin _ hb.1
      omega
    | foreign hname _ =>
      rw [hnames] at hname
      cases hname

theorem marks_bits {b : List Bool} {i : Nat} : (bits b : Operand α).marks i = true ↔ b[i]? = some true := by
  simp only [marks, Mask.bitAt]
  cases b[i]? <;> simp

theorem mask_not_fault_iff {m : Int} : (∀ e, ¬ (mask m).Fault d rule e) ↔ 0 ≤ m ∧ m < 2 ^ d.size := by
  rw [not_fault_iff fun _ => rfl]
  refine and_congr_right fun hm => ?_
  rw [← toNat_lt_two_pow_iff hm, nat_lt_two_pow_iff]
  rfl

theorem word_not_fault_iff {w : UInt64} :
    (∀ e, ¬ (word w).Fault d rule e) ↔ d.size ≤ width ∧ w.toNat < 2 ^ d.size := by
  rw [not_fault_iff fun _ => rfl]
  refine and_congr_right fun _ => ?_
  simp only [nat_lt_two_pow_iff, marks, Word.has_eq_testBit]

theorem bits_not_fault_iff {b : List Bool} :
    (∀ e, ¬ (bits b).Fault d rule e) ↔ ∀ i, b[i]? = some true → i < d.size := by
  rw [not_fault_iff fun _ => rfl]
  simp only [Proper, marks_bits, true_and]

end Operand

/-! ## Members in a word -/

/-- a compact subset is made of the word of a general one -/
theorem CompactSubset.ofGeneral_of_toWord {g : GeneralSubset α} {w : UInt64} (h : g.toWord = .ok w) :
    ∃ c, ofGeneral g = .ok c ∧ c.domain = g.domain ∧ c.word = w := by
  unfold ofGeneral
  split
  · next e he => rw [h] at he; cases he
  · next v hv => rw [h] at hv; cases hv; exact ⟨_, rfl, rfl, rfl⟩

/-- and of nothing where there is none -/
theorem CompactSubset.ofGeneral_of_toWord_error {g : GeneralSubset α} {err : Error} (h : g.toWord = .error err) :
    ofGeneral g = .error err := by
  unfold ofGeneral
  split
  · next e he => rw [h] at he; cases he; rfl
  · next v hv => rw [h] at hv; cases hv

namespace Subset

/-! ## Reading what was written -/

/-- the subset was built anew under its own choice over its own domain, and equals what it was -/
def Restored (s : Subset α) (r : Except Error (Subset α)) : Prop :=
  ∃ t, r = .ok t ∧ t.domain = s.domain ∧ t.choice = s.choice ∧ t.same s = true

theorem Restored.of_built {s t : Subset α} {r : Except Error (Subset α)} (hr : r = .ok t)
    (h : Built s.choice s.domain t s.places) : s.Restored r := by
  refine ⟨t, hr, h.domain, h.choice, ?_⟩
  rw [same_iff, h.domain, h.places]
  exact ⟨Domain.same_refl s.domain, rfl⟩

/-- an operand that selects the positions of a subset stands for it -/
theorem restored_of_selection {s : Subset α} {o : Operand α} (hnone : ∀ e, ¬ o.Fault s.domain .reject e)
    (hsel : o.selection s.domain = s.places) : s.Restored (ofOperand s.choice s.domain o) := by
  obtain ⟨t, ht, hb⟩ := (ofOperand_answers s.admits_choice o).sound hnone
  exact .of_built ht (hb.of_places hsel)

theorem testBit_toMask (s : Subset α) (i : Nat) : s.toMask.toNat.testBit i = decide (i ∈ s.positions) := by
  rw [toMask_eq, Int.toNat_natCast, WordBuffer.testBit_toNat, WordBuffer.has_ofPositions]

theorem toMask_nonneg (s : Subset α) : 0 ≤ s.toMask := by
  rw [toMask_eq]
  exact Int.natCast_nonneg _

/-- a mask of the positions of a subset stands for it -/
theorem restored_of_marks {s : Subset α} {o : Operand α} (hnames : ∀ e, o.names e = false)
    (hproper : o.Proper s.domain) (hmarks : ∀ i, o.marks i = true ↔ i ∈ s.positions) :
    s.Restored (ofOperand s.choice s.domain o) := by
  refine restored_of_selection ?_ (Set.ext fun i => ?_)
  · rw [Operand.not_fault_iff hnames]
    exact ⟨hproper, fun i hi => lt_of_mem_positions ((hmarks i).1 hi)⟩
  · rw [Operand.mem_selection_mask hnames, hmarks, mem_places]

theorem restored_toMask (s : Subset α) : s.Restored (ofOperand s.choice s.domain (.mask s.toMask)) := by
  refine restored_of_marks (fun _ => rfl) s.toMask_nonneg fun i => ?_
  simp only [Operand.marks, testBit_toMask, decide_eq_true_eq]

theorem getElem?_toBits (s : Subset α) (i : Nat) : s.toBits[i]? = some true ↔ i ∈ s.positions := by
  rw [toBits_eq, List.getElem?_map, Option.map_eq_some_iff]
  constructor
  · intro h
    obtain ⟨j, hj, hc⟩ := h
    obtain ⟨_, hij⟩ := List.getElem?_eq_some_iff.1 hj
    rw [List.getElem_range] at hij
    rw [hij]
    exact containsPosition_iff.1 hc
  · intro hi
    refine ⟨i, ?_, containsPosition_iff.2 hi⟩
    rw [List.getElem?_range (lt_of_mem_positions hi)]

theorem restored_toBits (s : Subset α) : s.Restored (ofOperand s.choice s.domain (.bits s.toBits)) := by
  refine restored_of_marks (fun _ => rfl) trivial fun i => ?_
  rw [Operand.marks_bits, getElem?_toBits]

/-- the word of a subset has its positions, and as an integer it is the mask -/
theorem toWord_has (s : Subset α) (h : s.domain.size ≤ width) :
    ∃ w, s.toWord = .ok w ∧ (∀ i, Word.has w i = true ↔ i ∈ s.positions) ∧ (w.toNat : Int) = s.toMask := by
  have hbits : ∀ i, Word.has (Word.ofPositions s.positions) i = true ↔ i ∈ s.positions := by
    intro i
    rw [has_ofPositions_positions h, containsPosition_iff]
  refine ⟨Word.ofPositions s.positions, by rw [toWord_eq, if_neg (by omega)], hbits, ?_⟩
  rw [toMask_eq]
  congr 1
  apply Nat.eq_of_testBit_eq
  intro i
  rw [WordBuffer.testBit_toNat, WordBuffer.has_ofPositions, ← Word.has_eq_testBit, Bool.eq_iff_iff, hbits,
    decide_eq_true_eq]

/-- only a domain that fits in a word gives one, and it has the positions -/
theorem has_of_toWord {s : Subset α} {w : UInt64} (h : s.toWord = .ok w) :
    s.domain.size ≤ width ∧ ∀ i, Word.has w i = true ↔ i ∈ s.positions := by
  have hd : s.domain.size ≤ width := by
    rw [toWord_eq] at h
    split_ifs at h with hover
    · omega
  obtain ⟨v, hv, hbits, -⟩ := s.toWord_has hd
  rw [h] at hv
  cases hv
  exact ⟨hd, hbits⟩

theorem restored_toWord (s : Subset α) {w : UInt64} (h : s.toWord = .ok w) :
    s.Restored (ofOperand s.choice s.domain (.word w)) := by
  obtain ⟨hd, hbits⟩ := has_of_toWord h
  exact restored_of_marks (fun _ => rfl) hd hbits

theorem restored_toMembers (s : Subset α) : s.Restored (ofOperand s.choice s.domain (.members s.toMembers)) := by
  have hknown : ∀ e ∈ s.toMembers.toList, s.domain.contains e = true := by
    intro e he
    have := Members.contains_of_mem he
    rw [contains_toMembers, contains_iff] at this
    obtain ⟨i, -, hi⟩ := this
    exact Domain.contains_iff_indexOf.2 ⟨i, hi⟩
  refine restored_of_selection (fun e he => ?_) ?_
  · obtain ⟨-, -, x, hx, hc⟩ := ((Operand.members_lists s.toMembers).fault_iff e).1 he
    rw [hknown x hx] at hc
    cases hc
  · ext i
    simp only [Operand.selection, Operand.marks, Operand.names, contains_toMembers, Set.mem_ofPred_eq,
      Bool.false_eq_true, false_or, mem_places]
    constructor
    · intro h
      obtain ⟨e, he, hi⟩ := h
      obtain ⟨j, hj, hje⟩ := contains_iff.1 he
      rw [hi] at hje
      cases hje
      exact hj
    · intro hi
      obtain ⟨a, ha⟩ := Domain.exists_getElem? (lt_of_mem_positions hi)
      have hidx := Domain.indexOf_of_getElem? ha
      exact ⟨a, contains_iff.2 ⟨i, hi, hidx⟩, hidx⟩

theorem restored_toList (s : Subset α) : s.Restored (ofList s.choice s.domain s.toList) := by
  have hknown : ∀ e ∈ s.toList, s.domain.contains e = true := fun _ =>
    Operand.contains_of_mem_toList (Domain.same_refl s.domain)
  obtain ⟨t, ht, hb⟩ := ofList_built s.admits_choice hknown
  exact .of_built ht (hb.of_places (Operand.placesOf_toList (Domain.same_refl s.domain)))

/-- a word is read as an operand is, under the compact choice -/
theorem ofWord_eq (d : Domain α) (w : UInt64) : ofWord d w = ofOperand .compact d (.word w) := by
  by_cases hd : d.size ≤ width
  · simp only [ofWord, CompactSubset.ofWord, ofOperand, CompactSubset.ofOperand, CompactSubset.empty, dif_pos hd]
    rfl
  · have hover := Mask.acceptWord_overflow w (Nat.lt_of_not_le hd)
    rw [ofOperand_refused (c := .compact) fun h => hd (h rfl)]
    unfold ofWord CompactSubset.ofWord
    split
    · next e he =>
      rw [hover] at he
      cases he
      rfl
    · next v hv =>
      rw [hover] at hv
      cases hv

/-! ## Other forms -/

theorem ofGeneral_built {g : GeneralSubset α} (h : g.domain.size ≤ width) :
    ∃ c, CompactSubset.ofGeneral g = .ok c ∧ Built .compact g.domain (ofCompact c) (ofGeneral g).places := by
  obtain ⟨w, hw, hbits, -⟩ := toWord_has (ofGeneral g) h
  change g.toWord = .ok w at hw
  obtain ⟨c, hc, hdomain, hword⟩ := CompactSubset.ofGeneral_of_toWord hw
  refine ⟨c, hc, hdomain, rfl, Set.ext fun i => ?_⟩
  rw [ofCompact, mem_places_compact, mem_places, ← hbits, ← hword]
  rfl

theorem ofGeneral_refused {g : GeneralSubset α} (h : ¬ g.domain.size ≤ width) :
    CompactSubset.ofGeneral g = .error (.wordOverflow g.domain.size) :=
  CompactSubset.ofGeneral_of_toWord_error (if_pos (Nat.lt_of_not_le h))

theorem toCompact_built {s : Subset α} (h : s.domain.size ≤ width) :
    ∃ t, s.toCompact = .ok t ∧ Built .compact s.domain t s.places := by
  obtain ⟨rep, adaptive⟩ := s
  cases rep with
  | compact c => exact ⟨_, rfl, rfl, rfl, rfl⟩
  | general g =>
    obtain ⟨c, hc, hb⟩ := ofGeneral_built h
    refine ⟨ofCompact c, ?_, hb⟩
    simp only [toCompact, hc]
    rfl

theorem toCompact_refused {s : Subset α} (h : ¬ s.domain.size ≤ width) :
    s.toCompact = .error (.wordOverflow s.domain.size) := by
  obtain ⟨rep, adaptive⟩ := s
  cases rep with
  | compact c => exact absurd c.fits h
  | general g =>
    simp only [toCompact, ofGeneral_refused h]
    rfl

theorem toGeneral_built (s : Subset α) : Built .general s.domain s.toGeneral s.places := by
  obtain ⟨rep, adaptive⟩ := s
  cases rep with
  | compact c =>
    let s : Subset α := ⟨.compact c, adaptive⟩
    have hdomain : s.toGeneral.domain.same s.domain = true := Domain.same_refl c.domain
    exact ⟨rfl, rfl, (places_eq_iff hdomain).2 (contains_toMembers (ofCompact c))⟩
  | general g => exact ⟨rfl, rfl, rfl⟩

/-! ## Writing what was read -/

section Writing

variable {c : Choice} {d : Domain α} {t : Subset α} {o : Operand α}

/-- what an operand of numbered positions was read as has those positions -/
theorem mem_positions_of_read (hnames : ∀ e, o.names e = false) (h : ofOperand c d o = .ok t) (hc : c.Admits d)
    (i : Nat) : i ∈ t.positions ↔ o.marks i = true := by
  have hb := (ofOperand_answers hc o).good h
  rw [← mem_places, hb.places, Operand.mem_selection_mask hnames]

theorem read_ok_iff : (∃ t, ofOperand c d o = .ok t) ↔ c.Admits d ∧ ∀ e, ¬ o.Fault d .reject e := by
  constructor
  · intro h
    obtain ⟨t, ht⟩ := h
    have hc := admits_of_read ht
    exact ⟨hc, (ofOperand_answers hc o).ok_iff.1 ⟨t, ht⟩⟩
  · intro h
    obtain ⟨hc, hnone⟩ := h
    exact (ofOperand_answers hc o).ok_iff.2 hnone

theorem toMask_of_read {m : Int} (h : ofOperand c d (.mask m) = .ok t) : t.toMask = m := by
  obtain ⟨hc, hnone⟩ := read_ok_iff.1 ⟨t, h⟩
  have hm : 0 ≤ m := (Operand.mask_not_fault_iff.1 hnone).1
  have hbits : t.toMask.toNat = m.toNat := by
    apply Nat.eq_of_testBit_eq
    intro i
    rw [testBit_toMask, Bool.eq_iff_iff, decide_eq_true_eq, mem_positions_of_read (fun _ => rfl) h hc]
    rfl
  have ht := t.toMask_nonneg
  omega

theorem toWord_of_read {w : UInt64} (h : ofOperand c d (.word w) = .ok t) : t.toWord = .ok w := by
  obtain ⟨hc, hnone⟩ := read_ok_iff.1 ⟨t, h⟩
  have hb := (ofOperand_answers hc (.word w)).good h
  have hd : t.domain.size ≤ width := by
    rw [hb.domain]
    exact (Operand.word_not_fault_iff.1 hnone).1
  obtain ⟨v, hv, hbits, -⟩ := t.toWord_has hd
  have hvw : v = w := Word.ext_has fun i => by
    rw [Bool.eq_iff_iff, hbits, mem_positions_of_read (fun _ => rfl) h hc]
    rfl
  rw [hv, hvw]

theorem toBits_of_read {b : List Bool} (h : ofOperand c d (.bits b) = .ok t) :
    t.toBits = b.take d.size ++ List.replicate (d.size - b.length) false := by
  obtain ⟨hc, hnone⟩ := read_ok_iff.1 ⟨t, h⟩
  have hb := (ofOperand_answers hc (.bits b)).good h
  have hpos : ∀ i, t.containsPosition i = b[i]?.getD false := by
    intro i
    rw [Bool.eq_iff_iff, containsPosition_iff, mem_positions_of_read (fun _ => rfl) h hc]
    rfl
  rw [toBits_eq, hb.domain]
  apply List.ext_getElem
  · simp only [List.length_map, List.length_range, List.length_append, List.length_take, List.length_replicate]
    omega
  · intro i hi _
    rw [List.length_map, List.length_range] at hi
    rw [List.getElem_map, List.getElem_range, hpos]
    rcases Nat.lt_or_ge i b.length with hb | hb
    · rw [List.getElem_append_left (by simp; omega), List.getElem_take, List.getElem?_eq_getElem hb, Option.getD_some]
    · rw [List.getElem_append_right (by simp; omega), List.getElem_replicate, List.getElem?_eq_none hb,
        Option.getD_none]

end Writing

/-! ## Main result -/

/-- every form that the subset is written in is read back as an equal subset of the same domain and choice -/
structure Decoded (s : Subset α) : Prop where
  mask : s.Restored (ofOperand s.choice s.domain (.mask s.toMask))
  bits : s.Restored (ofOperand s.choice s.domain (.bits s.toBits))
  members : s.Restored (ofOperand s.choice s.domain (.members s.toMembers))
  elements : s.Restored (ofList s.choice s.domain s.toList)
  /-- there is a word for every domain that fits in one; read as an integer it is the mask -/
  word : s.domain.size ≤ width → ∃ w, s.toWord = .ok w ∧ (w.toNat : Int) = s.toMask ∧
    s.Restored (ofOperand s.choice s.domain (.word w)) ∧ (s.choice = .compact → s.Restored (ofWord s.domain w))

/-- under the choice `c` exactly the masks without a position past the end of `d` are read, and written as they were -/
structure Encoded (c : Choice) (d : Domain α) : Prop where
  mask_iff : ∀ m : Int, (∃ t, ofOperand c d (.mask m) = .ok t) ↔ c.Admits d ∧ 0 ≤ m ∧ m < 2 ^ d.size
  mask : ∀ m t, ofOperand c d (.mask m) = .ok t → t.toMask = m
  word_iff : ∀ w : UInt64,
    (∃ t, ofOperand c d (.word w) = .ok t) ↔ c.Admits d ∧ d.size ≤ width ∧ w.toNat < 2 ^ d.size
  word : ∀ w t, ofOperand c d (.word w) = .ok t → t.toWord = .ok w
  bits_iff : ∀ b : List Bool,
    (∃ t, ofOperand c d (.bits b) = .ok t) ↔ c.Admits d ∧ ∀ i, b[i]? = some true → i < d.size
  /-- cut or filled up to one bit for each element -/
  bits : ∀ b t, ofOperand c d (.bits b) = .ok t → t.toBits = b.take d.size ++ List.replicate (d.size - b.length) false

/-- **Round trips.** Reading undoes writing for every subset, and writing undoes reading for exactly the masks that
stay within the domain, for every choice and every domain. -/
theorem round_trips : (∀ s : Subset α, s.Decoded) ∧ ∀ (c : Choice) (d : Domain α), Encoded c d := by
  refine ⟨fun s => ?_, fun c d => ?_⟩
  · refine ⟨s.restored_toMask, s.restored_toBits, s.restored_toMembers, s.restored_toList, fun hd => ?_⟩
    obtain ⟨w, hw, -, hmask⟩ := s.toWord_has hd
    have hrestored := s.restored_toWord hw
    refine ⟨w, hw, hmask, hrestored, fun hc => ?_⟩
    rwa [ofWord_eq, ← hc]
  · refine ⟨fun m => ?_, fun m t h => toMask_of_read h, fun w => ?_, fun w t h => toWord_of_read h, fun b => ?_,
      fun b t h => toBits_of_read h⟩
    · rw [read_ok_iff, Operand.mask_not_fault_iff]
    · rw [read_ok_iff, Operand.word_not_fault_iff]
    · rw [read_ok_iff, Operand.bits_not_fault_iff]

end Subset

end SubsetAlgebra
