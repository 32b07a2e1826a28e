/-
Words of the values of a finite type.

There are two ways from a list of values to a word. `bitmask` asks each value in turn for its bit, and each looks at the
size of the type before it answers; `setOf` builds the subset of the values, which is then asked for its word and looks
at the size of the domain. Both words have the positions of the values (`bitmask_fits`), each once, whatever the order
and the repetitions, so they are equal, and read as a mask the word gives the subset back.

Over more than 64 values the subset has no word, and no value has a bit. With no value to ask, nobody looks at the size:
the bitmask of an empty list is the word without positions over any type, although the empty subset has no word there
(`bitmask_of_none_too_wide`).
-/
import SubsetAlgebra.Enumeration
import SubsetAlgebra.Proofs.Constructors
import SubsetAlgebra.Proofs.MaskForms

namespace SubsetAlgebra

open Word (width)
open Operand (Interchangeable)

namespace Enumeration

variable {E : Enumeration}

/-! ## Positions of values -/

theorem size_domain (E : Enumeration) : E.domain.size = E.size := List.length_finRange

theorem getElem?_variants (v : E.Value) : E.variants[position v]? = some v := by
  simp [variants, position]

/-- the position of a value in the declaration is that in the domain -/
theorem indexOf_domain (v : E.Value) : E.domain.indexOf v = some (position v) :=
  Domain.indexOf_of_getElem? (getElem?_variants v)

theorem contains_domain (v : E.Value) : E.domain.contains v = true :=
  Domain.contains_iff_indexOf.2 ⟨position v, indexOf_domain v⟩

theorem position_inj {u v : E.Value} : position u = position v ↔ u = v := Fin.val_inj

theorem mem_placesOf {vs : List E.Value} {i : Nat} : i ∈ E.domain.placesOf vs ↔ i ∈ vs.map position := by
  simp only [Domain.placesOf, Set.mem_ofPred_eq, indexOf_domain, Option.some.injEq, List.mem_map]

theorem position_mem_placesOf {vs : List E.Value} {v : E.Value} : position v ∈ E.domain.placesOf vs ↔ v ∈ vs := by
  simp only [mem_placesOf, List.mem_map, position_inj, exists_eq_right]

/-! ## Subsets of values -/

/-- values belong to their domain, so there is a subset of any of them -/
theorem setOf_built (vs : List E.Value) :
    ∃ s, E.setOf vs = .ok s ∧ Subset.Built .auto E.domain s (E.domain.placesOf vs) := by
  have hauto : Choice.auto.Admits E.domain := nofun
  exact Subset.ofList_built hauto fun v _ => contains_domain v

section Values

variable {vs : List E.Value} {s : Subset E.Value}

theorem contains_at (hd : s.domain = E.domain) (v : E.Value) : s.contains v = true ↔ position v ∈ s.places := by
  rw [← Subset.containsPosition_of_indexOf (hd ▸ indexOf_domain v), Subset.containsPosition_iff, Subset.mem_places]

theorem elementOf_iff (hb : Subset.Built .auto E.domain s (E.domain.placesOf vs)) (v : E.Value) :
    elementOf v s = true ↔ v ∈ vs := by
  rw [elementOf, contains_at hb.domain, hb.places, position_mem_placesOf]

theorem elementOf_complement_iff (hb : Subset.Built .auto E.domain s (E.domain.placesOf vs)) (v : E.Value) :
    elementOf v s.complement = true ↔ v ∉ vs := by
  have hrev := s.complement_revised
  have hlt : position v < s.domain.size := by
    rw [hb.domain, size_domain]
    exact v.isLt
  rw [elementOf, contains_at (hrev.domain.trans hb.domain), hrev.places, hb.places, Set.mem_sdiff,
    position_mem_placesOf]
  exact and_iff_right hlt

end Values

/-! ## The two words -/

theorem addBits_fits (hE : E.size ≤ width) (w : UInt64) (vs : List E.Value) :
    addBits w vs = .ok (vs.foldl (fun w v => w ||| Word.bit (position v)) w) := by
  induction vs generalizing w with
  | nil => rfl
  | cons v vs ih =>
    have hbit : bit v = .ok (Word.bit (position v)) := if_neg (Nat.not_lt.2 hE)
    simp only [addBits, hbit, ih, List.foldl_cons]

/-- the bits of the values make up the word of their positions -/
theorem bitmask_fits (hE : E.size ≤ width) (vs : List E.Value) :
    bitmask vs = .ok (Word.ofPositions (vs.map position)) := by
  rw [bitmask, addBits_fits hE, Word.ofPositions, List.foldl_map]

/-- the first value that is asked refuses -/
theorem bitmask_too_wide (hE : width < E.size) {vs : List E.Value} (hvs : vs ≠ []) :
    bitmask vs = .error (.wordOverflow E.size) := by
  obtain ⟨v, rest, rfl⟩ := List.exists_cons_of_ne_nil hvs
  have hbit : bit v = .error (.wordOverflow E.size) := if_pos hE
  simp only [bitmask, addBits, hbit]

theorem position_lt_width (hE : E.size ≤ width) {vs : List E.Value} {i : Nat} (hi : i ∈ vs.map position) :
    i < width := by
  obtain ⟨v, -, rfl⟩ := List.mem_map.1 hi
  exact Nat.lt_of_lt_of_le v.isLt hE

/-- each value counts once -/
theorem toNat_ofPositions (hE : E.size ≤ width) (vs : List E.Value) :
    (Word.ofPositions (vs.map position)).toNat = ∑ v ∈ vs.toFinset, 2 ^ position v := by
  have hsum : Mask.numberOf (vs.toFinset.image position) = ∑ v ∈ vs.toFinset, 2 ^ position v :=
    Finset.sum_image fun u _ v _ h => position_inj.1 h
  rw [← hsum]
  apply Mask.eq_numberOf
  intro i
  rw [← Word.has_eq_testBit, Word.has_ofPositions fun _ => position_lt_width hE, decide_eq_decide]
  simp

/-- no list of values is at fault -/
theorem elements_sound (vs : List E.Value) (rule : ForeignRule) (err : Error) :
    ¬ Operand.Fault E.domain rule (.elements vs) err := by
  intro hfault
  obtain ⟨-, -, v, -, hv⟩ := ((Operand.elements_lists vs).fault_iff err).1 hfault
  rw [contains_domain] at hv
  cases hv

/-- the word of the values' positions and the list of the values name the same to the domain -/
theorem interchangeable_word (hE : E.size ≤ width) (vs : List E.Value) :
    Interchangeable E.domain E.domain (.word (Word.ofPositions (vs.map position))) (.elements vs) := by
  have hmarks : ∀ i, Word.has (Word.ofPositions (vs.map position)) i = true ↔ i ∈ vs.map position := by
    intro i
    rw [Word.has_ofPositions fun _ => position_lt_width hE, decide_eq_true_eq]
  constructor
  · intro rule err
    refine iff_of_false ?_ (elements_sound vs rule err)
    refine (Operand.not_fault_iff fun _ => rfl).2 ⟨?_, fun i hi => ?_⟩ err
    · exact (size_domain E).trans_le hE
    · obtain ⟨v, -, rfl⟩ := List.mem_map.1 ((hmarks i).1 hi)
      exact v.isLt.trans_eq (size_domain E).symm
  · ext i
    rw [Operand.mem_selection_mask (fun _ => rfl), (Operand.elements_lists vs).selection_eq, mem_placesOf]
    exact hmarks i

/-! ## The word of a subset of values -/

section Words

variable {vs : List E.Value} {s : Subset E.Value}

theorem toWord_too_wide (hb : Subset.Built .auto E.domain s (E.domain.placesOf vs)) (hE : width < E.size) :
    s.toWord = .error (.wordOverflow E.size) := by
  rw [Subset.toWord_eq, hb.domain, size_domain]
  exact if_pos hE

/-- the subset has the word that the bits of the values make up -/
theorem toWord_fits (hb : Subset.Built .auto E.domain s (E.domain.placesOf vs)) (hE : E.size ≤ width) :
    s.toWord = .ok (Word.ofPositions (vs.map position)) := by
  have hsize : s.domain.size = E.size := by rw [hb.domain, size_domain]
  have hword : s.toWord = .ok (Word.ofPositions s.positions) := by
    rw [Subset.toWord_eq, hsize]
    exact if_neg (Nat.not_lt.2 hE)
  rw [hword]
  congr 1
  apply Word.ext_has
  intro i
  rw [Subset.has_ofPositions_positions (hsize.trans_le hE), Word.has_ofPositions fun _ => position_lt_width hE,
    Bool.eq_iff_iff, Subset.containsPosition_iff, decide_eq_true_eq, ← Subset.mem_places, hb.places, mem_placesOf]

/-- read as a mask, the word gives the very subset of the values -/
theorem ofOperand_word (hs : E.setOf vs = .ok s) (hE : E.size ≤ width) :
    Subset.ofOperand .auto E.domain (.word (Word.ofPositions (vs.map position))) = .ok s := by
  have hboth := (Subset.ofOperand_founds .auto E.domain _).parallel (Subset.ofList_founds .auto E.domain vs)
    (interchangeable_word hE vs)
  rw [show Subset.ofList .auto E.domain vs = .ok s from hs] at hboth
  generalize hr : Subset.ofOperand .auto E.domain _ = r at hboth
  rcases hboth with _ | htwins
  have hcompact : Choice.auto.resolve E.domain.size = .ok .compact := if_pos ((size_domain E).trans_le hE)
  rw [Subset.ofOperand_strategy hr] at hcompact
  rw [htwins.eq_of_compact (Except.ok.inj hcompact)]

/-- under any choice the word gives a subset that is equal to that of the values -/
theorem ofOperand_word_same (hb : Subset.Built .auto E.domain s (E.domain.placesOf vs)) (hE : E.size ≤ width)
    (c : Choice) : ∃ t, Subset.ofOperand c E.domain (.word (Word.ofPositions (vs.map position))) = .ok t ∧
      t.same s = true := by
  have hnames := interchangeable_word hE vs
  have hc : c.Admits E.domain := fun _ => (size_domain E).trans_le hE
  obtain ⟨t, ht, hbt⟩ := ((Subset.ofOperand_founds c E.domain _).answers hc).sound fun err hfault =>
    elements_sound vs .reject err ((hnames.fault .reject err).1 hfault)
  refine ⟨t, ht, (Subset.same_iff t s).2 ⟨?_, ?_⟩⟩
  · rw [hbt.domain, hb.domain]
    exact Domain.same_refl _
  · rw [hbt.places, hb.places, hnames.selection, (Operand.elements_lists vs).selection_eq]

end Words

/-! ## Main result -/

/-- the subset `s` of the values `vs`, beside their bitmask -/
structure Depicted (vs : List E.Value) (s : Subset E.Value) : Prop where
  elementOf_iff : ∀ v, elementOf v s = true ↔ v ∈ vs
  complement_iff : ∀ v, elementOf v s.complement = true ↔ v ∉ vs
  /-- the same word or the same error -/
  agree : vs ≠ [] ∨ E.size ≤ 64 → bitmask vs = s.toWord
  fits : E.size ≤ 64 → ∃ w, bitmask vs = .ok w ∧ s.toWord = .ok w ∧ w.toNat = ∑ v ∈ vs.toFinset, 2 ^ position v ∧
    Subset.ofOperand .auto E.domain (.word w) = .ok s ∧
    ∀ c, ∃ t, Subset.ofOperand c E.domain (.word w) = .ok t ∧ t.same s = true
  /-- whatever the values; but they have to be asked -/
  too_wide : 64 < E.size →
    s.toWord = .error (.wordOverflow E.size) ∧ (vs ≠ [] → bitmask vs = .error (.wordOverflow E.size))

theorem depicted {vs : List E.Value} {s : Subset E.Value} (hs : E.setOf vs = .ok s)
    (hb : Subset.Built .auto E.domain s (E.domain.placesOf vs)) : Depicted vs s where
  elementOf_iff := elementOf_iff hb
  complement_iff := elementOf_complement_iff hb
  agree hcase := by
    rcases Nat.lt_or_ge 64 E.size with hE | hE
    · have hvs : vs ≠ [] := hcase.resolve_right (Nat.not_le.2 hE)
      rw [bitmask_too_wide hE hvs, toWord_too_wide hb hE]
    · rw [bitmask_fits hE, toWord_fits hb hE]
  fits hE := ⟨_, bitmask_fits hE vs, toWord_fits hb hE, toNat_ofPositions hE vs, ofOperand_word hs hE,
    ofOperand_word_same hb hE⟩
  too_wide hE := ⟨toWord_too_wide hb hE, bitmask_too_wide hE⟩

/-- **A finite type has one word for its values.** The position of a value in the declaration is that in the domain.
There is a subset of any values, it has these and no others, and its complement has the others. Over at most 64 values
the bitmask of a list is the word of the subset: the sum of the powers of two of the distinct values' positions, from
which the subset is read back. Over more than 64 values neither is to be had, if there is a value to be asked. -/
theorem bitmask_agrees_with_setOf (E : Enumeration) :
    (∀ v : E.Value, E.domain.indexOf v = some (position v) ∧ E.variants[position v]? = some v ∧
      ∀ i, E.variants[i]? = some v → i = position v) ∧
    ∀ vs : List E.Value, ∃ s, E.setOf vs = .ok s ∧ Depicted vs s := by
  refine ⟨fun v => ⟨indexOf_domain v, getElem?_variants v, fun i hi => ?_⟩, fun vs => ?_⟩
  · exact Domain.eq_of_pairwise_unequal E.variants_unequal hi (getElem?_variants v) BEq.rfl
  · obtain ⟨s, hs, hb⟩ := setOf_built vs
    exact ⟨s, hs, depicted hs hb⟩

/-- the empty list of a type with 65 values has a bitmask, while the empty subset has no word and none is read back -/
theorem bitmask_of_none_too_wide :
    bitmask ([] : List (wide 65).Value) = .ok 0 ∧
    ((wide 65).setOf []).bind Subset.toWord = .error (.wordOverflow 65) ∧
    Subset.ofOperand .auto (wide 65).domain (.word 0) = .error (.wordOverflow 65) := by
  refine ⟨rfl, ?_, ?_⟩
  · decide
  · rfl

end Enumeration

end SubsetAlgebra
