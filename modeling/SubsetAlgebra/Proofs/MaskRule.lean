/-
The one rule behind the three forms of a mask.

A mask is a set of positions, given by the bits of a word, of an integer or of a list. Over `n` elements it is good if
all its positions are below `n`; otherwise its highest position is the one that is reported. `Judged` states that rule
for any form, and `acceptWord_judged`, `acceptInt_judged` and `acceptBits_judged` say that each form follows it. What
the forms have of their own stands beside it: a word is of no use over more than 64 elements (`acceptWord_overflow`),
and a negative integer names no positions (`acceptInt_negative`).
-/
import SubsetAlgebra.Mask
import SubsetAlgebra.Proofs.BufferBits

namespace SubsetAlgebra.Mask

open Word (width)

/-! ## The rule -/

/-- `b` is the highest position of a set -/
def Highest (p : Nat → Bool) (b : Nat) : Prop := p b = true ∧ ∀ i, p i = true → i ≤ b

theorem Highest.eq {p : Nat → Bool} {b c : Nat} (hb : Highest p b) (hc : Highest p c) : b = c :=
  Nat.le_antisymm (hc.2 b hb.1) (hb.2 c hc.1)

/-- the verdict `r` on the positions `p` over `n` elements: `v` if all are below `n`, else the highest is reported -/
structure Judged {β : Type} (p : Nat → Bool) (n : Nat) (r : Except Error β) (v : β) : Prop where
  beyond : ∀ b, Highest p b → n ≤ b → r = .error (.maskOutOfDomain b n)
  within : (∀ i, p i = true → i < n) → r = .ok v

/-- a bounded set of positions stays below `n`, or has a highest one at or past it -/
theorem within_or_beyond {p : Nat → Bool} {N : Nat} (hN : ∀ i, p i = true → i < N) (n : Nat) :
    (∀ i, p i = true → i < n) ∨ ∃ b, Highest p b ∧ n ≤ b := by
  induction N with
  | zero => exact Or.inl fun i hi => absurd (hN i hi) (Nat.not_lt_zero i)
  | succ N ih =>
    by_cases hp : p N = true
    · by_cases hn : n ≤ N
      · exact Or.inr ⟨N, ⟨hp, fun i hi => Nat.le_of_lt_succ (hN i hi)⟩, hn⟩
      · exact Or.inl fun i hi => by have := hN i hi; omega
    · apply ih
      intro i hi
      have hne : i ≠ N := fun e => hp (e ▸ hi)
      have := hN i hi
      omega

/-! ## Words -/

theorem acceptWord_overflow (w : UInt64) {n : Nat} (h : width < n) : acceptWord w n = .error (.wordOverflow n) := by
  rw [acceptWord, if_pos h]

theorem highest_word {w : UInt64} {b : Nat} (h : Highest (Word.has w) b) : b = Word.highest w := by
  have hw : w ≠ 0 := fun e => by have := h.1; rw [e, Word.has_zero] at this; cases this
  exact h.eq ⟨Word.has_highest hw, fun _ hi => Word.le_highest_of_has hi⟩

theorem shift_ne_zero {w : UInt64} {n i : Nat} (hn : n < width) (hni : n ≤ i) (h : Word.has w i = true) :
    w >>> UInt64.ofNat n ≠ 0 := by
  intro he
  have := congrArg UInt64.toNat he
  rw [UInt64.toNat_shiftRight, Word.toNat_ofNat_of_lt_width hn, Nat.mod_eq_of_lt (show n < 64 from hn),
    Nat.shiftRight_eq_div_pow, UInt64.toNat_zero] at this
  have hlt : w.toNat < 2 ^ n := (Nat.div_eq_zero_iff_lt (Nat.two_pow_pos n)).1 this
  rw [Word.has_eq_false_of_lt hlt hni] at h
  cases h

theorem acceptWord_judged (w : UInt64) {n : Nat} (h : n ≤ width) : Judged (Word.has w) n (acceptWord w n) w where
  beyond b hb hn := by
    have hlt : n < width := Nat.lt_of_le_of_lt hn (Word.lt_width_of_has hb.1)
    rw [acceptWord, if_neg (by omega), if_pos ⟨hlt, shift_ne_zero hlt hn hb.1⟩, highest_word hb]
  within hw := by
    rw [acceptWord, if_neg (by omega), if_neg]
    intro h'
    obtain ⟨hlt, hne⟩ := h'
    apply hne
    apply Word.ext_has
    intro i
    rw [Word.has_zero, Word.has_eq_testBit, UInt64.toNat_shiftRight, Word.toNat_ofNat_of_lt_width hlt,
      Nat.mod_eq_of_lt (show n < 64 from hlt), Nat.testBit_shiftRight, ← Word.has_eq_testBit]
    by_contra hc
    have := hw (n + i) (by simpa using hc)
    omega

/-! ## Integers -/

theorem acceptInt_negative {m : Int} (h : m < 0) (n : Nat) : acceptInt m n = .error .negativeMask := by
  rw [acceptInt, if_pos h]

theorem highest_nat {m b : Nat} (h : Highest m.testBit b) : m ≠ 0 ∧ b = m.log2 := by
  have hm : m ≠ 0 := fun e => by have := h.1; simp [e] at this
  refine ⟨hm, h.eq ⟨Nat.testBit_log2 hm, fun i hi => ?_⟩⟩
  exact (Nat.le_log2 hm).2 (Nat.ge_two_pow_of_testBit hi)

theorem acceptInt_judged {m : Int} (h : 0 ≤ m) (n : Nat) :
    Judged m.toNat.testBit n (acceptInt m n) (WordBuffer.ofNat m.toNat) where
  beyond b hb hn := by
    obtain ⟨hm, rfl⟩ := highest_nat hb
    rw [acceptInt, if_neg (by omega), if_pos ⟨hm, hn⟩]
  within hw := by
    rw [acceptInt, if_neg (by omega), if_neg]
    intro h'
    obtain ⟨hm, hn⟩ := h'
    have := hw _ (Nat.testBit_log2 hm)
    omega

/-! ## Lists of bits -/

/-- whether bit `i` of a list is set; there is none past its end -/
def bitAt (bits : List Bool) (i : Nat) : Bool := bits[i]?.getD false

theorem lt_length_of_bitAt {bits : List Bool} {i : Nat} (h : bitAt bits i = true) : i < bits.length := by
  by_contra hi
  simp [bitAt, List.getElem?_eq_none (Nat.le_of_not_lt hi)] at h

theorem mem_onesFrom {bits : List Bool} {k i : Nat} :
    i ∈ onesFrom k bits ↔ k ≤ i ∧ bitAt bits (i - k) = true := by
  induction bits generalizing k with
  | nil => simp [onesFrom, bitAt]
  | cons b bs ih =>
    have hrest : i ∈ onesFrom (k + 1) bs ↔ k < i ∧ bitAt (b :: bs) (i - k) = true := by
      rw [ih]
      refine and_congr_right fun hki => ?_
      obtain ⟨j, rfl⟩ : ∃ j, i = k + (j + 1) := ⟨i - k - 1, by omega⟩
      rw [show k + (j + 1) - (k + 1) = j by omega, show k + (j + 1) - k = j + 1 by omega]
      simp [bitAt]
    have hsplit : k ≤ i ↔ i = k ∨ k < i := by omega
    unfold onesFrom
    split_ifs with hb
    · rw [List.mem_cons, hrest, hsplit]
      constructor
      · intro h'
        rcases h' with rfl | h
        · exact ⟨Or.inl rfl, by simp [bitAt, hb]⟩
        · exact ⟨Or.inr h.1, h.2⟩
      · intro h'
        rcases h' with ⟨rfl | h, hi⟩
        · exact Or.inl rfl
        · exact Or.inr ⟨h, hi⟩
    · rw [hrest, hsplit]
      constructor
      · exact fun h => ⟨Or.inr h.1, h.2⟩
      · intro h'
        rcases h' with ⟨rfl | h, hi⟩
        · simp [bitAt, hb] at hi
        · exact ⟨h, hi⟩

theorem mem_ones {bits : List Bool} {i : Nat} : i ∈ ones bits ↔ bitAt bits i = true := by
  rw [ones, mem_onesFrom]
  simp

theorem acceptBits_judged (bits : List Bool) (n : Nat) : Judged (bitAt bits) n (acceptBits bits n) () where
  beyond b hb hn := by
    have hmem := mem_ones.2 hb.1
    unfold acceptBits
    cases hl : (ones bits).getLast? with
    | none => rw [List.getLast?_eq_none_iff.1 hl] at hmem; cases hmem
    | some last =>
      have hlast : b = last := by
        apply hb.eq
        refine ⟨mem_ones.1 (List.mem_of_getLast? hl), fun i hi => ?_⟩
        exact le_getLast_of_mem (onesFrom_ascending bits 0) hl (mem_ones.2 hi)
      subst hlast
      exact if_pos hn
  within hw := by
    unfold acceptBits
    cases hl : (ones bits).getLast? with
    | none => rfl
    | some last =>
      have := hw last (mem_ones.1 (List.mem_of_getLast? hl))
      exact if_neg (by omega)

theorem mem_takeWhile_lt {xs : List Nat} (hx : xs.Pairwise (· < ·)) {n i : Nat} :
    i ∈ xs.takeWhile (· < n) ↔ i ∈ xs ∧ i < n := by
  induction xs with
  | nil => simp
  | cons x xs ih =>
    rw [List.pairwise_cons] at hx
    by_cases hxn : x < n
    · rw [List.takeWhile_cons_of_pos (by simpa using hxn), List.mem_cons, List.mem_cons, ih hx.2]
      constructor
      · intro h'
        rcases h' with rfl | h
        · exact ⟨Or.inl rfl, hxn⟩
        · exact ⟨Or.inr h.1, h.2⟩
      · intro h'
        rcases h' with ⟨rfl | h, hi⟩
        · exact Or.inl rfl
        · exact Or.inr ⟨h, hi⟩
    · rw [List.takeWhile_cons_of_neg (by simpa using hxn)]
      simp only [List.not_mem_nil, List.mem_cons, false_iff, not_and]
      intro h'
      rcases h' with rfl | h
      · exact hxn
      · have := hx.1 i h
        omega

/-- the word of a list of bits has the bits below the width -/
theorem has_wordOfBits (bits : List Bool) (i : Nat) :
    Word.has (wordOfBits bits) i = (decide (i < width) && bitAt bits i) := by
  have hmem : ∀ j, j ∈ (ones bits).takeWhile (· < width) ↔ j ∈ ones bits ∧ j < width := fun j =>
    mem_takeWhile_lt (onesFrom_ascending bits 0)
  rw [wordOfBits, Word.has_ofPositions fun j hj => ((hmem j).1 hj).2, Bool.eq_iff_iff, decide_eq_true_eq, hmem,
    mem_ones, Bool.and_eq_true, decide_eq_true_eq, And.comm]

end SubsetAlgebra.Mask
