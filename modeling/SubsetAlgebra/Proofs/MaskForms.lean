/-
One set of positions in the three forms of a mask.

A finite set of positions is written as an integer, the sum of its powers of two; as a list of bits of any length that
has room for them; and, if all are below 64, as a word. The three forms are checked by code of their own, by a bit
length, by a last bit and by a shift, and the verdict is one (`verdict`): over `n` elements a set is good if all its
positions are below `n`, and otherwise its greatest position is reported. A word has no verdict over more than 64
elements and a negative integer has none at all.

A good integer comes back as words. They hold the positions of the set in ascending order and make up the integer again,
and no other list of words for it is shorter: it is these words with zero words behind them (`digits_append_zeros`).
-/
import Mathlib.Combinatorics.Colex
import SubsetAlgebra.Proofs.MaskRule

namespace SubsetAlgebra

open Word (width)

/-! ## Words of a number -/

namespace WordBuffer

/-- cutting words off a number gives the words that it was made of -/
theorem digits_toNat_cons {w : UInt64} {ws : List UInt64} (h : toNat ⟨w :: ws⟩ ≠ 0) :
    digits (toNat ⟨w :: ws⟩) = w :: digits (toNat ⟨ws⟩) := by
  have hw : w.toNat < 2 ^ width := w.toNat_lt
  have hhead : UInt64.ofNat (toNat ⟨w :: ws⟩) = w := by
    apply UInt64.toNat_inj.1
    calc (UInt64.ofNat (toNat ⟨w :: ws⟩)).toNat = (w.toNat + 2 ^ width * toNat ⟨ws⟩) % 2 ^ width := UInt64.toNat_ofNat'
      _ = w.toNat := by rw [Nat.add_mul_mod_self_left, Nat.mod_eq_of_lt hw]
  have htail : toNat ⟨w :: ws⟩ / 2 ^ width = toNat ⟨ws⟩ := by
    rw [toNat_cons, Nat.add_mul_div_left _ _ (Nat.two_pow_pos width), Nat.div_eq_of_lt hw, Nat.zero_add]
  rw [digits, dif_neg h, hhead, htail]

/-- any words of a number are its own words and zero words behind them -/
theorem digits_append_zeros (ws : List UInt64) : ∃ k, ws = digits (toNat ⟨ws⟩) ++ List.replicate k 0 := by
  induction ws with
  | nil =>
    refine ⟨0, ?_⟩
    rw [List.replicate_zero, List.append_nil]
    exact digits_zero.symm
  | cons w ws ih =>
    obtain ⟨k, hk⟩ := ih
    by_cases hzero : toNat ⟨w :: ws⟩ = 0
    · -- nothing but zero words is left
      have hparts := hzero
      rw [toNat_cons, Nat.add_eq_zero_iff, Nat.mul_eq_zero] at hparts
      have hw : w = 0 := UInt64.toNat_inj.1 hparts.1
      have hws : toNat ⟨ws⟩ = 0 := hparts.2.resolve_left (Nat.two_pow_pos width).ne'
      rw [hws, digits_zero, List.nil_append] at hk
      refine ⟨k + 1, ?_⟩
      rw [hzero, digits_zero, List.nil_append, List.replicate_succ, ← hk, hw]
    · refine ⟨k, ?_⟩
      rw [digits_toNat_cons hzero, List.cons_append, ← hk]

/-- the last word of a number is not zero -/
theorem getLast?_digits_ne_zero (m : Nat) : (digits m).getLast? ≠ some 0 := by
  intro h
  obtain ⟨init, hinit⟩ := List.getLast?_eq_some_iff.1 h
  have hvalue : toNat ⟨init⟩ = m := by
    calc toNat ⟨init⟩ = toNat ⟨init ++ [0]⟩ := (toNat_append_zeros init 1).symm
      _ = toNat ⟨digits m⟩ := by rw [hinit]
      _ = m := toNat_digits m
  -- without it the words would be too few
  obtain ⟨k, hk⟩ := digits_append_zeros init
  have hlength := congrArg List.length hk
  rw [hvalue, hinit] at hlength
  simp at hlength

end WordBuffer

namespace Mask

/-! ## A set of positions as a mask -/

/-- the integer whose one-bits are these positions -/
def numberOf (P : Finset Nat) : Nat := ∑ p ∈ P, 2 ^ p

/-- the word of these positions, all of which are to be below the width -/
def wordOf (P : Finset Nat) : UInt64 := UInt64.ofNat (numberOf P)

/-- so many bits, those at these positions set -/
def bitsOf (P : Finset Nat) (len : Nat) : List Bool := (List.range len).map fun i => decide (i ∈ P)

theorem testBit_numberOf (P : Finset Nat) (i : Nat) : (numberOf P).testBit i = decide (i ∈ P) := by
  have hmem : i ∈ (numberOf P).bitIndices ↔ i ∈ P := by
    rw [← List.mem_toFinset]
    exact Finset.ext_iff.1 (Finset.toFinset_bitIndices_sum_two_pow P) i
  rw [Bool.eq_iff_iff, decide_eq_true_eq, ← hmem, Nat.mem_bitIndices]

/-- a number is told by its one-bits -/
theorem eq_numberOf {m : Nat} {P : Finset Nat} (h : ∀ i, m.testBit i = decide (i ∈ P)) : m = numberOf P := by
  apply Nat.eq_of_testBit_eq
  intro i
  rw [h, testBit_numberOf]

theorem numberOf_lt {P : Finset Nat} {n : Nat} (h : ∀ p ∈ P, p < n) : numberOf P < 2 ^ n := by
  refine Nat.lt_pow_two_of_testBit _ fun i hi => ?_
  rw [testBit_numberOf, decide_eq_false_iff_not]
  intro hp
  have := h i hp
  omega

theorem toNat_wordOf {P : Finset Nat} (h : ∀ p ∈ P, p < 64) : (wordOf P).toNat = numberOf P :=
  UInt64.toNat_ofNat_of_lt' (numberOf_lt h)

theorem has_wordOf {P : Finset Nat} (h : ∀ p ∈ P, p < 64) (i : Nat) : Word.has (wordOf P) i = decide (i ∈ P) := by
  rw [Word.has_eq_testBit, toNat_wordOf h, testBit_numberOf]

theorem bitAt_bitsOf {P : Finset Nat} {len : Nat} (h : ∀ p ∈ P, p < len) (i : Nat) :
    bitAt (bitsOf P len) i = decide (i ∈ P) := by
  rw [bitAt, bitsOf, List.getElem?_map]
  rcases Nat.lt_or_ge i len with hi | hi
  · rw [List.getElem?_range hi]
    rfl
  · have hout : i ∉ P := fun hp => by
      have := h i hp
      omega
    simp [hi, hout]

/-! ## The one verdict -/

variable {γ : Type}

/-- what is said of a set of positions over `n` elements: `v`, or its greatest position where one is past the end -/
def verdict (P : Finset Nat) (n : Nat) (v : γ) : Except Error γ :=
  if h : ∃ p ∈ P, n ≤ p then .error (.maskOutOfDomain (P.max' (h.imp fun _ => And.left)) n) else .ok v

theorem verdict_ok_iff {P : Finset Nat} {n : Nat} {v u : γ} : verdict P n v = .ok u ↔ (∀ p ∈ P, p < n) ∧ v = u := by
  unfold verdict
  split
  · next h =>
    obtain ⟨p, hp, hn⟩ := h
    refine iff_of_false (fun hok => nomatch hok) fun hall => ?_
    have := hall.1 p hp
    omega
  · next h =>
    have hall : ∀ p ∈ P, p < n := fun p hp => Nat.lt_of_not_le fun hn => h ⟨p, hp, hn⟩
    rw [Except.ok.injEq]
    exact (and_iff_right hall).symm

/-- a form that follows the rule for masks gives the verdict on its positions -/
theorem Judged.verdict_eq {P : Finset Nat} {p : Nat → Bool} (hp : ∀ i, p i = decide (i ∈ P)) {n : Nat}
    {r : Except Error γ} {v : γ} (h : Judged p n r v) : r = verdict P n v := by
  unfold verdict
  split
  · next hbeyond =>
    obtain ⟨q, hq, hn⟩ := hbeyond
    have hgreatest : Highest p (P.max' ⟨q, hq⟩) := by
      refine ⟨by simpa [hp] using P.max'_mem ⟨q, hq⟩, fun i hi => P.le_max' i ?_⟩
      simpa [hp] using hi
    exact h.beyond _ hgreatest (Nat.le_trans hn (P.le_max' q hq))
  · next hwithin =>
    refine h.within fun i hi => Nat.lt_of_not_le fun hn => hwithin ⟨i, ?_, hn⟩
    simpa [hp] using hi

/-! ## Main result -/

/-- the words of a set of positions, as few as there can be -/
structure Fewest (P : Finset Nat) (buf : WordBuffer) : Prop where
  toNat : buf.toNat = numberOf P
  ascending : buf.positions.Pairwise (· < ·)
  mem_positions : ∀ i, i ∈ buf.positions ↔ i ∈ P
  last : buf.words.getLast? ≠ some 0
  empty : P = ∅ → buf.words = []
  least : ∀ ws, WordBuffer.toNat ⟨ws⟩ = numberOf P → ∃ k, ws = buf.words ++ List.replicate k 0

theorem fewest (P : Finset Nat) : Fewest P (WordBuffer.ofNat (numberOf P)) where
  toNat := WordBuffer.toNat_ofNat _
  ascending := WordBuffer.positions_ascending _
  mem_positions i := by
    rw [WordBuffer.mem_positions, WordBuffer.has_ofNat, testBit_numberOf, decide_eq_true_eq]
  last := WordBuffer.getLast?_digits_ne_zero _
  empty hP := by
    subst hP
    exact WordBuffer.digits_zero
  least ws hws := by
    obtain ⟨k, hk⟩ := WordBuffer.digits_append_zeros ws
    rw [hws] at hk
    exact ⟨k, hk⟩

/-- the three forms of one set of positions, over `n` elements -/
structure OneRule (P : Finset Nat) (n : Nat) : Prop where
  number : acceptInt (numberOf P) n = verdict P n (WordBuffer.ofNat (numberOf P))
  /-- clear bits behind the last position do no harm -/
  bits : ∀ len, (∀ p ∈ P, p < len) → acceptBits (bitsOf P len) n = verdict P n ()
  word : (∀ p ∈ P, p < 64) → n ≤ 64 →
    (wordOf P).toNat = numberOf P ∧ acceptWord (wordOf P) n = verdict P n (wordOf P)
  ok_iff : ∀ {γ : Type} (v u : γ), verdict P n v = .ok u ↔ (∀ p ∈ P, p < n) ∧ v = u
  fewest : Fewest P (WordBuffer.ofNat (numberOf P))
  /-- the low positions of a list of bits, as a word -/
  low : ∀ len, (∀ p ∈ P, p < len) → (wordOfBits (bitsOf P len)).toNat = numberOf (P.filter (· < 64))

theorem oneRule (P : Finset Nat) (n : Nat) : OneRule P n where
  number := (acceptInt_judged (Int.natCast_nonneg _) n).verdict_eq fun i => by
    rw [Int.toNat_natCast, testBit_numberOf]
  bits len hlen := (acceptBits_judged _ n).verdict_eq (bitAt_bitsOf hlen)
  word hP hn := ⟨toNat_wordOf hP, (acceptWord_judged _ hn).verdict_eq (has_wordOf hP)⟩
  ok_iff _ _ := verdict_ok_iff
  fewest := fewest P
  low len hlen := by
    apply eq_numberOf
    intro i
    rw [← Word.has_eq_testBit, has_wordOfBits, bitAt_bitsOf hlen, ← Bool.decide_and, decide_eq_decide,
      Finset.mem_filter, And.comm]
    rfl

/-- **The three forms of a mask follow one rule.** A set of positions gets the same verdict as an integer, as a list of
bits with any number of clear ones behind, and over at most 64 elements as a word: it is accepted iff all positions are
below the number of elements, and otherwise its greatest one is reported. An accepted integer comes back as the fewest
words that hold the set. Over more than 64 elements every word is refused for that, and every negative integer is
refused over any number of elements. -/
theorem masks_follow_one_rule :
    (∀ (P : Finset Nat) (n : Nat), OneRule P n) ∧
    (∀ (w : UInt64) (n : Nat), 64 < n → acceptWord w n = .error (.wordOverflow n)) ∧
    ∀ (m : Int) (n : Nat), m < 0 → acceptInt m n = .error .negativeMask :=
  ⟨oneRule, fun w _ hn => acceptWord_overflow w hn, fun _ n hm => acceptInt_negative hm n⟩

end Mask

end SubsetAlgebra
