/-
What a 64-bit word says of each position.

`has w i` is the one view of a word: every operation is described by what it does to `has` (`has_or`, `has_andNot`,
`has_bit`, `has_ofPositions`, `has_low`), and two words with the same view are equal (`ext_has`). Reading a word with
the cursor gives exactly the positions that `has` holds of (`mem_positions`), each once and in order
(`positions_ascending`); `count` is their number. The step behind it is `has_dropLowest`: clearing the lowest position
clears nothing else.
-/
import Mathlib.Tactic.Common
import SubsetAlgebra.Word

namespace SubsetAlgebra

/-- two ascending lists with the same members are the same list -/
theorem eq_of_ascending {xs ys : List Nat} (hx : xs.Pairwise (· < ·)) (hy : ys.Pairwise (· < ·))
    (h : ∀ i, i ∈ xs ↔ i ∈ ys) : xs = ys := by
  have hperm : xs.Perm ys := (List.perm_ext_iff_of_nodup (hx.imp Nat.ne_of_lt) (hy.imp Nat.ne_of_lt)).2 h
  exact hperm.eq_of_pairwise (fun a b _ _ hab hba => by omega) hx hy

/-- an ascending list is what a test selects from a range, if its members are those below the range that pass -/
theorem eq_filter_range {xs : List Nat} {n : Nat} {p : Nat → Bool} (hx : xs.Pairwise (· < ·))
    (h : ∀ i, i ∈ xs ↔ i < n ∧ p i = true) : xs = (List.range n).filter p := by
  apply eq_of_ascending hx (List.pairwise_lt_range.filter p)
  intro i
  rw [h, List.mem_filter, List.mem_range]

namespace Word

/-! ## Operations, position by position -/

theorem ext_has {a b : UInt64} (h : ∀ i, has a i = has b i) : a = b := by
  apply UInt64.toNat_inj.1
  apply Nat.eq_of_testBit_eq
  intro i
  rw [← has_eq_testBit, ← has_eq_testBit, h]

theorem has_zero (i : Nat) : has 0 i = false := by
  rw [has_eq_testBit, UInt64.toNat_zero, Nat.zero_testBit]

theorem lt_width_of_has {w : UInt64} {i : Nat} (h : has w i = true) : i < width := by
  by_contra hi
  simp [has, hi] at h

theorem has_or (a b : UInt64) (i : Nat) : has (a ||| b) i = (has a i || has b i) := by
  simp only [has_eq_testBit, UInt64.toNat_or, Nat.testBit_or]

theorem has_and (a b : UInt64) (i : Nat) : has (a &&& b) i = (has a i && has b i) := by
  simp only [has_eq_testBit, UInt64.toNat_and, Nat.testBit_and]

theorem has_not {w : UInt64} {i : Nat} (h : i < width) : has (~~~w) i = !has w i := by
  have hw : w.toNat < 2 ^ 64 := w.toNat_lt
  have he : (~~~w).toNat = 2 ^ 64 - (w.toNat + 1) := by
    rw [UInt64.toNat_not]
    simp only [UInt64.size]
    omega
  rw [has_eq_testBit, has_eq_testBit, he, Nat.testBit_two_pow_sub_succ hw]
  simp [show i < 64 from h]

/-- what is in `a` and not in `b`; the bits past the width cannot disturb, since `a` has none there -/
theorem has_andNot (a b : UInt64) (i : Nat) : has (a &&& ~~~b) i = (has a i && !has b i) := by
  rw [has_and]
  by_cases hi : i < width
  · rw [has_not hi]
  · simp [has, hi]

theorem has_bit {i : Nat} (h : i < width) (j : Nat) : has (bit i) j = decide (i = j) := by
  rw [has_eq_testBit, testBit_bit h]

theorem has_foldl_bit {ps : List Nat} (h : ∀ i ∈ ps, i < width) (w : UInt64) (j : Nat) :
    has (ps.foldl (fun w i => w ||| bit i) w) j = (has w j || decide (j ∈ ps)) := by
  induction ps generalizing w with
  | nil => simp
  | cons i ps ih =>
    rw [List.foldl_cons, ih (fun k hk => h k (List.mem_cons_of_mem _ hk)), has_or, has_bit (h i List.mem_cons_self)]
    simp only [List.mem_cons, Bool.decide_or, Bool.or_assoc, eq_comm]

theorem has_ofPositions {ps : List Nat} (h : ∀ i ∈ ps, i < width) (j : Nat) :
    has (ofPositions ps) j = decide (j ∈ ps) := by
  rw [ofPositions, has_foldl_bit h, has_zero, Bool.false_or]

theorem has_low {n : Nat} (h : n ≤ width) (i : Nat) : has (low n) i = decide (i < n) := by
  rw [has_eq_testBit, toNat_low h, Nat.testBit_two_pow_sub_one]

/-- whether a position is in a word, asked by a mask of its own -/
theorem and_bit_eq_zero {w : UInt64} {i : Nat} (h : i < width) : (w &&& bit i == 0) = !has w i := by
  rw [Bool.eq_iff_iff, beq_iff_eq]
  constructor
  · intro he
    have := congrArg (has · i) he
    simpa [has_and, has_bit h, has_zero] using this
  · intro hw
    apply ext_has
    intro j
    rw [has_and, has_bit h, has_zero]
    by_cases hj : i = j
    · subst hj; simpa using hw
    · simp [hj]

theorem eq_zero_iff {w : UInt64} : w = 0 ↔ ∀ i, has w i = false :=
  ⟨fun h i => h ▸ has_zero i, fun h => ext_has fun i => by rw [h, has_zero]⟩

/-! ## The lowest and the highest position -/

theorem lowest_eq_of_ne_zero {w : UInt64} (h : w ≠ 0) : (List.range width).find? (has w) = some (lowest w) := by
  cases hf : (List.range width).find? (has w) with
  | some j => simp [lowest, hf]
  | none =>
    have hl := has_lowest h
    rw [List.find?_eq_none] at hf
    exact absurd hl (hf _ (List.mem_range.2 (lt_width_of_has hl)))

theorem lowest_le_of_has {w : UInt64} {i : Nat} (h : has w i = true) : lowest w ≤ i := by
  have hw : w ≠ 0 := fun e => by rw [e, has_zero] at h; cases h
  obtain ⟨-, k, hk, hget, hbefore⟩ := List.find?_eq_some_iff_getElem.1 (lowest_eq_of_ne_zero hw)
  rw [List.getElem_range] at hget
  subst hget
  by_contra hi
  have := hbefore i (by omega)
  rw [List.getElem_range, h] at this
  cases this

/-- `n - 1` agrees with `n` above the lowest one-bit of `n` and differs from it there -/
theorem testBit_and_sub_one {n k : Nat} (hk : n.testBit k = true) (hlow : ∀ i, i < k → n.testBit i = false) (i : Nat) :
    (n &&& (n - 1)).testBit i = (n.testBit i && decide (i ≠ k)) := by
  have hmod : n % 2 ^ k = 0 := by
    apply Nat.eq_of_testBit_eq
    intro j
    rw [Nat.testBit_mod_two_pow, Nat.zero_testBit]
    by_cases hj : j < k
    · simp [hlow j hj]
    · simp [hj]
  have hpos : 0 < 2 ^ k := Nat.two_pow_pos k
  obtain ⟨m, hn⟩ := Nat.dvd_of_mod_eq_zero hmod
  have hodd : m % 2 = 1 := by
    rw [hn, Nat.testBit_two_pow_mul] at hk
    simpa [Nat.testBit_zero] using hk
  have hpred : n - 1 = 2 ^ k * (m - 1) + (2 ^ k - 1) := by
    have hsplit : 2 ^ k * m = 2 ^ k * (m - 1) + 2 ^ k := by
      calc 2 ^ k * m = 2 ^ k * (m - 1 + 1) := by rw [Nat.sub_add_cancel (by omega)]
        _ = 2 ^ k * (m - 1) + 2 ^ k := Nat.mul_succ _ _
    omega
  rw [Nat.testBit_and]
  rcases Nat.lt_trichotomy i k with hi | rfl | hi
  · simp [hlow i hi]
  · rw [hpred, Nat.testBit_two_pow_mul_add _ (by omega)]
    simp [Nat.testBit_zero]
    omega
  · obtain ⟨j, rfl⟩ : ∃ j, i = k + (j + 1) := ⟨i - k - 1, by omega⟩
    have hsame : (n - 1).testBit (k + (j + 1)) = n.testBit (k + (j + 1)) := by
      rw [hpred, Nat.testBit_two_pow_mul_add _ (by omega)]
      conv_rhs => rw [hn, Nat.testBit_two_pow_mul]
      have hhalf : (m - 1) / 2 = m / 2 := by omega
      have hle : ¬ k + (j + 1) < k := by omega
      simp [Nat.testBit_add_one, hhalf, hle]
    simp [hsame]

theorem has_dropLowest {w : UInt64} (h : w ≠ 0) (i : Nat) :
    has (dropLowest w) i = (has w i && decide (i ≠ lowest w)) := by
  have hs : (w - 1).toNat = w.toNat - 1 := UInt64.toNat_sub_of_le _ _ (one_le_of_toNat_pos (toNat_pos h))
  have hl := has_lowest h
  rw [has_eq_testBit] at hl
  rw [has_eq_testBit, has_eq_testBit, dropLowest, UInt64.toNat_and, hs]
  apply testBit_and_sub_one hl
  intro j hj
  rw [← has_eq_testBit]
  by_contra hc
  have := lowest_le_of_has (by simpa using hc)
  omega

theorem has_highest {w : UInt64} (h : w ≠ 0) : has w (highest w) = true := by
  rw [has_eq_testBit]
  exact Nat.testBit_log2 (by have := toNat_pos h; omega)

theorem le_highest_of_has {w : UInt64} {i : Nat} (h : has w i = true) : i ≤ highest w := by
  rw [has_eq_testBit] at h
  have hle : 2 ^ i ≤ w.toNat := Nat.ge_two_pow_of_testBit h
  exact (Nat.le_log2 (by have := Nat.two_pow_pos i; omega)).2 hle

/-! ## Reading -/

/-- reading a word gives its positions and no others -/
theorem mem_positions {w : UInt64} {i : Nat} : i ∈ positions w ↔ has w i = true := by
  refine ⟨has_of_mem_positions w, fun h => ?_⟩
  have hw : w ≠ 0 := fun e => by rw [e, has_zero] at h; cases h
  rw [positions_of_ne_zero hw, List.mem_cons]
  by_cases hi : i = lowest w
  · exact Or.inl hi
  · exact Or.inr (mem_positions.2 (by rw [has_dropLowest hw]; simp [h, hi]))
termination_by w.toNat
decreasing_by exact dropLowest_lt ‹_›

theorem positions_ascending (w : UInt64) : (positions w).Pairwise (· < ·) := by
  by_cases hw : w = 0
  · subst hw; rw [positions_zero]; exact List.Pairwise.nil
  · rw [positions_of_ne_zero hw]
    refine List.pairwise_cons.2 ⟨fun i hi => ?_, positions_ascending _⟩
    rw [mem_positions, has_dropLowest hw, Bool.and_eq_true, decide_eq_true_eq] at hi
    have := lowest_le_of_has hi.1
    omega
termination_by w.toNat
decreasing_by exact dropLowest_lt ‹_›

theorem positions_eq_filter (w : UInt64) : positions w = (List.range width).filter (has w) :=
  eq_filter_range (positions_ascending w) fun _ => mem_positions.trans ⟨fun h => ⟨lt_width_of_has h, h⟩, And.right⟩

theorem count_eq_length (w : UInt64) : count w = (positions w).length := by
  rw [count, positions_eq_filter, List.countP_eq_length_filter]

end Word

end SubsetAlgebra
