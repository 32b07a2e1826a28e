/-
Sets of positions below 64, held in one machine word.

`bit i` is the word of one position, `ofPositions` the word of a list of them, `has` asks for a position. A word is read
back by a cursor that takes the lowest position and clears it (`Cursor.next`); `positions` drains the cursor.

The view of a word is `w.toNat.testBit`: `testBit_bit`, `testBit_ofPositions` and `has_eq_testBit` say what each
operation does to it, and the `_lt` lemmas that a word over the first `n` positions stays below `2 ^ n`.
-/

-- a power of numbers is the built-in one, whatever else is imported
attribute [instance (high)] instPowNat

namespace SubsetAlgebra.Word

/-- number of positions in a word -/
def width : Nat := 64

/-! ## Building -/

/-- the word of the single position `i`, for `i` below the width -/
def bit (i : Nat) : UInt64 := 1 <<< UInt64.ofNat i

/-- the word of a list of positions -/
def ofPositions (ps : List Nat) : UInt64 := ps.foldl (fun w i => w ||| bit i) 0

/-- the word of the first `n` positions, for `n` up to the width -/
def low (n : Nat) : UInt64 := if n = width then 0xffffffffffffffff else bit n - 1

/-! ## Reading -/

/-- whether position `i` is in the word -/
def has (w : UInt64) (i : Nat) : Bool := decide (i < width) && (w >>> UInt64.ofNat i) &&& 1 == 1

/-- the lowest position of a word, or the width if it has none -/
def lowest (w : UInt64) : Nat := ((List.range width).find? (has w)).getD width

/-- the highest position of a non-zero word -/
def highest (w : UInt64) : Nat := w.toNat.log2

/-- number of positions in the word -/
def count (w : UInt64) : Nat := (List.range width).countP (has w)

/-- the word without its lowest position -/
def dropLowest (w : UInt64) : UInt64 := w &&& (w - 1)

/-- all 64 bits, lowest first -/
def bits (w : UInt64) : List Bool := (List.range width).map (has w)

/-- a word whose positions are being read off, lowest first -/
structure Cursor where
  rest : UInt64
  deriving DecidableEq, Repr

namespace Cursor

/-- the next position and the cursor behind it; at the end there is none, now and ever after -/
def next (c : Cursor) : Option Nat × Cursor :=
  if c.rest = 0 then (none, c) else (some (lowest c.rest), ⟨dropLowest c.rest⟩)

/-- how many positions are still to come -/
def remaining (c : Cursor) : Nat := count c.rest

end Cursor

/-! ## Bits as `Nat` bits -/

theorem toNat_ofNat_of_lt_width {i : Nat} (h : i < width) : (UInt64.ofNat i).toNat = i :=
  UInt64.toNat_ofNat_of_lt' (Nat.lt_trans h (by decide))

theorem toNat_bit {i : Nat} (h : i < width) : (bit i).toNat = 2 ^ i := by
  have hp : (2 : Nat) ^ i < 2 ^ 64 := Nat.pow_lt_pow_right (by decide) h
  simp only [bit, UInt64.toNat_shiftLeft, toNat_ofNat_of_lt_width h, Nat.mod_eq_of_lt (show i < 64 from h),
    show (1 : UInt64).toNat = 1 from rfl, Nat.shiftLeft_eq, Nat.one_mul, Nat.mod_eq_of_lt hp]

theorem testBit_bit {i : Nat} (h : i < width) (j : Nat) : (bit i).toNat.testBit j = decide (i = j) := by
  rw [toNat_bit h, Nat.testBit_two_pow]

theorem has_eq_testBit (w : UInt64) (i : Nat) : has w i = w.toNat.testBit i := by
  by_cases h : i < width
  · simp only [has, h, decide_true, Bool.true_and, Nat.testBit_eq_decide_div_mod_eq]
    rw [Bool.eq_iff_iff]
    simp only [beq_iff_eq, decide_eq_true_eq, ← UInt64.toNat_inj, UInt64.toNat_and, UInt64.toNat_shiftRight,
      toNat_ofNat_of_lt_width h, Nat.mod_eq_of_lt (show i < 64 from h), show (1 : UInt64).toNat = 1 from rfl,
      Nat.and_one_is_mod, Nat.shiftRight_eq_div_pow]
  · have hw : w.toNat < 2 ^ i :=
      Nat.lt_of_lt_of_le w.toNat_lt (Nat.pow_le_pow_right (by decide) (Nat.le_of_not_lt h))
    simp [has, h, Nat.testBit_lt_two_pow hw]

/-- a word over the first `n` positions has none from `n` on -/
theorem has_eq_false_of_lt {w : UInt64} {n i : Nat} (h : w.toNat < 2 ^ n) (hi : n ≤ i) : has w i = false := by
  rw [has_eq_testBit]
  exact Nat.testBit_lt_two_pow (Nat.lt_of_lt_of_le h (Nat.pow_le_pow_right (by decide) hi))

/-! ## Bounds -/

theorem bit_lt {i n : Nat} (h : i < n) (hn : n ≤ width) : (bit i).toNat < 2 ^ n := by
  rw [toNat_bit (Nat.lt_of_lt_of_le h hn)]
  exact Nat.pow_lt_pow_right (by decide) h

theorem or_lt {a b : UInt64} {n : Nat} (ha : a.toNat < 2 ^ n) (hb : b.toNat < 2 ^ n) : (a ||| b).toNat < 2 ^ n := by
  rw [UInt64.toNat_or]
  exact Nat.or_lt_two_pow ha hb

theorem and_lt_left {a : UInt64} (b : UInt64) {n : Nat} (ha : a.toNat < 2 ^ n) : (a &&& b).toNat < 2 ^ n := by
  rw [UInt64.toNat_and]
  exact Nat.lt_of_le_of_lt Nat.and_le_left ha

theorem and_lt_right (a : UInt64) {b : UInt64} {n : Nat} (hb : b.toNat < 2 ^ n) : (a &&& b).toNat < 2 ^ n := by
  rw [UInt64.toNat_and]
  exact Nat.and_lt_two_pow _ hb

theorem one_le_of_toNat_pos {w : UInt64} (h : 0 < w.toNat) : (1 : UInt64) ≤ w :=
  UInt64.le_iff_toNat_le.2 h

theorem toNat_pos {w : UInt64} (h : w ≠ 0) : 0 < w.toNat :=
  Nat.pos_of_ne_zero fun e => h (UInt64.toNat_inj.1 e)

theorem toNat_low {n : Nat} (h : n ≤ width) : (low n).toNat = 2 ^ n - 1 := by
  unfold low
  split
  · next e => subst e; rfl
  · next e =>
    have hn : n < width := Nat.lt_of_le_of_ne h e
    have hle : (1 : UInt64) ≤ bit n := one_le_of_toNat_pos (by rw [toNat_bit hn]; exact Nat.two_pow_pos n)
    rw [UInt64.toNat_sub_of_le _ _ hle, toNat_bit hn]
    rfl

theorem low_lt {n : Nat} (h : n ≤ width) : (low n).toNat < 2 ^ n := by
  rw [toNat_low h]
  exact Nat.sub_lt (Nat.two_pow_pos n) (by decide)

theorem foldl_bit_lt {n : Nat} (hn : n ≤ width) (ps : List Nat) (w : UInt64) (hw : w.toNat < 2 ^ n)
    (h : ∀ i ∈ ps, i < n) : (ps.foldl (fun w i => w ||| bit i) w).toNat < 2 ^ n := by
  induction ps generalizing w with
  | nil => exact hw
  | cons i ps ih =>
    exact ih _ (or_lt hw (bit_lt (h i (List.mem_cons_self ..)) hn)) fun j hj => h j (List.mem_cons_of_mem _ hj)

theorem ofPositions_lt {n : Nat} (hn : n ≤ width) {ps : List Nat} (h : ∀ i ∈ ps, i < n) :
    (ofPositions ps).toNat < 2 ^ n :=
  foldl_bit_lt hn ps 0 (Nat.two_pow_pos n) h

/-! ## Draining -/

theorem dropLowest_lt {w : UInt64} (h : w ≠ 0) : (dropLowest w).toNat < w.toNat := by
  have hpos := toNat_pos h
  have hs : (w - 1).toNat = w.toNat - 1 := UInt64.toNat_sub_of_le _ _ (one_le_of_toNat_pos hpos)
  rw [dropLowest, UInt64.toNat_and, hs]
  exact Nat.lt_of_le_of_lt Nat.and_le_right (Nat.sub_lt hpos (by decide))

/-- every step the cursor still takes: the position it gives and the cursor behind it -/
def Cursor.trace (c : Cursor) : List (Nat × Cursor) :=
  if _h : c.rest = 0 then []
  else (lowest c.rest, ⟨dropLowest c.rest⟩) :: Cursor.trace ⟨dropLowest c.rest⟩
termination_by c.rest.toNat
decreasing_by exact dropLowest_lt ‹_›

/-- the positions of a word, ascending -/
def positions (w : UInt64) : List Nat := (Cursor.trace ⟨w⟩).map (·.1)

theorem positions_zero : positions 0 = [] := by
  rw [positions, Cursor.trace]
  rfl

theorem positions_of_ne_zero {w : UInt64} (h : w ≠ 0) :
    positions w = lowest w :: positions (dropLowest w) := by
  rw [positions, Cursor.trace]
  simp only [h, dite_false, List.map_cons]
  rfl

theorem has_lowest {w : UInt64} (h : w ≠ 0) : has w (lowest w) = true := by
  unfold lowest
  cases hf : (List.range width).find? (has w) with
  | some j => exact List.find?_some hf
  | none =>
    refine absurd (UInt64.toNat_inj.1 (Nat.eq_of_testBit_eq fun j => ?_)) h
    rw [← has_eq_testBit]
    by_cases hj : j < width
    · simpa using List.find?_eq_none.1 hf j (List.mem_range.2 hj)
    · simp [has, hj]

theorem has_of_has_dropLowest {w : UInt64} {i : Nat} (h : has (dropLowest w) i = true) : has w i = true := by
  rw [has_eq_testBit, dropLowest, UInt64.toNat_and, Nat.testBit_and] at h
  rw [has_eq_testBit]
  exact (Bool.and_eq_true_iff.1 h).1

theorem has_of_mem_positions (w : UInt64) {i : Nat} (h : i ∈ positions w) : has w i = true := by
  by_cases hw : w = 0
  · subst hw
    rw [positions_zero] at h
    cases h
  · rw [positions_of_ne_zero hw] at h
    rcases List.mem_cons.1 h with rfl | h
    · exact has_lowest hw
    · exact has_of_has_dropLowest (has_of_mem_positions _ h)
termination_by w.toNat
decreasing_by exact dropLowest_lt ‹_›

/-- the positions of a word over the first `n` positions are below `n` -/
theorem lt_of_mem_positions {w : UInt64} {n i : Nat} (hw : w.toNat < 2 ^ n) (h : i ∈ positions w) : i < n := by
  refine Nat.lt_of_not_le fun hn => ?_
  have := has_of_mem_positions w h
  rw [has_eq_false_of_lt hw hn] at this
  cases this

end SubsetAlgebra.Word
