/-
How a buffer of words grows.

A buffer is told by two things, the number of its words and the positions that it holds (`ext_has`). Inserting a
position makes it long enough for that position and never shorter (`length_insert`); the position is held from then on,
and all others are held or not as before. So what insertions leave depends on the set of their positions alone, whatever
the order and the repetitions (`foldl_insert_eq`), and a position that is held already changes nothing
(`insert_of_has`).

Grown from nothing, a buffer never ends in a zero word (`getLast?_insert` is the step), which makes it the shortest
buffer of its positions (`ofPositions_eq`). As a number any buffer is the sum of the powers of two of its positions,
whether its words are taken whole or in halves (`toNat_eq_numberOf`, `toNat_eq_ofDigits`), and zero words behind add
nothing to it.
-/
import Mathlib.Data.Nat.Digits.Defs
import Mathlib.Order.Lattice.Nat
import SubsetAlgebra.Proofs.GuardedWords
import SubsetAlgebra.Proofs.MaskForms

namespace SubsetAlgebra

namespace Word

/-! ## Halves of words -/

theorem bit_ne_zero {i : Nat} (h : i < width) : bit i ≠ 0 := fun e => by
  have := has_bit h i
  rw [e, has_zero, decide_eq_true rfl] at this
  cases this

theorem or_bit_ne_zero {i : Nat} (h : i < width) (w : UInt64) : w ||| bit i ≠ 0 := fun e => by
  have := has_or w (bit i) i
  rw [e, has_zero, has_bit h, decide_eq_true rfl, Bool.or_true] at this
  cases this

/-- the two halves of a word, the low one first -/
def halves (w : UInt64) : List UInt32 := [w.toUInt32, (w >>> 32).toUInt32]

theorem ofDigits_halves (w : UInt64) : Nat.ofDigits (2 ^ 32) ((halves w).map UInt32.toNat) = w.toNat := by
  have hw : w.toNat < 2 ^ 64 := w.toNat_lt
  have hlow : w.toUInt32.toNat = w.toNat % 2 ^ 32 := UInt64.toNat_toUInt32 w
  have hhigh : (w >>> 32).toUInt32.toNat = w.toNat / 2 ^ 32 := by
    rw [UInt64.toNat_toUInt32, UInt64.toNat_shiftRight, Nat.shiftRight_eq_div_pow]
    exact Nat.mod_eq_of_lt (by simp; omega)
  simp only [halves, List.map_cons, List.map_nil, Nat.ofDigits_cons, Nat.ofDigits_nil, hlow, hhigh]
  omega

end Word

namespace WordBuffer

open Word (width)
open Mask (numberOf)

/-! ## Length and positions tell a buffer -/

theorem ext_has {a b : WordBuffer} (hlen : a.words.length = b.words.length) (h : ∀ i, a.has i = b.has i) : a = b := by
  have hnat : a.toNat = b.toNat := Nat.eq_of_testBit_eq fun i => by rw [testBit_toNat, testBit_toNat, h]
  obtain ⟨us⟩ := a
  obtain ⟨vs⟩ := b
  -- both are the words of one number and zero words behind them, so many as the length asks for
  obtain ⟨j, hj⟩ := digits_append_zeros us
  obtain ⟨k, hk⟩ := digits_append_zeros vs
  have hu : us.length = (digits (toNat ⟨us⟩)).length + j := by
    conv_lhs => rw [hj, List.length_append, List.length_replicate]
  have hv : vs.length = (digits (toNat ⟨vs⟩)).length + k := by
    conv_lhs => rw [hk, List.length_append, List.length_replicate]
  rw [hnat] at hj hu
  have hzeros : j = k := by
    have : us.length = vs.length := hlen
    omega
  exact congrArg mk (by rw [hj, hzeros, ← hk])

/-! ## Insertions -/

theorem length_setBit (ws : List UInt64) (k b : Nat) : (setBit ws k b).length = max ws.length (k + 1) := by
  fun_induction setBit ws k b with
  | case1 b => rfl
  | case2 k b ih => rw [List.length_cons, ih, List.length_nil]; omega
  | case3 w ws b => rw [List.length_cons, List.length_cons]; omega
  | case4 w ws k b ih => rw [List.length_cons, List.length_cons, ih]; omega

/-- the buffer is then long enough for the position, and was not made shorter -/
theorem length_insert (buf : WordBuffer) (i : Nat) :
    (buf.insert i).words.length = max buf.words.length (i / width + 1) := length_setBit ..

theorem length_foldl_insert (ps : List Nat) (buf : WordBuffer) :
    (ps.foldl insert buf).words.length = max buf.words.length (ps.toFinset.sup fun i => i / width + 1) := by
  induction ps generalizing buf with
  | nil => simp
  | cons i ps ih =>
    rw [List.foldl_cons, ih, length_insert, List.toFinset_cons, Finset.sup_insert]
    exact max_assoc _ _ _

/-- insertions in another order, or repeated, leave the same buffer -/
theorem foldl_insert_eq {ps qs : List Nat} (h : ∀ i, i ∈ ps ↔ i ∈ qs) (buf : WordBuffer) :
    ps.foldl insert buf = qs.foldl insert buf := by
  apply ext_has
  · have hset : ps.toFinset = qs.toFinset := Finset.ext fun i => by rw [List.mem_toFinset, List.mem_toFinset, h]
    rw [length_foldl_insert, length_foldl_insert, hset]
  · intro i
    rw [has_foldl_insert, has_foldl_insert, decide_eq_decide.2 (h i)]

theorem insert_comm (buf : WordBuffer) (i j : Nat) : (buf.insert i).insert j = (buf.insert j).insert i := by
  have h : ∀ k, k ∈ [i, j] ↔ k ∈ [j, i] := fun k => by simp [or_comm]
  exact foldl_insert_eq h buf

theorem insert_of_has {buf : WordBuffer} {i : Nat} (h : buf.has i = true) : buf.insert i = buf := by
  apply ext_has
  · have := lt_length_of_has h
    rw [length_insert]
    omega
  · intro j
    rw [has_insert]
    by_cases hij : i = j
    · rw [← hij, h, Bool.true_or]
    · rw [decide_eq_false hij, Bool.or_false]

theorem has_insert_self (buf : WordBuffer) (i : Nat) : (buf.insert i).has i = true := by
  rw [has_insert, decide_eq_true rfl, Bool.or_true]

/-! ## The last word -/

theorem setBit_ne_nil (ws : List UInt64) (k b : Nat) : setBit ws k b ≠ [] := by
  have := length_setBit ws k b
  intro e
  rw [e, List.length_nil] at this
  omega

/-- either the word that gets the bit is the last, or the last one is as it was -/
theorem getLast?_setBit {b : Nat} (hb : b < width) (ws : List UInt64) (k : Nat) (h : ws.getLast? ≠ some 0) :
    (setBit ws k b).getLast? ≠ some 0 := by
  fun_induction setBit ws k b with
  | case1 b => simpa using Word.bit_ne_zero hb
  | case2 k b ih =>
    rw [List.getLast?_cons_of_ne_nil (setBit_ne_nil _ _ _)]
    exact ih hb h
  | case3 w ws b =>
    cases ws with
    | nil => simpa using Word.or_bit_ne_zero hb w
    | cons v vs => rwa [List.getLast?_cons_cons] at h ⊢
  | case4 w ws k b ih =>
    rw [List.getLast?_cons_of_ne_nil (setBit_ne_nil _ _ _)]
    refine ih hb ?_
    cases ws with
    | nil => nofun
    | cons v vs => rwa [List.getLast?_cons_cons] at h

theorem getLast?_insert {buf : WordBuffer} (h : buf.words.getLast? ≠ some 0) (i : Nat) :
    (buf.insert i).words.getLast? ≠ some 0 := getLast?_setBit (Nat.mod_lt _ (by decide)) _ _ h

theorem getLast?_foldl_insert (ps : List Nat) {buf : WordBuffer} (h : buf.words.getLast? ≠ some 0) :
    (ps.foldl insert buf).words.getLast? ≠ some 0 := by
  induction ps generalizing buf with
  | nil => exact h
  | cons i ps ih => exact ih (getLast?_insert h i)

/-- a buffer that does not end in a zero word is the shortest of its positions -/
theorem eq_ofNat {buf : WordBuffer} (h : buf.words.getLast? ≠ some 0) : buf = ofNat buf.toNat := by
  obtain ⟨ws⟩ := buf
  obtain ⟨k, hk⟩ := digits_append_zeros ws
  cases k with
  | zero => rw [List.replicate_zero, List.append_nil] at hk; exact congrArg mk hk
  | succ k =>
    refine absurd ?_ h
    show ws.getLast? = some 0
    rw [hk, List.replicate_succ', ← List.append_assoc, List.getLast?_concat]

/-! ## The number -/

/-- the positions of a buffer as a set -/
def held (buf : WordBuffer) : Finset Nat := (Finset.range (width * buf.words.length)).filter fun i => buf.has i = true

theorem mem_held {buf : WordBuffer} {i : Nat} : i ∈ buf.held ↔ buf.has i = true := by
  rw [held, Finset.mem_filter, Finset.mem_range]
  exact and_iff_right_of_imp lt_of_has

theorem toNat_eq_numberOf (buf : WordBuffer) : buf.toNat = numberOf buf.held :=
  Mask.eq_numberOf fun i => by rw [testBit_toNat, Bool.eq_iff_iff, decide_eq_true_eq, mem_held]

theorem ofPositions_eq (ps : List Nat) : ofPositions ps = ofNat (numberOf ps.toFinset) := by
  have hnumber : (ofPositions ps).toNat = numberOf ps.toFinset :=
    Mask.eq_numberOf fun i => by rw [testBit_toNat, has_ofPositions, decide_eq_decide, List.mem_toFinset]
  rw [← hnumber]
  exact eq_ofNat (getLast?_foldl_insert ps nofun)

/-- the halves of the words, two for each, are the digits of the number to the base of a half -/
theorem toNat_eq_ofDigits (buf : WordBuffer) :
    buf.toNat = Nat.ofDigits (2 ^ 32) ((buf.words.flatMap Word.halves).map UInt32.toNat) := by
  obtain ⟨ws⟩ := buf
  induction ws with
  | nil => rfl
  | cons w ws ih =>
    have hbase : (2 ^ 32) ^ ((Word.halves w).map UInt32.toNat).length = 2 ^ width := (Nat.pow_mul 2 32 2).symm
    rw [toNat_cons, List.flatMap_cons, List.map_append, Nat.ofDigits_append, Word.ofDigits_halves, hbase, ← ih]

/-! ## Main result -/

/-- what inserting `ps` one after another makes of the words `ws` -/
structure Grown (ws : List UInt64) (ps : List Nat) (buf : WordBuffer) : Prop where
  has_iff : ∀ i, buf.has i = true ↔ has ⟨ws⟩ i = true ∨ i ∈ ps
  untouched : ∀ i, i ∉ ps → buf.has i = has ⟨ws⟩ i
  length : buf.words.length = max ws.length (ps.toFinset.sup fun i => i / 64 + 1)
  /-- insertions of the same positions in another order, or repeated, come to the same words -/
  unordered : ∀ qs : List Nat, (∀ i, i ∈ qs ↔ i ∈ ps) → qs.foldl insert ⟨ws⟩ = buf

theorem grown (ws : List UInt64) (ps : List Nat) : Grown ws ps (ps.foldl insert ⟨ws⟩) where
  has_iff i := by rw [has_foldl_insert, Bool.or_eq_true, decide_eq_true_eq]
  untouched i hi := by rw [has_foldl_insert, decide_eq_false hi, Bool.or_false]
  length := length_foldl_insert ps ⟨ws⟩
  unordered _ h := foldl_insert_eq h ⟨ws⟩

/-- what one insertion does to a buffer, and what a second one adds to it -/
structure Inserted (buf : WordBuffer) (i j : Nat) : Prop where
  /-- zero words as far as the word of the position, in which the bit is set -/
  words : (buf.insert i).words =
    (buf.words.rightpad (i / 64 + 1) 0).set (i / 64) (buf.words[i / 64]?.getD 0 ||| Word.bit (i % 64))
  has_iff : (buf.insert i).has j = true ↔ buf.has j = true ∨ i = j
  longer : buf.words.length ≤ (buf.insert i).words.length
  swap : (buf.insert i).insert j = (buf.insert j).insert i
  again : (buf.insert i).insert i = buf.insert i
  present : buf.has i = true → buf.insert i = buf

theorem inserted (buf : WordBuffer) (i j : Nat) : Inserted buf i j where
  words := (Guarded.set_grown ..).symm
  has_iff := by rw [has_insert, Bool.or_eq_true, decide_eq_true_eq]
  longer := by
    rw [length_insert]
    exact Nat.le_max_left ..
  swap := insert_comm buf i j
  again := insert_of_has (has_insert_self buf i)
  present := insert_of_has

/-- what collecting `ps` from nothing comes to -/
structure Collected (ps : List Nat) (buf : WordBuffer) : Prop where
  unordered : ∀ qs : List Nat, (∀ i, i ∈ qs ↔ i ∈ ps) → ofPositions qs = buf
  last : buf.words.getLast? ≠ some 0
  shortest : buf = ofNat (numberOf ps.toFinset)

theorem collected (ps : List Nat) : Collected ps (ofPositions ps) where
  unordered _ h := foldl_insert_eq h empty
  last := getLast?_foldl_insert ps nofun
  shortest := ofPositions_eq ps

/-- a buffer read as a number and as bits -/
structure Converted (buf : WordBuffer) : Prop where
  mem_held : ∀ i, i ∈ buf.held ↔ ∃ w, buf.words[i / 64]? = some w ∧ w.toNat.testBit (i % 64) = true
  number : buf.toNat = ∑ i ∈ buf.held, 2 ^ i
  halves : Nat.ofDigits (2 ^ 32) ((buf.words.flatMap Word.halves).map UInt32.toNat) = buf.toNat
  /-- zero words behind do not matter -/
  zeros : ∀ k, toNat ⟨buf.words ++ List.replicate k 0⟩ = buf.toNat
  length_bits : ∀ n, (buf.toBits n).length = n
  bits : ∀ n i, i < n → (buf.toBits n)[i]? = some (decide (i ∈ buf.held))
  /-- there is no position behind the last word -/
  beyond : ∀ i, 64 * buf.words.length ≤ i → i ∉ buf.held

theorem converted (buf : WordBuffer) : Converted buf where
  mem_held i := WordBuffer.mem_held.trans has_iff_testBit
  number := buf.toNat_eq_numberOf
  halves := buf.toNat_eq_ofDigits.symm
  zeros := toNat_append_zeros buf.words
  length_bits n := by rw [toBits_eq, List.length_map, List.length_range]
  bits n i hi := by
    have hheld : decide (i ∈ buf.held) = buf.has i := by
      rw [Bool.eq_iff_iff, decide_eq_true_eq, WordBuffer.mem_held]
    rw [toBits_eq, List.getElem?_map, List.getElem?_range hi, hheld]
    rfl
  beyond i hi hheld := Nat.not_lt.2 hi (lt_of_has (WordBuffer.mem_held.1 hheld))

/-- **A buffer grows by what is inserted and by nothing else.** After any insertions into any words, a position is held
iff it was before or was inserted, and there are as many words as there were or as the greatest position needs. The
insertions may come in any order and be repeated. Collected from nothing, the words are the fewest that hold the
positions. Any buffer is, as a number, the sum of the powers of two of its positions, and as bits tells each position
below the number of bits asked for. -/
theorem buffers_grow_faithfully :
    (∀ (ws : List UInt64) (ps : List Nat), Grown ws ps (ps.foldl insert ⟨ws⟩)) ∧
    (∀ (buf : WordBuffer) (i j : Nat), Inserted buf i j) ∧
    (∀ ps : List Nat, Collected ps (ofPositions ps)) ∧
    ∀ buf : WordBuffer, Converted buf :=
  ⟨grown, inserted, collected, converted⟩

/-- one insertion may add several words -/
example : (insert ⟨[5]⟩ 130).words = [5, 0, 4] := by decide

end WordBuffer

end SubsetAlgebra
