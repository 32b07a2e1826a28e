/-
Masks: positions of a domain chosen by number, as a word, as an integer or as a list of bits.

Bit `i` of a mask chooses position `i`, so a mask over `n` elements may have no bit at `n` or above. The three `accept`
functions draw that line for the three forms and name the same bit, the highest one, when it is crossed. A word can
only be used where every position of the domain has a bit, hence the limit of 64 elements on that form alone.
-/
import SubsetAlgebra.Error
import SubsetAlgebra.WordBuffer

namespace SubsetAlgebra.Mask

open Word (width)

/-- the word itself, if it is a mask over `size` elements -/
def acceptWord (w : UInt64) (size : Nat) : Except Error UInt64 :=
  if width < size then .error (.wordOverflow size)
  else if size < width ∧ w >>> UInt64.ofNat size ≠ 0 then .error (.maskOutOfDomain (Word.highest w) size)
  else .ok w

/-- the words of an integer, if it is a mask over `size` elements -/
def acceptInt (m : Int) (size : Nat) : Except Error WordBuffer :=
  if m < 0 then .error .negativeMask
  else if m.toNat ≠ 0 ∧ size ≤ m.toNat.log2 then .error (.maskOutOfDomain m.toNat.log2 size)
  else .ok (WordBuffer.ofNat m.toNat)

/-- the positions of the one-bits of a list whose first bit has position `k` -/
def onesFrom : Nat → List Bool → List Nat
  | _, [] => []
  | k, b :: bs => if b then k :: onesFrom (k + 1) bs else onesFrom (k + 1) bs

/-- the positions of the one-bits of a list of bits, ascending -/
def ones (bits : List Bool) : List Nat := onesFrom 0 bits

/-- succeeds if a list of bits is a mask over `size` elements; clear bits past the end do no harm -/
def acceptBits (bits : List Bool) (size : Nat) : Except Error Unit :=
  match (ones bits).getLast? with
  | some last => if size ≤ last then .error (.maskOutOfDomain last size) else .ok ()
  | none => .ok ()

/-- the word of the one-bits below the width of a word; the bits from there on are passed over -/
def wordOfBits (bits : List Bool) : UInt64 := Word.ofPositions ((ones bits).takeWhile (· < width))

/-! ## Accepted masks stay inside the domain -/

theorem acceptWord_lt {w v : UInt64} {n : Nat} (h : acceptWord w n = .ok v) : v.toNat < 2 ^ n := by
  unfold acceptWord at h
  split at h
  · cases h
  · next hn =>
    split at h
    · cases h
    · next hs =>
      cases h
      by_cases e : n < width
      · have hz : w >>> UInt64.ofNat n = 0 := Classical.byContradiction fun hz => hs ⟨e, hz⟩
        have hz' := congrArg UInt64.toNat hz
        rw [UInt64.toNat_shiftRight, Word.toNat_ofNat_of_lt_width e, Nat.mod_eq_of_lt (show n < 64 from e),
          Nat.shiftRight_eq_div_pow] at hz'
        exact (Nat.div_eq_zero_iff_lt (Nat.two_pow_pos n)).1 hz'
      · have : n = 64 := Nat.le_antisymm (Nat.le_of_not_lt hn) (Nat.le_of_not_lt e)
        subst this
        exact w.toNat_lt

theorem le_width_of_acceptWord {w v : UInt64} {n : Nat} (h : acceptWord w n = .ok v) : n ≤ width := by
  unfold acceptWord at h
  split at h
  · cases h
  · next hn => exact Nat.le_of_not_lt hn

theorem acceptInt_eq_ok {m : Int} {n : Nat} {buf : WordBuffer} (h : acceptInt m n = .ok buf) :
    buf = WordBuffer.ofNat m.toNat ∧ m.toNat < 2 ^ n := by
  unfold acceptInt at h
  split at h
  · cases h
  · split at h
    · cases h
    · next hs =>
      refine ⟨(Except.ok.inj h).symm, ?_⟩
      by_cases e : m.toNat = 0
      · rw [e]; exact Nat.two_pow_pos n
      · exact (Nat.log2_lt e).1 (Nat.lt_of_not_le fun hle => hs ⟨e, hle⟩)

theorem head_ofNat_lt {m n : Nat} (hm : m < 2 ^ n) : ((WordBuffer.ofNat m).words.head?.getD 0).toNat < 2 ^ n := by
  rw [WordBuffer.ofNat, WordBuffer.digits_head]
  exact Nat.lt_of_le_of_lt (Nat.mod_le _ _) hm

theorem le_of_mem_onesFrom {bits : List Bool} {k i : Nat} (h : i ∈ onesFrom k bits) : k ≤ i := by
  induction bits generalizing k with
  | nil => cases h
  | cons b bs ih =>
    unfold onesFrom at h
    split at h
    · rcases List.mem_cons.1 h with rfl | h
      · exact Nat.le_refl _
      · exact Nat.le_of_succ_le (ih h)
    · exact Nat.le_of_succ_le (ih h)

theorem onesFrom_ascending (bits : List Bool) (k : Nat) : (onesFrom k bits).Pairwise (· < ·) := by
  induction bits generalizing k with
  | nil => exact List.Pairwise.nil
  | cons b bs ih =>
    unfold onesFrom
    split
    · exact List.pairwise_cons.2 ⟨fun i hi => le_of_mem_onesFrom hi, ih _⟩
    · exact ih _

theorem le_getLast_of_mem {l : List Nat} (hl : l.Pairwise (· < ·)) {last i : Nat} (h : l.getLast? = some last)
    (hi : i ∈ l) : i ≤ last := by
  obtain ⟨init, rfl⟩ := List.getLast?_eq_some_iff.1 h
  rcases List.mem_append.1 hi with hi | hi
  · exact Nat.le_of_lt ((List.pairwise_append.1 hl).2.2 i hi last (List.mem_singleton.2 rfl))
  · exact Nat.le_of_eq (List.mem_singleton.1 hi)

theorem lt_of_acceptBits {bits : List Bool} {n : Nat} (h : acceptBits bits n = .ok ()) {i : Nat} (hi : i ∈ ones bits) :
    i < n := by
  unfold acceptBits at h
  cases hl : (ones bits).getLast? with
  | none => rw [List.getLast?_eq_none_iff.1 hl] at hi; cases hi
  | some last =>
    simp only [hl] at h
    split at h
    · cases h
    · next hn => exact Nat.lt_of_le_of_lt (le_getLast_of_mem (onesFrom_ascending bits 0) hl hi) (Nat.lt_of_not_le hn)

theorem wordOfBits_lt {bits : List Bool} {n : Nat} (h : acceptBits bits n = .ok ()) (hn : n ≤ width) :
    (wordOfBits bits).toNat < 2 ^ n :=
  Word.ofPositions_lt hn fun _ hi => lt_of_acceptBits h ((List.takeWhile_sublist _).subset hi)

end SubsetAlgebra.Mask
