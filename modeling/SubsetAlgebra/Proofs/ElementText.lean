/-
Elements that are read back from their JSON text.

`Legible e` says that writing and reading are inverse on `e`. It holds of every value of the types whose equality is
identity and that have a JSON text of their own: numbers that fit in 64 bits, bytes, booleans, characters, strings and
pairs of these.
-/
import SubsetAlgebra.Persisted.Text
import SubsetAlgebra.Presented
import SubsetAlgebra.Proofs.JsonText

namespace SubsetAlgebra.Persisted

open Json (Tree)
open Json.Scan
open Presented (tree)

/-- the value is read back from its text, whatever closes the text -/
def Legible {α : Type} [Presented α] [Readable α] (e : α) : Prop := Item Readable.scan (tree e) e

/-! ## Numbers -/

theorem whole_negative {n : Nat} (h : n + 1 ≤ 2 ^ (63 : Nat)) : whole false (n + 1) = .negative (Int.negSucc n) := by
  rw [whole, if_neg Bool.false_ne_true, if_pos ⟨Nat.succ_pos n, h⟩]
  rfl

theorem item_boundedInt {wanted : String} {low high n : Int} (hlow : low ≤ n) (hhigh : n ≤ high)
    (hleast : -(2 : Int) ^ (63 : Nat) ≤ n) (hmost : n < (2 : Int) ^ (64 : Nat)) :
    Item (boundedInt wanted low high) (.number n) n := by
  intro rest hrest
  cases n with
  | ofNat n =>
    simp only [Int.ofNat_eq_natCast] at *
    have hn : n < wordLimit := by
      unfold wordLimit
      omega
    have hnumber := reads_numeral true hn hrest.ends
    obtain ⟨d, ds, hds, hd⟩ := digits_start n
    have hsign : d ≠ '-' := by
      rintro rfl
      cases hd
    rw [hds, List.cons_append] at hnumber
    rw [toList_natural, hds]
    refine (reads_peekPart (not_blank_of_isDigit hd) _).bind ?_
    simp only [hd, hsign, if_false, if_true]
    refine hnumber.bind ?_
    change Reads (if low ≤ n ∧ n ≤ high then _ else _) _ _ _
    rw [if_pos ⟨hlow, hhigh⟩]
    exact Reads.pure _ _
  | negSucc n =>
    have hn : n + 1 < wordLimit := by
      unfold wordLimit
      omega
    have hnumber := reads_numeral false hn hrest.ends
    rw [whole_negative (by omega)] at hnumber
    rw [toList_negative]
    refine (reads_peekPart (by decide) _).bind ?_
    refine (reads_advance _ _).bind ?_
    refine hnumber.bind ?_
    change Reads (if low ≤ Int.negSucc n ∧ Int.negSucc n ≤ high then _ else _) _ _ _
    rw [if_pos ⟨hlow, hhigh⟩]
    exact Reads.pure _ _

theorem legible_int {n : Int} (hleast : -(2 : Int) ^ (63 : Nat) ≤ n) (hmost : n < (2 : Int) ^ (63 : Nat)) : Legible n :=
  item_boundedInt hleast (by omega) hleast (by omega)

theorem legible_uint8 (n : UInt8) : Legible n := by
  intro rest hrest
  have hn := n.toNat_lt
  have hread : Item (boundedInt "u8" 0 255) (.number n.toNat) (n.toNat : Int) :=
    item_boundedInt (by omega) (by omega) (by omega) (by omega)
  have hvalue : UInt8.ofNat (n.toNat : Int).toNat = n := by simp
  refine (hread rest hrest).bind ?_
  rw [hvalue]
  exact Reads.pure n rest

/-! ## Words and strings -/

theorem reads_word (cs rest : List Char) : Reads (word cs) (cs ++ rest) () rest := by
  induction cs with
  | nil => exact Reads.pure _ _
  | cons c cs ih =>
    refine (reads_next c _).bind ?_
    rw [if_pos rfl]
    exact ih

theorem legible_bool (b : Bool) : Legible b := by
  intro rest _
  cases b with
  | true => exact (reads_peekPart (by decide) _).bind ((reads_word "true".toList rest).bind (Reads.pure _ _))
  | false => exact (reads_peekPart (by decide) _).bind ((reads_word "false".toList rest).bind (Reads.pure _ _))

theorem reads_stringAs (wanted s : String) (rest : List Char) :
    Reads (stringAs wanted) ((Tree.text s).compact.toList ++ rest) s rest := by
  rw [Tree.compact, toList_quote, List.cons_append, List.append_assoc]
  refine (reads_peekPart (by decide) _).bind ?_
  exact (reads_advance _ _).bind (reads_string s rest)

theorem legible_string (s : String) : Legible s := fun rest _ => reads_stringAs _ s rest

theorem legible_char (c : Char) : Legible c := by
  intro rest _
  refine (reads_stringAs "a character" c.toString rest).bind ?_
  rw [Char.toString_eq_singleton, String.toList_singleton]
  exact Reads.pure c rest

/-! ## Pairs -/

theorem legible_pair {α β : Type} [Presented α] [Presented β] [Readable α] [Readable β] {a : α} {b : β} (ha : Legible a)
    (hb : Legible b) : Legible (Pair.mk a b) := by
  intro rest _
  refine reads_record (?_ : Fills _ _ _ (⟨some a, some b⟩ : PairDraft α β)) ?_ rest
  · refine .cons ⟨some a, none⟩ (fun rest hrest => ?_) (.cons ⟨some a, some b⟩ (fun rest hrest => ?_) (.nil _))
    · exact (reads_colon _).bind ((ha rest hrest).bind (Reads.pure _ _))
    · exact (reads_colon _).bind ((hb rest hrest).bind (Reads.pure _ _))
  · rfl

end SubsetAlgebra.Persisted
