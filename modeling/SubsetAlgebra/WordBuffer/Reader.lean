/-
Reading a list of words with the whole list in view.

A `Reader` has all the words, the index of the word in hand and what is left of that word. A call to it is a loop of
turns, of which there are three kinds (`turn_cases`): one takes the lowest position of the word in hand, one takes the
next word in hand, and one comes to the end. A call ends since every turn without an answer leaves one word less unseen.
-/
import SubsetAlgebra.WordBuffer

namespace SubsetAlgebra.WordBuffer

open Word (width lowest dropLowest)

/-- words being read with the whole list in view: the index of the word in hand, and what is left of that word -/
structure Reader where
  words : List UInt64
  index : Nat
  current : UInt64

namespace Reader

/-- a reader before the first position -/
def start (ws : List UInt64) : Reader := ⟨ws, 0, ws.head?.getD 0⟩

/-- what a turn of the loop in a call comes to -/
inductive Turn where
  /-- the call is over -/
  | done (found : Option Nat) (after : Reader)
  /-- the loop goes round once more -/
  | again (r : Reader)

/-- takes the lowest position of the word in hand; if it has none left, takes the next word in hand, if there is one -/
def turn (r : Reader) : Turn :=
  if r.current ≠ 0 then
    .done (some (r.index * width + lowest r.current)) { r with current := dropLowest r.current }
  else
    match r.words[r.index + 1]? with
    | some w => .again { r with index := r.index + 1, current := w }
    | none => .done none { r with index := r.index + 1 }

/-- how many words have not been in hand yet -/
def unseen (r : Reader) : Nat := r.words.length - (r.index + 1)

/-- all that a turn can do: take a position, take the next word in hand, or come to the end -/
theorem turn_cases (r : Reader) :
    (r.current ≠ 0 ∧
      r.turn = .done (some (r.index * width + lowest r.current)) { r with current := dropLowest r.current }) ∨
    (r.current = 0 ∧ ∃ w, r.words[r.index + 1]? = some w ∧
      r.turn = .again { r with index := r.index + 1, current := w }) ∨
    (r.current = 0 ∧ r.words.length ≤ r.index + 1 ∧ r.turn = .done none { r with index := r.index + 1 }) := by
  by_cases hc : r.current = 0
  · refine .inr ?_
    cases hw : r.words[r.index + 1]? with
    | some w => exact .inl ⟨hc, w, rfl, by rw [turn, if_neg (not_not_intro hc), hw]⟩
    | none => exact .inr ⟨hc, List.getElem?_eq_none_iff.1 hw, by rw [turn, if_neg (not_not_intro hc), hw]⟩
  · exact .inl ⟨hc, if_pos hc⟩

/-- a turn without an answer takes a word in hand that was not seen before -/
theorem unseen_again {r r' : Reader} (h : r.turn = .again r') : r.unseen = r'.unseen + 1 := by
  rcases r.turn_cases with ⟨-, ht⟩ | ⟨-, w, hw, ht⟩ | ⟨-, -, ht⟩
  · rw [h] at ht; cases ht
  · rw [h] at ht
    cases ht
    have := (List.getElem?_eq_some_iff.1 hw).1
    simp only [unseen]
    omega
  · rw [h] at ht; cases ht

/-- a call: turn after turn until there is an answer -/
def next (r : Reader) : Option Nat × Reader :=
  match _h : r.turn with
  | .done found after => (found, after)
  | .again r' => r'.next
termination_by r.unseen
decreasing_by
  have := unseen_again ‹_›
  omega

theorem next_of_done {r after : Reader} {found : Option Nat} (h : r.turn = .done found after) :
    r.next = (found, after) := by
  rw [next]
  split
  · next hdone => rw [h] at hdone; cases hdone; rfl
  · next hagain => rw [h] at hagain; cases hagain

theorem next_of_again {r r' : Reader} (h : r.turn = .again r') : r.next = r'.next := by
  rw [next]
  split
  · next hdone => rw [h] at hdone; cases hdone
  · next hagain => rw [h] at hagain; cases hagain; rfl

end Reader

end SubsetAlgebra.WordBuffer
