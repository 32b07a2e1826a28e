/-
Cursors that are called over and over.

A call to a cursor gives a position or, when none is left, nothing; it can be made again at any time. `Drains next rest`
says that `rest` is the list of what is still to come: a call gives its head and leaves its tail. Then call number `k`
gives item number `k` of the list, and every call behind the last item gives nothing (`Drains.answer`).

Three cursors are shown to read what they should. The one over a single word knows how many positions are left, which is
the population count of the word in hand. The one over a list of words passes over words without positions. A `Reader`
takes a word in hand by its index, and each of its calls is a loop of turns. All turns of a call but one are paid for by
words that were unseen (`Takes.cost`), so that any number of calls take no more turns together than there are calls and
words. Behind the last word the index goes on growing, by one with each call (`index_afterCalls`).
-/
import Mathlib.Algebra.BigOperators.Group.Finset.Basic
import SubsetAlgebra.Proofs.GuardedWords
import SubsetAlgebra.WordBuffer.Reader

namespace SubsetAlgebra

open Word (width lowest dropLowest)

/-! ## Calls -/

namespace Calls

variable {σ : Type}

/-- the cursor behind `k` calls -/
def behind (next : σ → Option Nat × σ) (s : σ) (k : Nat) : σ := (fun s => (next s).2)^[k] s

/-- what call number `k` gives, counted from zero -/
def answer (next : σ → Option Nat × σ) (s : σ) (k : Nat) : Option Nat := (next (behind next s k)).1

theorem behind_succ (next : σ → Option Nat × σ) (s : σ) (k : Nat) :
    behind next s (k + 1) = (next (behind next s k)).2 := Function.iterate_succ_apply' _ k s

/-- `rest` is what is still to come: a call gives the first of it and leaves the others -/
structure Drains (next : σ → Option Nat × σ) (rest : σ → List Nat) : Prop where
  head : ∀ s, (next s).1 = (rest s).head?
  tail : ∀ s, rest (next s).2 = (rest s).tail

namespace Drains

variable {next : σ → Option Nat × σ} {rest : σ → List Nat}

theorem behind (h : Drains next rest) (s : σ) (k : Nat) : rest (behind next s k) = (rest s).drop k := by
  induction k with
  | zero => rfl
  | succ k ih => rw [behind_succ, h.tail, ih, List.tail_drop]

/-- call after call gives the list, and then nothing for ever -/
theorem answer (h : Drains next rest) (s : σ) (k : Nat) : answer next s k = (rest s)[k]? := by
  rw [Calls.answer, h.head, h.behind, List.head?_drop]

end Drains

end Calls

open Calls

/-! ## One word -/

namespace Word

theorem has_eq_getLsbD (w : UInt64) (i : Nat) : has w i = w.toBitVec.getLsbD i := has_eq_testBit w i

theorem cpopNatRec_eq_countP {n : Nat} (x : BitVec n) (k : Nat) :
    x.cpopNatRec k 0 = (List.range k).countP x.getLsbD := by
  induction k with
  | zero => rfl
  | succ k ih =>
    rw [BitVec.cpopNatRec_succ, BitVec.cpopNatRec_eq, ih, List.range_succ, List.countP_append, List.countP_singleton]
    cases x.getLsbD k <;> rfl

/-- the number of positions is the population count -/
theorem count_eq_cpop (w : UInt64) : count w = w.toBitVec.cpop.toNat := by
  rw [BitVec.toNat_cpop, cpopNatRec_eq_countP, count]
  congr 1
  funext i
  exact has_eq_getLsbD w i

/-- the lowest position is the number of trailing zeros -/
theorem lowest_eq_ctz {w : UInt64} (h : w ≠ 0) : lowest w = w.toBitVec.ctz.toNat := by
  have hne : w.toBitVec ≠ 0#64 := fun e => h (UInt64.toBitVec_inj.1 e)
  have hset : has w w.toBitVec.ctz.toNat = true := by
    rw [has_eq_getLsbD]
    exact BitVec.getLsbD_true_ctz_of_ne_zero hne
  have hge : ¬ lowest w < w.toBitVec.ctz.toNat := fun hlt => by
    have hclear := BitVec.getLsbD_false_of_lt_ctz hlt
    rw [← has_eq_getLsbD, has_lowest h] at hclear
    cases hclear
  have := lowest_le_of_has hset
  omega

namespace Cursor

theorem drains : Drains next fun c => positions c.rest where
  head c := by
    unfold next
    split_ifs with h
    · rw [h, positions_zero]; rfl
    · rw [positions_of_ne_zero h]; rfl
  tail c := by
    unfold next
    split_ifs with h
    · show positions c.rest = _
      rw [h, positions_zero]; rfl
    · rw [positions_of_ne_zero h]; rfl

theorem remaining_eq (c : Cursor) : c.remaining = (positions c.rest).length := count_eq_length c.rest

theorem remaining_behind (c : Cursor) (k : Nat) : (behind next c k).remaining = c.remaining - k := by
  rw [remaining_eq, drains.behind c k, List.length_drop, remaining_eq]

/-- call number `k` has an answer iff more than `k` positions are left -/
theorem answer_isSome (c : Cursor) (k : Nat) : (answer next c k).isSome = decide (k < c.remaining) := by
  rw [drains.answer, remaining_eq]
  by_cases hk : k < (positions c.rest).length
  · rw [List.getElem?_eq_getElem hk, decide_eq_true hk]; rfl
  · rw [List.getElem?_eq_none (Nat.le_of_not_lt hk), decide_eq_false hk]; rfl

theorem next_isSome (c : Cursor) : c.next.1.isSome = decide (0 < c.remaining) := c.answer_isSome 0

theorem remaining_next (c : Cursor) : c.next.2.remaining = c.remaining - 1 := c.remaining_behind 1

end Cursor

end Word

/-! ## A list of words -/

namespace WordBuffer

/-- the positions of a buffer straight from its bits, in ascending order -/
def listed (buf : WordBuffer) : List Nat := (List.range (width * buf.words.length)).filter buf.has

theorem mem_listed {buf : WordBuffer} {i : Nat} : i ∈ buf.listed ↔ buf.has i = true := by
  rw [listed, List.mem_filter, List.mem_range]
  exact and_iff_right_of_imp lt_of_has

theorem positions_eq_listed (buf : WordBuffer) : buf.positions = buf.listed :=
  eq_filter_range buf.positions_ascending fun _ => mem_positions.trans (and_iff_right_of_imp lt_of_has).symm

/-- a word alone is a list of one word -/
theorem positions_singleton (w : UInt64) : positions ⟨[w]⟩ = Word.positions w :=
  eq_of_ascending (positions_ascending _) (Word.positions_ascending w) fun i => by
    rw [mem_positions, Word.mem_positions, has_singleton]

namespace Cursor

theorem drains : Drains next fun c => c.trace.map (·.1) where
  head c := by
    obtain ⟨found, after, h⟩ : ∃ found after, c.next = (found, after) := ⟨_, _, rfl⟩
    cases found with
    | none => rw [h, trace_of_next_none h]; rfl
    | some i => rw [h, trace_of_next_some h]; rfl
  tail c := by
    obtain ⟨found, after, h⟩ : ∃ found after, c.next = (found, after) := ⟨_, _, rfl⟩
    cases found with
    | none => rw [h, trace_of_next_none h, trace_of_next_none (next_end h)]; rfl
    | some i => rw [h, trace_of_next_some h]; rfl

end Cursor

theorem answer_cursor (buf : WordBuffer) (k : Nat) : answer Cursor.next buf.cursor k = buf.listed[k]? := by
  rw [Cursor.drains.answer, ← positions_eq_listed, positions]

/-! ## A list of words and an index -/

namespace Reader

/-- the loop of a call comes to this answer in its turn number `n` -/
inductive Takes : Reader → Nat → Option Nat × Reader → Prop where
  | done {r after : Reader} {found : Option Nat} (h : r.turn = .done found after) : Takes r 1 (found, after)
  | again {r r' : Reader} {n : Nat} {a : Option Nat × Reader} (h : r.turn = .again r') (hrest : Takes r' n a) :
    Takes r (n + 1) a

/-- every call ends, wherever the reader stands -/
theorem exists_takes (r : Reader) : ∃ n, Takes r n r.next := by
  cases h : r.turn with
  | done found after => exact ⟨1, next_of_done h ▸ .done h⟩
  | again r' =>
    have := unseen_again h
    obtain ⟨n, hn⟩ := exists_takes r'
    exact ⟨n + 1, .again h (next_of_again h ▸ hn)⟩
termination_by r.unseen

/-- all turns of a call but one are paid for by words that were unseen -/
theorem Takes.cost {r : Reader} {n : Nat} {a : Option Nat × Reader} (h : Takes r n a) :
    n + a.2.unseen = r.unseen + 1 := by
  induction h with
  | @done r after found h =>
    rcases r.turn_cases with ⟨-, ht⟩ | ⟨-, w, -, ht⟩ | ⟨-, hlen, ht⟩
    · rw [h] at ht
      cases ht
      exact Nat.add_comm ..
    · rw [h] at ht; cases ht
    · -- no word is left to be seen, before the call or behind it
      rw [h] at ht
      cases ht
      simp only [unseen]
      omega
  | again h _ ih =>
    have := unseen_again h
    omega

/-! ## What the reader reads -/

/-- the cursor at the same place -/
def cursor (r : Reader) : Cursor := ⟨r.index, r.current, r.words.drop (r.index + 1)⟩

/-- the positions still to come -/
def rest (r : Reader) : List Nat := r.cursor.trace.map (·.1)

theorem rest_take {r : Reader} (h : r.current ≠ 0) :
    r.rest = (r.index * width + lowest r.current) :: rest { r with current := dropLowest r.current } := by
  rw [rest, cursor, Guarded.trace_take r.index h, List.map_cons]
  rfl

theorem rest_skip {r : Reader} (h : r.current = 0) {w : UInt64} (hw : r.words[r.index + 1]? = some w) :
    r.rest = rest { r with index := r.index + 1, current := w } := by
  obtain ⟨hlt, hget⟩ := List.getElem?_eq_some_iff.1 hw
  rw [rest, cursor, h, List.drop_eq_getElem_cons hlt, hget, Guarded.trace_skip]
  rfl

theorem rest_end {r : Reader} (h : r.current = 0) (hlen : r.words.length ≤ r.index + 1) : r.rest = [] := by
  rw [rest, cursor, h, List.drop_of_length_le hlen, Guarded.trace_end]
  rfl

theorem next_rest (r : Reader) : r.next.1 = r.rest.head? ∧ r.next.2.rest = r.rest.tail := by
  rcases r.turn_cases with ⟨hc, ht⟩ | ⟨hc, w, hw, ht⟩ | ⟨hc, hlen, ht⟩
  · rw [next_of_done ht, rest_take hc]
    exact ⟨rfl, rfl⟩
  · have := unseen_again ht
    rw [next_of_again ht, rest_skip hc hw]
    exact next_rest _
  · rw [next_of_done ht, rest_end hc hlen]
    exact ⟨rfl, rest_end hc (Nat.le_succ_of_le hlen)⟩
termination_by r.unseen

theorem drains : Drains next rest := ⟨fun r => (next_rest r).1, fun r => (next_rest r).2⟩

theorem rest_start (ws : List UInt64) : (start ws).rest = positions ⟨ws⟩ := by
  cases ws <;> rfl

theorem answer_start (ws : List UInt64) (k : Nat) : answer next (start ws) k = (listed ⟨ws⟩)[k]? := by
  rw [drains.answer, rest_start, positions_eq_listed]

/-! ## Turns and index over many calls -/

/-- so many calls take as many turns in all, and one more for each word that has come in hand -/
theorem sum_turns {r : Reader} {n : Nat → Nat} (h : ∀ k, Takes (behind next r k) (n k) (next (behind next r k)))
    (k : Nat) : (∑ j ∈ Finset.range k, n j) + (behind next r k).unseen = r.unseen + k := by
  induction k with
  | zero => exact Nat.zero_add _
  | succ k ih =>
    have hcost := (h k).cost
    rw [← behind_succ] at hcost
    rw [Finset.sum_range_succ]
    omega

theorem index_next (r : Reader) : r.next.2.words = r.words ∧ r.next.2.index ≤ max (r.index + 1) r.words.length := by
  rcases r.turn_cases with ⟨-, ht⟩ | ⟨-, w, hw, ht⟩ | ⟨-, -, ht⟩
  · rw [next_of_done ht]
    exact ⟨rfl, Nat.le_trans (Nat.le_succ _) (Nat.le_max_left ..)⟩
  · have := unseen_again ht
    have hlt := (List.getElem?_eq_some_iff.1 hw).1
    obtain ⟨hwords, hindex⟩ := index_next { r with index := r.index + 1, current := w }
    rw [next_of_again ht]
    refine ⟨hwords, ?_⟩
    simp only at hindex
    omega
  · rw [next_of_done ht]
    exact ⟨rfl, Nat.le_max_left ..⟩
termination_by r.unseen

/-- the reader of these words behind `k` calls -/
def afterCalls (ws : List UInt64) (k : Nat) : Reader := behind next (start ws) k

theorem index_afterCalls (ws : List UInt64) (k : Nat) :
    (afterCalls ws k).words = ws ∧ (afterCalls ws k).index ≤ ws.length + k := by
  induction k with
  | zero => exact ⟨rfl, Nat.zero_le _⟩
  | succ k ih =>
    obtain ⟨hwords, hindex⟩ := index_next (afterCalls ws k)
    rw [ih.1] at hwords hindex
    rw [afterCalls, behind_succ]
    exact ⟨hwords, Nat.le_trans hindex (by omega)⟩

end Reader

/-! ## Main result -/

/-- a list of words, read by as many calls as one likes -/
structure Enumerated (ws : List UInt64) : Prop where
  ascending : (listed ⟨ws⟩).Pairwise (· < ·)
  mem_listed : ∀ i, i ∈ listed ⟨ws⟩ ↔ ∃ w, ws[i / 64]? = some w ∧ w.toNat.testBit (i % 64) = true
  /-- call after call gives the positions, and then nothing for ever -/
  cursor : ∀ k, answer Cursor.next (cursor ⟨ws⟩) k = (listed ⟨ws⟩)[k]?
  reader : ∀ k, answer Reader.next (Reader.start ws) k = (listed ⟨ws⟩)[k]?
  /-- how many turns each call takes, and the first `k` calls in all -/
  turns : ∃ n : Nat → Nat,
    (∀ k, Reader.Takes (Reader.afterCalls ws k) (n k) (Reader.afterCalls ws k).next) ∧
    (∀ k, n k ≤ max 1 ws.length) ∧ ∀ k, ∑ j ∈ Finset.range k, n j ≤ k + ws.length
  /-- the index, which goes on growing behind the last word, is bounded by the number of calls -/
  index : ∀ k, (Reader.afterCalls ws k).index ≤ ws.length + k

theorem enumerated (ws : List UInt64) : Enumerated ws where
  ascending := by
    rw [← positions_eq_listed]
    exact positions_ascending ⟨ws⟩
  mem_listed i := WordBuffer.mem_listed.trans has_iff_testBit
  cursor := answer_cursor ⟨ws⟩
  reader := Reader.answer_start ws
  turns := by
    choose n hn using fun k => (Reader.afterCalls ws k).exists_takes
    refine ⟨n, hn, fun k => ?_, fun k => ?_⟩
    · have hcost := (hn k).cost
      have hunseen : (Reader.afterCalls ws k).unseen ≤ ws.length - 1 := by
        rw [Reader.unseen, (Reader.index_afterCalls ws k).1]
        omega
      omega
    · have hsum := Reader.sum_turns hn k
      have hstart : (Reader.start ws).unseen = ws.length - 1 := rfl
      omega
  index k := (Reader.index_afterCalls ws k).2

/-- a single word, read by as many calls as one likes -/
structure Counted (c : Word.Cursor) : Prop where
  /-- the answers are those for a list of this one word -/
  asList : ∀ k, answer Word.Cursor.next c k = answer Cursor.next (cursor ⟨[c.rest]⟩) k
  next : c.rest ≠ 0 → c.next = (some c.rest.toBitVec.ctz.toNat, ⟨c.rest &&& (c.rest - 1)⟩)
  remaining : c.remaining = c.rest.toBitVec.cpop.toNat
  /-- behind any calls, so many more calls have an answer as the cursor tells -/
  left : ∀ k j, (answer Word.Cursor.next (behind Word.Cursor.next c k) j).isSome =
    decide (j < (behind Word.Cursor.next c k).remaining)
  falls : ∀ i after, c.next = (some i, after) → after.remaining + 1 = c.remaining
  ends : c.next.1 = none ↔ c.remaining = 0

theorem counted (c : Word.Cursor) : Counted c where
  asList k := by
    rw [Word.Cursor.drains.answer, answer_cursor, ← positions_eq_listed, positions_singleton]
  next h := by
    rw [Word.Cursor.next, if_neg h, Word.lowest_eq_ctz h]
    rfl
  remaining := Word.count_eq_cpop c.rest
  left k := Word.Cursor.answer_isSome _
  falls i after h := by
    have hsome := c.next_isSome
    have hfall := c.remaining_next
    rw [h, Option.isSome_some, eq_comm, decide_eq_true_eq] at hsome
    rw [h] at hfall
    simp only at hfall
    omega
  ends := by
    rw [← Option.not_isSome_iff_eq_none, c.next_isSome, decide_eq_true_eq]
    omega

/-- **Cursors end and give exactly the positions.** Called over and over on any words, a cursor gives the positions of
the words in ascending order, each once, and from then on nothing. Wherever it stands, the loop of a call comes to an
end, after no more turns than there are unseen words and one. A cursor over a single word gives what one over the list
of that word gives, and tells at any time how many positions are still to come: as many as the word has at first, one
less after each, and none at the end. -/
theorem cursors_end_and_enumerate :
    (∀ ws : List UInt64, Enumerated ws) ∧
    (∀ r : Reader, ∃ n, Reader.Takes r n r.next ∧ n ≤ r.unseen + 1) ∧
    ∀ w : UInt64, ∀ k, Counted (behind Word.Cursor.next ⟨w⟩ k) := by
  refine ⟨enumerated, fun r => ?_, fun _ _ => counted _⟩
  obtain ⟨n, hn⟩ := r.exists_takes
  have := hn.cost
  exact ⟨n, hn, by omega⟩

/-- words without positions are passed over, also the last one -/
example : positions ⟨[0, 0, 5, 0]⟩ = [128, 130] := by
  rw [positions_eq_listed]
  decide

end WordBuffer

end SubsetAlgebra
