/-
What a buffer of words says of each position.

`has` is the view of a buffer, as it is of a word; `has_cons` takes it apart word by word. Inserting sets one position
and leaves the others (`has_insert`), so a buffer grown from positions holds exactly those (`has_ofPositions`). The
number, the bits and the positions read from a buffer all agree with the view: `testBit_toNat`, `toBits_eq`,
`mem_positions` with `positions_ascending`; trailing zero words are seen by none of them. A number cut into words is put
together again by `toNat_ofNat`.

Reading goes through a cursor: `Cursor.has` says which positions are still to come, `next_some` that a step gives the
least of them and keeps all others.
-/
import SubsetAlgebra.Proofs.WordBits
import SubsetAlgebra.WordBuffer

namespace SubsetAlgebra.WordBuffer

open Word (width lowest dropLowest)

/-! ## Word by word -/

theorem has_nil (i : Nat) : has ⟨[]⟩ i = false := rfl

theorem has_cons (w : UInt64) (ws : List UInt64) (i : Nat) :
    has ⟨w :: ws⟩ i = if i < width then Word.has w i else has ⟨ws⟩ (i - width) := by
  unfold has
  split_ifs with hi
  · simp [Nat.div_eq_of_lt hi, Nat.mod_eq_of_lt hi]
  · obtain ⟨j, rfl⟩ : ∃ j, i = j + width := ⟨i - width, by omega⟩
    simp [Nat.add_div_right _ (show 0 < width by decide)]

theorem has_singleton (w : UInt64) (i : Nat) : has ⟨[w]⟩ i = Word.has w i := by
  rw [has_cons, has_nil]
  split_ifs with hi
  · rfl
  · simp [Word.has, hi]

/-- a position is held iff its bit is set in its word -/
theorem has_iff_testBit {buf : WordBuffer} {i : Nat} :
    buf.has i = true ↔ ∃ w, buf.words[i / width]? = some w ∧ w.toNat.testBit (i % width) = true := by
  unfold has
  cases hw : buf.words[i / width]? with
  | none => simp
  | some w => simp [Word.has_eq_testBit]

theorem lt_length_of_has {buf : WordBuffer} {i : Nat} (h : buf.has i = true) : i / width < buf.words.length := by
  obtain ⟨w, hw, -⟩ := has_iff_testBit.1 h
  exact (List.getElem?_eq_some_iff.1 hw).1

/-- there is no position behind the last word -/
theorem lt_of_has {buf : WordBuffer} {i : Nat} (h : buf.has i = true) : i < width * buf.words.length := by
  rw [Nat.mul_comm]
  exact (Nat.div_lt_iff_lt_mul (by decide)).1 (lt_length_of_has h)

/-! ## Growing -/

theorem has_setBit {b : Nat} (hb : b < width) (ws : List UInt64) (k i : Nat) :
    has ⟨setBit ws k b⟩ i = (has ⟨ws⟩ i || decide (k * width + b = i)) := by
  have hw : width = 64 := rfl
  induction k generalizing ws i with
  | zero =>
    cases ws with
    | nil =>
      rw [setBit, has_singleton, Word.has_bit hb, has_nil]
      simp
    | cons w ws =>
      rw [setBit, has_cons, has_cons]
      split_ifs with hi
      · rw [Word.has_or, Word.has_bit hb]; simp
      · simp [show b ≠ i by omega]
  | succ k ih =>
    have hshift : i ≥ width → (decide (k * width + b = i - width) = decide ((k + 1) * width + b = i)) := by
      intro hi
      rw [decide_eq_decide, Nat.succ_mul]
      omega
    cases ws with
    | nil =>
      rw [setBit, has_cons, ih]
      split_ifs with hi
      · simp [has_nil, Word.has_zero, Nat.succ_mul]; omega
      · rw [has_nil, has_nil, hshift (by omega)]
    | cons w ws =>
      rw [setBit, has_cons, has_cons, ih]
      split_ifs with hi
      · simp [Nat.succ_mul]; omega
      · rw [hshift (by omega)]

/-- inserting sets one position and no other -/
theorem has_insert (buf : WordBuffer) (i j : Nat) : (buf.insert i).has j = (buf.has j || decide (i = j)) := by
  rw [insert, has_setBit (Nat.mod_lt _ (by decide))]
  have : i / width * width + i % width = i := by rw [Nat.mul_comm, Nat.div_add_mod]
  rw [this]

theorem has_foldl_insert (ps : List Nat) (buf : WordBuffer) (j : Nat) :
    (ps.foldl insert buf).has j = (buf.has j || decide (j ∈ ps)) := by
  induction ps generalizing buf with
  | nil => simp
  | cons i ps ih =>
    rw [List.foldl_cons, ih, has_insert]
    simp only [List.mem_cons, Bool.decide_or, Bool.or_assoc, eq_comm]

theorem has_ofPositions (ps : List Nat) (j : Nat) : (ofPositions ps).has j = decide (j ∈ ps) := by
  rw [ofPositions, has_foldl_insert]
  rfl

/-! ## The buffer as a number -/

theorem toNat_cons (w : UInt64) (ws : List UInt64) : toNat ⟨w :: ws⟩ = w.toNat + 2 ^ width * toNat ⟨ws⟩ := rfl

/-- zero words behind add nothing to the number -/
theorem toNat_append_zeros (ws : List UInt64) (k : Nat) : toNat ⟨ws ++ List.replicate k 0⟩ = toNat ⟨ws⟩ := by
  have hzeros : toNat ⟨List.replicate k 0⟩ = 0 := by
    induction k with
    | zero => rfl
    | succ k ih => rw [List.replicate_succ, toNat_cons, ih]; rfl
  induction ws with
  | nil => exact hzeros
  | cons w ws ih => rw [List.cons_append, toNat_cons, ih, toNat_cons]

theorem digits_zero : digits 0 = [] := by
  rw [digits, dif_pos rfl]

theorem testBit_toNat (buf : WordBuffer) (i : Nat) : buf.toNat.testBit i = buf.has i := by
  obtain ⟨ws⟩ := buf
  induction ws generalizing i with
  | nil => simp [toNat, has_nil]
  | cons w ws ih =>
    have hw : w.toNat < 2 ^ width := w.toNat_lt
    rw [toNat_cons, Nat.add_comm, Nat.testBit_two_pow_mul_add _ hw, has_cons, ih, Word.has_eq_testBit]

theorem toNat_digits (m : Nat) : toNat ⟨digits m⟩ = m := by
  induction m using Nat.strongRecOn with
  | _ m ih =>
    rw [digits]
    split_ifs with hm
    · rw [hm]; rfl
    · have hlt : m / 2 ^ width < m := Nat.div_lt_self (Nat.pos_of_ne_zero hm) (by decide)
      calc toNat ⟨UInt64.ofNat m :: digits (m / 2 ^ width)⟩
          = m % 2 ^ width + 2 ^ width * toNat ⟨digits (m / 2 ^ width)⟩ := by rw [toNat_cons, UInt64.toNat_ofNat']; rfl
        _ = m % 2 ^ width + 2 ^ width * (m / 2 ^ width) := by rw [ih _ hlt]
        _ = m := Nat.mod_add_div m _

/-- the words of a number make up the number again -/
theorem toNat_ofNat (m : Nat) : (ofNat m).toNat = m := toNat_digits m

theorem has_ofNat (m i : Nat) : (ofNat m).has i = m.testBit i := by
  rw [← testBit_toNat, toNat_ofNat]

/-- the first word of a number has its positions below the width -/
theorem has_head_ofNat (m i : Nat) :
    Word.has ((ofNat m).words.head?.getD 0) i = (decide (i < width) && m.testBit i) := by
  rw [Word.has_eq_testBit, ofNat, digits_head, Nat.testBit_mod_two_pow]

/-! ## The buffer as bits -/

theorem getD_flatMap_bits (ws : List UInt64) (i : Nat) : (ws.flatMap Word.bits)[i]?.getD false = has ⟨ws⟩ i := by
  induction ws generalizing i with
  | nil => rfl
  | cons w ws ih =>
    have hlen : (Word.bits w).length = width := by simp [Word.bits]
    rw [List.flatMap_cons, has_cons]
    split_ifs with hi
    · rw [List.getElem?_append_left (by omega)]
      simp [Word.bits, hi]
    · rw [List.getElem?_append_right (by omega), ih, hlen]

/-- exactly the first `n` positions are told, one bit for each -/
theorem toBits_eq (buf : WordBuffer) (n : Nat) : buf.toBits n = (List.range n).map buf.has := by
  apply List.ext_getElem
  · simp [toBits, List.rightpad]; omega
  · intro i h1 h2
    have hi : i < n := by simpa using h2
    have hbit := getD_flatMap_bits buf.words i
    simp only [toBits, List.getElem_take, List.getElem_map, List.getElem_range, List.rightpad, List.getElem_append]
    split_ifs with hl
    · rwa [List.getElem?_eq_getElem hl] at hbit
    · rw [List.getElem?_eq_none (Nat.le_of_not_lt hl)] at hbit
      simp [← hbit]

/-! ## The buffer as positions -/

namespace Cursor

/-- whether position `i` is still to come -/
def has (c : Cursor) (i : Nat) : Bool :=
  decide (c.index * width ≤ i) && WordBuffer.has ⟨c.current :: c.rest⟩ (i - c.index * width)

/-- passing over a word without positions -/
theorem has_skip (k : Nat) (w : UInt64) (ws : List UInt64) (i : Nat) :
    Cursor.has ⟨k, 0, w :: ws⟩ i = Cursor.has ⟨k + 1, w, ws⟩ i := by
  simp only [Cursor.has, has_cons (0 : UInt64), Word.has_zero]
  split_ifs with hi
  · have : ¬ (k + 1) * width ≤ i ∨ ¬ k * width ≤ i := by rw [Nat.succ_mul]; omega
    rcases this with h | h
    · simp [h]
    · simp [show ¬ (k + 1) * width ≤ i by rw [Nat.succ_mul]; omega]
  · have he : i - (k + 1) * width = i - k * width - width := by rw [Nat.succ_mul]; omega
    have hd : decide (k * width ≤ i) = decide ((k + 1) * width ≤ i) := by
      rw [decide_eq_decide, Nat.succ_mul]; omega
    rw [he, hd]

/-- a step inside a word gives its lowest position and keeps all others -/
theorem has_take {k : Nat} {w : UInt64} (h : w ≠ 0) (ws : List UInt64) (j : Nat) :
    Cursor.has ⟨k, dropLowest w, ws⟩ j = (Cursor.has ⟨k, w, ws⟩ j && decide (j ≠ k * width + lowest w)) := by
  have hl : lowest w < width := Word.lt_width_of_has (Word.has_lowest h)
  simp only [Cursor.has, has_cons, Word.has_dropLowest h]
  by_cases hk : k * width ≤ j
  · split_ifs with hj
    · have : decide (j - k * width ≠ lowest w) = decide (j ≠ k * width + lowest w) := by
        rw [decide_eq_decide]; omega
      rw [this, Bool.and_assoc]
    · simp [show j ≠ k * width + lowest w by omega]
  · simp [hk]

theorem lowest_le {k : Nat} {w : UInt64} {ws : List UInt64} {j : Nat} (h : Cursor.has ⟨k, w, ws⟩ j = true)
    (hw : w ≠ 0) : k * width + lowest w ≤ j := by
  simp only [Cursor.has, Bool.and_eq_true, decide_eq_true_eq, has_cons] at h
  obtain ⟨hk, hj⟩ := h
  split_ifs at hj with hlt
  · have := Word.lowest_le_of_has hj
    omega
  · have := Word.lt_width_of_has (Word.has_lowest hw)
    omega

theorem has_first {k : Nat} {w : UInt64} (h : w ≠ 0) (ws : List UInt64) :
    Cursor.has ⟨k, w, ws⟩ (k * width + lowest w) = true := by
  have hl : lowest w < width := Word.lt_width_of_has (Word.has_lowest h)
  simp [Cursor.has, has_cons, hl, Word.has_lowest h]

theorem next_none {c after : Cursor} (h : c.next = (none, after)) (i : Nat) : c.has i = false := by
  obtain ⟨k, w, ws⟩ := c
  unfold next at h
  induction ws generalizing k w with
  | nil =>
    unfold seek at h
    split at h
    · next hw => subst hw; simp [Cursor.has, has_singleton, Word.has_zero]
    · cases h
  | cons v vs ih =>
    unfold seek at h
    split at h
    · next hw => subst hw; rw [has_skip]; exact ih _ _ h
    · cases h

/-- a step gives the least position still to come and keeps all others -/
theorem next_some {c after : Cursor} {i : Nat} (h : c.next = (some i, after)) :
    c.has i = true ∧ (∀ j, c.has j = true → i ≤ j) ∧ ∀ j, after.has j = (c.has j && decide (j ≠ i)) := by
  obtain ⟨k, w, ws⟩ := c
  unfold next at h
  induction ws generalizing k w with
  | nil =>
    unfold seek at h
    split at h
    · cases h
    · next hw => cases h; exact ⟨has_first hw _, fun _ hj => lowest_le hj hw, has_take hw _⟩
  | cons v vs ih =>
    unfold seek at h
    split at h
    · next hw => subst hw; simpa only [has_skip] using ih _ _ h
    · next hw => cases h; exact ⟨has_first hw _, fun _ hj => lowest_le hj hw, has_take hw _⟩

/-- a call that gives nothing leaves the cursor where the next call gives nothing either -/
theorem next_end {c after : Cursor} (h : c.next = (none, after)) : after.next = (none, after) := by
  obtain ⟨k, w, ws⟩ := c
  unfold next at h
  induction ws generalizing k w with
  | nil =>
    unfold seek at h
    split at h
    · cases h; rfl
    · cases h
  | cons v vs ih =>
    unfold seek at h
    split at h
    · exact ih _ _ h
    · cases h

theorem trace_of_next_none {c after : Cursor} (h : c.next = (none, after)) : c.trace = [] := by
  rw [trace]
  split
  · rfl
  · next hsome => rw [h] at hsome; cases hsome

theorem trace_of_next_some {c after : Cursor} {i : Nat} (h : c.next = (some i, after)) :
    c.trace = (i, after) :: after.trace := by
  rw [trace]
  split
  · next hnone => rw [h] at hnone; cases hnone
  · next hsome => rw [h] at hsome; cases hsome; rfl

theorem mem_trace {c : Cursor} {i : Nat} : i ∈ c.trace.map (·.1) ↔ c.has i = true := by
  rw [trace]
  split
  · next after h => simp [next_none h]
  · next first after h =>
    obtain ⟨hfirst, -, hafter⟩ := next_some h
    have := next_decreases h
    rw [List.map_cons, List.mem_cons, mem_trace, hafter]
    by_cases hi : i = first
    · subst hi; simp [hfirst]
    · simp [hi]
termination_by c.weight

theorem trace_ascending (c : Cursor) : (c.trace.map (·.1)).Pairwise (· < ·) := by
  rw [trace]
  split
  · exact List.Pairwise.nil
  · next first after h =>
    obtain ⟨-, hleast, hafter⟩ := next_some h
    have := next_decreases h
    refine List.pairwise_cons.2 ⟨fun i hi => ?_, trace_ascending after⟩
    rw [mem_trace, hafter, Bool.and_eq_true, decide_eq_true_eq] at hi
    exact Nat.lt_of_le_of_ne (hleast i hi.1) (Ne.symm hi.2)
termination_by c.weight

end Cursor

theorem has_cursor (buf : WordBuffer) (i : Nat) : buf.cursor.has i = buf.has i := by
  obtain ⟨ws⟩ := buf
  cases ws with
  | nil => simp [cursor, Cursor.has, has_singleton, has_nil, Word.has_zero]
  | cons w ws => simp [cursor, Cursor.has]

/-- reading a buffer gives its positions and no others -/
theorem mem_positions {buf : WordBuffer} {i : Nat} : i ∈ buf.positions ↔ buf.has i = true := by
  rw [positions, Cursor.mem_trace, has_cursor]

theorem positions_ascending (buf : WordBuffer) : buf.positions.Pairwise (· < ·) := Cursor.trace_ascending _

end SubsetAlgebra.WordBuffer
