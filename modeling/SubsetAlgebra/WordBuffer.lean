/-
Sets of positions of any size, held as a list of 64-bit words: position `i` is bit `i % 64` of word `i / 64`.

A buffer grows when a position past its end is inserted and never shrinks, so two buffers with the same positions may
differ by trailing zero words; `toNat` and `toBits` do not see those. `Cursor.next` reads the positions off in ascending
order, passing over zero words; `Cursor.next_decreases` is why reading ends.
-/
import SubsetAlgebra.Word

namespace SubsetAlgebra

/-- little-endian words: bit `i % 64` of word `i / 64` is position `i` -/
structure WordBuffer where
  words : List UInt64
  deriving DecidableEq, Repr

namespace WordBuffer

open Word (width lowest dropLowest)

/-! ## Building -/

/-- the buffer without any word -/
def empty : WordBuffer := ⟨[]⟩

/-- sets bit `b` of word `k`, with zero words up to it where the list is too short -/
def setBit : List UInt64 → (k b : Nat) → List UInt64
  | [], 0, b => [Word.bit b]
  | [], k + 1, b => 0 :: setBit [] k b
  | w :: ws, 0, b => (w ||| Word.bit b) :: ws
  | w :: ws, k + 1, b => w :: setBit ws k b

/-- adds position `i`, growing the buffer up to its word -/
def insert (buf : WordBuffer) (i : Nat) : WordBuffer := ⟨setBit buf.words (i / width) (i % width)⟩

/-- the buffer grown from nothing by inserting the positions in turn -/
def ofPositions (ps : List Nat) : WordBuffer := ps.foldl insert empty

/-- the words of a number, least significant first and no more than it needs -/
def digits (m : Nat) : List UInt64 :=
  if _h : m = 0 then [] else UInt64.ofNat m :: digits (m / 2 ^ width)
termination_by m
decreasing_by exact Nat.div_lt_self (Nat.pos_of_ne_zero ‹_›) (by decide)

/-- the shortest buffer whose positions are the one-bits of `m` -/
def ofNat (m : Nat) : WordBuffer := ⟨digits m⟩

/-! ## Reading -/

/-- whether position `i` is in the buffer -/
def has (buf : WordBuffer) (i : Nat) : Bool :=
  match buf.words[i / width]? with
  | some w => Word.has w (i % width)
  | none => false

/-- the number whose one-bits are the positions of the buffer -/
def toNat (buf : WordBuffer) : Nat := buf.words.foldr (fun w m => w.toNat + 2 ^ width * m) 0

/-- the first `n` bits, lowest first: bits past `n` are dropped, missing ones are zero -/
def toBits (buf : WordBuffer) (n : Nat) : List Bool :=
  ((buf.words.flatMap Word.bits).rightpad n false).take n

/-- a buffer whose positions are being read off: the word in hand, its index and the words after it -/
structure Cursor where
  index : Nat
  current : UInt64
  rest : List UInt64
  deriving DecidableEq, Repr

/-- a cursor before the first position -/
def cursor (buf : WordBuffer) : Cursor :=
  match buf.words with
  | [] => ⟨0, 0, []⟩
  | w :: ws => ⟨0, w, ws⟩

namespace Cursor

/-- the next position at or after the word in hand, passing over words that hold none -/
def seek (index : Nat) (current : UInt64) : List UInt64 → Option Nat × Cursor
  | [] =>
    if current = 0 then (none, ⟨index, 0, []⟩)
    else (some (index * width + lowest current), ⟨index, dropLowest current, []⟩)
  | w :: ws =>
    if current = 0 then seek (index + 1) w ws
    else (some (index * width + lowest current), ⟨index, dropLowest current, w :: ws⟩)

/-- the next position and the cursor behind it; at the end there is none, now and ever after -/
def next (c : Cursor) : Option Nat × Cursor := seek c.index c.current c.rest

/-- the words still to be read, as one number that every step lowers -/
def weight (c : Cursor) : Nat := c.current.toNat + c.rest.foldr (fun w n => w.toNat + n) 0

theorem seek_decreases (ws : List UInt64) (k : Nat) (w : UInt64) {i : Nat} {after : Cursor}
    (h : seek k w ws = (some i, after)) : after.weight < w.toNat + ws.foldr (fun w n => w.toNat + n) 0 := by
  induction ws generalizing k w with
  | nil =>
    unfold seek at h
    split at h
    · cases h
    · next hw => cases h; simpa [weight] using Word.dropLowest_lt hw
  | cons v vs ih =>
    unfold seek at h
    split at h
    · next hw => subst hw; simpa using ih _ _ h
    · next hw => cases h; simpa [weight] using Word.dropLowest_lt hw

theorem next_decreases {c after : Cursor} {i : Nat} (h : c.next = (some i, after)) : after.weight < c.weight :=
  seek_decreases _ _ _ h

/-- every step the cursor still takes: the position it gives and the cursor behind it -/
def trace (c : Cursor) : List (Nat × Cursor) :=
  match _h : c.next with
  | (none, _) => []
  | (some i, after) => (i, after) :: after.trace
termination_by c.weight
decreasing_by exact next_decreases ‹_›

end Cursor

/-- the positions of a buffer, ascending -/
def positions (buf : WordBuffer) : List Nat := buf.cursor.trace.map (·.1)

/-! ## Numbers as words -/

/-- the first word of a number holds its low bits -/
theorem digits_head (m : Nat) : ((digits m).head?.getD 0).toNat = m % 2 ^ width := by
  rw [digits]
  split
  · next h => subst h; rfl
  · simp [width]

end WordBuffer

end SubsetAlgebra
