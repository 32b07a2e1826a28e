/-
Subsets of a domain of at most 64 elements, held in one word.

Bit `i` of the word is set iff the element at position `i` is a member. The type carries its two bounds: every position
of the domain has a bit, and no bit at or past the end of the domain is set. Each operation below keeps them, so shift
amounts stay below the width of a word and no operation has to check again.
-/
import SubsetAlgebra.Domain
import SubsetAlgebra.Mask

namespace SubsetAlgebra

open Word (width)

/-- a subset of a domain that fits in a word, as the word of its positions -/
structure CompactSubset (α : Type) [Element α] where
  domain : Domain α
  word : UInt64
  fits : domain.size ≤ width
  bounded : word.toNat < 2 ^ domain.size

namespace CompactSubset

variable {α : Type} [Element α]

/-! ## Building -/

/-- the same domain with another word -/
def withWord (s : CompactSubset α) (w : UInt64) (h : w.toNat < 2 ^ s.domain.size) : CompactSubset α :=
  { s with word := w, bounded := h }

theorem zero_lt (d : Domain α) : (0 : UInt64).toNat < 2 ^ d.size := Nat.two_pow_pos _

/-- the subset without members -/
def empty (d : Domain α) : Except Error (CompactSubset α) :=
  if h : d.size ≤ width then .ok ⟨d, 0, h, zero_lt d⟩ else .error (.wordOverflow d.size)

/-- the subset of all elements -/
def full (d : Domain α) : Except Error (CompactSubset α) :=
  match h : d.fullWord with
  | .error e => .error e
  | .ok w => .ok ⟨d, w, Domain.le_width_of_fullWord h, Domain.fullWord_lt h⟩

/-- the subset whose positions are the bits of `w` -/
def ofWord (d : Domain α) (w : UInt64) : Except Error (CompactSubset α) :=
  match h : Mask.acceptWord w d.size with
  | .error e => .error e
  | .ok v => .ok ⟨d, v, Mask.le_width_of_acceptWord h, Mask.acceptWord_lt h⟩

/-! ## Looking -/

/-- number of members -/
def size (s : CompactSubset α) : Nat := Word.count s.word

/-- whether there is no member -/
def isEmpty (s : CompactSubset α) : Bool := s.word == 0

/-- whether the element at this position is a member -/
def containsPosition (s : CompactSubset α) (p : Nat) : Bool := Word.has s.word p

/-- whether an element equal to `e` is a member -/
def contains (s : CompactSubset α) (e : α) : Bool :=
  match s.domain.indexOf e with
  | some i => s.containsPosition i
  | none => false

/-- the positions of the members, ascending -/
def positions (s : CompactSubset α) : List Nat := Word.positions s.word

/-- the members in domain order -/
def toList (s : CompactSubset α) : List α := s.domain.select s.positions

/-! ## Changing -/

/-- adds an element; the flag says whether it was not a member before -/
def insert (s : CompactSubset α) (e : α) : Except Error (CompactSubset α × Bool) :=
  match h : s.domain.indexOf e with
  | none => .error .foreignElement
  | some i =>
    .ok (s.withWord (s.word ||| Word.bit i) (Word.or_lt s.bounded (Word.bit_lt (Domain.indexOf_lt h) s.fits)),
      s.word &&& Word.bit i == 0)

/-- removes an element; the flag says whether it was a member before -/
def erase (s : CompactSubset α) (e : α) : CompactSubset α × Bool :=
  match s.domain.indexOf e with
  | none => (s, false)
  | some i => (s.withWord (s.word &&& ~~~Word.bit i) (Word.and_lt_left _ s.bounded), s.word &&& Word.bit i != 0)

/-- removes every member -/
def clear (s : CompactSubset α) : CompactSubset α := s.withWord 0 (zero_lt s.domain)

/-- the elements of the domain that are not members -/
def complement (s : CompactSubset α) : CompactSubset α :=
  s.withWord (~~~s.word &&& Word.low s.domain.size) (Word.and_lt_right _ (Word.low_lt s.fits))

/-! ## Other forms -/

/-- the members as a word -/
def toWord (s : CompactSubset α) : Except Error UInt64 := .ok s.word

/-- the members as an integer mask -/
def toMask (s : CompactSubset α) : Int := s.word.toNat

/-- the members as one bit for each element of the domain -/
def toBits (s : CompactSubset α) : List Bool := WordBuffer.toBits ⟨[s.word]⟩ s.domain.size

/-- the members without the domain -/
def toMembers (s : CompactSubset α) : Members α := Members.ofList s.toList

/-- whether both hold the same positions of equal domains -/
def same (s t : CompactSubset α) : Bool := s.word == t.word && s.domain.same t.domain

/-! ## Members belong to the domain -/

theorem lt_of_mem_positions {s : CompactSubset α} {i : Nat} (h : i ∈ s.positions) : i < s.domain.size :=
  Word.lt_of_mem_positions s.bounded h

theorem mem_of_mem_toMembers {s : CompactSubset α} {e : α} (h : e ∈ s.toMembers.toList) : e ∈ s.domain.elements :=
  Domain.mem_of_mem_select (Members.mem_ofList h)

end CompactSubset

end SubsetAlgebra
