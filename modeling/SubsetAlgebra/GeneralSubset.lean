/-
Subsets of a domain of any size, held as their members.

The members are whatever representatives the caller gave; everything that is shown of a subset goes through the
positions, so it is the domain's own element that appears. Only `members` and `toMembers` show the representatives.
-/
import SubsetAlgebra.CompactSubset

namespace SubsetAlgebra

open Word (width)

/-- a subset of a domain, as a set of members that all belong to it -/
structure GeneralSubset (α : Type) [Element α] where
  domain : Domain α
  members : Members α
  inside : ∀ e ∈ members.toList, domain.contains e = true

namespace GeneralSubset

variable {α : Type} [Element α]

/-! ## Building -/

/-- the subset without members -/
def empty (d : Domain α) : GeneralSubset α := ⟨d, Members.empty, fun _ h => nomatch h⟩

/-- the subset of those elements of a list of elements that the domain holds -/
def ofSelection (d : Domain α) (es : List α) (h : ∀ e ∈ es, e ∈ d.elements) : GeneralSubset α :=
  ⟨d, Members.ofList es, fun e he => Domain.contains_of_mem (h e (Members.mem_ofList he))⟩

/-- the subset of all elements -/
def full (d : Domain α) : GeneralSubset α := ofSelection d d.elements fun _ h => h

/-- the same subset as a compact one holds -/
def ofCompact (s : CompactSubset α) : GeneralSubset α :=
  ⟨s.domain, s.toMembers, fun _ h => Domain.contains_of_mem (CompactSubset.mem_of_mem_toMembers h)⟩

/-! ## Looking -/

/-- number of members -/
def size (s : GeneralSubset α) : Nat := s.members.size

/-- whether there is no member -/
def isEmpty (s : GeneralSubset α) : Bool := s.size == 0

/-- whether an element equal to `e` is a member -/
def contains (s : GeneralSubset α) (e : α) : Bool := s.members.contains e

/-- whether the element at this position is a member -/
def containsPosition (s : GeneralSubset α) (p : Nat) : Bool :=
  match s.domain.get p with
  | .ok e => s.contains e
  | .error _ => false

/-- the positions of the members, ascending -/
def positions (s : GeneralSubset α) : List Nat :=
  (s.members.toList.filterMap s.domain.indexOf).mergeSort (fun i j => decide (i ≤ j))

/-- the members in domain order, as the domain has them -/
def toList (s : GeneralSubset α) : List α := s.domain.select s.positions

/-! ## Changing -/

/-- adds an element; the flag says whether it was not a member before -/
def insert (s : GeneralSubset α) (e : α) : Except Error (GeneralSubset α × Bool) :=
  if h : s.domain.contains e then
    .ok ({ s with
            members := s.members.insert e
            inside := fun x hx => (Members.mem_insert hx).elim (s.inside x) fun he => he ▸ h },
      !s.members.contains e)
  else .error .foreignElement

/-- removes an element; the flag says whether it was a member before -/
def erase (s : GeneralSubset α) (e : α) : GeneralSubset α × Bool :=
  ({ s with
      members := s.members.erase e
      inside := fun x hx => s.inside x (Members.mem_filter hx).1 },
    s.members.contains e)

/-- removes every member -/
def clear (s : GeneralSubset α) : GeneralSubset α := empty s.domain

/-- the elements of the domain that are not members -/
def complement (s : GeneralSubset α) : GeneralSubset α :=
  ofSelection s.domain (s.domain.elements.filter fun e => !s.members.contains e) fun _ h => (List.mem_filter.1 h).1

/-! ## Other forms -/

/-- the members as a word -/
def toWord (s : GeneralSubset α) : Except Error UInt64 :=
  if width < s.domain.size then .error (.wordOverflow s.domain.size) else .ok (Word.ofPositions s.positions)

/-- the members as an integer mask -/
def toMask (s : GeneralSubset α) : Int := (WordBuffer.ofPositions s.positions).toNat

/-- the members as one bit for each element of the domain -/
def toBits (s : GeneralSubset α) : List Bool := (WordBuffer.ofPositions s.positions).toBits s.domain.size

/-- the members without the domain, as the caller gave them -/
def toMembers (s : GeneralSubset α) : Members α := s.members

/-- whether both hold the same elements of equal domains -/
def same (s t : GeneralSubset α) : Bool := s.members.same t.members && s.domain.same t.domain

/-! ## Positions belong to the domain -/

theorem lt_of_mem_positions {s : GeneralSubset α} {i : Nat} (h : i ∈ s.positions) : i < s.domain.size := by
  have h := (List.mergeSort_perm _ _).mem_iff.1 h
  obtain ⟨e, _, he⟩ := List.mem_filterMap.1 h
  exact Domain.indexOf_lt he

theorem toWord_lt {s : GeneralSubset α} {w : UInt64} (h : s.toWord = .ok w) :
    s.domain.size ≤ width ∧ w.toNat < 2 ^ s.domain.size := by
  unfold toWord at h
  split at h
  · cases h
  · next hn =>
    have hle := Nat.le_of_not_lt hn
    exact ⟨hle, Except.ok.inj h ▸ Word.ofPositions_lt hle fun _ hi => lt_of_mem_positions hi⟩

end GeneralSubset

/-- the same subset in a word, if the domain fits in one -/
def CompactSubset.ofGeneral {α : Type} [Element α] (s : GeneralSubset α) : Except Error (CompactSubset α) :=
  match h : s.toWord with
  | .error e => .error e
  | .ok w => .ok ⟨s.domain, w, (GeneralSubset.toWord_lt h).1, (GeneralSubset.toWord_lt h).2⟩

end SubsetAlgebra
