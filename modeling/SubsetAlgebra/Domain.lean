/-
Domains: fixed, ordered lists of pairwise unequal elements.

The element at position `i` owns bit `i` of every mask over the domain. `ofList` accepts exactly the lists without a
repetition and names the first one otherwise; `indexOf` and `get` are inverse to each other.

A domain may remember its fingerprint, the imprints of its elements in order. `same` compares two domains and uses
fingerprints that both remember to tell them apart early; `same_iff` says that its answer does not depend on them.
-/
import SubsetAlgebra.Error
import SubsetAlgebra.Members
import SubsetAlgebra.Word

namespace SubsetAlgebra

/-- what stands for a list of elements in a hash: how many there are, then their imprints in order -/
abbrev Fingerprint : Type := List Int

/-- the fingerprint of a list of elements -/
def fingerprintOf {α : Type} [Element α] (es : List α) : Fingerprint := (es.length : Int) :: es.flatMap Element.imprint

/-- a fixed, ordered list of pairwise unequal elements, and its fingerprint once that has been asked for -/
structure Domain (α : Type) [Element α] where
  elements : List α
  distinct : elements.Pairwise Unequal
  known : Option Fingerprint := none
  known_eq : ∀ h ∈ known, h = fingerprintOf elements := by simp

namespace Domain

variable {α : Type} [Element α]

/-! ## Building -/

/-- the first repetition in a list: the position of the earlier element and that of the later one, where `seen` is
what came before the list -/
def firstRepeatAfter (seen : List α) : List α → Option (Nat × Nat)
  | [] => none
  | e :: rest =>
    match seen.findIdx? (· == e) with
    | some first => some (first, seen.length)
    | none => firstRepeatAfter (seen ++ [e]) rest

/-- the first repetition in a list: the position of the earlier element and that of the later one -/
def firstRepeat (es : List α) : Option (Nat × Nat) := firstRepeatAfter [] es

theorem pairwise_of_firstRepeatAfter {seen es : List α} (hs : seen.Pairwise Unequal)
    (h : firstRepeatAfter seen es = none) : (seen ++ es).Pairwise Unequal := by
  induction es generalizing seen with
  | nil => simpa using hs
  | cons e rest ih =>
    unfold firstRepeatAfter at h
    split at h
    · cases h
    · next hf =>
      have hnew : (seen ++ [e]).Pairwise Unequal := by
        refine List.pairwise_append.2 ⟨hs, List.pairwise_singleton _ _, fun a ha b hb => ?_⟩
        rw [List.mem_singleton.1 hb]
        exact List.findIdx?_eq_none_iff.1 hf a ha
      simpa using ih hnew h

/-- the domain of a list without repetitions -/
def ofList (es : List α) : Except Error (Domain α) :=
  match h : firstRepeat es with
  | some (first, second) => .error (.duplicateElement first second)
  | none => .ok { elements := es, distinct := by simpa using pairwise_of_firstRepeatAfter List.Pairwise.nil h }

/-- the domain of a list that may have holes; a hole is reported before any repetition -/
def ofOptions (es : List (Option α)) : Except Error (Domain α) :=
  match es.findIdx? Option.isNone with
  | some p => .error (.missingElement p)
  | none => ofList (es.filterMap id)

/-! ## Looking up -/

/-- number of elements -/
def size (d : Domain α) : Nat := d.elements.length

/-- whether there is no element -/
def isEmpty (d : Domain α) : Bool := d.elements.isEmpty

/-- the element at position `i` -/
def get (d : Domain α) (i : Nat) : Except Error α :=
  match d.elements[i]? with
  | some e => .ok e
  | none => .error (.indexOutOfRange i d.size)

/-- the position of the element equal to `e` -/
def indexOf (d : Domain α) (e : α) : Option Nat := d.elements.findIdx? (· == e)

/-- whether some element equals `e` -/
def contains (d : Domain α) (e : α) : Bool := (d.indexOf e).isSome

/-- the elements at these positions -/
def select (d : Domain α) (ps : List Nat) : List α := ps.filterMap (d.elements[·]?)

/-- whether every position has a bit in a 64-bit word -/
def fitsWord (d : Domain α) : Bool := d.size ≤ Word.width

/-- the word of all positions -/
def fullWord (d : Domain α) : Except Error UInt64 :=
  if Word.width < d.size then .error (.wordOverflow d.size) else .ok (Word.low d.size)

/-! ## Comparing -/

/-- the fingerprint of the elements, remembered or computed -/
def fingerprint (d : Domain α) : Fingerprint := d.known.getD (fingerprintOf d.elements)

/-- the same domain with its fingerprint remembered -/
def remember (d : Domain α) : Domain α :=
  { d with
    known := some (fingerprintOf d.elements)
    known_eq := by simp }

/-- whether two fingerprints are both remembered and differ -/
def knownApart (a b : Domain α) : Bool :=
  match a.known, b.known with
  | some h, some k => h != k
  | _, _ => false

/-- whether equal elements stand at the same positions; fingerprints that both domains remember decide first -/
def same (a b : Domain α) : Bool := a.size == b.size && !a.knownApart b && a.elements == b.elements

/-! ## Laws -/

theorem indexOf_lt {d : Domain α} {e : α} {i : Nat} (h : d.indexOf e = some i) : i < d.size :=
  (List.findIdx?_eq_some_iff_getElem.1 h).1

theorem contains_iff {d : Domain α} {e : α} : d.contains e = true ↔ ∃ a ∈ d.elements, (a == e) = true := by
  simp [contains, indexOf]

theorem contains_of_mem {d : Domain α} {e : α} (h : e ∈ d.elements) : d.contains e = true :=
  contains_iff.2 ⟨e, h, BEq.rfl⟩

theorem contains_of_beq {d : Domain α} {a b : α} (h : (a == b) = true) (hb : d.contains b = true) :
    d.contains a = true := by
  obtain ⟨c, hc, e⟩ := contains_iff.1 hb
  exact contains_iff.2 ⟨c, hc, BEq.trans e (BEq.symm h)⟩

theorem mem_of_mem_select {d : Domain α} {ps : List Nat} {e : α} (h : e ∈ d.select ps) : e ∈ d.elements := by
  obtain ⟨i, _, hi⟩ := List.mem_filterMap.1 h
  exact List.mem_of_getElem? hi

theorem le_width_of_fullWord {d : Domain α} {w : UInt64} (h : d.fullWord = .ok w) : d.size ≤ Word.width := by
  unfold fullWord at h
  split at h
  · cases h
  · next hn => exact Nat.le_of_not_lt hn

theorem fullWord_lt {d : Domain α} {w : UInt64} (h : d.fullWord = .ok w) : w.toNat < 2 ^ d.size := by
  have hle := le_width_of_fullWord h
  unfold fullWord at h
  split at h
  · cases h
  · cases h
    exact Word.low_lt hle

theorem fingerprintOf_eq_of_beq {xs ys : List α} (h : (xs == ys) = true) : fingerprintOf xs = fingerprintOf ys := by
  have step : ∀ (xs ys : List α), (xs == ys) = true → xs.flatMap Element.imprint = ys.flatMap Element.imprint := by
    intro xs
    induction xs with
    | nil => intro ys h; cases ys with
      | nil => rfl
      | cons _ _ => cases h
    | cons x xs ih => intro ys h; cases ys with
      | nil => cases h
      | cons y ys =>
        simp only [List.cons_beq_cons, Bool.and_eq_true] at h
        rw [List.flatMap_cons, List.flatMap_cons, Element.imprint_eq_of_beq h.1, ih ys h.2]
  unfold fingerprintOf
  rw [List.length_eq_of_beq h, step xs ys h]

/-- what the domains remember never changes the answer -/
theorem same_iff (a b : Domain α) : a.same b = true ↔ (a.elements == b.elements) = true := by
  simp only [same, Bool.and_eq_true, beq_iff_eq]
  refine ⟨fun h => h.2, fun h => ⟨⟨List.length_eq_of_beq h, ?_⟩, h⟩⟩
  unfold knownApart
  cases ha : a.known with
  | none => rfl
  | some x =>
    cases hb : b.known with
    | none => rfl
    | some y =>
      rw [a.known_eq x ha, b.known_eq y hb, fingerprintOf_eq_of_beq h]
      simp

theorem size_eq_of_same {a b : Domain α} (h : a.same b = true) : a.size = b.size :=
  List.length_eq_of_beq ((same_iff a b).1 h)

theorem any_eq_of_beq {xs ys : List α} (h : (xs == ys) = true) (e : α) : xs.any (· == e) = ys.any (· == e) := by
  induction xs generalizing ys with
  | nil => cases ys with
    | nil => rfl
    | cons _ _ => cases h
  | cons x xs ih => cases ys with
    | nil => cases h
    | cons y ys =>
      simp only [List.cons_beq_cons, Bool.and_eq_true] at h
      have hxy : (x == e) = (y == e) :=
        Bool.eq_iff_iff.2 ⟨fun k => BEq.trans (BEq.symm h.1) k, fun k => BEq.trans h.1 k⟩
      rw [List.any_cons, List.any_cons, ih h.2, hxy]

theorem contains_eq_any (d : Domain α) (e : α) : d.contains e = d.elements.any (· == e) :=
  List.findIdx?_isSome

theorem contains_eq_of_same {a b : Domain α} (h : a.same b = true) (e : α) : a.contains e = b.contains e := by
  rw [contains_eq_any, contains_eq_any, any_eq_of_beq ((same_iff a b).1 h)]

end Domain

end SubsetAlgebra
