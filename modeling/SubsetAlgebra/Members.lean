/-
Sets of elements without a domain: lists in which no two elements are equal.

Where equality is coarser than identity a set keeps one representative of each element, the one that came first.
Membership asks for an equal element, never for an identical one, so `contains` does not see the representative;
`union` keeps the representatives of the larger side and `inter` those of the smaller one.
-/
import SubsetAlgebra.Element

namespace SubsetAlgebra

/-- pairwise unequal elements -/
structure Members (α : Type) [Element α] where
  toList : List α
  distinct : toList.Pairwise Unequal

namespace Members

variable {α : Type} [Element α]

/-- the set without members -/
def empty : Members α := ⟨[], List.Pairwise.nil⟩

/-- number of members -/
def size (m : Members α) : Nat := m.toList.length

/-- whether some member equals `e` -/
def contains (m : Members α) (e : α) : Bool := m.toList.any (· == e)

theorem contains_iff {m : Members α} {e : α} : m.contains e = true ↔ ∃ a ∈ m.toList, (a == e) = true := by
  simp [contains]

theorem contains_of_mem {m : Members α} {e : α} (h : e ∈ m.toList) : m.contains e = true :=
  contains_iff.2 ⟨e, h, BEq.rfl⟩

theorem contains_congr (m : Members α) {a b : α} (h : (a == b) = true) : m.contains a = m.contains b := by
  have key : ∀ {a b : α}, (a == b) = true → m.contains a = true → m.contains b = true := by
    intro a b h hm
    obtain ⟨c, hc, e⟩ := contains_iff.1 hm
    exact contains_iff.2 ⟨c, hc, BEq.trans e h⟩
  exact Bool.eq_iff_iff.2 ⟨key h, key (BEq.symm h)⟩

/-! ## Operations -/

/-- adds `e` unless an equal member is there already -/
def insert (m : Members α) (e : α) : Members α :=
  if h : m.contains e then m
  else
    { toList := m.toList ++ [e]
      distinct := by
        refine List.pairwise_append.2 ⟨m.distinct, List.pairwise_singleton _ _, fun a ha b hb => ?_⟩
        rw [List.mem_singleton.1 hb]
        exact Bool.eq_false_iff.2 fun hab => h (contains_iff.2 ⟨a, ha, hab⟩) }

/-- the elements of a list, each kept where it first occurs -/
def ofList (es : List α) : Members α := es.foldl insert empty

/-- the members that satisfy a test -/
def filter (p : α → Bool) (m : Members α) : Members α := ⟨m.toList.filter p, m.distinct.filter p⟩

/-- removes the member equal to `e`, if there is one -/
def erase (m : Members α) (e : α) : Members α := m.filter fun a => !(a == e)

/-- members of `a` that are not in `b` -/
def diff (a b : Members α) : Members α := a.filter fun e => !b.contains e

/-- members of both, as the smaller side has them -/
def inter (a b : Members α) : Members α :=
  if a.size ≤ b.size then a.filter b.contains else b.filter a.contains

/-- all of `a`, then what `b` adds -/
def append (a b : Members α) : Members α where
  toList := a.toList ++ (b.diff a).toList
  distinct := by
    refine List.pairwise_append.2 ⟨a.distinct, (b.diff a).distinct, fun x hx y hy => ?_⟩
    have hy := (List.mem_filter.1 hy).2
    refine Bool.eq_false_iff.2 fun hxy => ?_
    rw [contains_iff.2 ⟨x, hx, hxy⟩] at hy
    cases hy

/-- members of either, as the larger side has them -/
def union (a b : Members α) : Members α := if b.size ≤ a.size then a.append b else b.append a

/-- whether both hold the same elements -/
def same (a b : Members α) : Bool := a.size == b.size && a.toList.all b.contains

/-! ## Where the members of a result come from -/

theorem mem_insert {m : Members α} {e x : α} (h : x ∈ (m.insert e).toList) : x ∈ m.toList ∨ x = e := by
  unfold insert at h
  split at h
  · exact Or.inl h
  · rcases List.mem_append.1 h with h | h
    · exact Or.inl h
    · exact Or.inr (List.mem_singleton.1 h)

theorem mem_foldl_insert {es : List α} {m : Members α} {x : α} (h : x ∈ (es.foldl insert m).toList) :
    x ∈ m.toList ∨ x ∈ es := by
  induction es generalizing m with
  | nil => exact Or.inl h
  | cons e es ih =>
    rcases ih h with h | h
    · rcases mem_insert h with h | rfl
      · exact Or.inl h
      · exact Or.inr (List.mem_cons_self ..)
    · exact Or.inr (List.mem_cons_of_mem _ h)

theorem mem_ofList {es : List α} {x : α} (h : x ∈ (ofList es).toList) : x ∈ es := by
  rcases mem_foldl_insert h with h | h
  · cases h
  · exact h

theorem mem_filter {p : α → Bool} {m : Members α} {x : α} (h : x ∈ (m.filter p).toList) :
    x ∈ m.toList ∧ p x = true :=
  List.mem_filter.1 h

theorem mem_inter {a b : Members α} {x : α} (h : x ∈ (a.inter b).toList) : a.contains x = true := by
  unfold inter at h
  split at h
  · exact contains_of_mem (mem_filter h).1
  · exact (mem_filter h).2

theorem mem_append {a b : Members α} {x : α} (h : x ∈ (a.append b).toList) : x ∈ a.toList ∨ x ∈ b.toList := by
  rcases List.mem_append.1 h with h | h
  · exact Or.inl h
  · exact Or.inr (mem_filter h).1

theorem mem_union {a b : Members α} {x : α} (h : x ∈ (a.union b).toList) : x ∈ a.toList ∨ x ∈ b.toList := by
  unfold union at h
  split at h
  · exact mem_append h
  · exact (mem_append h).symm

end Members

end SubsetAlgebra
