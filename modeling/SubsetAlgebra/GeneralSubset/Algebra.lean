/-
Union, intersection and difference of member sets.

`resolve` turns an operand into the set of elements it names, or fails. Under `ForeignRule.ignore` foreign elements stay
in that set: they match no member, so neither an intersection nor a difference sees them. Under `ForeignRule.reject`
there are none (`resolve_inside`), and a union stays inside the domain.
-/
import SubsetAlgebra.Operand

namespace SubsetAlgebra.GeneralSubset

variable {α : Type} [Element α]

/-- the set `m`, unless the rule rejects foreign elements and one of `es` is foreign -/
def checked (d : Domain α) (rule : ForeignRule) (es : List α) (m : Members α) : Except Error (Members α) :=
  if rule = .reject ∧ es.any (fun e => !d.contains e) then .error .foreignElement else .ok m

/-- the elements at these positions, as a set -/
def elementsAt (d : Domain α) (ps : List Nat) : Members α := Members.ofList (d.select ps)

/-- the set of the elements that an operand names -/
def resolve (d : Domain α) (rule : ForeignRule) : Operand α → Except Error (Members α)
  | .word w => (Mask.acceptWord w d.size).map fun w => elementsAt d (Word.positions w)
  | .mask m => (Mask.acceptInt m d.size).map fun buf => elementsAt d buf.positions
  | .bits b => (Mask.acceptBits b d.size).map fun _ => elementsAt d (Mask.ones b)
  | .elements es => checked d rule es (Members.ofList es)
  | .members m => checked d rule m.toList m
  | .compact t => if d.same t.domain then .ok t.toMembers else checked d rule t.toList t.toMembers
  | .general t => if d.same t.domain then .ok t.members else checked d rule t.members.toList t.members

theorem elementsAt_inside {d : Domain α} {ps : List Nat} {e : α} (h : e ∈ (elementsAt d ps).toList) :
    d.contains e = true :=
  Domain.contains_of_mem (Domain.mem_of_mem_select (Members.mem_ofList h))

theorem inside_of_map {β : Type} {d : Domain α} {r : Except Error β} {ps : β → List Nat} {m : Members α}
    (h : r.map (fun b => elementsAt d (ps b)) = .ok m) {e : α} (he : e ∈ m.toList) : d.contains e = true := by
  cases r with
  | error _ => cases h
  | ok b =>
    cases h
    exact elementsAt_inside he

theorem inside_of_checked {d : Domain α} {es : List α} {m m' : Members α} (h : checked d .reject es m = .ok m')
    (hm : ∀ e ∈ m.toList, e ∈ es) {e : α} (he : e ∈ m'.toList) : d.contains e = true := by
  unfold checked at h
  split at h
  · cases h
  · next hn =>
    cases h
    apply Classical.byContradiction
    intro hc
    apply hn
    exact ⟨rfl, List.any_eq_true.2 ⟨e, hm e he, by simp [hc]⟩⟩

/-- where foreign elements are rejected, what an operand resolves to belongs to the domain -/
theorem resolve_inside {d : Domain α} {o : Operand α} {m : Members α} (h : resolve d .reject o = .ok m) {e : α}
    (he : e ∈ m.toList) : d.contains e = true := by
  cases o with
  | word w => exact inside_of_map h he
  | mask n => exact inside_of_map h he
  | bits b => exact inside_of_map h he
  | elements es => exact inside_of_checked h (fun _ hx => Members.mem_ofList hx) he
  | members n => exact inside_of_checked h (fun _ hx => hx) he
  | compact t =>
    simp only [resolve] at h
    split at h
    · next hs =>
      cases h
      rw [Domain.contains_eq_of_same hs]
      exact Domain.contains_of_mem (CompactSubset.mem_of_mem_toMembers he)
    · exact inside_of_checked h (fun _ hx => Members.mem_ofList hx) he
  | general t =>
    simp only [resolve] at h
    split at h
    · next hs =>
      cases h
      rw [Domain.contains_eq_of_same hs]
      exact t.inside e he
    · exact inside_of_checked h (fun _ hx => hx) he

theorem inside_of_contains {s : GeneralSubset α} {e : α} (h : s.members.contains e = true) :
    s.domain.contains e = true := by
  obtain ⟨a, ha, hae⟩ := Members.contains_iff.1 h
  exact Domain.contains_of_beq (BEq.symm hae) (s.inside a ha)

/-! ## Operations -/

/-- the subset that an operand names -/
def ofOperand (d : Domain α) (o : Operand α) : Except Error (GeneralSubset α) :=
  match h : resolve d .reject o with
  | .error e => .error e
  | .ok m => .ok ⟨d, m, fun _ he => resolve_inside h he⟩

/-- the members and what the operand names -/
def union (s : GeneralSubset α) (o : Operand α) : Except Error (GeneralSubset α) :=
  match h : resolve s.domain .reject o with
  | .error e => .error e
  | .ok m => .ok ⟨s.domain, s.members.union m, fun e he => (Members.mem_union he).elim (s.inside e) (resolve_inside h)⟩

/-- the members that the operand names -/
def inter (s : GeneralSubset α) (o : Operand α) : Except Error (GeneralSubset α) :=
  match resolve s.domain .ignore o with
  | .error e => .error e
  | .ok m => .ok ⟨s.domain, s.members.inter m, fun _ he => inside_of_contains (Members.mem_inter he)⟩

/-- the members that the operand does not name -/
def diff (s : GeneralSubset α) (o : Operand α) : Except Error (GeneralSubset α) :=
  match resolve s.domain .ignore o with
  | .error e => .error e
  | .ok m => .ok ⟨s.domain, s.members.diff m, fun e he => s.inside e (Members.mem_filter he).1⟩

end SubsetAlgebra.GeneralSubset
