/-
What union, intersection, difference and complement leave, and when they fail.

A result has the domain and the form of the subset that it was made from (`Revised`); only its positions are new. Both
forms are covered: a word is combined bit by bit, a set of members by whichever representatives are there.

Results:
- `union_answers`, `inter_answers`, `diff_answers`: each fails with the fault of its operand exactly where there is one,
  foreign elements being a fault for a union only, and otherwise leaves the union, intersection or difference of the
  positions with what the operand selects;
- `complement_revised`: the other positions of the domain.
-/
import SubsetAlgebra.Proofs.Selection

namespace SubsetAlgebra

open Operand (Answers)

variable {α : Type} [Element α]

/-! ## Compact subsets -/

namespace CompactSubset

theorem union_answers (s : CompactSubset α) (o : Operand α) :
    Answers o s.domain .reject (s.union o) fun t => t.domain = s.domain ∧
      ∀ i, t.containsPosition i = true ↔ s.containsPosition i = true ∨ i ∈ o.selection s.domain := by
  refine (resolve_answers s.fits .reject o).trans (fun e he => ?_) fun w hw _ hbits => ?_
  · unfold union
    split <;> simp_all
  · unfold union
    split
    · next e he => rw [hw] at he; cases he
    · next v hv =>
      rw [hw] at hv
      cases hv
      refine ⟨_, rfl, rfl, fun i => ?_⟩
      change Word.has (s.word ||| w) i = true ↔ Word.has s.word i = true ∨ _
      rw [Word.has_or, Bool.or_eq_true, hbits]

theorem inter_answers (s : CompactSubset α) (o : Operand α) :
    Answers o s.domain .ignore (s.inter o) fun t => t.domain = s.domain ∧
      ∀ i, t.containsPosition i = true ↔ s.containsPosition i = true ∧ i ∈ o.selection s.domain := by
  refine (resolve_answers s.fits .ignore o).trans (fun e he => ?_) fun w hw _ hbits => ?_
  · simp only [inter, he]
  · simp only [inter, hw]
    refine ⟨_, rfl, rfl, fun i => ?_⟩
    change Word.has (s.word &&& w) i = true ↔ Word.has s.word i = true ∧ _
    rw [Word.has_and, Bool.and_eq_true, hbits]

theorem diff_answers (s : CompactSubset α) (o : Operand α) :
    Answers o s.domain .ignore (s.diff o) fun t => t.domain = s.domain ∧
      ∀ i, t.containsPosition i = true ↔ s.containsPosition i = true ∧ i ∉ o.selection s.domain := by
  refine (resolve_answers s.fits .ignore o).trans (fun e he => ?_) fun w hw _ hbits => ?_
  · simp only [diff, he]
  · simp only [diff, hw]
    refine ⟨_, rfl, rfl, fun i => ?_⟩
    change Word.has (s.word &&& ~~~w) i = true ↔ Word.has s.word i = true ∧ _
    rw [Word.has_andNot, Bool.and_eq_true, ← hbits, Bool.not_eq_true']
    simp

theorem containsPosition_complement (s : CompactSubset α) (i : Nat) :
    s.complement.containsPosition i = true ↔ i < s.domain.size ∧ ¬ s.containsPosition i = true := by
  change Word.has (~~~s.word &&& Word.low s.domain.size) i = true ↔ _ ∧ ¬ Word.has s.word i = true
  rw [UInt64.and_comm, Word.has_andNot, Word.has_low s.fits, Bool.and_eq_true, decide_eq_true_eq, Bool.not_eq_true',
    Bool.not_eq_true]

end CompactSubset

/-! ## General subsets -/

namespace GeneralSubset

theorem Finds.at {o : Operand α} {d : Domain α} {m : Members α} (h : Finds o d m) {i : Nat} {a : α}
    (ha : d.elements[i]? = some a) : m.contains a = true ↔ i ∈ o.selection d :=
  h a i (Domain.indexOf_of_getElem? ha)

theorem union_answers (s : GeneralSubset α) (o : Operand α) :
    Answers o s.domain .reject (s.union o) fun t => t.domain = s.domain ∧
      ∀ i, t.containsPosition i = true ↔ s.containsPosition i = true ∨ i ∈ o.selection s.domain := by
  refine (resolve_answers s.domain .reject o).trans (fun e he => ?_) fun m hm hnone hfinds => ?_
  · unfold union
    split <;> simp_all
  · unfold union
    split
    · next e he => rw [hm] at he; cases he
    · next v hv =>
      rw [hm] at hv
      cases hv
      refine ⟨_, rfl, rfl, containsPosition_iff_of (d := s.domain) (by rfl) (fun i a ha => ?_) fun i hi => ?_⟩
      · rw [containsPosition_at ha, ← hfinds.at ha]
        change (s.members.union m).contains a = true ↔ s.members.contains a = true ∨ _
        rw [Members.contains_union, Bool.or_eq_true]
      · rw [not_containsPosition_of_le hi]
        intro h'
        rcases h' with h | h
        · cases h
        · have := Operand.lt_size_of_selection hnone h
          omega

theorem inter_answers (s : GeneralSubset α) (o : Operand α) :
    Answers o s.domain .ignore (s.inter o) fun t => t.domain = s.domain ∧
      ∀ i, t.containsPosition i = true ↔ s.containsPosition i = true ∧ i ∈ o.selection s.domain := by
  refine (resolve_answers s.domain .ignore o).trans (fun e he => ?_) fun m hm _ hfinds => ?_
  · simp only [inter, he]
  · simp only [inter, hm]
    refine ⟨_, rfl, rfl, containsPosition_iff_of (d := s.domain) (by rfl) (fun i a ha => ?_) fun i hi => ?_⟩
    · rw [containsPosition_at ha, ← hfinds.at ha]
      change (s.members.inter m).contains a = true ↔ s.members.contains a = true ∧ _
      rw [Members.contains_inter, Bool.and_eq_true]
    · simp [not_containsPosition_of_le hi]

theorem diff_answers (s : GeneralSubset α) (o : Operand α) :
    Answers o s.domain .ignore (s.diff o) fun t => t.domain = s.domain ∧
      ∀ i, t.containsPosition i = true ↔ s.containsPosition i = true ∧ i ∉ o.selection s.domain := by
  refine (resolve_answers s.domain .ignore o).trans (fun e he => ?_) fun m hm _ hfinds => ?_
  · simp only [diff, he]
  · simp only [diff, hm]
    refine ⟨_, rfl, rfl, containsPosition_iff_of (d := s.domain) (by rfl) (fun i a ha => ?_) fun i hi => ?_⟩
    · rw [containsPosition_at ha, ← hfinds.at ha]
      change (s.members.diff m).contains a = true ↔ s.members.contains a = true ∧ _
      rw [Members.contains_diff, Bool.and_eq_true, Bool.not_eq_true', Bool.not_eq_true]
    · simp [not_containsPosition_of_le hi]

theorem containsPosition_complement (s : GeneralSubset α) (i : Nat) :
    s.complement.containsPosition i = true ↔ i < s.domain.size ∧ ¬ s.containsPosition i = true := by
  revert i
  refine containsPosition_iff_of (t := s.complement) (d := s.domain) rfl (fun i a ha => ?_) fun i hi h => ?_
  · have hi : i < s.domain.size := Domain.lt_size_of_getElem? ha
    rw [containsPosition_at ha]
    change (Members.ofList (s.domain.elements.filter _)).contains a = true ↔ _ ∧ ¬ s.members.contains a = true
    rw [Members.contains_ofList, List.any_filter, List.any_eq_true]
    constructor
    · intro h'
      obtain ⟨x, -, hx⟩ := h'
      rw [Bool.and_eq_true, Bool.not_eq_true'] at hx
      rw [← Members.contains_congr s.members hx.2, hx.1]
      exact ⟨hi, by simp⟩
    · intro h'
      obtain ⟨-, hc⟩ := h'
      refine ⟨a, List.mem_of_getElem? ha, ?_⟩
      simpa using hc
  · have := h.1
    omega

end GeneralSubset

/-! ## Subsets of either form -/

namespace Subset

/-- the subset `t` is `s` with other positions: its domain and its form are those of `s` -/
structure Revised (s t : Subset α) (P : Set Nat) : Prop where
  domain : t.domain = s.domain
  strategy : t.strategy = s.strategy
  adaptive : t.adaptive = s.adaptive
  places : t.places = P

theorem Revised.refl (s : Subset α) : s.Revised s s.places := ⟨rfl, rfl, rfl, rfl⟩

theorem Revised.trans {s t u : Subset α} {P Q : Set Nat} (h : s.Revised t P) (h' : t.Revised u Q) : s.Revised u Q :=
  ⟨h'.domain.trans h.domain, h'.strategy.trans h.strategy, h'.adaptive.trans h.adaptive, h'.places⟩

theorem Revised.choice {s t : Subset α} {P : Set Nat} (h : s.Revised t P) : t.choice = s.choice := by
  simp only [Subset.choice, h.adaptive, h.strategy]

theorem Revised.of_places {s t : Subset α} {P Q : Set Nat} (h : s.Revised t P) (hPQ : P = Q) : s.Revised t Q := hPQ ▸ h

theorem Revised.of_compact {c c' : CompactSubset α} {adaptive : Bool} {P : Set Nat} (hd : c'.domain = c.domain)
    (hp : ∀ i, c'.containsPosition i = true ↔ i ∈ P) : Revised ⟨.compact c, adaptive⟩ ⟨.compact c', adaptive⟩ P :=
  ⟨hd, rfl, rfl, Set.ext fun i => (mem_places_compact c' adaptive i).trans (hp i)⟩

theorem Revised.of_general {g g' : GeneralSubset α} {adaptive : Bool} {P : Set Nat} (hd : g'.domain = g.domain)
    (hp : ∀ i, g'.containsPosition i = true ↔ i ∈ P) : Revised ⟨.general g, adaptive⟩ ⟨.general g', adaptive⟩ P :=
  ⟨hd, rfl, rfl, Set.ext fun i => (mem_places_general g' adaptive i).trans (hp i)⟩

/-- members of a result are the elements of the domain that stand at its positions -/
theorem contains_revised {s t : Subset α} {P : Set Nat} (h : s.Revised t P) (e : α) :
    t.contains e = true ↔ ∃ i ∈ P, s.domain.indexOf e = some i := by
  rw [contains_iff, h.domain, ← h.places]
  rfl

/-- an operation that both forms carry out by the same rule `R` on the positions, one by one -/
theorem answers_of_forms {o : Operand α} {rule : ForeignRule} (R : Prop → Prop → Prop)
    {onCompact : CompactSubset α → Except Error (CompactSubset α)}
    {onGeneral : GeneralSubset α → Except Error (GeneralSubset α)}
    (compact : ∀ c, Answers o c.domain rule (onCompact c) fun t => t.domain = c.domain ∧
      ∀ i, t.containsPosition i = true ↔ R (c.containsPosition i = true) (i ∈ o.selection c.domain))
    (general : ∀ g, Answers o g.domain rule (onGeneral g) fun t => t.domain = g.domain ∧
      ∀ i, t.containsPosition i = true ↔ R (g.containsPosition i = true) (i ∈ o.selection g.domain))
    (s : Subset α) :
    Answers o s.domain rule ((s.rep.mapM onCompact onGeneral).map fun r => { s with rep := r })
      fun t => s.Revised t {i | R (i ∈ s.places) (i ∈ o.selection s.domain)} := by
  obtain ⟨rep, adaptive⟩ := s
  cases rep with
  | compact c =>
    refine ((compact c).map fun _ t ht => ?_).map fun _ _ h => h
    refine Revised.of_compact ht.1 fun i => ?_
    rw [ht.2, ← mem_places_compact c adaptive]
    rfl
  | general g =>
    refine ((general g).map fun _ t ht => ?_).map fun _ _ h => h
    refine Revised.of_general ht.1 fun i => ?_
    rw [ht.2, ← mem_places_general g adaptive]
    rfl

theorem union_answers (s : Subset α) (o : Operand α) :
    Answers o s.domain .reject (s.union o) fun t => s.Revised t (s.places ∪ o.selection s.domain) :=
  answers_of_forms Or (fun c => c.union_answers o) (fun g => g.union_answers o) s

theorem inter_answers (s : Subset α) (o : Operand α) :
    Answers o s.domain .ignore (s.inter o) fun t => s.Revised t (s.places ∩ o.selection s.domain) :=
  answers_of_forms And (fun c => c.inter_answers o) (fun g => g.inter_answers o) s

theorem diff_answers (s : Subset α) (o : Operand α) :
    Answers o s.domain .ignore (s.diff o) fun t => s.Revised t (s.places \ o.selection s.domain) :=
  answers_of_forms (fun a b => a ∧ ¬ b) (fun c => c.diff_answers o) (fun g => g.diff_answers o) s

theorem complement_revised (s : Subset α) : s.Revised s.complement ({i | i < s.domain.size} \ s.places) := by
  obtain ⟨rep, adaptive⟩ := s
  cases rep with
  | compact c =>
    refine Revised.of_compact rfl fun i => ?_
    rw [c.containsPosition_complement, ← mem_places_compact c adaptive]
    rfl
  | general g =>
    refine Revised.of_general rfl fun i => ?_
    rw [g.containsPosition_complement, ← mem_places_general g adaptive]
    rfl

/-! ## Main result -/

/-- `r` fails with the fault of the operand exactly where it has one, and otherwise is `s` with the positions `P` -/
structure Yields (s : Subset α) (o : Operand α) (rule : ForeignRule) (r : Except Error (Subset α)) (P : Set Nat) :
    Prop where
  error_iff : ∀ e, r = .error e ↔ o.Fault s.domain rule e
  ok : (∀ e, ¬ o.Fault s.domain rule e) → ∃ t, r = .ok t ∧ s.Revised t P

theorem Yields.of_answers {s : Subset α} {o : Operand α} {rule : ForeignRule} {r : Except Error (Subset α)}
    {P : Set Nat}
    (h : Answers o s.domain rule r fun t => s.Revised t P) : s.Yields o rule r P :=
  ⟨h.error_iff, h.sound⟩

/-- **The algebra is exact.** Over every subset, of either form and under every promise about it, and every operand,
union, intersection and difference fail exactly with the operand's fault, where only a union takes foreign elements for
one; otherwise they leave the positions that sets would, and so does the complement. -/
theorem algebra_exact (s : Subset α) (o : Operand α) :
    s.Yields o .reject (s.union o) (s.places ∪ o.selection s.domain) ∧
    s.Yields o .ignore (s.inter o) (s.places ∩ o.selection s.domain) ∧
    s.Yields o .ignore (s.diff o) (s.places \ o.selection s.domain) ∧
    s.Revised s.complement ({i | i < s.domain.size} \ s.places) := by
  refine ⟨.of_answers (s.union_answers o), .of_answers (s.inter_answers o), .of_answers (s.diff_answers o), ?_⟩
  exact s.complement_revised

end Subset

end SubsetAlgebra
