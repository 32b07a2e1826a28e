/-
Extending a subset by a list of elements: all of them go in, or none.

`extend` looks for a foreign element before it adds anything, and only then adds the elements one by one. Carried out on
a subset that is changed in place (`extendInPlace`), a failing insertion would leave behind what went in before it
(`insertEach_stops`); the look beforehand is what keeps that from happening, also where the foreign element comes last.

The count is that of the unequal elements that were not members (`fresh`), however the list repeats or orders them and
by whichever equal values it names them (`size_extended`). One list after another counts as both at once
(`extend_append`).
-/
import SubsetAlgebra.Proofs.Representatives

namespace SubsetAlgebra

variable {α : Type} [Element α]

theorem Coextensive.of_perm {es fs : List α} (h : es.Perm fs) : Coextensive es fs := fun _ => h.any_eq

namespace Subset

/-! ## In place -/

/-- adds elements in turn to a subset that is changed in place: what went in before a failure stays in -/
def insertEach (s : Subset α) (n : Nat) : List α → Subset α × Except Error Nat
  | [] => (s, .ok n)
  | e :: rest =>
    match s.insert e with
    | .error err => (s, .error err)
    | .ok (t, new) => t.insertEach (if new then n + 1 else n) rest

/-- `extend` on a subset that is changed in place -/
def extendInPlace (s : Subset α) (es : List α) : Subset α × Except Error Nat :=
  if es.any fun e => !s.domain.contains e then (s, .error .foreignElement) else s.insertEach 0 es

theorem insertEach_append {es : List α} {s t : Subset α} {n m : Nat} (h : s.insertAll n es = .ok (t, m))
    (rest : List α) : s.insertEach n (es ++ rest) = t.insertEach m rest := by
  induction es generalizing s n with
  | nil =>
    cases h
    rfl
  | cons e es ih =>
    cases hi : s.insert e with
    | error err =>
      simp only [insertAll, hi] at h
      cases h
    | ok x =>
      simp only [insertAll, hi] at h
      simp only [List.cons_append, insertEach, hi]
      exact ih h

/-- adding alone stops at the first foreign element, with all before it added -/
theorem insertEach_stops {s : Subset α} {es : List α} (hes : ∀ e ∈ es, s.domain.contains e = true) {x : α}
    (hx : s.domain.contains x = false) (n : Nat) (rest : List α) :
    ∃ t, s.insertEach n (es ++ x :: rest) = (t, .error .foreignElement) ∧
      s.Revised t (s.places ∪ s.domain.placesOf es) := by
  obtain ⟨t, m, ht, hrev, -⟩ := insertAll_known hes n
  refine ⟨t, ?_, hrev⟩
  have hforeign : t.insert x = .error .foreignElement := by
    apply insert_foreign
    rw [hrev.domain, Domain.indexOf_eq_none_iff]
    exact hx
  simp only [insertEach_append ht, insertEach, hforeign]

theorem extendInPlace_foreign {s : Subset α} {es : List α} (h : ∃ e ∈ es, s.domain.contains e = false) :
    s.extendInPlace es = (s, .error .foreignElement) := by
  exact if_pos (Domain.any_foreign_iff.2 h)

theorem extend_error_iff (s : Subset α) (es : List α) (err : Error) :
    s.extend es = .error err ↔ err = .foreignElement ∧ ∃ e ∈ es, s.domain.contains e = false := by
  constructor
  · intro h
    rcases s.domain.foreign_or_known es with hforeign | hknown
    · rw [extend_foreign hforeign] at h
      exact ⟨(Except.error.inj h).symm, hforeign⟩
    · obtain ⟨t, k, ht, -⟩ := extend_known hknown
      rw [ht] at h
      cases h
  · rintro ⟨rfl, hforeign⟩
    exact extend_foreign hforeign

theorem known_of_extend {s t : Subset α} {es : List α} {k : Nat} (h : s.extend es = .ok (t, k)) :
    ∀ e ∈ es, s.domain.contains e = true := by
  rcases s.domain.foreign_or_known es with hforeign | hknown
  · rw [extend_foreign hforeign] at h
    cases h
  · exact hknown

/-- where nothing is foreign no insertion fails, and the subset in place is the one that is returned -/
theorem extendInPlace_of_extend {s t : Subset α} {es : List α} {k : Nat} (h : s.extend es = .ok (t, k)) :
    s.extendInPlace es = (t, .ok k) := by
  have hknown := known_of_extend h
  rw [extend_eq_insertAll hknown] at h
  have hend := insertEach_append h []
  rw [List.append_nil] at hend
  calc s.extendInPlace es = s.insertEach 0 es := if_neg (Domain.not_any_foreign hknown)
    _ = t.insertEach k [] := hend
    _ = (t, .ok k) := rfl

/-! ## The count -/

/-- how many unequal elements of a list are not members -/
def fresh (s : Subset α) (es : List α) : Nat := (Members.ofList (es.filter fun e => !s.contains e)).size

theorem contains_extended {s t : Subset α} {es : List α} (h : s.Revised t (s.places ∪ s.domain.placesOf es))
    (hes : ∀ e ∈ es, s.domain.contains e = true) (e : α) : t.contains e = (s.contains e || es.any (· == e)) := by
  have hnamed : ∀ {i}, s.domain.indexOf e = some i → (es.any (· == e) = true ↔ i ∈ s.domain.placesOf es) := by
    intro i hi
    have := (Operand.elements_lists es).contains_iff (Members.contains_ofList es) hi
    rwa [Members.contains_ofList, (Operand.elements_lists es).selection_eq] at this
  rw [Bool.eq_iff_iff, Bool.or_eq_true, contains_revised h, contains_iff]
  constructor
  · rintro ⟨i, hs | hl, hi⟩
    · exact .inl ⟨i, hs, hi⟩
    · exact .inr ((hnamed hi).2 hl)
  · rintro (⟨i, hs, hi⟩ | hl)
    · exact ⟨i, .inl hs, hi⟩
    · obtain ⟨x, hx, hxe⟩ := List.any_eq_true.1 hl
      obtain ⟨i, hi⟩ := Domain.contains_iff_indexOf.1 (hes x hx)
      rw [Domain.indexOf_congr _ hxe] at hi
      exact ⟨i, .inr ((hnamed hi).1 hl), hi⟩

/-- the old members and the fresh elements, each once, are what the extended subset holds -/
theorem size_extended {s t : Subset α} {es : List α} (h : s.Revised t (s.places ∪ s.domain.placesOf es))
    (hes : ∀ e ∈ es, s.domain.contains e = true) : t.size = s.size + s.fresh es := by
  let news : Members α := Members.ofList (es.filter fun e => !s.contains e)
  have hnew : ∀ e, news.contains e = (es.any (· == e) && !s.contains e) := by
    intro e
    rw [Members.contains_ofList, Bool.eq_iff_iff, Bool.and_eq_true, List.any_eq_true, List.any_eq_true]
    constructor
    · rintro ⟨x, hx, hxe⟩
      obtain ⟨hmem, hout⟩ := List.mem_filter.1 hx
      exact ⟨⟨x, hmem, hxe⟩, by rw [← contains_congr s hxe]; exact hout⟩
    · rintro ⟨⟨x, hmem, hxe⟩, hout⟩
      exact ⟨x, List.mem_filter.2 ⟨hmem, by rw [contains_congr s hxe]; exact hout⟩, hxe⟩
  have hdistinct : (s.toList ++ news.toList).Pairwise Unequal := by
    refine List.pairwise_append.2 ⟨s.toList_distinct, news.distinct, fun a ha b hb => ?_⟩
    have hin : s.contains a = true := by
      rw [contains_eq_any_toList, List.any_eq_true]
      exact ⟨a, ha, BEq.rfl⟩
    have hout := hnew b
    rw [Members.contains_of_mem hb] at hout
    refine Bool.eq_false_iff.2 fun hab => ?_
    rw [← contains_congr s hab, hin] at hout
    simp at hout
  have hsame : ∀ e, t.toList.any (· == e) = (s.toList ++ news.toList).any (· == e) := by
    intro e
    rw [List.any_append, ← contains_eq_any_toList, ← contains_eq_any_toList, ← Members.contains_eq_any, hnew,
      contains_extended h hes]
    cases s.contains e <;> simp
  have hlength := ((any_eq_iff t.toList_distinct hdistinct).2 hsame).1
  rw [List.length_append, length_toList, length_toList] at hlength
  exact hlength

/-! ## One list after another -/

theorem insertAll_append (s : Subset α) (n : Nat) (es fs : List α) :
    s.insertAll n (es ++ fs) = (s.insertAll n es).bind fun x => x.1.insertAll x.2 fs := by
  induction es generalizing s n with
  | nil => rfl
  | cons e es ih =>
    cases hi : s.insert e with
    | error err => simp only [List.cons_append, insertAll, hi]; rfl
    | ok x => simp only [List.cons_append, insertAll, hi, ih]

/-- the count goes on from wherever it starts -/
theorem insertAll_add (s : Subset α) (n m : Nat) (es : List α) :
    s.insertAll (n + m) es = (s.insertAll n es).map fun x => (x.1, x.2 + m) := by
  induction es generalizing s n with
  | nil => rfl
  | cons e es ih =>
    cases hi : s.insert e with
    | error err => simp only [insertAll, hi]; rfl
    | ok x =>
      simp only [insertAll, hi]
      rw [← ih]
      congr 1
      split_ifs <;> omega

theorem extend_append {s u : Subset α} {es fs : List α} {k : Nat} (h : s.extend (es ++ fs) = .ok (u, k)) :
    ∃ t m n, s.extend es = .ok (t, m) ∧ t.extend fs = .ok (u, n) ∧ m + n = k := by
  have hknown := known_of_extend h
  have hes : ∀ e ∈ es, s.domain.contains e = true := fun e he => hknown e (List.mem_append_left fs he)
  obtain ⟨t, m, ht, hrev, -⟩ := extend_known hes
  have hfs : ∀ e ∈ fs, t.domain.contains e = true := by
    intro e he
    rw [hrev.domain]
    exact hknown e (List.mem_append_right es he)
  obtain ⟨v, n, hv, -⟩ := extend_known hfs
  refine ⟨t, m, n, ht, ?_⟩
  rw [extend_eq_insertAll hes] at ht
  have hwhole : s.insertAll 0 (es ++ fs) = .ok (v, n + m) := by
    calc s.insertAll 0 (es ++ fs) = (s.insertAll 0 es).bind fun x => x.1.insertAll x.2 fs := insertAll_append s 0 es fs
      _ = t.insertAll (0 + m) fs := by rw [ht, Nat.zero_add]; rfl
      _ = (t.insertAll 0 fs).map fun x => (x.1, x.2 + m) := insertAll_add t 0 m fs
      _ = .ok (v, n + m) := by rw [← extend_eq_insertAll hfs, hv]; rfl
  rw [extend_eq_insertAll hknown, hwhole] at h
  cases h
  exact ⟨hv, Nat.add_comm m n⟩

/-! ## Main result -/

/-- building from a list with a foreign element fails; where the domain is too large for what was asked, with that -/
theorem ofList_of_foreign (c : Choice) {d : Domain α} {es : List α} (h : ∃ e ∈ es, d.contains e = false) :
    ofList c d es = .error (if c = .compact ∧ 64 < d.size then .wordOverflow d.size else .foreignElement) := by
  split_ifs with hc
  · refine ofList_refused (fun hadm => ?_) es
    have : d.size ≤ 64 := hadm hc.1
    omega
  · refine ofList_foreign (fun hcompact => ?_) h
    by_contra hd
    exact hc ⟨hcompact, Nat.lt_of_not_le hd⟩

/-- what comes of extending `s` by `es` -/
structure AllOrNothing (s : Subset α) (es : List α) : Prop where
  error_iff : ∀ err, s.extend es = .error err ↔ err = .foreignElement ∧ ∃ e ∈ es, s.domain.contains e = false
  /-- a failure leaves the subset as it was, even where it is changed in place -/
  unchanged : ∀ err, s.extend es = .error err → s.extendInPlace es = (s, .error err)
  in_place : ∀ t k, s.extend es = .ok (t, k) → s.extendInPlace es = (t, .ok k)
  grown : (∀ e ∈ es, s.domain.contains e = true) → ∃ t k, s.extend es = .ok (t, k) ∧
    s.Revised t (s.places ∪ s.domain.placesOf es) ∧ t.size = s.size + k ∧ k = s.fresh es
  perm : ∀ fs, es.Perm fs → Parallel TwinsWith (s.extend es) (s.extend fs)
  append : ∀ fs u k, s.extend (es ++ fs) = .ok (u, k) →
    ∃ t m n, s.extend es = .ok (t, m) ∧ t.extend fs = .ok (u, n) ∧ m + n = k
  ofList : ∀ (c : Choice) (d : Domain α), (∃ e ∈ es, d.contains e = false) →
    ofList c d es = .error (if c = .compact ∧ 64 < d.size then .wordOverflow d.size else .foreignElement)

/-- **Extending is all or nothing, with an exact count.** It fails iff the list has a foreign element, and then changes
nothing; otherwise every element goes in, and the count is the growth and the number of elements that are new. Neither
depends on the order of the list, and lists extend one after another as they do at once. A subset is not built from a
list with a foreign element either. -/
theorem extend_all_or_nothing (s : Subset α) (es : List α) : AllOrNothing s es where
  error_iff := s.extend_error_iff es
  unchanged err h := by
    obtain ⟨rfl, hforeign⟩ := (s.extend_error_iff es err).1 h
    exact extendInPlace_foreign hforeign
  in_place _ _ := extendInPlace_of_extend
  grown hes := by
    obtain ⟨t, k, ht, hrev, hgrowth⟩ := extend_known hes
    have hcount := size_extended hrev hes
    exact ⟨t, k, ht, hrev, hgrowth, by omega⟩
  perm _ h := extend_kin (Twins.refl s) (.of_perm h)
  append _ _ _ := extend_append
  ofList c _ := ofList_of_foreign c

end Subset

end SubsetAlgebra
