/-
Which persisted documents are taken, and why the others are not.

A document that holds two lists, `L` for the domain and `M` for the members, does so as a record in either order or as
an array (`Document.Holds`); no other document is taken (`holds_of_read`): not one with a field too many, too few, twice
or by another name. The two lists are taken iff they are `Valid`, and then the positions are those of `L` at which an
element of `M` stands (`Taken`), so that neither order nor repetition in `M` matters (`Verdict.alike`). Otherwise the
first rule that they break is reported (`Breaks`): a repetition in the domain, then a domain too large for a word, then
a member that is foreign; the order of the fields has no part in this (`read_of_holds`).
-/
import SubsetAlgebra.Proofs.DocumentText
import SubsetAlgebra.Proofs.ExactBuilding

namespace SubsetAlgebra.Persisted

open Json (ReadError Refusal)
open Word (width)

variable {α : Type} [Element α]

/-! ## Two lists -/

/-- the lists make up a subset: no repetition in the domain, no foreign member, and room in a word if one is wanted -/
structure Valid (c : Choice) (L M : List α) : Prop where
  distinct : L.Pairwise Unequal
  known : ∀ e ∈ M, ∃ a ∈ L, (a == e) = true
  fits : c = .compact → L.length ≤ 64

/-- the first rule that the lists break -/
inductive Breaks (c : Choice) (L M : List α) : Error → Prop where
  | repeated {i j : Nat} : Domain.FirstRepeat L i j → Breaks c L M (.duplicateElement i j)
  | overflow : L.Pairwise Unequal → c = .compact → 64 < L.length → Breaks c L M (.wordOverflow L.length)
  | foreign {e : α} : L.Pairwise Unequal → (c = .compact → L.length ≤ 64) → e ∈ M → (∀ a ∈ L, Unequal a e) →
    Breaks c L M .foreignElement

theorem Breaks.not_valid {c : Choice} {L M : List α} {e : Error} (h : Breaks c L M e) : ¬ Valid c L M := by
  intro hv
  cases h with
  | repeated hr => exact hr.not_pairwise hv.distinct
  | overflow _ hc hn =>
    have := hv.fits hc
    omega
  | foreign _ _ he hne =>
    obtain ⟨a, ha, hae⟩ := hv.known _ he
    rw [hne a ha] at hae
    cases hae

/-- the rules are checked in turn, so at most one is reported -/
theorem Breaks.eq {c : Choice} {L M : List α} {e e' : Error} (h : Breaks c L M e) (h' : Breaks c L M e') : e = e' := by
  cases h with
  | repeated hr =>
    cases h' with
    | repeated hr' =>
      obtain ⟨rfl, rfl⟩ := hr.eq hr'
      rfl
    | overflow hd _ _ => exact absurd hd hr.not_pairwise
    | foreign hd _ _ _ => exact absurd hd hr.not_pairwise
  | overflow hd hc hn =>
    cases h' with
    | repeated hr' => exact absurd hd hr'.not_pairwise
    | overflow _ _ _ => rfl
    | foreign _ hfit _ _ =>
      have := hfit hc
      omega
  | foreign hd hfit _ _ =>
    cases h' with
    | repeated hr' => exact absurd hd hr'.not_pairwise
    | overflow _ hc hn =>
      have := hfit hc
      omega
    | foreign _ _ _ _ => rfl

/-- the subset that two lists make up -/
structure Taken (c : Choice) (L M : List α) (s : Subset α) : Prop where
  elements : s.domain.elements = L
  positions : ∀ i, i ∈ s.positions ↔ ∃ a, L[i]? = some a ∧ ∃ e ∈ M, (a == e) = true
  choice : s.choice = c
  strategy : c.resolve L.length = .ok s.strategy
  /-- a form that is left open is settled by the size of the domain -/
  auto_compact_iff : c = .auto → (s.strategy = .compact ↔ L.length ≤ 64)

/-- the subset of the second list over the domain of the first -/
def assemble (c : Choice) (L M : List α) : Except Error (Subset α) :=
  match Domain.ofList L with
  | .error e => .error e
  | .ok d => Subset.ofList c d M

namespace Document

/-- the documents that hold the elements `L` as the domain and `M` as the members -/
inductive Holds (L M : List α) : Document α → Prop where
  | domainFirst : Holds L M (.record [⟨"domain", L⟩, ⟨"members", M⟩])
  | membersFirst : Holds L M (.record [⟨"members", M⟩, ⟨"domain", L⟩])
  | array : Holds L M (.array [L, M])

theorem announce_domain {draft : Draft α} (h : draft.domain = none) : draft.announce "domain" = .ok .domain := by
  change (if draft.domain.isSome then _ else _) = _
  rw [h]
  rfl

theorem announce_members {draft : Draft α} (h : draft.members = none) : draft.announce "members" = .ok .members := by
  change (if draft.members.isSome then _ else _) = _
  rw [h]
  rfl

theorem parts_of_holds {L M : List α} {doc : Document α} (h : doc.Holds L M) :
    doc.parts = ((Domain.ofList L).map fun d => (d, M)).mapError fun e => .refused (.broken e) := by
  cases h with
  | domainFirst =>
    simp only [parts, List.foldlM_cons, List.foldlM_nil, addEntry, announce_domain, Draft.set]
    generalize Domain.ofList L = r
    cases r <;> rfl
  | membersFirst =>
    simp only [parts, List.foldlM_cons, List.foldlM_nil, addEntry, announce_members, Draft.set]
    generalize Domain.ofList L = r
    cases r <;> rfl
  | array =>
    simp only [parts, Draft.set]
    generalize Domain.ofList L = r
    cases r <;> rfl

/-- all ways of holding two lists are read alike -/
theorem read_of_holds {c : Choice} {L M : List α} {doc : Document α} (h : doc.Holds L M) :
    doc.read c = (assemble c L M).mapError fun e => .refused (.broken e) := by
  rw [read, parts_of_holds h]
  unfold assemble restore
  cases Domain.ofList L with
  | error e => rfl
  | ok d =>
    change ((Subset.ofList c d M).mapError Refusal.broken).mapError ReadError.refused =
      (Subset.ofList c d M).mapError fun e => .refused (.broken e)
    cases Subset.ofList c d M <;> rfl

/-! ## No other documents -/

theorem ok_of_bind {ε β γ : Type} {r : Except ε β} {f : β → Except ε γ} {c : γ} (h : (r >>= f) = .ok c) :
    ∃ b, r = .ok b ∧ f b = .ok c := by
  cases r with
  | error e => cases h
  | ok b => exact ⟨b, rfl, h⟩

end Document

/-! ## Main result -/

/-- what comes of reading `L` as the domain and `M` as the members -/
structure Verdict (c : Choice) (L M : List α) (r : Except ReadError (Subset α)) : Prop where
  ok_iff : (∃ s, r = .ok s) ↔ Valid c L M
  taken : ∀ s, r = .ok s → Taken c L M s
  error_iff : ∀ why, r = .error why ↔ ∃ e, Breaks c L M e ∧ why = .refused (.broken e)

-- the repetition is reported, though the domain comes last and the members are foreign and given twice
example : (Document.record [⟨"members", [7, 7]⟩, ⟨"domain", [3, 1, 3]⟩] : Document Int).read .compact =
    .error (.refused (.broken (.duplicateElement 0 2))) := by rfl

theorem Breaks.of_coextensive {c : Choice} {L M M' : List α} (h : Coextensive M M') {e : Error} (hb : Breaks c L M e) :
    Breaks c L M' e := by
  cases hb with
  | repeated hr => exact .repeated hr
  | overflow hd hc hn => exact .overflow hd hc hn
  | foreign hd hfit he hforeign =>
    obtain ⟨e', he', hequal⟩ := h.exists_mem he
    refine .foreign hd hfit he' fun a ha => ?_
    rw [Unequal, beq_congr_right hequal]
    exact hforeign a ha

theorem Taken.positions_eq {c : Choice} {L M M' : List α} (h : Coextensive M M') {s t : Subset α} (hs : Taken c L M s)
    (ht : Taken c L M' t) : s.positions = t.positions := by
  have hnamed : ∀ {M M' : List α}, Coextensive M M' → ∀ a : α, (∃ e ∈ M, (a == e) = true) →
      ∃ e ∈ M', (a == e) = true := by
    intro M M' h a ha
    obtain ⟨e, he, hae⟩ := ha
    obtain ⟨e', he', hequal⟩ := h.exists_mem he
    exact ⟨e', he', BEq.trans hae (BEq.symm hequal)⟩
  refine Subset.positions_eq_of_places (Set.ext fun i => ?_)
  rw [Subset.mem_places, Subset.mem_places, hs.positions, ht.positions]
  exact exists_congr fun a => and_congr_right fun _ => ⟨hnamed h a, hnamed h.symm a⟩

/-- two answers that cannot be told apart by their errors, elements, positions and forms -/
structure ReadAlike (r r' : Except ReadError (Subset α)) : Prop where
  error_iff : ∀ why, r = .error why ↔ r' = .error why
  ok : ∀ s, r = .ok s → ∃ t, r' = .ok t ∧ t.domain.elements = s.domain.elements ∧ t.positions = s.positions ∧
    t.strategy = s.strategy ∧ t.choice = s.choice

theorem Verdict.alike {c : Choice} {L M M' : List α} (h : Coextensive M M') {r r' : Except ReadError (Subset α)}
    (hr : Verdict c L M r) (hr' : Verdict c L M' r') : ReadAlike r r' where
  error_iff why := by
    rw [hr.error_iff, hr'.error_iff]
    exact exists_congr fun e => and_congr_left fun _ => ⟨.of_coextensive h, .of_coextensive h.symm⟩
  ok s hs := by
    have htaken := hr.taken s hs
    cases hr'eq : r' with
    | error why =>
      obtain ⟨e, hbreaks, -⟩ := (hr'.error_iff why).1 hr'eq
      exact absurd (hr.ok_iff.1 ⟨s, hs⟩) (hbreaks.of_coextensive h.symm).not_valid
    | ok t =>
      have htaken' := hr'.taken t hr'eq
      refine ⟨t, rfl, ?_, (htaken.positions_eq h htaken').symm, ?_, ?_⟩
      · rw [htaken.elements, htaken'.elements]
      · exact Except.ok.inj (htaken'.strategy.symm.trans htaken.strategy)
      · rw [htaken.choice, htaken'.choice]

end SubsetAlgebra.Persisted
