/-
The persisted form: nothing is lost by it, and there is one for each subset.

A subset is written as the elements of its domain and its members in domain order. What is read back, under whatever
choice can be had, has the same elements and the same positions (`Recovered`); both as a document of elements and as
JSON text, if the elements themselves are read back from their text (`Legible`).

The form shows the elements of the domain and the positions and nothing else (`ofSubset_congr`, `tree_congr`): neither
how a subset is held nor how it came about. So where equal elements are identical, two subsets have the same form iff
they are equal.
-/
import SubsetAlgebra.Proofs.ElementText
import SubsetAlgebra.Proofs.Equality
import SubsetAlgebra.Subset.Presented

namespace SubsetAlgebra.Persisted

open Json (ReadError Refusal)
open Json.Scan
open Presented (tree)
open Word (width)

variable {α : Type} [Element α]

/-! ## What is read back -/

/-- every way of reading that can be had gives the subset back, and only a compact form may not be had -/
structure Recovered (s : Subset α) (read : Choice → Except ReadError (Subset α)) : Prop where
  own : ∃ t, read s.choice = .ok t
  auto : ∃ t, read .auto = .ok t
  general : ∃ t, read .general = .ok t
  compact_iff : (∃ t, read .compact = .ok t) ↔ s.domain.size ≤ width
  refused : ∀ c why, read c = .error why → why = .refused (.broken (.wordOverflow s.domain.size))
  faithful : ∀ c t, read c = .ok t → t.choice = c ∧ t.domain.elements = s.domain.elements ∧ t.positions = s.positions ∧
    t.same s = true ∧ t.digest = s.digest

/-- the members over a domain of the same elements -/
theorem restore_ok {s : Subset α} {d : Domain α} (hd : d.elements = s.domain.elements) {c : Choice}
    (hc : c.Admits s.domain) :
    ∃ t, restore c (d, s.toList) = .ok t ∧ t.choice = c ∧ t.domain = d ∧ t.places = s.places := by
  have hsame : d.same s.domain = true := Domain.same_of_elements_eq hd
  obtain ⟨t, ht, hb⟩ := Subset.ofList_built ((Choice.admits_iff_of_same hsame c).2 hc) fun _ =>
    Operand.contains_of_mem_toList hsame
  refine ⟨t, by rw [restore, ht]; rfl, hb.choice, hb.domain, hb.places.trans ?_⟩
  exact Operand.placesOf_toList hsame

theorem restore_refused {s : Subset α} {d : Domain α} (hd : d.elements = s.domain.elements) {c : Choice}
    (hc : ¬ c.Admits s.domain) : restore c (d, s.toList) = .error (.broken (.wordOverflow s.domain.size)) := by
  have hsame : d.same s.domain = true := Domain.same_of_elements_eq hd
  have hadm : ¬ c.Admits d := fun h => hc ((Choice.admits_iff_of_same hsame c).1 h)
  rw [restore, Subset.ofList_refused hadm, Domain.size_eq_of_same hsame]
  rfl

/-- a reader that restores the members over a domain of the same elements recovers the subset -/
theorem Recovered.of_restore {s : Subset α} {d : Domain α} (hd : d.elements = s.domain.elements)
    {read : Choice → Except ReadError (Subset α)}
    (h : ∀ c, read c = (restore c (d, s.toList)).mapError .refused) : Recovered s read := by
  have hrefused : ∀ c : Choice, ¬ c.Admits s.domain →
      read c = .error (.refused (.broken (.wordOverflow s.domain.size))) := by
    intro c hc
    rw [h, restore_refused hd hc]
    rfl
  have hok : ∀ c : Choice, (∃ t, read c = .ok t) ↔ c.Admits s.domain := by
    intro c
    constructor
    · rintro ⟨t, ht⟩
      by_contra hc
      rw [hrefused c hc] at ht
      cases ht
    · intro hc
      obtain ⟨t, ht, -⟩ := restore_ok hd hc
      exact ⟨t, by rw [h, ht]; rfl⟩
  exact
  { own := (hok _).2 s.admits_choice
    auto := (hok _).2 nofun
    general := (hok _).2 nofun
    compact_iff := (hok .compact).trans ⟨fun hc => hc rfl, fun hfit _ => hfit⟩
    refused := by
      intro c why hwhy
      have hc : ¬ c.Admits s.domain := by
        intro hc
        obtain ⟨t, ht⟩ := (hok c).2 hc
        rw [ht] at hwhy
        cases hwhy
      rw [hrefused c hc] at hwhy
      cases hwhy
      rfl
    faithful := by
      intro c t ht
      obtain ⟨u, hu, hchoice, hdom, hplaces⟩ := restore_ok hd ((hok c).1 ⟨t, ht⟩)
      rw [h, hu] at ht
      cases ht
      have helements : t.domain.elements = s.domain.elements := by rw [hdom, hd]
      have hsame : t.same s = true := (Subset.same_iff t s).2 ⟨Domain.same_of_elements_eq helements, hplaces⟩
      exact ⟨hchoice, helements, Subset.positions_of_same hsame, hsame, Subset.digest_eq_of_same hsame⟩ }

/-! ## Documents -/

theorem Draft.set_domain {es : List α} {d : Domain α} (h : Domain.ofList es = .ok d) :
    ({} : Draft α).set .domain es = .ok ⟨some d, none⟩ := by
  simp only [Draft.set, h]
  rfl

theorem parts_ofSubset {s : Subset α} {d : Domain α} (hd : Domain.ofList s.domain.elements = .ok d) :
    (Document.ofSubset s).parts = .ok (d, s.toList) := by
  have hdomain : Document.addEntry ({} : Draft α) ⟨Field.domain.name, s.domain.elements⟩ = .ok ⟨some d, none⟩ :=
    Draft.set_domain hd
  rw [Document.ofSubset, Document.parts, List.foldlM_cons, hdomain]
  rfl

theorem document_recovered (s : Subset α) : Recovered s fun c => (Document.ofSubset s).read c := by
  obtain ⟨d, hd, helements⟩ := s.domain.ofList_elements
  refine .of_restore helements fun c => ?_
  rw [Document.read, parts_ofSubset hd]
  rfl

/-! ## Texts -/

section Texts

variable [Presented α] [Readable α]

/-- the text of a domain whose elements can be read back -/
theorem readDomain_tree {d : Domain α} (legible : ∀ e ∈ d.elements, Legible e) :
    ∃ d', readDomain d.tree.compact = .ok d' ∧ d'.elements = d.elements := by
  obtain ⟨d', hd', helements⟩ := d.ofList_elements
  have hread := reads_array legible []
  rw [List.append_nil] at hread
  refine ⟨d', ?_, helements⟩
  rw [readDomain, Domain.tree, run_lift hread, hd']
  rfl

theorem scanField_list {draft draft' : Draft α} {f : Field} {es : List α} (legible : ∀ e ∈ es, Legible e)
    (hset : draft.set f es = .ok draft') (rest : List Char) :
    Reads (scanField draft f) ((Json.Tree.array (es.map tree)).compact.toList ++ rest) draft' rest := by
  refine (reads_array legible rest).bind ?_
  rw [hset]
  exact reads_lift draft' rest

theorem scanParts_tree {s : Subset α} (legible : ∀ e ∈ s.domain.elements, Legible e) {d : Domain α}
    (hd : Domain.ofList s.domain.elements = .ok d) (rest : List Char) :
    Reads scanParts (s.tree.compact.toList ++ rest) (d, s.toList) rest := by
  have hmembers : ∀ e ∈ s.toList, Legible e := fun e he => legible e (Domain.mem_of_mem_select he)
  refine reads_record (?_ : Fills _ _ _ (⟨some d, some s.toList⟩ : Draft α)) ?_ rest
  · refine .cons ⟨some d, none⟩ (fun rest _ => ?_) (.cons ⟨some d, some s.toList⟩ (fun rest _ => ?_) (.nil _))
    · exact (reads_lift Field.domain _).bind ((reads_colon _).bind (scanField_list legible (Draft.set_domain hd) rest))
    · exact (reads_lift Field.members _).bind ((reads_colon _).bind (scanField_list hmembers rfl rest))
  · rfl

theorem text_recovered {s : Subset α} (legible : ∀ e ∈ s.domain.elements, Legible e) :
    Recovered s fun c => readSubset c s.tree.compact := by
  obtain ⟨d, hd, helements⟩ := s.domain.ofList_elements
  have hread := scanParts_tree legible hd []
  rw [List.append_nil] at hread
  exact .of_restore helements fun c => run_lift hread (restore c)

end Texts

/-! ## One form for each subset -/

theorem ofSubset_congr {s t : Subset α} (hd : s.domain.elements = t.domain.elements) (hp : s.positions = t.positions) :
    Document.ofSubset s = Document.ofSubset t := by
  simp only [Document.ofSubset, Subset.toList, Domain.select, hd, hp]

theorem tree_congr [Presented α] {s t : Subset α} (hd : s.domain.elements = t.domain.elements)
    (hp : s.positions = t.positions) : s.tree = t.tree := by
  simp only [Subset.tree, Domain.tree, Subset.toList, Domain.select, hd, hp]

/-- two subsets that are read back from one form are equal -/
theorem same_of_recovered {s t : Subset α} {read : Choice → Except ReadError (Subset α)} (hs : Recovered s read)
    (ht : Recovered t read) : s.same t = true := by
  obtain ⟨u, hu⟩ := hs.auto
  obtain ⟨-, -, -, hus, -⟩ := hs.faithful .auto u hu
  obtain ⟨-, -, -, hut, -⟩ := ht.faithful .auto u hu
  exact Subset.same_trans (Subset.same_symm hus) hut

/-- equal elements are identical -/
def Structural (α : Type) [Element α] : Prop := ∀ a b : α, (a == b) = true → a = b

theorem elements_eq_of_same (h : Structural α) {s t : Subset α} (hst : s.same t = true) :
    s.domain.elements = t.domain.elements := by
  have hequal := ((Subset.same_iff_forall₂ s t).1 hst).1
  rw [← List.forall₂_eq_eq_eq]
  exact hequal.imp h

/-- a form that is read back and shows the elements and the positions only is one for equal subsets and no others -/
theorem written_eq_iff {γ : Type} (write : Subset α → γ) {read : Choice → γ → Except ReadError (Subset α)}
    (structural : Structural α) {s t : Subset α} (hs : Recovered s fun c => read c (write s))
    (ht : Recovered t fun c => read c (write t))
    (congr : s.domain.elements = t.domain.elements → s.positions = t.positions → write s = write t) :
    write s = write t ↔ s.same t = true := by
  constructor
  · intro h
    rw [h] at hs
    exact same_of_recovered hs ht
  · intro h
    exact congr (elements_eq_of_same structural h) (Subset.positions_of_same h)

theorem structural_pair {β : Type} [Element β] (ha : Structural α) (hb : Structural β) : Structural (Pair α β) := by
  intro p q h
  obtain ⟨hfirst, hsecond⟩ := Bool.and_eq_true_iff.1 h
  obtain ⟨a, b⟩ := p
  obtain ⟨c, d⟩ := q
  cases ha a c hfirst
  cases hb b d hsecond
  rfl

/-! ## Main result -/

/-- the persisted form loses nothing, and shows the elements of the domain, the positions and nothing else -/
structure Canonical (α : Type) [Element α] [Presented α] [Readable α] : Prop where
  elements : ∀ d : Domain α, ∃ d', Domain.ofList d.elements = .ok d' ∧ d'.elements = d.elements ∧ d'.same d = true
  domain : ∀ d : Domain α, (∀ e ∈ d.elements, Legible e) →
    ∃ d', readDomain d.tree.compact = .ok d' ∧ d'.elements = d.elements ∧ d'.same d = true
  document : ∀ s : Subset α, Recovered s fun c => (Document.ofSubset s).read c
  text : ∀ s : Subset α, (∀ e ∈ s.domain.elements, Legible e) → Recovered s fun c => readSubset c s.tree.compact
  written_alike : ∀ s t : Subset α, s.domain.elements = t.domain.elements → s.positions = t.positions →
    Document.ofSubset s = Document.ofSubset t ∧ s.tree = t.tree
  document_eq_iff : Structural α → ∀ s t : Subset α, Document.ofSubset s = Document.ofSubset t ↔ s.same t = true
  text_eq_iff : Structural α → ∀ s t : Subset α, (∀ e ∈ s.domain.elements, Legible e) →
    (∀ e ∈ t.domain.elements, Legible e) → (s.tree.compact = t.tree.compact ↔ s.same t = true)

theorem canonical (α : Type) [Element α] [Presented α] [Readable α] : Canonical α where
  elements d := by
    obtain ⟨d', hd', helements⟩ := d.ofList_elements
    exact ⟨d', hd', helements, Domain.same_of_elements_eq helements⟩
  domain d legible := by
    obtain ⟨d', hread, helements⟩ := readDomain_tree legible
    exact ⟨d', hread, helements, Domain.same_of_elements_eq helements⟩
  document := document_recovered
  text _ := text_recovered
  written_alike _ _ hd hp := ⟨ofSubset_congr hd hp, tree_congr hd hp⟩
  document_eq_iff structural s t :=
    written_eq_iff Document.ofSubset structural (document_recovered s) (document_recovered t) ofSubset_congr
  text_eq_iff structural s t legible legible' :=
    written_eq_iff (fun s => s.tree.compact) structural (text_recovered legible) (text_recovered legible') fun hd hp =>
      congrArg Json.Tree.compact (tree_congr hd hp)

/-- equality is identity, and the values that fit are read back from their text -/
structure Plain (α : Type) [Element α] [Presented α] [Readable α] (Fits : α → Prop) : Prop where
  structural : Structural α
  legible : ∀ a, Fits a → Legible a

/-- numbers that fit in 64 bits with a sign -/
def FitsLong (n : Int) : Prop := -(2 : Int) ^ (63 : Nat) ≤ n ∧ n < (2 : Int) ^ (63 : Nat)

/-- **The persisted form is lossless and canonical.** This is so over every type of elements, as far as these are read
back from their own text; and over the types whose equality is identity all of them are. -/
theorem persisted_form_canonical :
    (∀ (α : Type) [Element α] [Presented α] [Readable α], Canonical α) ∧
    Plain Int FitsLong ∧
    Plain UInt8 (fun _ => True) ∧
    Plain Bool (fun _ => True) ∧
    Plain Char (fun _ => True) ∧
    Plain String (fun _ => True) ∧
    Plain (Pair Int String) (fun p => FitsLong p.first) := by
  have hint : Plain Int FitsLong := ⟨fun _ _ => eq_of_beq, fun _ h => legible_int h.1 h.2⟩
  have hstring : Plain String (fun _ => True) := ⟨fun _ _ => eq_of_beq, fun s _ => legible_string s⟩
  refine ⟨canonical, hint, ?_, ?_, ?_, hstring, ?_⟩
  · exact ⟨fun _ _ => eq_of_beq, fun n _ => legible_uint8 n⟩
  · exact ⟨fun _ _ => eq_of_beq, fun b _ => legible_bool b⟩
  · exact ⟨fun _ _ => eq_of_beq, fun c _ => legible_char c⟩
  · refine ⟨structural_pair hint.structural hstring.structural, fun p hp => ?_⟩
    exact legible_pair (hint.legible p.first hp) (hstring.legible p.second trivial)

end SubsetAlgebra.Persisted
