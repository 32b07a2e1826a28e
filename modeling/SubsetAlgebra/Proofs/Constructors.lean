/-
All ways of building a subset agree.

A subset can be built from a list, element by element; from an operand; as the subset without members with something
joined to it; from a single element; or as the subset of all elements, which in turn is a word of ones, every element
taken over, or the complement of nothing. Each is written by itself and makes its checks in an order of its own.

They come to one thing nevertheless: what is built is what some operand names (`Founds`). Under a choice that does not
admit the domain every way is refused for that, whatever else is wrong with its arguments; otherwise it fails with the
fault of the operand and with nothing else, or it has the operand's selection, the domain and the choice that were asked
for, and the form that the choice settles on. Two ways that name the same are alike (`Founds.parallel`), so that
`constructors_agree` has only to say what each of them names.
-/
import Mathlib.Order.BooleanAlgebra.Set
import SubsetAlgebra.Proofs.KeptForm

namespace SubsetAlgebra

open Word (width)
open Operand (Answers Interchangeable)

variable {α : Type} [Element α]

/-- the elements of a domain have all its positions -/
theorem Domain.placesOf_elements (d : Domain α) : d.placesOf d.elements = {i | i < d.size} := by
  ext i
  constructor
  · rintro ⟨e, -, hi⟩
    exact indexOf_lt hi
  · intro hi
    obtain ⟨a, ha⟩ := exists_getElem? hi
    exact ⟨a, List.mem_of_getElem? ha, indexOf_of_getElem? ha⟩

namespace Subset

/-! ## What is built by naming something -/

/-- `r` is the attempt to build, under the choice `c`, the subset of `d` that `o` names -/
structure Founds (c : Choice) (d : Domain α) (o : Operand α) (r : Except Error (Subset α)) : Prop where
  refused : ¬ c.Admits d → r = .error (.wordOverflow d.size)
  answers : c.Admits d → Answers o d .reject r fun t => Built c d t (o.selection d)
  form : ∀ t, r = .ok t → c.resolve d.size = .ok t.strategy

section Founds

variable {c : Choice} {d : Domain α} {o o' : Operand α} {es : List α} {r r' : Except Error (Subset α)}

/-- ways of building that name the same give equal subsets, held alike, or fail with the same error -/
theorem Founds.parallel (h : Founds c d o r) (h' : Founds c d o' r') (ho : Interchangeable d d o o') :
    Parallel Twins r r' := by
  by_cases hc : c.Admits d
  · refine (ho.parallel (h.answers hc) (h'.answers hc)).of_results fun u v hu hv hb => ?_
    have hform : u.strategy = v.strategy := Except.ok.inj ((h.form u hu).symm.trans (h'.form v hv))
    exact .of_built hb.1 (hb.2.of_places ho.selection.symm) hform
  · rw [h.refused hc, h'.refused hc]
    exact .failed _

/-- a list of elements is named if a foreign one is refused and the positions of the others are taken -/
theorem Founds.of_list (refused : ¬ c.Admits d → r = .error (.wordOverflow d.size))
    (foreign : c.Admits d → (∃ e ∈ es, d.contains e = false) → r = .error .foreignElement)
    (known : c.Admits d → (∀ e ∈ es, d.contains e = true) → ∃ t, r = .ok t ∧ Built c d t (d.placesOf es))
    (form : ∀ t, r = .ok t → c.resolve d.size = .ok t.strategy) : Founds c d (.elements es) r where
  refused := refused
  answers hc := by
    have hlist := Operand.elements_lists es
    refine ⟨fun err hf => ?_, fun hnone => ?_⟩
    · obtain ⟨-, rfl, hforeign⟩ := (hlist.fault_iff err).1 hf
      exact foreign hc hforeign
    · rcases d.foreign_or_known es with hforeign | hknown
      · exact absurd ((hlist.fault_iff _).2 ⟨rfl, rfl, hforeign⟩) (hnone _)
      · rw [hlist.selection_eq]
        exact known hc hknown
  form := form

/-- a list of known elements is named by whatever has their positions -/
theorem Founds.of_known (hes : ∀ e ∈ es, d.contains e = true)
    (refused : ¬ c.Admits d → r = .error (.wordOverflow d.size))
    (built : c.Admits d → ∃ t, r = .ok t ∧ Built c d t (d.placesOf es))
    (form : ∀ t, r = .ok t → c.resolve d.size = .ok t.strategy) : Founds c d (.elements es) r := by
  refine .of_list refused (fun _ hforeign => ?_) (fun hc _ => built hc) form
  obtain ⟨e, he, hd⟩ := hforeign
  rw [hes e he] at hd
  cases hd

end Founds

/-! ## What each way names -/

section Ways

variable (c : Choice) (d : Domain α)

theorem ofOperand_founds (o : Operand α) : Founds c d o (ofOperand c d o) where
  refused hc := ofOperand_refused hc o
  answers hc := ofOperand_answers hc o
  form _ := ofOperand_strategy

theorem ofList_founds (es : List α) : Founds c d (.elements es) (ofList c d es) :=
  .of_list (fun hc => ofList_refused hc es) (fun hc => ofList_foreign hc) (fun hc => ofList_built hc)
    fun _ => ofList_strategy

theorem ofWord_founds (w : UInt64) : Founds .compact d (.word w) (ofWord d w) := by
  rw [ofWord_eq]
  exact ofOperand_founds .compact d (.word w)

theorem empty_founds : Founds c d (.elements []) (empty c d) := by
  refine .of_known (fun e he => nomatch he) empty_refused (fun hc => ?_) fun _ => empty_strategy
  have hnone : d.placesOf [] = ∅ := by simp [Domain.placesOf]
  rw [hnone]
  exact empty_built hc

/-- joined to nothing, an operand gives what it names -/
theorem union_founds (o : Operand α) : Founds c d o ((empty c d).bind fun s => s.union o) where
  refused hc := by rw [empty_refused hc]; rfl
  answers hc := by
    obtain ⟨s, hs, hb⟩ := empty_built hc
    have hunion := s.union_answers o
    rw [hb.domain, hb.places, Set.empty_union] at hunion
    rw [hs]
    exact hunion.trans (fun _ he => he) fun t ht _ hrev => ⟨t, ht, hb.revised hrev⟩
  form t ht := by
    cases hs : empty c d with
    | error err => rw [hs] at ht; cases ht
    | ok s =>
      rw [hs] at ht
      rw [empty_strategy hs, ((s.union_answers o).good ht).strategy]

theorem singleton_founds (e : α) : Founds c d (.elements [e]) (singleton c d e) := by
  refine .of_list (fun hc => ?_) (fun hc hforeign => ?_) (fun hc hknown => ?_) fun _ => singleton_strategy
  · simp only [singleton, empty_refused hc]
  · obtain ⟨s, hs, hb⟩ := empty_built hc
    have hnone : s.domain.indexOf e = none := by
      rw [hb.domain]
      simpa [Domain.indexOf_eq_none_iff] using hforeign
    simp only [singleton, hs, insert_foreign hnone]
    rfl
  · obtain ⟨s, hs, hb⟩ := empty_built hc
    obtain ⟨i, hi⟩ := Domain.contains_iff_indexOf.1 (hknown e List.mem_cons_self)
    obtain ⟨t, ht, hrev⟩ := insert_known (s := s) (by rw [hb.domain]; exact hi)
    refine ⟨t, by simp only [singleton, hs, ht]; rfl, (hb.revised hrev).of_places ?_⟩
    rw [hb.places, placesOf_cons hi]
    simp [Domain.placesOf]

theorem full_refused {c : Choice} {d : Domain α} (hc : ¬ c.Admits d) : full c d = .error (.wordOverflow d.size) := by
  cases c with
  | auto | general => exact absurd nofun hc
  | compact =>
    have hover : d.fullWord = .error (.wordOverflow d.size) := if_pos (Nat.lt_of_not_le fun hle => hc fun _ => hle)
    simp only [full, CompactSubset.full]
    split
    · next e he => rw [hover] at he; cases he; rfl
    · next w hw => rw [hover] at hw; cases hw

theorem full_founds : Founds c d (.elements d.elements) (full c d) := by
  refine .of_known (fun _ => Domain.contains_of_mem) full_refused (fun hc => ?_) fun _ => full_strategy
  rw [d.placesOf_elements]
  exact full_built hc

/-- the complement of nothing -/
theorem complement_founds : Founds c d (.elements d.elements) ((empty c d).map complement) := by
  refine .of_known (fun _ => Domain.contains_of_mem) (fun hc => ?_) (fun hc => ?_) fun t ht => ?_
  · rw [empty_refused hc]; rfl
  · obtain ⟨s, hs, hb⟩ := empty_built hc
    refine ⟨s.complement, by rw [hs]; rfl, (hb.revised s.complement_revised).of_places ?_⟩
    rw [hb.places, hb.domain, Set.sdiff_empty, d.placesOf_elements]
  · obtain ⟨s, hs, rfl⟩ := ok_of_map ht
    rw [empty_strategy hs, s.complement_revised.strategy]

/-- a policy asks for nothing that a choice could not -/
theorem emptyUnder_refused {c : Choice} {d : Domain α} (hc : ¬ c.Admits d) :
    emptyUnder c d = .error (.wordOverflow d.size) := by
  cases c with
  | auto | general => exact absurd nofun hc
  | compact =>
    have hover : Choice.compact.resolve d.size = .error (.wordOverflow d.size) :=
      if_pos (Nat.lt_of_not_le fun hle => hc fun _ => hle)
    simp only [emptyUnder, hover]

theorem emptyUnder_auto : emptyUnder .auto d = .ok (emptyAuto d) := by
  by_cases hd : d.size ≤ width
  · have hform : Choice.auto.resolve d.size = .ok .compact := if_pos hd
    simp only [emptyUnder, hform, CompactSubset.empty, emptyAuto, dif_pos hd]
    rfl
  · have hform : Choice.auto.resolve d.size = .ok .general := if_neg hd
    simp only [emptyUnder, hform, emptyAuto, dif_neg hd]

/-- under a policy that asks for a word, the one thing that can be wrong is that the domain does not fit in one -/
theorem emptyUnder_compact_error_iff (err : Error) :
    emptyUnder .compact d = .error err ↔ empty .compact d = .error err := by
  by_cases hd : Choice.compact.Admits d
  · obtain ⟨t, ht, -⟩ := empty_built hd
    have hform : Choice.compact.resolve d.size = .ok .compact := if_neg (Nat.not_lt.2 (hd rfl))
    simp only [emptyUnder, hform, ht, CompactSubset.empty, dif_pos (hd rfl)]
    simp [Except.map]
  · rw [emptyUnder_refused hd, empty_refused hd]

end Ways

/-- where a choice does not admit the domain, every way of building is refused for that and nothing else -/
theorem build_refused {d : Domain α} {r : Store.Recipe α} (h : ¬ r.choice.Admits d) :
    r.build d = .error (.wordOverflow d.size) := by
  cases r with
  | empty c => exact (empty_founds c d).refused h
  | emptyUnder c => exact emptyUnder_refused h
  | full c => exact (full_founds c d).refused h
  | singleton c e => exact (singleton_founds c d e).refused h
  | ofList c es => exact (ofList_founds c d es).refused h
  | ofOperand c o => exact (ofOperand_founds c d o).refused h
  | ofWord w => exact (ofWord_founds d w).refused h

/-! ## Domains made on the way -/

/-- elements that are to make up their own domain are refused as the domain is -/
theorem ofDistinct_error_iff (es : List α) (err : Error) :
    ofDistinct es = .error err ↔ Domain.ofList es = .error err := by
  unfold ofDistinct
  cases Domain.ofList es <;> simp [Except.map]

/-- over a copy of the domain that is made of its elements, the subset of all is the same -/
theorem ofDistinct_elements (d : Domain α) : ∃ t, ofDistinct d.elements = .ok t ∧ t.same (fullAuto d) = true ∧
    t.strategy = (fullAuto d).strategy ∧ t.adaptive = (fullAuto d).adaptive := by
  obtain ⟨d', hd', helements⟩ := Domain.ofList_elements d
  have hsize : d'.size = d.size := congrArg List.length helements
  obtain ⟨t, ht, hb⟩ := full_built (c := .auto) (d := d') nofun
  obtain ⟨u, hu, hb'⟩ := full_built (c := .auto) (d := d) nofun
  cases ht
  cases hu
  refine ⟨fullAuto d', by rw [ofDistinct, hd']; rfl, (same_iff _ _).2 ⟨?_, ?_⟩, ?_, ?_⟩
  · rw [hb.domain, hb'.domain]
    exact Domain.same_of_elements_eq helements
  · rw [hb.places, hb'.places, hsize]
  · have hform := fullAuto_strategy d'
    rw [hsize, fullAuto_strategy d] at hform
    exact (Except.ok.inj hform).symm
  · rw [(adaptive_iff_choice _).2 hb.choice, (adaptive_iff_choice _).2 hb'.choice]

/-! ## Main result -/

/-- the ways of building subsets of `d` -/
structure BuiltAlike (d : Domain α) : Prop where
  /-- element by element and as a list -/
  elements : ∀ c es, Parallel Twins (ofList c d es) (ofOperand c d (.elements es))
  /-- as a set, by any representatives -/
  members : ∀ c es (m : Members α), Coextensive es m.toList →
    Parallel Twins (ofList c d es) (ofOperand c d (.members m))
  /-- joined to nothing -/
  union : ∀ c es, Parallel Twins (ofList c d es) ((empty c d).bind fun s => s.union (.elements es))
  singleton : ∀ c e, Parallel Twins (singleton c d e) (ofList c d [e])
  full_complement : ∀ c, Parallel Twins (full c d) ((empty c d).map complement)
  full_ofList : ∀ c, Parallel Twins (full c d) (ofList c d d.elements)
  full_auto : full .auto d = .ok (fullAuto d)
  ofDistinct : ∃ t, ofDistinct d.elements = .ok t ∧ t.same (fullAuto d) = true ∧
    t.strategy = (fullAuto d).strategy ∧ t.adaptive = (fullAuto d).adaptive
  emptyUnder_auto : emptyUnder .auto d = .ok (emptyAuto d)
  emptyUnder_compact : ∀ err, emptyUnder .compact d = .error err ↔ empty .compact d = .error err
  /-- a domain too large for a word, before anything else that may be wrong -/
  overflow : 64 < d.size → ∀ r : Store.Recipe α, r.choice = .compact → r.build d = .error (.wordOverflow d.size)

theorem builtAlike (d : Domain α) : BuiltAlike d where
  elements c es := (ofList_founds c d es).parallel (ofOperand_founds c d _) (.refl d _)
  members c es m hm := by
    refine (ofList_founds c d es).parallel (ofOperand_founds c d _) ?_
    exact .of_lists (Operand.elements_lists es) (Operand.members_lists m) (Domain.same_refl d) hm
  union c es := (ofList_founds c d es).parallel (union_founds c d _) (.refl d _)
  singleton c e := (singleton_founds c d e).parallel (ofList_founds c d [e]) (.refl d _)
  full_complement c := (full_founds c d).parallel (complement_founds c d) (.refl d _)
  full_ofList c := (full_founds c d).parallel (ofList_founds c d _) (.refl d _)
  full_auto := rfl
  ofDistinct := ofDistinct_elements d
  emptyUnder_auto := emptyUnder_auto d
  emptyUnder_compact := emptyUnder_compact_error_iff d
  overflow hd r hr := by
    refine build_refused fun hadm => ?_
    rw [hr] at hadm
    have : d.size ≤ 64 := hadm rfl
    omega

/-- **All ways of building agree.** Over any domain and under any choice, what is built from elements one by one, from
them as an operand and by joining them to nothing are equal subsets, held alike, or the same error, and so are the
subset of one element and that of a list of one, and the three ways of taking all elements. Where the domain is too
large for a word, whatever asks for a compact subset fails with that. Elements that make up their own domain are refused
as that domain is. -/
theorem constructors_agree :
    (∀ d : Domain α, BuiltAlike d) ∧
    ∀ (es : List α) (err : Error), ofDistinct es = .error err ↔ Domain.ofList es = .error err :=
  ⟨builtAlike, ofDistinct_error_iff⟩

end Subset

end SubsetAlgebra
