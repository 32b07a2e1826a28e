/-
Steps of a session.

The pairs that a session tells of a product and the questions that it tells of a semijoin are those that are known of
them, in their order (`answer_visits`, `attempt_semijoin`). The relations by which it joins answer alike for equal
values (`Relation.holds_congr`), so the laws of semijoins hold of them over any equal domains. A step that binds nothing
and takes no fingerprint leaves the workspace as it is (`attempt_keeps`).
-/
import SubsetAlgebra.Proofs.Acceptance
import SubsetAlgebra.Proofs.Semijoin
import SubsetAlgebra.Session.Ledger

namespace SubsetAlgebra

/-! ## Relations of sessions -/

namespace Value

/-- how the letters of a value are written does not change how many they are -/
theorem length_display_key (v : Value) : v.key.display.length = v.display.length := by
  induction v with
  | int n => rfl
  | text s => rfl
  | folded s => exact String.length_map
  | pair a b iha ihb => simp only [key, display, String.length_append, iha, ihb]

/-- equal values are one integer, or none of them is any -/
theorem int_or_not {v w : Value} (h : (v == w) = true) :
    (∃ n, v = int n ∧ w = int n) ∨ (∀ n, v ≠ int n) ∧ ∀ n, w ≠ int n := by
  have hkey := beq_iff.1 h
  cases v <;> cases w <;> simp_all [key]

namespace Relation

/-- a relation answers alike for equal values -/
theorem holds_congr (r : Relation) {a a' b b' : Value} (ha : (a == a') = true) (hb : (b == b') = true) :
    r.holds a b = r.holds a' b' := by
  have hakey := beq_iff.1 ha
  have hbkey := beq_iff.1 hb
  cases r with
  | always => rfl
  | never => rfl
  | equal =>
    change decide (a.key = b.key) = decide (a'.key = b'.key)
    rw [hakey, hbkey]
  | before =>
    change (compareKeys a.key b.key == .lt) = (compareKeys a'.key b'.key == .lt)
    rw [hakey, hbkey]
  | lengthIs =>
    rcases int_or_not hb with ⟨n, rfl, rfl⟩ | ⟨hb, hb'⟩
    · rw [holds, holds, ← a.length_display_key, hakey, a'.length_display_key]
    · cases b <;> cases b' <;> simp_all [holds]
  | divisibleBy =>
    rcases int_or_not ha with ⟨m, rfl, rfl⟩ | ⟨ha, ha'⟩
    · rcases int_or_not hb with ⟨n, rfl, rfl⟩ | ⟨hb, hb'⟩
      · rfl
      · cases b <;> cases b' <;> simp_all [holds]
    · cases a <;> cases a' <;> simp_all [holds]

/-- so the laws of semijoins hold of it over any equal domains -/
theorem blind (r : Relation) (d d' e e' : Domain Value) : Subset.Blind r.holds d d' e e' :=
  Subset.blind_of_respects (fun _ _ _ _ => r.holds_congr) d d' e e'

end Relation

end Value

namespace Session

open Persisted.Document (ok_of_bind)

/-! ## Products and semijoins in a session -/

namespace Workspace

/-- noting the pairs of a list one after the other -/
theorem run_record (qs : List (Pair Value Value)) (calls : Calls) :
    (forM qs fun q => record q.first q.second).run calls = ((), qs.reverse ++ calls) :=
  Pair.run_forM_modify qs calls

/-- a product visits the pairs in its order, and says how many they are -/
theorem answer_visits (s t : Subset Value) :
    answerComparison s t .visits = .visits (s.toList.length * t.toList.length) (Pair.product s.toList t.toList) := by
  have hrun : (s.productM t record).run [] =
      (s.toList.length * t.toList.length, (Pair.product s.toList t.toList).reverse) := by
    rw [Subset.productM, Pair.productM_eq, StateT.run_bind, run_record, List.append_nil]
    rfl
  simp only [answerComparison, hrun, List.reverse_reverse]

/-- a semijoin is bound, and told with the questions in their order -/
theorem attempt_semijoin (w : Workspace) (into a b : String) (r : Value.Relation) :
    w.attempt (.semijoin into a b r) = (do
      let s ← w.subset a
      let t ← w.subset b
      return (w.setSubset into (s.semijoin t r.holds),
        .joined (state (s.semijoin t r.holds)) (questions r.holds s.toList t.toList))) := by
  simp only [attempt]
  congr 1
  funext s
  congr 1
  funext t
  have hrun : (s.semijoinM t fun v u => do record v u; return r.holds v u).run [] =
      (s.semijoin t r.holds, (questions r.holds s.toList t.toList).reverse) := by
    rw [s.semijoinM_asks, StateT.run_bind, run_record, List.append_nil]
    rfl
  simp only [hrun, List.reverse_reverse]

/-- a question that takes no fingerprint leaves the workspace as it is -/
theorem attempt_ask (w : Workspace) (a : String) {q : Query} (hq : q ≠ .digest) :
    w.attempt (.ask a q) = (do return (w, answerQuery (← w.subset a) q)) := by
  cases q with
  | digest => exact absurd rfl hq
  | _ => rfl

theorem attempt_compare (w : Workspace) (a b : String) {c : Comparison} (hc : c ≠ .same) :
    w.attempt (.compare a b c) = (do
      let s ← w.subset a
      return (w, answerComparison s (← w.subset b) c)) := by
  cases c with
  | same => exact absurd rfl hc
  | _ => rfl

/-! ## Steps that bind nothing -/

/-- a step that binds nothing and takes no fingerprint -/
inductive Keeps : Step → Prop where
  | domainInfo (d : String) : Keeps (.domainInfo d)
  | domainGet (d : String) (i : Nat) : Keeps (.domainGet d i)
  | domainAt (d : String) (i : Nat) : Keeps (.domainAt d i)
  | domainIndexOf (d : String) (e : Value) : Keeps (.domainIndexOf d e)
  | domainContains (d : String) (e : Value) : Keeps (.domainContains d e)
  | domainSame (d e : String) : Keeps (.domainSame d e)
  | ask (a : String) {q : Query} : q ≠ .digest → Keeps (.ask a q)
  | compare (a b : String) {c : Comparison} : c ≠ .same → Keeps (.compare a b c)
  | describe (src : Source) : Keeps (.describe src)

/-- such a step leaves the workspace as it is -/
theorem attempt_keeps {w w' : Workspace} {x : Step} {answer : Answer} (hx : Keeps x)
    (h : w.attempt x = .ok (w', answer)) : w' = w := by
  cases hx with
  | domainInfo d | domainIndexOf d e | domainContains d e | describe src =>
    obtain ⟨_, -, hw⟩ := ok_of_bind h
    cases hw
    rfl
  | domainGet d i | domainSame d e =>
    obtain ⟨_, -, h⟩ := ok_of_bind h
    obtain ⟨_, -, hw⟩ := ok_of_bind h
    cases hw
    rfl
  | domainAt d i =>
    obtain ⟨d, -, h⟩ := ok_of_bind h
    cases he : d.elements[i]? with
    | none => rw [he] at h; cases h
    | some e =>
      rw [he] at h
      cases h
      rfl
  | ask a hq =>
    rw [attempt_ask w a hq] at h
    obtain ⟨_, -, hw⟩ := ok_of_bind h
    cases hw
    rfl
  | compare a b hc =>
    rw [attempt_compare w a b hc] at h
    obtain ⟨_, -, h⟩ := ok_of_bind h
    obtain ⟨_, -, hw⟩ := ok_of_bind h
    cases hw
    rfl

/-! ## Steps that bind something -/

/-- converting binds what comes of it -/
theorem attempt_convert (w : Workspace) {into a : String} {s : Subset Value} {c : Conversion}
    {r : Except Failure (Subset Value)} (hs : w.subset a = .ok s) (hc : convert s c = r.map some) :
    w.attempt (.convert into a c) = (do return w.makeSubset into (← r)) := by
  rw [attempt, hs]
  change (convert s c >>= _) = _
  rw [hc]
  cases r <;> rfl

theorem attempt_convert_not_held (w : Workspace) {into a : String} {s : Subset Value} {c : Conversion}
    (hs : w.subset a = .ok s) (hc : convert s c = .ok none) : w.attempt (.convert into a c) = .ok (w, .notHeldSo) := by
  rw [attempt, hs]
  change (convert s c >>= _) = _
  rw [hc]
  rfl

/-- of two bindings of a name in a row the latest counts -/
theorem setSubset_setSubset (w : Workspace) (name : String) (s t : Subset Value) :
    (w.setSubset name s).setSubset name t = w.setSubset name t := by
  simp only [setSubset, List.filter_cons, bne_self_eq_false, Bool.false_eq_true, if_false, List.filter_filter,
    Bool.and_self]

/-- a recipe of the session is built as the store builds its own -/
theorem build_eq (w : Workspace) (d : Domain Value) (r : Recipe) :
    w.build d r = (do checked ((← w.recipeOf r).build d)) := by
  cases r with
  | ofSource c src =>
    rw [build, recipeOf]
    cases w.operand src <;> rfl
  | _ => rfl

/-- deriving has nothing to say of what came of it -/
theorem outcome_of_changeOf {w : Workspace} {x : Derivation} {c : Change Value Value} (hc : w.changeOf x = .ok c)
    {s t : Subset Value} {r : Outcome} (h : c.apply s = .ok (t, r)) : r = .done := by
  have hmap : ∀ y : Except Error (Subset Value), y.map (fun t => (t, Outcome.done)) = .ok (t, r) → r = .done := by
    intro y hy
    cases y <;> cases hy
    rfl
  cases x with
  | union src | inter src | diff src | reattach d =>
    obtain ⟨_, -, hc⟩ := ok_of_bind hc
    cases hc
    exact hmap _ h
  | complement =>
    cases hc
    cases h
    rfl

/-! ## Two answers side by side -/

/-- both fail for one reason, or both succeed and `R` holds of the results -/
inductive Paired {β γ : Type} (R : β → γ → Prop) : Except Failure β → Except Failure γ → Prop where
  | failed (f : Failure) : Paired R (.error f) (.error f)
  | done {b : β} {c : γ} : R b c → Paired R (.ok b) (.ok c)

theorem Paired.refl {β : Type} (x : Except Failure β) : Paired Eq x x := by
  cases x with
  | error f => exact .failed f
  | ok b => exact .done rfl

theorem Paired.bind {β γ β' γ' : Type} {R : β → γ → Prop} {S : β' → γ' → Prop} {x : Except Failure β}
    {y : Except Failure γ} {f : β → Except Failure β'} {g : γ → Except Failure γ'} (h : Paired R x y)
    (hRS : ∀ b c, R b c → Paired S (f b) (g c)) : Paired S (x >>= f) (y >>= g) := by
  cases h with
  | failed e => exact .failed e
  | done hR => exact hRS _ _ hR

theorem Paired.map {β γ β' γ' : Type} {R : β → γ → Prop} {S : β' → γ' → Prop} {x : Except Failure β}
    {y : Except Failure γ} {f : β → β'} {g : γ → γ'} (h : Paired R x y) (hRS : ∀ b c, R b c → S (f b) (g c)) :
    Paired S (x.map f) (y.map g) := by
  cases h with
  | failed e => exact .failed e
  | done hR => exact .done (hRS _ _ hR)

theorem Paired.mono {β γ : Type} {R S : β → γ → Prop} {x : Except Failure β} {y : Except Failure γ} (h : Paired R x y)
    (hRS : ∀ b c, R b c → S b c) : Paired S x y := by
  cases h with
  | failed e => exact .failed e
  | done hR => exact .done (hRS _ _ hR)

theorem paired_checked {β : Type} {f : β → β} {r r' : Except Error β} (h : r.map f = r'.map f) :
    Paired (fun b c => f b = f c) (checked r) (checked r') := by
  cases r with
  | error e =>
    cases r' with
    | error e' => cases h; exact .failed _
    | ok c => cases h
  | ok b =>
    cases r' with
    | error e' => cases h
    | ok c => exact .done (Except.ok.inj h)

end Workspace

end Session

end SubsetAlgebra
