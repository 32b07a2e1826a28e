/-
Elements of mixed kinds: integers, texts, texts whose case does not matter, and pairs.

Values of different kinds are never equal. A folded text is compared and ordered by its lower-case form and shown as
it was written, so two equal folded texts may look different: `key` is what equality sees of a value.
-/
import SubsetAlgebra.Presented

namespace SubsetAlgebra

/-- an element of one of four kinds -/
inductive Value where
  /-- an integer -/
  | int (n : Int)
  /-- a text -/
  | text (s : String)
  /-- a text in which the case of ASCII letters does not matter -/
  | folded (s : String)
  /-- an ordered pair -/
  | pair (first second : Value)
  deriving DecidableEq, Repr, Inhabited

namespace Value

/-- the value with every folded text in lower case -/
def key : Value → Value
  | int n => int n
  | text s => text s
  | folded s => folded s.toLower
  | pair a b => pair a.key b.key

instance : BEq Value := ⟨fun v w => decide (v.key = w.key)⟩

theorem beq_iff {v w : Value} : (v == w) = true ↔ v.key = w.key := decide_eq_true_iff

instance : EquivBEq Value where
  rfl := beq_iff.2 rfl
  symm h := beq_iff.2 (beq_iff.1 h).symm
  trans h k := beq_iff.2 ((beq_iff.1 h).trans (beq_iff.1 k))

/-- the imprint of a value's form: its kind, then what it holds -/
def imprint : Value → List Int
  | int n => [0, n]
  | text s => 1 :: Element.ofText s
  | folded s => 2 :: Element.ofText s
  | pair a b => 3 :: (a.imprint ++ b.imprint)

instance : Element Value where
  imprint v := v.key.imprint
  imprint_eq_of_beq h := congrArg imprint (beq_iff.1 h)

/-- the place of a value's kind in the order -/
def rank : Value → Nat
  | int _ => 0
  | text _ => 1
  | folded _ => 2
  | pair _ _ => 3

/-- the order of keys: by kind first, then by number, by text or by component -/
def compareKeys : Value → Value → Ordering
  | int m, int n => compare m n
  | text s, text t => compare s t
  | folded s, folded t => compare s t
  | pair a b, pair c d => (compareKeys a c).then (compareKeys b d)
  | v, w => compare v.rank w.rank

instance : Ord Value := ⟨fun v w => compareKeys v.key w.key⟩

/-! ## Showing -/

/-- plain text -/
def display : Value → String
  | int n => toString n
  | text s => s
  | folded s => s
  | pair a b => "(" ++ a.display ++ ", " ++ b.display ++ ")"

/-- structure -/
def layout : Value → Text.Layout
  | int n => .plain (toString n)
  | text s => .plain (Text.quote s)
  | folded s => .plain (Text.quote s)
  | pair a b => .record "Pair" [("first", a.layout), ("second", b.layout)]

/-- JSON, with a marker for folded texts and pairs -/
def tree : Value → Json.Tree
  | int n => .number n
  | text s => .text s
  | folded s => .object [("ci", .text s)]
  | pair a b => .object [("pair", .array [a.tree, b.tree])]

instance : Presented Value := ⟨display, layout, tree⟩

/-- a pair as a value -/
def ofPair (p : Pair Value Value) : Value := pair p.first p.second

/-! ## Relations between values -/

/-- some relations by which two sets of values can be joined -/
inductive Relation where
  /-- holds always -/
  | always
  /-- holds never -/
  | never
  /-- the values are equal -/
  | equal
  /-- the left value comes before the right one -/
  | before
  /-- the right value is the number of characters in the text of the left one -/
  | lengthIs
  /-- the right value is a non-zero integer that divides the left one -/
  | divisibleBy
  deriving DecidableEq, Repr

/-- whether the relation holds of two values -/
def Relation.holds : Relation → Value → Value → Bool
  | always, _, _ => true
  | never, _, _ => false
  | equal, v, w => v == w
  | before, v, w => compare v w == .lt
  | lengthIs, v, int n => n == v.display.length
  | lengthIs, _, _ => false
  | divisibleBy, int m, int n => n != 0 && Int.tmod m n == 0
  | divisibleBy, _, _ => false

end Value

end SubsetAlgebra
