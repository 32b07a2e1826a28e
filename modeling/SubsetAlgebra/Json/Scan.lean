/-
Reading JSON text from left to right.

A `Scan` takes characters off the front of a text. Blanks, words, strings and numbers are read here, and values that
nobody wants are skipped; what the values mean is decided by who asks. Every step takes at least one character, so the
loops below run on as much fuel as there are characters left.
-/
import SubsetAlgebra.Decimal.Shortest
import SubsetAlgebra.Json.Refusal
import SubsetAlgebra.Text.Quoted

namespace SubsetAlgebra.Json

/-- a reader of a text, which may stop with an error -/
abbrev Scan (α : Type) := StateT (List Char) (Except ReadError) α

namespace Scan

/-! ## Characters -/

/-- stops because the content is not wanted -/
def refuse {α : Type} (why : Refusal) : Scan α := throw (.refused why)

/-- a rule of domains or subsets, as part of reading -/
def lift {α : Type} (r : Except Refusal α) : Scan α :=
  match r with
  | .ok a => pure a
  | .error why => refuse why

/-- the next character, left in place -/
def peek : Scan (Option Char) := do return (← get).head?

/-- takes the next character -/
def advance : Scan Unit := modify List.tail

/-- the next character, taken; a text that ends here ends too early -/
def next : Scan Char := do
  match ← get with
  | [] => throw .ended
  | c :: rest => set rest; return c

/-- blank characters between the parts of a text -/
def isBlank (c : Char) : Bool := c == ' ' || c == '\n' || c == '\t' || c == '\r'

/-- passes over blanks and looks at the next character -/
def peekPart : Scan (Option Char) := do
  modify (List.dropWhile isBlank)
  peek

/-- how much fuel the loops over the rest of the text need -/
def fuel : Scan Nat := do return (← get).length + 1

/-- takes the characters of a word, which have to follow -/
def word : List Char → Scan Unit
  | [] => pure ()
  | c :: cs => do
    if (← next) = c then word cs else throw .malformed

/-! ## Strings -/

/-- the value of a hexadecimal digit -/
def hexDigit? (c : Char) : Option Nat :=
  if '0' ≤ c ∧ c ≤ '9' then some (c.toNat - '0'.toNat)
  else if 'a' ≤ c ∧ c ≤ 'f' then some (c.toNat - 'a'.toNat + 10)
  else if 'A' ≤ c ∧ c ≤ 'F' then some (c.toNat - 'A'.toNat + 10)
  else none

/-- the value of four hexadecimal digits -/
def hexDigits (ds : List Char) : Option Nat :=
  ds.foldlM (fun n d => (hexDigit? d).map (16 * n + ·)) 0

/-- four hexadecimal digits; a text with fewer than four bytes left ends too early -/
def hex4 : Scan Nat := do
  let rest ← get
  let four := rest.take 4
  if four.foldr (fun c n => c.utf8Size + n) 0 < 4 then throw .ended
  set (rest.drop 4)
  match hexDigits four with
  | some n => return n
  | none => throw .malformed

/-- whether a 16-bit unit is the first of two -/
def isLeading (n : Nat) : Bool := 0xd800 ≤ n && n ≤ 0xdbff

/-- whether a 16-bit unit is the second of two -/
def isTrailing (n : Nat) : Bool := 0xdc00 ≤ n && n ≤ 0xdfff

/-- a character given by its 16-bit units, two of them where one is not enough -/
def unicode : Scan Char := do
  let n ← hex4
  if isTrailing n then throw .malformed
  if isLeading n then
    if (← next) ≠ '\\' then throw .malformed
    if (← next) ≠ 'u' then throw .malformed
    let m ← hex4
    if isTrailing m then return Char.ofNat ((n - 0xd800) * 0x400 + (m - 0xdc00) + 0x10000)
    else throw .malformed
  else return Char.ofNat n

/-- the character that a letter after a backslash stands for, where it stands for one alone -/
def escaped? : Char → Option Char
  | '"' => some '"'
  | '\\' => some '\\'
  | '/' => some '/'
  | 'b' => some '\x08'
  | 'f' => some '\x0c'
  | 'n' => some '\n'
  | 'r' => some '\r'
  | 't' => some '\t'
  | _ => none

/-- one character of a string, or none at the closing mark; `readUnicode` reads a character given by units -/
def stringPart (readUnicode : Scan Char) : Scan (Option Char) := do
  let c ← next
  if c = '"' then return none
  if c.toNat < 0x20 then throw .malformed
  if c ≠ '\\' then return some c
  let e ← next
  if e = 'u' then return some (← readUnicode)
  match escaped? e with
  | some c => return some c
  | none => throw .malformed

/-- the characters of a string up to its closing mark, after those in `done` (latest first) -/
def stringRest (readUnicode : Scan Char) (done : List Char) : Nat → Scan String
  | 0 => throw .ended
  | fuel + 1 => do
    match ← stringPart readUnicode with
    | none => return String.ofList done.reverse
    | some c => stringRest readUnicode (c :: done) fuel

/-- the rest of a string whose opening mark has been taken -/
def string : Scan String := do stringRest unicode [] (← fuel)

/-- passes over the rest of a string; units need not make up a character -/
def skipString : Scan Unit := do
  discard <| stringRest (do discard hex4; return ' ') [] (← fuel)

/-! ## Numbers -/

/-- a number as it is read: exactly where it is a whole number of at most 64 bits, approximately otherwise -/
inductive Numeral where
  | natural (n : Nat)
  | negative (n : Int)
  | real (x : Float)

/-- the numbers that a word can hold -/
def wordLimit : Nat := 2 ^ (64 : Nat)

/-- reads digits into a word as long as they fit: the word and how many were read and how many were left out -/
def readDigits (n : Nat) (ds : List Char) : Nat × Nat × Nat :=
  ds.foldl
    (fun (n, read, left) d =>
      let n' := 10 * n + (d.toNat - '0'.toNat)
      if left = 0 ∧ n' < wordLimit then (n', read + 1, 0) else (n, read, left + 1))
    (n, 0, 0)

/-- takes the digits that come next -/
def takeDigits : Scan (List Char) := do
  let rest ← get
  set (rest.dropWhile Char.isDigit)
  return rest.takeWhile Char.isDigit

/-- divides by a power of ten, in steps that are themselves numbers -/
def scaleDown (x : Float) (e : Nat) : Float :=
  if e ≤ 308 then x / Float.ofScientific 1 false e
  else if x == 0 then x
  else scaleDown (x / Float.ofScientific 1 false 308) (e - 308)
termination_by e

/-- the number `n * 10 ^ e`; one too large for its format is malformed -/
def scaled (positive : Bool) (n : Nat) (e : Int) : Scan Numeral := do
  let x := (UInt64.ofNat n).toFloat
  let y ←
    if e < 0 then pure (scaleDown x (-e).toNat)
    else if 308 < e then if x == 0 then pure x else throw .malformed
    else pure (x * Float.ofScientific 1 false e.toNat)
  if y.isInf then throw .malformed
  return .real (if positive then y else -y)

/-- the largest exponent that is read exactly -/
def exponentLimit : Nat := 2 ^ (31 : Nat)

/-- the exponent of a number, after its mark; `e` is the exponent that the digits have by themselves -/
def exponent (positive : Bool) (n : Nat) (e : Int) : Scan Numeral := do
  advance
  let up := (← peek) ≠ some '-'
  if (← peek) = some '+' ∨ (← peek) = some '-' then advance
  match ← get with
  | [] => throw .ended
  | c :: _ => if !c.isDigit then throw .malformed
  let ds ← takeDigits
  let k := ds.foldl (fun k d => 10 * k + (d.toNat - '0'.toNat)) 0
  if k < exponentLimit then scaled positive n (if up then e + k else e - k)
  else if n ≠ 0 ∧ up then throw .malformed
  else return .real (if positive then 0 else -0.0)

/-- an exponent, if one follows -/
def exponentOr (positive : Bool) (n : Nat) (e : Int) (otherwise : Scan Numeral) : Scan Numeral := do
  match ← peek with
  | some 'e' | some 'E' => exponent positive n e
  | _ => otherwise

/-- the digits after a point, and an exponent if one follows -/
def fraction (positive : Bool) (n : Nat) (e : Int) : Scan Numeral := do
  advance
  let ds ← takeDigits
  if ds.isEmpty then
    match ← peek with
    | none => throw .ended
    | some _ => throw .malformed
  let (n, read, _) := readDigits n ds
  let e := e - read
  exponentOr positive n e (scaled positive n e)

/-- a whole number without point and exponent; what has no place in 64 bits is taken approximately -/
def whole (positive : Bool) (n : Nat) : Numeral :=
  if positive then .natural n
  else if 0 < n ∧ n ≤ 2 ^ (63 : Nat) then .negative (-n)
  else .real (-(UInt64.ofNat n).toFloat)

/-- a number after its sign -/
def numeral (positive : Bool) : Scan Numeral := do
  match ← get with
  | [] => throw .ended
  | c :: _ => if !c.isDigit then throw .malformed
  let ds ← takeDigits
  if ds.head? = some '0' ∧ 1 < ds.length then throw .malformed
  let (n, _, left) := readDigits 0 ds
  if (← peek) = some '.' then fraction positive n left
  else exponentOr positive n left (if left = 0 then return whole positive n else scaled positive n left)

/-! ## Skipping -/

/-- passes over digits; without any the number is malformed -/
def skipDigits : Scan Unit := do
  if (← takeDigits).isEmpty then throw .malformed

/-- passes over an exponent, if one follows -/
def skipExponent : Scan Unit := do
  if (← peek) = some 'e' ∨ (← peek) = some 'E' then
    advance
    if (← peek) = some '+' ∨ (← peek) = some '-' then advance
    skipDigits

/-- passes over a number after its sign -/
def skipNumeral : Scan Unit := do
  let ds ← takeDigits
  if ds.isEmpty ∨ (ds.head? = some '0' ∧ 1 < ds.length) then throw .malformed
  if (← peek) = some '.' then
    advance
    skipDigits
  skipExponent

/-- passes over a key and the colon behind it -/
def skipKey : Scan Unit := do
  match ← peekPart with
  | some '"' => advance
  | some _ => throw .malformed
  | none => throw .ended
  skipString
  match ← peekPart with
  | some ':' => advance
  | some _ => throw .malformed
  | none => throw .ended

/-- passes over what may follow a value inside the open arrays (`true`) and objects (`false`), innermost first, up to
the next value; gives what is still open -/
def skipAfter (fresh : Bool) : List Bool → Scan (List Bool)
  | [] => return []
  | isArray :: outer => do
    match ← peekPart with
    | none => throw .ended
    | some c =>
      if c = (if isArray then ']' else '\x7d') then
        advance
        skipAfter false outer
      else
        if c = ',' ∧ !fresh then advance
        else if !fresh then throw .malformed
        if !isArray then skipKey
        return isArray :: outer

/-- passes over a value and whatever closes after it -/
def skipValues (frames : List Bool) : Nat → Scan Unit
  | 0 => throw .ended
  | fuel + 1 => do
    let (fresh, frames) ←
      match ← peekPart with
      | none => throw .ended
      | some 'n' => word "null".toList; pure (false, frames)
      | some 't' => word "true".toList; pure (false, frames)
      | some 'f' => word "false".toList; pure (false, frames)
      | some '"' => advance; skipString; pure (false, frames)
      | some '[' => advance; pure (true, true :: frames)
      | some '\x7b' => advance; pure (true, false :: frames)
      | some c =>
        if c = '-' then advance
        else if !c.isDigit then throw .malformed
        skipNumeral
        pure (false, frames)
    match ← skipAfter fresh frames with
    | [] => return
    | frames => skipValues frames fuel

/-- passes over a value of any kind -/
def skipValue : Scan Unit := do skipValues [] (← fuel)

/-! ## What was found instead -/

/-- the words for a number that is not wanted -/
def Numeral.found : Numeral → String
  | natural n => "integer `" ++ toString n ++ "`"
  | negative n => "integer `" ++ toString n ++ "`"
  | real x => "floating point `" ++ Decimal.ofFloat x ++ "`"

/-- the words for a string that is not wanted -/
def stringFound (s : String) : String := "string " ++ Text.quote s

/-- stops at a value of another kind than the wanted one, after reading as much of it as it takes to name it -/
def wrongType {α : Type} (wanted : String) : Scan α := do
  let found ← match ← peekPart with
    | none => throw .ended
    | some 'n' => word "null".toList; pure "null"
    | some 't' => word "true".toList; pure "boolean `true`"
    | some 'f' => word "false".toList; pure "boolean `false`"
    | some '"' => advance; pure (stringFound (← string))
    | some '[' => pure "sequence"
    | some '\x7b' => pure "map"
    | some c =>
      if c = '-' then
        advance
        pure (Numeral.found (← numeral false))
      else if c.isDigit then pure (Numeral.found (← numeral true))
      else throw .malformed
  refuse (.wrongType found wanted)

/-! ## Arrays and records -/

/-- whether an array has another item; `fresh` says that none has been read yet -/
def hasItem (fresh : Bool) : Scan Bool := do
  match ← peekPart with
  | none => throw .ended
  | some ']' => return false
  | some c =>
    if fresh then return true
    if c ≠ ',' then throw .malformed
    advance
    match ← peekPart with
    | none => throw .ended
    | some ']' => throw .malformed
    | some _ => return true

/-- the items of an array up to its closing bracket, after those in `done` (latest first) -/
def items {α : Type} (item : Scan α) (done : List α) : Nat → Scan (List α)
  | 0 => throw .ended
  | fuel + 1 => do
    if ← hasItem done.isEmpty then items item ((← item) :: done) fuel
    else
      advance
      return done.reverse

/-- an array, read with its items -/
def array {α : Type} (item : Scan α) : Scan (List α) := do
  match ← peekPart with
  | some '[' =>
    advance
    items item [] (← fuel)
  | _ => wrongType "a sequence"

/-- takes the bracket that has to close an array here -/
def closeArray : Scan Unit := do
  match ← peekPart with
  | some ']' => advance
  | some _ => throw .malformed
  | none => throw .ended

/-- the next key of a record, or none at its closing brace, which is taken; `fresh` says that none has been read yet -/
def key? (fresh : Bool) : Scan (Option String) := do
  match ← peekPart with
  | none => throw .ended
  | some '\x7d' => advance; return none
  | some c =>
    if !fresh then
      if c ≠ ',' then throw .malformed
      advance
    match ← peekPart with
    | none => throw .ended
    | some '"' => advance; return some (← string)
    | some _ => throw .malformed

/-- takes the colon that has to follow a key -/
def colon : Scan Unit := do
  match ← peekPart with
  | some ':' => advance
  | some _ => throw .malformed
  | none => throw .ended

/-- the fields of a record up to its closing brace: `field` reads the value of a key into the draft of the record -/
def fields {σ : Type} (field : σ → String → Scan σ) (draft : σ) (fresh : Bool) : Nat → Scan σ
  | 0 => throw .ended
  | fuel + 1 => do
    match ← key? fresh with
    | none => return draft
    | some key => fields field (← field draft key) false fuel

/-- a record of two parts, written with field names or as an array of two items: `field` reads a named value into a
draft, `item` the value at a place of the array; `finish` completes the draft -/
def record {σ β : Type} (name : String) (blank : σ) (field : σ → String → Scan σ) (item : σ → Bool → Scan σ)
    (finish : σ → Except Refusal β) : Scan β := do
  match ← peekPart with
  | some '\x7b' =>
    advance
    lift (finish (← fields field blank true (← fuel)))
  | some '[' =>
    advance
    if !(← hasItem true) then refuse (.tooShort 0 name)
    let draft ← item blank false
    if !(← hasItem false) then refuse (.tooShort 1 name)
    let draft ← item draft true
    let whole ← lift (finish draft)
    closeArray
    return whole
  | _ => wrongType name

/-- runs a scan over a whole text, with nothing but blanks behind it -/
def run {α : Type} (scan : Scan α) (text : String) : Except ReadError α := do
  let (a, rest) ← StateT.run scan text.toList
  if (rest.dropWhile isBlank).isEmpty then return a else throw .malformed

end Scan

end SubsetAlgebra.Json
