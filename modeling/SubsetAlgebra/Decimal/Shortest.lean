/-
Floating-point numbers in decimal, with the fewest digits that read back as the same number.

A finite number is `mantissa * 2 ^ exponent`; every real number between the midpoints to its two neighbours reads back
as it, the midpoints themselves iff the mantissa is even. `digits` tries one, two, three digits and so on: of the two
points of that decimal grid next to the number it takes the nearer one that lies between the midpoints, and the even one
of two that are equally near.
-/

-- a power of numbers is the built-in one, whatever else is imported
attribute [instance (high)] instPowNat

namespace SubsetAlgebra.Decimal

/-- a positive number as a fraction, with the ends of the interval of what reads back as it -/
structure Interval where
  low : Nat
  value : Nat
  high : Nat
  denominator : Nat
  closed : Bool
  deriving DecidableEq, Repr

/-- the interval of a positive finite number `m * 2 ^ e`; below a power of two the neighbour is nearer -/
def Interval.ofScaled (m : Nat) (e : Int) (nearBelow : Bool) : Interval :=
  let up := 2 ^ e.toNat
  ⟨(if nearBelow then 4 * m - 1 else 4 * m - 2) * up, 4 * m * up, (4 * m + 2) * up, 4 * 2 ^ (-e).toNat, m % 2 == 0⟩

/-- the interval of a positive finite number -/
def Interval.ofFloat (x : Float) : Interval :=
  let bits := x.toBits.toNat
  let fraction : Nat := bits % 2 ^ (52 : Nat)
  let exponent : Nat := bits / 2 ^ (52 : Nat) % 2 ^ (11 : Nat)
  if exponent = 0 then ofScaled fraction (-1074) false
  else ofScaled (2 ^ (52 : Nat) + fraction) ((exponent : Int) - 1075) (fraction == 0 && exponent != 1)

/-- whether `c * 10 ^ k` lies in the interval -/
def Interval.holds (i : Interval) (c : Nat) (k : Int) : Bool :=
  let point := c * 10 ^ k.toNat * i.denominator
  let scale := 10 ^ (-k).toNat
  if i.closed then i.low * scale ≤ point && point ≤ i.high * scale
  else i.low * scale < point && point < i.high * scale

/-- the largest `k` with `10 ^ k` at most the value, looked for downwards from `start` -/
def Interval.magnitude (i : Interval) (start : Int) : Nat → Int
  | 0 => start
  | fuel + 1 =>
    if 10 ^ start.toNat * i.denominator ≤ i.value * 10 ^ (-start).toNat then start else i.magnitude (start - 1) fuel

/-- the point of the grid `10 ^ k` that is nearest to the value among those in the interval; of two points equally near
the even one -/
def Interval.nearest? (i : Interval) (k : Int) : Option Nat :=
  let numerator := i.value * 10 ^ (-k).toNat
  let step := i.denominator * 10 ^ k.toNat
  let below := numerator / step
  let above := below + 1
  let gap := 2 * (numerator - below * step)
  let wanted := if gap < step ∨ gap = step ∧ below % 2 = 0 then [below, above] else [above, below]
  wanted.find? fun c => c != 0 && i.holds c k

/-- the shortest decimal in the interval with `n` digits or more, for a value of magnitude `top` -/
def Interval.shortest (i : Interval) (top : Int) (n : Nat) : Nat → Nat × Int
  | 0 => (0, 0)
  | fuel + 1 =>
    let k := top - n + 1
    match i.nearest? k with
    | some c => (c, k)
    | none => i.shortest top (n + 1) fuel

/-- drops the zeros at the end of `c * 10 ^ k` -/
def trim (c : Nat) (k : Int) : Nat → Nat × Int
  | 0 => (c, k)
  | fuel + 1 => if c % 10 = 0 ∧ c ≠ 0 then trim (c / 10) (k + 1) fuel else (c, k)

/-- the digits `c` and the exponent `k` of the shortest decimal `c * 10 ^ k` that reads back as a positive number -/
def digits (x : Float) : Nat × Int :=
  let i := Interval.ofFloat x
  let (c, k) := i.shortest (i.magnitude 309 640) 1 17
  trim c k 20

/-- an exponent, its sign always written -/
def exponent (e : Int) : String := if e < 0 then "e" ++ toString e else "e+" ++ toString e

/-- the layout of a decimal: positional with at least one digit on each side of the point while the point stands at
most sixteen places to the right of the first digit or four to its left, with an exponent otherwise -/
def layout (c : Nat) (k : Int) : String :=
  let ds := toString c
  let point := (ds.length : Int) + k
  let zeros (n : Nat) := String.ofList (List.replicate n '0')
  if 0 ≤ k ∧ point ≤ 16 then ds ++ zeros k.toNat ++ ".0"
  else if 0 < point ∧ point ≤ 16 then
    String.ofList (ds.toList.take point.toNat) ++ "." ++ String.ofList (ds.toList.drop point.toNat)
  else if -5 < point ∧ point ≤ 0 then "0." ++ zeros (-point).toNat ++ ds
  else if ds.length = 1 then ds ++ exponent (point - 1)
  else String.ofList (ds.toList.take 1) ++ "." ++ String.ofList (ds.toList.drop 1) ++ exponent (point - 1)

/-- a finite number in decimal -/
def ofFloat (x : Float) : String :=
  let sign := if x.toBits.toNat / 2 ^ (63 : Nat) = 1 then "-" else ""
  let size := x.abs
  if size == 0 then sign ++ "0.0"
  else
    let (c, k) := digits size
    sign ++ layout c k

end SubsetAlgebra.Decimal
