import Conform.Number.Double

/-!
# The shortest decimal of a double

A double is written with the fewest significant digits that read back as the same double; of
several such decimals the nearest one is taken, and of two equally near ones the one with the even
last digit. This file finds the digits by exact arithmetic and lays them out in the two ways in
which doubles appear: in report lines and in written documents.
-/

namespace Conform

/-! ## 1. Digits -/

/-- A positive decimal `0.d₁d₂… · 10 ^ point`. -/
structure Decimal where
  digits : List Char
  point : Int
  deriving DecidableEq, Repr

namespace Shortest

/-- Is `a · 2 ^ p` below `b · 10 ^ q`, or equal to it where equality is allowed? -/
def below (orEqual : Bool) (a : Nat) (p : Int) (b : Nat) (q : Int) : Bool :=
  let left := a * Nat.pow 2 p.toNat * Nat.pow 10 (-q).toNat
  let right := b * Nat.pow 10 q.toNat * Nat.pow 2 (-p).toNat
  left < right || (orEqual && left = right)

/-- Is `b · 10 ^ q` below `a · 2 ^ p`, or equal to it where equality is allowed? -/
def above (orEqual : Bool) (a : Nat) (p : Int) (b : Nat) (q : Int) : Bool :=
  let left := a * Nat.pow 2 p.toNat * Nat.pow 10 (-q).toNat
  let right := b * Nat.pow 10 q.toNat * Nat.pow 2 (-p).toNat
  right < left || (orEqual && left = right)

/-- The whole part of `m · 2 ^ e / 10 ^ q`. -/
def wholePart (m : Nat) (e q : Int) : Nat :=
  m * Nat.pow 2 e.toNat * Nat.pow 10 (-q).toNat / (Nat.pow 10 q.toNat * Nat.pow 2 (-e).toNat)

/-- The number `k` with `10 ^ (k - 1) ≤ m · 2 ^ e < 10 ^ k`, for a positive `m`. -/
def magnitude (m : Nat) (e : Int) : Int :=
  let num := m * Nat.pow 2 e.toNat
  let den := Nat.pow 2 (-e).toNat
  if den ≤ num then (decimalDigits (num / den)).length
  else
    let j := (decimalDigits (den / num)).length
    if den = num * Nat.pow 10 (j - 1) then 2 - (j : Int) else 1 - (j : Int)

/-- Does `n · 10 ^ q` read back as `m · 2 ^ e`? The reals that do lie around it, up to half a step
    on either side; the step below a power of two is half as wide. The ends belong to the even
    significands. -/
def readsBack (m : Nat) (e : Int) (n : Nat) (q : Int) : Bool :=
  let even := m % 2 = 0
  let low := if m = Nat.pow 2 52 && -1074 < e then 4 * m - 1 else 4 * m - 2
  below even low (e - 2) n q && above even (4 * m + 2) (e - 2) n q

/-- Of two neighbours `n` and `n + 1` on the grid of `10 ^ q`, is the upper one nearer, or equally
    near and even? -/
def upperNearer (m : Nat) (e : Int) (n : Nat) (q : Int) : Bool :=
  -- The midpoint is `(2 n + 1) / 2 · 10 ^ q`.
  let orEqual := n % 2 = 1
  above orEqual (2 * m) e (2 * n + 1) q

/-- The point of the grid of `10 ^ q` that reads back as `m · 2 ^ e` and is nearest to it. -/
def onGrid? (m : Nat) (e q : Int) : Option Nat :=
  let n := wholePart m e q
  match readsBack m e n q, readsBack m e (n + 1) q with
  | false, false => none
  | true, false => some n
  | false, true => some (n + 1)
  | true, true => some (if upperNearer m e n q then n + 1 else n)

/-- The grids from `n` digits upwards, as many as asked for; the last one always has a point. -/
def search (m : Nat) (e k : Int) (n : Nat) : Nat → Nat × Int
  | 0 => (wholePart m e (k - n), k - n)
  | more + 1 =>
    match onGrid? m e (k - n) with
    | some d => (d, k - n)
    | none => search m e k (n + 1) more

/-- The shortest decimal of `m · 2 ^ e`, for a positive `m`. Seventeen digits always suffice. -/
def decimal (m : Nat) (e : Int) : Decimal :=
  let (n, q) := search m e (magnitude m e) 1 17
  let ds := decimalDigits n
  ⟨(ds.reverse.dropWhile (· = '0')).reverse, ds.length + q⟩

end Shortest

/-! ## 2. Layout -/

/-- How a double is written: the names of the special values, and whether a lone digit in front of
    an exponent gets a point and a zero. -/
structure DoubleStyle where
  notANumber : List Char
  infinity : List Char
  pointBeforeExponent : Bool

/-- Report lines call the special values `nan` and `inf` and write `1e+16`. -/
def DoubleStyle.report : DoubleStyle := ⟨"nan".toList, "inf".toList, false⟩

/-- Documents call the special values `.nan` and `.inf` and write `1.0e+16`, so that they read
    back. -/
def DoubleStyle.document : DoubleStyle := ⟨".nan".toList, ".inf".toList, true⟩

/-- A decimal without an exponent if its first digit stands from `10 ^ -4` up to below
    `10 ^ 16`, with at least one digit on either side of the point; else with an exponent of a sign
    and at least two digits. -/
def Decimal.layout (style : DoubleStyle) (d : Decimal) : List Char :=
  let n := d.digits.length
  if -4 < d.point && d.point ≤ 16 then
    if d.point ≤ 0 then
      "0.".toList ++ List.replicate (-d.point).toNat '0' ++ d.digits
    else
      let w := d.point.toNat
      if n ≤ w then d.digits ++ List.replicate (w - n) '0' ++ ".0".toList
      else d.digits.take w ++ ['.'] ++ d.digits.drop w
  else
    let exponent := d.point - 1
    let lead := d.digits.take 1
    let more := d.digits.drop 1
    let fraction :=
      if more.isEmpty then (if style.pointBeforeExponent then ".0".toList else [])
      else '.' :: more
    lead ++ fraction ++ ['e', if exponent < 0 then '-' else '+'] ++
      paddedDigits 2 exponent.natAbs

/-- The written form of a double. -/
def Double.written (style : DoubleStyle) : Double → List Char
  | .nan _ => style.notANumber
  | .infinite negative => (if negative then ['-'] else []) ++ style.infinity
  | .finite negative m e =>
    (if negative then ['-'] else []) ++
      if m = 0 then "0.0".toList else (Shortest.decimal m e).layout style

end Conform
