import Conform.Number.Numeral

/-!
# Double-precision numbers

The floating numbers of a record, as exact values. A finite double is `± m · 2 ^ e`; every
operation computes the exact rational result and rounds it once, to the nearest double, with ties
to the even significand. Nothing here rests on machine arithmetic, so equality with integers is
equality of rationals.
-/

namespace Conform

/-! ## 1. Values -/

/-- Where a not-a-number comes from. -/
inductive Double.Origin where
  /-- The spelling `.nan`, wherever it stands. -/
  | spelled
  /-- The computation with this number in a document. -/
  | computed (number : Nat)
  /-- The same computation, of which a schema has kept the result. -/
  | kept (number : Nat)
  deriving DecidableEq, Repr, Inhabited

/-- A double. A finite one is `± significand · 2 ^ exponent`, where the significand is below
    `2 ^ 53`, the exponent is from `-1074` to `971`, and a significand below `2 ^ 52` has the
    least exponent. Two not-a-numbers are told apart by their origin. -/
inductive Double where
  | nan (origin : Double.Origin)
  | infinite (negative : Bool)
  | finite (negative : Bool) (significand : Nat) (exponent : Int)
  deriving DecidableEq, Repr, Inhabited

namespace Double

/-- Zero with a sign. -/
def zero (negative : Bool) : Double := .finite negative 0 (-1074)

/-- The exact value of a finite double. -/
def value? : Double → Option Rat
  | .finite negative m e =>
    let q : Rat := mkRat (m * Nat.pow 2 e.toNat : Nat) (Nat.pow 2 (-e).toNat)
    some (if negative then -q else q)
  | _ => none

/-- The same number, told apart from other not-a-numbers by its origin. -/
def withOrigin (origin : Origin) : Double → Double
  | .nan _ => .nan origin
  | d => d

/-- The same number when a schema keeps it: no computation in another document has its result. -/
def keep : Double → Double
  | .nan (.computed n) => .nan (.kept n)
  | d => d

/-- The number with the other sign. -/
def neg : Double → Double
  | .nan o => .nan o
  | .infinite s => .infinite !s
  | .finite s m e => .finite (!s) m e

/-! ## 2. Rounding -/

/-- The quotient of two numbers, rounded to the nearest, ties to even. -/
def roundQuotient (num den : Nat) : Nat :=
  let q := num / den
  let r := num % den
  if den < 2 * r || (2 * r = den && q % 2 = 1) then q + 1 else q

/-- The quotient `num / den / 2 ^ e`, rounded to the nearest, ties to even. -/
def roundScaled (num den : Nat) (e : Int) : Nat :=
  if 0 ≤ e then roundQuotient num (den * Nat.pow 2 e.toNat)
  else roundQuotient (num * Nat.pow 2 (-e).toNat) den

/-- The double nearest to `± num / den`. The exponent is chosen so that the significand has 53
    bits, or is the least one. -/
def ofQuotient (negative : Bool) (num den : Nat) : Double :=
  if num = 0 then zero negative
  else
    let guess : Int := (num.log2 : Int) - den.log2 - 52
    let below := if 0 ≤ guess then num < den * Nat.pow 2 (guess.toNat + 52)
      else num * Nat.pow 2 (-guess).toNat < den * Nat.pow 2 52
    let e := max (-1074) (if below then guess - 1 else guess)
    let m := roundScaled num den e
    let (m, e) := if m = Nat.pow 2 53 then (Nat.pow 2 52, e + 1) else (m, e)
    if 971 < e then .infinite negative else .finite negative m e

/-- The double nearest to a rational; zero has the given sign. -/
def ofRat (negativeZero : Bool) (q : Rat) : Double :=
  if q.num = 0 then zero negativeZero else ofQuotient (q.num < 0) q.num.natAbs q.den

/-! ## 3. Arithmetic -/

/-- The rounded sum. A sum of opposite numbers is positive zero. -/
def add : Double → Double → Double
  | .nan o, _ => .nan o
  | _, .nan o => .nan o
  | .infinite s, .infinite t => if s = t then .infinite s else .nan .spelled
  | .infinite s, _ => .infinite s
  | _, .infinite s => .infinite s
  | .finite s m e, .finite t n f =>
    ofRat (s && t)
      ((value? (.finite s m e)).getD 0 + (value? (.finite t n f)).getD 0)

/-- The rounded product. -/
def mul : Double → Double → Double
  | .nan o, _ => .nan o
  | _, .nan o => .nan o
  | .infinite s, .infinite t => .infinite (s != t)
  | .infinite s, .finite t n _ => if n = 0 then .nan .spelled else .infinite (s != t)
  | .finite t n _, .infinite s => if n = 0 then .nan .spelled else .infinite (s != t)
  | .finite s m e, .finite t n f =>
    ofRat (s != t)
      ((value? (.finite s m e)).getD 0 * (value? (.finite t n f)).getD 0)

/-! ## 4. Reading -/

/-- The double nearest to `± digits · 10 ^ exponent`. Exponents far outside the range of doubles
    are settled before any power is taken. -/
def ofDecimal (negative : Bool) (digits : Nat) (exponent : Int) : Double :=
  if digits = 0 then zero negative
  else
    let top : Int := (decimalDigits digits).length + exponent
    if 400 < top then .infinite negative
    else if top < -400 then zero negative
    else if 0 ≤ exponent then ofQuotient negative (digits * Nat.pow 10 exponent.toNat) 1
    else ofQuotient negative digits (Nat.pow 10 (-exponent).toNat)

/-- The exponent at the end of a decimal fraction: nothing, or `e`, a sign and digits. -/
def exponent? : List Char → Option Int
  | [] => some 0
  | c :: cs =>
    if c = 'e' || c = 'E' then
      let (negative, ds) := Numeral.splitSign cs
      if ds.isEmpty then none
      else
        (ds.mapM (baseDigit? 10)).map fun vs =>
          let n := Numeral.ofDigits 10 vs
          if negative then -(n : Int) else n
    else none

/-- The double of an unsigned decimal fraction: digits around a point, at least one of them, and
    an exponent. -/
def fraction? (negative : Bool) (cs : List Char) : Option Double :=
  let isDigit (c : Char) : Bool := (plainDigit? c).isSome
  let whole := cs.takeWhile isDigit
  let rest := cs.dropWhile isDigit
  let (part, rest) :=
    match rest with
    | '.' :: more => (more.takeWhile isDigit, more.dropWhile isDigit)
    | more => ([], more)
  if whole.isEmpty && part.isEmpty then none
  else do
    let e ← exponent? rest
    let ds ← (whole ++ part).mapM (baseDigit? 10)
    some (ofDecimal negative (Numeral.ofDigits 10 ds) (e - part.length))

/-- The double that a numeral denotes: a decimal fraction with an exponent, an infinity or a
    not-a-number by name, with blanks around it and the digits of any script. -/
def numeral? (cs : List Char) : Option Double :=
  let (negative, rest) := Numeral.splitSign (trimChars isPlainBlank (Numeral.plain cs))
  let name := rest.map Char.toLower
  if name = "inf".toList || name = "infinity".toList then some (.infinite negative)
  else if name = "nan".toList then some (.nan .spelled)
  else fraction? negative rest

/-- The double nearest to a natural number, unless it is beyond them all. -/
def ofNat? (n : Nat) : Option Double :=
  match ofQuotient false n 1 with
  | .infinite _ => none
  | d => some d

/-- The sum of groups in base sixty, the least significant first, each weighed by the power of
    sixty given for the first one. No result if a weight is beyond the doubles. -/
def sumSexagesimal? (total : Double) (weight : Nat) : List Double → Option Double
  | [] => some total
  | d :: ds => do
    let w ← ofNat? weight
    sumSexagesimal? (add total (mul d w)) (weight * 60) ds

end Double

end Conform
