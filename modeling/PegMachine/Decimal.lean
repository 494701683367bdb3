/-!
# Decimal text of floating-point numbers

A finite floating-point number is `m * 2^q` for whole `m` and `q`. The numbers that round to it
form an interval, its ends included when `m` is even. The shortest text is the one with the fewest
significant digits whose value lies in that interval, and among those the one nearest to the
number. All of this is exact arithmetic on whole numbers.

Two layouts write such digits down: `plain` never uses an exponent, `scientific` does so for very
large and very small numbers and keeps one digit after the point.
-/

namespace PegMachine

/-- Significant digits and the power of ten that they count: `digits * 10^exponent`. -/
structure Decimal where
  /-- The significant digits as a whole number. -/
  digits : Nat
  /-- The power of ten. -/
  exponent : Int
  deriving Repr, DecidableEq

namespace Decimal

/-! ## The parts of a floating-point number -/

/-- A finite number without its sign: `mantissa * 2^exponent`. -/
structure Binary where
  /-- The mantissa. -/
  mantissa : Nat
  /-- The power of two. -/
  exponent : Int
  /-- Whether the number below is only half as far away as the number above. -/
  boundary : Bool

/-- Whether a number has a minus sign; zero and NaN can have one too. -/
def isNegative (x : Float) : Bool := x.toBits.toNat / 0x8000000000000000 = 1

/-- The parts of a finite number. -/
def binary (x : Float) : Binary :=
  let bits := x.toBits.toNat
  let fraction := bits % 0x10000000000000
  let biased : Nat := bits / 0x10000000000000 % 0x800
  if biased = 0 then ⟨fraction, -1074, false⟩
  else ⟨0x10000000000000 + fraction, (biased : Int) - 1075, fraction = 0 && 1 < biased⟩

/-! ## The shortest digits -/

/-- The number of digits before the point, negative for zeros after the point: the `k` with
`10^(k-1) ≤ num / den < 10^k`. -/
def decimalPoint (num den : Nat) : Int :=
  if den ≤ num then (Nat.toDigits 10 (num / den)).length
  else -(zeros 400 (num * 10))
where
  /-- How often a number has to be multiplied by ten to reach one. -/
  zeros : Nat → Nat → Nat
    | 0, _ => 0
    | fuel + 1, num => if den ≤ num then 0 else zeros fuel (num * 10) + 1

/-- The nearer of the two neighbours of `num / den` on the grid of `10^e` that lies between
`lo / den` and `hi / den`. -/
def onGrid (num den lo hi : Nat) (closed : Bool) (e : Int) : Option Nat :=
  let up := Nat.pow 10 (-e).toNat
  let unit := den * Nat.pow 10 e.toNat
  let inside (d : Nat) : Bool :=
    if closed then lo * up ≤ d * unit && d * unit ≤ hi * up
    else lo * up < d * unit && d * unit < hi * up
  let below := num * up / unit
  let rest := num * up % unit
  let low := inside below
  let high := inside (below + 1)
  if low && high then
    some (if 2 * rest < unit || (2 * rest = unit && below % 2 = 0) then below else below + 1)
  else if low then some below
  else if high then some (below + 1)
  else none

/-- The first digit count from `n` on whose grid has a point in the interval. -/
def search (num den lo hi : Nat) (closed : Bool) (point : Int) : Nat → Nat → Decimal
  | 0, n => ⟨num / den, n⟩
  | fuel + 1, n =>
    let e := point - n
    match onGrid num den lo hi closed e with
    | some d => ⟨d, e⟩
    | none => search num den lo hi closed point fuel (n + 1)

/-- Drop the zeros at the end of the digits. -/
def trim (d : Decimal) : Decimal :=
  go 20 d
where
  /-- Drop up to the given number of zeros. -/
  go : Nat → Decimal → Decimal
    | 0, d => d
    | fuel + 1, d =>
      if d.digits ≠ 0 && d.digits % 10 = 0 then go fuel ⟨d.digits / 10, d.exponent + 1⟩ else d

/-- The shortest digits of a finite number, without its sign. -/
def shortest (x : Float) : Decimal :=
  let b := binary x
  if b.mantissa = 0 then ⟨0, 0⟩
  else
    let scale := b.exponent - 2
    let up := Nat.pow 2 scale.toNat
    let den := Nat.pow 2 (-scale).toNat
    let num := 4 * b.mantissa * up
    let lo := (4 * b.mantissa - (if b.boundary then 1 else 2)) * up
    let hi := (4 * b.mantissa + 2) * up
    trim (search num den lo hi (b.mantissa % 2 = 0) (decimalPoint num den) 18 1)

/-! ## Layouts -/

/-- A text of `n` zeros. -/
def zeros (n : Nat) : String := String.ofList (List.replicate n '0')

/-- The digits before and after the point, both without exponent. -/
def positional (d : Decimal) : String × String :=
  let text := toString d.digits
  if 0 ≤ d.exponent then (text ++ zeros d.exponent.toNat, "")
  else
    let places := (-d.exponent).toNat
    if places < text.length then
      (String.ofList (text.toList.take (text.length - places)),
       String.ofList (text.toList.drop (text.length - places)))
    else ("0", zeros (places - text.length) ++ text)

/-- A number without exponent, and without a point when it is whole. -/
def plain (x : Float) : String :=
  if x.isNaN then "NaN"
  else
    let sign := if isNegative x then "-" else ""
    if x.isInf then sign ++ "inf"
    else
      let (whole, fraction) := positional (shortest x)
      sign ++ whole ++ (if fraction.isEmpty then "" else "." ++ fraction)

/-- A finite number with an exponent unless it is at least `10^-5` and below `10^16`; a number
without exponent always has a digit after the point. -/
def scientific (x : Float) : String :=
  let d := shortest x
  let text := toString d.digits
  let sign := if isNegative x then "-" else ""
  let point : Int := text.length + d.exponent
  if d.digits = 0 || (-5 < point && point ≤ 16) then
    let (whole, fraction) := positional d
    sign ++ whole ++ "." ++ (if fraction.isEmpty then "0" else fraction)
  else
    let tail := String.ofList (text.toList.drop 1)
    let e := point - 1
    sign ++ String.ofList (text.toList.take 1) ++ (if tail.isEmpty then "" else "." ++ tail)
      ++ "e" ++ (if 0 ≤ e then "+" else "") ++ toString e

/-- A finite number that is not negative, rounded to one place after the point; a half goes to
the even digit. -/
def oneplace (x : Float) : String :=
  let b := binary x
  let num := 10 * b.mantissa * Nat.pow 2 b.exponent.toNat
  let den := Nat.pow 2 (-b.exponent).toNat
  let below := num / den
  let rest := num % den
  let tenths := if 2 * rest < den || (2 * rest = den && below % 2 = 0) then below else below + 1
  toString (tenths / 10) ++ "." ++ toString (tenths % 10)

/-! ## Reading -/

/-- The number that a decimal text writes: an optional sign, digits with an optional point among
them, an optional exponent; or one of the names of infinity and NaN. -/
def parse? (text : String) : Option Float := do
  let (negative, body) := match text.toList with
    | '-' :: r => (true, r)
    | '+' :: r => (false, r)
    | r => (false, r)
  let word := body.map Char.toLower
  let x ←
    if word = "inf".toList || word = "infinity".toList then some (1.0 / 0.0 : Float)
    else if word = "nan".toList then some (0.0 / 0.0 : Float)
    else do
      let whole := body.takeWhile isDigit
      let rest := body.dropWhile isDigit
      let (fraction, rest) := match rest with
        | '.' :: r => (r.takeWhile isDigit, r.dropWhile isDigit)
        | r => ([], r)
      if whole.isEmpty && fraction.isEmpty then none
      let exponent ← match rest with
        | [] => some (0 : Int)
        | c :: r => if c = 'e' || c = 'E' then exponent? r else none
      let digits := whole ++ fraction
      some (ofDigits (value digits) (exponent - fraction.length))
  return if negative then -x else x
where
  /-- Whether a character is a decimal digit. -/
  isDigit (c : Char) : Bool := '0' ≤ c && c ≤ '9'
  /-- The number that digits write. -/
  value (digits : List Char) : Nat := digits.foldl (fun n c => 10 * n + (c.toNat - 48)) 0
  /-- The exponent that a text writes to its end. -/
  exponent? (text : List Char) : Option Int :=
    let (negative, digits) := match text with
      | '-' :: r => (true, r)
      | '+' :: r => (false, r)
      | r => (false, r)
    if digits.isEmpty || !digits.all isDigit then none
    else some (if negative then -(value digits : Int) else value digits)
  /-- The floating-point number nearest to `m * 10^e`. -/
  ofDigits (m : Nat) (e : Int) : Float :=
    if m = 0 then 0
    else if 400 < e then 1.0 / 0.0
    else if e < -((Nat.toDigits 10 m).length : Int) - 400 then 0
    else Float.ofScientific m (e < 0) e.natAbs

end Decimal

end PegMachine
