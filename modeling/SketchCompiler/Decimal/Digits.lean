namespace SketchCompiler

/-- The power `2 ^ n`. -/
def pow2 (n : Nat) : Nat := Nat.pow 2 n

/-- The number `significand * 2 ^ exponent`, negated if `negative`. -/
structure Binary where
  negative : Bool
  significand : Nat
  exponent : Int
deriving DecidableEq, Repr

namespace Binary

/-- Splits a finite double. -/
def ofFloat (x : Float) : Binary :=
  let bits := x.toBits.toNat
  let field := bits / pow2 52 % pow2 11
  let fraction := bits % pow2 52
  { negative := pow2 63 ≤ bits
    significand := if field = 0 then fraction else pow2 52 + fraction
    exponent := (max field 1 : Nat) - 1075 }

/-- The bits of the double nearest to `n / d`; halfway cases go to the even neighbour, too large ones to infinity. -/
def nearestBits (n d : Nat) : Nat :=
  if n = 0 then 0
  else
    let guess : Int := (n.log2 : Int) - d.log2 - 52
    let guess := if n * pow2 (-guess).toNat < d * pow2 (52 + guess.toNat) then guess - 1 else guess
    let exponent := max guess (-1074)
    let num := n * pow2 (-exponent).toNat
    let den := d * pow2 exponent.toNat
    let q := num / den
    let r := num % den
    let q := if den < 2 * r ∨ (den = 2 * r ∧ q % 2 = 1) then q + 1 else q
    min ((exponent + 1074).toNat * pow2 52 + q) (0x7ff * pow2 52)

end Binary

/-- The double nearest to `n / d`. -/
def nearestFloat (n d : Nat) : Float :=
  Float.ofBits (Binary.nearestBits n d).toUInt64

example : nearestFloat 1 10 = 0.1 ∧ nearestFloat (pow2 1024) 1 = 1.0 / 0.0 := by decide +kernel

def digitValue (c : Char) : Nat :=
  if c.isDigit then c.toNat - '0'.toNat
  else if 'a'.toNat ≤ c.toNat then c.toNat - 'a'.toNat + 10
  else c.toNat - 'A'.toNat + 10

/-- The number that the digits spell in the given base. -/
def natOfDigits (base : Nat) (cs : List Char) : Nat :=
  cs.foldl (fun n c => n * base + digitValue c) 0

/-- The power `10 ^ n`. -/
def pow10 (n : Nat) : Nat := Nat.pow 10 n

/-- The double nearest to the number with these digits before and behind its point. -/
def floatOfDigits (whole fraction : List Char) : Float :=
  nearestFloat (natOfDigits 10 (whole ++ fraction)) (pow10 fraction.length)

/-- Reads digits with at most one point and a sign, or the name of a value that is not finite. -/
def readFloat (s : String) : Float :=
  let (negative, body) := match s.toList with
    | '-' :: cs => (true, cs)
    | cs => (false, cs)
  let whole := body.takeWhile Char.isDigit
  let size :=
    if body = ['i', 'n', 'f'] then 1.0 / 0.0
    else if body = ['N', 'a', 'N'] then 0.0 / 0.0
    else floatOfDigits whole ((body.drop (whole.length + 1)).takeWhile Char.isDigit)
  if negative then -size else size

/-- The number `n / 10 ^ places` in positional notation. -/
def positional (n places : Nat) : String :=
  let digits := Nat.toDigits 10 n
  let digits := List.replicate (places + 1 - digits.length) '0' ++ digits
  String.ofList (digits.take (digits.length - places) ++ '.' :: digits.drop (digits.length - places))

/-- The numbers that round to a double are those between `low` and `high`, in units of `2 ^ -shift`. -/
structure Rounding where
  low : Nat
  value : Nat
  high : Nat
  shift : Nat
  closed : Bool

namespace Rounding

/-- The interval around a significand with a negative exponent; below a power of two it is half as wide. -/
def around (b : Binary) : Rounding where
  low := 4 * b.significand - if b.significand = pow2 52 ∧ -1074 < b.exponent then 1 else 2
  value := 4 * b.significand
  high := 4 * b.significand + 2
  shift := (2 - b.exponent).toNat
  closed := b.significand % 2 = 0

/-- Whether `n / 10 ^ places` rounds to the double. -/
def holds (r : Rounding) (places n : Nat) : Bool :=
  let x := n * pow2 r.shift
  let low := r.low * pow10 places
  let high := r.high * pow10 places
  if r.closed then low ≤ x && x ≤ high else low < x && x < high

/-- The neighbour of the value with that many places that rounds to the double, the nearer of two. -/
def atPlaces? (r : Rounding) (places : Nat) : Option Nat :=
  let x := r.value * pow10 places
  let below := x / pow2 r.shift
  match r.holds places below, r.holds places (below + 1) with
  | true, true => if 2 * (x % pow2 r.shift) < pow2 r.shift then some below else some (below + 1)
  | true, false => some below
  | false, true => some (below + 1)
  | false, false => none

/-- Tries one more place at a time; `shift` places write the value itself. -/
def shortest (r : Rounding) : Nat → Nat → String
  | 0, places => positional (r.value * pow10 places / pow2 r.shift) places
  | left + 1, places =>
    match r.atPlaces? places with
    | some n => positional n places
    | none => r.shortest left (places + 1)

end Rounding

/-- A double in positional notation, with `.0` behind a whole number. -/
def floatText (x : Float) : String :=
  if x.isNaN then "NaN"
  else
    let b := Binary.ofFloat x
    let sign := if b.negative then "-" else ""
    if x.isInf then sign ++ "inf"
    else if 0 ≤ b.exponent then sign ++ toString (b.significand * pow2 b.exponent.toNat) ++ ".0"
    else if b.significand % pow2 (-b.exponent).toNat = 0 then
      sign ++ toString (b.significand / pow2 (-b.exponent).toNat) ++ ".0"
    else
      let r := Rounding.around b
      sign ++ r.shortest r.shift 1

end SketchCompiler
