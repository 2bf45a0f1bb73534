import Shading.Text.Blank

/-!
    The shortest decimal that reads back.

    A finite positive number of binary64 is a natural number times a power of two. It is what every
    decimal in its rounding interval reads as: from halfway to the number below to halfway to the number
    above, the ends included when the natural number is even. The shortest decimal is the one of fewest
    digits in that interval, the nearest to the number among those, and the even one of two as near.
    All comparisons are of natural numbers. -/

namespace Shading.Decimal

/-- The number `mantissa * 2 ^ exponent`. `narrow` says that the gap to the number below is half the gap
    to the number above, as it is at a power of two. -/
structure Dyadic where
  mantissa : Nat
  exponent : Int
  narrow : Bool

/-- The digits `digits * 10 ^ exponent` of a decimal. -/
structure Digits where
  digits : Nat
  exponent : Int
  deriving DecidableEq, Repr

namespace Dyadic

/-- The number that the bits of a finite positive float stand for. -/
def ofBits (bits : UInt64) : Dyadic :=
  let fraction := bits.toNat % Nat.pow 2 52
  let biased := bits.toNat / Nat.pow 2 52 % Nat.pow 2 11
  if biased = 0 then ⟨fraction, -1074, false⟩
  else ⟨Nat.pow 2 52 + fraction, Int.ofNat biased - 1075, decide (fraction = 0 ∧ 1 < biased)⟩

/-- Four times the mantissa, over the denominator. -/
def numerator (x : Dyadic) : Nat := 4 * x.mantissa * Nat.pow 2 (x.exponent - 2).toNat

/-- The denominator of the number as a fraction with a numerator four times as fine. -/
def denominator (x : Dyadic) : Nat := Nat.pow 2 (2 - x.exponent).toNat

/-- A quarter of the last place of the mantissa, over the denominator. -/
def quarter (x : Dyadic) : Nat := Nat.pow 2 (x.exponent - 2).toNat

/-- The decimal lies in the rounding interval. -/
def readsBack (x : Dyadic) (d : Digits) : Bool :=
  let decimal := d.digits * Nat.pow 10 d.exponent.toNat * x.denominator
  let scale := Nat.pow 10 (-d.exponent).toNat
  let low := (x.numerator - (if x.narrow then 1 else 2) * x.quarter) * scale
  let high := (x.numerator + 2 * x.quarter) * scale
  if x.mantissa % 2 = 0 then low ≤ decimal && decimal ≤ high
  else low < decimal && decimal < high

/-- The number is below a power of ten. -/
def below (x : Dyadic) (k : Int) : Bool :=
  x.numerator * Nat.pow 10 (-k).toNat < Nat.pow 10 k.toNat * x.denominator

/-- The least power of ten above the number. -/
def order (x : Dyadic) : Int :=
  match (List.range 640).find? fun i => x.below (Int.ofNat i - 325) with
  | some i => Int.ofNat i - 325
  | none => 315

/-- The decimal of a given number of digits in the rounding interval that is nearest, if any is. -/
def onGrid? (x : Dyadic) (places : Nat) : Option Digits :=
  let k := x.order - places
  let value := x.numerator * Nat.pow 10 (-k).toNat
  let unit := Nat.pow 10 k.toNat * x.denominator
  let down : Digits := ⟨value / unit, k⟩
  let up : Digits := ⟨value / unit + 1, k⟩
  let preferDown :=
    2 * (value % unit) < unit || (2 * (value % unit) == unit && down.digits % 2 == 0)
  match x.readsBack down, x.readsBack up with
  | true, true => some (if preferDown then down else up)
  | true, false => some down
  | false, true => some up
  | false, false => none

/-- The shortest decimal that reads back; seventeen digits always do. -/
def shortest (x : Dyadic) : Digits :=
  match (List.range 17).findSome? fun i => x.onGrid? (i + 1) with
  | some d => d
  | none => ⟨x.numerator * Nat.pow 10 (17 - x.order).toNat /
      (Nat.pow 10 (x.order - 17).toNat * x.denominator), x.order - 17⟩

end Dyadic

/-- The zeros at the end of the digits, moved to the exponent. -/
def Digits.strip : Nat → Digits → Digits
  | 0, d => d
  | fuel + 1, d =>
    if d.digits ≠ 0 && d.digits % 10 == 0 then strip fuel ⟨d.digits / 10, d.exponent + 1⟩ else d

/-- A decimal with the zeros that its place needs: all digits from 10 ^ -5 to 10 ^ 16 and an exponent
    with its sign outside, and always a point unless an exponent follows a single digit. -/
def Digits.layout (d : Digits) : Text :=
  let digits := (toString d.digits).toList
  let order := (digits.length : Int) + d.exponent
  if 0 ≤ d.exponent && order ≤ 16 then
    digits ++ List.replicate d.exponent.toNat '0' ++ ".0".toList
  else if 0 < order && order ≤ 16 then
    digits.take order.toNat ++ '.' :: digits.drop order.toNat
  else if -5 < order && order ≤ 0 then
    "0.".toList ++ List.replicate (-order).toNat '0' ++ digits
  else
    let sign := if 0 < order then '+' else '-'
    let exponent := sign :: (toString (order - 1).natAbs).toList
    match digits with
    | [d] => d :: 'e' :: exponent
    | ds => ds.take 1 ++ '.' :: ds.drop 1 ++ 'e' :: exponent

/-- The text of a finite float. -/
def textOf (x : Float) : Text :=
  let bits := x.toBits.toNat
  let lead := if Nat.pow 2 63 ≤ bits then ['-'] else []
  let size := bits % Nat.pow 2 63
  if size = 0 then lead ++ "0.0".toList
  else lead ++ ((Dyadic.ofBits size.toUInt64).shortest.strip 20).layout

end Shading.Decimal
