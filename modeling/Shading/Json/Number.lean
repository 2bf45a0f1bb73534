import Shading.Decimal.Shortest
import Shading.Json.Problem

/-!
    JSON numbers.

    No field of the library is a number, so a number is read only to be named in a message. A whole
    number that fits 64 bits is named by its digits. Any other is taken as a float: as many leading
    digits as fit 64 bits, scaled by a power of ten, which can differ in the last place from the nearest
    float. Negative zero is a float. -/

namespace Shading.Json

/-- The largest significand. -/
def significandMax : Nat := Nat.pow 2 64 - 1

/-- Take digits into a significand as long as it stays in range; answer how many are left over. -/
def accumulate (significand : Nat) : List Char → Nat × Nat
  | [] => (significand, 0)
  | c :: digits =>
    let next := significand * 10 + (c.toNat - '0'.toNat)
    if significandMax < next then (significand, digits.length + 1) else accumulate next digits

/-- A power of ten as a float. -/
def powerOfTen (n : Nat) : Float := Float.ofScientific 1 false n

/-- Scale a float by a power of ten, in steps where the power itself is out of range. -/
def scale : Nat → Float → Int → Except Problem Float
  | 0, x, _ => .ok x
  | steps + 1, x, exponent =>
    if exponent.natAbs ≤ 308 then
      if 0 ≤ exponent then
        let scaled := x * powerOfTen exponent.natAbs
        if scaled.isInf then .error (.malformed .numberOutOfRange) else .ok scaled
      else .ok (x / powerOfTen exponent.natAbs)
    else if x == 0 then .ok x
    else if 0 ≤ exponent then .error (.malformed .numberOutOfRange)
    else scale steps (x / powerOfTen 308) (exponent + 308)

/-- The number of a sign, a significand and a power of ten, as it is named. -/
def floatFound (positive : Bool) (significand : Nat) (exponent : Int) : Except Problem Found := do
  let x ← scale 8 significand.toUInt64.toFloat exponent
  return .decimal (Decimal.textOf (if positive then x else -x))

/-- Zero, which an exponent out of range leaves of a number that is not too large. -/
def zeroFound (positive : Bool) : Found :=
  .decimal (if positive then "0.0".toList else "-0.0".toList)

/-- Read an exponent behind its `e`. -/
def exponentFound (positive : Bool) (significand : Nat) (start : Int) (s : Text) :
    Except Problem Found :=
  let (up, digits) := match s with
    | '+' :: rest => (true, rest)
    | '-' :: rest => (false, rest)
    | _ => (true, s)
  match digits with
  | [] => .error (.unfinished .value)
  | c :: _ =>
    if !c.isDigit then .error (.malformed .invalidNumber)
    else
      let exponent := (digits.takeWhile Char.isDigit).foldl
        (fun n c => n * 10 + (c.toNat - '0'.toNat)) 0
      if exponent ≤ Nat.pow 2 31 - 1 then
        floatFound positive significand (if up then start + exponent else start - exponent)
      else if significand ≠ 0 && up then .error (.malformed .numberOutOfRange)
      else .ok (zeroFound positive)

/-- Read an exponent if there is one. -/
def scaledFound (positive : Bool) (significand : Nat) (exponent : Int) (s : Text) :
    Except Problem Found :=
  match s with
  | 'e' :: rest => exponentFound positive significand exponent rest
  | 'E' :: rest => exponentFound positive significand exponent rest
  | _ => floatFound positive significand exponent

/-- Read the digits behind the point. -/
def fractionFound (positive : Bool) (significand : Nat) (exponent : Int) (s : Text) :
    Except Problem Found :=
  let digits := s.takeWhile Char.isDigit
  let (longer, left) := accumulate significand digits
  if digits.isEmpty then
    .error (if s.isEmpty then .unfinished .value else .malformed .invalidNumber)
  else scaledFound positive longer (exponent - (digits.length - left : Nat))
    (s.dropWhile Char.isDigit)

/-- A whole number as it is named; below the range of 64 bits it is a float. -/
def wholeFound (positive : Bool) (significand : Nat) : Except Problem Found :=
  if positive then .ok (.integer significand)
  else if significand ≠ 0 && significand ≤ Nat.pow 2 63 then .ok (.integer (-significand))
  else floatFound false significand 0

/-- Read a number behind its sign. -/
def numberFound (positive : Bool) (s : Text) : Except Problem Found :=
  let digits := s.takeWhile Char.isDigit
  let rest := s.dropWhile Char.isDigit
  match s with
  | [] => .error (.unfinished .value)
  | c :: _ =>
    if !c.isDigit then .error (.malformed .invalidNumber)
    else if c = '0' && digits ≠ ['0'] then .error (.malformed .invalidNumber)
    else
      let (significand, left) := accumulate 0 digits
      match rest with
      | '.' :: fraction => fractionFound positive significand left fraction
      | 'e' :: exponent => exponentFound positive significand left exponent
      | 'E' :: exponent => exponentFound positive significand left exponent
      | _ => if left = 0 then wholeFound positive significand
        else floatFound positive significand left

end Shading.Json
