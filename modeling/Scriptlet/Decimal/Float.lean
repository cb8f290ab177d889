import Scriptlet.Decimal.Shortest

/-! The text of a floating-point number: the shortest decimal that reads back, in positional
notation whatever its size. -/

namespace Scriptlet.Decimal

def magnitudeText (bits : Nat) : List Char := (Binary.ofBits bits).shortest.positional

def floatText (x : Float) : String :=
  if x.isNaN then "NaN"
  else
    let bits := x.toBits.toNat
    let sign := if bits / Binary.twoTo 63 = 1 then ['-'] else []
    if x.isInf then String.ofList (sign ++ "inf".toList)
    else String.ofList (sign ++ magnitudeText bits)

def signed? (cs : List Char) : Option (Bool × Decimal) :=
  let (negative, body) := match cs with
    | '-' :: rest => (true, rest)
    | '+' :: rest => (false, rest)
    | _ => (false, cs)
  let isMark := fun c : Char => c = 'e' || c = 'E'
  let mantissa := body.takeWhile (!isMark ·)
  let power := match (body.dropWhile (!isMark ·)).drop 1 with
    | '-' :: digits => -(natOfDigits digits : Int)
    | '+' :: digits => (natOfDigits digits : Int)
    | digits => (natOfDigits digits : Int)
  if mantissa.all (fun c => c.isDigit || c = '.') && mantissa.any Char.isDigit then
    some (negative, (ofNumeral mantissa).scale power)
  else none

def readFloat? (text : String) : Option Float :=
  match text with
  | "NaN" => some (0.0 / 0.0)
  | "inf" => some (1.0 / 0.0)
  | "-inf" => some (-1.0 / 0.0)
  | _ => (signed? text.toList).map fun (negative, d) =>
      if negative then -d.toFloat else d.toFloat

end Scriptlet.Decimal
