import Tabletop.Binary64.Shortest
import Tabletop.Text.Basic

-- The written forms of numbers and the reading of number texts.
namespace Tabletop.Binary64

open Tabletop.Text

-- The digits with the point placed in or beside them, zeros filling the way.
def positional (d : Shortest.Decimal) : List Char :=
  let digits := Nat.toDigits 10 d.digits
  match d.exponent with
  | .ofNat e => digits ++ List.replicate e '0'
  | .negSucc e =>
    let places := e + 1
    if places < digits.length then
      digits.take (digits.length - places) ++ '.' :: digits.drop (digits.length - places)
    else '0' :: '.' :: (List.replicate (places - digits.length) '0' ++ digits)

-- One digit before the point, and the exponent with its sign.
def scientific (d : Shortest.Decimal) : List Char :=
  let digits := Nat.toDigits 10 d.digits
  let power : Int := d.exponent + (digits.length - 1 : Nat)
  let mantissa := match digits with
    | [] => []
    | [c] => [c]
    | c :: rest => c :: '.' :: rest
  mantissa ++ 'e' :: (if power < 0 then '-' else '+') :: Nat.toDigits 10 power.natAbs

-- The form of numbers in messages: never an exponent, and no point in whole numbers.
def plainText : Binary64 → String
  | .nan => "NaN"
  | .infinite s => if s then "-inf" else "inf"
  | .finite s u _ =>
    let digits := if u = 0 then ['0'] else positional (Shortest.decimal .up u)
    String.ofList (if s then '-' :: digits else digits)

-- The form of finite numbers in documents: a point in whole numbers too, and an exponent for
-- magnitudes below 10^-5 and from 10^16 on.
def documentText : Binary64 → String
  | .nan => "NaN"
  | .infinite s => if s then "-inf" else "inf"
  | .finite s u _ =>
    let digits :=
      if u = 0 then ['0', '.', '0']
      else
        let d := Shortest.decimal .even u
        let power : Int := d.exponent + ((Nat.toDigits 10 d.digits).length - 1 : Nat)
        if power < -5 || 16 ≤ power then scientific d
        else
          let text := positional d
          if text.contains '.' then text else text ++ ['.', '0']
    String.ofList (if s then '-' :: digits else digits)

-- Whole numbers below 10^15 show no fraction and no sign of zero.
def format (x : Binary64) : String :=
  if x.isWhole && less x.abs (ofNat (Nat.pow 10 15)) then toString x.toInt else x.plainText

def digitRun (s : List Char) : List Char × List Char :=
  (s.takeWhile isDigit, s.dropWhile isDigit)

-- An exponent part is the letter, an optional sign and at least one digit, to the end of the text.
def exponentPart? : List Char → Option Int
  | [] => some 0
  | e :: rest =>
    if e != 'e' && e != 'E' then none
    else
      let (negative, digits) := match rest with
        | '-' :: ds => (true, ds)
        | '+' :: ds => (false, ds)
        | ds => (false, ds)
      if digits.isEmpty || !digits.all isDigit then none
      else some (if negative then -(ofDigits digits : Int) else ofDigits digits)

def ofUnsignedText? (negative : Bool) (s : List Char) : Option Binary64 :=
  let word := s.map Char.toLower
  if word = "inf".toList || word = "infinity".toList then some (.infinite negative)
  else if word = "nan".toList then some .nan
  else
    let (whole, rest) := digitRun s
    let (fraction, rest) := match rest with
      | '.' :: more => digitRun more
      | other => ([], other)
    if whole.isEmpty && fraction.isEmpty then none
    else (exponentPart? rest).map fun exponent =>
      ofDecimal negative (ofDigits (whole ++ fraction)) (exponent - fraction.length)

-- Numbers in texts: a sign, digits with a point anywhere among them and an exponent; the words
-- for infinity and NaN are known in any case.
def ofText? (s : String) : Option Binary64 :=
  match s.toList with
  | '-' :: rest => ofUnsignedText? true rest
  | '+' :: rest => ofUnsignedText? false rest
  | rest => ofUnsignedText? false rest

end Tabletop.Binary64
