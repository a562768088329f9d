import Tabletop.Binary64.Text

namespace Tabletop

-- A moment of universal time: days from the start of 1970, the second of the day and the
-- nanosecond of the second. A leap second shows as a nanosecond count of a whole second or more.
structure Timestamp where
  day : Int
  second : Nat
  nano : Nat
deriving DecidableEq, Inhabited

namespace Timestamp

open Tabletop.Text

def isLeap (year : Int) : Bool := year % 4 = 0 && (year % 100 ≠ 0 || year % 400 = 0)

def monthDays (year : Int) (month : Nat) : Nat :=
  match month with
  | 2 => if isLeap year then 29 else 28
  | 4 | 6 | 9 | 11 => 30
  | _ => 31

-- Days from the start of 1970. Years are counted from March, so that a leap day ends its year.
def dayOf (year : Int) (month day : Nat) : Int :=
  let y := if month ≤ 2 then year - 1 else year
  let m : Int := if month ≤ 2 then month + 9 else month - 3
  365 * y + y.fdiv 4 - y.fdiv 100 + y.fdiv 400 + (153 * m + 2) / 5 + (day - 1 : Nat) - 719468

-- The year, month and day of a day count.
def civil (days : Int) : Int × Nat × Nat :=
  let z := days + 719468
  let era := z.fdiv 146097
  let doe := (z - era * 146097).toNat
  let yoe := (doe - doe / 1460 + doe / 36524 - doe / 146096) / 365
  let doy := doe - (365 * yoe + yoe / 4 - yoe / 100)
  let mp := (5 * doy + 2) / 153
  let day := doy - (153 * mp + 2) / 5 + 1
  let month := if mp < 10 then mp + 3 else mp - 9
  let year := (yoe : Int) + era * 400 + (if month ≤ 2 then 1 else 0)
  (year, month, day)

def padded (width n : Nat) : String :=
  let digits := Nat.toDigits 10 n
  String.ofList (List.replicate (width - digits.length) '0' ++ digits)

-- Fractions show three, six or nine places, as many as they need.
def fractionText (nano : Nat) : String :=
  if nano = 0 then ""
  else if nano % 1000000 = 0 then "." ++ padded 3 (nano / 1000000)
  else if nano % 1000 = 0 then "." ++ padded 6 (nano / 1000)
  else "." ++ padded 9 nano

-- The year takes four digits, with a sign beyond them.
def yearText (year : Int) : String :=
  if 0 ≤ year && year ≤ 9999 then padded 4 year.toNat
  else (if year < 0 then "-" else "+") ++ padded 4 year.natAbs

-- Without the offset from universal time.
def bareText (t : Timestamp) : String :=
  let (year, month, day) := civil t.day
  let leap := 1000000000 ≤ t.nano
  yearText year ++ "-" ++ padded 2 month ++ "-" ++ padded 2 day ++ "T" ++
    padded 2 (t.second / 3600) ++ ":" ++ padded 2 (t.second / 60 % 60) ++ ":" ++
    padded 2 (t.second % 60 + if leap then 1 else 0) ++
    fractionText (if leap then t.nano - 1000000000 else t.nano)

def text (t : Timestamp) : String := t.bareText ++ "Z"

def offsetText (t : Timestamp) : String := t.bareText ++ "+00:00"

def ofNanoseconds (n : Int) : Timestamp :=
  let second := n.fdiv 1000000000
  ⟨second.fdiv 86400, (second.fmod 86400).toNat, (n.fmod 1000000000).toNat⟩

/-! Reading -/

def skipBlanks (s : List Char) : List Char := s.dropWhile isBlank

-- One digit at least and `width` at most, blanks before them.
def number? (width : Nat) (s : List Char) : Option (Nat × List Char) :=
  let s := skipBlanks s
  let digits := (s.takeWhile isDigit).take width
  if digits.isEmpty then none else some (ofDigits digits, s.drop digits.length)

def expect? (c : Char) (s : List Char) : Option (List Char) :=
  match skipBlanks s with
  | d :: rest => if c = d then some rest else none
  | [] => none

-- A letter T or blanks part the date from the time.
def parting? : List Char → Option (List Char)
  | c :: rest => if c = 'T' || c = 't' || isBlank c then some rest else none
  | [] => none

-- Nine places are kept of a fraction.
def fraction? : List Char → Option (Nat × List Char)
  | '.' :: rest =>
    let digits := rest.takeWhile isDigit
    if digits.isEmpty then none
    else
      let kept := digits.take 9
      some (ofDigits kept * Nat.pow 10 (9 - kept.length), rest.dropWhile isDigit)
  | rest => some (0, rest)

def twoDigits? : List Char → Option (Nat × List Char)
  | a :: b :: rest => if isDigit a && isDigit b then some (ofDigits [a, b], rest) else none
  | _ => none

-- The offset from universal time in seconds, and what follows it.
def offset? (s : List Char) : Option (Int × List Char) :=
  match skipBlanks s with
  | [] => none
  | sign :: rest =>
    if sign = 'Z' || sign = 'z' then some (0, rest)
    else if ((sign :: rest).take 3).map Char.toUpper = ['U', 'T', 'C'] then some (0, rest.drop 2)
    else if sign = '+' || sign = '-' || sign = '−' then do
      let (hours, rest) ← twoDigits? rest
      let (minutes, rest) ← twoDigits? (rest.dropWhile fun c => c = ':' || isBlank c)
      let seconds : Int := hours * 3600 + minutes * 60
      if minutes < 60 && seconds < 86400 then some (if sign = '+' then seconds else -seconds, rest)
      else none
    else none

-- Year, month, day, hour, minute, second and offset in this order. A sixtieth second is a leap
-- second.
def parse? (s : String) : Option Timestamp := do
  let (year, rest) ← number? 4 s.toList
  let rest ← expect? '-' rest
  let (month, rest) ← number? 2 rest
  let rest ← expect? '-' rest
  let (day, rest) ← number? 2 rest
  let rest ← parting? rest
  let (hour, rest) ← number? 2 rest
  let rest ← expect? ':' rest
  let (minute, rest) ← number? 2 rest
  let rest ← expect? ':' rest
  let (second, rest) ← number? 2 rest
  let (nano, rest) ← fraction? rest
  let (offset, rest) ← offset? rest
  if (skipBlanks rest).isEmpty && 1 ≤ month && month ≤ 12 && 1 ≤ day &&
      day ≤ monthDays year month && hour < 24 && minute < 60 && second ≤ 60 then
    let leap := second = 60
    let seconds : Int := hour * 3600 + minute * 60 + (if leap then 59 else second : Nat) - offset
    let moved := seconds.fdiv 86400
    return ⟨dayOf year month day + moved, (seconds - moved * 86400).toNat,
      if leap then nano + 1000000000 else nano⟩
  else none

end Timestamp

end Tabletop
