import Tabletop.Bits
import Tabletop.Json.Basic

-- Reading and writing of JSON texts.
namespace Tabletop.Json

open Tabletop.Text

/-! Writing -/

def hexDigit (n : Nat) : Char := Nat.digitChar (n % 16)

def escape (c : Char) : List Char :=
  if c = '"' then ['\\', '"']
  else if c = '\\' then ['\\', '\\']
  else if c = '\n' then ['\\', 'n']
  else if c = '\r' then ['\\', 'r']
  else if c = '\t' then ['\\', 't']
  else if c.toNat = 8 then ['\\', 'b']
  else if c.toNat = 12 then ['\\', 'f']
  else if c.toNat < 32 then ['\\', 'u', '0', '0', hexDigit (c.toNat / 16), hexDigit c.toNat]
  else [c]

def quote (s : String) : String :=
  String.ofList ('"' :: (s.toList.flatMap escape ++ ['"']))

mutual

def compact : Json → String
  | .null => "null"
  | .bool b => if b then "true" else "false"
  | .int n => toString n
  | .float x => if x.isFinite then x.documentText else "null"
  | .str s => quote s
  | .arr items => "[" ++ ",".intercalate (compactItems items) ++ "]"
  | .obj members => "\x7b" ++ ",".intercalate (compactMembers members) ++ "\x7d"

def compactItems : List Json → List String
  | [] => []
  | item :: rest => compact item :: compactItems rest

def compactMembers : List (String × Json) → List String
  | [] => []
  | (key, value) :: rest => (quote key ++ ":" ++ compact value) :: compactMembers rest

end

def blanks (n : Nat) : String := String.ofList (List.replicate n ' ')

-- Lines between two brackets, each `depth` blanks deep, with the brackets two blanks less.
def block (depth : Nat) (opening closing : String) (lines : List String) : String :=
  if lines.isEmpty then opening ++ closing
  else
    let gap := "\n" ++ blanks depth
    opening ++ gap ++ ("," ++ gap).intercalate lines ++ "\n" ++ blanks (depth - 2) ++ closing

mutual

-- The text with every item and member on a line of its own, two blanks deeper than what holds it.
def indented (depth : Nat) : Json → String
  | .arr items => block (depth + 2) "[" "]" (indentedItems (depth + 2) items)
  | .obj members => block (depth + 2) "\x7b" "\x7d" (indentedMembers (depth + 2) members)
  | leaf => leaf.compact

def indentedItems (depth : Nat) : List Json → List String
  | [] => []
  | item :: rest => indented depth item :: indentedItems depth rest

def indentedMembers (depth : Nat) : List (String × Json) → List String
  | [] => []
  | (key, value) :: rest =>
    (quote key ++ ": " ++ indented depth value) :: indentedMembers depth rest

end

/-! Reading -/

def isSpace (c : Char) : Bool := c = ' ' || c = '\n' || c = '\t' || c = '\r'

def skipSpace (s : List Char) : List Char := s.dropWhile isSpace

def hexValue? (c : Char) : Option Nat :=
  if isDigit c then some (digitValue c)
  else if 'a' ≤ c && c ≤ 'f' then some (c.toNat - 'a'.toNat + 10)
  else if 'A' ≤ c && c ≤ 'F' then some (c.toNat - 'A'.toNat + 10)
  else none

def hex4? : List Char → Option (Nat × List Char)
  | a :: b :: c :: d :: rest => do
    let a ← hexValue? a
    let b ← hexValue? b
    let c ← hexValue? c
    let d ← hexValue? d
    return (((a * 16 + b) * 16 + c) * 16 + d, rest)
  | _ => none

-- The character of a \u escape. A high surrogate needs its low half right behind it, and a low
-- one may not stand alone.
def escapedUnit? (s : List Char) : Option (Char × List Char) := do
  let (high, rest) ← hex4? s
  if 0xD800 ≤ high && high < 0xDC00 then
    match rest with
    | '\\' :: 'u' :: more =>
      let (low, rest) ← hex4? more
      if 0xDC00 ≤ low && low < 0xE000 then
        return (Char.ofNat (0x10000 + (high - 0xD800) * 0x400 + (low - 0xDC00)), rest)
      else none
    | _ => none
  else if 0xDC00 ≤ high && high < 0xE000 then none
  else return (Char.ofNat high, rest)

-- The rest of a string behind its opening quote. Every step takes a character, so that the length
-- of the text is a sufficient count.
def stringBody? : Nat → List Char → List Char → Option (String × List Char)
  | 0, _, _ => none
  | _ + 1, _, [] => none
  | n + 1, read, c :: rest =>
    if c = '"' then some (String.ofList read.reverse, rest)
    else if c = '\\' then
      match rest with
      | 'u' :: more =>
        match escapedUnit? more with
        | some (d, rest) => stringBody? n (d :: read) rest
        | none => none
      | e :: rest =>
        match e with
        | '"' => stringBody? n ('"' :: read) rest
        | '\\' => stringBody? n ('\\' :: read) rest
        | '/' => stringBody? n ('/' :: read) rest
        | 'b' => stringBody? n ('\x08' :: read) rest
        | 'f' => stringBody? n ('\x0c' :: read) rest
        | 'n' => stringBody? n ('\n' :: read) rest
        | 'r' => stringBody? n ('\r' :: read) rest
        | 't' => stringBody? n ('\t' :: read) rest
        | _ => none
      | [] => none
    else if c.toNat < 32 then none
    else stringBody? n (c :: read) rest

-- Takes digits onto a significand as long as it fits into 64 bits, and counts the digits left.
def significand (seen : Nat) : List Char → Nat × Nat
  | [] => (seen, 0)
  | c :: rest =>
    let next := 10 * seen + digitValue c
    if next ≤ Bits.greatest 64 then significand next rest else (seen, (c :: rest).length)

-- A number from 64 bits of significand and a power of ten. Both are rounded before they are
-- multiplied or divided. Powers beyond 10^308 are taken in steps, and what grows beyond every
-- finite number is refused.
def scaleDecimal? (negative : Bool) (x : Binary64) : Nat → Int → Option Binary64
  | 0, _ => some (if negative then x.neg else x)
  | n + 1, exponent =>
    let power (e : Nat) : Binary64 := Binary64.ofNat (Nat.pow 10 e)
    if exponent.natAbs ≤ 308 then
      let y := if 0 ≤ exponent then x * power exponent.natAbs else x / power exponent.natAbs
      if y.isFinite then some (if negative then y.neg else y) else none
    else if x.same 0 then some (if negative then x.neg else x)
    else if 0 ≤ exponent then none
    else scaleDecimal? negative (x / power 308) n (exponent + 308)

-- The value of a number with a point or an exponent, or of an integer beyond 64 bits. Two steps
-- bring every number down to zero, so that four are enough.
def realValue? (negative : Bool) (whole fraction : List Char) (exponent : Int) : Option Binary64 :=
  let (kept, dropped) := significand 0 whole
  let (kept, lost) := significand kept fraction
  let places := fraction.length - lost
  scaleDecimal? negative (Binary64.ofNat kept) 4 ((dropped : Int) - places + exponent)

-- Exponents count up to 2^31; a larger one makes zero, or is refused where it would make infinity.
def exponentLimit : Nat := Nat.pow 2 31

def fraction? : List Char → Option (Option (List Char) × List Char)
  | '.' :: more =>
    let (digits, rest) := Binary64.digitRun more
    if digits.isEmpty then none else some (some digits, rest)
  | rest => some (none, rest)

-- Whether a sign says that an exponent is negative, and what follows the sign.
def exponentSign : List Char → Bool × List Char
  | '-' :: rest => (true, rest)
  | '+' :: rest => (false, rest)
  | rest => (false, rest)

-- The exponent behind its letter, if there is one, and whether it is negative.
def exponent? : List Char → Option (Option (Bool × Nat) × List Char)
  | [] => some (none, [])
  | e :: more =>
    if e = 'e' || e = 'E' then
      let (down, more) := exponentSign more
      let (digits, rest) := Binary64.digitRun more
      if digits.isEmpty then none else some (some (down, ofDigits digits), rest)
    else some (none, e :: more)

-- The number with these digits. Without a fraction and an exponent it is whole as long as it fits
-- into 64 bits.
def numberOf? (negative : Bool) (whole : List Char) :
    Option (List Char) → Option (Bool × Nat) → Option Json
  | none, none =>
    let n := ofDigits whole
    if Bits.greatest 64 < n then (realValue? negative whole [] 0).map .float
    else if !negative then some (.int n)
    else if n = 0 || Nat.pow 2 63 < n then some (.float (Binary64.ofNat n).neg)
    else some (.int (-n))
  | some fraction, none => (realValue? negative whole fraction 0).map .float
  | fraction, some (down, power) =>
    let fraction := fraction.getD []
    if exponentLimit ≤ power then
      if (whole ++ fraction).all (· = '0') || down then
        some (.float (if negative then Binary64.zero.neg else 0))
      else none
    else (realValue? negative whole fraction (if down then -(power : Int) else power)).map .float

def unsigned? (negative : Bool) (s : List Char) : Option (Json × List Char) := do
  let (whole, rest) := Binary64.digitRun s
  if whole.isEmpty || (whole.head? = some '0' && 1 < whole.length) then none
  else
    let (fraction, rest) ← fraction? rest
    let (exponent, rest) ← exponent? rest
    let number ← numberOf? negative whole fraction exponent
    return (number, rest)

def number? : List Char → Option (Json × List Char)
  | '-' :: rest => unsigned? true rest
  | rest => unsigned? false rest

-- Arrays and objects may nest to this depth.
def depthLimit : Nat := 127

mutual

-- Each call takes a step off the first count and each bracket takes a level off the second.
def value? : Nat → Nat → List Char → Option (Json × List Char)
  | 0, _, _ => none
  | n + 1, depth, s =>
    match skipSpace s with
    | 'n' :: 'u' :: 'l' :: 'l' :: rest => some (.null, rest)
    | 't' :: 'r' :: 'u' :: 'e' :: rest => some (.bool true, rest)
    | 'f' :: 'a' :: 'l' :: 's' :: 'e' :: rest => some (.bool false, rest)
    | '"' :: rest => (stringBody? rest.length [] rest).map fun (t, rest) => (.str t, rest)
    | '[' :: rest =>
      if depth = 0 then none
      else match skipSpace rest with
        | ']' :: rest => some (.arr [], rest)
        | rest => (items? n (depth - 1) rest).map fun (items, rest) => (.arr items, rest)
    | '\x7b' :: rest =>
      if depth = 0 then none
      else match skipSpace rest with
        | '\x7d' :: rest => some (.obj [], rest)
        | rest => (members? n (depth - 1) rest).map fun (members, rest) => (.obj members, rest)
    | rest => number? rest

def items? : Nat → Nat → List Char → Option (List Json × List Char)
  | 0, _, _ => none
  | n + 1, depth, s => do
    let (item, rest) ← value? n depth s
    match skipSpace rest with
    | ',' :: rest =>
      let (items, rest) ← items? n depth rest
      return (item :: items, rest)
    | ']' :: rest => return ([item], rest)
    | _ => none

def members? : Nat → Nat → List Char → Option (List (String × Json) × List Char)
  | 0, _, _ => none
  | n + 1, depth, s =>
    match skipSpace s with
    | '"' :: rest => do
      let (key, rest) ← stringBody? rest.length [] rest
      match skipSpace rest with
      | ':' :: rest =>
        let (value, rest) ← value? n depth rest
        match skipSpace rest with
        | ',' :: rest =>
          let (members, rest) ← members? n depth rest
          return ((key, value) :: members, rest)
        | '\x7d' :: rest => return ([(key, value)], rest)
        | _ => none
      | _ => none
    | _ => none

end

-- A text holds exactly one value. Objects come as they are written, repeated names and all. A value
-- takes at most two steps for each of its characters.
def read? (text : String) : Option Json := do
  let s := text.toList
  let (value, rest) ← value? (2 * s.length + 2) depthLimit s
  if (skipSpace rest).isEmpty then some value else none

end Tabletop.Json
