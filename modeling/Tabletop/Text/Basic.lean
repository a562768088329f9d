namespace Tabletop.Text

-- The Unicode characters with the property White_Space.
def isBlank (c : Char) : Bool :=
  let n := c.toNat
  (9 ≤ n && n ≤ 13) || n == 0x20 || n == 0x85 || n == 0xA0 || n == 0x1680 ||
    (0x2000 ≤ n && n ≤ 0x200A) || n == 0x2028 || n == 0x2029 || n == 0x202F ||
    n == 0x205F || n == 0x3000

def trimLeft (s : List Char) : List Char :=
  s.dropWhile isBlank

def trimRight (s : List Char) : List Char :=
  (s.reverse.dropWhile isBlank).reverse

def trim (s : String) : String :=
  String.ofList (trimRight (trimLeft s.toList))

-- A text is blank when nothing is left of it between its white space.
def allBlank (s : String) : Bool :=
  s.toList.all isBlank

def isDigit (c : Char) : Bool :=
  '0' ≤ c && c ≤ '9'

def isLetter (c : Char) : Bool :=
  ('a' ≤ c && c ≤ 'z') || ('A' ≤ c && c ≤ 'Z')

def digitValue (c : Char) : Nat :=
  c.toNat - '0'.toNat

-- The number that a run of decimal digits stands for.
def ofDigits (digits : List Char) : Nat :=
  digits.foldl (fun n c => 10 * n + digitValue c) 0

-- The length of a text in the octets of its UTF-8 form.
def octets (s : List Char) : Nat :=
  s.foldl (fun total c => total + c.utf8Size) 0

def startsWith : List Char → List Char → Bool
  | [], _ => true
  | _ :: _, [] => false
  | p :: ps, c :: cs => p == c && startsWith ps cs

def contains (part : List Char) : List Char → Bool
  | [] => startsWith part []
  | c :: cs => startsWith part (c :: cs) || contains part cs

-- The pieces of a text between the occurrences of `mark`; there is always at least one.
def splitOn (mark : Char) : List Char → List (List Char)
  | [] => [[]]
  | c :: cs =>
    match splitOn mark cs with
    | [] => [[c]]
    | piece :: rest => if c = mark then [] :: piece :: rest else (c :: piece) :: rest

-- What stands before and after the first `mark`, if there is one.
def cut (mark : Char) : List Char → Option (List Char × List Char)
  | [] => none
  | c :: cs => if c = mark then some ([], cs) else (cut mark cs).map fun (a, b) => (c :: a, b)

-- Every occurrence of `part`, read from the left, gives way to `replacement`. The count bounds
-- the steps; the length of the text is enough, for each step drops a character.
def replaceSteps (part replacement : List Char) : Nat → List Char → List Char
  | 0, s => s
  | _ + 1, [] => []
  | n + 1, c :: cs =>
    if startsWith part (c :: cs) then
      replacement ++ replaceSteps part replacement n ((c :: cs).drop part.length)
    else
      c :: replaceSteps part replacement n cs

-- Used with a nonempty `part` only.
def replace (s part replacement : String) : String :=
  String.ofList (replaceSteps part.toList replacement.toList s.length s.toList)

-- An unsigned decimal integer with an optional plus sign, at most `limit`.
def toNatUpTo? (limit : Nat) (s : String) : Option Nat :=
  let digits := match s.toList with
    | '+' :: rest => rest
    | all => all
  if digits.isEmpty || !digits.all isDigit then none
  else
    let n := ofDigits digits
    if n ≤ limit then some n else none

-- Lists of names read "a, b, c" in messages.
def commaList (names : List String) : String :=
  ", ".intercalate names

end Tabletop.Text
