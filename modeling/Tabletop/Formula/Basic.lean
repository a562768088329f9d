import Tabletop.Binary64.Basic
import Tabletop.Bits

namespace Tabletop

inductive BinaryOp where
  | add
  | sub
  | mul
  | div
  | rem
deriving DecidableEq, Repr

namespace BinaryOp

def symbol : BinaryOp → Char
  | .add => '+'
  | .sub => '-'
  | .mul => '*'
  | .div => '/'
  | .rem => '%'

-- Multiplicative operators bind tighter.
def precedence : BinaryOp → Nat
  | .add | .sub => 1
  | .mul | .div | .rem => 2

end BinaryOp

-- Which dice of a throw count: the highest or the lowest so many.
inductive Keep where
  | highest (n : Nat)
  | lowest (n : Nat)
deriving DecidableEq, Repr

-- So many dice with so many faces each.
structure DiceTerm where
  count : Nat
  faces : Nat
  keep : Option Keep
deriving DecidableEq, Repr

inductive Builtin where
  | floor
  | ceil
  | round
  | abs
  | min
  | max
deriving DecidableEq, Repr

namespace Builtin

def name : Builtin → String
  | .floor => "floor"
  | .ceil => "ceil"
  | .round => "round"
  | .abs => "abs"
  | .min => "min"
  | .max => "max"

def all : List Builtin := [.floor, .ceil, .round, .abs, .min, .max]

def ofName? (name : String) : Option Builtin := all.find? fun f => f.name == name

end Builtin

inductive Formula where
  | number (x : Binary64)
  | dice (term : DiceTerm)
  | path (name : String)
  | neg (inner : Formula)
  | binary (op : BinaryOp) (lhs rhs : Formula)
  | call (builtin : Builtin) (args : List Formula)

instance : Inhabited Formula := ⟨.number 0⟩

namespace Formula

-- Bounds that keep a mistyped throw small.
def maxDice : Nat := 1000
def maxFaces : Nat := 1000000

-- Counts, faces and keeps are 32-bit numbers.
def maxNatural : Nat := Bits.greatest 32

end Formula

end Tabletop
