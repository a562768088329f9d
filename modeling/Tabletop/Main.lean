import Std.Time.DateTime.Timestamp
import Tabletop.Cli

-- The program on a real machine.
namespace Tabletop.Console

-- The words of the system for an error, with a capital, and its number.
def described (details : String) (code : UInt32) : FileFault :=
  .other (details.capitalize ++ " (os error " ++ toString code.toInt32.toInt.natAbs ++ ")")

def faultOf : IO.Error → FileFault
  | .noFileOrDirectory .. => .missing
  | .inappropriateType _ code details
  | .permissionDenied _ code details
  | .alreadyExists _ code details
  | .resourceExhausted _ code details
  | .invalidArgument _ code details => described details code
  | error => .other (toString error)

def guarded (action : IO α) : IO (Except FileFault α) := do
  try
    return .ok (← action)
  catch error =>
    return .error (faultOf error)

def now : IO Timestamp := do
  let t ← Std.Time.Timestamp.now
  return .ofNanoseconds t.toNanosecondsSinceUnixEpoch.val

def chance : IO UInt64 := do
  let bytes ← IO.getRandomBytes 8
  return bytes.toList.foldl (fun n b => n * 256 + b.toUInt64) 0

def host : Host IO where
  contents path := guarded (IO.FS.readFile path)
  write path text := guarded (IO.FS.writeFile path text)
  makeRoom path := if path.isEmpty then return .ok () else guarded (IO.FS.createDirAll path)
  nextLine := guarded do (← IO.getStdin).getLine
  say := IO.println
  complain := IO.eprintln
  now
  chance

end Tabletop.Console

def main (arguments : List String) : IO UInt32 :=
  Tabletop.Cli.execute Tabletop.Console.host arguments
