import Tabletop.Failure
import Tabletop.Timestamp

namespace Tabletop

inductive FileFault where
  | missing
  | other (message : String)
deriving DecidableEq

def FileFault.message : FileFault → String
  | .missing => "No such file or directory (os error 2)"
  | .other message => message

def FileFault.toFailure (fault : FileFault) : Failure := .storage fault.message

-- What a program asks of the machine that it runs on.
structure Host (m : Type → Type) where
  contents : String → m (Except FileFault String)
  write : String → String → m (Except FileFault Unit)
  -- Makes the directories on the way as well; one that exists is fine.
  makeRoom : String → m (Except FileFault Unit)
  -- The next line of the input, empty at its end.
  nextLine : m (Except FileFault String)
  say : String → m Unit
  complain : String → m Unit
  now : m Timestamp
  -- A number that nobody can foresee.
  chance : m UInt64

def Host.inside (directory file : String) : String :=
  match directory.toList.getLast? with
  | none => file
  | some '/' => directory ++ file
  | some _ => directory ++ "/" ++ file

end Tabletop
