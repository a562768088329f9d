import Tabletop.Bits
import Tabletop.Prompt

-- How prompts are answered: automatically, from a script, or at a console.
namespace Tabletop

namespace Prompt

-- The answer that stands when nobody is asked: the first entry, or the default or least number, as
-- far as it is not above the greatest. Where there is no entry, the prompt is dismissed.
def automatic (p : Prompt) : Answer :=
  match p.kind with
  | .select [] => .dismiss
  | .select (first :: _) => .choice first.value
  | .number default min max =>
    let x := (default <|> min).getD 0
    .number (match max with
      | some greatest => Binary64.min x greatest
      | none => x)
  | .acknowledge => .acknowledge

-- What a line typed at the console says. Entries are counted from one; a line that is no such count
-- goes to the operation as it is, and so does one that is no number where a number is asked for.
-- A blank line dismisses the prompt, but any line tells that something is done.
def answerOfLine (p : Prompt) (line : String) : Answer :=
  let typed := Text.trim line
  match p.kind with
  | .acknowledge => .acknowledge
  | .select choices =>
    if typed.isEmpty then .dismiss
    else
      match Text.toNatUpTo? (Bits.greatest 64) typed with
      | some (i + 1) => .choice ((choices[i]?.map Choice.value).getD typed)
      | _ => .choice typed
  | .number .. =>
    if typed.isEmpty then .dismiss
    else
      match Binary64.ofText? typed with
      | some x => .number x
      | none => .choice typed

def bound : Option Binary64 → String
  | some x => x.format
  | none => "-"

def lines (p : Prompt) : List String :=
  ["", p.title] ++
  match p.kind with
  | .select choices =>
    choices.mapIdx fun i c => "  [" ++ toString (i + 1) ++ "] " ++ c.label
  | .number default min max =>
    ["  number (default " ++ bound default ++ ", min " ++ bound min ++ ", max " ++ bound max ++ ")"]
  | .acknowledge => ["  press enter when done"]

end Prompt

-- Answers that are given one after the other, and automatic ones after them. What was asked is
-- kept.
structure Script where
  answers : List Answer
  asked : List Prompt := []

def Script.answer (script : Script) (p : Prompt) : Answer × Script :=
  match script.answers with
  | [] => (p.automatic, { script with asked := script.asked ++ [p] })
  | answer :: rest => (answer, { answers := rest, asked := script.asked ++ [p] })

end Tabletop
