import Unhardcoded.Python.JsonText
import Unhardcoded.Python.Lines
import Unhardcoded.Source.Adapters.Common

/-!
# The text of an event stream

Source: how `stream_codex` and `aggregate_codex_sse` read a line. `aiter_lines` splits the
text of the body as `str.splitlines` does.
-/

namespace Unhardcoded.Source.SseLines

open Unhardcoded.Python Unhardcoded.Source.Adapters

variable (float : String → Json)

/-- `line.startswith("data:")`. -/
def isData (line : String) : Bool := "data:".toList.isPrefixOf line.toList

/-- `line[len("data:"):].strip()`. -/
def dataOf (line : String) : String := strip (String.ofList (line.toList.drop 5))

/-- What `json.loads` makes of the rest of a line. -/
def payloadOf (line : String) : Payload :=
  if !isData line then .absent
  else if dataOf line = "[DONE]" then .done
  else match loads float (dataOf line) with
    | some ev => .event ev
    | none => .undecodable

/-- A line, as it comes and stripped. -/
def lineOf (line : String) : Line := ⟨!isData line && isData (strip line), payloadOf float (strip line)⟩

/-- `aiter_lines`, each line read. -/
def aiterLines (body : String) : List Line := (splitlines body).map (lineOf float)

/-- The event of a JSON text. -/
def eventText (text : String) : String := "data: " ++ text ++ "\n\n"

end Unhardcoded.Source.SseLines
