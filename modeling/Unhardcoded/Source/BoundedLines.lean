import Mathlib.Data.List.DropRight
import Unhardcoded.Effects.Framing
import Unhardcoded.Python.Utf8

/-!
# The bounded lines of a stream

Source: `_bounded_lines` of provider_adapters/openai_compatible.py. The generator is what
it yields and the exception that ends it; the caps are those that `_byo_caps` reads.
-/

namespace Unhardcoded.Source.BoundedLines

open Unhardcoded.Python Effects.Framing

structure Caps where
  total : Nat
  line : Nat

def LF : UInt8 := 10

def CR : UInt8 := 13

/-- `line.rstrip(b"\r").decode("utf-8", "replace")`. -/
def text (line : List UInt8) : String := decode (line.rdropWhile (· = CR))

def responseTooLarge (message : String) : Raised := .other "ResponseTooLarge" message

/-- The loop over the chunks and what follows it, with `buf` and `total`. -/
def readChunks (caps : Caps) (buf : List UInt8) (total : Nat) : List (List UInt8) → List String × Option Raised
  | [] => (if buf = [] then [] else [text buf], none)
  | chunk :: chunks =>
    if caps.total < total + chunk.length then
      ([], some (responseTooLarge ("stream exceeds " ++ toString caps.total ++ " bytes")))
    else if caps.line < (rest LF (buf ++ chunk)).length || (pieces LF (buf ++ chunk)).any (caps.line < ·.length) then
      ([], some (responseTooLarge ("SSE line exceeds " ++ toString caps.line ++ " bytes")))
    else
      let (later, ended) := readChunks caps (rest LF (buf ++ chunk)) (total + chunk.length) chunks
      ((pieces LF (buf ++ chunk)).map text ++ later, ended)

/-- `_bounded_lines`. -/
def boundedLines (caps : Caps) (chunks : List (List UInt8)) : List String × Option Raised := readChunks caps [] 0 chunks

end Unhardcoded.Source.BoundedLines
