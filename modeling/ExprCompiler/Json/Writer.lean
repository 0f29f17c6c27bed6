import ExprCompiler.Json.Basic
import ExprCompiler.Text.Quoted

/-!
# Writing documents

Text without blanks. In strings, the characters that matter to markup (`<`, `>`, `&`) and the two
line separators beyond ASCII are written as escapes.
-/

namespace ExprCompiler.Json

def escapeChar (c : Char) : List Char :=
  match c with
  | '"' => ['\\', '"']
  | '\\' => ['\\', '\\']
  | '\n' => ['\\', 'n']
  | '\t' => ['\\', 't']
  | c =>
    let n := c.toNat
    if n == 0x0d then ['\\', 'r']
    else if n < 0x20 || c == '<' || c == '>' || c == '&' || n == 0x2028 || n == 0x2029 then
      '\\' :: 'u' :: Text.hex 4 n
    else [c]

/-- A string in double quotes. -/
def quoted (s : String) : String :=
  s.foldl (fun acc c ↦ (escapeChar c).foldl String.push acc) "\"" ++ "\""

mutual

/-- Appends the text of a document to `acc`. -/
def writeTo (acc : String) : Json → String
  | .null => acc ++ "null"
  | .bool b => acc ++ (if b then "true" else "false")
  | .number text => acc ++ text
  | .string s => acc ++ quoted s
  | .array items => writeItems (acc ++ "[") true items ++ "]"
  | .object fields => writeFields (acc ++ "\x7b") true fields ++ "\x7d"

def writeItems (acc : String) (first : Bool) : List Json → String
  | [] => acc
  | j :: js => writeItems (writeTo (if first then acc else acc ++ ",") j) false js

def writeFields (acc : String) (first : Bool) : List (String × Json) → String
  | [] => acc
  | (name, j) :: fs =>
    let acc := if first then acc else acc ++ ","
    writeFields (writeTo (acc ++ quoted name ++ ":") j) false fs

end

def write (j : Json) : String := writeTo "" j

/-- An object with its fields in the order of their names. -/
def sorted (fields : List (String × Json)) : Json :=
  .object (fields.mergeSort fun a b ↦ decide (a.1 ≤ b.1))

end ExprCompiler.Json
