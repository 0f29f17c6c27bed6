import ExprCompiler.Json.Writer

/-!
# Indented documents

One member a line, two blanks a level; empty containers stay on their line.
-/

namespace ExprCompiler.Json

private def newLine (level : Nat) : String := "\n" ++ String.ofList (List.replicate (2 * level) ' ')

mutual

/-- Writes a document whose first line is already indented to its level. -/
def indentedAt (level : Nat) : Json → String
  | .array [] => "[]"
  | .object [] => "\x7b\x7d"
  | .array items => "[" ++ indentedItems (level + 1) items ++ newLine level ++ "]"
  | .object fields => "\x7b" ++ indentedFields (level + 1) fields ++ newLine level ++ "\x7d"
  | j => j.write

def indentedItems (level : Nat) : List Json → String
  | [] => ""
  | [j] => newLine level ++ indentedAt level j
  | j :: js => newLine level ++ indentedAt level j ++ "," ++ indentedItems level js

def indentedFields (level : Nat) : List (String × Json) → String
  | [] => ""
  | [(name, j)] => newLine level ++ quoted name ++ ": " ++ indentedAt level j
  | (name, j) :: fs =>
    newLine level ++ quoted name ++ ": " ++ indentedAt level j ++ "," ++ indentedFields level fs

end

def indented (j : Json) : String := indentedAt 0 j

end ExprCompiler.Json
