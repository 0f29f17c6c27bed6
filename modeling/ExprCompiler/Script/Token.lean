import ExprCompiler.Json.Reader
import ExprCompiler.Script.Syntax

/-!
# Tokens of scripts

The text of a script is cut into tokens from left to right, each as long as it can be. Numerals have
the grammar of numbers in documents; runs of signs are operators as a whole or nothing.
-/

namespace ExprCompiler.Script

inductive Token where
  /-- A name, with the members that it selects. -/
  | name (s : String)
  | number (x : Float)
  /-- What the engine reads in a quoted literal. -/
  | literal (s : String)
  | operator (op : Operator)
  /-- A sign that is no operator between two operands. -/
  | sign (c : Char)
  | bracket (c : Char)

def isBlank (c : Char) : Bool := c == ' ' || c == '\t' || c == '\n'

def isBracket (c : Char) : Bool :=
  c == '(' || c == ')' || c == '\x7b' || c == '\x7d' || c == ',' || c == ';'

def isSign (c : Char) : Bool := ['+', '-', '*', '/', '<', '>', '=', '!', '&', '|', '?', ':'].contains c

def isWordStart (c : Char) : Bool := c.isAlpha || c == '_'

def isWordChar (c : Char) : Bool := isWordStart c || c.isDigit || c == '.'

/-- A token that may still go on, its characters in reverse. -/
inductive Pending where
  | nothing
  | bracket (c : Char)
  | word (cs : List Char)
  | signs (cs : List Char)
  | numeral (part : Json.NumberPart) (cs : List Char)
  | quoted (escaped : Bool) (cs : List Char)
  | unquoted (cs : List Char)

/-- What a token begins with. -/
def Pending.first? (c : Char) : Option Pending :=
  if isBlank c then some .nothing
  else if isBracket c then some (.bracket c)
  else if isWordStart c then some (.word [c])
  else if isSign c then some (.signs [c])
  else if c == '"' then some (.quoted false [c])
  else if c == '0' then some (.numeral .zero [c])
  else if c.isDigit then some (.numeral .whole [c])
  else none

/-- The token with one more character, if the character belongs to it. -/
def Pending.next? (p : Pending) (c : Char) : Option Pending :=
  match p with
  | .word cs => if isWordChar c then some (.word (c :: cs)) else none
  | .signs cs => if isSign c then some (.signs (c :: cs)) else none
  | .numeral part cs => (part.next? c).map (.numeral · (c :: cs))
  | .quoted true cs => some (.quoted false (c :: cs))
  | .quoted false cs =>
    if c == '"' then some (.unquoted (c :: cs)) else some (.quoted (c == '\\') (c :: cs))
  | _ => none

def tokenOfSigns? (s : String) : Option Token :=
  match s with
  | "!" => some (.sign '!')
  | "?" => some (.sign '?')
  | ":" => some (.sign ':')
  | s => (Operator.all.find? (·.symbol == s)).map .operator

/-- The tokens that have been read when nothing more belongs to the last. -/
def Pending.finish? : Pending → Option (List Token)
  | .nothing => some []
  | .bracket c => some [.bracket c]
  | .word cs => some [.name (String.ofList cs.reverse)]
  | .signs cs => (tokenOfSigns? (String.ofList cs.reverse)).map ([·])
  | .numeral part cs => if part.final then some [.number (Numeral.decimal cs.reverse)] else none
  | .quoted _ _ => none
  | .unquoted cs => (Text.readScript? (String.ofList cs.reverse)).map ([.literal ·])

def Pending.tokens? : Pending → List Char → Option (List Token)
  | p, [] => p.finish?
  | p, c :: cs =>
    match p.next? c with
    | some q => q.tokens? cs
    | none => do
      let ts ← p.finish?
      let q ← first? c
      return ts ++ (← q.tokens? cs)

/-- The tokens of a text. -/
def tokens? (cs : List Char) : Option (List Token) := Pending.nothing.tokens? cs

end ExprCompiler.Script
