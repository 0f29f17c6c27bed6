import ExprCompiler.Yaml.Basic

/-!
# Tokens of a document

The marks and scalars of a document, each with the place where it starts. Structure is read off
the columns, so a token keeps its own, and a scalar keeps the characters it was read from: a name
must not run over a line.
-/

namespace ExprCompiler.Yaml

inductive TokenKind where
  | documentStart
  | documentEnd
  /-- The dash of an entry of a sequence. -/
  | entry
  /-- The question mark in front of a name. -/
  | explicitName
  | colon
  | merge
  | comma
  | sequenceOpen
  | sequenceClose
  | mappingOpen
  | mappingClose
  | comment
  | anchor
  | reference
  | tag
  /-- The mark of a text in lines of its own. -/
  | lines
  | directive
  /-- A plain scalar that is more than a text. -/
  | value
  | text
  | quoted
deriving DecidableEq

structure Token where
  kind : TokenKind
  text : String
  /-- The characters since the token before, blanks included. -/
  source : String
  line : Nat
  column : Nat

namespace TokenKind

/-- Marks and scalars that can stand for a single value. -/
def isScalar (k : TokenKind) : Bool :=
  [.anchor, .reference, .lines, .value, .text, .quoted].contains k

def isBracket (k : TokenKind) : Bool :=
  [.mappingOpen, .mappingClose, .sequenceOpen, .sequenceClose].contains k

/-- Marks that cannot be a name in front of a colon. -/
def isNoName (k : TokenKind) : Bool :=
  k.isBracket || [.directive, .documentStart, .documentEnd, .comma, .colon].contains k

end TokenKind

/-- The kind of a plain scalar. -/
def plainKind (s : String) : TokenKind :=
  match resolve s with
  | .string _ => .text
  | _ => .value

def isBreak (c : Char) : Bool := c == '\n' || c == '\r'

def isGap (c : Char) : Bool := c == ' ' || c == '\t'

/-- How many lines end in a text; a carriage return before a line feed belongs to it. -/
def breakCount : List Char → Nat
  | [] => 0
  | '\r' :: '\n' :: rest => breakCount rest + 1
  | c :: rest => if isBreak c then breakCount rest + 1 else breakCount rest

/-- Whether a marker between documents is in front: three dashes or points, and then a gap, the
end of the line or nothing. -/
def startsWithMarker : List Char → Bool
  | a :: b :: c :: rest =>
    a == b && b == c && (a == '-' || a == '.') &&
      match rest with
      | [] => true
      | d :: _ => isGap d || isBreak d
  | _ => false

end ExprCompiler.Yaml
