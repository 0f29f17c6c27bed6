import ExprCompiler.Yaml.Token

/-!
# Texts in lines of their own

A text under a mark keeps its lines, or folds lines of equal indentation into one. Its first line
sets the indentation, unless the mark does, and the mark also says what becomes of the line ends
behind the text: all but one go, or all, or none.
-/

namespace ExprCompiler.Yaml

/-- A text that is being collected. Gaps at its end count once something follows them. -/
structure Buffer where
  chars : Array Char := #[]
  /-- How many of the characters count. -/
  kept : Nat := 0

namespace Buffer

/-- Appends a character that counts unless it is a gap. -/
def append (b : Buffer) (gap : Bool) (c : Char) : Buffer :=
  let chars := b.chars.push c
  ⟨chars, if gap then b.kept else chars.size⟩

/-- Appends a character unless it is a gap in front. -/
def appendInner (b : Buffer) (gap : Bool) (c : Char) : Buffer :=
  if b.chars.isEmpty && gap then b else b.append gap c

def content (b : Buffer) : List Char := b.chars.toList.take b.kept

end Buffer

inductive LineStyle where
  | literal
  | folded
  /-- Plain text whose further lines start with a dash. -/
  | joined
deriving DecidableEq

/-- The state of a text in lines. Columns are zero as long as they are unknown. -/
structure Lines where
  style : LineStyle
  options : List Char := []
  first : Nat := 0
  /-- Where the current line starts. -/
  current : Nat := 0
  /-- Where the line before starts. -/
  previous : Nat := 0
  /-- Where the last line that was not blank starts. -/
  filled : Nat := 0
  /-- The width of the last blank line in front of the text. -/
  blank : Nat := 0
  /-- Whether a line has ended that may still be folded. -/
  ended : Bool := false

namespace Lines

/-- The options without the signs around them. -/
def bareOptions (cs : List Char) : List Char :=
  let drop (sign : Char) (cs : List Char) := if cs.head? == some sign then cs.drop 1 else cs
  let dropEnd (sign : Char) (cs : List Char) := (drop sign cs.reverse).reverse
  dropEnd '+' (dropEnd '-' (drop '+' (drop '-' cs)))

def optionNumber? (cs : List Char) : Option Int :=
  let (negative, digits) := Numeral.takeSign cs
  (digits? 10 digits).map fun n ↦ if negative then -n else n

/-- Whether options can stand behind a mark: at most a digit but zero, and signs. -/
def areOptions (cs : List Char) : Bool :=
  match bareOptions cs with
  | [] => true
  | ['0'] => false
  | cs =>
    match optionNumber? cs with
    | some n => n ≤ 9
    | none => false

/-- The indentation that options set; zero if they set none. -/
def optionIndent (cs : List Char) : Nat := ((optionNumber? (bareOptions cs)).getD 0).toNat

/-- A text under a mark whose collection is indented to a column. -/
def ofMark (style : LineStyle) (indentation : Nat) (options : List Char) : Lines :=
  let indent := optionIndent options
  { style, options, first := if indent == 0 then 0 else indentation + indent }

def hasSign (l : Lines) (sign : Char) : Bool :=
  l.options.head? == some sign || l.options.getLast? == some sign

def dropsEnds (l : Lines) : Bool := l.hasSign '-' || l.style == .joined

def keepsEnds (l : Lines) : Bool := l.hasSign '+'

/-- The text of what was collected. -/
def finish (l : Lines) (cs : List Char) : List Char :=
  let body := (cs.reverse.dropWhile (· == '\n')).reverse
  let cs :=
    if l.dropsEnds then (body.reverse.dropWhile (· == ' ')).reverse
    else if l.keepsEnds || body.length == cs.length then cs
    else body ++ ['\n']
  let cs := if cs == ['\n'] then [] else cs
  if l.keepsEnds && cs.isEmpty then ['\n'] else cs

/-- The column that all lines of the text are right of. -/
def edge (l : Lines) : Nat := l.first - 1

def meet (l : Lines) (column : Nat) : Lines :=
  { l with
    first := if l.first == 0 then column else l.first
    current := if l.current == 0 then column else l.current }

/-- Whether the current line is right of the indentation that the mark sets. -/
def isIndented (l : Lines) : Bool := optionIndent l.options == 0 || l.first ≤ l.current

/-- Whether the first line can start at a column: no blank line in front is wider. -/
def canStart (l : Lines) (column : Nat) : Bool := l.first != 0 || l.blank ≤ column

def isIndentation (l : Lines) (column : Nat) : Bool :=
  if l.first == 0 then column == 1 else column < l.first

def endLine (l : Lines) (column : Nat) : Lines :=
  { l with
    blank := if l.first == 0 then column - 1 else l.blank
    previous := l.current
    filled := if l.current == 0 then l.filled else l.current
    ended := true
    current := 0 }

/-- A blank in front of a line: it counts where the text has begun. -/
def indent (l : Lines) (b : Buffer) (column : Nat) : Lines × Buffer :=
  if l.first == 0 || column < l.first then (l, b)
  else ({ l with ended := l.ended && l.style == .literal }, b.append false ' ')

/-- Folds the last line end where the current line starts at a column: between lines of equal
indentation it becomes a blank, and behind blank lines it goes. -/
def fold (l : Lines) (b : Buffer) (column : Nat) : Lines × Buffer :=
  if l.style == .literal || !l.ended then (l, b)
  else
    let n := b.chars.size
    let endsLine := b.chars.back? == some '\n'
    let chars :=
      if l.current == l.previous then if endsLine then b.chars.pop.push ' ' else b.chars
      else if l.previous == 0 && l.filled == column && endsLine && b.chars[n - 2]? == some '\n'
          && 1 < n then b.chars.pop
      else b.chars
    ({ l with ended := false }, ⟨chars, if chars.size < n then chars.size else b.kept⟩)

end Lines

end ExprCompiler.Yaml
