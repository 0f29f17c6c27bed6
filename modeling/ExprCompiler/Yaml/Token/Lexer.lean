import ExprCompiler.Yaml.Token.Lines
import ExprCompiler.Yaml.Token.Quoted

/-!
# From characters to tokens

A document is read character by character. Plain text is collected until a mark ends it, or a line
that does not start right of the last name or dash; so it may run over lines. Marks count only
where no plain text is under way, and some only inside brackets.
-/

namespace ExprCompiler.Yaml

/-- How the current line starts, compared with the last name or dash. -/
inductive Shift where
  | same
  | right
  | left
deriving DecidableEq

structure Lexer where
  line : Nat := 1
  column : Nat := 1
  /-- The column of the last name or dash, zero if there is none. -/
  edge : Nat := 0
  /-- The blanks in front of the current line. -/
  indent : Nat := 0
  /-- Whether only blanks have been read on the current line. -/
  leading : Bool := true
  shift : Shift := .same
  /-- Whether the name of an anchor, of a reference or of a directive is under way. -/
  anchor : Bool := false
  reference : Bool := false
  directive : Bool := false
  /-- Open brackets of sequences and of mappings; closing ones may be too many. -/
  sequences : Int := 0
  mappings : Int := 0
  /-- Where the collected text starts, if it runs over lines. -/
  start : Option (Nat × Nat) := none
  buffer : Buffer := {}
  /-- All characters since the last token. -/
  source : Buffer := {}
  /-- The text in lines under way. -/
  lines : Option Lines := none
  /-- The tokens so far, the last one first. -/
  tokens : List Token := []
  last : Option Char := none
  /-- How many characters to come have already been read. -/
  skip : Nat := 0

namespace Lexer

def isFlow (s : Lexer) : Bool := 0 < s.sequences || 0 < s.mappings

def lastKind (s : Lexer) : Option TokenKind := s.tokens.head?.map Token.kind

def content (s : Lexer) : List Char :=
  match s.lines with
  | none => s.buffer.content
  | some l => l.finish s.buffer.content

/-- Whether plain text is under way. -/
def isPlain (s : Lexer) : Bool := !s.content.isEmpty

def write (s : Lexer) (c : Char) : Lexer := { s with source := s.source.append (isGap c) c }

def clear (s : Lexer) : Lexer := { s with buffer := {}, source := {}, lines := none }

def sourceText (s : Lexer) : String := String.ofList s.source.chars.toList

/-- Adds a token that starts here. -/
def add (s : Lexer) (kind : TokenKind) (text : String) : Lexer :=
  { s with tokens := ⟨kind, text, s.sourceText, s.line, s.column⟩ :: s.tokens }

/-- Reads on by some characters of the current line. -/
def advance (s : Lexer) (n : Nat) : Lexer := { s with column := s.column + n }

def nextLine (s : Lexer) : Lexer :=
  { s with
    line := s.line + 1, column := 1, indent := 0, leading := true
    anchor := false, reference := false, directive := false }

/-- Where a list occurs first in another. -/
def indexOf? (part : List Char) : List Char → Option Nat
  | [] => if part.isEmpty then some 0 else none
  | c :: rest =>
    if part.isPrefixOf (c :: rest) then some 0 else (indexOf? part rest).map (· + 1)

/-- Where the collected text starts. -/
def place (s : Lexer) : Nat × Nat :=
  match s.start, s.lines with
  | some p, _ => p
  | none, none => (s.line, s.column - s.buffer.chars.size)
  | none, some _ =>
    let column := match indexOf? s.buffer.chars.toList s.source.chars.toList with
      | some n => n + 1
      | none => 0
    (s.line - breakCount s.buffer.chars.toList, column)

/-- The tags that give their scalar a meaning. -/
def knownTags : List String := [
  "!!int", "!!float", "!!null", "!!seq", "!!map", "!!str", "!!binary", "!!omap", "!!set",
  "!!timestamp", "!!bool", "!!merge"]

/-- Whether the last token is a tag that leaves its scalar a text. -/
def followsForeignTag (s : Lexer) : Bool :=
  match s.tokens with
  | t :: _ => t.kind == .tag && !knownTags.contains t.text
  | [] => false

/-- The token of the collected text, if there is any. -/
def pending (s : Lexer) : Option Token × Lexer :=
  let content := s.content
  let (line, column) := s.place
  if content.isEmpty then (none, { s with start := none, buffer := {} })
  else
    let text := String.ofList content
    let kind := if s.lines.isSome || s.followsForeignTag then .text else plainKind text
    (some ⟨kind, text, s.sourceText, line, column⟩,
      { s with start := none, buffer := {}, source := {} })

/-- Ends the collected text. -/
def flush (s : Lexer) : Lexer :=
  match s.pending with
  | (some t, s) => { s with tokens := t :: s.tokens }
  | (none, s) => s

/-- A character of a plain text. -/
def collect (s : Lexer) (c : Char) : Lexer :=
  { s.write c with buffer := s.buffer.appendInner (isGap c) c }.advance 1

/-- A mark of some characters, which ends the collected text. -/
def mark (s : Lexer) (kind : TokenKind) (c : Char) : Lexer :=
  ((s.flush.write c).add kind (String.ofList [c])).clear.advance 1

/-- Compares the start of a line with the last name or dash. -/
def meet (s : Lexer) (c : Char) : Lexer :=
  if !s.leading then { s with shift := .same }
  else if isBreak c || c == '\t' then s
  else if c == ' ' then { s with indent := s.indent + 1 }
  else if s.edge == 0 then { s with leading := false }
  else { s with leading := false, shift := if s.edge < s.column then .right else .left }

/-! ## Texts in lines -/

/-- Adds what was collected as a text, empty or not. -/
def addText (s : Lexer) : Lexer := (s.add .text (String.ofList s.content)).clear

/-- A character of a text in lines, with the characters behind it. -/
def inLines? (s : Lexer) (l : Lines) (c : Char) (rest : List Char) : Option Lexer :=
  let paired := c == '\r' && rest.head? == some '\n'
  let rest := if paired then rest.drop 1 else rest
  let s := s.write c
  let s := if paired then { s.write '\n' with skip := 1 } else s
  let c := if paired then '\n' else c
  let append (gap : Bool) (s : Lexer) : Lexer :=
    { s with buffer := s.buffer.appendInner gap c }
  if rest.isEmpty then
    let (l, buffer) :=
      if s.leading && c == ' ' then l.indent s.buffer s.column
      else (l, s.buffer.appendInner (isGap c) c)
    let l := l.meet s.column
    if l.isIndented then some ({ s with lines := some l, buffer }.addText.advance 1) else none
  else if isBreak c then
    let s := { append false s with lines := some (l.endLine s.column) }.nextLine
    some (if startsWithMarker rest then s.addText else s)
  else if s.leading && c == ' ' then
    let (l, buffer) := l.indent s.buffer s.column
    some ({ s with lines := some l, buffer }.advance 1)
  else if c == '\t' && l.isIndentation s.column && s.leading then none
  else if c == '\t' && !l.isIndentation s.column then some ((append false s).advance 1)
  else if !l.canStart s.column then none
  else
    let l := l.meet s.column
    if !l.isIndented then none
    else
      let (folded, buffer) := l.fold s.buffer s.column
      let edge := if l.edge == 0 then s.edge else l.edge
      let s := { s with lines := some folded, buffer, edge }
      some ((append (c == ' ') s).advance 1)

/-- The mark of a text in lines, with the line behind it. -/
def lineMark? (s : Lexer) (c : Char) (rest : List Char) : Option Lexer :=
  let line := rest.takeWhile (!isBreak ·)
  let (header, taken) := match rest.drop line.length with
    | [] => (line.dropLast, line.length - 1)
    | '\r' :: '\n' :: _ => (line, line.length + 1)
    | _ => (line, line.length)
  let header := (header.reverse.dropWhile (· == ' ')).reverse
  let options := if header.head? == some '#' then header else header.takeWhile (· != '#')
  let hasComment := options.length < header.length
  let options := (options.reverse.dropWhile isGap).reverse
  if !Lines.areOptions options then none
  else
    let style := if c == '|' then LineStyle.literal else .folded
    let s := (s.write c).add .lines (String.ofList (c :: options))
    let s := if hasComment then s.add .comment (String.ofList header) else s
    some { (s.clear.advance taken).nextLine with
      lines := some (Lines.ofMark style s.edge options)
      shift := .same
      skip := taken + 1 }

/-! ## Marks -/

/-- The end of a line outside a text in lines. -/
def lineBreak (s : Lexer) (c : Char) (rest : List Char) : Lexer :=
  let start := if s.start.isNone && !s.buffer.chars.isEmpty then
      some (s.line, s.column - s.content.length) else s.start
  let trimmed := s.source.kept < s.source.chars.size
  let s := { s with
    start
    source := if trimmed then { s.source with chars := s.source.chars.take s.source.kept }
      else s.source
    buffer := if trimmed then { s.buffer with chars := s.content.toArray } else s.buffer }
  let paired := c == '\r' && rest.head? == some '\n'
  let s := if paired then { s.write '\r' with skip := 1 } else s
  let isEnd := if paired then (rest.drop 1).isEmpty else rest.isEmpty
  let s := if isEnd || s.anchor || s.reference || s.directive then s.flush else s
  let chars := s.buffer.chars
  let buffer :=
    if s.isPlain && s.leading then
      { s.buffer with chars := (if chars.back? == some ' ' then chars.pop else chars).push '\n' }
    else s.buffer.appendInner true ' '
  { s.write (if paired then '\n' else c) with buffer }.nextLine

/-- Whether a colon and a blank follow a merge mark. -/
def endsMerge : List Char → Bool
  | [] => false
  | ' ' :: rest => endsMerge rest
  | ':' :: rest =>
    (match rest with
      | c :: _ => c == ' ' || isBreak c
      | [] => false) || endsMerge rest
  | _ => false

/-- A colon behind a name, where it is one. -/
def colon? (s : Lexer) (rest : List Char) : Option Lexer :=
  let isBounded := match rest with
    | [] => true
    | c :: _ => isGap c || isBreak c
  if s.directive || s.anchor || s.reference then some (s.collect ':')
  else if s.mappings ≤ 0 && !isBounded then some (s.collect ':')
  else if 0 < s.mappings && (rest.head? == some '/' || s.lastKind == some .colon) then
    some (s.collect ':')
  else
    let source := s.source.chars.toList
    let source := if source.head? == some ' ' then source.drop 1 else source
    if source.head? == some '\t' && s.buffer.chars[0]? != some '\t' then none
    else
      let s := match s.pending with
        | (some t, s) => { s with tokens := t :: s.tokens, edge := t.column }
        | (none, s) =>
          match s.tokens with
          | t :: _ => if t.kind == TokenKind.quoted then { s with edge := t.column } else s
          | [] => s
      some ((s.add .colon ":").advance 1).clear

/-- A tag up to a blank, the end of a line or, between brackets, a comma. -/
def tag? (s : Lexer) (rest : List Char) : Option Lexer :=
  let isEnd (c : Char) : Bool :=
    c == ' ' || isBreak c || c == '\x7b' || c == '\x7d' || (c == ',' && s.isFlow)
  let name := rest.takeWhile (!isEnd ·)
  let tagged := (s.write '!').add .tag (String.ofList ('!' :: name))
  match rest.drop name.length with
  | [] => some { (s.advance name.length).clear with skip := name.length }
  | ' ' :: _ =>
    some { (tagged.advance (name.length + 1)).clear with skip := name.length + 1 }
  | c :: _ =>
    if c == '\x7b' || c == '\x7d' then none
    else some { (tagged.advance name.length).clear with skip := name.length }

/-- A comment and the end of its line. -/
def comment (s : Lexer) (rest : List Char) : Lexer :=
  let text := rest.takeWhile (!isBreak ·)
  let s := s.flush.add .comment (String.ofList text)
  { s.nextLine.clear with skip := text.length + 1 }

/-- A quoted text. -/
def quoted? (s : Lexer) (c : Char) (rest : List Char) : Option Lexer :=
  let start : Quoting := { line := s.line, column := s.column + 1 }
  let read := if c == '"' then start.double? s.edge 0 rest else start.single? s.edge rest
  match read with
  | none => none
  | some (q, after) =>
    let taken := rest.length - after.length
    let s := (rest.take taken).foldl write (s.write c)
    let s := s.add .quoted (String.ofList q.value.reverse)
    let s := if q.crossed then s.nextLine else s
    some { s.clear with line := q.line, column := q.column, skip := taken }

/-- Three dashes or points at the start of a line that has no fourth. -/
def isMarker (s : Lexer) (c : Char) (rest : List Char) : Bool :=
  s.indent == 0 && s.column == 1 && (rest.takeWhile (· == c)).length == 2

def marker (s : Lexer) (kind : TokenKind) (text : String) : Lexer :=
  { ((s.flush.add kind text).advance 3).clear with skip := 2 }

/-- Whether a dash in front is the mark of an entry. -/
def startsWithEntry : List Char → Bool
  | '-' :: c :: _ => isGap c || isBreak c
  | ['-'] => true
  | _ => false

/-- A dash: a marker, a character of plain text, or the mark of an entry. -/
def dash? (s : Lexer) (rest : List Char) : Option Lexer :=
  if s.isMarker '-' rest then some { s.marker .documentStart "---" with edge := 0, indent := 0 }
  else if s.isPlain && s.shift == .right then
    let l : Lines := { style := .joined, first := s.column, current := s.column }
    some { s.collect '-' with lines := some l }
  else if s.isPlain then some (s.collect '-')
  else
    match rest with
    | [] => some { s.mark .entry '-' with edge := s.column }
    | c :: _ =>
      if c == '\t' && startsWithEntry (rest.dropWhile isGap) then none
      else if isGap c || isBreak c || c == Char.ofNat 0 then
        some { s.mark .entry '-' with edge := s.column }
      else some (s.collect '-')

/-- A tab: it separates, except in front of a line that is not right of the last name or dash. -/
def tab? (s : Lexer) : Option Lexer :=
  if (s.isPlain && s.edge == 0) || s.edge < s.column then
    some { s.write '\t' with indent := s.indent + 1 }
  else if s.isFlow || !s.leading then some (s.collect '\t')
  else none

/-- A blank: it separates in front of a line and behind a name. -/
def blank (s : Lexer) : Lexer :=
  if s.leading then (s.write ' ').advance 1
  else if s.directive then (s.flush.write ' ').advance 1
  else if s.anchor || s.reference then
    { s.flush with anchor := false, reference := false }.collect ' '
  else s.collect ' '

/-- Whether the last character was a gap or the end of a line. -/
def followsGap (s : Lexer) : Bool :=
  match s.last with
  | some c => isGap c || isBreak c
  | none => true

/-- Reads one character outside a text in lines, with the characters behind it. -/
def outside? (s : Lexer) (c : Char) (rest : List Char) : Option Lexer :=
  let plain := s.isPlain
  let opens := !plain || s.isFlow
  if c == '\x7b' && opens then
    some { s.mark .mappingOpen c with mappings := s.mappings + 1 }
  else if c == '\x7d' && (!plain || 0 < s.mappings) then
    some { s.mark .mappingClose c with mappings := s.mappings - 1 }
  else if c == '[' && opens then
    some { s.mark .sequenceOpen c with sequences := s.sequences + 1 }
  else if c == ']' && (!plain || 0 < s.sequences) then
    some { s.mark .sequenceClose c with sequences := s.sequences - 1 }
  else if c == ',' && s.isFlow then some (s.mark .comma c)
  else if c == '.' && s.isMarker c rest then some (s.marker .documentEnd "...")
  else if c == '<' && (rest.takeWhile (· == c)).length == 1 && endsMerge (rest.drop 1) then
    some { (s.add .merge "<<").advance 2 with edge := s.column, skip := 1 }
  else if c == '-' then s.dash? rest
  else if c == ':' then s.colon? rest
  else if (c == '|' || c == '>') && !plain then s.lineMark? c rest
  else if c == '!' && !plain && !s.directive then s.tag? rest
  else if c == '%' && !plain && s.indent == 0 then
    some { s.mark .directive c with directive := true }
  else if c == '?' && !plain && (match rest with | d :: _ => isGap d | [] => false) then
    some { s.mark .explicitName c with edge := s.column }
  else if c == '&' && !plain then some { s.mark .anchor c with anchor := true }
  else if c == '*' && !plain then some { s.mark .reference c with reference := true }
  else if c == '#' && (!plain || s.followsGap) then some (s.comment rest)
  else if (c == '\'' || c == '"') && !plain then s.quoted? c rest
  else if isBreak c then some (s.lineBreak c rest)
  else if c == ' ' then some s.blank
  else if (c == '@' || c == Char.ofNat 0x60) && !plain then none
  else if c == '\t' then s.tab?
  else some (s.collect c)

/-- Reads one character, with the characters behind it. -/
def step? (s : Lexer) (c : Char) (rest : List Char) : Option Lexer :=
  let s := s.meet c
  let s := if s.shift == .left then s.flush else s
  match s.lines with
  | none => s.outside? c rest
  | some l =>
    if s.shift != .left then s.inLines? l c rest
    else
      match s.tokens with
      | [] => { s with lines := none }.outside? c rest
      | t :: _ =>
        if t.column == 1 then none
        else
          let s := { s with lines := none }
          let s := if t.kind == .text then s else
            { s with tokens := ⟨.text, "", "", s.line, s.column⟩ :: s.tokens }
          s.outside? c rest

/-- Reads all characters. -/
def run? (s : Lexer) : List Char → Option Lexer
  | [] => some s.flush
  | c :: rest =>
    if s.skip != 0 then run? { s with skip := s.skip - 1, last := some c } rest
    else
      match s.step? c rest with
      | some s => run? { s with last := some c } rest
      | none => none

end Lexer

/-- The tokens of a document without its comments. -/
def tokens? (s : String) : Option (List Token) :=
  (Lexer.run? {} s.toList).map fun l ↦ l.tokens.reverse.filter (·.kind != .comment)

end ExprCompiler.Yaml
