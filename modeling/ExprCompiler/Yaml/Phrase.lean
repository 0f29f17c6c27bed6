import ExprCompiler.Yaml.Token

/-!
# Phrases of a document

Tokens that belong together whatever their indentation: a mark and its text, an anchor and its
name, a tag and its scalar, a name and its colon, a name and a scalar on the same line. What is
left is decided by columns.
-/

namespace ExprCompiler.Yaml

inductive Phrase where
  | token (t : Token)
  /-- A mark and the text in lines below it. -/
  | lines (mark : Token) (body : Option Token)
  /-- An anchor whose value is still to come. -/
  | anchorName (mark : Token) (name : Phrase)
  | anchored (mark : Token) (name value : Phrase)
  | reference (mark : Token) (name : Phrase)
  | tagged (tag : Token) (value : Phrase)
  | explicitName (mark : Token) (name : Phrase)
  | named (name : Phrase) (colon : Token)
  /-- A name and its value. -/
  | pair (name value : Phrase)
  | directive (mark : Token) (name : Phrase) (values : List Phrase)

namespace Phrase

/-- The first token. -/
def head : Phrase → Token
  | .token t => t
  | .lines mark _ => mark
  | .anchorName mark _ => mark
  | .anchored mark _ _ => mark
  | .reference mark _ => mark
  | .tagged tag _ => tag
  | .explicitName mark _ => mark
  | .named n _ => n.head
  | .pair n _ => n.head
  | .directive mark _ _ => mark

def kind (p : Phrase) : TokenKind := p.head.kind

def line (p : Phrase) : Nat := p.head.line

def column (p : Phrase) : Nat := p.head.column

def isName : Phrase → Bool
  | .explicitName .. | .named .. => true
  | _ => false

def isPair : Phrase → Bool
  | .pair .. => true
  | _ => false

def isAnchorName : Phrase → Bool
  | .anchorName .. => true
  | _ => false

def isTagged : Phrase → Bool
  | .tagged .. => true
  | _ => false

/-- Whether a phrase can stand for a single value. -/
def isScalar (p : Phrase) : Bool := !p.isName && !p.isPair && p.kind.isScalar

/-- Whether a phrase is part of a mapping. -/
def isMapping : Phrase → Bool
  | .explicitName .. | .named .. | .pair .. => true
  | .token t => t.kind == .mappingOpen || t.kind == .mappingClose
  | _ => false

/-- A token, with the text below it if it is a mark of one. -/
def ofTokens : List Token → List Phrase
  | [] => []
  | [t] => if t.kind == .lines then [.lines t none] else [.token t]
  | t :: u :: rest =>
    if t.kind == .lines then .lines t (some u) :: ofTokens rest
    else .token t :: ofTokens (u :: rest)

/-- Anchors and references with their names; an anchor takes a scalar of its line. -/
def withAnchors? : List Phrase → Option (List Phrase)
  | [] => some []
  | .token t :: rest =>
    if t.kind == .anchor then
      match rest with
      | name :: value :: rest =>
        if t.line == value.line && value.kind == .entry then none
        else if t.line == value.line && value.isScalar then
          (withAnchors? rest).map (.anchored t name value :: ·)
        else (withAnchors? (value :: rest)).map (.anchorName t name :: ·)
      | _ => none
    else if t.kind == .reference then
      match rest with
      | name :: rest => (withAnchors? rest).map (.reference t name :: ·)
      | [] => none
    else (withAnchors? rest).map (.token t :: ·)
  | p :: rest => (withAnchors? rest).map (p :: ·)

/-- The tags of scalars. -/
def scalarTags : List String := [
  "!!int", "!!float", "!!str", "!!binary", "!!timestamp", "!!bool", "!!null"]

/-- Whether a tag takes the phrase behind it. -/
def takes (tag : Token) (p : Phrase) : Bool :=
  tag.line == p.line && !p.isAnchorName &&
    if tag.text.startsWith "!!" then scalarTags.contains tag.text && p.isScalar
    else !(p.kind.isBracket || p.kind == .entry)

/-- Tags with the scalars of their line. -/
def withTags : List Phrase → List Phrase
  | [] => []
  | [p] => [p]
  | p :: q :: rest =>
    match p with
    | .token t =>
      if t.kind == .tag && takes t q then .tagged t q :: withTags rest
      else p :: withTags (q :: rest)
    | p => p :: withTags (q :: rest)

/-- Anchors with the tagged scalars of their line. -/
def withTaggedAnchors? : List Phrase → Option (List Phrase)
  | [] => some []
  | .anchorName mark name :: rest =>
    match rest with
    | [] => none
    | value :: rest =>
      if mark.line == value.line && value.isTagged then
        (withTaggedAnchors? rest).map (.anchored mark name value :: ·)
      else (withTaggedAnchors? (value :: rest)).map (.anchorName mark name :: ·)
  | p :: rest => (withTaggedAnchors? rest).map (p :: ·)

/-- Question marks with their names. -/
def withExplicitNames? : List Phrase → Option (List Phrase)
  | [] => some []
  | p :: rest =>
    if p.kind == .explicitName then
      match rest with
      | name :: rest => (withExplicitNames? rest).map (.explicitName p.head name :: ·)
      | [] => none
    else (withExplicitNames? rest).map (p :: ·)

/-- Names with their colons. -/
def withNames? : List Phrase → Option (List Phrase)
  | [] => some []
  | [p] => if p.kind == .colon then none else some [p]
  | p :: q :: rest =>
    if p.kind == .colon then none
    else if q.kind != .colon then (withNames? (q :: rest)).map (p :: ·)
    else if p.kind.isNoName then none
    else (withNames? rest).map (.named p q.head :: ·)

/-- Whether a value goes with the name before it. -/
def follows (name value : Phrase) : Bool :=
  name.line == value.line && !value.isAnchorName && (value.isTagged || value.isScalar)

/-- Names with the scalars of their line. -/
def withPairs : List Phrase → List Phrase
  | [] => []
  | [p] => [p]
  | p :: q :: rest =>
    if p.isName && follows p q then .pair p q :: withPairs rest else p :: withPairs (q :: rest)

/-- Directives with the phrases of their line; a document must start behind each. -/
def withDirectives? : List Phrase → Option (List Phrase)
  | [] => some []
  | p :: rest =>
    if p.kind != .directive then (withDirectives? rest).map (p :: ·)
    else
      match rest with
      | [] => none
      | name :: rest =>
        let values := rest.takeWhile (·.line == p.line)
        match rest.dropWhile (·.line == p.line) with
        | [] => none
        | next :: _ =>
          if next.kind != .documentStart then none
          else (withDirectives? rest).map fun after ↦
            .directive p.head name values :: after.drop values.length

/-- Whether a document can start on the line of its marker with a phrase. -/
def canShareMarker (p : Phrase) : Bool := !p.isName && !p.isPair && p.kind != .entry

/-- The documents, each a list of phrases without markers. -/
def documents? : List Phrase → Option (List (List Phrase))
  | [] => some [[]]
  | p :: rest =>
    if p.kind == .documentStart then
      match rest with
      | [] => some [[], []]
      | next :: _ =>
        if next.kind == .documentStart then some [[], []]
        else if p.line == next.line && !next.canShareMarker then none
        else (documents? rest).map ([] :: ·)
    else if p.kind == .documentEnd then
      match rest with
      | [] => some [[], []]
      | next :: _ => if next.isScalar then none else (documents? rest).map ([] :: ·)
    else
      match documents? rest with
      | some (first :: others) => some ((p :: first) :: others)
      | _ => none

/-- The documents of a list of tokens. -/
def documentsOf? (ts : List Token) : Option (List (List Phrase)) := do
  let anchored ← withAnchors? (ofTokens ts)
  let anchored ← withTaggedAnchors? (withTags anchored)
  let named ← withNames? (← withExplicitNames? anchored)
  documents? (← withDirectives? (withPairs named))

end Phrase

end ExprCompiler.Yaml
