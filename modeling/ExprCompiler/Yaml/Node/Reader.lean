import ExprCompiler.Yaml.Node
import ExprCompiler.Yaml.Phrase
import ExprCompiler.Yaml.Token.Lexer

/-!
# From phrases to nodes

A block belongs to the name or dash that its first phrase is right of, and goes on as long as
phrases start in the same column. Between brackets columns do not count.
-/

namespace ExprCompiler.Yaml.Node

/-! ## Names -/

/-- The text of the name behind an anchor or reference. -/
def referenceName (p : Phrase) : String := p.head.text

/-- Whether a name is on the line of its colon. Between brackets it may run over lines, but the
colon stands on its last one. -/
def isOnLine (flow : Bool) (name : Token) (line : Nat) : Bool :=
  let isOuter (c : Char) : Bool := c == ' ' || isBreak c
  let source := name.source.toList.dropWhile isOuter
  if flow then
    let source := if name.kind == .text then (source.reverse.dropWhile isOuter).reverse else source
    name.line + breakCount source == line
  else !(name.kind == .text || name.kind == .quoted) || breakCount source == 0

/-! ## Tags and directives -/

/-- The scalar of a tag that has none, in front of a comma or colon. -/
def defaultOf? : String → Option Node
  | "!!int" | "!!float" => some (.scalar (.word 0) "0")
  | "!!str" | "!!binary" => some (.string "")
  | "!!bool" => some (.scalar (.bool false) "false")
  | "!!null" => some absent
  | _ => none

def versions : List String := ["1.0", "1.1", "1.2", "1.3"]

/-- Whether the values of a directive fit its name. -/
def isDirective (name : Phrase) (values : List Phrase) : Bool :=
  match name.head.text, values with
  | _, [] => true
  | "YAML", values => values.length == 1 && values.all fun v ↦ versions.contains v.head.text
  | "TAG", values => values.length == 2
  | _, _ => true

/-! ## Values -/

/-- Whether a phrase ends an entry between the brackets of a mapping. -/
def endsEntry (p : Phrase) : Bool := p.kind == .mappingClose || p.kind == .comma

/-- Whether a phrase may follow a name and its value: it is not right of the name, unless it goes
on with a sequence in brackets. -/
def canFollow (flow : Bool) (name : Phrase) : List Phrase → Bool
  | [] => true
  | p :: _ =>
    p.column ≤ name.column || (flow && (p.kind == .comma || p.kind == .sequenceClose))

/-- Whether an anchor on a line of its own is followed by a tag that is not right of a column. -/
def isTornAnchor (column : Nat) : List Phrase → Bool
  | p :: q :: _ =>
    p.isAnchorName && q.kind == .tag && p.line != q.line && q.column ≤ column
  | _ => false

mutual

/-- The value in front. -/
def node? (fuel : Nat) (flow : Bool) (ps : List Phrase) : Option (Node × List Phrase) :=
  match fuel, ps with
  | 0, _ => none
  | _, [] => none
  | fuel + 1, p :: rest =>
    match p with
    | .explicitName .. | .named .. | .pair .. => mapping? fuel flow ps
    | .directive _ name values => if isDirective name values then some (.directive, rest) else none
    | .anchorName _ name =>
      match node? fuel flow rest with
      | some (v, rest) =>
        if v.isAnchored then none else some (.anchored (referenceName name) v, rest)
      | none => none
    | .token t =>
      if t.kind == .tag then
        (tagValue? fuel flow t.text rest).map fun r ↦ (.tagged t.text r.1, r.2)
      else if t.kind == .mappingOpen then
        (flowEntries? fuel true rest).map fun r ↦ (.mapping r.1, r.2)
      else if t.kind == .sequenceOpen then
        (flowItems? fuel true rest).map fun r ↦ (.sequence r.1, r.2)
      else if t.kind == .entry then
        (items? fuel flow t.column ps).map fun r ↦ (.sequence r.1, r.2)
      else (scalar? fuel flow p).map fun n ↦ (n, rest)
    | p => (scalar? fuel flow p).map fun n ↦ (n, rest)

/-- A phrase as a single value. -/
def scalar? (fuel : Nat) (flow : Bool) (p : Phrase) : Option Node :=
  match fuel, p with
  | 0, _ => none
  | fuel + 1, .anchored _ name v =>
    match node? fuel flow [v] with
    | some (v, _) => if v.isAnchored then none else some (.anchored (referenceName name) v)
    | none => none
  | _, .reference _ name => some (.reference (referenceName name))
  | _, .lines _ none => some (.string "")
  | _, .lines _ (some body) => if body.kind == .text then some (.string body.text) else none
  | fuel + 1, .tagged tag v =>
    (tagValue? fuel flow tag.text [v]).map fun r ↦ .tagged tag.text r.1
  | _, .token t =>
    match t.kind with
    | .merge => some .merge
    | .value => some (.scalar (resolve t.text) t.text)
    | .text | .quoted => some (.string t.text)
    | .tag => (defaultOf? t.text).map (.tagged t.text)
    | _ => none
  | _, _ => none

/-- The value of a tag, which the tag may say the form of. -/
def tagValue? (fuel : Nat) (flow : Bool) (tag : String) (ps : List Phrase) :
    Option (Node × List Phrase) :=
  match fuel, ps with
  | 0, _ => none
  | _, [] => some (absent, [])
  | fuel + 1, p :: rest =>
    if tag == "!!map" || tag == "!!set" then
      if p.kind == .mappingOpen || p.isMapping then node? fuel flow ps else none
    else if Phrase.scalarTags.contains tag then
      if p.kind == .comma || p.kind == .colon then (defaultOf? tag).map fun n ↦ (n, ps)
      else (scalar? fuel flow p).map fun n ↦ (n, rest)
    else if tag == "!!seq" || tag == "!!omap" then
      if p.kind == .sequenceOpen || p.kind == .entry then node? fuel flow ps
      else some (.sequence [], ps)
    else node? fuel flow ps

/-- A phrase as a name. -/
def name? (fuel : Nat) (flow : Bool) (p : Phrase) : Option Node :=
  match fuel, p with
  | 0, _ => none
  | fuel + 1, .explicitName mark n =>
    if flow && !isOnLine true mark n.line then none else scalar? fuel flow n
  | fuel + 1, .named (.explicitName mark n) colon =>
    if flow && !isOnLine true mark colon.line then none else scalar? fuel flow n
  | fuel + 1, .named n colon =>
    if isOnLine flow n.head colon.line then scalar? fuel flow n else none
  | _, _ => none

/-- The entries of a mapping in a block, all in one column. -/
def mapping? (fuel : Nat) (flow : Bool) (ps : List Phrase) : Option (Node × List Phrase) :=
  match fuel, ps with
  | 0, _ => none
  | _, [] => none
  | fuel + 1, p :: rest => do
    let (name, value, rest) ← match p with
      | .pair n v =>
        if !canFollow flow p rest then none
        else
          match name? fuel flow n, node? fuel flow [v] with
          | some name, some (value, _) => some (name, value, rest)
          | _, _ => none
      | p =>
        match name? fuel flow p, namedValue? fuel flow p.line p.column rest with
        | some name, some (value, rest) => some (name, value, rest)
        | _, _ => none
    match rest with
    | [] => some (.mapping [(name, value)], [])
    | q :: after =>
      if q.column != p.column || (flow && q.kind == .sequenceClose) then
        some (.mapping [(name, value)], rest)
      else if !q.isMapping then none
      else if q.kind == .mappingClose then some (.mapping [(name, value)], after)
      else
        match mapping? fuel flow rest with
        | some (.mapping entries, rest) =>
          (insert? name value entries).map fun entries ↦ (.mapping entries, rest)
        | _ => none

/-- The value of a name at a place. -/
def namedValue? (fuel : Nat) (flow : Bool) (line column : Nat) (ps : List Phrase) :
    Option (Node × List Phrase) :=
  match fuel, ps with
  | 0, _ => none
  | _, [] => some (absent, [])
  | fuel + 1, p :: rest =>
    let nextColumn := (rest.head?.map Phrase.column).getD 0
    let nextIsMapping := (rest.head?.map Phrase.isMapping).getD false
    let emptyAnchor : Option (Node × List Phrase) := match p with
      | .anchorName _ name => some (.anchored (referenceName name) absent, rest)
      | _ => none
    if p.line == line && p.kind == .entry then none
    else if p.column != column && p.line == line && (p.isName || p.isPair) then none
    else if p.column == column && p.isMapping then some (absent, ps)
    else if p.line == line && p.isAnchorName && nextColumn == column && nextIsMapping then
      emptyAnchor
    else if p.column ≤ column && (p.isAnchorName || p.kind == .tag) then none
    else if p.column < column then some (absent, ps)
    else if p.line == line && p.isAnchorName && nextColumn < column then emptyAnchor
    else if isTornAnchor column ps then none
    else node? fuel flow ps

/-- The entries of a sequence in a block, whose dashes are in one column. -/
def items? (fuel : Nat) (flow : Bool) (column : Nat) (ps : List Phrase) :
    Option (List Node × List Phrase) :=
  match fuel, ps with
  | 0, _ => none
  | _, [] => some ([], [])
  | fuel + 1, p :: rest =>
    if p.kind != .entry || p.column != column then some ([], ps)
    else
      match item? fuel flow p.line column rest with
      | some (v, rest) => (items? fuel flow column rest).map fun r ↦ (v :: r.1, r.2)
      | none => none

/-- The value of a dash at a place. -/
def item? (fuel : Nat) (flow : Bool) (line column : Nat) (ps : List Phrase) :
    Option (Node × List Phrase) :=
  match fuel, ps with
  | 0, _ => none
  | _, [] => some (absent, [])
  | fuel + 1, p :: rest =>
    let nextColumn := (rest.head?.map Phrase.column).getD 0
    let nextIsEntry := (rest.head?.map (·.kind == .entry)).getD false
    let emptyAnchor : Option (Node × List Phrase) := match p with
      | .anchorName _ name => some (.anchored (referenceName name) absent, rest)
      | _ => none
    if p.column == column && p.kind == .entry then some (absent, ps)
    else if p.line == line && p.isAnchorName && nextColumn == column && nextIsEntry then
      emptyAnchor
    else if p.column ≤ column && (p.isAnchorName || p.kind == .tag) then none
    else if p.column < column then some (absent, ps)
    else if p.line == line && p.isAnchorName && nextColumn < column then emptyAnchor
    else if isTornAnchor column ps then none
    else node? fuel flow ps

/-- The entries of a mapping behind its opening bracket. -/
def flowEntries? (fuel : Nat) (isFirst : Bool) (ps : List Phrase) :
    Option (List (Node × Node) × List Phrase) :=
  match fuel, ps with
  | 0, _ => none
  | _, [] => none
  | fuel + 1, p :: rest =>
    if p.kind == .mappingClose then some ([], rest)
    else if p.kind != .comma && !isFirst then none
    else
      match if p.kind == .comma then rest else ps with
      | [] => none
      | p :: rest =>
        if p.kind == .mappingClose then some ([], rest)
        else do
          let isBare := (rest.head?.map endsEntry).getD false
          let (name, value, rest) ← match p with
            | .pair n v =>
              match name? fuel true n, node? fuel true [v] with
              | some name, some (value, _) => some (name, value, rest)
              | _, _ => none
            | .explicitName .. | .named .. =>
              match name? fuel true p, if isBare then some (absent, rest) else node? fuel true rest
              with
              | some name, some (value, rest) => some (name, value, rest)
              | _, _ => none
            | p =>
              if isBare then (scalar? fuel true p).map fun name ↦ (name, absent, rest) else none
          let (entries, rest) ← flowEntries? fuel false rest
          let entries ← insert? name value entries
          some (entries, rest)

/-- The items of a sequence behind its opening bracket. -/
def flowItems? (fuel : Nat) (isFirst : Bool) (ps : List Phrase) :
    Option (List Node × List Phrase) :=
  match fuel, ps with
  | 0, _ => none
  | _, [] => none
  | fuel + 1, p :: rest =>
    if p.kind == .sequenceClose then some ([], rest)
    else if (p.kind == .comma) == isFirst then none
    else
      match if isFirst then ps else rest with
      | [] => none
      | p :: rest =>
        if p.kind == .sequenceClose then some ([], rest)
        else
          match node? fuel true (p :: rest) with
          | some (v, rest) => (flowItems? fuel false rest).map fun r ↦ (v :: r.1, r.2)
          | none => none

end

/-- The node of a document; `none` inside if it is empty. -/
def ofPhrases? (fuel : Nat) (ps : List Phrase) : Option (Option Node) :=
  if ps.isEmpty then some none
  else
    match node? fuel false ps with
    | some (n, []) => some (some n)
    | _ => none

/-- Reads the documents of a text, without the empty ones. -/
def read? (s : String) : Option (List Node) := do
  let ts ← tokens? s
  let documents ← Phrase.documentsOf? ts
  let nodes ← documents.mapM (ofPhrases? (4 * ts.length + 8))
  return nodes.filterMap id

end ExprCompiler.Yaml.Node
