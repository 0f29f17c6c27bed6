import ExprCompiler.Json.Basic

/-!
# Reading documents

The reader is a pushdown machine that looks at one character at a time, so that a text may hold
more than its first document: `readFirst` says where the document ends. A document may be nested
ten thousand deep and no deeper.
-/

namespace ExprCompiler.Json

/-- How deep containers may be nested. -/
def maxDepth : Nat := 10000

/-- A container that is still open, its members in reverse. -/
inductive Frame where
  | items (done : List Json)
  | fields (done : List (String × Json)) (name : String)

/-- What part of a number has been read. -/
inductive NumberPart where
  | minus
  | zero
  | whole
  | point
  | places
  | mark
  | markSign
  | scale
deriving DecidableEq, Repr

/-- Where in the grammar the machine stands. Characters of a string are kept as code units, so
that the halves of a surrogate pair can be joined; they and the digits of a number are in
reverse. -/
inductive Mode where
  | value (closable : Bool)
  | name (closable : Bool)
  | colon
  | after
  | text (isName : Bool) (units : List Nat)
  | escape (isName : Bool) (units : List Nat)
  | unit (isName : Bool) (units : List Nat) (count unit : Nat)
  | number (part : NumberPart) (digits : List Char)
  | word (rest : List Char) (meaning : Json)

structure Machine where
  stack : List Frame
  mode : Mode
  depth : Nat := 0

/-- What one character brings about. -/
inductive Step where
  | next (m : Machine)
  /-- The document is complete, and the character belongs to it. -/
  | closed (j : Json)
  /-- The document ended before the character. -/
  | ended (j : Json)
  | fail

def isBlank (c : Char) : Bool :=
  c == ' ' || c == '\t' || c == '\n' || c.toNat == 0x0d

/-- Joins surrogate pairs; half of a pair alone becomes the replacement character. -/
def decodeUnits : List Nat → List Char
  | [] => []
  | u :: v :: rest =>
    if 0xd800 ≤ u && u < 0xdc00 && 0xdc00 ≤ v && v < 0xe000 then
      Char.ofNat (0x10000 + (u - 0xd800) * 0x400 + (v - 0xdc00)) :: decodeUnits rest
    else if 0xd800 ≤ u && u < 0xe000 then Char.ofNat 0xfffd :: decodeUnits (v :: rest)
    else Char.ofNat u :: decodeUnits (v :: rest)
  | [u] => [if 0xd800 ≤ u && u < 0xe000 then Char.ofNat 0xfffd else Char.ofNat u]

/-- Where the machine goes with a finished value: into the innermost open container. -/
def Machine.accept (m : Machine) (j : Json) : Machine ⊕ Json :=
  match m.stack with
  | [] => .inr j
  | .items done :: stack => .inl { m with stack := .items (j :: done) :: stack, mode := .after }
  | .fields done name :: stack =>
    .inl { m with stack := .fields ((name, j) :: done) "" :: stack, mode := .after }

def closedBy (m : Machine) (j : Json) : Step :=
  match m.accept j with
  | .inl m => .next m
  | .inr j => .closed j

/-- The container that a closing bracket ends. -/
def closeTop (m : Machine) (bracket : Char) : Step :=
  match m.stack, bracket with
  | .items done :: stack, ']' =>
    closedBy { m with stack, depth := m.depth - 1 } (.array done.reverse)
  | .fields done _ :: stack, '\x7d' =>
    closedBy { m with stack, depth := m.depth - 1 } (.object done.reverse)
  | _, _ => .fail

def opened (m : Machine) (frame : Frame) (mode : Mode) : Step :=
  if m.depth < maxDepth then .next ⟨frame :: m.stack, mode, m.depth + 1⟩ else .fail

def stepValue (m : Machine) (closable : Bool) (c : Char) : Step :=
  if isBlank c then .next m
  else
    match c with
    | '\x7b' => opened m (.fields [] "") (.name true)
    | '[' => opened m (.items []) (.value true)
    | '"' => .next { m with mode := .text false [] }
    | '-' => .next { m with mode := .number .minus [c] }
    | '0' => .next { m with mode := .number .zero [c] }
    | 't' => .next { m with mode := .word ['r', 'u', 'e'] (.bool true) }
    | 'f' => .next { m with mode := .word ['a', 'l', 's', 'e'] (.bool false) }
    | 'n' => .next { m with mode := .word ['u', 'l', 'l'] .null }
    | ']' => if closable then closeTop m c else .fail
    | _ => if c.isDigit then .next { m with mode := .number .whole [c] } else .fail

def stepName (m : Machine) (closable : Bool) (c : Char) : Step :=
  if isBlank c then .next m
  else if c == '"' then .next { m with mode := .text true [] }
  else if c == '\x7d' && closable then closeTop m c
  else .fail

def stepAfter (m : Machine) (c : Char) : Step :=
  if isBlank c then .next m
  else if c == ',' then
    match m.stack with
    | .items _ :: _ => .next { m with mode := .value false }
    | .fields _ _ :: _ => .next { m with mode := .name false }
    | [] => .fail
  else if c == ']' || c == '\x7d' then closeTop m c
  else .fail

def stepText (m : Machine) (isName : Bool) (units : List Nat) (c : Char) : Step :=
  if c == '\\' then .next { m with mode := .escape isName units }
  else if c.toNat < 0x20 then .fail
  else if c == '"' then
    let s := String.ofList (decodeUnits units.reverse)
    if isName then
      match m.stack with
      | .fields done _ :: stack => .next { m with stack := .fields done s :: stack, mode := .colon }
      | _ => .fail
    else closedBy m (.string s)
  else .next { m with mode := .text isName (c.toNat :: units) }

def stepEscape (m : Machine) (isName : Bool) (units : List Nat) (c : Char) : Step :=
  let plain (n : Nat) : Step := .next { m with mode := .text isName (n :: units) }
  match c with
  | 'b' => plain 0x08
  | 'f' => plain 0x0c
  | 'n' => plain 0x0a
  | 'r' => plain 0x0d
  | 't' => plain 0x09
  | '"' | '\\' | '/' => plain c.toNat
  | 'u' => .next { m with mode := .unit isName units 0 0 }
  | _ => .fail

def stepUnit (m : Machine) (isName : Bool) (units : List Nat) (count unit : Nat)
    (c : Char) : Step :=
  match Numeral.digitBelow? 16 c with
  | none => .fail
  | some d =>
    let unit := unit * 16 + d
    if count == 3 then .next { m with mode := .text isName (unit :: units) }
    else .next { m with mode := .unit isName units (count + 1) unit }

/-- The part of a number that a character leads to, if it continues the number. -/
def NumberPart.next? (p : NumberPart) (c : Char) : Option NumberPart :=
  match p with
  | .minus => if c == '0' then some .zero else if c.isDigit then some .whole else none
  | .zero => if c == '.' then some .point else if c.toLower == 'e' then some .mark else none
  | .whole =>
    if c.isDigit then some .whole else if c == '.' then some .point
    else if c.toLower == 'e' then some .mark else none
  | .point => if c.isDigit then some .places else none
  | .places =>
    if c.isDigit then some .places else if c.toLower == 'e' then some .mark else none
  | .mark =>
    if c == '+' || c == '-' then some .markSign else if c.isDigit then some .scale else none
  | .markSign => if c.isDigit then some .scale else none
  | .scale => if c.isDigit then some .scale else none

/-- Whether a number may end after this part. -/
def NumberPart.final : NumberPart → Bool
  | .zero | .whole | .places | .scale => true
  | _ => false

def numberOf (digits : List Char) : Json := .number (String.ofList digits.reverse)

def stepNumber (m : Machine) (part : NumberPart) (digits : List Char) (c : Char) : Step :=
  match part.next? c with
  | some part => .next { m with mode := .number part (c :: digits) }
  | none =>
    if !part.final then .fail
    else
      match m.accept (numberOf digits) with
      | .inl m => stepAfter m c
      | .inr j => .ended j

def stepWord (m : Machine) (rest : List Char) (meaning : Json) (c : Char) : Step :=
  match rest with
  | [d] => if c == d then closedBy m meaning else .fail
  | d :: rest => if c == d then .next { m with mode := .word rest meaning } else .fail
  | [] => .fail

def Machine.step (m : Machine) (c : Char) : Step :=
  match m.mode with
  | .value closable => stepValue m closable c
  | .name closable => stepName m closable c
  | .colon =>
    if isBlank c then .next m
    else if c == ':' then .next { m with mode := .value false }
    else .fail
  | .after => stepAfter m c
  | .text isName units => stepText m isName units c
  | .escape isName units => stepEscape m isName units c
  | .unit isName units count unit => stepUnit m isName units count unit c
  | .number part digits => stepNumber m part digits c
  | .word rest meaning => stepWord m rest meaning c

/-- What the machine has at the end of the text: only a bare number may end there. -/
def Machine.finish? (m : Machine) : Option Json :=
  match m.mode, m.stack with
  | .number part digits, [] => if part.final then some (numberOf digits) else none
  | _, _ => none

/-- What a text begins with. -/
inductive Reading where
  | complete (j : Json) (rest : List Char)
  /-- The text ends inside its first document, or before it. -/
  | unfinished
  | malformed

/-- Runs the machine to the end of the first document, and gives the text after it. -/
def Machine.run (m : Machine) : List Char → Reading
  | [] =>
    match m.finish? with
    | some j => .complete j []
    | none => .unfinished
  | c :: cs =>
    match m.step c with
    | .next m => m.run cs
    | .closed j => .complete j cs
    | .ended j => .complete j (c :: cs)
    | .fail => .malformed

/-- The first document of a text and what follows it. -/
def readFirst (cs : List Char) : Reading := Machine.run { stack := [], mode := .value false } cs

/-- A text that is one document, with blanks around it. -/
def read? (s : String) : Option Json :=
  match readFirst s.toList with
  | .complete j rest => if rest.all isBlank then some j else none
  | _ => none

end ExprCompiler.Json
