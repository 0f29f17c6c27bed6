import ExprCompiler.Expr.Render

/-!
# Foreign trees

The compiler reads an expression through a few accessors: a tag, a text, ordered children, and
numbers on leaves. A tree may be a symbolic expression of this library or come from elsewhere; then
an accessor may report an error, give up, or never end, and nodes may be absent.
-/

namespace ExprCompiler

/-- The numbers that a foreign leaf carries, and an error that it reports beside them. -/
structure Payload where
  /-- An integer, which may be absent. -/
  integer : Option (Option Int) := none
  float : Option Float := none
  /-- A numerator and a denominator, either of which may be absent. -/
  ratio : Option (Option Int × Option Int) := none
  error : Option String := none

/-- What a foreign node says about itself. -/
structure Label where
  tag : String
  text : String
  payload : Payload := {}
  /-- An error that reading the children reports beside them. -/
  childrenError : Option String := none
  /-- The words with which reading the children gives up. -/
  givesUp : Option String := none

/-- A tree as the compiler reads it. -/
inductive Node where
  | absent
  /-- An expression of this library, which may be absent behind its accessors. -/
  | symbolic (e : Option Expr)
  | foreign (label : Label) (children : List Node)
  /-- A foreign node that lists its free symbols itself, with an error beside them. -/
  | listing (label : Label) (children : List Node) (free : List Node) (error : Option String)
  /-- A node that is its own only child. -/
  | endless (label : Label)

namespace Node

instance : Inhabited Node := ⟨.absent⟩

def missing {α : Type} : Except Failure α := .error (.fault .absent)

def label? : Node → Option Label
  | .foreign label _ | .listing label _ _ _ | .endless label => some label
  | _ => none

def tag : Node → Except Failure String
  | .symbolic (some e) => .ok e.tag
  | n =>
    match n.label? with
    | some label => .ok label.tag
    | none => missing

def text : Node → Except Failure String
  | .symbolic (some e) => .ok e.render
  | n =>
    match n.label? with
    | some label => .ok label.text
    | none => missing

/-- The children and the error reported beside them. -/
def children : Node → Except Failure (List Node × Option String)
  | .symbolic (some e) => .ok (e.args.map fun a ↦ .symbolic (some a), none)
  | .symbolic none | .absent => missing
  | .foreign label children | .listing label children _ _ =>
    match label.givesUp with
    | some words => .error (.fault (.raised words))
    | none => .ok (children, label.childrenError)
  | .endless label =>
    match label.givesUp with
    | some words => .error (.fault (.raised words))
    | none => .ok ([.endless label], label.childrenError)

/-- The outcome of reading a number: the accessor may be lacking, or report an error. -/
inductive Reading (α : Type) where
  | lacking
  | error (text : String)
  | value (a : α)

def reading {α : Type} (value : Option α) (error : Option String) : Reading α :=
  match value, error with
  | none, _ => .lacking
  | some _, some text => .error text
  | some a, none => .value a

/-- The text that an error about a symbolic node begins with. -/
def complaint (e : Expr) (what : String) : String := e.render ++ " is not " ++ what

def integer : Node → Reading (Option Int)
  | .symbolic (some (.num q)) =>
    if q.den == 1 then .value (some q.num) else .error (complaint (.num q) "an integer")
  | .symbolic (some e) => .error (complaint e "an integer")
  | n =>
    match n.label? with
    | some label => reading label.payload.integer label.payload.error
    | none => .lacking

def float : Node → Reading Float
  | .symbolic (some (.num q)) => .value (Numeral.nearest q)
  | .symbolic (some (.float x)) => .value x
  | .symbolic (some e) => .error (complaint e "a number")
  | n =>
    match n.label? with
    | some label => reading label.payload.float label.payload.error
    | none => .lacking

def ratio : Node → Reading (Option Int × Option Int)
  | .symbolic (some (.num q)) => .value (some q.num, some q.den)
  | .symbolic (some e) => .error (complaint e "a rational")
  | n =>
    match n.label? with
    | some label => reading label.payload.ratio label.payload.error
    | none => .lacking

/-! ## Free symbols -/

/-- The default limit on how deep a tree is followed. -/
def defaultMaxDepth : Nat := 10000

def symbolTag : String := "Symbol"

/-- The symbols below a node in order, with repetitions; `left` counts the levels that may still
be entered. -/
def symbolsWithin : Nat → Node → Except Failure (List String)
  | 0, n => do throw (.lowering (← n.tag) .tooDeep)
  | left + 1, n => do
    if (← n.tag) == symbolTag then return [← n.text]
    match ← n.children with
    | (_, some text) => throw (.reported text)
    | (ns, none) => return (← ns.mapM (symbolsWithin left)).flatten

/-- The names of the free symbols: those that the tree lists itself, in its order, or else the
symbols in the order of their first occurrence. -/
def freeSymbols (n : Node) (maxDepth : Nat) : Except Failure (List String) :=
  match n with
  | .symbolic e => .ok ((e.map Expr.freeSymbols).getD [])
  | .listing _ _ free error =>
    match error with
    | some text => .error (.reported text)
    | none => free.mapM text
  | n => do
    let names ← symbolsWithin (maxDepth + 1) n
    return (names.foldl (fun acc s ↦ if acc.contains s then acc else s :: acc) []).reverse

end Node

end ExprCompiler
