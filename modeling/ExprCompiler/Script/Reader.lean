import ExprCompiler.Script.Token

/-!
# Reading scripts

The reader is a pushdown machine over tokens. Its stack holds what waits for an operand; an operator
that follows an operand first completes what binds the operand at least as strongly.
-/

namespace ExprCompiler.Script

/-- What waits for the operand that is being read. -/
inductive Frame where
  | neg
  | not
  | binary (op : Operator) (a : Term)
  /-- A choice up to its value. -/
  | test (condition : Term)
  /-- A choice up to what is left. -/
  | choice (condition value : Term)
  | group
  /-- A call with the arguments so far, in reverse. -/
  | call (f : Callee) (ts : List Term)

namespace Frame

/-- How strongly an operand is bound; nothing but a token ends a frame of level zero. -/
def level : Frame → Nat
  | .neg | .not => 8
  | .binary op _ => op.level
  | .choice _ _ => 1
  | .test _ | .group | .call _ _ => 0

def complete : Frame → Term → Term
  | .neg, t => .neg t
  | .not, t => .not t
  | .binary op a, t => .binary op a t
  | .choice c v, t => .choice c v t
  | _, t => t

end Frame

/-- Completes frames from the innermost on, as long as they bind at least as strongly as `level`. -/
def reduce (level : Nat) : List Frame → Term → List Frame × Term
  | [], t => ([], t)
  | f :: fs, t => if level ≤ f.level then reduce level fs (f.complete t) else (f :: fs, t)

/-- What the machine expects. -/
inductive Mode where
  | operand
  /-- An operand has been read: an operator, or the end of what it stands in. -/
  | operator (t : Term)
  /-- The arguments of a callee. -/
  | arguments (f : Callee)
  /-- The arguments of a callee that its first argument names. -/
  | naming (f : String → Callee)
  | name (f : String → Callee)
  /-- The end of the first argument. -/
  | named

/-- What a name of the engine stands for: an operand, or what is to be called. -/
def globalMode? (s : String) : Option Mode :=
  match s with
  | "true" => some (.operator (.bool true))
  | "false" => some (.operator (.bool false))
  | "NaN" => some (.operator (.number Elementary.nan))
  | "Infinity" => some (.operator (.number Elementary.infinity))
  | "Number" => some (.arguments .toNumber)
  | "__call" => some (.naming .registry)
  | "__unbound" => some (.naming .unbound)
  | s => (functions.get? s).map fun f ↦ .arguments (.math f)

/-- What a name stands for. Parameters hide the names of the engine. -/
def modeOfName? (formals : List String) (s : String) : Option Mode :=
  match formals.idxOf? s with
  | some i => some (.operator (.param i))
  | none => globalMode? s

/-- One token where an operand is due. Only a call may end there, if it has no arguments. -/
def stepOperand (formals : List String) (fs : List Frame) : Token → Option (Mode × List Frame)
  | .name s => (modeOfName? formals s).map (·, fs)
  | .number x => some (.operator (.number x), fs)
  | .operator .minus => some (.operand, .neg :: fs)
  | .sign '!' => some (.operand, .not :: fs)
  | .bracket '(' => some (.operand, .group :: fs)
  | .bracket ')' =>
    match fs with
    | .call f [] :: fs => some (.operator (.call f []), fs)
    | _ => none
  | _ => none

/-- One token after an operand. -/
def stepOperator (fs : List Frame) (t : Term) : Token → Option (Mode × List Frame)
  | .operator op =>
    let (fs, t) := reduce op.level fs t
    some (.operand, .binary op t :: fs)
  | .sign '?' =>
    let (fs, t) := reduce 2 fs t
    some (.operand, .test t :: fs)
  | .sign ':' =>
    match reduce 1 fs t with
    | (.test c :: fs, t) => some (.operand, .choice c t :: fs)
    | _ => none
  | .bracket ',' =>
    match reduce 1 fs t with
    | (.call f ts :: fs, t) => some (.operand, .call f (t :: ts) :: fs)
    | _ => none
  | .bracket ')' =>
    match reduce 1 fs t with
    | (.group :: fs, t) => some (.operator t, fs)
    | (.call f ts :: fs, t) => some (.operator (.call f (t :: ts).reverse), fs)
    | _ => none
  | _ => none

def step (formals : List String) (mode : Mode) (fs : List Frame) (token : Token) :
    Option (Mode × List Frame) :=
  match mode, token with
  | .operand, token => stepOperand formals fs token
  | .operator t, token => stepOperator fs t token
  | .arguments f, .bracket '(' => some (.operand, .call f [] :: fs)
  | .naming f, .bracket '(' => some (.name f, fs)
  | .name f, .literal s => some (.named, .call (f s) [] :: fs)
  | .named, .bracket ',' => some (.operand, fs)
  | .named, .bracket ')' => stepOperand formals fs token
  | _, _ => none

/-- The whole expression, if a token ends it. -/
def finish? (mode : Mode) (fs : List Frame) (token : Token) : Option Term :=
  match mode with
  | .operator t =>
    match token, reduce 1 fs t with
    | .bracket ';', ([], t) => some t
    | _, _ => none
  | _ => none

/-- Reads an expression up to the semicolon behind it, and gives what follows. -/
def readBody? (formals : List String) :
    Mode → List Frame → List Token → Option (Term × List Token)
  | _, _, [] => none
  | mode, fs, token :: tokens =>
    match finish? mode fs token with
    | some t => some (t, tokens)
    | none => do
      let (mode, fs) ← step formals mode fs token
      readBody? formals mode fs tokens

/-- Reads the names of parameters up to the bracket behind them. -/
def readFormals? : List Token → Option (List String × List Token)
  | .bracket ')' :: tokens => some ([], tokens)
  | .name s :: .bracket ')' :: tokens => some ([s], tokens)
  | .name s :: .bracket ',' :: tokens => do
    let (ss, tokens) ← readFormals? tokens
    return (s :: ss, tokens)
  | _ => none

/-- The body of the function that tokens stand for. -/
def readFunction? : List Token → Option Term
  | .bracket '(' :: .name "function" :: .bracket '(' :: tokens => do
    match ← readFormals? tokens with
    | (formals, .bracket '\x7b' :: .literal "use strict" :: .bracket ';' :: .name "return" :: tokens) =>
      match ← readBody? formals .operand [] tokens with
      | (t, [.bracket '\x7d', .bracket ')']) => some t
      | _ => none
    | _ => none
  | _ => none

/-- The body of the function that a text is. -/
def read? (s : String) : Option Term := (tokens? s.toList).bind readFunction?

end ExprCompiler.Script
