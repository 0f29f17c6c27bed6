import ExprCompiler.Expr.Build
import ExprCompiler.Json.Writer
import ExprCompiler.Json.Reader

/-!
# The document form of an expression

`toJson` writes an expression as a document whose objects have their fields in the order of their
names. `ofJson` reads one, going through the normalising constructors. Every part of a document is
read once, from the inside out, and each object then picks the parts that its type asks for.
-/

namespace ExprCompiler

/-- Why a document is not an expression. -/
inductive WireError where
  | notAnObject
  | missingType
  | badType
  | missing (type field : String)
  | notObject (type field : String)
  | notArray (type field : String)
  | itemNotObject (type field : String) (index : Nat)
  | notText (type field : String)
  | badNum (text : String)
  | badFloat
  | unknownConstant (name : String)
  | unknownRelation (op : String)
  | unknownType (type : String)
  | inField (type field : String) (cause : WireError)
  | inItem (type field : String) (index : Nat) (cause : WireError)
  | inPiece (index : Nat) (cause : WireError)
  | fault (f : Fault)
deriving DecidableEq, Repr

namespace WireError

def message : WireError → String
  | .notAnObject => "expression must be an object"
  | .missingType => "missing 'type' field"
  | .badType => "field 'type' must be a non-empty string"
  | .missing type field => type ++ ": missing " ++ Text.quote field
  | .notObject type field => type ++ ": " ++ Text.quote field ++ " must be an object"
  | .notArray type field => type ++ ": " ++ Text.quote field ++ " must be an array"
  | .itemNotObject type field index =>
    type ++ ": " ++ Text.quote field ++ s!"[{index}] must be an object"
  | .notText type field => type ++ ": " ++ Text.quote field ++ " must be a non-empty string"
  | .badNum text => "invalid num value: " ++ text
  | .badFloat => "float: 'value' must be a number"
  | .unknownConstant name => "unknown constant: " ++ name
  | .unknownRelation op => "unknown relational " ++ Text.quote op
  | .unknownType type => "unknown expression type: " ++ type
  | .inField type field cause => type ++ ": " ++ field ++ ": " ++ cause.message
  | .inItem type field index cause => type ++ ": " ++ field ++ s!"[{index}]: " ++ cause.message
  | .inPiece index cause => s!"pieces[{index}]: " ++ cause.message
  | .fault f => f.message

/-- The fault that ended the reading, however deep it arose. -/
def fault? : WireError → Option Fault
  | .fault f => some f
  | .inField _ _ cause => cause.fault?
  | .inItem _ _ _ cause => cause.fault?
  | .inPiece _ cause => cause.fault?
  | _ => none

end WireError

namespace Expr

/-! ## Reading -/

/-- A part of a document as its container sees it. An object brings along its own parts and what
it is as an expression. -/
inductive Part where
  | text (s : String)
  | number (x : Float)
  | items (parts : List Part)
  | object (parts : List (String × Part)) (self : Except WireError Expr)
  | other

namespace Part

def last? (field : String) (parts : List (String × Part)) : Option Part :=
  parts.foldl (fun found p ↦ if p.1 == field then some p.2 else found) none

/-- The expression in a field. -/
def expr (type field : String) (parts : List (String × Part)) : Except WireError Expr :=
  match last? field parts with
  | none => .error (.missing type field)
  | some (.object _ self) => self.mapError (.inField type field)
  | some _ => .error (.notObject type field)

/-- An object with what it is as an expression. -/
abbrev Object := List (String × Part) × Except WireError Expr

/-- The objects among the items of a field from position `i` on, which must be all of them. -/
def objectsFrom (type field : String) (i : Nat) : List Part → Except WireError (List Object)
  | [] => .ok []
  | .object inner self :: rest => do return (inner, self) :: (← objectsFrom type field (i + 1) rest)
  | _ :: _ => .error (.itemNotObject type field i)

/-- The objects in an array field, each with its parts. -/
def objects (type field : String) (parts : List (String × Part)) :
    Except WireError (List Object) :=
  match last? field parts with
  | none => .error (.missing type field)
  | some (.items inside) => objectsFrom type field 0 inside
  | some _ => .error (.notArray type field)

/-- The expressions that objects are from position `i` on. -/
def exprsFrom (type field : String) (i : Nat) : List Object → Except WireError (List Expr)
  | [] => .ok []
  | (_, self) :: rest => do
    let e ← self.mapError (.inItem type field i)
    return e :: (← exprsFrom type field (i + 1) rest)

/-- The expressions in an array field. That all items are objects is checked before any is read. -/
def exprs (type field : String) (parts : List (String × Part)) :
    Except WireError (List Expr) := do
  exprsFrom type field 0 (← objects type field parts)

/-- The text in a field, which must not be empty. -/
def string (type field : String) (parts : List (String × Part)) : Except WireError String :=
  match last? field parts with
  | none => .error (.missing type field)
  | some (.text s) => if s.isEmpty then .error (.notText type field) else .ok s
  | some _ => .error (.notText type field)

/-- The branches that objects are from position `i` on. -/
def piecesFrom (type : String) (i : Nat) : List Object → Except WireError (List (Expr × Expr))
  | [] => .ok []
  | (inner, _) :: rest => do
    let e ← (expr type "expr" inner).mapError (.inPiece i)
    let c ← (expr type "cond" inner).mapError (.inPiece i)
    return (e, c) :: (← piecesFrom type (i + 1) rest)

/-- The branches in the field of that name. -/
def pieces (type : String) (parts : List (String × Part)) :
    Except WireError (List (Expr × Expr)) := do
  piecesFrom type 0 (← objects type "pieces" parts)

/-- The expression that an object of a given type stands for. -/
def build (type : String) (parts : List (String × Part)) : Except WireError Expr := do
  match type with
  | "num" =>
    let text ← string type "value" parts
    match Numeral.readRat? text with
    | some q => return .num q
    | none => throw (.badNum text)
  | "float" =>
    match last? "value" parts with
    | some (.number x) => return .float x
    | _ => throw .badFloat
  | "sym" => return .sym (← string type "name" parts)
  | "const" =>
    let name ← string type "name" parts
    match Constant.ofTag? name with
    | some c => return .const c
    | none => throw (.unknownConstant name)
  | "atom" =>
    let tag ← string type "tag" parts
    let name ← string type "name" parts
    return .atom tag name
  | "add" => return addOf (← exprs type "terms" parts)
  | "mul" => return mulOf (← exprs type "factors" parts)
  | "pow" =>
    let base ← expr type "base" parts
    let exponent ← expr type "exp" parts
    return powOf base exponent
  | "func" =>
    let name ← string type "name" parts
    let args ← exprs type "args" parts
    (funcOf name args).mapError .fault
  | "rel" =>
    let op ← string type "op" parts
    let lhs ← expr type "lhs" parts
    let rhs ← expr type "rhs" parts
    match Relation.ofTag? op with
    | some r => return .rel r lhs rhs
    | none => throw (.unknownRelation op)
  | "piecewise" => return .piecewise (← pieces type parts)
  | _ => throw (.unknownType type)

/-- The expression that an object stands for. -/
def ofParts (parts : List (String × Part)) : Except WireError Expr :=
  match last? "type" parts with
  | none => .error .missingType
  | some (.text type) => if type.isEmpty then .error .badType else build type parts
  | some _ => .error .badType

end Part

mutual

def partOf : Json → Part
  | .string s => .text s
  | .number text => .number ((Numeral.readFloat text).toOption.getD 0)
  | .array items => .items (partsOfItems items)
  | .object fields =>
    let parts := partsOfFields fields
    .object parts (Part.ofParts parts)
  | _ => .other

def partsOfItems : List Json → List Part
  | [] => []
  | j :: js => partOf j :: partsOfItems js

def partsOfFields : List (String × Json) → List (String × Part)
  | [] => []
  | (name, j) :: fs => (name, partOf j) :: partsOfFields fs

end

/-- The expression that a document stands for. -/
def ofJson (j : Json) : Except WireError Expr :=
  match partOf j with
  | .object _ self => self
  | _ => .error .notAnObject

/-- Why a text is not an expression: it is no document of the right shape, or the document is not
an expression. -/
inductive ParseError where
  | document
  | wire (e : WireError)

/-- The expression in a text. The text of the absent document is an absent expression. -/
def parse (text : String) : Except ParseError Expr :=
  match Json.read? text with
  | some .null => .error (.wire .notAnObject)
  | some (.object fields) =>
    let j := Json.object fields
    if j.inRange then (ofJson j).mapError .wire else .error .document
  | _ => .error .document

/-! ## Writing -/

mutual

/-- The document of an expression. -/
def toJson : Expr → Json
  | .num q => .object [("type", .string "num"), ("value", .string (Numeral.ratText q))]
  | .float x => .object [("type", .string "float"), ("value", .number (Numeral.document x))]
  | .sym name => .object [("name", .string name), ("type", .string "sym")]
  | .add terms => .object [("terms", .array (toJsonAll terms)), ("type", .string "add")]
  | .mul factors => .object [("factors", .array (toJsonAll factors)), ("type", .string "mul")]
  | .pow base exponent =>
    .object [("base", toJson base), ("exp", toJson exponent), ("type", .string "pow")]
  | .func name args =>
    .object [("args", .array (toJsonAll args)), ("name", .string name), ("type", .string "func")]
  | .const c => .object [("name", .string c.tag), ("type", .string "const")]
  | .rel op lhs rhs =>
    .object [("lhs", toJson lhs), ("op", .string op.tag), ("rhs", toJson rhs),
      ("type", .string "rel")]
  | .piecewise pieces =>
    .object [("pieces", .array (toJsonPieces pieces)), ("type", .string "piecewise")]
  | .pair value condition => .object [("cond", toJson condition), ("expr", toJson value)]
  | .atom tag name =>
    .object [("name", .string name), ("tag", .string tag), ("type", .string "atom")]

def toJsonAll : List Expr → List Json
  | [] => []
  | e :: es => toJson e :: toJsonAll es

def toJsonPieces : List (Expr × Expr) → List Json
  | [] => []
  | (e, c) :: ps => .object [("cond", toJson c), ("expr", toJson e)] :: toJsonPieces ps

end

mutual

/-- The first number, in the order of the document, that documents cannot hold. -/
def unwritable? : Expr → Option Float
  | .float x => if x.isNaN || x.isInf then some x else none
  | .add terms => unwritableAll? terms
  | .mul factors => unwritableAll? factors
  | .pow base exponent => (unwritable? base).or (unwritable? exponent)
  | .func _ args => unwritableAll? args
  | .rel _ lhs rhs => (unwritable? lhs).or (unwritable? rhs)
  | .piecewise pieces => unwritablePieces? pieces
  | .pair value condition => (unwritable? condition).or (unwritable? value)
  | _ => none

def unwritableAll? : List Expr → Option Float
  | [] => none
  | e :: es => (unwritable? e).or (unwritableAll? es)

def unwritablePieces? : List (Expr × Expr) → Option Float
  | [] => none
  | (e, c) :: ps => (unwritable? c).or ((unwritable? e).or (unwritablePieces? ps))

end

/-- The text of an expression's document, or the number that keeps it from having one. -/
def write (e : Expr) : Except Float String :=
  match unwritable? e with
  | some x => .error x
  | none => .ok (toJson e).write

end Expr

end ExprCompiler
