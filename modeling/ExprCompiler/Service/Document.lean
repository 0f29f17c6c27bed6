import ExprCompiler.Json.Writer
import ExprCompiler.Numeral.Layout
import ExprCompiler.Table

/-!
# Results

What a tool answers, before it is written. Numbers are doubles here, and a document has no way to
write those that are not finite.
-/

namespace ExprCompiler.Service

inductive Document where
  | absent
  | bool (b : Bool)
  | number (x : Float)
  | text (s : String)
  | list (items : List Document)
  | record (fields : List (String × Document))

namespace Document

def texts (ss : List String) : Document := .list (ss.map .text)

/-- A number, or nothing where it is not finite. -/
def finite (x : Float) : Document := if x.isFinite then .number x else .absent

def finites (xs : List Float) : Document := .list (xs.map finite)

def numbers (xs : List Float) : Document := .list (xs.map .number)

mutual

/-- Whether every number is finite. -/
def isWritable : Document → Bool
  | .number x => x.isFinite
  | .list items => allWritable items
  | .record fields => fieldsWritable fields
  | _ => true

def allWritable : List Document → Bool
  | [] => true
  | d :: ds => isWritable d && allWritable ds

def fieldsWritable : List (String × Document) → Bool
  | [] => true
  | (_, d) :: fs => isWritable d && fieldsWritable fs

end

mutual

/-- The document with the fields of its records in the order of their names. -/
def toJson : Document → Json
  | .absent => .null
  | .bool b => .bool b
  | .number x => .number (Numeral.document x)
  | .text s => .string s
  | .list items => .array (toJsonAll items)
  | .record fields => .object (Table.sorted (toJsonFields fields))

def toJsonAll : List Document → List Json
  | [] => []
  | d :: ds => toJson d :: toJsonAll ds

def toJsonFields : List (String × Document) → List (String × Json)
  | [] => []
  | (name, d) :: fs => (name, toJson d) :: toJsonFields fs

end

end Document

end ExprCompiler.Service
