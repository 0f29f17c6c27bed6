import ExprCompiler.Numeral.Reader

/-!
# Documents

A document keeps each number as it was written and the fields of an object in the order in which
they were written, repeated names included. Of a repeated name the last field counts.
-/

namespace ExprCompiler

inductive Json where
  | null
  | bool (b : Bool)
  | number (text : String)
  | string (s : String)
  | array (items : List Json)
  | object (fields : List (String × Json))
deriving Repr, Inhabited

namespace Json

/-- The last field of a name. -/
def lastField? (name : String) (fields : List (String × Json)) : Option Json :=
  fields.foldl (fun found f ↦ if f.1 == name then some f.2 else found) none

def get? (name : String) : Json → Option Json
  | .object fields => lastField? name fields
  | _ => none

def string? : Json → Option String
  | .string s => some s
  | _ => none

def array? : Json → Option (List Json)
  | .array items => some items
  | _ => none

def object? : Json → Option (List (String × Json))
  | .object fields => some fields
  | _ => none

def bool? : Json → Option Bool
  | .bool b => some b
  | _ => none

/-- The double nearest to a number; `none` for other documents and for numbers past the largest. -/
def float? : Json → Option Float
  | .number text => (Numeral.readFloat text).toOption
  | _ => none

/-- The exact value of a number. -/
def rational? : Json → Option Rat
  | .number text => Numeral.readRat? text
  | _ => none

mutual

/-- Whether every number of the document lies within the range of doubles. -/
def inRange : Json → Bool
  | .number text => (Numeral.readFloat text).toBool
  | .array items => inRangeItems items
  | .object fields => inRangeFields fields
  | _ => true

def inRangeItems : List Json → Bool
  | [] => true
  | j :: js => inRange j && inRangeItems js

def inRangeFields : List (String × Json) → Bool
  | [] => true
  | (_, j) :: fs => inRange j && inRangeFields fs

end

end Json

end ExprCompiler
