import ExprCompiler.Numeral.Layout
import ExprCompiler.Numeral.Reader
import ExprCompiler.Text.Quoted

/-!
# Table documents

Values of documents, what a plain scalar stands for, and two ways to write a value: bare, as a
text in its place, and in full, with the type of every collection. Whole numbers have at most 64
bits here: longer ones, and numbers with an exponent but no point, are texts.
-/

namespace ExprCompiler

inductive Yaml where
  | null
  | bool (b : Bool)
  /-- A whole number without a sign. -/
  | word (n : Nat)
  /-- A whole number with a sign. -/
  | int (n : Int)
  | float (x : Float)
  | string (s : String)
  | bytes (bs : List UInt8)
  | sequence (items : List Yaml)
  | mapping (entries : List (String × Yaml))

namespace Yaml

/-! ## Plain scalars -/

def nullWords : List String := ["null", "Null", "NULL", "~"]

def trueWords : List String := ["true", "True", "TRUE"]

def falseWords : List String := ["false", "False", "FALSE"]

def infinityWords : List String := [".inf", ".Inf", ".INF"]

def nanWords : List String := [".nan", ".NaN", ".NAN"]

/-- The number in a list of digits of a base; `none` without digits or with another character. -/
def digits? (base : Nat) (cs : List Char) : Option Nat :=
  if cs.isEmpty then none
  else cs.foldlM (fun n c ↦ (Numeral.digitBelow? base c).map (base * n + ·)) 0

/-- A whole number that fits a word: a signed one if negative, else an unsigned one. -/
def word? (negative : Bool) (base : Nat) (cs : List Char) : Option Yaml :=
  match digits? base cs with
  | some n =>
    if negative then if n ≤ Numeral.signedBound then some (.int (-n)) else none
    else if n < Numeral.wordCount then some (.word n) else none
  | none => none

/-- The number that a plain scalar is, if it is one: marked bases and a leading zero for base eight,
`_` anywhere but in front, and a point for a double. -/
def number? (s : String) : Option Yaml :=
  let cs := s.toList
  let negative := cs.head? == some '-'
  let unsigned := if cs.head? == some '+' then cs.drop 1 else cs
  let unsigned := if unsigned.head? == some '-' then unsigned.drop 1 else unsigned
  let plain := unsigned.filter (· != '_')
  let points := cs.count '.'
  if cs.head? == some '_' || 1 < points then none
  else
    match plain with
    | '0' :: 'x' :: rest => word? negative 16 rest
    | '0' :: 'o' :: rest => word? negative 8 rest
    | '0' :: 'b' :: rest => word? negative 2 rest
    | plain =>
      if points == 1 then
        let signed := if negative then '-' :: plain else plain
        (Numeral.readFloat (String.ofList signed)).toOption.map .float
      else
        match plain with
        | '0' :: c :: rest => word? negative 8 (c :: rest)
        | plain => word? negative 10 plain

/-- What a plain scalar stands for. -/
def resolve (s : String) : Yaml :=
  if nullWords.contains s then .null
  else if trueWords.contains s then .bool true
  else if falseWords.contains s then .bool false
  else if infinityWords.contains s then .float (1 / 0)
  else if (infinityWords.map ("-" ++ ·)).contains s then .float (-1 / 0)
  else if nanWords.contains s then .float (0 / 0)
  else (number? s).getD (.string s)

def isNull : Yaml → Bool
  | .null => true
  | _ => false

/-! ## Entries -/

/-- Sets the value of a name, in the place of an earlier one. -/
def set (name : String) (v : Yaml) : List (String × Yaml) → List (String × Yaml)
  | [] => [(name, v)]
  | e :: rest => if e.1 == name then (name, v) :: rest else e :: set name v rest

/-! ## Texts of values -/

def boolText (b : Bool) : String := if b then "true" else "false"

/-- A scalar as a text in its place; collections have none. -/
def bare? : Yaml → Option String
  | .null => none
  | .bool b => some (boolText b)
  | .word n => some (toString n)
  | .int n => some (toString n)
  | .float x => some (Numeral.general x)
  | .string s => some s
  | .bytes _ | .sequence _ | .mapping _ => none

def hexText (n : Nat) : String := "0x" ++ String.ofList (Nat.toDigits 16 n)

def braced (items : List String) : String := "\x7b" ++ ", ".intercalate items ++ "\x7d"

/-- The type of a value in a collection. -/
def anyType : String := "interface \x7b\x7d"

def sequenceType : String := "[]" ++ anyType

def mappingType : String := "map[string]" ++ anyType

/-- The name of a value's type. -/
def typeName : Yaml → String
  | .null => "<nil>"
  | .bool _ => "bool"
  | .word _ => "uint64"
  | .int _ => "int64"
  | .float _ => "float64"
  | .string _ => "string"
  | .bytes _ => "[]uint8"
  | .sequence _ => sequenceType
  | .mapping _ => mappingType

mutual

/-- A value in full inside a collection. Unsigned words and bytes are in base sixteen, and the
entries of a mapping are in the order of their names. -/
def inside : Yaml → String
  | .null => anyType ++ "(nil)"
  | .bool b => boolText b
  | .word n => hexText n
  | .int n => toString n
  | .float x => Numeral.general x
  | .string s => Text.quote s
  | .bytes bs => "[]byte" ++ braced (bs.map fun b ↦ hexText b.toNat)
  | .sequence items => sequenceType ++ braced (insideAll items)
  | .mapping entries =>
    mappingType ++
      braced (((insideEntries entries).mergeSort fun e f ↦ decide (e.1 ≤ f.1)).map fun e ↦
        Text.quote e.1 ++ ":" ++ e.2)

def insideAll : List Yaml → List String
  | [] => []
  | v :: rest => inside v :: insideAll rest

def insideEntries : List (String × Yaml) → List (String × String)
  | [] => []
  | (name, v) :: rest => (name, inside v) :: insideEntries rest

end

/-- A value in full. -/
def full : Yaml → String
  | .null => "<nil>"
  | v => inside v

end Yaml

end ExprCompiler
