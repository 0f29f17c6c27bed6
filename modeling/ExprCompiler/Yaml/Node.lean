import ExprCompiler.Yaml.Basic

/-!
# Nodes of a document

A document as it is written: anchors, references to them, tags and merges are still there, and names are
nodes like values.
-/

namespace ExprCompiler.Yaml

inductive Node where
  /-- A scalar and the text it was read from. -/
  | scalar (v : Yaml) (text : String)
  /-- The name whose value is another mapping to take entries from. -/
  | merge
  | tagged (tag : String) (value : Node)
  | anchored (name : String) (value : Node)
  | reference (name : String)
  | sequence (items : List Node)
  | mapping (entries : List (Node × Node))
  | directive

namespace Node

/-- The value of a name that has none. -/
def absent : Node := .scalar .null "null"

def string (s : String) : Node := .scalar (.string s) s

def isNull : Node → Bool
  | .scalar .null _ => true
  | _ => false

def isAnchored : Node → Bool
  | .anchored .. => true
  | _ => false

def isMerge : Node → Bool
  | .merge => true
  | _ => false

/-- The text of a name: no two names of a mapping have the same. -/
def nameText : Node → String
  | .scalar _ text => text
  | .merge => "<<"
  | .tagged _ v => v.nameText
  | .anchored _ v => v.nameText
  | .reference name => name
  | .sequence _ | .mapping _ | .directive => ""

/-- Adds an entry in front, if its name is new. -/
def insert? (name value : Node) (entries : List (Node × Node)) : Option (List (Node × Node)) :=
  if entries.any fun e ↦ e.1.nameText == name.nameText then none
  else some ((name, value) :: entries)

end Node

end ExprCompiler.Yaml
