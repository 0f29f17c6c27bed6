import ExprCompiler.Compiler
import ExprCompiler.Yaml.Node.Reader
import ExprCompiler.Yaml.Node.Value

/-!
# Table files

Overrides of the constants and operators that lowering reads, from a document with a section for
each. Whole numbers and texts of numbers stay exact.
-/

namespace ExprCompiler.Configuration

inductive TablesError where
  /-- The document cannot be read, or a section is no mapping. -/
  | unreadable
  | notANumber (tag text : String)
  /-- The value of a constant is nothing that could be a number. -/
  | noScalar (tag : String) (value : Yaml)
  | emptyCallable (tag : String)

def TablesError.message : TablesError → String
  | .unreadable => "parsing tables"
  | .notANumber tag text => "constant " ++ tag ++ ": " ++ Text.quote text ++ " is not a number"
  | .noScalar tag value =>
    "constant " ++ tag ++ ": unable to cast " ++ value.full ++ " of type " ++ value.typeName ++
      " to float64"
  | .emptyCallable tag => "operator " ++ tag ++ ": empty callable"

structure TablesFile where
  constants : Constants
  operators : Operators

/-- What a configuration changes about the compiler's options. -/
inductive Override where
  | backend (b : Backend)
  | constants (t : Constants)
  | operators (t : Operators)

def Override.apply (o : Options) : Override → Options
  | .backend b => o.withBackend b
  | .constants t => o.withConstants t
  | .operators t => o.withOperators t

/-- Options with overrides, one after another. -/
def optionsWith (overrides : List Override) : Options := overrides.foldl Override.apply {}

namespace TablesFile

/-- The value of a constant. An unsigned word counts as the signed one of the same bits. -/
def constant (tag : String) : Yaml → Except TablesError Value
  | .bool b => .ok (.bool b)
  | .word n => .ok (.int (Numeral.lowBits n))
  | .int n => .ok (.int n)
  | .float x => .ok (.float x)
  | .string s =>
    match Numeral.readRat? s with
    | some q => .ok (.rational q)
    | none => .error (.notANumber tag s)
  | v => .error (.noScalar tag v)

/-- The name of a callable; numbers and truth values are written out. -/
def callable? : Yaml → Option String
  | .null => some ""
  | .bytes bs => String.fromUTF8? ⟨bs.toArray⟩
  | v => v.bare?

/-- The entries of a section by its name; one without a value is empty. -/
def sectionOf? (fuel : Nat) (known : Yaml.Node.Anchors) (fields : List (String × Yaml.Node))
    (name : String) : Option (List (String × Yaml) × Yaml.Node.Anchors) :=
  let node := match fields.lookup name with
    | none => Yaml.Node.absent
    | some (.reference target) => ((known.lookup target).map Prod.fst).getD (.reference target)
    | some node => node
  if node.isNull then some ([], known)
  else
    match Yaml.Node.value? fuel known node with
    | some (_, known) => do
      Yaml.Node.sectionOf? fuel known [] [] (← Yaml.Node.entriesOf? fuel known false node)
    | none => none

/-- The constants and the callables of a table file, which are in the first document that has a
value. -/
def sections? (s : String) : Option (List (String × Yaml) × Operators) := do
  let nodes ← Yaml.Node.read? s
  let fuel := 4 * s.length + 8
  let (values, known) ← Yaml.Node.values? fuel [] nodes
  let hasValue (e : Yaml.Node × Yaml) : Bool := e.1.isNull || !e.2.isNull
  match (nodes.zip values).find? hasValue with
  | none => some ([], [])
  | some (node, _) =>
    let fields ← Yaml.Node.fields? fuel known [] (← Yaml.Node.entriesOf? fuel known false node)
    let (constants, known) ← sectionOf? fuel known fields "constants"
    let (operators, _) ← sectionOf? fuel known fields "operators"
    return (constants, ← operators.mapM fun e ↦ (callable? e.2).map (e.1, ·))

/-- The tables from the entries of both sections: first the constants, then the operators. -/
def ofSections (entries : List (String × Yaml)) (operators : Operators) :
    Except TablesError TablesFile := do
  let constants ← entries.mapM fun e ↦ do return (e.1, ← constant e.1 e.2)
  match operators.find? fun e ↦ e.2.isEmpty with
  | some e => throw (.emptyCallable e.1)
  | none => return ⟨constants, operators⟩

/-- Reads a table file. The shape of both sections comes before what is in them. -/
def parse (s : String) : Except TablesError TablesFile :=
  match sections? s with
  | none => .error .unreadable
  | some (entries, operators) => ofSections entries operators

def overrides (t : TablesFile) : List Override := [.constants t.constants, .operators t.operators]

end TablesFile

end ExprCompiler.Configuration
