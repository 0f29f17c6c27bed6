import ExprCompiler.Yaml.Node

/-!
# Values of nodes

What a node stands for once its tags are applied, its references replaced and its merges done.
Anchors are known from where they stand on, across the documents of a text.
-/

namespace ExprCompiler.Yaml

/-! ## Tags -/

/-- A scalar as a text, with a word for one that has none. -/
def scalarText (v : Yaml) : String := (v.bare?).getD "<nil>"

/-- A decimal number with a sign, held to the range of a word; zero for any other text. -/
def decimal (s : String) : Int :=
  let (negative, digits) := Numeral.takeSign s.toList
  match digits? 10 digits with
  | some n =>
    if negative then if n < Numeral.signedBound then -n else -Numeral.signedBound
    else if n < Numeral.signedBound then n else Numeral.signedBound - 1
  | none => 0

/-- A number as a double. A text without a number is zero, and what is no number at all is a whole
zero. -/
def toFloat : Yaml → Yaml
  | .word n => .float (Numeral.nearestQuotient n 1)
  | .int n =>
    let x := Numeral.nearestQuotient n.natAbs 1
    .float (if n < 0 then -x else x)
  | .float x => .float x
  | .string s =>
    match Numeral.readFloat s with
    | .ok x => .float x
    | .error .outOfRange => .float (if s.startsWith "-" then -1 / 0 else 1 / 0)
    | .error .malformed => .float 0
  | _ => .int 0

/-- The truth values in lower case. -/
def truth? (s : String) : Option Bool :=
  if ["1", "t", "true", "yes"].contains s then some true
  else if ["0", "f", "false", "no"].contains s then some false
  else none

/-- The six bits of a character in base sixty-four. -/
def sextet? (c : Char) : Option Nat :=
  if c.isUpper then some (c.toNat - 65)
  else if c.isLower then some (c.toNat - 71)
  else if c.isDigit then some (c.toNat + 4)
  else if c == '+' then some 62
  else if c == '/' then some 63
  else none

/-- The bytes in base sixty-four, up to the first group that is none. -/
def base64 : List Char → List UInt8
  | a :: b :: c :: d :: rest =>
    match sextet? a, sextet? b, sextet? c, sextet? d with
    | some a, some b, some c, some d =>
      let n := ((a * 64 + b) * 64 + c) * 64 + d
      (n / 65536).toUInt8 :: (n / 256).toUInt8 :: n.toUInt8 :: base64 rest
    | some a, some b, some c, none =>
      if d == '=' && rest.isEmpty then
        let n := (a * 64 + b) * 64 + c
        [(n / 1024).toUInt8, (n / 4).toUInt8]
      else []
    | some a, some b, none, none =>
      if c == '=' && d == '=' && rest.isEmpty then [((a * 64 + b) / 16).toUInt8] else []
    | _, _, _, _ => []
  | _ => []

/-- What a tag makes of a value; a tag without a meaning leaves it as it is. -/
def tagged? (tag : String) (v : Yaml) : Option Yaml :=
  match tag, v with
  | "!!int", v => some (.int (decimal v.scalarText))
  | "!!float", v => some v.toFloat
  | "!!null", _ => some .null
  | "!!str", .null => some (.string "")
  | "!!str", v => some (.string v.scalarText)
  | "!!bool", v => (truth? v.scalarText.toLower).map .bool
  | "!!binary", .string s => some (.bytes (base64 (s.toList.filter fun c ↦ c != '\n' && c != '\r')))
  | "!!binary", _ => none
  | "!!timestamp", _ => none
  | _, v => some v

namespace Node

/-! ## Values -/

/-- What anchors stand for, the latest first: a node and its value. -/
abbrev Anchors := List (String × Node × Yaml)

/-- The text of a name's value. -/
def nameOf : Yaml → String
  | .null => "null"
  | v => v.scalarText

/-- The entries of a node that is a mapping, or a sequence of mappings to merge. -/
def entriesOf? (fuel : Nat) (known : Anchors) (merging : Bool) (n : Node) :
    Option (List (Node × Node)) :=
  match fuel, n with
  | 0, _ => none
  | _, .mapping entries => some entries
  | fuel + 1, .tagged _ v => entriesOf? fuel known merging v
  | fuel + 1, .anchored _ v => entriesOf? fuel known merging v
  | fuel + 1, .reference name =>
    match known.lookup name with
    | some (v, _) => entriesOf? fuel known merging v
    | none => none
  | fuel + 1, .sequence items =>
    if merging then (items.mapM (entriesOf? fuel known false)).map List.flatten else none
  | _, _ => none

mutual

/-- The value of a node, and the anchors known behind it. -/
def value? (fuel : Nat) (known : Anchors) (n : Node) : Option (Yaml × Anchors) :=
  match fuel, n with
  | 0, _ => none
  | _, .scalar v _ => some (v, known)
  | _, .merge | _, .directive => some (.null, known)
  | fuel + 1, .tagged tag n =>
    match value? fuel known n with
    | some (v, known) => (tagged? tag v).map fun v ↦ (v, known)
    | none => none
  | fuel + 1, .anchored name n =>
    (value? fuel ((name, absent, .null) :: known) n).map fun r ↦ (r.1, (name, n, r.1) :: r.2)
  | _, .reference name => (known.lookup name).map fun e ↦ (e.2, known)
  | fuel + 1, .sequence items =>
    (values? fuel known items).map fun r ↦ (.sequence r.1, r.2)
  | fuel + 1, .mapping entries =>
    (entries? fuel known [] entries).map fun r ↦ (.mapping r.1, r.2)

def values? (fuel : Nat) (known : Anchors) (ns : List Node) : Option (List Yaml × Anchors) :=
  match fuel, ns with
  | 0, _ => none
  | _, [] => some ([], known)
  | fuel + 1, n :: rest =>
    match value? fuel known n with
    | some (v, known) => (values? fuel known rest).map fun r ↦ (v :: r.1, r.2)
    | none => none

/-- The entries behind some that are known; merged ones stand for themselves. -/
def entries? (fuel : Nat) (known : Anchors) (before : List (String × Yaml))
    (entries : List (Node × Node)) : Option (List (String × Yaml) × Anchors) :=
  match fuel, entries with
  | 0, _ => none
  | _, [] => some (before, known)
  | fuel + 1, (name, n) :: rest =>
    if name.isMerge then
      match value? fuel known n with
      | some (_, known) =>
        match entriesOf? fuel known true n with
        | some merged => entries? fuel known before (merged ++ rest)
        | none => none
      | none => none
    else
      match value? fuel known name with
      | some (key, known) =>
        match value? fuel known n with
        | some (v, known) => entries? fuel known (Yaml.set (nameOf key) v before) rest
        | none => none
      | none => none

end

/-! ## Sections -/

/-- The name that a value is in a section: whole numbers stand for characters, and nothing for
the empty name. -/
def sectionName? : Yaml → Option String
  | .null => some ""
  | .word n => some (charName n)
  | .int n => some (charName n)
  | .string s => some s
  | _ => none
where
  /-- The character of a code, or the replacement character. -/
  charName (n : Int) : String :=
    let c := if 0 ≤ n && n.toNat.isValidChar then Char.ofNat n.toNat else Char.ofNat 0xfffd
    String.ofList [c]

/-- The entries of a section behind some that are known. No name but the empty one of a null may
be there twice, except that merged entries give way to later ones. -/
def sectionOf? (fuel : Nat) (known : Anchors) (names : List String) (before : List (String × Yaml))
    (entries : List (Node × Node)) : Option (List (String × Yaml) × Anchors) :=
  match fuel, entries with
  | 0, _ => none
  | _, [] => some (before, known)
  | fuel + 1, (name, n) :: rest =>
    if name.isMerge then
      match value? fuel known n with
      | some (_, known) =>
        match entriesOf? fuel known true n with
        | some merged =>
          match sectionOf? fuel known [] [] merged with
          | some (merged, known) =>
            sectionOf? fuel known names (merged.foldl (fun es e ↦ Yaml.set e.1 e.2 es) before) rest
          | none => none
        | none => none
      | none => none
    else
      match value? fuel known name with
      | some (key, known) =>
        match sectionName? key, value? fuel known n with
        | some text, some (v, known) =>
          if !key.isNull && names.contains text then none
          else
            sectionOf? fuel known (if key.isNull then names else text :: names)
              (Yaml.set text v before) rest
        | _, _ => none
      | none => none

/-- The nodes of a mapping by their names; none may be there twice, merged ones included. -/
def fields? (fuel : Nat) (known : Anchors) (before : List (String × Node))
    (entries : List (Node × Node)) : Option (List (String × Node)) :=
  match fuel, entries with
  | 0, _ => none
  | _, [] => some before
  | fuel + 1, (name, n) :: rest =>
    if name.isMerge then
      match entriesOf? fuel known true n with
      | some merged =>
        match fields? fuel known [] merged with
        | some merged =>
          if merged.any fun e ↦ before.any fun f ↦ f.1 == e.1 then none
          else fields? fuel known (merged ++ before) rest
        | none => none
      | none => none
    else
      match value? fuel known name with
      | some (key, _) =>
        if before.any fun e ↦ e.1 == nameOf key then none
        else fields? fuel known ((nameOf key, n) :: before) rest
      | none => none

end Node

end ExprCompiler.Yaml
