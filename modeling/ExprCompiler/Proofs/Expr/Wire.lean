import ExprCompiler.Expr.Wire
import ExprCompiler.Proofs.Outcome

/-!
# Reading documents

What the reader makes of an object, told by the object's fields alone. Main statements: an object
with a type is built from its fields (`Expr.ofJson_of_type`), a field is read as an expression, as a
text or as a list of expressions if and only if it holds a document of that kind
(`Expr.expr_eq_ok_iff`, `Expr.string_eq_ok_iff`, `Expr.exprs_eq_ok_iff`), and whatever is read as an
expression has the fields of its type (`Expr.reads_of_ofJson`).
-/

namespace ExprCompiler

/-- A constant is found only by its own tag. -/
theorem Constant.eq_tag_of_ofTag? {name : String} {c : Constant} (h : ofTag? name = some c) :
    name = c.tag := by
  have htag := List.find?_some h
  exact (eq_of_beq htag).symm

theorem Relation.eq_tag_of_ofTag? {name : String} {r : Relation} (h : ofTag? name = some r) :
    name = r.tag := by
  have htag := List.find?_some h
  exact (eq_of_beq htag).symm

/-- Whether a document is an object. -/
def Json.isObject : Json → Bool
  | .object _ => true
  | _ => false

namespace Expr

open ExprCompiler.Expr.Part (last?)

variable {j : Json} {field : String} {parts : List (String × Part)}

theorem partsOfItems_eq_map (js : List Json) : partsOfItems js = js.map partOf := by
  induction js with
  | nil => rfl
  | cons j js ih => rw [partsOfItems, ih, List.map_cons]

theorem partsOfFields_eq_map (fields : List (String × Json)) :
    partsOfFields fields = fields.map fun f ↦ (f.1, partOf f.2) := by
  induction fields with
  | nil => rfl
  | cons f fields ih => rw [partsOfFields, ih, List.map_cons]

/-- The part in a field is that of the field's document. -/
theorem last?_partsOfFields (field : String) (fields : List (String × Json)) :
    last? field (partsOfFields fields) = (Json.lastField? field fields).map partOf := by
  rw [partsOfFields_eq_map, last?, List.foldl_map, Json.lastField?]
  suffices h : ∀ found : Option Json,
      fields.foldl (fun acc f ↦ if f.1 == field then some (partOf f.2) else acc)
          (found.map partOf) =
        (fields.foldl (fun acc f ↦ if f.1 == field then some f.2 else acc) found).map partOf from
    h none
  induction fields with
  | nil => intro found; rfl
  | cons f fields ih =>
      intro found
      rw [List.foldl_cons, List.foldl_cons, ← ih]
      split <;> rfl

/-- The last entry under a name is one of the entries. -/
theorem exists_mem_of_foldl {α : Type} {a : α} (entries : List (String × α))
    (h : entries.foldl (fun found p ↦ if p.1 == field then some p.2 else found) none = some a) :
    ∃ q ∈ entries, q.2 = a := by
  have hfold (ps : List (String × α)) (found : Option α) :
      ps.foldl (fun found p ↦ if p.1 == field then some p.2 else found) found = some a →
        found = some a ∨ ∃ q ∈ ps, q.2 = a := by
    induction ps generalizing found with
    | nil => exact .inl
    | cons q ps ih =>
        intro h
        rcases ih _ h with hq | ⟨r, hr, ha⟩
        · dsimp only at hq
          split at hq
          · exact .inr ⟨q, List.mem_cons_self, Option.some.inj hq⟩
          · exact .inl hq
        · exact .inr ⟨r, List.mem_cons_of_mem q hr, ha⟩
  rcases hfold entries none h with h | h
  · cases h
  · exact h

/-- The parts of a document that is an object. -/
def partsIn : Json → List (String × Part)
  | .object fields => partsOfFields fields
  | _ => []

/-- The last field of a name is the one that a lookup in the document gives. -/
theorem last?_partsIn (field : String) (j : Json) :
    last? field (partsIn j) = (j.get? field).map partOf := by
  cases j with
  | object fields => exact last?_partsOfFields field fields
  | _ => rfl

/-- An object is built from its fields as its type says. -/
theorem ofJson_of_type {type : String} (htype : j.get? "type" = some (.string type))
    (hne : type ≠ "") : ofJson j = Part.build type (partsIn j) := by
  cases j with
  | object fields =>
      have hlast : last? "type" (partsOfFields fields) = some (.text type) := by
        rw [last?_partsOfFields, ← Json.get?, htype]
        rfl
      simp [ofJson, partOf, Part.ofParts, hlast, hne, partsIn]
  | _ => cases htype

/-! ## What fields are read as -/

section Fields

variable {type : String} {js : List Json}

/-- A field is read as an expression if its document is that expression. -/
theorem expr_eq_ok_iff {e : Expr} :
    Part.expr type field (partsIn j) = .ok e ↔ ∃ d, j.get? field = some d ∧ ofJson d = .ok e := by
  rw [Part.expr, last?_partsIn]
  cases j.get? field with
  | none => simp
  | some d =>
      cases d with
      | object fields => simp [partOf, ofJson, Outcome.mapError_eq_ok]
      | _ => simp [partOf, ofJson]

/-- The text in a field, unless it is empty. -/
def textIn (field : String) (j : Json) : Option String :=
  match j.get? field with
  | some (.string s) => if s.isEmpty then none else some s
  | _ => none

/-- A field is read as a text if its document is that text. -/
theorem string_eq_ok_iff {s : String} :
    Part.string type field (partsIn j) = .ok s ↔ textIn field j = some s := by
  rw [Part.string, last?_partsIn, textIn]
  cases j.get? field with
  | none => simp
  | some d =>
      cases d with
      | string t =>
          simp only [partOf, Option.map_some]
          split <;> simp
      | _ => simp [partOf]

/-- A field has a text if it is a string that is not empty. -/
theorem textIn_eq_some {s : String} :
    textIn field j = some s ↔ j.get? field = some (.string s) ∧ s ≠ "" := by
  rw [textIn]
  cases j.get? field with
  | none => simp
  | some d =>
      cases d with
      | string t =>
          simp only [Option.ite_none_left_eq_some, Option.some.injEq, Json.string.injEq]
          constructor
          · rintro ⟨hne, rfl⟩
            exact ⟨rfl, by simpa using hne⟩
          · rintro ⟨rfl, hne⟩
            exact ⟨by simpa using hne, rfl⟩
      | _ => simp

/-- A document as an item among objects. -/
def objectOf (j : Json) : Part.Object := (partsIn j, ofJson j)

/-- Objects are found if every item is one. -/
theorem objectsFrom_eq_ok_iff {i : Nat} {objects : List Part.Object} :
    Part.objectsFrom type field i (js.map partOf) = .ok objects ↔
      js.all Json.isObject = true ∧ objects = js.map objectOf := by
  induction js generalizing i objects with
  | nil => simp [Part.objectsFrom, eq_comm]
  | cons d js ih =>
      cases d with
      | object fields =>
          have hself : (partsOfFields fields, Part.ofParts (partsOfFields fields)) =
              objectOf (.object fields) := rfl
          simp only [List.map_cons, partOf, Part.objectsFrom, hself, Outcome.bind_eq_ok, ih,
            List.all_cons, Json.isObject, Bool.true_and, Outcome.pure_eq_ok, Except.ok.injEq]
          constructor
          · rintro ⟨_, ⟨hall, rfl⟩, rfl⟩
            exact ⟨hall, rfl⟩
          · rintro ⟨hall, rfl⟩
            exact ⟨_, ⟨hall, rfl⟩, rfl⟩
      | _ => simp [partOf, Part.objectsFrom, Json.isObject]

/-- A field gives objects if it is an array of them. -/
theorem objects_eq_ok_iff {objects : List Part.Object} :
    Part.objects type field (partsIn j) = .ok objects ↔
      ∃ js, j.get? field = some (.array js) ∧ js.all Json.isObject = true ∧
        objects = js.map objectOf := by
  rw [Part.objects, last?_partsIn]
  cases j.get? field with
  | none => simp
  | some d =>
      cases d with
      | array items => simp [partOf, partsOfItems_eq_map, objectsFrom_eq_ok_iff]
      | _ => simp [partOf]

/-- What is no object is no expression. -/
theorem isObject_of_ofJson {e : Expr} (h : ofJson j = .ok e) : j.isObject = true := by
  cases j with
  | object fields => rfl
  | _ => cases h

/-- Only objects have fields. -/
theorem isObject_of_get? {d : Json} (h : j.get? field = some d) : j.isObject = true := by
  cases j with
  | object fields => rfl
  | _ => cases h

/-- Expressions are read in turn from their documents. -/
theorem exprsFrom_eq_ok_iff {i : Nat} {es : List Expr} :
    Part.exprsFrom type field i (js.map objectOf) = .ok es ↔
      List.Forall₂ (fun d e ↦ ofJson d = .ok e) js es := by
  induction js generalizing i es with
  | nil => simp [Part.exprsFrom, eq_comm]
  | cons d js ih =>
      simp only [List.map_cons, objectOf, Part.exprsFrom, Outcome.bind_eq_ok,
        Outcome.mapError_eq_ok, ih, List.forall₂_cons_left_iff, Outcome.pure_eq_ok,
        Except.ok.injEq]
      constructor
      · rintro ⟨e, he, rest, hrest, rfl⟩
        exact ⟨e, rest, he, hrest, rfl⟩
      · rintro ⟨e, rest, he, hrest, rfl⟩
        exact ⟨e, he, rest, hrest, rfl⟩

/-- A field is read as expressions if it is an array of documents that are these expressions. -/
theorem exprs_eq_ok_iff {es : List Expr} :
    Part.exprs type field (partsIn j) = .ok es ↔
      ∃ js, j.get? field = some (.array js) ∧ List.Forall₂ (fun d e ↦ ofJson d = .ok e) js es := by
  simp only [Part.exprs, Outcome.bind_eq_ok, objects_eq_ok_iff]
  constructor
  · rintro ⟨_, ⟨js, hjs, -, rfl⟩, h⟩
    exact ⟨js, hjs, exprsFrom_eq_ok_iff.1 h⟩
  · rintro ⟨js, hjs, h⟩
    refine ⟨_, ⟨js, hjs, List.all_eq_true.2 fun d hd ↦ ?_, rfl⟩, exprsFrom_eq_ok_iff.2 h⟩
    obtain ⟨e, -, he⟩ := Outcome.exists_of_mem_of_forall₂ h hd
    exact isObject_of_ofJson he

/-- Whether an object has the value and the condition of a branch. -/
def IsBranch (j : Json) (p : Expr × Expr) : Prop :=
  ∃ value condition, j.get? "expr" = some value ∧ j.get? "cond" = some condition ∧
    ofJson value = .ok p.1 ∧ ofJson condition = .ok p.2

theorem piecesFrom_eq_ok_iff {i : Nat} {ps : List (Expr × Expr)} :
    Part.piecesFrom type i (js.map objectOf) = .ok ps ↔ List.Forall₂ IsBranch js ps := by
  induction js generalizing i ps with
  | nil => simp [Part.piecesFrom, eq_comm]
  | cons d js ih =>
      simp only [List.map_cons, objectOf, Part.piecesFrom, Outcome.bind_eq_ok,
        Outcome.mapError_eq_ok, expr_eq_ok_iff, ih, List.forall₂_cons_left_iff, Outcome.pure_eq_ok,
        Except.ok.injEq]
      constructor
      · rintro ⟨v, ⟨x, hx, hv⟩, c, ⟨y, hy, hc⟩, rest, hrest, rfl⟩
        exact ⟨(v, c), rest, ⟨x, y, hx, hy, hv, hc⟩, hrest, rfl⟩
      · rintro ⟨⟨v, c⟩, rest, ⟨x, y, hx, hy, hv, hc⟩, hrest, rfl⟩
        exact ⟨v, ⟨x, hx, hv⟩, c, ⟨y, hy, hc⟩, rest, hrest, rfl⟩

/-- A choice is read from an array of objects that have the values and conditions of its branches. -/
theorem pieces_eq_ok_iff {ps : List (Expr × Expr)} :
    Part.pieces type (partsIn j) = .ok ps ↔
      ∃ js, j.get? "pieces" = some (.array js) ∧ List.Forall₂ IsBranch js ps := by
  simp only [Part.pieces, Outcome.bind_eq_ok, objects_eq_ok_iff]
  constructor
  · rintro ⟨_, ⟨js, hjs, -, rfl⟩, h⟩
    exact ⟨js, hjs, piecesFrom_eq_ok_iff.1 h⟩
  · rintro ⟨js, hjs, h⟩
    refine ⟨_, ⟨js, hjs, List.all_eq_true.2 fun d hd ↦ ?_, rfl⟩, piecesFrom_eq_ok_iff.2 h⟩
    obtain ⟨p, -, value, _, hvalue, -⟩ := Outcome.exists_of_mem_of_forall₂ h hd
    exact isObject_of_get? hvalue

end Fields

/-! ## Types -/

section Types

/-- A field that is a string other than the empty one is read as it. -/
theorem string_of_get? (type : String) {s : String} (h : j.get? field = some (.string s))
    (hne : s ≠ "") : Part.string type field (partsIn j) = .ok s :=
  string_eq_ok_iff.2 (textIn_eq_some.2 ⟨h, hne⟩)

theorem expr_of_get? (type : String) {d : Json} {e : Expr} (h : j.get? field = some d)
    (he : ofJson d = .ok e) : Part.expr type field (partsIn j) = .ok e :=
  expr_eq_ok_iff.2 ⟨d, h, he⟩

theorem exprs_of_get? (type : String) {js : List Json} {es : List Expr}
    (h : j.get? field = some (.array js))
    (hes : List.Forall₂ (fun d e ↦ ofJson d = .ok e) js es) :
    Part.exprs type field (partsIn j) = .ok es :=
  exprs_eq_ok_iff.2 ⟨js, h, hes⟩

theorem ofJson_num {text : String} {q : Rat} (htype : j.get? "type" = some (.string "num"))
    (hvalue : j.get? "value" = some (.string text)) (hne : text ≠ "")
    (hq : Numeral.readRat? text = some q) : ofJson j = .ok (.num q) := by
  rw [ofJson_of_type htype (by decide)]
  change (Part.string "num" "value" (partsIn j) >>= _) = _
  rw [string_of_get? "num" hvalue hne, Outcome.ok_bind, hq]
  rfl

theorem ofJson_sym {name : String} (htype : j.get? "type" = some (.string "sym"))
    (hname : j.get? "name" = some (.string name)) (hne : name ≠ "") :
    ofJson j = .ok (.sym name) := by
  rw [ofJson_of_type htype (by decide)]
  change (Part.string "sym" "name" (partsIn j) >>= _) = _
  rw [string_of_get? "sym" hname hne]
  rfl

theorem ofJson_add {js : List Json} {es : List Expr}
    (htype : j.get? "type" = some (.string "add")) (hterms : j.get? "terms" = some (.array js))
    (hjs : List.Forall₂ (fun j e ↦ ofJson j = .ok e) js es) : ofJson j = .ok (addOf es) := by
  rw [ofJson_of_type htype (by decide)]
  change (Part.exprs "add" "terms" (partsIn j) >>= _) = _
  rw [exprs_of_get? "add" hterms hjs]
  rfl

theorem ofJson_mul {js : List Json} {es : List Expr}
    (htype : j.get? "type" = some (.string "mul"))
    (hfactors : j.get? "factors" = some (.array js))
    (hjs : List.Forall₂ (fun j e ↦ ofJson j = .ok e) js es) : ofJson j = .ok (mulOf es) := by
  rw [ofJson_of_type htype (by decide)]
  change (Part.exprs "mul" "factors" (partsIn j) >>= _) = _
  rw [exprs_of_get? "mul" hfactors hjs]
  rfl

theorem ofJson_pow {b x : Json} {base exponent : Expr}
    (htype : j.get? "type" = some (.string "pow")) (hb : j.get? "base" = some b)
    (hx : j.get? "exp" = some x) (hbase : ofJson b = .ok base) (hexp : ofJson x = .ok exponent) :
    ofJson j = .ok (powOf base exponent) := by
  rw [ofJson_of_type htype (by decide)]
  change (Part.expr "pow" "base" (partsIn j) >>= _) = _
  rw [expr_of_get? "pow" hb hbase, Outcome.ok_bind, expr_of_get? "pow" hx hexp]
  rfl

theorem ofJson_float {text : String} {x : Float} (htype : j.get? "type" = some (.string "float"))
    (hvalue : j.get? "value" = some (.number text)) (hx : Numeral.readFloat text = .ok x) :
    ofJson j = .ok (.float x) := by
  have hnumber : last? "value" (partsIn j) = some (.number x) := by
    rw [last?_partsIn, hvalue, Option.map_some, partOf, hx]
    rfl
  rw [ofJson_of_type htype (by decide)]
  unfold Part.build
  simp only [hnumber]
  rfl

theorem ofJson_const {c : Constant} (htype : j.get? "type" = some (.string "const"))
    (hname : j.get? "name" = some (.string c.tag)) : ofJson j = .ok (.const c) := by
  have hne : c.tag ≠ "" := by cases c <;> decide
  have hofTag : Constant.ofTag? c.tag = some c := by cases c <;> decide
  rw [ofJson_of_type htype (by decide)]
  change (Part.string "const" "name" (partsIn j) >>= _) = _
  rw [string_of_get? "const" hname hne, Outcome.ok_bind, hofTag]
  rfl

theorem ofJson_atom {tag name : String} (htype : j.get? "type" = some (.string "atom"))
    (htag : j.get? "tag" = some (.string tag)) (hname : j.get? "name" = some (.string name))
    (htagged : tag ≠ "") (hnamed : name ≠ "") : ofJson j = .ok (.atom tag name) := by
  rw [ofJson_of_type htype (by decide)]
  change (Part.string "atom" "tag" (partsIn j) >>= _) = _
  rw [string_of_get? "atom" htag htagged, Outcome.ok_bind, string_of_get? "atom" hname hnamed]
  rfl

theorem ofJson_func {name : String} {js : List Json} {es : List Expr} {e : Expr}
    (htype : j.get? "type" = some (.string "func")) (hname : j.get? "name" = some (.string name))
    (hargs : j.get? "args" = some (.array js)) (hne : name ≠ "")
    (hjs : List.Forall₂ (fun j e ↦ ofJson j = .ok e) js es) (he : funcOf name es = .ok e) :
    ofJson j = .ok e := by
  rw [ofJson_of_type htype (by decide)]
  change (Part.string "func" "name" (partsIn j) >>= _) = _
  rw [string_of_get? "func" hname hne, Outcome.ok_bind, exprs_of_get? "func" hargs hjs,
    Outcome.ok_bind, he]
  rfl

theorem ofJson_rel {op : Relation} {l r : Json} {lhs rhs : Expr}
    (htype : j.get? "type" = some (.string "rel")) (hop : j.get? "op" = some (.string op.tag))
    (hl : j.get? "lhs" = some l) (hr : j.get? "rhs" = some r) (hlhs : ofJson l = .ok lhs)
    (hrhs : ofJson r = .ok rhs) : ofJson j = .ok (.rel op lhs rhs) := by
  have hne : op.tag ≠ "" := by cases op <;> decide
  have hofTag : Relation.ofTag? op.tag = some op := by cases op <;> decide
  rw [ofJson_of_type htype (by decide)]
  change (Part.string "rel" "op" (partsIn j) >>= _) = _
  rw [string_of_get? "rel" hop hne, Outcome.ok_bind, expr_of_get? "rel" hl hlhs, Outcome.ok_bind,
    expr_of_get? "rel" hr hrhs, Outcome.ok_bind, hofTag]
  rfl

theorem ofJson_piecewise {js : List Json} {ps : List (Expr × Expr)}
    (htype : j.get? "type" = some (.string "piecewise"))
    (hpieces : j.get? "pieces" = some (.array js)) (hjs : List.Forall₂ IsBranch js ps) :
    ofJson j = .ok (.piecewise ps) := by
  rw [ofJson_of_type htype (by decide)]
  change (Part.pieces "piecewise" (partsIn j) >>= _) = _
  rw [pieces_eq_ok_iff.2 ⟨js, hpieces, hjs⟩]
  rfl

end Types

/-! ## What is read -/

/-- What a document is read as, told by the fields of its type and by what the documents in these
are read as. Of a repeated field the last counts, and other fields do not matter. -/
inductive Reads : Json → Expr → Prop
  | num {j : Json} {text : String} {q : Rat} (type : j.get? "type" = some (.string "num"))
      (value : textIn "value" j = some text) (number : Numeral.readRat? text = some q) :
      Reads j (.num q)
  | float {j : Json} {text : String} (type : j.get? "type" = some (.string "float"))
      (value : j.get? "value" = some (.number text)) :
      Reads j (.float ((Numeral.readFloat text).toOption.getD 0))
  | sym {j : Json} {name : String} (type : j.get? "type" = some (.string "sym"))
      (named : textIn "name" j = some name) : Reads j (.sym name)
  | const {j : Json} (c : Constant) (type : j.get? "type" = some (.string "const"))
      (named : textIn "name" j = some c.tag) : Reads j (.const c)
  | atom {j : Json} {tag name : String} (type : j.get? "type" = some (.string "atom"))
      (tagged : textIn "tag" j = some tag) (named : textIn "name" j = some name) :
      Reads j (.atom tag name)
  | add {j : Json} {ps : List (Json × Expr)} (type : j.get? "type" = some (.string "add"))
      (terms : j.get? "terms" = some (.array (ps.map Prod.fst)))
      (each : ∀ p ∈ ps, Reads p.1 p.2) : Reads j (addOf (ps.map Prod.snd))
  | mul {j : Json} {ps : List (Json × Expr)} (type : j.get? "type" = some (.string "mul"))
      (factors : j.get? "factors" = some (.array (ps.map Prod.fst)))
      (each : ∀ p ∈ ps, Reads p.1 p.2) : Reads j (mulOf (ps.map Prod.snd))
  | pow {j b x : Json} {base exponent : Expr} (type : j.get? "type" = some (.string "pow"))
      (hasBase : j.get? "base" = some b) (hasExponent : j.get? "exp" = some x)
      (readBase : Reads b base) (readExponent : Reads x exponent) : Reads j (powOf base exponent)
  | func {j : Json} {name : String} {ps : List (Json × Expr)} {e : Expr}
      (type : j.get? "type" = some (.string "func")) (named : textIn "name" j = some name)
      (args : j.get? "args" = some (.array (ps.map Prod.fst))) (each : ∀ p ∈ ps, Reads p.1 p.2)
      (applied : funcOf name (ps.map Prod.snd) = .ok e) : Reads j e
  | rel {j l r : Json} {lhs rhs : Expr} (op : Relation)
      (type : j.get? "type" = some (.string "rel")) (operator : textIn "op" j = some op.tag)
      (hasLhs : j.get? "lhs" = some l) (hasRhs : j.get? "rhs" = some r) (readLhs : Reads l lhs)
      (readRhs : Reads r rhs) : Reads j (.rel op lhs rhs)
  | piecewise {j : Json} {bs : List (Json × Expr × Expr)}
      (type : j.get? "type" = some (.string "piecewise"))
      (pieces : j.get? "pieces" = some (.array (bs.map Prod.fst)))
      (whole : ∀ b ∈ bs, (b.1.get? "expr").isSome = true ∧ (b.1.get? "cond").isSome = true)
      (values : ∀ b ∈ bs, ∀ x, b.1.get? "expr" = some x → Reads x b.2.1)
      (conditions : ∀ b ∈ bs, ∀ x, b.1.get? "cond" = some x → Reads x b.2.2) :
      Reads j (.piecewise (bs.map Prod.snd))

section Reads

variable {e : Expr} {type : String}

/-- A field is smaller than its document. -/
theorem sizeOf_lt_of_get? {d : Json} (h : j.get? field = some d) : sizeOf d < sizeOf j := by
  cases j with
  | object fields =>
      obtain ⟨⟨name, x⟩, hmem, rfl⟩ := exists_mem_of_foldl fields h
      have hlt := List.sizeOf_lt_of_mem hmem
      simp only [Prod.mk.sizeOf_spec, Json.object.sizeOf_spec] at hlt ⊢
      omega
  | _ => cases h

theorem sizeOf_lt_of_mem_array {d : Json} {items : List Json}
    (hitems : j.get? field = some (.array items)) (hd : d ∈ items) : sizeOf d < sizeOf j := by
  have hlt := sizeOf_lt_of_get? hitems
  have hmem := List.sizeOf_lt_of_mem hd
  simp only [Json.array.sizeOf_spec] at hlt
  omega

/-- What is read as an expression has a type. -/
theorem exists_type_of_ofJson (h : ofJson j = .ok e) : ∃ type, textIn "type" j = some type := by
  cases j with
  | object fields =>
      have hlast := last?_partsIn "type" (.object fields)
      change Part.ofParts (partsIn (.object fields)) = .ok e at h
      rw [Part.ofParts, hlast] at h
      cases hget : (Json.object fields).get? "type" with
      | none => simp [hget] at h
      | some d =>
          cases d with
          | string s =>
              simp only [hget, Option.map_some, partOf] at h
              split at h
              · cases h
              · rename_i hne
                exact ⟨s, textIn_eq_some.2 ⟨hget, by simpa using hne⟩⟩
          | _ => simp [hget, partOf] at h
  | _ => cases h

/-- A number part comes from a number of the document. -/
theorem exists_of_last?_number {x : Float}
    (h : last? field (partsIn j) = some (.number x)) :
    ∃ text, j.get? field = some (.number text) ∧
      x = (Numeral.readFloat text).toOption.getD 0 := by
  rw [last?_partsIn] at h
  obtain ⟨d, hd, h⟩ := Option.map_eq_some_iff.1 h
  cases d with
  | number text => exact ⟨text, hd, (Part.number.inj h).symm⟩
  | _ => simp [partOf] at h

/-- Whether the documents inside of one are read as they are said to be. -/
def InsideReads (j : Json) : Prop := ∀ d x, sizeOf d < sizeOf j → ofJson d = .ok x → Reads d x

/-- An expression in a field is read from the document there. -/
theorem InsideReads.item (hinside : InsideReads j) {a : Expr}
    (ha : Part.expr type field (partsIn j) = .ok a) : ∃ d, j.get? field = some d ∧ Reads d a := by
  obtain ⟨d, hd, ha⟩ := expr_eq_ok_iff.1 ha
  exact ⟨d, hd, hinside d a (sizeOf_lt_of_get? hd) ha⟩

/-- The expressions in a field are read from the documents of an array there. -/
theorem InsideReads.items (hinside : InsideReads j) {as : List Expr}
    (has : Part.exprs type field (partsIn j) = .ok as) :
    ∃ ps : List (Json × Expr), j.get? field = some (.array (ps.map Prod.fst)) ∧
      ps.map Prod.snd = as ∧ ∀ p ∈ ps, Reads p.1 p.2 := by
  obtain ⟨js, hjs, has⟩ := exprs_eq_ok_iff.1 has
  obtain ⟨ps, rfl, hsnd, hps⟩ := Outcome.exists_pairs_of_forall₂ has
  refine ⟨ps, hjs, hsnd, fun p hp ↦ hinside p.1 p.2 ?_ (hps p hp)⟩
  exact sizeOf_lt_of_mem_array hjs (List.mem_map_of_mem hp)

/-! A lemma for each type: what is built from the fields is read from them. -/

theorem reads_num (htype : j.get? "type" = some (.string "num"))
    (h : Part.build "num" (partsIn j) = .ok e) : Reads j e := by
  obtain ⟨text, hvalue, h⟩ := Outcome.bind_eq_ok.1 h
  split at h
  · rename_i q hq
    cases h
    exact .num htype (string_eq_ok_iff.1 hvalue) hq
  · cases h

theorem reads_float (htype : j.get? "type" = some (.string "float"))
    (h : Part.build "float" (partsIn j) = .ok e) : Reads j e := by
  simp only [Part.build] at h
  split at h
  · rename_i x hx
    cases h
    obtain ⟨text, hvalue, rfl⟩ := exists_of_last?_number hx
    exact .float htype hvalue
  · cases h

theorem reads_sym (htype : j.get? "type" = some (.string "sym"))
    (h : Part.build "sym" (partsIn j) = .ok e) : Reads j e := by
  obtain ⟨name, hname, h⟩ := Outcome.bind_eq_ok.1 h
  cases h
  exact .sym htype (string_eq_ok_iff.1 hname)

theorem reads_const (htype : j.get? "type" = some (.string "const"))
    (h : Part.build "const" (partsIn j) = .ok e) : Reads j e := by
  obtain ⟨name, hname, h⟩ := Outcome.bind_eq_ok.1 h
  split at h
  · rename_i c hc
    cases h
    exact .const c htype (Constant.eq_tag_of_ofTag? hc ▸ string_eq_ok_iff.1 hname)
  · cases h

theorem reads_atom (htype : j.get? "type" = some (.string "atom"))
    (h : Part.build "atom" (partsIn j) = .ok e) : Reads j e := by
  obtain ⟨tag, htag, h⟩ := Outcome.bind_eq_ok.1 h
  obtain ⟨name, hname, h⟩ := Outcome.bind_eq_ok.1 h
  cases h
  exact .atom htype (string_eq_ok_iff.1 htag) (string_eq_ok_iff.1 hname)

theorem InsideReads.add (hinside : InsideReads j)
    (htype : j.get? "type" = some (.string "add"))
    (h : Part.build "add" (partsIn j) = .ok e) : Reads j e := by
  obtain ⟨ts, hts, h⟩ := Outcome.bind_eq_ok.1 h
  obtain ⟨ps, hps, rfl, heach⟩ := hinside.items hts
  cases h
  exact .add htype hps heach

theorem InsideReads.mul (hinside : InsideReads j)
    (htype : j.get? "type" = some (.string "mul"))
    (h : Part.build "mul" (partsIn j) = .ok e) : Reads j e := by
  obtain ⟨fs, hfs, h⟩ := Outcome.bind_eq_ok.1 h
  obtain ⟨ps, hps, rfl, heach⟩ := hinside.items hfs
  cases h
  exact .mul htype hps heach

theorem InsideReads.pow (hinside : InsideReads j)
    (htype : j.get? "type" = some (.string "pow"))
    (h : Part.build "pow" (partsIn j) = .ok e) : Reads j e := by
  obtain ⟨b, hb, h⟩ := Outcome.bind_eq_ok.1 h
  obtain ⟨x, hx, h⟩ := Outcome.bind_eq_ok.1 h
  obtain ⟨base, hbase, hb⟩ := hinside.item hb
  obtain ⟨exponent, hexponent, hx⟩ := hinside.item hx
  cases h
  exact .pow htype hbase hexponent hb hx

theorem InsideReads.func (hinside : InsideReads j)
    (htype : j.get? "type" = some (.string "func"))
    (h : Part.build "func" (partsIn j) = .ok e) : Reads j e := by
  obtain ⟨name, hname, h⟩ := Outcome.bind_eq_ok.1 h
  obtain ⟨as, has, h⟩ := Outcome.bind_eq_ok.1 h
  obtain ⟨ps, hps, rfl, heach⟩ := hinside.items has
  exact .func htype (string_eq_ok_iff.1 hname) hps heach (Outcome.mapError_eq_ok.1 h)

theorem InsideReads.rel (hinside : InsideReads j)
    (htype : j.get? "type" = some (.string "rel"))
    (h : Part.build "rel" (partsIn j) = .ok e) : Reads j e := by
  obtain ⟨op, hop, h⟩ := Outcome.bind_eq_ok.1 h
  obtain ⟨a, ha, h⟩ := Outcome.bind_eq_ok.1 h
  obtain ⟨b, hb, h⟩ := Outcome.bind_eq_ok.1 h
  obtain ⟨lhs, hlhs, ha⟩ := hinside.item ha
  obtain ⟨rhs, hrhs, hb⟩ := hinside.item hb
  split at h
  · rename_i r hr
    cases h
    exact .rel r htype (Relation.eq_tag_of_ofTag? hr ▸ string_eq_ok_iff.1 hop) hlhs hrhs ha hb
  · cases h

/-- A choice is read from branches that are read. -/
theorem InsideReads.piecewise (hinside : InsideReads j)
    (htype : j.get? "type" = some (.string "piecewise"))
    (h : Part.build "piecewise" (partsIn j) = .ok e) : Reads j e := by
  obtain ⟨ps, hps, h⟩ := Outcome.bind_eq_ok.1 h
  cases h
  obtain ⟨js, hjs, hall⟩ := pieces_eq_ok_iff.1 hps
  obtain ⟨bs, rfl, rfl, hbranches⟩ := Outcome.exists_pairs_of_forall₂ hall
  have hlt {b : Json × Expr × Expr} (hb : b ∈ bs) {name : String} {x : Json}
      (hx : b.1.get? name = some x) : sizeOf x < sizeOf j :=
    Nat.lt_trans (sizeOf_lt_of_get? hx) (sizeOf_lt_of_mem_array hjs (List.mem_map_of_mem hb))
  refine .piecewise htype hjs (fun b hb ↦ ?_) (fun b hb x hx ↦ ?_) fun b hb x hx ↦ ?_
  · obtain ⟨value, condition, hvalue, hcondition, -, -⟩ := hbranches b hb
    simp [hvalue, hcondition]
  · obtain ⟨value, condition, hvalue, -, hread, -⟩ := hbranches b hb
    cases hvalue.symm.trans hx
    exact hinside _ _ (hlt hb hx) hread
  · obtain ⟨value, condition, -, hcondition, -, hread⟩ := hbranches b hb
    cases hcondition.symm.trans hx
    exact hinside _ _ (hlt hb hx) hread

/-- What the reader accepts has the fields of its type, by induction on the document. -/
theorem reads_of_ofJson {j : Json} {e : Expr} (h : ofJson j = .ok e) : Reads j e := by
  obtain ⟨type, htype⟩ := exists_type_of_ofJson h
  obtain ⟨htype, hne⟩ := textIn_eq_some.1 htype
  rw [ofJson_of_type htype hne] at h
  have hinside : InsideReads j := fun d x hlt hx ↦ reads_of_ofJson hx
  unfold Part.build at h
  split at h
  · exact reads_num htype h
  · exact reads_float htype h
  · exact reads_sym htype h
  · exact reads_const htype h
  · exact reads_atom htype h
  · exact hinside.add htype h
  · exact hinside.mul htype h
  · exact hinside.pow htype h
  · exact hinside.func htype h
  · exact hinside.rel htype h
  · exact hinside.piecewise htype h
  · cases h
termination_by sizeOf j

end Reads

end Expr

end ExprCompiler
