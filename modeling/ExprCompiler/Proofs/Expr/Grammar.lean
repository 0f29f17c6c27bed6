import ExprCompiler.Proofs.Expr.Faults

/-!
# The grammar of documents

Which documents stand for expressions, told by their fields alone (`Expr.InGrammar`). Main
statement: the reader accepts no document outside the grammar and refuses none inside
(`Expr.ofJson_decides_grammar`). A document inside on which reading faults is neither accepted nor
refused.
-/

namespace ExprCompiler

namespace Expr

/-- The documents that stand for expressions: objects of a known type with the fields that it asks
for. Of a repeated field the last counts, and other fields do not matter. -/
inductive InGrammar : Json → Prop
  | num {j : Json} {text : String} (type : j.get? "type" = some (.string "num"))
      (value : j.get? "value" = some (.string text)) (nonempty : text ≠ "")
      (reads : (Numeral.readRat? text).isSome = true) : InGrammar j
  | float {j : Json} {text : String} (type : j.get? "type" = some (.string "float"))
      (value : j.get? "value" = some (.number text)) : InGrammar j
  | sym {j : Json} {text : String} (type : j.get? "type" = some (.string "sym"))
      (name : j.get? "name" = some (.string text)) (nonempty : text ≠ "") : InGrammar j
  | const {j : Json} (c : Constant) (type : j.get? "type" = some (.string "const"))
      (name : j.get? "name" = some (.string c.tag)) : InGrammar j
  | atom {j : Json} {kind text : String} (type : j.get? "type" = some (.string "atom"))
      (tag : j.get? "tag" = some (.string kind)) (tagged : kind ≠ "")
      (name : j.get? "name" = some (.string text)) (nonempty : text ≠ "") : InGrammar j
  | add {j : Json} {items : List Json} (type : j.get? "type" = some (.string "add"))
      (terms : j.get? "terms" = some (.array items)) (each : ∀ d ∈ items, InGrammar d) :
      InGrammar j
  | mul {j : Json} {items : List Json} (type : j.get? "type" = some (.string "mul"))
      (factors : j.get? "factors" = some (.array items)) (each : ∀ d ∈ items, InGrammar d) :
      InGrammar j
  | pow {j b x : Json} (type : j.get? "type" = some (.string "pow"))
      (base : j.get? "base" = some b) (exponent : j.get? "exp" = some x) (inBase : InGrammar b)
      (inExponent : InGrammar x) : InGrammar j
  | func {j : Json} {text : String} {items : List Json}
      (type : j.get? "type" = some (.string "func")) (name : j.get? "name" = some (.string text))
      (nonempty : text ≠ "") (args : j.get? "args" = some (.array items))
      (each : ∀ d ∈ items, InGrammar d) : InGrammar j
  | rel {j l r : Json} (op : Relation) (type : j.get? "type" = some (.string "rel"))
      (operator : j.get? "op" = some (.string op.tag)) (lhs : j.get? "lhs" = some l)
      (rhs : j.get? "rhs" = some r) (inLhs : InGrammar l) (inRhs : InGrammar r) : InGrammar j
  /-- Each branch is an object without a type of its own, with a value and a condition. -/
  | piecewise {j : Json} {items : List Json} (type : j.get? "type" = some (.string "piecewise"))
      (pieces : j.get? "pieces" = some (.array items))
      (whole : ∀ d ∈ items, (d.get? "expr").isSome = true ∧ (d.get? "cond").isSome = true)
      (each : ∀ d ∈ items, ∀ x, d.get? "expr" = some x ∨ d.get? "cond" = some x → InGrammar x) :
      InGrammar j

variable {j : Json} {e : Expr} {type field : String}

/-- Documents of the grammar are objects. -/
theorem InGrammar.isObject (h : InGrammar j) : j.isObject = true := by
  cases h <;> exact isObject_of_get? ‹j.get? "type" = _›

/-! ## Accepted documents -/

/-- What is read has the fields that the grammar asks for. -/
theorem Reads.inGrammar (h : Reads j e) : InGrammar j := by
  have htext {j : Json} {field s : String} (hs : textIn field j = some s) :
      j.get? field = some (.string s) ∧ s ≠ "" := textIn_eq_some.1 hs
  induction h with
  | num htype hvalue hq =>
      exact .num htype (htext hvalue).1 (htext hvalue).2 (Option.isSome_of_eq_some hq)
  | float htype hvalue => exact .float htype hvalue
  | sym htype hname => exact .sym htype (htext hname).1 (htext hname).2
  | const c htype hname => exact .const c htype (htext hname).1
  | atom htype htag hname =>
      exact .atom htype (htext htag).1 (htext htag).2 (htext hname).1 (htext hname).2
  | add htype hterms _ ih => exact .add htype hterms (List.forall_mem_map.2 ih)
  | mul htype hfactors _ ih => exact .mul htype hfactors (List.forall_mem_map.2 ih)
  | pow htype hbase hexponent _ _ ihb ihx => exact .pow htype hbase hexponent ihb ihx
  | func htype hname hargs _ _ ih =>
      exact .func htype (htext hname).1 (htext hname).2 hargs (List.forall_mem_map.2 ih)
  | rel op htype hop hlhs hrhs _ _ ihl ihr =>
      exact .rel op htype (htext hop).1 hlhs hrhs ihl ihr
  | piecewise htype hpieces whole _ _ ihv ihc =>
      refine .piecewise htype hpieces (List.forall_mem_map.2 whole) ?_
      rw [List.forall_mem_map]
      rintro b hb x (hx | hx)
      · exact ihv b hb x hx
      · exact ihc b hb x hx

/-! ## Refused documents -/

section Refused

variable {α β : Type}

/-- Whether reading ended with a cause why a document is no expression. A fault is no such cause. -/
def Refuses (x : Except WireError α) : Prop := ∃ err, x = .error err ∧ err.fault? = none

theorem not_refuses_ok (a : α) : ¬Refuses (.ok a) := by
  rintro ⟨err, h, -⟩
  cases h

/-- A refusal comes from the first step, or from the second after the first. -/
theorem refuses_bind {x : Except WireError α} {k : α → Except WireError β} :
    Refuses (x >>= k) ↔ Refuses x ∨ ∃ a, x = .ok a ∧ Refuses (k a) := by
  cases x with
  | error err => simp [Refuses]
  | ok a => simp [not_refuses_ok]

theorem not_refuses_bind {x : Except WireError α} {k : α → Except WireError β} (hx : ¬Refuses x)
    (hk : ∀ a, ¬Refuses (k a)) : ¬Refuses (x >>= k) := by
  rw [refuses_bind]
  rintro (h | ⟨a, -, h⟩)
  · exact hx h
  · exact hk a h

/-- Refusals do not depend on how errors are worded. -/
theorem refuses_mapError {x : Except WireError α} {g : WireError → WireError}
    (hg : ∀ err, (g err).fault? = err.fault?) : Refuses (x.mapError g) ↔ Refuses x := by
  cases x with
  | error err => simp [Refuses, Except.mapError, hg]
  | ok a => exact iff_of_false (not_refuses_ok a) (not_refuses_ok a)

theorem not_refuses_string {s : String} (h : j.get? field = some (.string s)) (hne : s ≠ "") :
    ¬Refuses (Part.string type field (partsIn j)) := by
  rw [string_eq_ok_iff.2 (textIn_eq_some.2 ⟨h, hne⟩)]
  exact not_refuses_ok s

/-- The expression in a field is refused only if the object there is. -/
theorem not_refuses_expr {d : Json} (hd : j.get? field = some d) (hobject : d.isObject = true)
    (h : ¬Refuses (ofJson d)) : ¬Refuses (Part.expr type field (partsIn j)) := by
  have hwrap (err : WireError) : (WireError.inField type field err).fault? = err.fault? := rfl
  cases d with
  | object fields =>
      rw [Part.expr, last?_partsIn, hd]
      exact (refuses_mapError hwrap).not.2 h
  | _ => cases hobject

/-- An array of objects is read as these. -/
theorem objects_of_array {js : List Json} (hjs : j.get? field = some (.array js))
    (hobjects : ∀ d ∈ js, d.isObject = true) :
    Part.objects type field (partsIn j) = .ok (js.map objectOf) :=
  objects_eq_ok_iff.2 ⟨js, hjs, List.all_eq_true.2 hobjects, rfl⟩

/-- The expressions in a field are refused only if one of the objects there is. -/
theorem not_refuses_exprs {js : List Json} (hjs : j.get? field = some (.array js))
    (hobjects : ∀ d ∈ js, d.isObject = true) (h : ∀ d ∈ js, ¬Refuses (ofJson d)) :
    ¬Refuses (Part.exprs type field (partsIn j)) := by
  have hfrom (i : Nat) : ¬Refuses (Part.exprsFrom type field i (js.map objectOf)) := by
    clear hjs hobjects
    induction js generalizing i with
    | nil => exact not_refuses_ok _
    | cons d js ih =>
        obtain ⟨hd, hjs⟩ := List.forall_mem_cons.1 h
        have hwrap (err : WireError) :
            (WireError.inItem type field i err).fault? = err.fault? := rfl
        refine not_refuses_bind ((refuses_mapError hwrap).not.2 hd) fun e ↦ ?_
        exact not_refuses_bind (ih hjs (i + 1)) fun _ ↦ not_refuses_ok _
  rw [Part.exprs, objects_of_array hjs hobjects]
  exact hfrom 0

/-- The branches in a field are refused only if a value or a condition is. -/
theorem not_refuses_pieces {js : List Json} (hjs : j.get? "pieces" = some (.array js))
    (hobjects : ∀ d ∈ js, d.isObject = true)
    (h : ∀ d ∈ js, ¬Refuses (Part.expr type "expr" (partsIn d)) ∧
      ¬Refuses (Part.expr type "cond" (partsIn d))) :
    ¬Refuses (Part.pieces type (partsIn j)) := by
  have hfrom (i : Nat) : ¬Refuses (Part.piecesFrom type i (js.map objectOf)) := by
    clear hjs hobjects
    induction js generalizing i with
    | nil => exact not_refuses_ok _
    | cons d js ih =>
        obtain ⟨⟨hv, hc⟩, hjs⟩ := List.forall_mem_cons.1 h
        have hwrap (err : WireError) : (WireError.inPiece i err).fault? = err.fault? := rfl
        refine not_refuses_bind ((refuses_mapError hwrap).not.2 hv) fun v ↦ ?_
        refine not_refuses_bind ((refuses_mapError hwrap).not.2 hc) fun c ↦ ?_
        exact not_refuses_bind (ih hjs (i + 1)) fun _ ↦ not_refuses_ok _
  rw [Part.pieces, objects_of_array hjs hobjects]
  exact hfrom 0

/-- The constructor of functions refuses nothing. -/
theorem not_refuses_funcOf (name : String) (es : List Expr) :
    ¬Refuses ((funcOf name es).mapError .fault) := by
  cases funcOf name es with
  | error f =>
      rintro ⟨err, h, hf⟩
      cases h
      cases hf
  | ok e => exact not_refuses_ok e

/-- No document of the grammar is refused, by induction on why it is in the grammar. -/
theorem InGrammar.not_refuses (h : InGrammar j) : ¬Refuses (ofJson j) := by
  induction h with
  | num htype hvalue hne hreads =>
      obtain ⟨q, hq⟩ := Option.isSome_iff_exists.1 hreads
      rw [ofJson_num htype hvalue hne hq]
      exact not_refuses_ok _
  | @float j text htype hvalue =>
      have hlast : Part.last? "value" (partsIn j) = some (partOf (.number text)) := by
        rw [last?_partsIn, hvalue]
        rfl
      rw [ofJson_of_type htype (by decide)]
      unfold Part.build
      simp only [hlast, partOf]
      exact not_refuses_ok _
  | sym htype hname hne =>
      rw [ofJson_sym htype hname hne]
      exact not_refuses_ok _
  | const c htype hname =>
      rw [ofJson_const htype hname]
      exact not_refuses_ok _
  | atom htype htag htagged hname hne =>
      rw [ofJson_atom htype htag hname htagged hne]
      exact not_refuses_ok _
  | add htype hterms each ih | mul htype hterms each ih =>
      rw [ofJson_of_type htype (by decide)]
      exact not_refuses_bind (not_refuses_exprs hterms (fun d hd ↦ (each d hd).isObject) ih)
        fun _ ↦ not_refuses_ok _
  | pow htype hbase hexponent inBase inExponent ihb ihx =>
      rw [ofJson_of_type htype (by decide)]
      refine not_refuses_bind (not_refuses_expr hbase inBase.isObject ihb) fun b ↦ ?_
      exact not_refuses_bind (not_refuses_expr hexponent inExponent.isObject ihx)
        fun _ ↦ not_refuses_ok _
  | func htype hname hne hargs each ih =>
      rw [ofJson_of_type htype (by decide)]
      refine not_refuses_bind (not_refuses_string hname hne) fun name ↦ ?_
      exact not_refuses_bind (not_refuses_exprs hargs (fun d hd ↦ (each d hd).isObject) ih)
        fun as ↦ not_refuses_funcOf name as
  | @rel j l r op htype hop hlhs hrhs inLhs inRhs ihl ihr =>
      have hofTag : Relation.ofTag? op.tag = some op := by cases op <;> decide
      have hstring : Part.string "rel" "op" (partsIn j) = .ok op.tag :=
        string_eq_ok_iff.2 (textIn_eq_some.2 ⟨hop, by cases op <;> decide⟩)
      rw [ofJson_of_type htype (by decide)]
      change ¬Refuses (Part.string "rel" "op" (partsIn j) >>= _)
      rw [hstring, Outcome.ok_bind]
      refine not_refuses_bind (not_refuses_expr hlhs inLhs.isObject ihl) fun a ↦ ?_
      refine not_refuses_bind (not_refuses_expr hrhs inRhs.isObject ihr) fun b ↦ ?_
      rw [hofTag]
      exact not_refuses_ok _
  | @piecewise j items htype hpieces whole each ih =>
      have hobjects (d : Json) (hd : d ∈ items) : d.isObject = true := by
        obtain ⟨x, hx⟩ := Option.isSome_iff_exists.1 (whole d hd).1
        exact isObject_of_get? hx
      have hpart {d x : Json} {field : String} (hd : d ∈ items) (hx : d.get? field = some x)
          (hfield : d.get? "expr" = some x ∨ d.get? "cond" = some x) :
          ¬Refuses (Part.expr "piecewise" field (partsIn d)) :=
        not_refuses_expr hx (each d hd x hfield).isObject (ih d hd x hfield)
      rw [ofJson_of_type htype (by decide)]
      refine not_refuses_bind (not_refuses_pieces hpieces hobjects fun d hd ↦ ?_)
        fun _ ↦ not_refuses_ok _
      obtain ⟨x, hx⟩ := Option.isSome_iff_exists.1 (whole d hd).1
      obtain ⟨y, hy⟩ := Option.isSome_iff_exists.1 (whole d hd).2
      exact ⟨hpart hd hx (.inl hx), hpart hd hy (.inr hy)⟩

end Refused

/-- Reading accepts, refuses or faults. -/
theorem ok_or_refuses_or_faults {α : Type} (x : Except WireError α) :
    (∃ a, x = .ok a) ∨ Refuses x ∨ ∃ f, Faults f x := by
  cases x with
  | ok a => exact .inl ⟨a, rfl⟩
  | error err =>
      cases hf : err.fault? with
      | none => exact .inr (.inl ⟨err, rfl, hf⟩)
      | some f => exact .inr (.inr ⟨f, err, rfl, hf⟩)

/-- The reader decides the grammar: a document that it reads as an expression is in the grammar, and
one that it refuses, giving a cause, is not. What is in the grammar is read, unless reading gets to
the logarithm of an exponential without arguments and faults there. -/
theorem ofJson_decides_grammar (j : Json) :
    ((∃ e, ofJson j = .ok e) → InGrammar j) ∧
      ((∃ err, ofJson j = .error err ∧ err.fault? = none) → ¬InGrammar j) ∧
      (InGrammar j → (∃ e, ofJson j = .ok e) ∨ ∃ d, Reaches j d ∧ IsBareLogarithm d) := by
  refine ⟨?_, ?_, fun h ↦ ?_⟩
  · rintro ⟨e, he⟩
    exact (reads_of_ofJson he).inGrammar
  · intro hrefuses h
    exact h.not_refuses hrefuses
  · rcases ok_or_refuses_or_faults (ofJson j) with hok | hrefuses | ⟨f, hfaults⟩
    · exact .inl hok
    · exact absurd hrefuses h.not_refuses
    · exact .inr (exists_reaches_of_faults hfaults).2

/-- A choice with one branch, whose condition is given. -/
def choiceDocument (condition : Json) : Json :=
  .object [("type", .string "piecewise"), ("note", .null),
    ("pieces", .array [.object
      [("cond", condition), ("expr", .object [("type", .string "sym"), ("name", .string "x")])]])]

/-- With a constant for its condition a choice is in the grammar, with a truth value it is not. -/
theorem ofJson_decides_grammar_choice :
    InGrammar (choiceDocument (.object [("type", .string "const"), ("name", .string "NaN")])) ∧
      ¬InGrammar (choiceDocument (.bool true)) :=
  ⟨(ofJson_decides_grammar _).1 ⟨.piecewise [(.sym "x", .const .nan)], rfl⟩,
    (ofJson_decides_grammar _).2.1
      ⟨.inPiece 0 (.notObject "piecewise" "cond"), rfl, rfl⟩⟩

end Expr

end ExprCompiler
