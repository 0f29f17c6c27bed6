import ExprCompiler.Proofs.Expr.Folding
import ExprCompiler.Proofs.Expr.Normal
import ExprCompiler.Proofs.Expr.Wire

/-!
# Where reading a document faults

Every constructor but that of applications has an outcome, and an application lacks one only as
the logarithm of an exponential without arguments (`Expr.funcOf_eq_error_iff`). No power divides by
zero (`Expr.powOf?_eq_some`). A document is read part by part and in order, so it faults where the
first of its parts does or where it is such a logarithm itself (`Expr.faults_ofJson_iff`, one
step); by induction on the document, reading faults if and only if it gets to one
(`Expr.ofJson_faults_iff`).
-/

namespace ExprCompiler.Expr

open ExprCompiler.Expr.Part (last?)

/-! ## Applications -/

/-- Simplification faults only on the logarithm of an exponential of nothing. -/
theorem identity?_eq_error_iff {name : String} {arg : Expr} {f : Fault} :
    identity? name arg = .error f ↔ name = "log" ∧ arg = .func "exp" [] ∧ f = .index 0 0 := by
  constructor
  · intro h
    unfold identity? at h
    split at h
    · cases h
    · split at h
      · rename_i hnames
        split at h
        · cases h
          simpa using hnames
        · cases h
      · repeat' split at h
        all_goals cases h
    · cases h
  · rintro ⟨rfl, rfl, rfl⟩
    rfl

/-- An application has an outcome unless it is the logarithm of an exponential without arguments. -/
theorem funcOf_eq_error_iff {name : String} {args : List Expr} {f : Fault} :
    funcOf name args = .error f ↔ name = "log" ∧ args = [.func "exp" []] ∧ f = .index 0 0 := by
  unfold funcOf
  split
  · simp [Outcome.bind_eq_error, identity?_eq_error_iff]
  · rename_i hone
    constructor
    · intro h
      cases h
    · rintro ⟨-, hargs, -⟩
      exact absurd hargs (hone _)

/-! ## Powers -/

/-- The reciprocal, which zero does not have. -/
def reciprocal? (q : Rat) : Option Rat := if q = 0 then none else some (1 / q)

/-- `ratPower` with its reciprocal checked. -/
def ratPower? (q : Rat) (e : Int) : Option Rat :=
  let p := (List.replicate e.natAbs q).foldl (· * ·) 1
  if e < 0 then reciprocal? p else some p

/-- `powOf` with its reciprocals checked. -/
def powOf? (base exponent : Expr) : Option Expr :=
  match exponent with
  | .num e =>
    if e == 0 then some (.num 1)
    else if e == 1 then some base
    else
      match base with
      | .num b =>
        if b == 0 then some (if e < 0 then .pow base exponent else .num 0)
        else if b == 1 then some (.num 1)
        else
          let w := lowWord e.num
          if e.den == 1 && -20 ≤ w && w ≤ 20 then (ratPower? b w).map .num
          else some (.pow base exponent)
      | .pow b inner => powOf? b (mulOf [inner, exponent])
      | _ => some (.pow base exponent)
  | _ =>
    match base with
    | .num b => some (if b == 0 then .num 0 else if b == 1 then .num 1 else .pow base exponent)
    | _ => some (.pow base exponent)

/-- A rational that is not zero has every whole power. -/
theorem ratPower?_eq_some {q : ℚ} (hq : q ≠ 0) (e : ℤ) : ratPower? q e = some (ratPower q e) := by
  have hproduct : (List.replicate e.natAbs q).foldl (· * ·) 1 ≠ 0 := by
    rw [← List.prod_eq_foldl, List.prod_replicate]
    exact pow_ne_zero _ hq
  simp only [ratPower?, ratPower, reciprocal?, if_neg hproduct]
  split <;> rfl

/-- No power takes the reciprocal of zero. -/
theorem powOf?_eq_some (b x : Expr) : powOf? b x = some (powOf b x) := by
  fun_induction powOf b x with
  | case1 b q hq =>
      rw [powOf?.eq_def]
      simp only [if_pos hq]
  | case2 b q hq hq' =>
      rw [powOf?.eq_def]
      simp only [if_neg hq, if_pos hq']
  | case6 q hq hq' p hp hp' w hw =>
      have hzero : p ≠ 0 := by simpa using hp
      rw [powOf?, if_neg hq, if_neg hq', if_neg hp, if_neg hp', if_pos hw,
        ratPower?_eq_some hzero, Option.map_some]
  | case7 q hq hq' p hp hp' w hw =>
      rw [powOf?, if_neg hq, if_neg hq', if_neg hp, if_neg hp', if_neg hw]
  | _ => simp_all [powOf?]

/-! ## Outcomes of reading -/

section Outcomes

variable {α β : Type} {f : Fault}

/-- Whether reading came to a fault, however deep it arose. -/
def Faults (f : Fault) (x : Except WireError α) : Prop :=
  ∃ err, x = .error err ∧ err.fault? = some f

theorem not_faults_ok (a : α) : ¬Faults f (.ok a) := by
  rintro ⟨err, h, -⟩
  cases h

/-- A cause that is no fault. -/
theorem not_faults_error {err : WireError} (h : err.fault? = none) :
    ¬Faults f (.error err : Except WireError α) := by
  rintro ⟨err', herr, hf⟩
  cases herr
  rw [h] at hf
  cases hf

/-- A fault comes from the first step, or from the second after the first. -/
theorem faults_bind {x : Except WireError α} {k : α → Except WireError β} :
    Faults f (x >>= k) ↔ Faults f x ∨ ∃ a, x = .ok a ∧ Faults f (k a) := by
  cases x with
  | error err => simp [Faults]
  | ok a => simp [not_faults_ok]

/-- Faults do not depend on how other errors are worded. -/
theorem faults_mapError {x : Except WireError α} {g : WireError → WireError}
    (hg : ∀ err, (g err).fault? = err.fault?) : Faults f (x.mapError g) ↔ Faults f x := by
  cases x with
  | error err => simp [Faults, Except.mapError, hg]
  | ok a => exact iff_of_false (not_faults_ok a) (not_faults_ok a)

end Outcomes

/-! ## Documents -/

section Fields

variable {f : Fault} {j : Json} {type field : String}

/-- What is no object is refused without a fault. -/
theorem not_faults_ofJson (h : j.isObject = false) : ¬Faults f (ofJson j) := by
  cases j with
  | object fields => cases h
  | _ => exact not_faults_error rfl

/-- Reading the expression in a field faults where reading the document in the field does. -/
theorem faults_expr :
    Faults f (Part.expr type field (partsIn j)) ↔
      ∃ d, j.get? field = some d ∧ Faults f (ofJson d) := by
  have hwrap (err : WireError) : (WireError.inField type field err).fault? = err.fault? := rfl
  rw [Part.expr, last?_partsIn]
  cases j.get? field with
  | none => exact iff_of_false (not_faults_error rfl) (by simp)
  | some d =>
      simp only [Option.map_some, Option.some.injEq, exists_eq_left']
      cases d with
      | object fields => exact faults_mapError hwrap
      | _ => exact iff_of_false (not_faults_error rfl) (not_faults_ofJson rfl)

theorem not_faults_string : ¬Faults f (Part.string type field (partsIn j)) := by
  rw [Part.string, last?_partsIn]
  cases j.get? field with
  | none => exact not_faults_error rfl
  | some d =>
      cases d with
      | string t =>
          simp only [partOf, Option.map_some]
          split
          · exact not_faults_error rfl
          · exact not_faults_ok t
      | _ => exact not_faults_error rfl

end Fields

/-! ## Documents in order -/

/-- Whether one of the documents faults when they are read in order, those before it being
expressions. -/
def FaultsInOrder (f : Fault) (js : List Json) : Prop :=
  ∃ before d after, js = before ++ d :: after ∧ (∀ b ∈ before, ∃ e, ofJson b = .ok e) ∧
    Faults f (ofJson d)

/-- The documents up to the first that is missing or no object. -/
def leading : List (Option Json) → List Json
  | some d :: rest => if d.isObject then d :: leading rest else []
  | _ => []

/-- The items of an array in a field, if all of them are objects. -/
def objectsIn (field : String) (j : Json) : List Json :=
  match j.get? field with
  | some (.array items) => if items.all Json.isObject then items else []
  | _ => []

section Order

variable {f : Fault} {j : Json} {js : List Json} {type field : String}

theorem not_faultsInOrder_nil : ¬FaultsInOrder f [] := by
  rintro ⟨before, d, after, h, -⟩
  simp at h

/-- A fault comes from the first document, or from a later one if the first is read. -/
theorem faultsInOrder_cons {d : Json} :
    FaultsInOrder f (d :: js) ↔
      Faults f (ofJson d) ∨ (∃ e, ofJson d = .ok e) ∧ FaultsInOrder f js := by
  constructor
  · rintro ⟨before, x, after, hjs, hbefore, hx⟩
    cases before with
    | nil =>
        obtain ⟨rfl, rfl⟩ := List.cons.inj hjs
        exact .inl hx
    | cons b before =>
        obtain ⟨rfl, rfl⟩ := List.cons.inj hjs
        obtain ⟨hd, hbefore⟩ := List.forall_mem_cons.1 hbefore
        exact .inr ⟨hd, before, x, after, rfl, hbefore, hx⟩
  · rintro (hd | ⟨hd, before, x, after, rfl, hbefore, hx⟩)
    · exact ⟨[], d, js, rfl, by simp, hd⟩
    · exact ⟨d :: before, x, after, rfl, List.forall_mem_cons.2 ⟨hd, hbefore⟩, hx⟩

/-- A step that reads an optional document before the rest are read. -/
theorem faults_bind_leading {α : Type} {x : Except WireError Expr} {k : Expr → Except WireError α}
    {o : Option Json} {rest : List (Option Json)}
    (hfault : Faults f x ↔ ∃ d, o = some d ∧ Faults f (ofJson d))
    (hok : ∀ e, x = .ok e ↔ ∃ d, o = some d ∧ ofJson d = .ok e)
    (hrest : ∀ e, Faults f (k e) ↔ FaultsInOrder f (leading rest)) :
    Faults f (x >>= k) ↔ FaultsInOrder f (leading (o :: rest)) := by
  simp only [faults_bind, hfault, hok, hrest]
  cases o with
  | none => simp [leading, not_faultsInOrder_nil]
  | some d =>
      cases hd : d.isObject with
      | true => simp [leading, hd, faultsInOrder_cons]
      | false =>
          have herror (e : Expr) : ofJson d ≠ .ok e := by
            cases d with
            | object fields => cases hd
            | _ => simp [ofJson, partOf]
          simp [leading, hd, not_faultsInOrder_nil, not_faults_ofJson hd, herror]

theorem not_faults_objectsFrom {i : Nat} :
    ¬Faults f (Part.objectsFrom type field i (js.map partOf)) := by
  induction js generalizing i with
  | nil => exact not_faults_ok _
  | cons d js ih =>
      cases d with
      | object fields =>
          simp [partOf, Part.objectsFrom, faults_bind, ih, not_faults_ok]
      | _ => exact not_faults_error rfl

theorem not_faults_objects : ¬Faults f (Part.objects type field (partsIn j)) := by
  rw [Part.objects, last?_partsIn]
  cases j.get? field with
  | none => exact not_faults_error rfl
  | some d =>
      cases d with
      | array items => simp [partOf, partsOfItems_eq_map, not_faults_objectsFrom]
      | _ => exact not_faults_error rfl

/-- A step over the objects in a field faults where it does on the items. -/
theorem faults_objects_bind {α : Type} {k : List Part.Object → Except WireError α}
    {P : List Json → Prop} (hk : ∀ js, Faults f (k (js.map objectOf)) ↔ P js) (hnil : ¬P []) :
    Faults f (Part.objects type field (partsIn j) >>= k) ↔ P (objectsIn field j) := by
  simp only [faults_bind, not_faults_objects, objects_eq_ok_iff, false_or]
  constructor
  · rintro ⟨_, ⟨js, hjs, hall, rfl⟩, h⟩
    rw [objectsIn, hjs]
    simpa only [hall, if_true] using (hk js).1 h
  · intro h
    unfold objectsIn at h
    split at h
    · rename_i js hjs
      split at h
      · rename_i hall
        exact ⟨_, ⟨js, hjs, hall, rfl⟩, (hk js).2 h⟩
      · exact absurd h hnil
    · exact absurd h hnil

/-- Reading expressions in turn faults as the documents do in order. -/
theorem faults_exprsFrom {i : Nat} :
    Faults f (Part.exprsFrom type field i (js.map objectOf)) ↔ FaultsInOrder f js := by
  induction js generalizing i with
  | nil => exact iff_of_false (not_faults_ok _) not_faultsInOrder_nil
  | cons d js ih =>
      have hwrap (err : WireError) : (WireError.inItem type field i err).fault? = err.fault? := rfl
      simp only [List.map_cons, objectOf, Part.exprsFrom, faults_bind, faults_mapError hwrap,
        Outcome.mapError_eq_ok, faultsInOrder_cons]
      simp [ih, not_faults_ok]

/-- A field of expressions faults as its objects do in order. -/
theorem faults_exprs :
    Faults f (Part.exprs type field (partsIn j)) ↔ FaultsInOrder f (objectsIn field j) :=
  faults_objects_bind (fun _ ↦ faults_exprsFrom) not_faultsInOrder_nil

/-- Reading pieces in turn faults in a value or a condition. -/
theorem faults_piecesFrom {i : Nat} :
    Faults f (Part.piecesFrom type i (js.map objectOf)) ↔
      FaultsInOrder f (leading (js.flatMap fun p ↦ [p.get? "expr", p.get? "cond"])) := by
  have hwrap (i : Nat) (err : WireError) : (WireError.inPiece i err).fault? = err.fault? := rfl
  induction js generalizing i with
  | nil => exact iff_of_false (not_faults_ok _) not_faultsInOrder_nil
  | cons d js ih =>
      simp only [List.map_cons, objectOf, Part.piecesFrom, List.flatMap_cons, List.cons_append,
        List.nil_append]
      refine faults_bind_leading ?_ ?_ fun e ↦ faults_bind_leading ?_ ?_ fun c ↦ ?_
      · rw [faults_mapError (hwrap i), faults_expr]
      · simp [Outcome.mapError_eq_ok, expr_eq_ok_iff]
      · rw [faults_mapError (hwrap i), faults_expr]
      · simp [Outcome.mapError_eq_ok, expr_eq_ok_iff]
      · simp [faults_bind, ih, not_faults_ok]

/-- The field of pieces faults as their values and conditions do in order. -/
theorem faults_pieces :
    Faults f (Part.pieces type (partsIn j)) ↔
      FaultsInOrder f (leading ((objectsIn "pieces" j).flatMap fun p ↦
        [p.get? "expr", p.get? "cond"])) :=
  faults_objects_bind
    (P := fun js ↦ FaultsInOrder f (leading (js.flatMap fun p ↦ [p.get? "expr", p.get? "cond"])))
    (fun _ ↦ faults_piecesFrom) not_faultsInOrder_nil

end Order

/-! ## Where reading faults -/

/-- The documents that are read for the parts of an object, in order. -/
def subdocuments (j : Json) : List Json :=
  match textIn "type" j with
  | some "add" => objectsIn "terms" j
  | some "mul" => objectsIn "factors" j
  | some "pow" => leading [j.get? "base", j.get? "exp"]
  | some "func" => if (textIn "name" j).isSome then objectsIn "args" j else []
  | some "rel" => if (textIn "op" j).isSome then leading [j.get? "lhs", j.get? "rhs"] else []
  | some "piecewise" =>
    leading ((objectsIn "pieces" j).flatMap fun p ↦ [p.get? "expr", p.get? "cond"])
  | _ => []

/-- Whether an object applies the logarithm to an exponential without arguments. -/
def IsBareLogarithm (j : Json) : Prop :=
  j.get? "type" = some (.string "func") ∧ j.get? "name" = some (.string "log") ∧
    ∃ d, j.get? "args" = some (.array [d]) ∧ ofJson d = .ok (.func "exp" [])

section Steps

variable {f : Fault} {j : Json}

theorem IsBareLogarithm.textIn (h : IsBareLogarithm j) :
    Expr.textIn "type" j = some "func" ∧ Expr.textIn "name" j = some "log" :=
  ⟨textIn_eq_some.2 ⟨h.1, by decide⟩, textIn_eq_some.2 ⟨h.2.1, by decide⟩⟩

/-- An object without a type is no expression, and reading it finds that out at once. -/
theorem not_faults_of_textIn (h : textIn "type" j = none) : ¬Faults f (ofJson j) := by
  cases j with
  | object fields =>
      rw [textIn] at h
      simp only [ofJson, partOf, Part.ofParts]
      have hlast := last?_partsIn "type" (.object fields)
      rw [partsIn] at hlast
      rw [hlast]
      cases hget : (Json.object fields).get? "type" with
      | none => exact not_faults_error rfl
      | some d =>
          cases d with
          | string t =>
              rw [hget] at h
              have hempty : t.isEmpty = true := by simpa using h
              simpa [partOf, hempty] using not_faults_error rfl
          | _ => exact not_faults_error rfl
  | _ => exact not_faults_ofJson rfl

/-- After a field of text only what uses the text faults. -/
theorem faults_string_bind {α : Type} {type field : String} {k : String → Except WireError α} :
    Faults f (Part.string type field (partsIn j) >>= k) ↔
      ∃ s, textIn field j = some s ∧ Faults f (k s) := by
  simp only [faults_bind, not_faults_string, string_eq_ok_iff, false_or]

theorem not_faults_string_bind {α : Type} {type field : String} {k : String → Except WireError α}
    (hk : ∀ s, ¬Faults f (k s)) : ¬Faults f (Part.string type field (partsIn j) >>= k) := by
  intro h
  obtain ⟨s, -, h⟩ := faults_string_bind.1 h
  exact hk s h

/-- A step over the expressions in two fields that does not fault itself. -/
theorem faults_expr_expr_bind {α : Type} {type field field' : String}
    {k : Expr → Expr → Except WireError α} (hk : ∀ a b, ¬Faults f (k a b)) :
    Faults f (do
        let a ← Part.expr type field (partsIn j)
        let b ← Part.expr type field' (partsIn j)
        k a b) ↔
      FaultsInOrder f (leading [j.get? field, j.get? field']) :=
  faults_bind_leading faults_expr (fun _ ↦ expr_eq_ok_iff) fun a ↦
    faults_bind_leading faults_expr (fun _ ↦ expr_eq_ok_iff) fun b ↦
      iff_of_false (hk a b) not_faultsInOrder_nil

/-- The constructor of functions faults only on the logarithm of an exponential of nothing. -/
theorem faults_funcOf {name : String} {es : List Expr} :
    Faults f ((funcOf name es).mapError .fault) ↔
      name = "log" ∧ es = [.func "exp" []] ∧ f = .index 0 0 := by
  rw [← funcOf_eq_error_iff]
  cases funcOf name es with
  | error g => simp [Faults, Except.mapError, WireError.fault?]
  | ok e => simp [Faults, Except.mapError]

/-- The document of a bare logarithm, by what its fields are read as. -/
theorem isBareLogarithm_iff {name : String} (htype : textIn "type" j = some "func")
    (hname : textIn "name" j = some name) :
    IsBareLogarithm j ↔
      name = "log" ∧ Part.exprs "func" "args" (partsIn j) = .ok [.func "exp" []] := by
  constructor
  · intro h
    refine ⟨Option.some.inj (hname.symm.trans h.textIn.2), exprs_eq_ok_iff.2 ?_⟩
    obtain ⟨-, -, d, hd, hexp⟩ := h
    exact ⟨[d], hd, .cons hexp .nil⟩
  · rintro ⟨rfl, hargs⟩
    refine ⟨(textIn_eq_some.1 htype).1, (textIn_eq_some.1 hname).1, ?_⟩
    obtain ⟨js, hjs, hall⟩ := exprs_eq_ok_iff.1 hargs
    obtain ⟨d, rest, hd, hrest, rfl⟩ := List.forall₂_cons_right_iff.1 hall
    obtain rfl := List.forall₂_nil_right_iff.1 hrest
    exact ⟨d, hjs, hd⟩

/-- Reading an application faults at an argument, or because it is a bare logarithm. -/
theorem faults_build_func (htype : textIn "type" j = some "func") :
    Faults f (Part.build "func" (partsIn j)) ↔
      FaultsInOrder f (if (textIn "name" j).isSome then objectsIn "args" j else []) ∨
        f = .index 0 0 ∧ IsBareLogarithm j := by
  change Faults f (Part.string "func" "name" (partsIn j) >>= _) ↔ _
  rw [faults_string_bind]
  cases hname : textIn "name" j with
  | none =>
      have hbare : ¬IsBareLogarithm j := by
        intro h
        rw [h.textIn.2] at hname
        cases hname
      simp [not_faultsInOrder_nil, hbare]
  | some name =>
      simp only [Option.some.injEq, exists_eq_left', faults_bind, faults_exprs, faults_funcOf,
        isBareLogarithm_iff htype hname, Option.isSome_some, if_true]
      refine or_congr_right ?_
      constructor
      · rintro ⟨_, hargs, hname, rfl, hf⟩
        exact ⟨hf, hname, hargs⟩
      · rintro ⟨hf, hname, hargs⟩
        exact ⟨_, hargs, hname, rfl, hf⟩

/-- A node faults in a subdocument, or as a bare logarithm. -/
theorem faults_build {type : String} (htype : textIn "type" j = some type) :
    Faults f (Part.build type (partsIn j)) ↔
      FaultsInOrder f (subdocuments j) ∨ f = .index 0 0 ∧ IsBareLogarithm j := by
  have hbare : type ≠ "func" → ¬IsBareLogarithm j := by
    rintro hne h
    exact hne (Option.some.inj (htype.symm.trans h.textIn.1))
  by_cases hfunc : type = "func"
  · subst hfunc
    simp only [faults_build_func htype, subdocuments, htype]
  rw [or_iff_left fun h ↦ hbare hfunc h.2]
  have hleaf {x : Except WireError Expr} (hx : ¬Faults f x) (hsub : subdocuments j = []) :
      Faults f x ↔ FaultsInOrder f (subdocuments j) := by
    rw [hsub]
    exact iff_of_false hx not_faultsInOrder_nil
  unfold Part.build
  split
  -- Numbers, symbols, constants and atoms hold no documents.
  · refine hleaf (not_faults_string_bind fun text ↦ ?_) (by simp [subdocuments, htype])
    split
    · exact not_faults_ok _
    · exact not_faults_error rfl
  · refine hleaf ?_ (by simp [subdocuments, htype])
    split
    · exact not_faults_ok _
    · exact not_faults_error rfl
  · exact hleaf (not_faults_string_bind fun _ ↦ not_faults_ok _) (by simp [subdocuments, htype])
  · refine hleaf (not_faults_string_bind fun name ↦ ?_) (by simp [subdocuments, htype])
    split
    · exact not_faults_ok _
    · exact not_faults_error rfl
  · refine hleaf (not_faults_string_bind fun tag ↦ ?_) (by simp [subdocuments, htype])
    exact not_faults_string_bind fun _ ↦ not_faults_ok _
  · simp [subdocuments, htype, faults_bind, faults_exprs, not_faults_ok]
  · simp [subdocuments, htype, faults_bind, faults_exprs, not_faults_ok]
  · have hsub : subdocuments j = leading [j.get? "base", j.get? "exp"] := by
      simp [subdocuments, htype]
    rw [hsub]
    exact faults_expr_expr_bind fun _ _ ↦ not_faults_ok _
  · exact absurd rfl hfunc
  · have hsub : subdocuments j =
        if (textIn "op" j).isSome then leading [j.get? "lhs", j.get? "rhs"] else [] := by
      simp [subdocuments, htype]
    rw [hsub, faults_string_bind]
    cases textIn "op" j with
    | none => simp [not_faultsInOrder_nil]
    | some op =>
        simp only [Option.some.injEq, exists_eq_left', Option.isSome_some, if_true]
        refine faults_expr_expr_bind fun lhs rhs ↦ ?_
        split
        · exact not_faults_ok _
        · exact not_faults_error rfl
  · simp [subdocuments, htype, faults_bind, faults_pieces, not_faults_ok]
  · refine hleaf (not_faults_error rfl) ?_
    rw [subdocuments, htype]
    split <;> simp_all

/-- A document faults in a subdocument, or as a bare logarithm. -/
theorem faults_ofJson_iff :
    Faults f (ofJson j) ↔
      FaultsInOrder f (subdocuments j) ∨ f = .index 0 0 ∧ IsBareLogarithm j := by
  cases htype : textIn "type" j with
  | none =>
      have hbare : ¬IsBareLogarithm j := by
        intro h
        rw [h.textIn.1] at htype
        cases htype
      have hnil : subdocuments j = [] := by rw [subdocuments, htype]
      simp [not_faults_of_textIn htype, hnil, not_faultsInOrder_nil, hbare]
  | some type =>
      obtain ⟨hget, hne⟩ := textIn_eq_some.1 htype
      rw [ofJson_of_type hget hne]
      exact faults_build htype

end Steps

/-- What reading a document comes to: the document itself, and what is reached from those read for
its parts, once all before it are found to be expressions. -/
inductive Reaches : Json → Json → Prop
  | here {j : Json} : Reaches j j
  | inside {j d x : Json} {before after : List Json} (split : subdocuments j = before ++ d :: after)
      (read : ∀ b ∈ before, ∃ e, ofJson b = .ok e) (rest : Reaches d x) : Reaches j x

section Sizes

variable {j d : Json} {field : String}

/-- What one of two fields holds is smaller. -/
theorem sizeOf_lt_of_some_mem {field' : String} (h : some d ∈ [j.get? field, j.get? field']) :
    sizeOf d < sizeOf j := by
  simp only [List.mem_cons, List.not_mem_nil, or_false] at h
  rcases h with h | h
  · exact sizeOf_lt_of_get? h.symm
  · exact sizeOf_lt_of_get? h.symm

theorem sizeOf_lt_of_mem_objectsIn (h : d ∈ objectsIn field j) : sizeOf d < sizeOf j := by
  unfold objectsIn at h
  split at h
  · rename_i items hitems
    split at h
    · exact sizeOf_lt_of_mem_array hitems h
    · cases h
  · cases h

theorem mem_of_mem_leading {os : List (Option Json)} (h : d ∈ leading os) : some d ∈ os := by
  fun_induction leading os with
  | case1 x rest hx ih =>
      rcases List.mem_cons.1 h with rfl | h
      · exact List.mem_cons_self
      · exact List.mem_cons_of_mem _ (ih h)
  | case2 => cases h
  | case3 => cases h

theorem sizeOf_lt_of_mem_subdocuments (h : d ∈ subdocuments j) : sizeOf d < sizeOf j := by
  unfold subdocuments at h
  split at h
  · exact sizeOf_lt_of_mem_objectsIn h
  · exact sizeOf_lt_of_mem_objectsIn h
  · exact sizeOf_lt_of_some_mem (mem_of_mem_leading h)
  · split at h
    · exact sizeOf_lt_of_mem_objectsIn h
    · cases h
  · split at h
    · exact sizeOf_lt_of_some_mem (mem_of_mem_leading h)
    · cases h
  · obtain ⟨p, hp, hmem⟩ := List.mem_flatMap.1 (mem_of_mem_leading h)
    exact (sizeOf_lt_of_some_mem hmem).trans (sizeOf_lt_of_mem_objectsIn hp)
  · cases h

end Sizes

/-- Behind every fault there is a bare logarithm that the reader comes to. -/
theorem exists_reaches_of_faults {j : Json} {f : Fault} (h : Faults f (ofJson j)) :
    f = .index 0 0 ∧ ∃ d, Reaches j d ∧ IsBareLogarithm d := by
  rcases faults_ofJson_iff.1 h with ⟨before, d, after, hsub, hbefore, hd⟩ | ⟨hf, hj⟩
  · have hlt : sizeOf d < sizeOf j := sizeOf_lt_of_mem_subdocuments (by simp [hsub])
    obtain ⟨hf, x, hx, hbare⟩ := exists_reaches_of_faults hd
    exact ⟨hf, x, .inside hsub hbefore hx, hbare⟩
  · exact ⟨hf, j, .here, hj⟩
termination_by sizeOf j

/-- A bare logarithm that the reader comes to makes it fault. -/
theorem Reaches.faults {j d : Json} (h : Reaches j d) (hd : IsBareLogarithm d) :
    Faults (.index 0 0) (ofJson j) := by
  induction h with
  | here => exact faults_ofJson_iff.2 (.inr ⟨rfl, hd⟩)
  | inside split read _ ih => exact faults_ofJson_iff.2 (.inl ⟨_, _, _, split, read, ih hd⟩)

/-- Reading a document comes to an expression or a cause why it is none, unless it gets to the
logarithm of an exponential without arguments; there, and nowhere else, it faults, asking for the
first of no arguments. No power that is built on the way takes the reciprocal of zero. -/
theorem ofJson_faults_iff (j : Json) (f : Fault) :
    ((∃ err, ofJson j = .error err ∧ err.fault? = some f) ↔
        f = .index 0 0 ∧ ∃ d, Reaches j d ∧ IsBareLogarithm d) ∧
      ∀ b x, powOf? b x = some (powOf b x) := by
  refine ⟨⟨exists_reaches_of_faults, ?_⟩, powOf?_eq_some⟩
  rintro ⟨rfl, d, hreaches, hd⟩
  exact hreaches.faults hd

/-- The document of the logarithm of an exponential without arguments. -/
def bareLogarithm : Json :=
  .object [("type", .string "func"), ("name", .string "log"),
    ("args", .array [.object
      [("type", .string "func"), ("name", .string "exp"), ("args", .array [])]])]

theorem ofJson_bareLogarithm : ofJson bareLogarithm = .error (.fault (.index 0 0)) :=
  rfl

end ExprCompiler.Expr
