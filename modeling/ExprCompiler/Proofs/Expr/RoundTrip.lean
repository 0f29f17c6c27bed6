import ExprCompiler.Proofs.Expr.Constructed
import ExprCompiler.Proofs.Expr.Settled
import ExprCompiler.Proofs.Numeral.Spelling

/-!
# Expressions through their documents

An expression that is written and read again is built anew from its parts, and a second trip
changes nothing more. Only the reader's limit on how deep documents are nested stands in the way.
Main statements: the document of an expression is read as the expression built anew
(`Expr.ofJson_toJson`), and so is its text (`Expr.parse_toJson_write`).
-/

namespace ExprCompiler.Expr

variable {Named : String → Prop} {e : Expr} {es : List Expr}

/-! ## Lists of documents -/

theorem toJsonAll_eq_map (es : List Expr) : toJsonAll es = es.map toJson := by
  induction es with
  | nil => rfl
  | cons e es ih => rw [toJsonAll, ih, List.map_cons]

theorem toJsonPieces_eq_map (ps : List (Expr × Expr)) :
    toJsonPieces ps =
      ps.map fun p ↦ .object [("cond", toJson p.2), ("expr", toJson p.1)] := by
  induction ps with
  | nil => rfl
  | cons p ps ih => rw [toJsonPieces, ih, List.map_cons]

theorem unwritableAll?_eq_none : unwritableAll? es = none ↔ ∀ e ∈ es, unwritable? e = none := by
  induction es with
  | nil => simp [unwritableAll?]
  | cons e es ih => rw [unwritableAll?, Option.or_eq_none_iff, ih, List.forall_mem_cons]

theorem unwritablePieces?_eq_none {ps : List (Expr × Expr)} :
    unwritablePieces? ps = none ↔
      (∀ p ∈ ps, unwritable? p.1 = none) ∧ ∀ p ∈ ps, unwritable? p.2 = none := by
  induction ps with
  | nil => simp [unwritablePieces?]
  | cons p ps ih =>
      rw [unwritablePieces?, Option.or_eq_none_iff, Option.or_eq_none_iff, ih, List.forall_mem_cons,
        List.forall_mem_cons]
      tauto

/-- A double is written if it is finite. -/
theorem unwritable?_float {x : Float} :
    unwritable? (.float x) = none ↔ x.isNaN = false ∧ x.isInf = false := by
  rw [unwritable?]
  cases x.isNaN <;> cases x.isInf <;> simp

theorem noNaN_of_unwritable? (h : ∀ e ∈ es, unwritable? e = none) : NoNaN es :=
  fun _ hx ↦ (unwritable?_float.1 (h _ hx)).1

/-- The parts of an expression that is written are written. -/
theorem unwritable?_of_mem_args {a : Expr} (h : unwritable? e = none) (ha : a ∈ e.args) :
    unwritable? a = none := by
  cases e with
  | add ts | mul ts | func name ts => exact unwritableAll?_eq_none.1 h a ha
  | pow b x | rel op b x =>
      obtain ⟨hb, hx⟩ := Option.or_eq_none_iff.1 h
      rcases List.mem_pair.1 ha with rfl | rfl
      · exact hb
      · exact hx
  | pair v c =>
      obtain ⟨hc, hv⟩ := Option.or_eq_none_iff.1 h
      rcases List.mem_pair.1 ha with rfl | rfl
      · exact hv
      · exact hc
  | piecewise ps =>
      obtain ⟨hvalues, hconditions⟩ := unwritablePieces?_eq_none.1 h
      obtain ⟨p, hp, rfl⟩ := List.mem_map.1 ha
      exact Option.or_eq_none_iff.2 ⟨hconditions p hp, hvalues p hp⟩
  | _ => cases ha

/-- An expression that can be written has no NaN. -/
theorem everywhere_isProper_of_unwritable? (h : unwritable? e = none) : e.Everywhere IsProper := by
  intro p x hx
  induction hx with
  | here =>
      intro y hy
      rw [hy] at h
      exact (unwritable?_float.1 h).1
  | child get _ ih => exact ih (unwritable?_of_mem_args h (List.mem_of_getElem? get))

/-- A normal expression that is written is the same as itself. -/
theorem same_self (h : Normal Named e) (hw : unwritable? e = none) : same e e = true :=
  h.same_self (everywhere_isProper_of_unwritable? hw)

/-- Building anew brings in no number that documents cannot hold. -/
theorem unwritable?_settled (h : Normal Named e) (hw : unwritable? e = none) :
    unwritable? (settled e) = none := by
  induction h with
  | num | float | sym | const | atom => exact hw
  | add _ _ ih =>
      rw [unwritable?, unwritableAll?_eq_none] at hw
      rw [settled, unwritable?, unwritableAll?_eq_none, settledAll_eq_map]
      intro f hf
      obtain ⟨t, ht, rfl⟩ := List.mem_map.1 (mem_arranged.1 hf)
      exact ih t ht (hw t ht)
  | mul _ _ ih =>
      rw [unwritable?, unwritableAll?_eq_none] at hw
      rw [settled, unwritable?, unwritableAll?_eq_none, settledAll_eq_map]
      intro f hf
      obtain ⟨t, ht, rfl⟩ := List.mem_map.1 (mem_ranked.1 hf)
      exact ih t ht (hw t ht)
  | pow _ _ _ ihb ihx =>
      rw [unwritable?, Option.or_eq_none_iff] at hw
      rw [settled, unwritable?, Option.or_eq_none_iff]
      exact ⟨ihb hw.1, ihx hw.2⟩
  | func _ _ _ ih =>
      rw [unwritable?, unwritableAll?_eq_none] at hw
      rw [settled, unwritable?, unwritableAll?_eq_none, settledAll_eq_map]
      exact List.forall_mem_map.2 fun a ha ↦ ih a ha (hw a ha)
  | rel _ _ _ ihl ihr =>
      rw [unwritable?, Option.or_eq_none_iff] at hw
      rw [settled, unwritable?, Option.or_eq_none_iff]
      exact ⟨ihl hw.1, ihr hw.2⟩
  | piecewise _ _ ihv ihc =>
      rw [unwritable?, unwritablePieces?_eq_none] at hw
      rw [settled, unwritable?, unwritablePieces?_eq_none, settledPieces_eq_map]
      exact ⟨List.forall_mem_map.2 fun p hp ↦ ihv p hp (hw.1 p hp),
        List.forall_mem_map.2 fun p hp ↦ ihc p hp (hw.2 p hp)⟩

/-- The document of a normal expression is read as the expression built anew. -/
theorem ofJson_toJson (h : Normal (· ≠ "") e) (hw : unwritable? e = none) :
    ofJson (toJson e) = .ok (settled e) := by
  have hall {es : List Expr} (hes : ∀ e ∈ es, unwritable? e = none)
      (ih : ∀ e ∈ es, unwritable? e = none → ofJson (toJson e) = .ok (settled e)) :
      List.Forall₂ (fun j e ↦ ofJson j = .ok e) (es.map toJson) (es.map settled) := by
    rw [List.forall₂_map_left_iff, List.forall₂_map_right_iff, List.forall₂_same]
    exact fun e he ↦ ih e he (hes e he)
  induction h with
  | num q =>
      have hq := Numeral.readRat?_ratText q
      refine ofJson_num rfl rfl ?_ hq
      intro hempty
      rw [hempty] at hq
      cases hq
  | float x =>
      obtain ⟨hnan, hinf⟩ := unwritable?_float.1 hw
      exact ofJson_float rfl rfl (Numeral.readFloat_document hnan hinf)
  | sym hname => exact ofJson_sym rfl rfl hname
  | add shape _ ih =>
      rw [unwritable?, unwritableAll?_eq_none] at hw
      rw [← addOf_settled shape.toSumShape (noNaN_of_unwritable? hw), toJson, toJsonAll_eq_map]
      exact ofJson_add rfl rfl (hall hw ih)
  | mul shape _ ih =>
      rw [unwritable?, unwritableAll?_eq_none] at hw
      rw [← mulOf_settled shape (noNaN_of_unwritable? hw), toJson, toJsonAll_eq_map]
      exact ofJson_mul rfl rfl (hall hw ih)
  | pow shape _ _ ihb ihx =>
      rw [unwritable?, Option.or_eq_none_iff] at hw
      rw [← powOf_settled shape]
      exact ofJson_pow rfl rfl rfl (ihb hw.1) (ihx hw.2)
  | func hname kept _ ih =>
      rw [unwritable?, unwritableAll?_eq_none] at hw
      rw [toJson, toJsonAll_eq_map]
      exact ofJson_func rfl rfl rfl hname (hall hw ih) (funcOf_settled kept)
  | const c => exact ofJson_const rfl rfl
  | rel op _ _ ihl ihr =>
      rw [unwritable?, Option.or_eq_none_iff] at hw
      exact ofJson_rel rfl rfl rfl rfl (ihl hw.1) (ihr hw.2)
  | @piecewise ps _ _ ihv ihc =>
      rw [unwritable?, unwritablePieces?_eq_none] at hw
      rw [toJson, toJsonPieces_eq_map, settled, settledPieces_eq_map]
      refine ofJson_piecewise rfl rfl ?_
      rw [List.forall₂_map_left_iff, List.forall₂_map_right_iff, List.forall₂_same]
      exact fun p hp ↦ ⟨_, _, rfl, rfl, ihv p hp (hw.1 p hp), ihc p hp (hw.2 p hp)⟩
  | atom htag hname => exact ofJson_atom rfl rfl rfl htag hname

/-! ## Texts -/

/-- Whether the numbers of a document are numbers of the grammar, and doubles. -/
def Legible (j : Json) : Prop := j.numeric = true ∧ j.inRange = true

theorem legible_array {js : List Json} (h : ∀ j ∈ js, Legible j) : Legible (.array js) := by
  rw [Legible, Json.numeric, Json.inRange]
  induction js with
  | nil => exact ⟨rfl, rfl⟩
  | cons j js ih =>
      obtain ⟨⟨hnumeric, hrange⟩, hjs⟩ := List.forall_mem_cons.1 h
      obtain ⟨hnumerics, hranges⟩ := ih hjs
      exact ⟨Bool.and_eq_true_iff.2 ⟨hnumeric, hnumerics⟩, Bool.and_eq_true_iff.2 ⟨hrange, hranges⟩⟩

theorem legible_object {fields : List (String × Json)} (h : ∀ f ∈ fields, Legible f.2) :
    Legible (.object fields) := by
  rw [Legible, Json.numeric, Json.inRange]
  induction fields with
  | nil => exact ⟨rfl, rfl⟩
  | cons f fields ih =>
      obtain ⟨⟨hnumeric, hrange⟩, hfields⟩ := List.forall_mem_cons.1 h
      obtain ⟨hnumerics, hranges⟩ := ih hfields
      exact ⟨Bool.and_eq_true_iff.2 ⟨hnumeric, hnumerics⟩, Bool.and_eq_true_iff.2 ⟨hrange, hranges⟩⟩

theorem legible_string (s : String) : Legible (.string s) := ⟨rfl, rfl⟩

/-- The document of an expression can be written and read. -/
theorem legible_toJson (h : Normal Named e) (hw : unwritable? e = none) : Legible (toJson e) := by
  have hall {es : List Expr} (ih : ∀ e ∈ es, unwritable? e = none → Legible (toJson e))
      (hw : unwritableAll? es = none) : Legible (.array (toJsonAll es)) := by
    rw [toJsonAll_eq_map]
    refine legible_array (List.forall_mem_map.2 fun e he ↦ ih e he ?_)
    exact unwritableAll?_eq_none.1 hw e he
  induction h with
  | num | sym | const | atom => exact legible_object (by simp [legible_string])
  | float x =>
      obtain ⟨hnan, hinf⟩ := unwritable?_float.1 hw
      have hnumber : Legible (.number (Numeral.document x)) := by
        refine ⟨Numeral.isNumberText_document hnan hinf, ?_⟩
        rw [Json.inRange, Numeral.readFloat_document hnan hinf]
        rfl
      exact legible_object (by simp [legible_string, hnumber])
  | add _ _ ih | mul _ _ ih | func _ _ _ ih =>
      exact legible_object (by simp [legible_string, hall ih hw])
  | pow _ _ _ iha ihb | rel _ _ _ iha ihb =>
      rw [unwritable?, Option.or_eq_none_iff] at hw
      exact legible_object (by simp [legible_string, iha hw.1, ihb hw.2])
  | @piecewise ps _ _ ihv ihc =>
      rw [unwritable?, unwritablePieces?_eq_none] at hw
      have hpieces : Legible (.array (toJsonPieces ps)) := by
        rw [toJsonPieces_eq_map]
        refine legible_array (List.forall_mem_map.2 fun p hp ↦ legible_object ?_)
        simp [ihv p hp (hw.1 p hp), ihc p hp (hw.2 p hp)]
      exact legible_object (by simp [legible_string, hpieces])

/-- Documents of the same depths make up documents of the same depth. -/
theorem depthOfItems_le {js : List Json} {n : Nat} :
    Json.depthOfItems js ≤ n ↔ ∀ j ∈ js, j.depth ≤ n := by
  induction js with
  | nil => simp [Json.depthOfItems]
  | cons j js ih => rw [Json.depthOfItems, max_le_iff, ih, List.forall_mem_cons]

/-- Building anew keeps how deep the document is nested. -/
theorem depth_toJson_settled (h : Normal Named e) :
    (toJson (settled e)).depth = (toJson e).depth := by
  have hall {es fs : List Expr} (ih : ∀ e ∈ es, (toJson (settled e)).depth = (toJson e).depth)
      (hfs : ∀ f, f ∈ fs ↔ f ∈ es.map settled) :
      Json.depthOfItems (fs.map toJson) = Json.depthOfItems (es.map toJson) := by
    refine eq_of_forall_ge_iff fun n ↦ ?_
    simp only [depthOfItems_le, List.forall_mem_map, hfs]
    exact forall₂_congr fun e he ↦ by rw [ih e he]
  induction h with
  | num | float | sym | const | atom => rfl
  | add _ _ ih =>
      simp only [settled, toJson, toJsonAll_eq_map, settledAll_eq_map, Json.depth,
        Json.depthOfFields, hall ih fun f ↦ mem_arranged]
  | mul _ _ ih =>
      simp only [settled, toJson, toJsonAll_eq_map, settledAll_eq_map, Json.depth,
        Json.depthOfFields, hall ih fun f ↦ mem_ranked]
  | pow _ _ _ ihb ihx => simp only [settled, toJson, Json.depth, Json.depthOfFields, ihb, ihx]
  | func _ _ _ ih =>
      simp only [settled, toJson, toJsonAll_eq_map, settledAll_eq_map, Json.depth,
        Json.depthOfFields, hall ih fun f ↦ Iff.rfl]
  | rel _ _ _ ihl ihr => simp only [settled, toJson, Json.depth, Json.depthOfFields, ihl, ihr]
  | @piecewise ps _ _ ihv ihc =>
      have hpieces : Json.depthOfItems (toJsonPieces (settledPieces ps)) =
          Json.depthOfItems (toJsonPieces ps) := by
        refine eq_of_forall_ge_iff fun n ↦ ?_
        simp only [toJsonPieces_eq_map, settledPieces_eq_map, List.map_map, depthOfItems_le,
          List.forall_mem_map, Function.comp_apply]
        exact forall₂_congr fun p hp ↦ by
          simp only [Json.depth, Json.depthOfFields, ihv p hp, ihc p hp]
      simp only [settled, toJson, Json.depth, Json.depthOfFields, hpieces]

/-- The text of an expression is read as the expression built anew, unless its document is nested
too deep. -/
theorem parse_toJson_write (h : Normal (· ≠ "") e) (hw : unwritable? e = none) :
    parse (toJson e).write =
      if (toJson e).depth ≤ Json.maxDepth then .ok (settled e) else .error .document := by
  obtain ⟨hnumeric, hrange⟩ := legible_toJson h hw
  obtain ⟨fields, hfields⟩ : ∃ fields, toJson e = .object fields := by
    cases e <;> exact ⟨_, by rw [toJson]⟩
  have hread := ofJson_toJson h hw
  rw [parse, Json.read?_write hnumeric]
  split_ifs
  · rw [hfields] at hrange hread ⊢
    simp only [hrange, if_true, hread]
    rfl
  · rfl

/-- An expression is written as its document if nothing in it is unwritable. -/
theorem write_eq_ok {text : String} :
    e.write = .ok text ↔ unwritable? e = none ∧ (toJson e).write = text := by
  rw [write]
  cases unwritable? e with
  | none => simp
  | some x => simp

/-- An application within an application and so on, around a symbol. -/
def nested : Nat → Expr
  | 0 => .sym "x"
  | n + 1 => .func "f" [nested n]

theorem normal_nested (n : Nat) : Normal (· ≠ "") (nested n) := by
  induction n with
  | zero => exact .sym (by decide)
  | succ n ih =>
      refine .func (by decide) ?_ (by simpa using ih)
      rintro a ⟨⟩
      cases n <;> rfl

theorem settled_nested (n : Nat) : settled (nested n) = nested n := by
  induction n with
  | zero => rfl
  | succ n ih => simp only [nested, settled, settledAll, ih]

theorem unwritable?_nested (n : Nat) : unwritable? (nested n) = none := by
  induction n with
  | zero => rfl
  | succ n ih => simp [nested, unwritable?, unwritableAll?, ih]

/-- Each level of the nested example takes two levels of its document. -/
theorem depth_toJson_nested (n : Nat) : (toJson (nested n)).depth = 2 * n + 1 := by
  induction n with
  | zero => rfl
  | succ n ih =>
      simp only [nested, toJson, toJsonAll, Json.depth, Json.depthOfFields, Json.depthOfItems, ih]
      omega

end ExprCompiler.Expr
