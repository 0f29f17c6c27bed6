import ExprCompiler.Proofs.Expr.Normal
import ExprCompiler.Proofs.Expr.Subterm
import ExprCompiler.Proofs.Expr.Wire

/-!
# Constructed expressions

Documents are read through the constructors, so what they stand for is normal
(`Expr.normal_ofJson`). Main statement: every subterm of an expression that the constructors,
substitution and the reader made, in whatever order, has the shape of its kind
(`Expr.Constructed.shaped_at`).
-/

namespace ExprCompiler.Expr

variable {e : Expr} {es : List Expr} {Named : String → Prop}

/-- What is read from a document is normal, and its symbols have names. -/
theorem Reads.normal {j : Json} (h : Reads j e) : Normal (· ≠ "") e := by
  have hnamed {j : Json} {field s : String} (hs : textIn field j = some s) : s ≠ "" :=
    (textIn_eq_some.1 hs).2
  induction h with
  | num | float | const => constructor
  | sym _ hname => exact .sym (hnamed hname)
  | atom _ htag hname => exact .atom (hnamed htag) (hnamed hname)
  | add _ _ _ ih => exact normal_addOf (List.forall_mem_map.2 ih)
  | mul _ _ _ ih => exact normal_mulOf (List.forall_mem_map.2 ih)
  | pow _ _ _ _ _ ihb ihx => exact normal_powOf ihb ihx
  | func _ hname _ _ happlied ih =>
      exact normal_funcOf (hnamed hname) (List.forall_mem_map.2 ih) happlied
  | rel op _ _ _ _ _ _ ihl ihr => exact .rel op ihl ihr
  | piecewise _ _ whole _ _ ihv ihc =>
      refine .piecewise (List.forall_mem_map.2 fun b hb ↦ ?_) (List.forall_mem_map.2 fun b hb ↦ ?_)
      · obtain ⟨x, hx⟩ := Option.isSome_iff_exists.1 (whole b hb).1
        exact ihv b hb x hx
      · obtain ⟨x, hx⟩ := Option.isSome_iff_exists.1 (whole b hb).2
        exact ihc b hb x hx

/-- Every document that is an expression is a normal one, in which nothing is without a name. -/
theorem normal_ofJson {j : Json} (h : ofJson j = .ok e) : Normal (· ≠ "") e :=
  (reads_of_ofJson h).normal

/-! ## Constructed expressions -/

/-- What the constructors, substitution and the reader of documents make, in any order. -/
inductive Constructed : Expr → Prop
  | num (q : Rat) : Constructed (.num q)
  | float (x : Float) : Constructed (.float x)
  | sym (name : String) : Constructed (.sym name)
  | atom (tag name : String) : Constructed (.atom tag name)
  | const (c : Constant) : Constructed (.const c)
  | addOf {ts : List Expr} (terms : ∀ t ∈ ts, Constructed t) : Constructed (addOf ts)
  | mulOf {fs : List Expr} (factors : ∀ f ∈ fs, Constructed f) : Constructed (mulOf fs)
  | powOf {b x : Expr} (base : Constructed b) (exponent : Constructed x) :
      Constructed (powOf b x)
  | funcOf {name : String} {as : List Expr} {e : Expr} (args : ∀ a ∈ as, Constructed a)
      (h : funcOf name as = .ok e) : Constructed e
  | rel (op : Relation) {a b : Expr} (lhs : Constructed a) (rhs : Constructed b) :
      Constructed (.rel op a b)
  | piecewise {ps : List (Expr × Expr)} (values : ∀ p ∈ ps, Constructed p.1)
      (conditions : ∀ p ∈ ps, Constructed p.2) : Constructed (.piecewise ps)
  | subst {name : String} {value e e' : Expr} (tree : Constructed e)
      (replacement : Constructed value) (h : Expr.subst name value e = .ok e') : Constructed e'
  | ofJson {j : Json} {e : Expr} (h : ofJson j = .ok e) : Constructed e

/-- What the constructors build is normal. -/
theorem Constructed.normal (h : Constructed e) : Normal (fun _ ↦ True) e := by
  induction h with
  | num q => exact .num q
  | float x => exact .float x
  | sym name => exact .sym trivial
  | atom tag name => exact .atom trivial trivial
  | const c => exact .const c
  | addOf _ ih => exact normal_addOf ih
  | mulOf _ ih => exact normal_mulOf ih
  | powOf _ _ ihb ihx => exact normal_powOf ihb ihx
  | funcOf _ h ih => exact normal_funcOf trivial ih h
  | rel op _ _ ihl ihr => exact .rel op ihl ihr
  | piecewise _ _ ihv ihc => exact .piecewise ihv ihc
  | subst _ _ h ihe ihv => exact normal_subst ihv ihe h
  | ofJson h => exact (normal_ofJson h).mono fun _ _ ↦ trivial

/-- The shape of a node. -/
def Shaped : Expr → Prop
  | .add ts => SumShape ts
  | .mul fs => ProductShape fs
  | .pow b x => PowerShape b x
  | _ => True

theorem Normal.shaped (h : Normal Named e) : e.Shaped := by
  cases h with
  | add shape _ => exact shape.toSumShape
  | mul shape _ => exact shape
  | pow shape _ _ => exact shape
  | _ => trivial

/-- What stands in a normal expression, or in a branch of normal ones, is again such. -/
theorem At.normal {p : List Nat} {x : Expr} (hx : e.At p x)
    (he : Normal Named e ∨ ∃ v c, e = .pair v c ∧ Normal Named v ∧ Normal Named c) :
    Normal Named x ∨ ∃ v c, x = .pair v c ∧ Normal Named v ∧ Normal Named c := by
  induction hx with
  | here => exact he
  | @child e a _ _ _ get _ ih =>
      have ha := List.mem_of_getElem? get
      refine ih ?_
      rcases he with he | ⟨v, c, rfl, hv, hc⟩
      · cases he with
        | add _ hs | mul _ hs | func _ _ hs => exact .inl (hs a ha)
        | pow _ hl hr | rel _ hl hr =>
            rcases List.mem_pair.1 ha with rfl | rfl
            · exact .inl hl
            · exact .inl hr
        | piecewise values conditions =>
            obtain ⟨q, hq, rfl⟩ := List.mem_map.1 ha
            exact .inr ⟨_, _, rfl, values q hq, conditions q hq⟩
        | _ => cases ha
      · rcases List.mem_pair.1 ha with rfl | rfl
        · exact .inl hv
        · exact .inl hc

/-- Every subterm of a constructed expression has the shape of its kind. -/
theorem Constructed.shaped_at (h : Constructed e) {p : List Nat} {x : Expr} (hx : e.At p x) :
    x.Shaped := by
  rcases hx.normal (.inl h.normal) with hx | ⟨v, c, rfl, -, -⟩
  · exact hx.shaped
  · trivial

/-- A product inside the square of a sum. -/
theorem Constructed.shaped_at_square :
    let e := Expr.powOf (Expr.addOf [.num 1, Expr.mulOf [.sym "x", .num 2]]) (.num 2)
    Constructed e ∧ e.At [0, 0] (.mul [.num 2, .sym "x"]) ∧ ProductShape [.num 2, .sym "x"] := by
  intro e
  have hsort : sortByText [.sym "x"] = [.sym "x"] := List.perm_singleton.1 (sortByText_perm _)
  have hnames : sortNames [] = [] := by decide +kernel
  have hmul : Expr.mulOf [.sym "x", .num 2] = .mul [.num 2, .sym "x"] := by
    simp [Expr.mulOf, factorsOf, exactProduct, inexactProduct, isNumber, assembleProduct, hsort]
  have hadd : Expr.addOf [.num 1, .mul [.num 2, .sym "x"]] =
      .add [.mul [.num 2, .sym "x"], .num 1] := by
    simp [Expr.addOf, termsOf, symbolName?, List.filterMap, hnames, isNumber, inexactSum, exactSum,
      trailing]
  have he : e = .pow (.add [.mul [.num 2, .sym "x"], .num 1]) (.num 2) := by
    simp [e, hmul, hadd, Expr.powOf]
  have hconstructed : Constructed e :=
    .powOf (.addOf (by simp [Constructed.num, Constructed.sym, Constructed.mulOf])) (.num 2)
  have hat : e.At [0, 0] (.mul [.num 2, .sym "x"]) := by
    rw [he]
    exact .child rfl (.child rfl .here)
  exact ⟨hconstructed, hat, hconstructed.shaped_at hat⟩

end ExprCompiler.Expr
