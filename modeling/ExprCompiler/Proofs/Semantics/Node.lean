import ExprCompiler.Compiler
import ExprCompiler.Proofs.Semantics.Target

/-!
# The meaning of foreign trees

`Node.value` evaluates a tree by walking it: there is no target expression, no position and no code
in between. Main statement: a function that the interpreter compiled from a tree evaluates to what
the walk gives, value or failure (`Options.eval_compile`).
-/

namespace ExprCompiler.Node

/-! ## The parts of a tree -/

/-- The children. A node that is its own child has none that an evaluation could get to the end
of. -/
def parts : Node → List Node
  | .symbolic (some e) => e.args.map fun a ↦ .symbolic (some a)
  | .foreign _ ns | .listing _ ns _ _ => ns
  | _ => []

mutual

/-- A measure that counts every part of a tree. -/
noncomputable def weight : Node → Nat
  | .symbolic (some e) => sizeOf e
  | .foreign _ ns | .listing _ ns _ _ => 1 + weights ns
  | _ => 1

noncomputable def weights : List Node → Nat
  | [] => 0
  | n :: ns => weight n + weights ns

end

theorem weights_symbolic (es : List Expr) :
    weights (es.map fun a ↦ .symbolic (some a)) < sizeOf es := by
  induction es with
  | nil => simp [weights]
  | cons e es ih =>
      simp only [List.map_cons, weights, weight, List.cons.sizeOf_spec]
      omega

theorem weights_branches (ps : List (Expr × Expr)) :
    weights (ps.map fun p ↦ .symbolic (some (.pair p.1 p.2))) < sizeOf ps := by
  induction ps with
  | nil => simp [weights]
  | cons p ps ih =>
      simp only [List.map_cons, weights, weight, List.cons.sizeOf_spec, Expr.pair.sizeOf_spec]
      cases p
      simp only [Prod.mk.sizeOf_spec]
      omega

/-- The parts of a node weigh less than the node. -/
theorem weights_parts_lt (n : Node) : weights n.parts < weight n := by
  cases n with
  | symbolic e =>
      cases e with
      | none => simp [parts, weights, weight]
      | some e =>
          cases e with
          | add es | mul es | func name es =>
              have h := weights_symbolic es
              simp [parts, Expr.args, weight]
              omega
          | piecewise ps =>
              have h := weights_branches ps
              simp [parts, Expr.args, weight, Function.comp_def]
              omega
          | _ => simp +arith [parts, Expr.args, weights, weight]
  | foreign label ns => simp [parts, weight]
  | listing label ns free error => simp [parts, weight]
  | endless label => simp [parts, weights, weight]
  | absent => simp [parts, weights, weight]

theorem weight_pos (n : Node) : 0 < weight n := Nat.zero_lt_of_lt (weights_parts_lt n)

/-! ## Evaluation -/

/-- What a tree is evaluated against: values of tags, identifiers of tags, callables of
identifiers, and values of names. -/
structure Context where
  constants : Constants
  operators : Operators
  registry : Registry
  bindings : Table Value

/-- The exact integer of a leaf, or the double that it gives instead. -/
def integerPayload? (n : Node) : Option Value :=
  match n.integer with
  | .value i => i.map .int
  | .lacking =>
    match n.float with
    | .value x => some (.float x)
    | _ => none
  | .error _ => none

def floatPayload? (n : Node) : Option Value :=
  match n.float with
  | .value x => some (.float x)
  | _ => none

/-- The exact quotient of a leaf whose two parts fit a word. -/
def rationalPayload? (n : Node) : Option Value :=
  match n.ratio with
  | .value (some p, some q) =>
    if Numeral.isWord p && Numeral.isWord q && q != 0 then some (.rational (p / q)) else none
  | _ => none

/-- The value of a leaf; the failure stands for a number that cannot be read. -/
def leafValue (tag : String) (v : Option Value) : Except Failure Value :=
  match v with
  | some v => .ok v
  | none => .error (.lowering tag .noLeafRule)

/-- The value of a node that its tag settles, whatever its children: symbols, numbers and
constants. -/
def settled? (Γ : Context) (n : Node) (tag : String) : Option (Except Failure Value) :=
  match tag with
  | "Symbol" => some (do Value.lookup Γ.bindings (← n.text))
  | "Integer" => some (leafValue tag n.integerPayload?)
  | "Float" => some (leafValue tag n.floatPayload?)
  | "Rational" => some (leafValue tag n.rationalPayload?)
  | tag => (Γ.constants.get? tag).map .ok

/-- The two children of a node that its tag makes a pair. -/
def pair? (Γ : Context) (n : Node) : Option (Node × Node) :=
  match n.tag with
  | .error _ => none
  | .ok tag =>
    match n.settled? Γ tag with
    | some _ => none
    | none => pairOf? (Γ.operators.resolve tag) n.parts

theorem parts_of_pair? {Γ : Context} {n v c : Node} (h : n.pair? Γ = some (v, c)) :
    n.parts = [v, c] := by
  rw [pair?] at h
  split at h
  · cases h
  · split at h
    · cases h
    · exact (pairOf?_eq_some.mp h).2

mutual

/-- The value of a tree. A node that its tag does not settle is an application of the callable that
the tag names: of the special form to its pairs, of any other to the values of its children. -/
def value (Γ : Context) (n : Node) : Except Failure Value := do
  let tag ← n.tag
  match n.settled? Γ tag with
  | some outcome => outcome
  | none =>
    let name := Γ.operators.resolve tag
    if name = "piecewise" then firstBranch Γ n.parts
    else
      match Γ.registry.find? name with
      | none => .error (.building name .unimplemented)
      | some f => do Callable.apply name f (← values Γ n.parts)
termination_by 2 * weight n
decreasing_by
  all_goals
    have := weights_parts_lt n
    omega

/-- The values of trees from left to right, up to the first failure. -/
def values (Γ : Context) : List Node → Except Failure (List Value)
  | [] => .ok []
  | n :: ns => do
    let v ← value Γ n
    let vs ← values Γ ns
    return v :: vs
termination_by ns => 2 * weights ns + 1
decreasing_by
  all_goals
    have := weight_pos n
    rw [weights]
    omega

/-- The value of the first pair whose condition holds, and NaN if there is none. Conditions behind
it and values of other pairs are not looked at. -/
def firstBranch (Γ : Context) : List Node → Except Failure Value
  | [] => .ok (.float Elementary.nan)
  | n :: ns =>
    match _h : n.pair? Γ with
    | none => .error (.building "piecewise" .pairOutside)
    | some (v, c) => do
      if (← value Γ c).truth then value Γ v else firstBranch Γ ns
termination_by ns => 2 * weights ns + 1
decreasing_by
  all_goals
    have hlt := weights_parts_lt n
    rw [parts_of_pair? _h] at hlt
    simp only [weights] at hlt ⊢
    omega

end

theorem firstBranch_cons (Γ : Context) (n : Node) (ns : List Node) :
    firstBranch Γ (n :: ns) =
      match n.pair? Γ with
      | some (v, c) => do if (← value Γ c).truth then value Γ v else firstBranch Γ ns
      | none => .error (.building "piecewise" .pairOutside) := by
  rw [firstBranch]
  cases n.pair? Γ with
  | none => rfl
  | some p => rfl

end ExprCompiler.Node

/-! ## Lowering keeps the value -/

namespace ExprCompiler.Lowering

variable {r : Rules} {reg : Registry} {ρ : Table Value}

/-- What the trees that a set of rules lowers are evaluated against. -/
def Rules.context (r : Rules) (reg : Registry) (ρ : Table Value) : Node.Context :=
  ⟨r.constants, r.operators, reg, ρ⟩

/-- When an application is lowered, and to what. -/
theorem lowerWithin_application {n : Node} {tag : String} {left : Nat} {t : Target}
    (htag : n.tag = .ok tag) (hform : r.form tag = .application) :
    lowerWithin r (left + 1) n = .ok t ↔
      ∃ ns ts, n.children = .ok (ns, none) ∧ ns ≠ [] ∧
        ns.mapM (lowerWithin r left) = .ok ts ∧ t = .call (r.operators.resolve tag) ts := by
  rw [lowerWithin, htag, Outcome.ok_bind, hform]
  cases hc : n.children with
  | error e => simp
  | ok p =>
      obtain ⟨ns, error⟩ := p
      cases error with
      | some text => simp
      | none =>
          cases ns with
          | nil => simp
          | cons m ms =>
              simp only [Outcome.ok_bind, List.isEmpty_cons, Bool.false_eq_true, if_false]
              constructor
              · intro h
                obtain ⟨ts, hts, h⟩ := Outcome.bind_eq_ok.mp h
                cases h
                exact ⟨_, ts, rfl, by simp, hts, rfl⟩
              · rintro ⟨ns, ts, hns, -, hts, rfl⟩
                cases hns
                exact Outcome.bind_eq_ok.mpr ⟨ts, hts, rfl⟩

/-- A node that is its own child is never lowered as an application. -/
theorem lowerWithin_endless {label : Label} (h : r.form label.tag = .application) (left : Nat)
    (t : Target) : lowerWithin r left (.endless label) ≠ .ok t := by
  induction left generalizing t with
  | zero => simp [lowerWithin, Node.tag, Node.label?]
  | succ left ih =>
      intro ht
      obtain ⟨ns, ts, hns, -, hts, -⟩ := (lowerWithin_application rfl h).mp ht
      rw [Node.children] at hns
      split at hns
      · cases hns
      · simp only [Except.ok.injEq, Prod.mk.injEq] at hns
        obtain ⟨rfl, -⟩ := hns
        cases Outcome.forall₂_of_mapM hts with
        | cons ht' _ => exact ih _ ht'

/-- The children that lowering goes through are the parts of the node. -/
theorem children_eq_parts {n : Node} {tag : String} {ns : List Node} {left : Nat} {t : Target}
    (htag : n.tag = .ok tag) (hform : r.form tag = .application)
    (h : lowerWithin r left n = .ok t) (hns : n.children = .ok (ns, none)) : ns = n.parts := by
  cases n with
  | absent => cases hns
  | symbolic e =>
      cases e with
      | none => cases hns
      | some e =>
          cases hns
          rfl
  | foreign label children | listing label children free error =>
      rw [Node.children] at hns
      split at hns
      · cases hns
      · simp only [Except.ok.injEq, Prod.mk.injEq] at hns
        exact hns.1.symm
  | endless label =>
      cases htag
      exact absurd h (lowerWithin_endless hform left t)

/-! ### Leaves -/

theorem integerPayload?_of_lower {n : Node} {tag : String} {t : Target}
    (h : integer n tag = .ok t) : ∃ v, t = .lit v ∧ n.integerPayload? = some v := by
  rw [integer] at h
  rw [Node.integerPayload?]
  cases hi : n.integer with
  | value i =>
      rw [hi] at h
      cases i with
      | none => cases h
      | some i =>
          cases h
          exact ⟨_, rfl, rfl⟩
  | error text => simp [hi] at h
  | lacking =>
      rw [hi] at h
      cases hf : n.float with
      | value x =>
          rw [hf] at h
          cases h
          exact ⟨_, rfl, rfl⟩
      | error text => simp [hf] at h
      | lacking => simp [hf] at h

theorem floatPayload?_of_lower {n : Node} {tag : String} {t : Target}
    (h : float n tag = .ok t) : ∃ v, t = .lit v ∧ n.floatPayload? = some v := by
  rw [float] at h
  rw [Node.floatPayload?]
  cases hf : n.float with
  | value x =>
      rw [hf] at h
      cases h
      exact ⟨_, rfl, rfl⟩
  | error text => simp [hf] at h
  | lacking => simp [hf] at h

theorem rationalPayload?_of_lower {n : Node} {tag : String} {t : Target}
    (h : rational n tag = .ok t) : ∃ v, t = .lit v ∧ n.rationalPayload? = some v := by
  rw [rational] at h
  split at h
  · rename_i p q hr
    split at h
    · cases h
    · rename_i hword
      split at h
      · cases h
      · rename_i hzero
        cases h
        refine ⟨_, rfl, ?_⟩
        simp only [Bool.not_eq_true, Bool.not_eq_false', Bool.and_eq_true] at hword
        simp only [beq_iff_eq] at hzero
        simp [Node.rationalPayload?, hr, hword, hzero, Rat.divInt_eq_div]
  · cases h
  · cases h
  · cases h

/-- A tag that names no kind of leaf is looked up among the constants. -/
theorem Rules.form_of_ne {tag : String} (hs : tag ≠ "Symbol") (hi : tag ≠ "Integer")
    (hf : tag ≠ "Float") (hr : tag ≠ "Rational") :
    r.form tag = (r.constants.get? tag).elim .application .constant := by
  simp only [Rules.form, beq_iff_eq, hs, hi, hf, hr, if_false]
  cases r.constants.get? tag with
  | none => rfl
  | some v => rfl

/-- A node that its tag settles is lowered to a leaf with its value. -/
theorem settled?_of_lowerWithin {n : Node} {tag : String} {left : Nat} {t : Target}
    (htag : n.tag = .ok tag) (hform : r.form tag ≠ .application)
    (h : lowerWithin r left n = .ok t) :
    n.settled? (r.context reg ρ) tag = some (t.value reg ρ) ∧ ∀ name ts, t ≠ .call name ts := by
  cases left with
  | zero => simp [lowerWithin, htag] at h
  | succ left =>
      rw [lowerWithin, htag, Outcome.ok_bind] at h
      unfold Node.settled?
      split
      · obtain ⟨name, hname, h⟩ := Outcome.bind_eq_ok.mp h
        cases h
        simp [hname, Target.value, Rules.context]
      · obtain ⟨v, rfl, hv⟩ := integerPayload?_of_lower h
        simp [hv, Node.leafValue, Target.value]
      · obtain ⟨v, rfl, hv⟩ := floatPayload?_of_lower h
        simp [hv, Node.leafValue, Target.value]
      · obtain ⟨v, rfl, hv⟩ := rationalPayload?_of_lower h
        simp [hv, Node.leafValue, Target.value]
      · rename_i hs hi hf hr
        rw [Rules.form_of_ne hs hi hf hr] at h hform
        cases hc : r.constants.get? tag with
        | none => simp [hc] at hform
        | some v =>
            rw [hc] at h
            cases h
            simp [Rules.context, hc, Target.value]

theorem settled?_application {n : Node} {tag : String} (hform : r.form tag = .application) :
    n.settled? (r.context reg ρ) tag = none := by
  unfold Node.settled?
  split
  · cases hform
  · cases hform
  · cases hform
  · cases hform
  · rename_i hs hi hf hr
    rw [Rules.form_of_ne hs hi hf hr] at hform
    cases hc : r.constants.get? tag with
    | none => simp [Rules.context, hc]
    | some v => simp [hc] at hform

/-- A symbol is lowered to the variable of its name. -/
theorem lowerWithin_sym {r : Rules} {left : Nat} {s : String} {t : Target}
    (h : lowerWithin r (left + 1) (.symbolic (some (.sym s))) = .ok t) : t = .var s := by
  have hform : r.form "Symbol" = .symbol := rfl
  simp only [lowerWithin, Node.tag, Expr.tag, Outcome.ok_bind, hform, Node.text] at h
  cases h
  rfl

/-! ### Trees -/

/-- A node that was lowered has a tag. Either the tag settles it and it became a leaf of the same
value, or its parts were lowered one level further down. -/
theorem lowerWithin_cases (reg : Registry) (ρ : Table Value) {n : Node} {left : Nat} {t : Target}
    (h : lowerWithin r left n = .ok t) :
    ∃ tag, n.tag = .ok tag ∧
      ((n.settled? (r.context reg ρ) tag = some (t.value reg ρ) ∧ ∀ name ts, t ≠ .call name ts) ∨
        ∃ left' ts, left = left' + 1 ∧ n.settled? (r.context reg ρ) tag = none ∧
          List.Forall₂ (fun n t ↦ lowerWithin r left' n = .ok t) n.parts ts ∧
          t = .call (r.operators.resolve tag) ts) := by
  have htag : ∃ tag, n.tag = .ok tag := by
    cases left with
    | zero => exact (Outcome.bind_eq_ok.mp h).imp fun _ h ↦ h.1
    | succ left => exact (Outcome.bind_eq_ok.mp h).imp fun _ h ↦ h.1
  obtain ⟨tag, htag⟩ := htag
  refine ⟨tag, htag, ?_⟩
  by_cases hform : r.form tag = .application
  · cases left with
    | zero => simp [lowerWithin, htag] at h
    | succ left =>
        obtain ⟨ns, ts, hns, -, hts, rfl⟩ := (lowerWithin_application htag hform).mp h
        rw [children_eq_parts htag hform h hns] at hts
        exact .inr ⟨left, ts, rfl, settled?_application hform, Outcome.forall₂_of_mapM hts, rfl⟩
  · exact .inl (settled?_of_lowerWithin htag hform h)

/-- A node is a pair if and only if it is lowered to one. -/
theorem pair?_of_lowerWithin (reg : Registry) (ρ : Table Value) {n : Node} {left : Nat}
    {t : Target} (h : lowerWithin r left n = .ok t) :
    Option.Rel (fun p q ↦ ∃ left' < left, lowerWithin r left' p.1 = .ok q.1 ∧
      lowerWithin r left' p.2 = .ok q.2) (n.pair? (r.context reg ρ)) t.pair? := by
  obtain ⟨tag, htag, ⟨hs, ht⟩ | ⟨left', ts, rfl, hs, hts, rfl⟩⟩ := lowerWithin_cases reg ρ h
  · have hp : n.pair? (r.context reg ρ) = none := by simp [Node.pair?, htag, hs]
    rw [hp]
    cases t with
    | call name ts => exact absurd rfl (ht name ts)
    | _ => exact .none
  · have hp : n.pair? (r.context reg ρ) = pairOf? (r.operators.resolve tag) n.parts := by
      simp only [Node.pair?, htag, hs]
      rfl
    rw [hp, Target.pair?]
    have hrel := pairOf?_of_forall₂ (r.operators.resolve tag) hts
    revert hrel
    generalize pairOf? _ n.parts = p
    generalize pairOf? _ ts = q
    rintro (hpq | _)
    · exact .some ⟨left', Nat.lt_succ_self _, hpq⟩
    · exact .none

/-- Nodes that are lowered have the values of their targets. -/
theorem values_of_forall₂ {left : Nat} {ns : List Node} {ts : List Target}
    (h : List.Forall₂ (fun n t ↦ lowerWithin r left n = .ok t) ns ts)
    (ih : ∀ n t, lowerWithin r left n = .ok t → n.value (r.context reg ρ) = t.value reg ρ) :
    Node.values (r.context reg ρ) ns = Target.values reg ρ ts := by
  induction h with
  | nil => rw [Node.values, Target.values]
  | cons hn _ ihs => rw [Node.values, Target.values, ih _ _ hn, ihs]

theorem firstBranch_of_forall₂ {left : Nat} {ns : List Node} {ts : List Target}
    (h : List.Forall₂ (fun n t ↦ lowerWithin r left n = .ok t) ns ts)
    (ih : ∀ left' < left, ∀ n t, lowerWithin r left' n = .ok t →
      n.value (r.context reg ρ) = t.value reg ρ) :
    Node.firstBranch (r.context reg ρ) ns = Target.firstBranch reg ρ ts := by
  induction h with
  | nil => rw [Node.firstBranch, Target.firstBranch]
  | cons hn _ ihs =>
      rw [Node.firstBranch_cons, Target.firstBranch_cons]
      have hrel := pair?_of_lowerWithin reg ρ hn
      revert hrel
      generalize Node.pair? _ _ = p
      generalize Target.pair? _ = q
      rintro (⟨left', hlt, hv, hc⟩ | _)
      · simp only [ih left' hlt _ _ hv, ih left' hlt _ _ hc, ihs]
      · rfl

/-- Lowering keeps the value. -/
theorem value_of_lowerWithin {left : Nat} {n : Node} {t : Target}
    (h : lowerWithin r left n = .ok t) : n.value (r.context reg ρ) = t.value reg ρ := by
  -- The children of a pair stand two levels below the node that chooses among the pairs.
  induction left using Nat.strongRecOn generalizing n t with
  | ind left ih =>
      obtain ⟨tag, htag, ⟨hs, -⟩ | ⟨left', ts, rfl, hs, hts, rfl⟩⟩ := lowerWithin_cases reg ρ h
      · rw [Node.value, htag, Outcome.ok_bind, hs]
      · have hlt := Nat.lt_succ_self left'
        have hvs := values_of_forall₂ hts fun n t h ↦ ih left' hlt h
        have hbs := firstBranch_of_forall₂ hts fun k hk n t h ↦ ih k (Nat.lt_trans hk hlt) h
        rw [Node.value, htag, Outcome.ok_bind, hs]
        simp only [hvs, hbs]
        rw [Target.value]
        rfl

end ExprCompiler.Lowering

/-! ## Compiled trees -/

namespace ExprCompiler.Options

/-- The steps behind a compilation that succeeded. -/
theorem compile_eq_ok {o : Options} {n : Node} {f : Function} (h : o.compile n = .ok f) :
    ∃ params t, o.params.elim (n.freeSymbols o.maxDepth) .ok = .ok params ∧
      Lowering.lower o.rules o.maxDepth n = .ok t ∧ o.compileTarget t params = .ok f := by
  have hs : o.compileSteps n = .ok f := by
    unfold compile at h
    split at h
    · cases h
    · exact Outcome.mapError_eq_ok.mp h
  rw [compileSteps] at hs
  cases ho : o.params with
  | none =>
      rw [ho] at hs
      obtain ⟨params, hparams, hs⟩ := Outcome.bind_eq_ok.mp hs
      obtain ⟨t, ht, hs⟩ := Outcome.bind_eq_ok.mp hs
      exact ⟨params, t, hparams, ht, hs⟩
  | some params =>
      simp only [ho, Outcome.pure_eq_ok, Outcome.ok_bind] at hs
      obtain ⟨t, ht, hs⟩ := Outcome.bind_eq_ok.mp hs
      exact ⟨params, t, rfl, ht, hs⟩

/-- A function that the interpreter compiled from a tree evaluates, for as many valid arguments as
it has parameters, to what walking the tree gives with the parameters bound to the arguments. Its
parameters are those of the options, or else the free symbols of the tree. -/
theorem eval_compile (o : Options) (n : Node) (f : Function)
    (h : (o.withBackend Interpreter.backend).compile n = .ok f) :
    o.params.elim (n.freeSymbols o.maxDepth) .ok = .ok f.params ∧
      ∀ args : List Value, args.length = f.params.length → (∀ v ∈ args, v.isValid = true) →
        f.eval args =
          n.value ⟨o.constants, o.operators, o.registry, f.params.zip args⟩ := by
  obtain ⟨params, t, hparams, ht, hf⟩ := compile_eq_ok h
  obtain ⟨rfl, heval⟩ := Function.eval_of_compile hf
  refine ⟨hparams, fun args hlen hv ↦ ?_⟩
  rw [heval args hlen hv]
  exact (Lowering.value_of_lowerWithin ht).symm

/-- Under tables of its own, where other tags name the special form and its pairs, a branch that
would fail is passed over and the next one is taken. -/
theorem eval_compile_choice :
    let x : Node := .foreign { tag := "Symbol", text := "x" } []
    let off : Node := .foreign { tag := "Off", text := "off" } [x]
    let bad : Node := .foreign { tag := "fail", text := "fail" } [x]
    let arm (v c : Node) : Node := .foreign { tag := "Arm", text := "arm" } [v, c]
    let n : Node := .foreign { tag := "Choose", text := "choose" } [arm bad off, arm x x]
    let o : Options :=
      { params := some ["x"], constants := [("Off", .bool false)],
        operators := [("Choose", "piecewise"), ("Arm", "pair")],
        registry := [("fail", some fun _ ↦ .error (.reported "fail"))], maxDepth := 3 }
    ∃ f, o.compile n = .ok f ∧ f.eval [.int 3] = .ok (.int 3) ∧
      f.eval [.int 3] =
        n.value ⟨o.constants, o.operators, o.registry, [("x", .int 3)]⟩ := by
  intro x off bad arm n o
  refine ⟨_, rfl, rfl, ?_⟩
  exact (eval_compile o n _ rfl).2 [.int 3] rfl (by simp [Value.int, Value.isValid])

end ExprCompiler.Options
