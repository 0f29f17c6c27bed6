import ExprCompiler.Proofs.Expr.Subterm
import ExprCompiler.Proofs.Expr.Valuation
import ExprCompiler.Proofs.Lowering.Visited

/-!
# Parameters of compiled expressions

The variables of a lowered tree are the texts of the visited nodes with the tag of a symbol. An
expression that is compiled without parameters takes its free symbols for parameters. Main
statement: these are all variables of the compiled expression, but for the texts of atoms and
applications that carry the tag of a symbol, and for symbols deeper than the search for free
symbols goes (`Options.freeVars_mem_params_or`).
-/

namespace ExprCompiler

/-! ## Variables -/

namespace Lowering

open ExprCompiler.Target (vars varsAll)

variable {r : Rules} {n : Node}

theorem Rules.Settles.vars_subset {t : Target} {v : String} (h : r.Settles n t) (hv : v ∈ t.vars) :
    n.tag = .ok "Symbol" ∧ n.text = .ok v := by
  cases h with
  | symbol htag htext =>
      obtain rfl := List.mem_singleton.1 hv
      exact ⟨htag, htext⟩
  | _ => cases hv

mutual

/-- A variable of the image is the text of a visited symbol. -/
theorem Rules.Image.exists_visited {n : Node} {t : Target} {v : String} :
    r.Image n t → v ∈ vars t → ∃ p m, r.Visited n p m ∧ m.tag = .ok "Symbol" ∧ m.text = .ok v
  | .settled hs, hv => ⟨[], n, .root, hs.vars_subset hv⟩
  | .application htag happ hc _ himages, hv => by
      obtain ⟨i, c, p, m, hget, hvisited, hm⟩ := himages.exists_visited hv
      exact ⟨i :: p, m, hvisited.cons ⟨_, none, htag, happ, hc⟩ hget, hm⟩

theorem Rules.Images.exists_visited {ns : List Node} {ts : List Target} {v : String} :
    r.Images ns ts → v ∈ varsAll ts → ∃ (i : Nat) (c : Node) (p : List Nat) (m : Node),
      ns[i]? = some c ∧ r.Visited c p m ∧ m.tag = .ok "Symbol" ∧ m.text = .ok v
  | .nil, hv => by cases hv
  | .cons head tail, hv => by
      rcases List.mem_append.1 hv with hv | hv
      · obtain ⟨p, m, hm⟩ := head.exists_visited hv
        exact ⟨0, _, p, m, rfl, hm⟩
      · obtain ⟨i, c, p, m, hget, hm⟩ := tail.exists_visited hv
        exact ⟨i + 1, c, p, m, hget, hm⟩

end

/-- A variable of a lowered tree is the text of a symbol that was visited within the limit. -/
theorem exists_visited_of_mem_vars {limit : Nat} {t : Target} {v : String} (hn : n.Grounded)
    (h : lower r limit n = .ok t) (hv : v ∈ t.vars) :
    ∃ p m, r.Visited n p m ∧ p.length ≤ limit ∧ m.tag = .ok "Symbol" ∧ m.text = .ok v := by
  rcases Rules.lowered_or_refused (r := r) hn (limit + 1) with ⟨t', hlow⟩ | ⟨_, _, _, href⟩
  · obtain rfl := Except.ok.inj (hlow.result.symm.trans h)
    obtain ⟨p, m, hvisited, hm⟩ := hlow.image.exists_visited hv
    exact ⟨p, m, hvisited, Nat.le_of_lt_succ (hlow.visited hvisited).1, hm⟩
  · cases href.result.symm.trans h

end Lowering

/-- What lowering visits of a symbolic expression stands in the expression. -/
theorem Expr.exists_at_of_visited {r : Lowering.Rules} {e : Expr} {p : List Nat} {m : Node}
    (h : r.Visited (.symbolic (some e)) p m) : ∃ x, m = .symbolic (some x) ∧ e.At p x := by
  induction p generalizing e with
  | nil =>
      rcases Lowering.Rules.visited_iff.1 h with ⟨-, rfl⟩ | ⟨_, _, _, _, hp, -⟩
      · exact ⟨e, rfl, .here⟩
      · cases hp
  | cons i p ih =>
      rcases Lowering.Rules.visited_iff.1 h with ⟨hp, -⟩ | ⟨_, _, ns, c, hp, henters, hget, hv⟩
      · cases hp
      · cases hp
        obtain ⟨tag, error, -, -, hc⟩ := henters
        cases hc
        rw [List.getElem?_map, Option.map_eq_some_iff] at hget
        obtain ⟨a, ha, rfl⟩ := hget
        obtain ⟨x, rfl, hx⟩ := ih hv
        exact ⟨x, rfl, .child ha hx⟩

/-! ## Parameters -/

theorem Function.compile_eq_ok {b : Backend} {r : Registry} {t : Target} {params : List String}
    {f : Function} (h : compile b r t params = .ok f) : f.params = params ∧ f.expr = t := by
  obtain ⟨-, -, evaluator, -, rfl⟩ := compile_eq_ok_iff.1 h
  exact ⟨rfl, rfl⟩

namespace Options

/-- What compiles an expression by default: its free symbols, what it is lowered to and the code
that this is built into. -/
theorem exists_compileExpr {e : Expr} {k : Nat} {params : List String} {t : Target}
    {c : Interpreter.Code} (hparams : e.freeSymbols = params)
    (hdistinct : Function.firstDuplicate? [] params = none)
    (ht : Lowering.lower .builtin k (.symbolic (some e)) = .ok t)
    (hc : Interpreter.build params .builtin t = .ok c) :
    ∃ f, ({ maxDepth := k } : Options).compileExpr e = .ok f ∧ f.params = params ∧ f.expr = t := by
  have hne : t ≠ .absent := by
    rintro rfl
    cases hc
  have hf : Function.compile Interpreter.backend .builtin t params =
      .ok ⟨params, t, "interpreter", fun args ↦ Interpreter.run args c⟩ := by
    simp [Function.compile, hdistinct, Interpreter.backend, hc, Except.mapError]
  refine ⟨⟨params, t, "interpreter", fun args ↦ Interpreter.run args c⟩, ?_, rfl, rfl⟩
  have hsteps : ({ maxDepth := k } : Options).compileSteps (.symbolic (some e)) =
      .ok ⟨params, t, "interpreter", fun args ↦ Interpreter.run args c⟩ := by
    have hsymbols : Node.freeSymbols (.symbolic (some e)) k = .ok params := congrArg Except.ok hparams
    simp only [compileSteps, hsymbols, Outcome.ok_bind]
    exact (congrArg (· >>= _) ht).trans hf
  exact congrArg (Except.mapError Failure.notCompilable) hsteps

/-- An expression that compiles without parameters has its variables among its free symbols, but
for the texts of applications and atoms with the tag of a symbol and for symbols beyond the depth
to which free symbols are searched. -/
theorem freeVars_mem_params_or (o : Options) (ho : o.params = none) (e : Expr) (f : Function)
    (h : o.compileExpr e = .ok f) (v : String) (hv : v ∈ f.expr.freeVars) :
    v ∈ f.params ∨ ∃ p x, e.At p x ∧ p.length ≤ o.maxDepth ∧
      (x = .sym v ∧ Expr.maxDepth < p.length ∨ x = .atom "Symbol" v ∨
        ∃ as, x = .func "Symbol" as ∧ x.render = v) := by
  obtain ⟨params, t, hparams, ht, hf⟩ := compile_eq_ok h
  obtain ⟨rfl, rfl⟩ := Function.compile_eq_ok hf
  have hfree : f.params = e.freeSymbols := by
    rw [ho] at hparams
    exact (Except.ok.inj hparams).symm
  obtain ⟨p, m, hvisited, hlen, htag, htext⟩ := Lowering.exists_visited_of_mem_vars
    (Node.grounded_symbolic e) ht (Target.mem_firstOccurrences.1 hv)
  obtain ⟨x, rfl, hx⟩ := Expr.exists_at_of_visited hvisited
  have hrender : x.render = v := Except.ok.inj htext
  rcases Expr.eq_of_tag_eq_symbol (Except.ok.inj htag) with ⟨s, rfl⟩ | ⟨as, rfl⟩ | ⟨name, rfl⟩
  · obtain rfl : s = v := hrender
    by_cases hdepth : p.length ≤ Expr.maxDepth
    · left
      rw [hfree, Expr.freeSymbols, Expr.mem_sortNames]
      exact hx.mem_symbolsAt rfl (by omega)
    · exact .inr ⟨p, _, hx, hlen, .inl ⟨rfl, by omega⟩⟩
  · exact .inr ⟨p, _, hx, hlen, .inr (.inr ⟨as, rfl, hrender⟩)⟩
  · obtain rfl : name = v := hrender
    exact .inr ⟨p, _, hx, hlen, .inr (.inl rfl)⟩

/-- The symbol of a sum is a parameter, the atom beside it is none. -/
theorem freeVars_mem_params_or_sum :
    let e : Expr := .add [.sym "x", .atom "Symbol" "y"]
    ∃ f, ({} : Options).compileExpr e = .ok f ∧ f.params = ["x"] ∧ f.expr.freeVars = ["x", "y"] ∧
      ∀ v ∈ f.expr.freeVars, v ∈ f.params ∨ ∃ p x, e.At p x ∧ p.length ≤ 10000 ∧
        (x = .sym v ∧ Expr.maxDepth < p.length ∨ x = .atom "Symbol" v ∨
          ∃ as, x = .func "Symbol" as ∧ x.render = v) := by
  intro e
  have hsymbols : e.freeSymbols = ["x"] := by decide +kernel
  obtain ⟨f, hf, hparams, hexpr⟩ := exists_compileExpr (k := 10000) hsymbols rfl rfl rfl
  exact ⟨f, hf, hparams, by rw [hexpr]; rfl, freeVars_mem_params_or {} rfl e f hf⟩

/-! ## Variables without a parameter -/

section Sines

open ExprCompiler.Lowering (lowerWithin)

/-- Sines of sines are lowered if there are levels enough. -/
theorem lowerWithin_sines {k left : Nat} (h : k < left) :
    lowerWithin .builtin left (.symbolic (some ((fun e ↦ .func "sin" [e])^[k] (.sym "x")))) =
      .ok ((fun t ↦ .call "sin" [t])^[k] (.var "x")) := by
  induction k generalizing left with
  | zero =>
      obtain ⟨left, rfl⟩ := Nat.exists_eq_succ_of_ne_zero (Nat.ne_of_gt h)
      rfl
  | succ k ih =>
      obtain ⟨left, rfl⟩ := Nat.exists_eq_succ_of_ne_zero (Nat.ne_of_gt (Nat.zero_lt_of_lt h))
      rw [Function.iterate_succ_apply', Function.iterate_succ_apply']
      have hform : Lowering.Rules.builtin.form "sin" = .application := rfl
      refine (Lowering.lowerWithin_application rfl hform).2
        ⟨_, _, rfl, List.cons_ne_nil _ _, ?_, rfl⟩
      simp only [Expr.args, List.map_cons, List.map_nil, List.mapM_cons, List.mapM_nil,
        ih (Nat.lt_of_succ_lt_succ h)]
      rfl

theorem build_sines (params : List String) (k : Nat) :
    ∃ c, Interpreter.build params .builtin ((fun t ↦ .call "sin" [t])^[k] (.var "x")) = .ok c := by
  induction k with
  | zero =>
      rw [Function.iterate_zero_apply, Interpreter.build]
      split
      · exact ⟨_, rfl⟩
      · exact ⟨_, rfl⟩
  | succ k ih =>
      obtain ⟨c, hc⟩ := ih
      have hfind : ∃ f, Registry.builtin.find? "sin" = some f := ⟨_, rfl⟩
      obtain ⟨f, hf⟩ := hfind
      refine ⟨.apply "sin" f [c], ?_⟩
      rw [Function.iterate_succ_apply', Interpreter.build, if_neg (by decide), if_neg (by decide),
        hf]
      simp [Interpreter.buildAll, hc]

theorem vars_sines (k : Nat) : Target.vars ((fun t ↦ .call "sin" [t])^[k] (.var "x")) = ["x"] := by
  induction k with
  | zero => rfl
  | succ k ih =>
      rw [Function.iterate_succ_apply', Target.vars, Target.varsAll, ih]
      rfl

/-- A symbol below more sines than the search for symbols goes through is lowered to a variable if
the limit on lowering is large enough, and is no parameter. -/
theorem exists_compileExpr_sines {k : Nat} (hk : Expr.maxDepth < k) :
    ∃ f, ({ maxDepth := k } : Options).compileExpr ((fun e ↦ .func "sin" [e])^[k] (.sym "x")) =
      .ok f ∧ f.params = [] ∧ f.expr.freeVars = ["x"] := by
  obtain ⟨c, hc⟩ := build_sines [] k
  have hsymbols : Expr.freeSymbols ((fun e ↦ .func "sin" [e])^[k] (.sym "x")) = [] := by
    rw [Expr.freeSymbols, Expr.symbolsAt_sines, Expr.symbolsAt_eq_nil (by omega)]
    decide +kernel
  obtain ⟨f, hf, hparams, hexpr⟩ :=
    exists_compileExpr hsymbols rfl (lowerWithin_sines (Nat.lt_succ_self k)) hc
  refine ⟨f, hf, hparams, ?_⟩
  rw [hexpr, Target.freeVars, vars_sines]
  rfl

end Sines

/-- A variable that is no parameter: an atom with the tag of a symbol, the text of such an
application, and a symbol beyond the depth to which free symbols are searched. -/
theorem exists_freeVar_not_mem_params :
    (∃ f, ({} : Options).compileExpr (.atom "Symbol" "y") = .ok f ∧
      f.params = [] ∧ f.expr.freeVars = ["y"]) ∧
    (∃ f, ({} : Options).compileExpr (.func "Symbol" [.sym "x"]) = .ok f ∧
      f.params = ["x"] ∧ f.expr.freeVars = ["Symbol(x)"]) ∧
    ∃ f, ({ maxDepth := 10001 } : Options).compileExpr
        ((fun e ↦ .func "sin" [e])^[10001] (.sym "x")) = .ok f ∧
      f.params = [] ∧ f.expr.freeVars = ["x"] := by
  refine ⟨?_, ?_, exists_compileExpr_sines (by decide)⟩
  · have hsymbols : Expr.freeSymbols (.atom "Symbol" "y") = [] := by decide +kernel
    obtain ⟨f, hf, hparams, hexpr⟩ := exists_compileExpr (k := 10000) hsymbols rfl rfl rfl
    exact ⟨f, hf, hparams, by rw [hexpr]; rfl⟩
  · have hsymbols : Expr.freeSymbols (.func "Symbol" [.sym "x"]) = ["x"] := by decide +kernel
    obtain ⟨f, hf, hparams, hexpr⟩ := exists_compileExpr (k := 10000) hsymbols rfl rfl rfl
    exact ⟨f, hf, hparams, by rw [hexpr]; decide +kernel⟩

end Options

end ExprCompiler
