import ExprCompiler.Proofs.Logic.Builtin
import ExprCompiler.Proofs.Semantics.Node

/-!
# Agreement of direct and compiled evaluation

Logical expressions are built from symbols, doubles, real constants, relations, branches and the
functions `And`, `Or`, `Not`, `Heaviside` and `sign`. Direct evaluation and compiled code treat a
NaN differently where it decides a branch or a step, and a conjunction or disjunction of a single
argument. Main statement: where evaluation meets none of this, both give the same double
(`Function.call_same_eval`).
-/

namespace ExprCompiler

open Numeral (Same)

namespace Expr

/-! ## Logical expressions -/

def logicalFunctions : List String := ["And", "Or", "Not", "Heaviside", "sign"]

mutual

/-- Whether an expression is built from symbols, doubles, real constants, relations, branches and
logical functions. -/
def IsLogical : Expr → Prop
  | .sym _ | .float _ => True
  | .const c => c ≠ .i ∧ c ≠ .complexInfinity
  | .rel _ lhs rhs => IsLogical lhs ∧ IsLogical rhs
  | .func name args => name ∈ logicalFunctions ∧ AllLogical args
  | .piecewise pieces => PiecesLogical pieces
  | _ => False

def AllLogical : List Expr → Prop
  | [] => True
  | e :: es => IsLogical e ∧ AllLogical es

def PiecesLogical : List (Expr × Expr) → Prop
  | [] => True
  | (e, c) :: ps => IsLogical e ∧ IsLogical c ∧ PiecesLogical ps

end

/-- Arguments on which direct evaluation and compiled code agree about a function: a step is not
that of a NaN, unless its value at zero is one too, and a single argument of a conjunction or
disjunction is a truth value. -/
structure Settled (name : String) (xs : List Float) : Prop where
  step : name = "Heaviside" → ∀ x ∈ xs.head?, x.isNaN = true → ∃ a ∈ xs[1]?, a.isNaN = true
  single : name = "And" ∨ name = "Or" → ∀ x, xs = [x] → x == 0 ∨ x == 1

mutual

/-- Whether evaluation of a node that stands `depth` below the root meets only settled arguments,
and no branch that a NaN decides. -/
def IsClear (env : Table Float) (depth : Nat) : Expr → Prop
  | .rel _ lhs rhs => IsClear env (depth + 1) lhs ∧ IsClear env (depth + 1) rhs
  | .func name args =>
    AllClear env (depth + 1) args ∧ ∀ xs, evalAll env depth args = .ok xs → Settled name xs
  | .piecewise pieces => PiecesClear env (depth + 1) pieces
  | _ => True

def AllClear (env : Table Float) (depth : Nat) : List Expr → Prop
  | [] => True
  | e :: es => IsClear env depth e ∧ AllClear env depth es

/-- Branches behind the one that is taken do not matter, nor do values of others. -/
def PiecesClear (env : Table Float) (depth : Nat) : List (Expr × Expr) → Prop
  | [] => True
  | (e, c) :: ps =>
    IsClear env depth c ∧
      ∀ x, evalAt env depth c = .ok x →
        x.isNaN = false ∧ if x != 0 then IsClear env depth e else PiecesClear env depth ps

end

/-- A logical function of plain values gives what it gives on their doubles. -/
theorem func_of_shows {name : String} {f : FloatFunction} {vs : List Value} {xs : List Float}
    {z : Float} (hname : name ∈ logicalFunctions) (hs : Settled name xs)
    (hf : FloatFunction.table.get? name = some f) (h : List.Forall₂ Value.Shows vs xs)
    (hz : f xs = .ok z) :
    Operators.builtin.resolve name ≠ "piecewise" ∧
      ∃ g u, Registry.builtin.find? (Operators.builtin.resolve name) = some g ∧ g vs = .ok u ∧
        u.Shows z := by
  simp only [logicalFunctions, List.mem_cons, List.not_mem_nil, or_false] at hname
  rcases hname with rfl | rfl | rfl | rfl | rfl
  · obtain rfl := Option.some.inj hf
    obtain ⟨u, hu, hshows⟩ := Builtin.conjunction_of_shows h (hs.single (.inl rfl)) hz
    exact ⟨by decide, _, u, rfl, hu, hshows⟩
  · obtain rfl := Option.some.inj hf
    obtain ⟨u, hu, hshows⟩ := Builtin.disjunction_of_shows h (hs.single (.inr rfl)) hz
    exact ⟨by decide, _, u, rfl, hu, hshows⟩
  · obtain rfl := Option.some.inj hf
    rcases h with _ | ⟨hx, _ | _⟩
    · cases hz
    · obtain rfl := Except.ok.inj hz
      obtain ⟨u, hu, hshows⟩ := Builtin.negation_of_shows hx
      exact ⟨by decide, _, u, rfl, hu, hshows⟩
    · cases hz
  · obtain rfl := Option.some.inj hf
    obtain ⟨u, hu, hshows⟩ := Builtin.heaviside_of_shows h (hs.step rfl) hz
    exact ⟨by decide, _, u, rfl, hu, hshows⟩
  · obtain rfl := Option.some.inj hf
    rcases h with _ | ⟨hx, _ | _⟩
    · cases hz
    · obtain rfl := Except.ok.inj hz
      obtain ⟨u, hu, hshows⟩ := Builtin.sign_of_shows hx
      exact ⟨by decide, _, u, rfl, hu, hshows⟩
    · cases hz

/-- Logical functions are lowered as applications. -/
theorem form_of_logical {name : String} (h : name ∈ logicalFunctions) :
    Lowering.Rules.builtin.form name = .application := by
  simp only [logicalFunctions, List.mem_cons, List.not_mem_nil, or_false] at h
  rcases h with rfl | rfl | rfl | rfl | rfl <;> rfl

/-- Within the limit a descent gives what its continuation does. -/
theorem of_descend {α : Type} {depth : Nat} {next : Unit → Except EvalError α} {a : α}
    (h : descend depth next = .ok a) : next () = .ok a := by
  unfold descend at h
  split at h
  · cases h
  · exact h

end Expr

/-! ## Lowered logical expressions -/

namespace Lowering

open ExprCompiler.Expr (IsLogical IsClear evalAt evalAll evalPieces)

variable {left depth : Nat} {env : Table Float} {ρ : Table Value}

theorem lowerWithin_float {x : Float} {t : Target}
    (h : lowerWithin .builtin (left + 1) (.symbolic (some (.float x))) = .ok t) :
    t = .lit (.float x) := (Except.ok.inj h).symm

/-- A real constant is lowered to a value that shows it. -/
theorem lowerWithin_const {c : Constant} {t : Target} (hi : c ≠ .i) (hinf : c ≠ .complexInfinity)
    (h : lowerWithin .builtin (left + 1) (.symbolic (some (.const c))) = .ok t) :
    ∃ v, t = .lit v ∧ v.Shows c.value.re := by
  cases c with
  | i => exact absurd rfl hi
  | complexInfinity => exact absurd rfl hinf
  | true => exact ⟨_, (Except.ok.inj h).symm, Value.shows_bool true⟩
  | false => exact ⟨_, (Except.ok.inj h).symm, Value.shows_bool false⟩
  | _ => exact ⟨_, (Except.ok.inj h).symm, Value.shows_float _⟩

/-- Lowered with some levels left, an expression has a value that shows that of direct
evaluation. -/
def Agrees (env : Table Float) (ρ : Table Value) (left depth : Nat) (e : Expr) : Prop :=
  ∀ ⦃t : Target⦄ ⦃z : Float⦄, e.IsLogical → e.IsClear env depth →
    lowerWithin .builtin left (.symbolic (some e)) = .ok t → evalAt env depth e = .ok z →
      ∃ v, t.value Registry.builtin ρ = .ok v ∧ v.Shows z

theorem agrees_float (x : Float) : Agrees env ρ (left + 1) depth (.float x) := by
  intro t z he hclear ht hz
  obtain rfl := Except.ok.inj hz
  rw [lowerWithin_float ht]
  exact ⟨_, rfl, Value.shows_float x⟩

theorem agrees_sym (hρ : ∀ name x, env.get? name = some x → ρ.get? name = some (.float x))
    (name : String) : Agrees env ρ (left + 1) depth (.sym name) := by
  intro t z he hclear ht hz
  rw [lowerWithin_sym ht]
  rw [evalAt] at hz
  split at hz
  · rename_i x hx
    obtain rfl := Except.ok.inj hz
    refine ⟨_, ?_, Value.shows_float x⟩
    rw [Target.value, Value.lookup, hρ name x hx]
  · cases hz

theorem agrees_const (c : Constant) : Agrees env ρ (left + 1) depth (.const c) := by
  intro t z he hclear ht hz
  obtain ⟨v, rfl, hshows⟩ := lowerWithin_const he.1 he.2 ht
  rw [evalAt] at hz
  split at hz
  · cases hz
  · obtain rfl := Except.ok.inj hz
    exact ⟨v, rfl, hshows⟩

theorem agrees_rel (hagrees : ∀ depth e, Agrees env ρ left depth e) (op : Relation)
    (lhs rhs : Expr) : Agrees env ρ (left + 1) depth (.rel op lhs rhs) := by
  intro t z he hclear ht hz
  have hform : Rules.builtin.form op.tag = .application := by cases op <;> rfl
  obtain ⟨ns, ts, hns, -, hts, rfl⟩ := (lowerWithin_application rfl hform).1 ht
  cases hns
  rcases Outcome.forall₂_of_mapM hts with _ | ⟨hta, _ | ⟨htb, _ | _⟩⟩
  obtain ⟨a, ha, hz⟩ := Outcome.bind_eq_ok.1 hz
  obtain ⟨b, hb, hz⟩ := Outcome.bind_eq_ok.1 hz
  obtain rfl := Except.ok.inj hz
  obtain ⟨v, hv, hva⟩ := hagrees _ lhs he.1 hclear.1 hta (Expr.of_descend ha)
  obtain ⟨w, hw, hwb⟩ := hagrees _ rhs he.2 hclear.2 htb (Expr.of_descend hb)
  obtain ⟨f, hf, hr⟩ := Builtin.relation_of_shows op hva hwb
  refine ⟨_, Target.value_call ?_ hf (Target.values_pair hv hw) hr rfl, Value.shows_bool _⟩
  cases op <;> decide

/-! ### Functions -/

theorem values_of_agrees (hagrees : ∀ depth e, Agrees env ρ left depth e) {es : List Expr}
    {ts : List Target} {xs : List Float}
    (hts : List.Forall₂ (fun e t ↦ lowerWithin .builtin left (.symbolic (some e)) = .ok t) es ts)
    (hes : Expr.AllLogical es) (hclear : Expr.AllClear env (depth + 1) es)
    (hxs : evalAll env depth es = .ok xs) :
    ∃ vs, Target.values Registry.builtin ρ ts = .ok vs ∧ List.Forall₂ Value.Shows vs xs := by
  induction hts generalizing xs with
  | nil =>
      obtain rfl := Except.ok.inj hxs
      exact ⟨[], rfl, .nil⟩
  | cons ht _ ih =>
      obtain ⟨x, hx, hxs⟩ := Outcome.bind_eq_ok.1 hxs
      obtain ⟨xs', hxs', hxs⟩ := Outcome.bind_eq_ok.1 hxs
      obtain rfl := Except.ok.inj hxs
      obtain ⟨v, hv, hshows⟩ := hagrees _ _ hes.1 hclear.1 ht (Expr.of_descend hx)
      obtain ⟨vs, hvs, hall⟩ := ih hes.2 hclear.2 hxs'
      refine ⟨v :: vs, ?_, .cons hshows hall⟩
      rw [Target.values, hv, hvs]
      rfl

theorem agrees_func (hagrees : ∀ depth e, Agrees env ρ left depth e) (name : String)
    (args : List Expr) : Agrees env ρ (left + 1) depth (.func name args) := by
  intro t z he hclear ht hz
  have hform := Expr.form_of_logical he.1
  obtain ⟨ns, ts, hns, -, hts, rfl⟩ := (lowerWithin_application rfl hform).1 ht
  cases hns
  rw [evalAt] at hz
  split at hz
  · cases hz
  · rename_i f hf
    obtain ⟨xs, hxs, hz⟩ := Outcome.bind_eq_ok.1 hz
    have hall := List.forall₂_map_left_iff.1 (Outcome.forall₂_of_mapM hts)
    obtain ⟨vs, hvs, hshows⟩ := values_of_agrees hagrees hall he.2 hclear.1 hxs
    obtain ⟨hne, g, u, hg, hu, hz⟩ := Expr.func_of_shows he.1 (hclear.2 xs hxs) hf hshows hz
    exact ⟨u, Target.value_call hne hg hvs hu hz.isValid, hz⟩

/-! ### Branches -/

/-- A pair is lowered to a pair, one level further down. -/
theorem lowerWithin_pair {e c : Expr} {t : Target}
    (h : lowerWithin .builtin left (.symbolic (some (.pair e c))) = .ok t) :
    ∃ left' te tc, left = left' + 1 ∧ t = .call "pair" [te, tc] ∧
      lowerWithin .builtin left' (.symbolic (some e)) = .ok te ∧
      lowerWithin .builtin left' (.symbolic (some c)) = .ok tc := by
  cases left with
  | zero => cases h
  | succ left =>
      obtain ⟨ns, ts, hns, -, hts, rfl⟩ := (lowerWithin_application rfl rfl).1 h
      cases hns
      rcases Outcome.forall₂_of_mapM hts with _ | ⟨hte, _ | ⟨htc, _ | _⟩⟩
      exact ⟨left, _, _, rfl, rfl, hte, htc⟩

/-- Both take the first branch whose condition holds, as long as no condition is a NaN. -/
theorem firstBranch_of_agrees (hagrees : ∀ left' < left, ∀ depth e, Agrees env ρ left' depth e)
    {ps : List (Expr × Expr)} {ts : List Target} {z : Float}
    (hts : List.Forall₂
      (fun p t ↦ lowerWithin .builtin left (.symbolic (some (.pair p.1 p.2))) = .ok t) ps ts)
    (hps : Expr.PiecesLogical ps) (hclear : Expr.PiecesClear env (depth + 1) ps)
    (hz : evalPieces env depth ps = .ok z) :
    ∃ v, Target.firstBranch Registry.builtin ρ ts = .ok v ∧ v.Shows z := by
  induction hts with
  | nil =>
      obtain rfl := Except.ok.inj hz
      exact ⟨_, rfl, Value.shows_float _⟩
  | @cons p t ps ts ht _ ih =>
      obtain ⟨e, c⟩ := p
      obtain ⟨left', te, tc, rfl, rfl, hte, htc⟩ := lowerWithin_pair ht
      have hagrees' := hagrees left' (Nat.lt_succ_self left') (depth + 1)
      obtain ⟨x, hx, hz⟩ := Outcome.bind_eq_ok.1 hz
      have hx := Expr.of_descend hx
      obtain ⟨hnan, hrest⟩ := hclear.2 x hx
      obtain ⟨v, hv, hshows⟩ := hagrees' c hps.2.1 hclear.1 htc hx
      rw [Target.firstBranch, if_pos rfl, hv, Outcome.ok_bind, hshows.truth]
      rw [hnan, Bool.not_false, Bool.and_true] at hz
      by_cases htrue : (x != 0) = true
      · rw [if_pos htrue] at hz hrest ⊢
        exact hagrees' e hps.1 hrest hte (Expr.of_descend hz)
      · rw [if_neg htrue] at hz hrest ⊢
        exact ih hps.2.2 hrest hz

/-- Piecewise expressions agree if everything below them does. Their branches lie two levels down.
-/
theorem agrees_piecewise (hagrees : ∀ left' < left, ∀ depth e, Agrees env ρ left' depth e)
    (pieces : List (Expr × Expr)) : Agrees env ρ (left + 1) depth (.piecewise pieces) := by
  intro t z he hclear ht hz
  obtain ⟨ns, ts, hns, -, hts, rfl⟩ := (lowerWithin_application rfl rfl).1 ht
  cases hns
  have hall := List.forall₂_map_left_iff.1 (List.forall₂_map_left_iff.1
    (Outcome.forall₂_of_mapM hts))
  have htag : Rules.builtin.operators.resolve (Expr.piecewise pieces).tag = "piecewise" := rfl
  rw [Target.value, if_pos htag]
  exact firstBranch_of_agrees hagrees hall he hclear hz

/-- Direct evaluation and lowered code agree on clear logical expressions. -/
theorem agrees (hρ : ∀ name x, env.get? name = some x → ρ.get? name = some (.float x))
    (left depth : Nat) (e : Expr) : Agrees env ρ left depth e := by
  -- The values of branches stand two levels below the node that chooses among them.
  induction left using Nat.strongRecOn generalizing depth e with
  | ind left ih =>
      cases left with
      | zero =>
          intro t z he hclear ht hz
          simp [lowerWithin, Node.tag] at ht
      | succ left =>
          have hagrees := ih left (Nat.lt_succ_self left)
          cases e with
          | float x => exact agrees_float x
          | sym name => exact agrees_sym hρ name
          | const c => exact agrees_const c
          | rel op lhs rhs => exact agrees_rel hagrees op lhs rhs
          | func name args => exact agrees_func hagrees name args
          | piecewise pieces =>
              exact agrees_piecewise (fun k hk ↦ ih k (Nat.lt_succ_of_lt hk)) pieces
          | _ =>
              intro t z he
              cases he

end Lowering

theorem Value.IsPlain.real {v : Value} (h : v.IsPlain) : v.real = .ok v.asFloat := by
  cases v with
  | invalid | complex => cases h
  | _ => rfl

namespace Function

/-- If direct evaluation of a clear logical expression gives a double, then so does a function
compiled from it, and the two are the same. -/
theorem call_same_eval {e : Expr} {names : List String} {f : Function} {xs : List Float}
    {z : Float} (he : e.IsLogical) (hclear : e.IsClear (names.zip xs) 0)
    (hf : (Options.withParams {} names).compileExpr e = .ok f) (hlen : xs.length = names.length)
    (hz : e.eval (names.zip xs) = .ok z) : ∃ y, f.call xs = .ok y ∧ Same y z := by
  obtain ⟨params, t, hparams, ht, hf⟩ := Options.compile_eq_ok hf
  obtain rfl : names = params := by simpa [Options.withParams] using hparams
  have hρ (name : String) (x : Float) (h : Table.get? (names.zip xs) name = some x) :
      Table.get? (names.zip (xs.map Value.float)) name = some (.float x) := by
    rw [Table.get?_zip_map, h]
    rfl
  obtain ⟨v, hv, hshows⟩ := Lowering.agrees hρ _ 0 e he hclear ht hz
  have heval : f.eval (xs.map .float) = .ok v := by
    rw [(Function.eval_of_compile hf).2 _ (by simpa using hlen) (by simp [Value.isValid]), ← hv]
    rfl
  refine ⟨v.asFloat, ?_, hshows.same⟩
  rw [call, heval, Outcome.ok_bind, hshows.plain.real]

/-- NaNs and infinities are compared, negated, joined and stepped over without a difference. -/
theorem call_same_eval_at_nan :
    let x : Expr := .sym "x"
    let y : Expr := .sym "y"
    let c : Expr := .func "And" [.rel .lt x y, .func "Not" [x]]
    let d : Expr := .func "Or" [.rel .le y (.const .infinity), x]
    let e : Expr := .piecewise [(.func "sign" [y], c), (.func "Heaviside" [x, x], d)]
    ∃ f, (Options.withParams {} ["x", "y"]).compileExpr e = .ok f ∧
      ∃ z, f.call [Elementary.nan, -Elementary.infinity] = .ok z ∧ z.isNaN = true := by
  intro x y c d e
  have he : e.IsLogical := by
    simp [e, c, d, x, y, Expr.IsLogical, Expr.PiecesLogical, Expr.AllLogical, Expr.logicalFunctions]
  have hnot : Expr.Settled "Not" [Elementary.nan] := ⟨by simp, by simp⟩
  have hand : Expr.Settled "And" [0, 0] := ⟨by simp, by simp⟩
  have hor : Expr.Settled "Or" [1, Elementary.nan] := ⟨by simp, by simp⟩
  have hstep : Expr.Settled "Heaviside" [Elementary.nan, Elementary.nan] :=
    ⟨by decide +kernel, by simp⟩
  have hclear : e.IsClear (["x", "y"].zip [Elementary.nan, -Elementary.infinity]) 0 := by
    refine ⟨⟨⟨⟨trivial, trivial⟩, ⟨⟨trivial, trivial⟩, ?_⟩, trivial⟩, ?_⟩, ?_⟩
    · rintro _ ⟨⟩
      exact hnot
    · rintro _ ⟨⟩
      exact hand
    · rintro _ ⟨⟩
      refine ⟨by decide +kernel, ?_⟩
      rw [if_neg (by decide +kernel)]
      refine ⟨⟨⟨⟨trivial, trivial⟩, trivial, trivial⟩, ?_⟩, ?_⟩
      · rintro _ ⟨⟩
        exact hor
      · rintro _ ⟨⟩
        refine ⟨by decide +kernel, ?_⟩
        rw [if_pos (by decide +kernel)]
        refine ⟨⟨trivial, trivial, trivial⟩, ?_⟩
        rintro _ ⟨⟩
        exact hstep
  have heval : e.eval (["x", "y"].zip [Elementary.nan, -Elementary.infinity]) =
      .ok Elementary.nan := by
    decide +kernel
  obtain ⟨f, hf⟩ : ∃ f, (Options.withParams {} ["x", "y"]).compileExpr e = .ok f := ⟨_, rfl⟩
  obtain ⟨z, hz, hsame⟩ := call_same_eval he hclear hf rfl heval
  exact ⟨f, hf, z, hz, hsame.isNaN_eq.trans (by decide +kernel)⟩

/-- The two differ if a NaN decides a branch or a step, and if a conjunction or disjunction has a
single argument that is no truth value. -/
theorem exists_call_not_same_eval :
    let differ (e : Expr) (x : Float) : Prop :=
      e.IsLogical ∧ ∃ f y z, (Options.withParams {} ["x"]).compileExpr e = .ok f ∧
        f.call [x] = .ok y ∧ e.eval [("x", x)] = .ok z ∧ ¬Same y z
    differ (.piecewise [(.float 1, .sym "x")]) Elementary.nan ∧
      differ (.func "Heaviside" [.sym "x"]) Elementary.nan ∧
      differ (.func "And" [.sym "x"]) 2 ∧ differ (.func "Or" [.sym "x"]) 2 := by
  intro differ
  refine ⟨?_, ?_, ?_, ?_⟩
  · exact ⟨⟨trivial, trivial, trivial⟩, _, 1, Elementary.nan, rfl, rfl, rfl, by decide +kernel⟩
  · exact ⟨⟨by decide, trivial, trivial⟩, _, _, _, rfl, rfl, rfl, by decide +kernel⟩
  · exact ⟨⟨by decide, trivial, trivial⟩, _, _, 2, rfl, rfl, rfl, by decide +kernel⟩
  · exact ⟨⟨by decide, trivial, trivial⟩, _, _, 2, rfl, rfl, rfl, by decide +kernel⟩

end Function

end ExprCompiler
