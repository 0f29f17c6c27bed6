import ExprCompiler.Proofs.Expr.Subterm
import ExprCompiler.Proofs.Expr.Valuation
import ExprCompiler.Proofs.Semantics.Target
import ExprCompiler.Sampling.Plotter

/-!
# Symbols that evaluation comes to

Evaluation on the tree and the search for free symbols stop at one depth, but they count levels
differently: for the search each branch of a choice is a node between the choice and what stands in
the branch, and evaluation passes over it. A symbol below choices can therefore be within the reach
of evaluation and beyond that of the search (`Expr.Hides`). Main statement: evaluation ends at no
other symbol if all free symbols are bound, and so the check before sampling on the tree suffices
for these (`Expr.eval_ne_unbound`).
-/

namespace ExprCompiler

namespace Expr

/-! ## Levels of evaluation -/

/-- What evaluation may ask the value of on its way to the value of a node. -/
def operands : Expr → List Expr
  | .piecewise pieces => pieces.flatMap fun p ↦ [p.1, p.2]
  | .pair value _ => [value]
  | e => e.args

def isChoice : Expr → Bool
  | .piecewise _ => true
  | _ => false

/-- What evaluation comes to in an expression, with the number of levels that it goes down and the
number of choices on the way. -/
inductive Sees : Expr → Nat → Nat → Expr → Prop
  | here {e : Expr} : Sees e 0 0 e
  | inside {e a x : Expr} {levels choices : Nat} (mem : a ∈ e.operands)
      (rest : Sees a levels choices x) : Sees e (levels + 1) (choices + e.isChoice.toNat) x

/-- Whether a symbol stands within the limit for evaluation, but beyond it if the branches on the
way are counted as levels too. -/
def Hides (e : Expr) (s : String) : Prop :=
  ∃ levels choices, e.Sees levels choices (.sym s) ∧ levels ≤ maxDepth ∧
    maxDepth < levels + choices

section Levels

variable {e a x : Expr} {s : String} {levels choices : Nat}

/-- What stands in an operand stands one level further down in the node, and two levels if the node
is a choice. -/
theorem At.exists_of_mem_operands {p : List Nat} (ha : a ∈ e.operands) (h : a.At p x) :
    ∃ q, e.At q x ∧ q.length = p.length + 1 + e.isChoice.toNat := by
  cases e with
  | piecewise ps =>
      obtain ⟨q, hq, ha⟩ := List.mem_flatMap.1 ha
      obtain ⟨i, hi⟩ := h.exists_of_mem_args (e := .pair q.1 q.2) ha
      obtain ⟨k, hk⟩ := hi.exists_of_mem_args (e := .piecewise ps) (List.mem_map.2 ⟨q, hq, rfl⟩)
      exact ⟨k :: i :: p, hk, rfl⟩
  | pair value condition =>
      obtain ⟨i, hi⟩ := h.exists_of_mem_args (e := .pair value condition)
        (List.mem_cons.2 (.inl (List.mem_singleton.1 ha)))
      exact ⟨i :: p, hi, rfl⟩
  | _ =>
      simp only [operands] at ha
      obtain ⟨i, hi⟩ := h.exists_of_mem_args ha
      exact ⟨i :: p, hi, rfl⟩

/-- The search counts a level for each that evaluation counts, and one for each choice. -/
theorem Sees.exists_at (h : e.Sees levels choices x) :
    ∃ p, e.At p x ∧ p.length = levels + choices := by
  induction h with
  | here => exact ⟨[], .here, rfl⟩
  | inside mem _ ih =>
      obtain ⟨p, hp, hlength⟩ := ih
      obtain ⟨q, hq, hq'⟩ := hp.exists_of_mem_operands mem
      exact ⟨q, hq, by omega⟩

/-- The search finds what evaluation comes to, unless it is hidden. -/
theorem Sees.mem_freeSymbols (h : e.Sees levels choices (.sym s))
    (hlevels : levels + choices ≤ maxDepth) : s ∈ e.freeSymbols := by
  obtain ⟨p, hp, hlength⟩ := h.exists_at
  exact mem_sortNames.2 (hp.mem_symbolsAt rfl (by omega))

end Levels

/-! ## Where an unbound symbol comes from -/

namespace FloatFunction

variable {s : String} {xs : List Float}

theorem unary_ne_unbound {f : Float → Float} : unary f xs ≠ .error (.unbound s) := by
  fun_cases unary f xs <;> simp

theorem binary_ne_unbound {f : Float → Float → Float} : binary f xs ≠ .error (.unbound s) := by
  fun_cases binary f xs <;> simp

theorem fold_ne_unbound {f : Float → Float → Float} : fold f xs ≠ .error (.unbound s) := by
  fun_cases fold f xs <;> simp

theorem log_ne_unbound : log xs ≠ .error (.unbound s) := by
  fun_cases log xs <;> simp

theorem heaviside_ne_unbound : heaviside xs ≠ .error (.unbound s) := by
  fun_cases heaviside xs <;> simp

theorem zeta_ne_unbound : zeta xs ≠ .error (.unbound s) := by
  fun_cases zeta xs <;> simp

/-- No function complains of a symbol. -/
theorem ne_unbound_of_get? {name : String} {f : FloatFunction} (h : table.get? name = some f) :
    f xs ≠ .error (.unbound s) := by
  have hall : ∀ e ∈ table, e.2 xs ≠ .error (.unbound s) := by
    simp only [table, List.forall_mem_cons]
    simp [unary_ne_unbound, binary_ne_unbound, fold_ne_unbound, log_ne_unbound,
      heaviside_ne_unbound, zeta_ne_unbound]
  rw [Table.get?] at h
  obtain ⟨e, he, rfl⟩ := Option.map_eq_some_iff.1 h
  exact hall e (List.mem_of_find?_eq_some he)

end FloatFunction

section Unbound

variable {env : Table Float} {depth : Nat} {s : String}

theorem of_descend_unbound {α : Type} {next : Unit → Except EvalError α}
    (h : descend depth next = .error (.unbound s)) :
    depth < maxDepth ∧ next () = .error (.unbound s) := by
  unfold descend at h
  split at h
  · cases h
  · exact ⟨by omega, h⟩

/-- An unbound name in a list comes from one of its expressions. -/
theorem exists_mem_of_evalAll {es : List Expr}
    (h : evalAll env depth es = .error (.unbound s)) :
    depth < maxDepth ∧ ∃ e ∈ es, evalAt env (depth + 1) e = .error (.unbound s) := by
  induction es with
  | nil => cases h
  | cons e es ih =>
      rw [evalAll] at h
      rcases Outcome.bind_eq_error.1 h with he | ⟨x, -, h⟩
      · obtain ⟨hdepth, he⟩ := of_descend_unbound he
        exact ⟨hdepth, e, List.mem_cons_self, he⟩
      · rcases Outcome.bind_eq_error.1 h with hes | ⟨xs, -, h⟩
        · obtain ⟨hdepth, a, ha, h⟩ := ih hes
          exact ⟨hdepth, a, List.mem_cons_of_mem e ha, h⟩
        · cases h

theorem exists_mem_of_evalPieces {ps : List (Expr × Expr)}
    (h : evalPieces env depth ps = .error (.unbound s)) :
    depth < maxDepth ∧ ∃ p ∈ ps, ∃ e ∈ [p.1, p.2],
      evalAt env (depth + 1) e = .error (.unbound s) := by
  induction ps with
  | nil => cases h
  | cons p ps ih =>
      obtain ⟨e, c⟩ := p
      rw [evalPieces] at h
      rcases Outcome.bind_eq_error.1 h with hc | ⟨x, -, h⟩
      · obtain ⟨hdepth, hc⟩ := of_descend_unbound hc
        exact ⟨hdepth, (e, c), List.mem_cons_self, c, by simp, hc⟩
      · split at h
        · obtain ⟨hdepth, he⟩ := of_descend_unbound h
          exact ⟨hdepth, (e, c), List.mem_cons_self, e, by simp, he⟩
        · obtain ⟨hdepth, p, hp, h⟩ := ih h
          exact ⟨hdepth, p, List.mem_cons_of_mem _ hp, h⟩

/-- One step: an unbound symbol is the node itself or comes from one of its operands. -/
theorem exists_operand_of_unbound {e : Expr} (h : evalAt env depth e = .error (.unbound s)) :
    e = .sym s ∧ env.get? s = none ∨
      depth < maxDepth ∧ ∃ a ∈ e.operands, evalAt env (depth + 1) a = .error (.unbound s) := by
  -- an operand that is asked for after others have given their values
  have hnext {a : Expr} (ha : a ∈ e.operands)
      (h : descend depth (fun _ ↦ evalAt env (depth + 1) a) = .error (.unbound s)) :
      depth < maxDepth ∧ ∃ a ∈ e.operands, evalAt env (depth + 1) a = .error (.unbound s) := by
    obtain ⟨hdepth, h⟩ := of_descend_unbound h
    exact ⟨hdepth, a, ha, h⟩
  cases e with
  | num q | float x | atom tag name =>
      rw [evalAt] at h
      cases h
  | const c =>
      rw [evalAt] at h
      split at h <;> cases h
  | sym name =>
      rw [evalAt] at h
      split at h
      · cases h
      · cases h
        exact .inl ⟨rfl, by assumption⟩
  | add es | mul es =>
      rw [evalAt] at h
      rcases Outcome.bind_eq_error.1 h with h | ⟨xs, -, h⟩
      · exact .inr (exists_mem_of_evalAll h)
      · cases h
  | func name es =>
      rw [evalAt] at h
      split at h
      · cases h
      · rename_i f hf
        rcases Outcome.bind_eq_error.1 h with h | ⟨xs, -, h⟩
        · exact .inr (exists_mem_of_evalAll h)
        · exact absurd h (FloatFunction.ne_unbound_of_get? hf)
  | pow a b | rel op a b =>
      rw [evalAt] at h
      rcases Outcome.bind_eq_error.1 h with ha | ⟨x, -, h⟩
      · exact .inr (hnext (by simp [operands, args]) ha)
      · rcases Outcome.bind_eq_error.1 h with hb | ⟨y, -, h⟩
        · exact .inr (hnext (by simp [operands, args]) hb)
        · cases h
  | piecewise ps =>
      rw [evalAt] at h
      obtain ⟨hdepth, p, hp, a, ha, h⟩ := exists_mem_of_evalPieces h
      exact .inr ⟨hdepth, a, List.mem_flatMap.2 ⟨p, hp, ha⟩, h⟩
  | pair value condition =>
      rw [evalAt] at h
      exact .inr (hnext (List.mem_singleton.2 rfl) h)

/-- The whole run: an unbound symbol stands where evaluation comes to, within the limit. -/
theorem exists_sees_of_unbound {e : Expr} (h : evalAt env depth e = .error (.unbound s))
    (hdepth : depth ≤ maxDepth) :
    env.get? s = none ∧
      ∃ levels choices, e.Sees levels choices (.sym s) ∧ depth + levels ≤ maxDepth := by
  -- by induction on the levels that are left
  obtain ⟨left, hleft⟩ := Nat.exists_eq_add_of_le hdepth
  induction left generalizing depth e with
  | zero =>
      rcases exists_operand_of_unbound h with ⟨rfl, hnone⟩ | ⟨hlt, -⟩
      · exact ⟨hnone, 0, 0, .here, hdepth⟩
      · omega
  | succ left ih =>
      rcases exists_operand_of_unbound h with ⟨rfl, hnone⟩ | ⟨hlt, a, ha, h⟩
      · exact ⟨hnone, 0, 0, .here, hdepth⟩
      · obtain ⟨hnone, levels, choices, hsees, hle⟩ := ih h hlt (by omega)
        exact ⟨hnone, levels + 1, choices + e.isChoice.toNat, .inside ha hsees, by omega⟩

/-- A symbol that evaluation finds unbound is free or hidden. -/
theorem mem_freeSymbols_or_hides {e : Expr} (h : e.eval env = .error (.unbound s)) :
    env.get? s = none ∧ (s ∈ e.freeSymbols ∨ e.Hides s) := by
  obtain ⟨hnone, levels, choices, hsees, hle⟩ := exists_sees_of_unbound h (Nat.zero_le maxDepth)
  rw [Nat.zero_add] at hle
  refine ⟨hnone, ?_⟩
  by_cases hlevels : levels + choices ≤ maxDepth
  · exact .inl (hsees.mem_freeSymbols hlevels)
  · exact .inr ⟨levels, choices, hsees, hle, by omega⟩

end Unbound

end Expr

/-! ## Parameters -/

section Bound

variable {e : Expr} {params : List String} {args : List Float} {name : String}

theorem Sampling.exists_foldl_insert {ps : List (String × Float)} {env : Table Float}
    (h : (∃ x, env.get? name = some x) ∨ name ∈ ps.map Prod.fst) :
    ∃ x, (ps.foldl (fun env p ↦ env.insert p.1 p.2) env).get? name = some x := by
  induction ps generalizing env with
  | nil => simpa using h
  | cons p ps ih =>
      rw [List.foldl_cons]
      refine ih ?_
      by_cases hp : p.1 = name
      · exact .inl ⟨p.2, by rw [Table.get?_insert, if_pos hp]⟩
      · rcases h with ⟨x, hx⟩ | h
        · exact .inl ⟨x, by rw [Table.get?_insert, if_neg hp, hx]⟩
        · exact .inr ((List.mem_cons.1 h).resolve_left (Ne.symm hp))

/-- The arguments give a value to every parameter. -/
theorem Sampling.exists_environment (hlength : args.length = params.length) (h : name ∈ params) :
    ∃ x, (environment params args).get? name = some x := by
  refine exists_foldl_insert (.inr ?_)
  rwa [List.map_fst_zip hlength.ge]

/-- Without an unbound symbol every free symbol is a parameter. -/
theorem Sampling.mem_params_of_firstUnbound? (h : firstUnbound? e params = none)
    (hname : name ∈ e.freeSymbols) : name ∈ params := by
  simpa using List.find?_eq_none.1 h name hname

/-! ## Choices below sines -/

/-- Sines stand above what evaluation comes to, one level each. -/
theorem Expr.Sees.of_sines {s : String} {k levels choices : Nat}
    (h : Sees ((fun e ↦ .func "sin" [e])^[k] e) levels choices (.sym s)) :
    ∃ inner, levels = inner + k ∧ e.Sees inner choices (.sym s) := by
  induction k generalizing levels with
  | zero => exact ⟨levels, rfl, h⟩
  | succ k ih =>
      rw [Function.iterate_succ_apply'] at h
      cases h with
      | inside mem rest =>
          obtain rfl := List.mem_singleton.1 mem
          obtain ⟨inner, rfl, hinner⟩ := ih rest
          exact ⟨inner, rfl, hinner⟩

/-- Sines that stand above what gives an error within the limit. -/
theorem Expr.evalAt_sines {env : Table Float} {err : EvalError} {k depth : Nat}
    (hdepth : depth + k ≤ maxDepth) (h : evalAt env (depth + k) e = .error err) :
    evalAt env depth ((fun e ↦ .func "sin" [e])^[k] e) = .error err := by
  induction k generalizing depth with
  | zero => exact h
  | succ k ih =>
      have hin : evalAt env (depth + 1) ((fun e ↦ .func "sin" [e])^[k] e) = .error err :=
        ih (by omega) (by rwa [Nat.add_right_comm])
      have hlt : ¬maxDepth ≤ depth := by omega
      have hsin : FloatFunction.table.get? "sin" = some (FloatFunction.unary Float.sin) := rfl
      rw [Function.iterate_succ_apply', evalAt, hsin]
      simp [evalAll, descend, hlt, hin]

/-- A choice below sines. -/
def Expr.choiceBelow (sines : Nat) : Expr :=
  (fun e ↦ .func "sin" [e])^[sines] (.piecewise [(.sym "x", .const .true)])

/-- The branch of a choice is two levels below the choice for the search. -/
theorem Expr.not_hides_choiceBelow {k : Nat} (hk : k + 2 ≤ maxDepth) (s : String) :
    ¬(choiceBelow k).Hides s := by
  rintro ⟨levels, choices, hsees, -, hlt⟩
  obtain ⟨inner, rfl, hinner⟩ := Sees.of_sines (k := k) hsees
  cases hinner with
  | inside mem rest =>
      rcases List.mem_pair.1 mem with rfl | rfl
      · cases rest with
        | here =>
            simp only [isChoice, Bool.toNat_true] at hlt
            omega
        | inside mem _ => cases mem
      · cases rest with
        | inside mem _ => cases mem

/-- For evaluation it is one level below. -/
theorem Expr.eval_choiceBelow {k : Nat} (hk : k + 1 ≤ maxDepth) {env : Table Float}
    (henv : env.get? "x" = none) : (choiceBelow k).eval env = .error (.unbound "x") := by
  have hlt : ¬maxDepth ≤ k := by omega
  have htrue : evalAt env (k + 1) (.const .true) = .ok 1 := rfl
  have hholds : ((1 : Float) != 0 && !(1 : Float).isNaN) = true := by decide +kernel
  refine evalAt_sines (by omega) ?_
  rw [Nat.zero_add, evalAt, evalPieces]
  simp only [descend, hlt, if_false, htrue, Outcome.ok_bind, hholds, if_true]
  rw [evalAt, henv]

/-! ## The check of the free symbols -/

/-- Evaluation does not end at a symbol that is not hidden if all free symbols are bound. So it does
not after the check of the free symbols against the parameters, at any arguments for these. -/
theorem Expr.eval_ne_unbound {e : Expr} {s : String} (hseen : ¬e.Hides s) :
    (∀ env : Table Float, (∀ t ∈ e.freeSymbols, ∃ x, env.get? t = some x) →
      e.eval env ≠ .error (.unbound s)) ∧
    ∀ (params : List String) (args : List Float), Sampling.firstUnbound? e params = none →
      args.length = params.length →
      e.eval (Sampling.environment params args) ≠ .error (.unbound s) := by
  have hbound (env : Table Float) (henv : ∀ t ∈ e.freeSymbols, ∃ x, env.get? t = some x) :
      e.eval env ≠ .error (.unbound s) := by
    intro h
    obtain ⟨hnone, hfree | hhides⟩ := mem_freeSymbols_or_hides h
    · obtain ⟨x, hx⟩ := henv s hfree
      cases hnone.symm.trans hx
    · exact hseen hhides
  refine ⟨hbound, fun params args hcheck hlength ↦ hbound _ fun t ht ↦ ?_⟩
  exact Sampling.exists_environment hlength (Sampling.mem_params_of_firstUnbound? hcheck ht)

/-- Below 9998 sines the branch is just within the search. -/
theorem Expr.eval_ne_unbound_choiceBelow :
    (∀ s, ¬(choiceBelow 9998).Hides s) ∧ (choiceBelow 9998).freeSymbols = ["x"] ∧
      Sampling.firstUnbound? (choiceBelow 9998) ["x"] = none ∧
      ∀ (x : Float) (s : String),
        (choiceBelow 9998).eval (Sampling.environment ["x"] [x]) ≠ .error (.unbound s) := by
  have hfree : (choiceBelow 9998).freeSymbols = ["x"] := by
    rw [freeSymbols, choiceBelow, symbolsAt_sines]
    decide +kernel
  have hcheck : Sampling.firstUnbound? (choiceBelow 9998) ["x"] = none := by
    rw [Sampling.firstUnbound?, hfree]
    rfl
  have hseen := not_hides_choiceBelow (k := 9998) (by decide)
  exact ⟨hseen, hfree, hcheck, fun x s ↦ (eval_ne_unbound (hseen s)).2 ["x"] [x] hcheck rfl⟩

/-- Below one sine more it is at the limit for evaluation and beyond it for the search: the symbol
is not free and the check passes, and yet evaluation ends at this symbol. -/
theorem Expr.exists_eval_unbound :
    (choiceBelow 9999).freeSymbols = [] ∧
      (choiceBelow 9999).eval [] = .error (.unbound "x") ∧
      Sampling.firstUnbound? (choiceBelow 9999) ["t"] = none ∧
      Sampling.evaluateDirectly (choiceBelow 9999) ["t"] [0] =
        .error (.reported "unbound symbol x") := by
  have hfree : (choiceBelow 9999).freeSymbols = [] := by
    rw [freeSymbols, choiceBelow, symbolsAt_sines]
    decide +kernel
  refine ⟨hfree, eval_choiceBelow (by decide) rfl, ?_, ?_⟩
  · rw [Sampling.firstUnbound?, hfree]
    rfl
  · rw [Sampling.evaluateDirectly, eval_choiceBelow (by decide) rfl]
    rfl

end Bound

end ExprCompiler
