import ExprCompiler.Proofs.Exact.Builtin
import ExprCompiler.Proofs.Semantics.Target

/-!
# Exact evaluation

`Target.rational?` evaluates a target expression in exact rational arithmetic, and says where that
is possible: it fails only where an operation is undefined on the numbers that reach it, and where
no branch of a choice holds. Main statement: wherever it gives a number, a compiled function gives
this number too, and no failure (`Function.eval_denotes`).
-/

namespace ExprCompiler

namespace Target

mutual

/-- The value in exact arithmetic, where truth values count as 0 and 1. -/
def rational? (σ : Table ℚ) : Target → Option ℚ
  | .var name => σ.get? name
  | .lit v => v.rat?
  | .call name args =>
    if name = "piecewise" then rationalBranch? σ args
    else
      match Exact.operators.get? name with
      | none => none
      | some g => do g (← rationalAll? σ args)
  | .foreign _ _ => none
  | .absent => none

def rationalAll? (σ : Table ℚ) : List Target → Option (List ℚ)
  | [] => some []
  | t :: ts => do
    let q ← rational? σ t
    let qs ← rationalAll? σ ts
    return q :: qs

/-- The value of the first pair whose condition is not zero. -/
def rationalBranch? (σ : Table ℚ) : List Target → Option ℚ
  | .call "pair" [v, c] :: rest => do
    if (← rational? σ c) ≠ 0 then rational? σ v else rationalBranch? σ rest
  | _ => none

end

/-- Values that stand for numbers under the same names. -/
def Reads (ρ : Table Value) (σ : Table ℚ) : Prop :=
  ∀ name q, σ.get? name = some q → ∃ v, ρ.get? name = some v ∧ v.Denotes q

variable {ρ : Table Value} {σ : Table ℚ}

/-- Arguments that stand for rationals bind the parameters to values and to rationals alike. -/
theorem reads_zip {args : List Value} {qs : List ℚ} (h : List.Forall₂ Value.Denotes args qs)
    (params : List String) : Reads (params.zip args) (params.zip qs) := by
  induction params generalizing args qs with
  | nil =>
      intro name q hq
      cases hq
  | cons p ps ih =>
      intro name q hq
      rcases h with _ | ⟨hv, h⟩
      · cases hq
      · rw [List.zip_cons_cons, Table.get?_cons] at hq ⊢
        by_cases hp : p = name
        · rw [if_pos hp] at hq ⊢
          obtain rfl := Option.some.inj hq
          exact ⟨_, rfl, hv⟩
        · rw [if_neg hp] at hq ⊢
          exact ih h name q hq

mutual

/-- Where exact arithmetic gives a number, the value denotes it. -/
theorem value_of_rational? (h : Reads ρ σ) :
    (t : Target) → (q : ℚ) → t.rational? σ = some q →
      ∃ v, t.value Registry.builtin ρ = .ok v ∧ v.Denotes q
  | .var name, q, hq => by
      obtain ⟨v, hv, hd⟩ := h name q hq
      refine ⟨v, ?_, hd⟩
      rw [value, Value.lookup, hv]
  | .lit v, q, hq => ⟨v, rfl, hq⟩
  | .call name args, q, hq => by
      rw [rational?] at hq
      by_cases hp : name = "piecewise"
      · rw [if_pos hp] at hq
        rw [value, if_pos hp]
        exact firstBranch_of_rationalBranch? h args q hq
      · rw [if_neg hp] at hq
        split at hq
        · cases hq
        · rename_i g hg
          obtain ⟨qs, hqs, hq⟩ := Option.bind_eq_some_iff.1 hq
          obtain ⟨f, hf, hr⟩ := Exact.find?_of_get? hg
          obtain ⟨vs, hvs, hd⟩ := values_of_rationalAll? h args qs hqs
          obtain ⟨v, hv, hdv⟩ := hr vs qs q hd hq
          exact ⟨v, value_call hp hf hvs hv hdv.isValid, hdv⟩
  | .foreign _ _, q, hq => by cases hq
  | .absent, q, hq => by cases hq

/-- Expressions with rational values evaluate to values that stand for these. -/
theorem values_of_rationalAll? (h : Reads ρ σ) :
    (ts : List Target) → (qs : List ℚ) → rationalAll? σ ts = some qs →
      ∃ vs, values Registry.builtin ρ ts = .ok vs ∧ List.Forall₂ Value.Denotes vs qs
  | [], qs, hqs => by
      obtain rfl := Option.some.inj hqs
      exact ⟨[], rfl, .nil⟩
  | t :: ts, qs, hqs => by
      obtain ⟨q, hq, hqs⟩ := Option.bind_eq_some_iff.1 hqs
      obtain ⟨qs', hqs', heq⟩ := Option.bind_eq_some_iff.1 hqs
      obtain rfl := Option.some.inj heq
      obtain ⟨v, hv, hd⟩ := value_of_rational? h t q hq
      obtain ⟨vs, hvs, hds⟩ := values_of_rationalAll? h ts qs' hqs'
      refine ⟨v :: vs, ?_, .cons hd hds⟩
      rw [values, hv, hvs]
      rfl

/-- The branch that is taken among rationals is taken among values. -/
theorem firstBranch_of_rationalBranch? (h : Reads ρ σ) :
    (ts : List Target) → (q : ℚ) → rationalBranch? σ ts = some q →
      ∃ v, firstBranch Registry.builtin ρ ts = .ok v ∧ v.Denotes q
  | [], q, hq => by cases hq
  | t :: ts, q, hq => by
      unfold rationalBranch? at hq
      split at hq
      · rename_i v c _ heq
        obtain ⟨rfl, rfl⟩ := List.cons.inj heq
        obtain ⟨p, hp, hq⟩ := Option.bind_eq_some_iff.1 hq
        obtain ⟨w, hw, hd⟩ := value_of_rational? h c p hp
        rw [firstBranch, if_pos rfl, hw, Outcome.ok_bind, hd.truth]
        by_cases hne : p ≠ 0
        · rw [if_pos hne] at hq
          rw [if_pos (decide_eq_true hne)]
          exact value_of_rational? h v q hq
        · rw [if_neg hne] at hq
          rw [if_neg (by simpa using hne)]
          exact firstBranch_of_rationalBranch? h ts q hq
      · cases hq

end

end Target

namespace Function

/-- Where exact arithmetic gives a number, so does a compiled function, on arguments that denote
the numbers bound to the parameters. -/
theorem eval_denotes {t : Target} {params : List String} {f : Function} {args : List Value}
    {qs : List ℚ} {q : ℚ} (hf : compile Interpreter.backend Registry.builtin t params = .ok f)
    (hlen : args.length = params.length) (hargs : List.Forall₂ Value.Denotes args qs)
    (hq : t.rational? (params.zip qs) = some q) :
    ∃ v, f.eval args = .ok v ∧ v.Denotes q := by
  obtain ⟨v, hv, hd⟩ := Target.value_of_rational? (Target.reads_zip hargs params) t q hq
  refine ⟨v, ?_, hd⟩
  rw [(eval_of_compile hf).2 args hlen (Value.isValid_of_denotes hargs), hv]

/-- A negative power of a floor plus a truth value, behind a branch that does not hold and would
divide by zero. -/
theorem eval_denotes_negative_power :
    ∃ f,
      compile Interpreter.backend Registry.builtin
        (.call "piecewise" [
          .call "pair" [.call "/" [.var "x", .lit (.bool false)],
            .call "<" [.lit (.int 0), .var "x"]],
          .call "pair" [.call "+" [
            .call "^" [.call "floor" [.var "x"], .lit (.int (-3))], .var "b"], .var "b"]])
        ["x", "b"] = .ok f ∧
      ∃ v, f.eval [.rational (-5 / 2), .bool true] = .ok v ∧ v.Denotes (26 / 27) := by
  have hargs : List.Forall₂ Value.Denotes [.rational (-5 / 2), .bool true] [-5 / 2, 1] :=
    .cons rfl (.cons rfl .nil)
  refine ⟨?f, ?hf, eval_denotes ?hf ?hlen hargs ?hq⟩
  case hf => rfl
  case hlen => rfl
  case hq => decide +kernel

end Function

end ExprCompiler
