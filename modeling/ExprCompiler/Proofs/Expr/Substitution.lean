import ExprCompiler.Proofs.Expr.Valuation
import ExprCompiler.Proofs.Outcome

/-!
# Substitution and exact values

Arithmetic expressions are those of exact numbers and symbols under sums and products. Main
statement: an arithmetic expression put for a symbol acts as its value does when that is assigned
to the symbol (`Expr.exists_subst_value`).
-/

namespace ExprCompiler.Expr

mutual

/-- Whether an expression is built from exact numbers and symbols by sums and products. -/
def IsArithmetic : Expr → Prop
  | .num _ | .sym _ => True
  | .add ts => AllArithmetic ts
  | .mul fs => AllArithmetic fs
  | _ => False

def AllArithmetic : List Expr → Prop
  | [] => True
  | e :: es => IsArithmetic e ∧ AllArithmetic es

end

theorem allArithmetic_iff {es : List Expr} : AllArithmetic es ↔ ∀ e ∈ es, IsArithmetic e := by
  induction es with
  | nil => simp [AllArithmetic]
  | cons e es ih => simp [AllArithmetic, ih]

/-- The constructors give arithmetic expressions from arithmetic ones. -/
theorem exactClass_isArithmetic : ExactClass IsArithmetic where
  num _ := trivial
  float _ := id
  add := allArithmetic_iff
  mul := allArithmetic_iff

/-- Symbols as given. -/
def assigned (σ : String → ℚ) : Expr → ℚ
  | .sym s => σ s
  | _ => 0

/-- What an arithmetic expression is worth under an assignment to its symbols. -/
def arithmetic (σ : String → ℚ) : Valuation := .of (assigned σ)

@[simp] theorem arithmetic_sym (σ : String → ℚ) (s : String) :
    (arithmetic σ).value (.sym s) = σ s := rfl

variable {name : String} {value : Expr}

/-! ## Substitution among arithmetic expressions -/

mutual

/-- Substitution in an arithmetic expression succeeds and gives an arithmetic expression. -/
theorem exists_isArithmetic_subst (hvalue : value.IsArithmetic) :
    ∀ e : Expr, e.IsArithmetic → ∃ e', subst name value e = .ok e' ∧ e'.IsArithmetic
  | .num q, _ => ⟨.num q, rfl, trivial⟩
  | .sym s, _ => by
      refine ⟨_, rfl, ?_⟩
      split
      · exact hvalue
      · trivial
  | .add ts, hts => by
      obtain ⟨ts', hsubst, harith⟩ := exists_isArithmetic_substAll hvalue ts hts
      refine ⟨addOf ts', ?_, exactClass_isArithmetic.addOf harith⟩
      rw [subst, hsubst]
      rfl
  | .mul fs, hfs => by
      obtain ⟨fs', hsubst, harith⟩ := exists_isArithmetic_substAll hvalue fs hfs
      refine ⟨mulOf fs', ?_, exactClass_isArithmetic.mulOf harith⟩
      rw [subst, hsubst]
      rfl

/-- Substitution into arithmetic expressions succeeds and gives such. -/
theorem exists_isArithmetic_substAll (hvalue : value.IsArithmetic) :
    ∀ es : List Expr, AllArithmetic es →
      ∃ es', substAll name value es = .ok es' ∧ ∀ e ∈ es', e.IsArithmetic
  | [], _ => ⟨[], rfl, by simp⟩
  | e :: es, hes => by
      obtain ⟨e', he, harith⟩ := exists_isArithmetic_subst hvalue e hes.1
      obtain ⟨es', hsubst, hall⟩ := exists_isArithmetic_substAll hvalue es hes.2
      refine ⟨e' :: es', ?_, List.forall_mem_cons.2 ⟨harith, hall⟩⟩
      rw [substAll, he, hsubst]
      rfl

end

theorem isArithmetic_of_substAll (hvalue : value.IsArithmetic) {es es' : List Expr}
    (hes : AllArithmetic es) (h : substAll name value es = .ok es') :
    ∀ e ∈ es', e.IsArithmetic := by
  obtain ⟨es'', h', harith⟩ := exists_isArithmetic_substAll hvalue es hes
  obtain rfl := Except.ok.inj (h.symm.trans h')
  exact harith

/-! ## Values -/

mutual

/-- If every symbol is worth under `τ` what it becomes is worth under `σ`, then so is every
arithmetic expression. -/
theorem value_of_subst {σ τ : String → ℚ} (hvalue : value.IsArithmetic)
    (hτ : ∀ s, τ s = (arithmetic σ).value (if s == name then value else .sym s)) :
    ∀ e e' : Expr, e.IsArithmetic → subst name value e = .ok e' →
      (arithmetic σ).value e' = (arithmetic τ).value e
  | .num q, e', _, h => by
      obtain rfl := Except.ok.inj h
      rw [Valuation.value_num, Valuation.value_num]
  | .sym s, e', _, h => by
      obtain rfl := Except.ok.inj h
      exact (hτ s).symm
  | .add ts, e', hts, h => by
      obtain ⟨ts', hsubst, h⟩ := Outcome.bind_eq_ok.1 h
      obtain rfl := Except.ok.inj h
      have harith := isArithmetic_of_substAll hvalue hts hsubst
      rw [value_addOf _ exactClass_isArithmetic harith, Valuation.value_add,
        values_of_substAll hvalue hτ ts ts' hts hsubst]
  | .mul fs, e', hfs, h => by
      obtain ⟨fs', hsubst, h⟩ := Outcome.bind_eq_ok.1 h
      obtain rfl := Except.ok.inj h
      have harith := isArithmetic_of_substAll hvalue hfs hsubst
      rw [value_mulOf _ exactClass_isArithmetic harith, Valuation.value_mul,
        values_of_substAll hvalue hτ fs fs' hfs hsubst]

/-- Substituting in a list is evaluating it with the value bound to the name. -/
theorem values_of_substAll {σ τ : String → ℚ} (hvalue : value.IsArithmetic)
    (hτ : ∀ s, τ s = (arithmetic σ).value (if s == name then value else .sym s)) :
    ∀ es es' : List Expr, AllArithmetic es → substAll name value es = .ok es' →
      es'.map (arithmetic σ).value = es.map (arithmetic τ).value
  | [], es', _, h => by
      obtain rfl := Except.ok.inj h
      rfl
  | e :: es, es', hes, h => by
      obtain ⟨a, ha, h⟩ := Outcome.bind_eq_ok.1 h
      obtain ⟨as, has, h⟩ := Outcome.bind_eq_ok.1 h
      obtain rfl := Except.ok.inj h
      rw [List.map_cons, List.map_cons, value_of_subst hvalue hτ e a hes.1 ha,
        values_of_substAll hvalue hτ es as hes.2 has]

end

/-- Substitution in an arithmetic expression succeeds. Under every assignment the result is worth
what the expression is worth once the symbol is assigned the value of what was put for it. -/
theorem exists_subst_value {e value : Expr} (he : e.IsArithmetic) (hvalue : value.IsArithmetic)
    (name : String) :
    ∃ e', subst name value e = .ok e' ∧ e'.IsArithmetic ∧
      ∀ σ : String → ℚ, (arithmetic σ).value e' =
        (arithmetic (Function.update σ name ((arithmetic σ).value value))).value e := by
  obtain ⟨e', hsubst, harith⟩ := exists_isArithmetic_subst hvalue e he
  refine ⟨e', hsubst, harith, fun σ ↦ value_of_subst hvalue (fun s ↦ ?_) e e' he hsubst⟩
  by_cases hs : s = name
  · subst hs
    rw [if_pos (beq_self_eq_true s), Function.update_self]
  · rw [if_neg (by simpa using hs), Function.update_of_ne hs, arithmetic_sym]

/-- A sum put for a symbol of a product and of the sum around it: the sum is flattened and its
symbol collected with the one that was there. -/
theorem exists_subst_value_sum :
    let e : Expr := .add [.sym "x", .mul [.num 2, .sym "x", .sym "y"]]
    let value : Expr := .add [.sym "y", .num 1]
    ∃ e', subst "x" value e = .ok e' ∧
      ∀ a b : ℚ, (arithmetic fun s ↦ if s = "x" then a else b).value e' =
        b + 1 + 2 * (b + 1) * b := by
  intro e value
  have he : e.IsArithmetic := by simp [e, IsArithmetic, AllArithmetic]
  have hvalue : value.IsArithmetic := by simp [value, IsArithmetic, AllArithmetic]
  obtain ⟨e', hsubst, -, h⟩ := exists_subst_value he hvalue "x"
  refine ⟨e', hsubst, fun a b ↦ ?_⟩
  rw [h]
  simp [e, value, mul_assoc]

end ExprCompiler.Expr
