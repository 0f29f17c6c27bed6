import ExprCompiler.Builtin.Registry
import ExprCompiler.Proofs.Numeral.Double
import ExprCompiler.Proofs.Outcome

/-!
# Exact operations

What the builtin callables compute on rationals and truth values, told by operations on `ℚ` alone:
`Exact.operators` says for each identifier where its value is defined, and what it is. Main
statement: each builtin gives a rational or a truth value that denotes exactly that number
(`Exact.realizes_of_mem`).
-/

namespace ExprCompiler

/-- The number that a rational or a truth value stands for. -/
def Value.Denotes (v : Value) (q : ℚ) : Prop := v.rat? = some q

namespace Exact

/-! ## Operations on rationals -/

def indicator (p : Prop) [Decidable p] : ℚ := if p then 1 else 0

def unary (g : ℚ → ℚ) : List ℚ → Option ℚ
  | [x] => some (g x)
  | _ => none

def binary? (g : ℚ → ℚ → Option ℚ) : List ℚ → Option ℚ
  | [x, y] => g x y
  | _ => none

def binary (g : ℚ → ℚ → ℚ) : List ℚ → Option ℚ := binary? fun x y ↦ some (g x y)

def difference? : List ℚ → Option ℚ
  | [x] => some (-x)
  | [x, y] => some (x - y)
  | _ => none

def quotient? (x y : ℚ) : Option ℚ := if y = 0 then none else some (x / y)

/-- The power by an integer of at most 1024 in magnitude. -/
def power? (x y : ℚ) : Option ℚ :=
  if y.den = 1 ∧ |y| ≤ 1024 ∧ ¬(x = 0 ∧ y < 0) then some (x ^ y.num) else none

def remainder? (x y : ℚ) : Option ℚ := if y = 0 then none else some (x - y * ⌊x / y⌋)

def direction (x : ℚ) : ℚ := if 0 < x then 1 else if x < 0 then -1 else 0

/-- The unit step that has the value `h` at zero. -/
def step (x h : ℚ) : ℚ := if x < 0 then 0 else if 0 < x then 1 else h

def step? : List ℚ → Option ℚ
  | [x] => some (step x (1 / 2))
  | [x, h] => some (step x h)
  | _ => none

/-- The exact operations by identifier. -/
def operators : Table (List ℚ → Option ℚ) := [
  ("+", fun qs ↦ some qs.sum),
  ("-", difference?),
  ("*", fun qs ↦ some qs.prod),
  ("/", binary? quotient?),
  ("^", binary? power?),
  ("==", binary fun x y ↦ indicator (x = y)),
  ("!=", binary fun x y ↦ indicator (x ≠ y)),
  ("<", binary fun x y ↦ indicator (x < y)),
  ("<=", binary fun x y ↦ indicator (x ≤ y)),
  (">", binary fun x y ↦ indicator (y < x)),
  (">=", binary fun x y ↦ indicator (y ≤ x)),
  ("&", fun qs ↦ some (indicator (∀ q ∈ qs, q ≠ 0))),
  ("|", fun qs ↦ some (indicator (∃ q ∈ qs, q ≠ 0))),
  ("!", unary fun x ↦ indicator (x = 0)),
  ("abs", unary fun x ↦ |x|),
  ("sign", unary direction),
  ("min", List.min?),
  ("max", List.max?),
  ("floor", unary fun x ↦ ⌊x⌋),
  ("ceil", unary fun x ↦ ⌈x⌉),
  ("mod", binary? remainder?),
  ("identity", unary fun x ↦ x),
  ("real", unary fun x ↦ x),
  ("conj", unary fun x ↦ x),
  ("imag", unary fun _ ↦ 0),
  ("heaviside", step?)]

/-- A callable gives, on values that denote numbers, a value that denotes the number that an
operation gives on these, wherever it gives one. -/
def Realizes (f : Callable) (g : List ℚ → Option ℚ) : Prop :=
  ∀ vs qs q, List.Forall₂ Value.Denotes vs qs → g qs = some q → ∃ v, f vs = .ok v ∧ v.Denotes q

end Exact

/-! ## Values that denote numbers -/

namespace Value

theorem denotes_rational (q : ℚ) : Denotes (.rational q) q := rfl

theorem denotes_int (n : Int) : Denotes (.int n) n := rfl

theorem denotes_bool (p : Prop) [Decidable p] :
    Denotes (.bool (decide p)) (Exact.indicator p) := by
  by_cases h : p <;> simp [Denotes, rat?, Exact.indicator, h]

variable {v w : Value} {p q : ℚ} {vs : List Value} {qs : List ℚ}

/-- What stands for a rational is computed with exactly. -/
theorem Denotes.rank (h : v.Denotes q) : v.rank = .rational := by
  cases v with
  | bool b => rfl
  | rational r => rfl
  | _ => cases h

theorem Denotes.isValid (h : v.Denotes q) : v.isValid = true := by
  cases v with
  | invalid => cases h
  | _ => rfl

/-- Values that stand for rationals are valid. -/
theorem isValid_of_denotes (h : List.Forall₂ Denotes vs qs) : ∀ v ∈ vs, v.isValid = true := by
  induction h with
  | nil => simp
  | cons hv _ ih => simpa [hv.isValid] using ih

/-- A value that stands for a rational holds unless the rational is zero. -/
theorem Denotes.truth (h : v.Denotes q) : v.truth = decide (q ≠ 0) := by
  cases v with
  | bool b =>
      obtain rfl := Option.some.inj h
      cases b <;> simp [Value.truth]
  | rational r =>
      obtain rfl := Option.some.inj h
      by_cases hr : r = 0 <;> simp [Value.truth, hr]
  | _ => cases h

theorem map_truth_of_denotes (h : List.Forall₂ Denotes vs qs) :
    vs.map Value.truth = qs.map fun q ↦ decide (q ≠ 0) := by
  induction h with
  | nil => rfl
  | cons hv _ ih => rw [List.map_cons, List.map_cons, hv.truth, ih]

/-- As a double, a value that stands for a rational is the double nearest to it. -/
theorem Denotes.asFloat_eq (h : v.Denotes q) : v.asFloat = Numeral.nearest q := by
  cases v with
  | bool b =>
      obtain rfl := Option.some.inj h
      cases b <;> decide +kernel
  | rational r =>
      obtain rfl := Option.some.inj h
      rfl
  | _ => cases h

theorem Denotes.isNaN_asFloat (h : v.Denotes q) : v.asFloat.isNaN = false := by
  rw [h.asFloat_eq, Numeral.isNaN_nearest]

theorem Denotes.exact (h : v.Denotes q) : Builtin.exact v = .ok q := by
  rw [Builtin.exact, h]

/-- Values that stand for rationals are read as these. -/
theorem mapM_exact (h : List.Forall₂ Denotes vs qs) : vs.mapM Builtin.exact = .ok qs := by
  induction h with
  | nil => rfl
  | cons hv _ ih =>
      rw [List.mapM_cons, hv.exact, Outcome.ok_bind, ih]
      rfl

/-- Values that stand for rationals meet as rationals. -/
theorem widest_of_denotes (h : List.Forall₂ Denotes vs qs) : Value.widest vs = .rational := by
  rw [widest]
  induction h with
  | nil => rfl
  | cons hv _ ih => rwa [List.foldl_cons, hv.rank]

/-- Values that are not complex pass the check for real arguments. -/
theorem checkReal_of_forall₂ (name : String) {α : Type} {as : List α} {R : Value → α → Prop}
    (hR : ∀ {v a}, R v a → v.rank ≠ .complex) (h : List.Forall₂ R vs as) :
    Builtin.checkReal name vs = .ok () := by
  have hnone : vs.find? (fun v ↦ v.rank == .complex) = none := by
    induction h with
    | nil => rfl
    | cons hv _ ih => rw [List.find?_cons_of_neg (by simpa using hR hv), ih]
  rw [Builtin.checkReal, hnone]

theorem checkReal_of_denotes (name : String) (h : List.Forall₂ Denotes vs qs) :
    Builtin.checkReal name vs = .ok () :=
  checkReal_of_forall₂ name (fun hv ↦ by simp [hv.rank]) h

/-- The order of values that denote numbers is that of the numbers. -/
theorem order_of_denotes (hv : v.Denotes p) (hw : w.Denotes q) :
    Builtin.order v w = cmp p q := by
  rw [Builtin.order, hv, hw]
  rfl

end Value

/-! ## Arithmetic -/

namespace Builtin

open Exact Value

variable {v w : Value} {p q : ℚ} {vs : List Value} {qs : List ℚ}

theorem add_of_denotes (h : List.Forall₂ Denotes vs qs) : add vs = .ok (.rational qs.sum) := by
  rw [add, widest_of_denotes h, mapM_exact h, List.sum_eq_foldl]
  rfl

theorem mul_of_denotes (h : List.Forall₂ Denotes vs qs) : mul vs = .ok (.rational qs.prod) := by
  rw [mul, widest_of_denotes h, mapM_exact h, List.prod_eq_foldl]
  rfl

theorem negate_of_denotes (h : v.Denotes q) : negate v = .ok (.rational (-q)) := by
  rw [negate, mul_of_denotes (.cons (denotes_int (-1)) (.cons h .nil))]
  simp

theorem div_of_denotes (hv : v.Denotes p) (hw : w.Denotes q) (hq : q ≠ 0) :
    div [v, w] = .ok (.rational (p / q)) := by
  rw [div, two, widest_of_denotes (.cons hv (.cons hw .nil))]
  simp [hv.exact, hw.exact, hq]

/-- Numerator and denominator raised apart make the power. -/
theorem ratPow_eq_zpow (q : ℚ) (n : Int) : ratPow q n = q ^ n := by
  have hnum (k : Nat) : ((Int.pow q.num k : Int) : ℚ) = (q.num : ℚ) ^ k := Int.cast_pow q.num k
  have hden (k : Nat) : ((Nat.pow q.den k : Nat) : ℚ) = (q.den : ℚ) ^ k := Nat.cast_pow q.den k
  rw [ratPow]
  cases n with
  | ofNat k =>
      have hk : ¬((k : Int) < 0) := by omega
      simp only [Int.ofNat_eq_natCast, if_neg hk, Int.natAbs_natCast]
      rw [Rat.mkRat_eq_div, hnum, hden, ← div_pow, Rat.num_div_den, zpow_natCast]
  | negSucc k =>
      simp only [if_pos (Int.negSucc_lt_zero k), Int.natAbs_negSucc]
      rw [Rat.divInt_eq_div, hnum, Int.cast_natCast, hden, ← div_pow, zpow_negSucc, ← inv_pow,
        ← inv_div, Rat.num_div_den]

theorem pow_of_denotes (hv : v.Denotes p) (hw : w.Denotes q) (hden : q.den = 1)
    (hle : |q| ≤ 1024) (hzero : ¬(p = 0 ∧ q < 0)) :
    pow [v, w] = .ok (.rational (p ^ q.num)) := by
  have hq : (q.num : ℚ) = q := Rat.coe_int_num_of_den_eq_one hden
  obtain ⟨hlo, hhi⟩ := abs_le.1 hle
  have hlo' : -maxExactExponent ≤ q.num := by
    rw [← hq] at hlo
    exact_mod_cast hlo
  have hhi' : q.num ≤ maxExactExponent := by
    rw [← hq] at hhi
    exact_mod_cast hhi
  rw [pow, two, widest_of_denotes (.cons hv (.cons hw .nil))]
  simpa [hv.exact, hw.exact, hden, hlo', hhi', ratPow_eq_zpow] using hzero

theorem realizes_add : Realizes add fun qs ↦ some qs.sum := by
  intro vs qs q hvs hq
  obtain rfl := Option.some.inj hq
  exact ⟨_, add_of_denotes hvs, denotes_rational _⟩

theorem realizes_mul : Realizes mul fun qs ↦ some qs.prod := by
  intro vs qs q hvs hq
  obtain rfl := Option.some.inj hq
  exact ⟨_, mul_of_denotes hvs, denotes_rational _⟩

/-- Differences are exact, the negation of a single argument included. -/
theorem realizes_sub : Realizes sub difference? := by
  intro vs qs q hvs hq
  rcases hvs with _ | ⟨hx, _ | ⟨hy, _ | _⟩⟩
  · cases hq
  · obtain rfl := Option.some.inj hq
    exact ⟨_, negate_of_denotes hx, denotes_rational _⟩
  · obtain rfl := Option.some.inj hq
    refine ⟨_, ?_, denotes_rational _⟩
    rw [sub, negate_of_denotes hy, Outcome.ok_bind,
      add_of_denotes (.cons hx (.cons (denotes_rational _) .nil))]
    simp [sub_eq_add_neg]
  · cases hq

/-- A callable of one argument realizes an operation if its body does. -/
theorem realizes_one {name : String} {f : Value → Except Failure Value} {g : ℚ → ℚ}
    (h : ∀ {v : Value} {x}, v.Denotes x → ∃ u, f v = .ok u ∧ u.Denotes (g x)) :
    Realizes (one name f) (unary g) := by
  intro vs qs q hvs hq
  rcases hvs with _ | ⟨hx, _ | _⟩
  · cases hq
  · obtain rfl := Option.some.inj hq
    exact h hx
  · cases hq

/-- A callable of two arguments realizes an operation if its body does. -/
theorem realizes_two {name : String} {f : Value → Value → Except Failure Value}
    {g : ℚ → ℚ → Option ℚ}
    (h : ∀ {v w : Value} {x y q}, v.Denotes x → w.Denotes y → g x y = some q →
      ∃ u, f v w = .ok u ∧ u.Denotes q) :
    Realizes (two name f) (binary? g) := by
  intro vs qs q hvs hq
  rcases hvs with _ | ⟨hx, _ | ⟨hy, _ | _⟩⟩
  · cases hq
  · cases hq
  · exact h hx hy hq
  · cases hq

theorem realizes_div : Realizes div (binary? quotient?) := by
  refine realizes_two fun hx hy hq ↦ ?_
  obtain ⟨hne, hq⟩ := Option.ite_none_left_eq_some.1 hq
  obtain rfl := Option.some.inj hq
  exact ⟨_, div_of_denotes hx hy hne, denotes_rational _⟩

theorem realizes_pow : Realizes pow (binary? power?) := by
  refine realizes_two fun hx hy hq ↦ ?_
  obtain ⟨⟨hden, hle, hzero⟩, hq⟩ := Option.ite_none_right_eq_some.1 hq
  obtain rfl := Option.some.inj hq
  exact ⟨_, pow_of_denotes hx hy hden hle hzero, denotes_rational _⟩

/-- Remainders are exact and have the sign of the divisor. -/
theorem realizes_mod : Realizes mod (binary? remainder?) := by
  refine realizes_two fun hx hy hq ↦ ?_
  obtain ⟨hne, hq⟩ := Option.ite_none_left_eq_some.1 hq
  obtain rfl := Option.some.inj hq
  refine ⟨_, ?_, denotes_rational _⟩
  rw [checkReal_of_denotes "mod" (.cons hx (.cons hy .nil)), Outcome.ok_bind, hx, hy]
  simp [hne]
  rfl

/-! ## Comparison and logic -/

theorem equal_of_denotes (hv : v.Denotes p) (hw : w.Denotes q) :
    equal v w = decide (p = q) := by
  rw [equal, widest_of_denotes (.cons hv (.cons hw .nil)), order_of_denotes hv hw]
  exact decide_eq_decide.2 (cmp_eq_eq_iff p q)

/-- Equality and its negation realize what the flag makes of equality of numbers. -/
theorem realizes_equality (name : String) {negated : Bool} {R : ℚ → ℚ → Prop} [DecidableRel R]
    (h : ∀ x y, (decide (x = y) != negated) = decide (R x y)) :
    Realizes (equality name negated) (binary fun x y ↦ indicator (R x y)) := by
  refine realizes_two fun hx hy hq ↦ ?_
  obtain rfl := Option.some.inj hq
  refine ⟨_, rfl, ?_⟩
  rw [equal_of_denotes hx hy, h]
  exact denotes_bool _

/-- A comparison realizes the relation that its test reads off the order. -/
theorem realizes_comparison (name : String) {holds : Ordering → Bool} {R : ℚ → ℚ → Prop}
    [DecidableRel R] (h : ∀ x y, holds (cmp x y) = decide (R x y)) :
    Realizes (comparison name holds) (binary fun x y ↦ indicator (R x y)) := by
  refine realizes_two fun hx hy hq ↦ ?_
  obtain rfl := Option.some.inj hq
  refine ⟨_, ?_, denotes_bool _⟩
  rw [checkReal_of_denotes name (.cons hx (.cons hy .nil)), Outcome.ok_bind, hx.isNaN_asFloat,
    hy.isNaN_asFloat, order_of_denotes hx hy, h]
  rfl

/-- A conjunction holds if no argument is zero. -/
theorem realizes_conjunction :
    Realizes conjunction fun qs ↦ some (indicator (∀ q ∈ qs, q ≠ 0)) := by
  intro vs qs q hvs hq
  obtain rfl := Option.some.inj hq
  refine ⟨_, rfl, ?_⟩
  have h : vs.all Value.truth = decide (∀ q ∈ qs, q ≠ 0) := by
    calc vs.all Value.truth = (vs.map Value.truth).all id := by simp
      _ = (qs.map fun q ↦ decide (q ≠ 0)).all id := by rw [map_truth_of_denotes hvs]
      _ = decide (∀ q ∈ qs, q ≠ 0) := by
        rw [Bool.eq_iff_iff]
        simp
  rw [h]
  exact denotes_bool _

/-- A disjunction holds if some argument is not zero. -/
theorem realizes_disjunction :
    Realizes disjunction fun qs ↦ some (indicator (∃ q ∈ qs, q ≠ 0)) := by
  intro vs qs q hvs hq
  obtain rfl := Option.some.inj hq
  refine ⟨_, rfl, ?_⟩
  have h : vs.any Value.truth = decide (∃ q ∈ qs, q ≠ 0) := by
    calc vs.any Value.truth = (vs.map Value.truth).any id := by simp
      _ = (qs.map fun q ↦ decide (q ≠ 0)).any id := by rw [map_truth_of_denotes hvs]
      _ = decide (∃ q ∈ qs, q ≠ 0) := by
        rw [Bool.eq_iff_iff]
        simp
  rw [h]
  exact denotes_bool _

theorem realizes_negation : Realizes negation (unary fun x ↦ indicator (x = 0)) := by
  refine realizes_one fun {v x} hx ↦ ⟨_, rfl, ?_⟩
  have h : (!v.truth) = decide (x = 0) := by simp [hx.truth]
  rw [h]
  exact denotes_bool _

/-! ## Order, parts and rounding -/

/-- Going through the rest keeps the better of the numbers denoted. -/
theorem extreme_of_denotes {better : Ordering → Bool} {pick : ℚ → ℚ → ℚ}
    (hpick : ∀ x y, pick x y = if better (cmp y x) then y else x)
    (hvs : List.Forall₂ Denotes vs qs) (hv : v.Denotes p) :
    (extreme better v vs).Denotes (qs.foldl pick p) := by
  induction hvs generalizing v p with
  | nil => exact hv
  | @cons w q ws qs hw _ ih =>
      rw [extreme, hw.isNaN_asFloat, if_neg Bool.false_ne_true, order_of_denotes hw hv,
        List.foldl_cons, hpick]
      apply ih
      split
      · exact hw
      · exact hv

/-- The best of several values denotes the best of their numbers. -/
theorem realizes_extremum (name : String) {better : Ordering → Bool} {pick : ℚ → ℚ → ℚ}
    {g : List ℚ → Option ℚ} (hpick : ∀ x y, pick x y = if better (cmp y x) then y else x)
    (hnil : g [] = none) (hcons : ∀ q qs, g (q :: qs) = some (qs.foldl pick q)) :
    Realizes (extremum name better) g := by
  intro vs qs q hvs hq
  rcases hvs with _ | ⟨hv, hvs⟩
  · rw [hnil] at hq
    cases hq
  · rw [hcons] at hq
    obtain rfl := Option.some.inj hq
    refine ⟨_, ?_, extreme_of_denotes hpick hvs hv⟩
    rw [extremum, checkReal_of_denotes name (.cons hv hvs)]
    rfl

/-- Roundings of rationals are exact. -/
theorem realizes_rounding (name : String) (f : Float → Float) (g : ℚ → Int) :
    Realizes (rounding name f g) (unary fun x ↦ g x) := by
  refine realizes_one fun hx ↦ ⟨_, ?_, denotes_int _⟩
  rw [checkReal_of_denotes name (.cons hx .nil), Outcome.ok_bind, hx]
  rfl

theorem realizes_abs : Realizes abs (unary fun x ↦ |x|) := by
  refine realizes_one fun {v x} hx ↦ ?_
  cases v with
  | bool b =>
      obtain rfl := Option.some.inj hx
      refine ⟨_, rfl, ?_⟩
      cases b <;> rfl
  | rational r =>
      obtain rfl := Option.some.inj hx
      refine ⟨_, rfl, ?_⟩
      rw [Rat.abs]
      split
      case isTrue hr =>
        rw [abs_of_nonneg hr]
        exact denotes_rational r
      case isFalse hr =>
        rw [abs_of_neg (not_le.1 hr)]
        exact denotes_rational (-r)
  | _ => cases hx

theorem realizes_sign : Realizes sign (unary direction) := by
  refine realizes_one fun {v x} hx ↦ ?_
  cases v with
  | bool b =>
      obtain rfl := Option.some.inj hx
      refine ⟨_, rfl, ?_⟩
      cases b <;> rfl
  | rational r =>
      obtain rfl := Option.some.inj hx
      refine ⟨_, rfl, ?_⟩
      rw [direction]
      rcases lt_trichotomy r 0 with hr | rfl | hr
      · rw [Int.sign_eq_neg_one_of_neg (Rat.num_neg.2 hr), if_neg hr.not_gt, if_pos hr]
        rfl
      · rfl
      · rw [Int.sign_eq_one_of_pos (Rat.num_pos.2 hr), if_pos hr]
        rfl
  | _ => cases hx

/-- A callable that gives its argument back, or something else for a complex one. -/
theorem realizes_same (name : String) {f : Value → Except Failure Value}
    (h : ∀ {v : Value} {q : ℚ}, v.Denotes q → f v = .ok v) :
    Realizes (one name f) (unary fun x ↦ x) :=
  realizes_one fun hx ↦ ⟨_, h hx, hx⟩

theorem realizes_imagPart : Realizes imagPart (unary fun _ ↦ 0) := by
  refine realizes_one fun {v x} hx ↦ ⟨.int 0, ?_, denotes_int 0⟩
  cases v with
  | complex z => cases hx
  | _ => rfl

/-- The step function by comparison with zero. -/
theorem step_eq_cmp (x h : ℚ) :
    step x h = match cmp x 0 with | .lt => 0 | .gt => 1 | .eq => h := by
  rw [step, cmp, cmpUsing]
  split
  · rfl
  · split <;> rfl

/-- The step of a real value, with or without a value at zero. -/
theorem heaviside_cons {rest : List Value} (hlen : rest.length ≤ 1)
    (hreal : checkReal "heaviside" (v :: rest) = .ok ()) :
    heaviside (v :: rest) =
      .ok (if v.asFloat.isNaN then .float Elementary.nan
        else
          match order v (.int 0) with
          | .lt => .int 0
          | .gt => .int 1
          | .eq => rest.headD (.rational (1 / 2))) := by
  rcases rest with _ | ⟨h, _ | ⟨_, _⟩⟩
  · cases hnan : v.asFloat.isNaN
    · simp only [heaviside, hreal, Outcome.ok_bind, List.headD_cons, hnan]
      cases order v (.int 0) <;> rfl
    · simp only [heaviside, hreal, Outcome.ok_bind, List.headD_cons, hnan]
      rfl
  · cases hnan : v.asFloat.isNaN
    · simp only [heaviside, hreal, Outcome.ok_bind, List.headD_cons, hnan]
      cases order v (.int 0) <;> rfl
    · simp only [heaviside, hreal, Outcome.ok_bind, List.headD_cons, hnan]
      rfl
  · simp at hlen

/-- The step function is exact, its value at zero included. -/
theorem realizes_heaviside : Realizes heaviside step? := by
  intro vs qs q hvs hq
  rcases hvs with _ | ⟨hx, _ | ⟨hh, _ | _⟩⟩
  · cases hq
  · obtain rfl := Option.some.inj hq
    refine ⟨_, heaviside_cons (Nat.zero_le 1) (checkReal_of_denotes _ (.cons hx .nil)), ?_⟩
    rw [hx.isNaN_asFloat, if_neg Bool.false_ne_true, order_of_denotes hx (denotes_int 0),
      Int.cast_zero, step_eq_cmp]
    cases cmp _ (0 : ℚ)
    · exact denotes_int 0
    · exact denotes_rational _
    · exact denotes_int 1
  · obtain rfl := Option.some.inj hq
    refine ⟨_, heaviside_cons (Nat.le_refl 1)
      (checkReal_of_denotes _ (.cons hx (.cons hh .nil))), ?_⟩
    rw [hx.isNaN_asFloat, if_neg Bool.false_ne_true, order_of_denotes hx (denotes_int 0),
      Int.cast_zero, step_eq_cmp]
    cases cmp _ (0 : ℚ)
    · exact denotes_int 0
    · exact hh
    · exact denotes_int 1
  · cases hq

end Builtin

/-! ## The registry -/

namespace Exact

open Builtin Value

theorem cmp_beq_lt (x y : ℚ) : (cmp x y == .lt) = decide (x < y) :=
  decide_eq_decide.2 (cmp_eq_lt_iff x y)

theorem cmp_beq_gt (x y : ℚ) : (cmp x y == .gt) = decide (y < x) :=
  decide_eq_decide.2 (cmp_eq_gt_iff x y)

/-- Each exact operation is realized by the builtin of its identifier. -/
theorem realizes_of_mem : ∀ e ∈ operators,
    ∃ f, Registry.builtin.find? e.1 = some f ∧ Realizes f e.2 := by
  simp only [operators, List.forall_mem_cons]
  refine ⟨⟨_, rfl, realizes_add⟩, ⟨_, rfl, realizes_sub⟩, ⟨_, rfl, realizes_mul⟩,
    ⟨_, rfl, realizes_div⟩, ⟨_, rfl, realizes_pow⟩,
    ⟨equality "==" false, rfl, realizes_equality "==" ?eq⟩,
    ⟨equality "!=" true, rfl, realizes_equality "!=" ?ne⟩,
    ⟨comparison "<" (· == .lt), rfl, realizes_comparison "<" ?lt⟩,
    ⟨comparison "<=" (· != .gt), rfl, realizes_comparison "<=" ?le⟩,
    ⟨comparison ">" (· == .gt), rfl, realizes_comparison ">" ?gt⟩,
    ⟨comparison ">=" (· != .lt), rfl, realizes_comparison ">=" ?ge⟩,
    ⟨_, rfl, realizes_conjunction⟩, ⟨_, rfl, realizes_disjunction⟩, ⟨_, rfl, realizes_negation⟩,
    ⟨_, rfl, realizes_abs⟩, ⟨_, rfl, realizes_sign⟩,
    ⟨extremum "min" (· == .lt), rfl, realizes_extremum "min" ?min rfl fun _ _ ↦ rfl⟩,
    ⟨extremum "max" (· == .gt), rfl, realizes_extremum "max" ?max rfl fun _ _ ↦ rfl⟩,
    ⟨_, rfl, realizes_rounding "floor" Float.floor Rat.floor⟩, ⟨_, rfl, ?ceil⟩,
    ⟨_, rfl, realizes_mod⟩, ⟨_, rfl, realizes_same "identity" fun _ ↦ rfl⟩,
    ⟨_, rfl, realizes_same "real" ?real⟩, ⟨_, rfl, realizes_same "conj" ?conj⟩,
    ⟨_, rfl, realizes_imagPart⟩, ⟨_, rfl, realizes_heaviside⟩, List.forall_mem_nil _⟩
  case eq => exact fun x y ↦ by simp
  case ne => exact fun x y ↦ by simp
  case lt => exact cmp_beq_lt
  case gt => exact cmp_beq_gt
  case le =>
    intro x y
    rw [bne, cmp_beq_gt, ← decide_not]
    exact decide_eq_decide.2 not_lt
  case ge =>
    intro x y
    rw [bne, cmp_beq_lt, ← decide_not]
    exact decide_eq_decide.2 not_lt
  case min => exact fun x y ↦ by simp [min_comm x, min_def_lt, cmp_beq_lt]
  case max => exact fun x y ↦ by simp [max_def_lt, cmp_beq_gt]
  case ceil =>
    have hceil (q : ℚ) : Rat.ceil q = ⌈q⌉ := Rat.ceil_eq_neg_floor_neg q
    simpa only [hceil] using realizes_rounding "ceil" Float.ceil Rat.ceil
  case real =>
    intro v q hv
    cases v with
    | complex z => cases hv
    | _ => rfl
  case conj =>
    intro v q hv
    cases v with
    | complex z => cases hv
    | _ => rfl

/-- Every exact operator is realized by the callable of its name. -/
theorem find?_of_get? {name : String} {g : List ℚ → Option ℚ}
    (h : operators.get? name = some g) :
    ∃ f, Registry.builtin.find? name = some f ∧ Realizes f g := by
  obtain ⟨e, he, rfl⟩ := Option.map_eq_some_iff.1 h
  have hname : e.1 = name := by simpa using List.find?_some he
  rw [← hname]
  exact realizes_of_mem e (List.mem_of_find?_eq_some he)

end Exact

end ExprCompiler
