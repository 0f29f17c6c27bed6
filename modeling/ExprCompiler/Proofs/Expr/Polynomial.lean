import ExprCompiler.Proofs.Exact.Builtin
import ExprCompiler.Proofs.Expr.Valuation
import ExprCompiler.Proofs.Expr.Wire
import ExprCompiler.Proofs.Semantics.Node

/-!
# Polynomials

Documents of numbers, symbols, sums, products and natural powers of symbols, and what they are
worth before anything simplifies them. Main statement: such a document is an expression, and a
function compiled from the expression gives, for rational arguments, exactly the value of the
document (`Options.eval_polynomial`).
-/

namespace ExprCompiler

/-- A polynomial as a document writes it. -/
inductive Polynomial where
  | num (q : ℚ)
  | sym (name : String)
  | add (terms : List Polynomial)
  | mul (factors : List Polynomial)
  | pow (name : String) (n : Nat)

namespace Polynomial

mutual

def value (σ : String → ℚ) : Polynomial → ℚ
  | .num q => q
  | .sym name => σ name
  | .add terms => (values σ terms).sum
  | .mul factors => (values σ factors).prod
  | .pow name n => σ name ^ n

def values (σ : String → ℚ) : List Polynomial → List ℚ
  | [] => []
  | p :: ps => value σ p :: values σ ps

end

mutual

def symbols : Polynomial → List String
  | .num _ => []
  | .sym name => [name]
  | .add terms => symbolsAll terms
  | .mul factors => symbolsAll factors
  | .pow name _ => [name]

def symbolsAll : List Polynomial → List String
  | [] => []
  | p :: ps => symbols p ++ symbolsAll ps

end

mutual

/-- Which documents write a polynomial. Fields that its type does not ask for are free. -/
inductive Written : Json → Polynomial → Prop
  | num {j : Json} {text : String} {q : ℚ} (type : j.get? "type" = some (.string "num"))
      (value : j.get? "value" = some (.string text)) (ne : text ≠ "")
      (read : Numeral.readRat? text = some q) : Written j (.num q)
  | sym {j : Json} {name : String} (type : j.get? "type" = some (.string "sym"))
      (text : j.get? "name" = some (.string name)) (ne : name ≠ "") : Written j (.sym name)
  | add {j : Json} {js : List Json} {ps : List Polynomial}
      (type : j.get? "type" = some (.string "add")) (terms : j.get? "terms" = some (.array js))
      (all : AllWritten js ps) : Written j (.add ps)
  | mul {j : Json} {js : List Json} {ps : List Polynomial}
      (type : j.get? "type" = some (.string "mul"))
      (factors : j.get? "factors" = some (.array js)) (all : AllWritten js ps) :
      Written j (.mul ps)
  | pow {j b x : Json} {name : String} {n : Nat} (type : j.get? "type" = some (.string "pow"))
      (base : j.get? "base" = some b) (exp : j.get? "exp" = some x)
      (symbol : Written b (.sym name)) (degree : Written x (.num n)) (le : n ≤ 1024) :
      Written j (.pow name n)

inductive AllWritten : List Json → List Polynomial → Prop
  | nil : AllWritten [] []
  | cons {j : Json} {p : Polynomial} {js : List Json} {ps : List Polynomial} (head : Written j p)
      (tail : AllWritten js ps) : AllWritten (j :: js) (p :: ps)

end

end Polynomial

/-! ## Polynomial expressions -/

namespace Expr

mutual

/-- Whether an expression is a polynomial in given names. -/
def IsPolynomial (names : List String) : Expr → Prop
  | .num _ => True
  | .sym s => s ∈ names
  | .add ts => AllPolynomial names ts
  | .mul fs => AllPolynomial names fs
  | .pow (.sym s) (.num q) => s ∈ names ∧ q.den = 1 ∧ 0 ≤ q ∧ q ≤ 1024
  | _ => False

def AllPolynomial (names : List String) : List Expr → Prop
  | [] => True
  | e :: es => IsPolynomial names e ∧ AllPolynomial names es

end

theorem allPolynomial_iff {names : List String} {es : List Expr} :
    AllPolynomial names es ↔ ∀ e ∈ es, IsPolynomial names e := by
  induction es with
  | nil => simp [AllPolynomial]
  | cons e es ih => simp [AllPolynomial, ih]

/-- Powers in a polynomial are powers of symbols, with small whole exponents. -/
theorem IsPolynomial.of_pow {names : List String} {b x : Expr}
    (h : (Expr.pow b x).IsPolynomial names) :
    ∃ s q, b = .sym s ∧ x = .num q ∧ s ∈ names ∧ q.den = 1 ∧ 0 ≤ q ∧ q ≤ 1024 := by
  cases b with
  | sym s =>
      cases x with
      | num q => exact ⟨s, q, rfl, rfl, h⟩
      | _ => cases h
  | _ => cases h

/-- The constructors give polynomials from polynomials. -/
theorem exactClass_isPolynomial (names : List String) : ExactClass (IsPolynomial names) where
  num _ := trivial
  float _ := id
  add := allPolynomial_iff
  mul := allPolynomial_iff

/-- Symbols as given, and powers of symbols by numbers as powers. -/
def power (σ : String → ℚ) : Expr → ℚ
  | .sym s => σ s
  | .pow (.sym s) (.num q) => σ s ^ q.num
  | _ => 0

/-- What a polynomial expression is worth. -/
def polynomial (σ : String → ℚ) : Valuation := .of (power σ)

end Expr

/-! ## Reading -/

namespace Polynomial

open ExprCompiler.Expr (ofJson addOf mulOf powOf polynomial exactClass_isPolynomial)

/-- An expression that has the value of a polynomial and no other symbols. -/
structure Represents (e : Expr) (p : Polynomial) : Prop where
  isPolynomial {names : List String} (h : ∀ s ∈ p.symbols, s ∈ names) : e.IsPolynomial names
  value (σ : String → ℚ) : (polynomial σ).value e = p.value σ

theorem represents_num (q : ℚ) : Represents (.num q) (.num q) where
  isPolynomial _ := trivial
  value σ := (polynomial σ).value_num q

theorem represents_sym (name : String) : Represents (.sym name) (.sym name) where
  isPolynomial h := h name List.mem_cons_self
  value _ := rfl

/-- A power of a symbol is represented, whether or not it is simplified. -/
theorem represents_pow (name : String) {n : Nat} (hn : n ≤ 1024) :
    Represents (powOf (.sym name) (.num n)) (.pow name n) := by
  match n with
  | 0 => exact ⟨fun _ ↦ trivial, fun σ ↦ (pow_zero _).symm⟩
  | 1 => exact ⟨fun h ↦ h name List.mem_cons_self, fun σ ↦ (pow_one _).symm⟩
  | n + 2 =>
      have h0 : ((n + 2 : Nat) : ℚ) ≠ 0 := by positivity
      have h1 : ((n + 2 : Nat) : ℚ) ≠ 1 := by
        norm_cast
        omega
      have hpow : powOf (.sym name) (.num (n + 2 : Nat)) =
          .pow (.sym name) (.num (n + 2 : Nat)) := by
        simp only [powOf, beq_iff_eq, h0, h1, if_false]
      rw [hpow]
      constructor
      · intro names h
        refine ⟨h name List.mem_cons_self, rfl, by positivity, ?_⟩
        exact_mod_cast hn
      · intro σ
        exact zpow_natCast (σ name) (n + 2)

variable {es : List Expr} {ps : List Polynomial}

theorem isPolynomial_of_forall₂ {names : List String} (h : List.Forall₂ Represents es ps)
    (hs : ∀ s ∈ symbolsAll ps, s ∈ names) : ∀ e ∈ es, e.IsPolynomial names := by
  induction h with
  | nil => simp
  | cons he _ ih =>
      rw [symbolsAll, List.forall_mem_append] at hs
      exact List.forall_mem_cons.2 ⟨he.isPolynomial hs.1, ih hs.2⟩

/-- Represented polynomials have the values of their expressions. -/
theorem values_of_forall₂ (h : List.Forall₂ Represents es ps) (σ : String → ℚ) :
    es.map (polynomial σ).value = values σ ps := by
  induction h with
  | nil => rfl
  | cons he _ ih => rw [List.map_cons, values, he.value, ih]

theorem represents_add (h : List.Forall₂ Represents es ps) :
    Represents (addOf es) (.add ps) where
  isPolynomial hs := (exactClass_isPolynomial _).addOf (isPolynomial_of_forall₂ h hs)
  value σ := by
    have hes := isPolynomial_of_forall₂ h fun _ ↦ id
    rw [Expr.value_addOf _ (exactClass_isPolynomial _) hes, values_of_forall₂ h, value]

theorem represents_mul (h : List.Forall₂ Represents es ps) :
    Represents (mulOf es) (.mul ps) where
  isPolynomial hs := (exactClass_isPolynomial _).mulOf (isPolynomial_of_forall₂ h hs)
  value σ := by
    have hes := isPolynomial_of_forall₂ h fun _ ↦ id
    rw [Expr.value_mulOf _ (exactClass_isPolynomial _) hes, values_of_forall₂ h, value]

theorem ofJson_of_written_sym {j : Json} {name : String} (h : Written j (.sym name)) :
    ofJson j = .ok (.sym name) := by
  cases h with
  | sym type text ne => exact Expr.ofJson_sym type text ne

theorem ofJson_of_written_num {j : Json} {q : ℚ} (h : Written j (.num q)) :
    ofJson j = .ok (.num q) := by
  cases h with
  | num type value ne read => exact Expr.ofJson_num type value ne read

mutual

/-- A document that writes a polynomial is read as an expression that represents it. -/
theorem exists_represents {j : Json} {p : Polynomial} :
    Written j p → ∃ e, ofJson j = .ok e ∧ Represents e p
  | .num type value ne read => ⟨_, Expr.ofJson_num type value ne read, represents_num _⟩
  | .sym type text ne => ⟨_, Expr.ofJson_sym type text ne, represents_sym _⟩
  | .add type terms all => by
      obtain ⟨es, hes, hps⟩ := exists_forall₂_represents all
      exact ⟨_, Expr.ofJson_add type terms hes, represents_add hps⟩
  | .mul type factors all => by
      obtain ⟨es, hes, hps⟩ := exists_forall₂_represents all
      exact ⟨_, Expr.ofJson_mul type factors hes, represents_mul hps⟩
  | .pow type base exp hsym hnum le =>
      ⟨_, Expr.ofJson_pow type base exp (ofJson_of_written_sym hsym) (ofJson_of_written_num hnum),
        represents_pow _ le⟩

/-- Documents of polynomials are read in turn as expressions that represent these. -/
theorem exists_forall₂_represents {js : List Json} {ps : List Polynomial} :
    AllWritten js ps →
      ∃ es, List.Forall₂ (fun j e ↦ ofJson j = .ok e) js es ∧ List.Forall₂ Represents es ps
  | .nil => ⟨[], .nil, .nil⟩
  | .cons head tail => by
      obtain ⟨e, he, hp⟩ := exists_represents head
      obtain ⟨es, hes, hps⟩ := exists_forall₂_represents tail
      exact ⟨e :: es, .cons he hes, .cons hp hps⟩

end

end Polynomial

/-! ## Compiled polynomials -/

namespace Value

theorem denotes_map_rational (qs : List ℚ) : List.Forall₂ Denotes (qs.map .rational) qs := by
  induction qs with
  | nil => exact .nil
  | cons q qs ih => exact .cons (denotes_rational q) ih

/-- A name among the parameters is bound to its argument. -/
theorem lookup_zip_rational {names : List String} {qs : List ℚ} {s : String}
    (hlen : qs.length = names.length) (hs : s ∈ names) :
    lookup (names.zip (qs.map .rational)) s =
      .ok (.rational ((Table.get? (names.zip qs) s).getD 0)) := by
  obtain ⟨q, hq⟩ := Table.exists_get?_zip hlen hs
  rw [lookup, Table.get?_zip_map, hq]
  rfl

end Value

namespace Lowering

open ExprCompiler.Expr (polynomial)

/-- A number is lowered to itself. -/
theorem lowerWithin_num {r : Rules} {left : Nat} {q : ℚ} {t : Target}
    (h : lowerWithin r (left + 1) (.symbolic (some (.num q))) = .ok t) :
    t = .lit (.rational q) := by
  rw [lowerWithin, Node.tag, Outcome.ok_bind, Expr.tag] at h
  by_cases hden : q.den = 1
  · have hform : r.form "Integer" = .integer := rfl
    have hint : Node.integer (.symbolic (some (.num q))) = .value (some q.num) := by
      simp [Node.integer, hden]
    simp only [hden, beq_self_eq_true, if_true, hform, integer, hint, Except.ok.injEq] at h
    rw [← h, Value.int, Rat.coe_int_num_of_den_eq_one hden]
  · have hform : r.form "Rational" = .rational := rfl
    have hratio : Node.ratio (.symbolic (some (.num q))) = .value (some q.num, some q.den) := rfl
    simp only [beq_iff_eq, hden, if_false, hform, rational, hratio] at h
    split at h
    · cases h
    · split at h
      · cases h
      · cases h
        rw [Rat.divInt_eq_div, Int.cast_natCast, Rat.num_div_den]

variable {names : List String} {qs : List ℚ} {left : Nat} {ρ : Table Value} {σ : String → ℚ}

/-- An application of polynomials is lowered to a call whose arguments have their values. -/
theorem exists_values_of_lowered {e : Expr} {t : Target}
    (h : lowerWithin .builtin (left + 1) (.symbolic (some e)) = .ok t)
    (hform : Rules.builtin.form e.tag = .application) (hargs : ∀ a ∈ e.args, a.IsPolynomial names)
    (ih : ∀ {a : Expr} {t : Target}, a.IsPolynomial names →
      lowerWithin .builtin left (.symbolic (some a)) = .ok t →
      t.value Registry.builtin ρ = .ok (.rational ((polynomial σ).value a))) :
    ∃ ts, t = .call (Rules.builtin.operators.resolve e.tag) ts ∧
      Target.values Registry.builtin ρ ts =
        .ok ((e.args.map (polynomial σ).value).map .rational) := by
  obtain ⟨ns, ts, hns, -, hts, rfl⟩ := (lowerWithin_application rfl hform).1 h
  refine ⟨ts, rfl, ?_⟩
  cases hns
  have hall := List.forall₂_map_left_iff.1 (Outcome.forall₂_of_mapM hts)
  clear hts h hform
  generalize e.args = as at hargs hall
  induction hall with
  | nil => rfl
  | cons ht _ ihs =>
      obtain ⟨ha, has⟩ := List.forall_mem_cons.1 hargs
      rw [Target.values, ih ha ht, ihs has]
      rfl

/-- A polynomial is lowered to a target expression with its value. -/
theorem value_of_lowered {e : Expr} {t : Target} (he : e.IsPolynomial names)
    (hρ : ∀ s ∈ names, Value.lookup ρ s = .ok (.rational (σ s)))
    (h : lowerWithin .builtin left (.symbolic (some e)) = .ok t) :
    t.value Registry.builtin ρ = .ok (.rational ((polynomial σ).value e)) := by
  induction left generalizing e t with
  | zero => simp [lowerWithin, Node.tag] at h
  | succ left ih =>
      cases e with
      | num q =>
          rw [lowerWithin_num h, (polynomial σ).value_num]
          rfl
      | sym s =>
          rw [lowerWithin_sym h]
          exact hρ s he
      | add es =>
          obtain ⟨ts, rfl, hvs⟩ := exists_values_of_lowered h rfl (Expr.allPolynomial_iff.1 he) ih
          rw [(polynomial σ).value_add]
          exact Target.value_call (show "+" ≠ "piecewise" by decide) rfl hvs
            (Builtin.add_of_denotes (Value.denotes_map_rational _)) rfl
      | mul es =>
          obtain ⟨ts, rfl, hvs⟩ := exists_values_of_lowered h rfl (Expr.allPolynomial_iff.1 he) ih
          rw [(polynomial σ).value_mul]
          exact Target.value_call (show "*" ≠ "piecewise" by decide) rfl hvs
            (Builtin.mul_of_denotes (Value.denotes_map_rational _)) rfl
      | pow b x =>
          obtain ⟨s, q, rfl, rfl, hs, hden, hlo, hhi⟩ := he.of_pow
          have hargs : ∀ a ∈ [Expr.sym s, .num q], a.IsPolynomial names := by
            simpa [Expr.IsPolynomial] using hs
          obtain ⟨ts, rfl, hvs⟩ := exists_values_of_lowered h rfl hargs ih
          refine Target.value_call (show "^" ≠ "piecewise" by decide) rfl hvs ?_ rfl
          exact Builtin.pow_of_denotes (Value.denotes_rational (σ s))
            (Value.denotes_rational q) hden (by rwa [abs_of_nonneg hlo])
            fun h ↦ absurd h.2 (not_lt.2 hlo)
      | _ => cases he

end Lowering

namespace Options

open ExprCompiler.Polynomial (Written)

/-- A document that writes a polynomial is an expression. If this compiles over parameters that
cover the symbols of the document, the function gives for rational arguments the rational that the
document is worth. -/
theorem eval_polynomial {j : Json} {p : Polynomial} (hj : Written j p) :
    ∃ e, Expr.ofJson j = .ok e ∧
      ∀ (names : List String) (f : Function), (∀ s ∈ p.symbols, s ∈ names) →
        (withParams {} names).compileExpr e = .ok f →
          ∀ qs : List ℚ, qs.length = names.length →
            f.eval (qs.map .rational) =
              .ok (.rational (p.value fun s ↦ (Table.get? (names.zip qs) s).getD 0)) := by
  obtain ⟨e, he, hp⟩ := Polynomial.exists_represents hj
  refine ⟨e, he, fun names f hsymbols hf qs hlen ↦ ?_⟩
  obtain ⟨params, t, hparams, ht, hf⟩ := compile_eq_ok hf
  obtain rfl : names = params := by simpa [withParams] using hparams
  have hargs := Value.denotes_map_rational qs
  rw [(Function.eval_of_compile hf).2 _ (by simpa using hlen) (Value.isValid_of_denotes hargs),
    ← hp.value]
  exact Lowering.value_of_lowered (hp.isPolynomial hsymbols)
    (fun s hs ↦ Value.lookup_zip_rational hlen hs) ht

/-- Numbers are folded, symbols collected and an empty sum is dropped; the value is that of the
document. -/
theorem eval_polynomial_cubic :
    let num (text : String) : Json := .object [("type", .string "num"), ("value", .string text)]
    let sym (name : String) : Json := .object [("name", .string name), ("type", .string "sym")]
    let cube : Json := .object [("type", .string "pow"), ("base", sym "x"), ("exp", num "3")]
    let product : Json :=
      .object [("type", .string "mul"), ("factors", .array [num "1/2", cube, num "4"])]
    let empty : Json := .object [("terms", .array []), ("type", .string "add")]
    let j : Json :=
      .object [("type", .string "add"), ("terms", .array [product, sym "y", empty, sym "y"])]
    ∃ e f, Expr.ofJson j = .ok e ∧ (withParams {} ["x", "y"]).compileExpr e = .ok f ∧
      f.eval [.rational (1 / 2), .rational (2 / 3)] = .ok (.rational (19 / 12)) := by
  intro num sym cube product empty j
  have hnum {text : String} {q : ℚ} (hne : text ≠ "") (hq : Numeral.readRat? text = some q) :
      Written (num text) (.num q) := .num rfl rfl hne hq
  have hsym {name : String} (hne : name ≠ "") : Written (sym name) (.sym name) := .sym rfl rfl hne
  have hcube : Written cube (.pow "x" 3) :=
    .pow rfl rfl rfl (hsym (by decide)) (hnum (by decide) (by decide +kernel)) (by decide)
  have hproduct : Written product (.mul [.num (1 / 2), .pow "x" 3, .num 4]) :=
    .mul rfl rfl (.cons (hnum (by decide) (by decide +kernel)) (.cons hcube
      (.cons (hnum (by decide) (by decide +kernel)) .nil)))
  have hj : Written j
      (.add [.mul [.num (1 / 2), .pow "x" 3, .num 4], .sym "y", .add [], .sym "y"]) :=
    .add rfl rfl (.cons hproduct (.cons (hsym (by decide)) (.cons (.add rfl rfl .nil)
      (.cons (hsym (by decide)) .nil))))
  have he : Expr.ofJson j = .ok (.add [.mul [.num 2, .sym "y"],
      .mul [.num 2, .pow (.sym "x") (.num 3)]]) := by cbv
  obtain ⟨e, he', h⟩ := eval_polynomial hj
  obtain rfl := Except.ok.inj (he.symm.trans he')
  refine ⟨_, _, he, rfl, ?_⟩
  have hvalue := h ["x", "y"] _ (by decide) rfl [1 / 2, 2 / 3] rfl
  rw [List.map_cons, List.map_cons, List.map_nil] at hvalue
  rw [hvalue]
  congr 2
  decide +kernel

end Options

end ExprCompiler
