import ExprCompiler.Expr.Eval
import ExprCompiler.Proofs.Exact.Builtin
import ExprCompiler.Proofs.Numeral.Order
import ExprCompiler.Tables

/-!
# Logic on doubles

Relations, `Not`, `sign`, `Heaviside`, `And` and `Or` exist twice: on doubles, for direct
evaluation, and on values, for compiled code. Main statements: on values that show the same doubles
the two give values that show the same doubles again. For `Heaviside` this needs an argument that
is no NaN, and for `And` and `Or` that a single argument is zero or one.
-/

namespace ExprCompiler

open Numeral (Same relate)

namespace Value

/-- A value as logic makes them: a double, a truth value, or a value of the step function. -/
def IsPlain : Value → Prop
  | .float _ | .bool _ => True
  | .rational q => q = 0 ∨ q = 1 / 2 ∨ q = 1
  | _ => False

/-- A plain value that is the same number as a double. -/
structure Shows (v : Value) (x : Float) : Prop where
  plain : v.IsPlain
  same : Same v.asFloat x

theorem shows_float (x : Float) : Shows (.float x) x := ⟨trivial, Numeral.same_refl x⟩

theorem shows_bool (b : Bool) : Shows (.bool b) (Expr.FloatFunction.ofTruth b) :=
  ⟨trivial, Numeral.same_refl _⟩

theorem shows_zero : Shows (.int 0) 0 := ⟨.inl rfl, by decide +kernel⟩

variable {v w : Value} {x y : Float}

/-- Exact plain values relate as their doubles do. -/
theorem relate_nearest {p q : ℚ} (hp : p = 0 ∨ p = 1 / 2 ∨ p = 1)
    (hq : q = 0 ∨ q = 1 / 2 ∨ q = 1) :
    relate (Numeral.nearest p) (Numeral.nearest q) = some (cmp p q) := by
  rcases hp with rfl | rfl | rfl <;> rcases hq with rfl | rfl | rfl <;> decide +kernel

/-- A plain value is a double, or exact. -/
theorem IsPlain.float_or_denotes (h : v.IsPlain) :
    (∃ x, v = .float x) ∨ ∃ q, v.Denotes q ∧ (q = 0 ∨ q = 1 / 2 ∨ q = 1) := by
  cases v with
  | float x => exact .inl ⟨x, rfl⟩
  | bool b =>
      cases b with
      | false => exact .inr ⟨0, rfl, .inl rfl⟩
      | true => exact .inr ⟨1, rfl, .inr (.inr rfl)⟩
  | rational q => exact .inr ⟨q, rfl, h⟩
  | _ => cases h

theorem shows_of_denotes {q : ℚ} (hv : v.Denotes q) (hq : q = 0 ∨ q = 1 / 2 ∨ q = 1)
    (hx : Same (Numeral.nearest q) x) : v.Shows x := by
  refine ⟨?_, by rwa [hv.asFloat_eq]⟩
  cases v with
  | bool b => trivial
  | rational r =>
      obtain rfl := Option.some.inj hv
      exact hq
  | _ => cases hv

/-- A plain value holds unless its double is zero. -/
theorem IsPlain.truth (h : v.IsPlain) : v.truth = (v.asFloat != 0) := by
  cases v with
  | float x => rfl
  | bool b => cases b <;> decide +kernel
  | rational q =>
      rcases h with rfl | rfl | rfl <;> decide +kernel
  | _ => cases h

namespace Shows

theorem isNaN (h : v.Shows x) : v.asFloat.isNaN = x.isNaN := h.same.isNaN_eq

theorem truth (h : v.Shows x) : v.truth = (x != 0) := by
  rw [h.plain.truth, bne, bne, h.same.beq_eq (Numeral.same_refl 0)]

theorem isValid (h : v.Shows x) : v.isValid = true := by
  have hplain := h.plain
  cases v with
  | invalid => cases hplain
  | _ => rfl

theorem rank_ne (h : v.Shows x) : v.rank ≠ .complex := by
  have hplain := h.plain
  cases v with
  | complex z => cases hplain
  | _ => simp [Value.rank]

/-- Plain values compare as their doubles do. -/
theorem compare_eq (hv : v.Shows x) (hw : w.Shows y) :
    Builtin.equal v w = (x == y) ∧ ∀ o, relate x y = some o → Builtin.order v w = o := by
  rw [← hv.same.beq_eq hw.same, ← hv.same.relate_eq hw.same]
  rcases hv.plain.float_or_denotes with ⟨x, rfl⟩ | ⟨p, hp, hps⟩
  · rcases hw.plain.float_or_denotes with ⟨y, rfl⟩ | ⟨q, hq, -⟩
    · exact ⟨rfl, fun o ↦ Numeral.ite_lt_of_relate⟩
    · refine ⟨?_, fun o ↦ Numeral.ite_lt_of_relate⟩
      rw [Builtin.equal, widest, List.foldl_cons, List.foldl_cons, hq.rank]
      rfl
  · rcases hw.plain.float_or_denotes with ⟨y, rfl⟩ | ⟨q, hq, hqs⟩
    · refine ⟨?_, fun o ho ↦ ?_⟩
      · rw [Builtin.equal, widest, List.foldl_cons, List.foldl_cons, hp.rank]
        rfl
      · rw [← Numeral.ite_lt_of_relate ho, Builtin.order, hp]
        rfl
    · rw [hp.asFloat_eq, hq.asFloat_eq, Builtin.equal_of_denotes hp hq, order_of_denotes hp hq]
      have hrelate := relate_nearest hps hqs
      refine ⟨?_, fun o ho ↦ Option.some.inj (hrelate.symm.trans ho)⟩
      rw [Bool.eq_iff_iff, Numeral.beq_iff_relate, hrelate, decide_eq_true_iff]
      simp

theorem equal_eq (hv : v.Shows x) (hw : w.Shows y) : Builtin.equal v w = (x == y) :=
  (hv.compare_eq hw).1

theorem order_eq (hv : v.Shows x) (hw : w.Shows y) {o : Ordering} (ho : relate x y = some o) :
    Builtin.order v w = o :=
  (hv.compare_eq hw).2 o ho

end Shows

theorem checkReal_of_shows (name : String) {vs : List Value} {xs : List Float}
    (h : List.Forall₂ Shows vs xs) : Builtin.checkReal name vs = .ok () :=
  checkReal_of_forall₂ name Shows.rank_ne h

end Value

/-! ## Relations -/

namespace Builtin

open Value (Shows)

variable {v w : Value} {x y : Float}

/-- Comparisons are those of the doubles shown, and do not hold of unordered ones. -/
theorem comparison_of_shows (name : String) (test : Ordering → Bool) (hv : v.Shows x)
    (hw : w.Shows y) : comparison name test [v, w] = .ok (.bool ((relate x y).any test)) := by
  have hreal := Value.checkReal_of_shows name (.cons hv (.cons hw .nil))
  simp only [comparison, two, hreal, Outcome.ok_bind, hv.isNaN, hw.isNaN]
  cases ho : relate x y with
  | none =>
      have hnan : (x.isNaN || y.isNaN) = true := by
        rw [Bool.or_eq_true]
        exact Numeral.relate_eq_none.1 ho
      rw [if_pos hnan]
      rfl
  | some o =>
      have hnan : ¬((x.isNaN || y.isNaN) = true) := by
        rw [Bool.or_eq_true, ← Numeral.relate_eq_none, ho]
        exact Option.some_ne_none o
      rw [if_neg hnan, hv.order_eq hw ho]
      rfl

theorem equality_of_shows (name : String) (negated : Bool) (hv : v.Shows x) (hw : w.Shows y) :
    equality name negated [v, w] = .ok (.bool ((x == y) != negated)) := by
  rw [equality, two, hv.equal_eq hw]

/-- A relation of plain values is decided as that of their doubles. -/
theorem relation_of_shows (r : Relation) (hv : v.Shows x) (hw : w.Shows y) :
    ∃ f, Registry.builtin.find? (Operators.builtin.resolve r.tag) = some f ∧
      f [v, w] = .ok (.bool (r.holds x y)) := by
  cases r with
  | eq =>
      refine ⟨equality "==" false, rfl, ?_⟩
      rw [equality_of_shows "==" false hv hw, Bool.bne_false]
      rfl
  | ne =>
      refine ⟨equality "!=" true, rfl, ?_⟩
      rw [equality_of_shows "!=" true hv hw, Bool.bne_true]
      rfl
  | lt =>
      refine ⟨comparison "<" (· == .lt), rfl, ?_⟩
      rw [comparison_of_shows "<" _ hv hw, ← Numeral.decide_lt]
      rfl
  | le =>
      refine ⟨comparison "<=" (· != .gt), rfl, ?_⟩
      rw [comparison_of_shows "<=" _ hv hw, ← Numeral.decide_le]
      rfl
  | gt =>
      refine ⟨comparison ">" (· == .gt), rfl, ?_⟩
      rw [comparison_of_shows ">" _ hv hw, ← Numeral.decide_gt]
      rfl
  | ge =>
      refine ⟨comparison ">=" (· != .lt), rfl, ?_⟩
      rw [comparison_of_shows ">=" _ hv hw, ← Numeral.decide_ge]
      rfl

/-! ## Functions -/

open ExprCompiler.Expr (FloatFunction)
open Expr.FloatFunction (ofTruth)

theorem negation_of_shows (hv : v.Shows x) :
    ∃ u, negation [v] = .ok u ∧ u.Shows (ofTruth (x == 0)) := by
  refine ⟨_, rfl, ?_⟩
  rw [hv.truth, bne, Bool.not_not]
  exact Value.shows_bool _

theorem same_nearest_one : Same (Numeral.nearest 1) 1 := by decide +kernel

/-- The sign follows from how a double relates to zero. -/
theorem sign_eq_relate (x : Float) :
    FloatFunction.sign x = match relate x 0 with | some .gt => 1 | some .lt => -1 | _ => x := by
  simp only [FloatFunction.sign, Numeral.gt_iff_relate, Numeral.lt_iff_relate (y := 0)]
  rcases relate x 0 with _ | _ | _ | _ <;> rfl

theorem sign_of_shows (hv : v.Shows x) :
    ∃ u, sign [v] = .ok u ∧ u.Shows (FloatFunction.sign x) := by
  rw [sign_eq_relate]
  rcases hv.plain.float_or_denotes with ⟨a, rfl⟩ | ⟨q, hq, hqs⟩
  · refine ⟨_, rfl, trivial, ?_⟩
    have hrelate : relate a 0 = relate x 0 := hv.same.relate_left 0
    simp only [Value.asFloat, Value.toFloat, Numeral.gt_iff_relate,
      Numeral.lt_iff_relate (y := 0), hrelate]
    cases ho : relate x 0 with
    | none =>
        have hx : x.isNaN = true := Numeral.relate_zero_eq_none.1 ho
        have ha : a.isNaN = true := hv.isNaN.trans hx
        rw [ha]
        exact .inl ⟨by decide, hx⟩
    | some o =>
        have ha : a.isNaN = false := hv.isNaN.trans (Numeral.isNaN_of_relate ho)
        rw [ha]
        cases o with
        | lt => exact Numeral.same_refl (-1)
        | gt => exact Numeral.same_refl 1
        | eq =>
            have hx : Same x 0 := .inr (Numeral.beq_iff_relate.2 ho)
            exact hx.symm
  · obtain ⟨u, hu, hd⟩ := realizes_sign [v] [q] _ (.cons hq .nil) rfl
    refine ⟨u, hu, ?_⟩
    have hsame : Same (Numeral.nearest q) x := by
      rw [← hq.asFloat_eq]
      exact hv.same
    rw [← hsame.relate_left 0]
    rcases hqs with rfl | rfl | rfl
    · have hrelate : relate (Numeral.nearest 0) 0 = some .eq := by decide +kernel
      rw [hrelate]
      exact Value.shows_of_denotes hd (.inl rfl) hsame
    · have hrelate : relate (Numeral.nearest (1 / 2)) 0 = some .gt := by decide +kernel
      have hone : Exact.direction (1 / 2) = 1 := by decide +kernel
      rw [hrelate]
      rw [hone] at hd
      exact Value.shows_of_denotes hd (.inr (.inr rfl)) same_nearest_one
    · have hrelate : relate (Numeral.nearest 1) 0 = some .gt := by decide +kernel
      have hone : Exact.direction 1 = 1 := by decide +kernel
      rw [hrelate]
      rw [hone] at hd
      exact Value.shows_of_denotes hd (.inr (.inr rfl)) same_nearest_one

/-- The steps agree, unless the argument is a NaN and the value at zero is not. -/
theorem step_of_shows {a : Float} (hv : v.Shows x) (hw : w.Shows a)
    (hnan : x.isNaN = true → a.isNaN = true) :
    Shows
      (if v.asFloat.isNaN then .float Elementary.nan
        else
          match order v (.int 0) with
          | .lt => .int 0
          | .gt => .int 1
          | .eq => w)
      (if 0 < x then 1 else if x < 0 then 0 else a) := by
  rw [hv.isNaN]
  simp only [Numeral.gt_iff_relate, Numeral.lt_iff_relate (y := 0)]
  cases ho : relate x 0 with
  | none =>
      have hx : x.isNaN = true := Numeral.relate_zero_eq_none.1 ho
      rw [hx, if_pos rfl]
      exact ⟨trivial, .inl ⟨by decide, hnan hx⟩⟩
  | some o =>
      rw [Numeral.isNaN_of_relate ho, hv.order_eq Value.shows_zero ho]
      cases o with
      | lt => exact Value.shows_zero
      | gt => exact Value.shows_of_denotes (Value.denotes_int 1) (.inr (.inr rfl)) same_nearest_one
      | eq => exact hw

/-- Steps are those of the doubles shown, unless the first argument is NaN and the second is not. -/
theorem heaviside_of_shows {vs : List Value} {xs : List Float} {z : Float}
    (h : List.Forall₂ Shows vs xs)
    (hnan : ∀ x ∈ xs.head?, x.isNaN = true → ∃ a ∈ xs[1]?, a.isNaN = true)
    (hz : FloatFunction.heaviside xs = .ok z) : ∃ u, heaviside vs = .ok u ∧ u.Shows z := by
  have hreal := Value.checkReal_of_shows "heaviside" h
  have hhalf : Value.Shows (.rational (1 / 2)) 0.5 := ⟨.inr (.inl rfl), by decide +kernel⟩
  rcases h with _ | ⟨hx, _ | ⟨ha, _ | _⟩⟩
  · cases hz
  · obtain rfl := Except.ok.inj hz
    refine ⟨_, heaviside_cons (Nat.zero_le 1) hreal, step_of_shows hx hhalf fun hn ↦ ?_⟩
    obtain ⟨a, ha, -⟩ := hnan _ rfl hn
    cases ha
  · obtain rfl := Except.ok.inj hz
    refine ⟨_, heaviside_cons (Nat.le_refl 1) hreal, step_of_shows hx ha fun hn ↦ ?_⟩
    obtain ⟨a, ha, hn⟩ := hnan _ rfl hn
    obtain rfl := Option.some.inj ha
    exact hn
  · cases hz

/-! A conjunction or a disjunction folds the truth of its arguments, one by one. -/

/-- Folding truth values as doubles is folding them as booleans. -/
theorem foldl_ofTruth (op : Bool → Bool → Bool) (b : Bool) (xs : List Float) :
    xs.foldl (fun a b ↦ ofTruth (op (a != 0) (b != 0))) (ofTruth b) =
      ofTruth (xs.foldl (fun c x ↦ op c (x != 0)) b) := by
  have htruth (b : Bool) : (ofTruth b != 0) = b := by cases b <;> decide
  induction xs generalizing b with
  | nil => rfl
  | cons x xs ih => rw [List.foldl_cons, List.foldl_cons, htruth, ih]

/-- What is folded of plain values is folded of their doubles, unless a single argument is neither
zero nor one. -/
theorem fold_of_shows (op : Bool → Bool → Bool) {vs : List Value} {xs : List Float} {z : Float}
    (h : List.Forall₂ Shows vs xs) (hone : ∀ x, xs = [x] → x == 0 ∨ x == 1)
    (hz : FloatFunction.fold (fun a b ↦ ofTruth (op (a != 0) (b != 0))) xs = .ok z) :
    ∃ b bs, vs.map Value.truth = b :: bs ∧ Shows (.bool (bs.foldl op b)) z := by
  have htruth : vs.map Value.truth = xs.map (· != 0) := by
    clear hone hz
    induction h with
    | nil => rfl
    | cons hv _ ih => rw [List.map_cons, List.map_cons, hv.truth, ih]
  rw [htruth]
  match xs, hz with
  | [x], hz =>
      obtain rfl := Except.ok.inj hz
      refine ⟨_, _, rfl, trivial, ?_⟩
      change Same (Value.bool (x != 0)).asFloat x
      rcases hone x rfl with hx | hx
      · have hx : Same x 0 := .inr hx
        have htruth : (x != 0) = false := by
          rw [bne, hx.beq_eq (Numeral.same_refl 0)]
          decide
        rw [htruth]
        exact hx.symm
      · have hx : Same x 1 := .inr hx
        have htruth : (x != 0) = true := by
          rw [bne, hx.beq_eq (Numeral.same_refl 0)]
          decide
        rw [htruth]
        exact hx.symm
  | x :: y :: xs, hz =>
      obtain rfl := Except.ok.inj hz
      refine ⟨_, _, rfl, ?_⟩
      rw [List.foldl_cons, foldl_ofTruth, List.map_cons, List.foldl_cons, List.foldl_map]
      exact Value.shows_bool _

theorem foldl_and (b : Bool) (bs : List Bool) : bs.foldl (· && ·) b = (b :: bs).all id := by
  induction bs generalizing b with
  | nil => simp
  | cons c bs ih => simp [ih, Bool.and_assoc]

theorem foldl_or (b : Bool) (bs : List Bool) : bs.foldl (· || ·) b = (b :: bs).any id := by
  induction bs generalizing b with
  | nil => simp
  | cons c bs ih => simp [ih, Bool.or_assoc]

/-- Conjunctions show their fold in doubles. A single argument has to be a truth value. -/
theorem conjunction_of_shows {vs : List Value} {xs : List Float} {z : Float}
    (h : List.Forall₂ Shows vs xs) (hone : ∀ x, xs = [x] → x == 0 ∨ x == 1)
    (hz : FloatFunction.fold (fun a b ↦ ofTruth (a != 0 && b != 0)) xs = .ok z) :
    ∃ u, conjunction vs = .ok u ∧ u.Shows z := by
  obtain ⟨b, bs, hbs, hshows⟩ := fold_of_shows (· && ·) h hone hz
  refine ⟨_, rfl, ?_⟩
  rwa [foldl_and, ← hbs, List.all_map] at hshows

theorem disjunction_of_shows {vs : List Value} {xs : List Float} {z : Float}
    (h : List.Forall₂ Shows vs xs) (hone : ∀ x, xs = [x] → x == 0 ∨ x == 1)
    (hz : FloatFunction.fold (fun a b ↦ ofTruth (a != 0 || b != 0)) xs = .ok z) :
    ∃ u, disjunction vs = .ok u ∧ u.Shows z := by
  obtain ⟨b, bs, hbs, hshows⟩ := fold_of_shows (· || ·) h hone hz
  refine ⟨_, rfl, ?_⟩
  rwa [foldl_or, ← hbs, List.any_map] at hshows

end Builtin

end ExprCompiler
