import ExprCompiler.Proofs.Exact.Builtin
import ExprCompiler.Proofs.Numeral.Position

/-!
# The order of mixed values

Two exact values are compared as rationals, all others as doubles, an exact one being rounded first.
A double may so be equal to two rationals that differ, but rounding keeps the order, and that is
enough for the strict order to be transitive and for a scan to end at a least or a greatest value.
Main statement: the builtin comparisons, `min` and `max` fit together (`Builtin.order_coherent`).
-/

namespace ExprCompiler

open Numeral (position relate)

/-! ## Real values -/

namespace Value

/-- Whether a value is a truth value, a rational or a double. -/
def IsReal (v : Value) : Prop := v.isValid = true ∧ v.kind ≠ .complex

instance (v : Value) : Decidable v.IsReal := inferInstanceAs (Decidable (_ ∧ _))

def isNaN : Value → Bool
  | .float x => x.isNaN
  | _ => false

/-- A real value that is no NaN. -/
structure IsNumber (v : Value) : Prop where
  real : v.IsReal
  isNaN_eq : v.isNaN = false

variable {v : Value} {vs : List Value} {q : ℚ}

/-- A real value is a double or stands for a rational. -/
theorem IsReal.float_or_denotes (h : v.IsReal) : (∃ x, v = .float x) ∨ ∃ q, v.Denotes q := by
  cases v with
  | invalid => cases h.1
  | complex z => exact absurd rfl h.2
  | float x => exact .inl ⟨x, rfl⟩
  | bool b => exact .inr ⟨_, rfl⟩
  | rational q => exact .inr ⟨q, rfl⟩

theorem Denotes.isNaN_eq (h : v.Denotes q) : v.isNaN = false := by
  cases v with
  | float x => cases h
  | _ => rfl

theorem IsReal.isNaN_asFloat (h : v.IsReal) : v.asFloat.isNaN = v.isNaN := by
  rcases h.float_or_denotes with ⟨x, rfl⟩ | ⟨q, hq⟩
  · rfl
  · rw [hq.isNaN_asFloat, hq.isNaN_eq]

theorem IsReal.rank_ne (h : v.IsReal) : v.rank ≠ .complex := by
  rcases h.float_or_denotes with ⟨x, rfl⟩ | ⟨q, hq⟩
  · simp [rank]
  · simp [hq.rank]

theorem IsNumber.isNaN_asFloat (h : v.IsNumber) : v.asFloat.isNaN = false :=
  h.real.isNaN_asFloat.trans h.isNaN_eq

theorem checkReal_of_isReal (name : String) (h : ∀ v ∈ vs, v.IsReal) :
    Builtin.checkReal name vs = .ok () :=
  checkReal_of_forall₂ (R := fun v _ ↦ v.IsReal) name IsReal.rank_ne (List.forall₂_same.2 h)

end Value

/-! ## The order of two values -/

namespace Builtin

open Value

variable {a b c : Value} {o : Ordering}

/-- Two values stand for rationals, or are compared as doubles. -/
theorem denotes_or_rounded (a b : Value) :
    (∃ p q, a.Denotes p ∧ b.Denotes q) ∨ (a.rat? = none ∨ b.rat? = none) := by
  cases ha : a.rat? with
  | none => exact .inr (.inl rfl)
  | some p =>
      cases hb : b.rat? with
      | none => exact .inr (.inr rfl)
      | some q => exact .inl ⟨p, q, ha, hb⟩

/-- If one of two numbers is a double they are ordered as positions. -/
theorem order_of_rounded (ha : a.IsNumber) (hb : b.IsNumber) (h : a.rat? = none ∨ b.rat? = none) :
    order a b = compare (position a.asFloat) (position b.asFloat) := by
  rw [← Numeral.ite_lt_of_relate (Numeral.relate_eq_compare ha.isNaN_asFloat hb.isNaN_asFloat),
    order]
  split
  · rename_i hp hq
    rcases h with h | h
    · cases hp.symm.trans h
    · cases hq.symm.trans h
  · rfl

/-- The order of numbers is antisymmetric. -/
theorem order_swap (ha : a.IsNumber) (hb : b.IsNumber) : order b a = (order a b).swap := by
  rcases denotes_or_rounded a b with ⟨p, q, hp, hq⟩ | h
  · rw [order_of_denotes hp hq, order_of_denotes hq hp, cmp_swap]
  · rw [order_of_rounded ha hb h, order_of_rounded hb ha h.symm, ← Std.OrientedOrd.eq_swap]

/-- Rounding keeps the order of exact values. -/
theorem position_le_of_denotes {p q : ℚ} (ha : a.Denotes p) (hb : b.Denotes q) (h : p ≤ q) :
    position a.asFloat ≤ position b.asFloat := by
  rw [ha.asFloat_eq, hb.asFloat_eq]
  exact Numeral.position_nearest_mono h

theorem order_eq_lt_of_position (ha : a.IsNumber) (hb : b.IsNumber)
    (h : position a.asFloat < position b.asFloat) : order a b = .lt := by
  rcases denotes_or_rounded a b with ⟨p, q, hp, hq⟩ | hrounded
  · rw [order_of_denotes hp hq, cmp_eq_lt_iff]
    by_contra hle
    exact h.not_ge (position_le_of_denotes hq hp (not_lt.1 hle))
  · rw [order_of_rounded ha hb hrounded, compare_lt_iff_lt.2 h]

/-- The lower of two numbers has a lower position, or both are exact. -/
theorem position_lt_or_denotes (ha : a.IsNumber) (hb : b.IsNumber) (h : order a b = .lt) :
    position a.asFloat < position b.asFloat ∨ ∃ p q, a.Denotes p ∧ b.Denotes q ∧ p < q := by
  rcases denotes_or_rounded a b with ⟨p, q, hp, hq⟩ | hrounded
  · rw [order_of_denotes hp hq, cmp_eq_lt_iff] at h
    exact .inr ⟨p, q, hp, hq, h⟩
  · rw [order_of_rounded ha hb hrounded, compare_lt_iff_lt] at h
    exact .inl h

/-- The order of numbers is transitive. -/
theorem order_lt_trans (ha : a.IsNumber) (hb : b.IsNumber) (hc : c.IsNumber)
    (hab : order a b = .lt) (hbc : order b c = .lt) : order a c = .lt := by
  rcases position_lt_or_denotes ha hb hab with hab | ⟨p, q, hp, hq, hpq⟩
  · refine order_eq_lt_of_position ha hc ?_
    rcases position_lt_or_denotes hb hc hbc with hbc | ⟨q, r, hq, hr, hqr⟩
    · exact hab.trans hbc
    · exact hab.trans_le (position_le_of_denotes hq hr hqr.le)
  · rcases position_lt_or_denotes hb hc hbc with hbc | ⟨q', r, hq', hr, hqr⟩
    · refine order_eq_lt_of_position ha hc ?_
      exact (position_le_of_denotes hp hq hpq.le).trans_lt hbc
    · obtain rfl := Option.some.inj (hq.symm.trans hq')
      rw [order_of_denotes hp hr, cmp_eq_lt_iff]
      exact hpq.trans hqr

/-- Being before, or being after, is transitive. -/
theorem order_trans (ho : o ≠ .eq) (ha : a.IsNumber) (hb : b.IsNumber) (hc : c.IsNumber)
    (hab : order a b = o) (hbc : order b c = o) : order a c = o := by
  cases o with
  | lt => exact order_lt_trans ha hb hc hab hbc
  | eq => exact absurd rfl ho
  | gt =>
      rw [order_swap hb ha, Ordering.swap_eq_gt] at hab
      rw [order_swap hc hb, Ordering.swap_eq_gt] at hbc
      rw [order_swap hc ha, order_lt_trans hc hb ha hbc hab]
      rfl

/-! ## Comparisons -/

theorem widest_of_rounded (ha : a.IsReal) (hb : b.IsReal) (h : a.rat? = none ∨ b.rat? = none) :
    widest [a, b] = .float := by
  rw [widest, List.foldl_cons, List.foldl_cons, List.foldl_nil]
  rcases ha.float_or_denotes with ⟨x, rfl⟩ | ⟨p, hp⟩
  · rcases hb.float_or_denotes with ⟨y, rfl⟩ | ⟨q, hq⟩
    · rfl
    · rw [hq.rank]
      rfl
  · rcases hb.float_or_denotes with ⟨y, rfl⟩ | ⟨q, hq⟩
    · rw [hp.rank]
      rfl
    · rw [hp, hq] at h
      simp at h

/-- Numbers are equal if neither comes first, and a NaN is equal to nothing. -/
theorem equal_of_isReal (ha : a.IsReal) (hb : b.IsReal) :
    equal a b = (!(a.isNaN || b.isNaN) && order a b == .eq) := by
  rcases denotes_or_rounded a b with ⟨p, q, hp, hq⟩ | hrounded
  · rw [equal, widest_of_denotes (.cons hp (.cons hq .nil)), hp.isNaN_eq, hq.isNaN_eq]
    rfl
  · rw [equal, widest_of_rounded ha hb hrounded, Bool.eq_iff_iff]
    change (a.asFloat == b.asFloat) = true ↔ _
    rw [Numeral.beq_iff_relate]
    by_cases hnan : a.isNaN = false ∧ b.isNaN = false
    · have ha' : a.IsNumber := ⟨ha, hnan.1⟩
      have hb' : b.IsNumber := ⟨hb, hnan.2⟩
      rw [Numeral.relate_eq_compare ha'.isNaN_asFloat hb'.isNaN_asFloat,
        order_of_rounded ha' hb' hrounded, hnan.1, hnan.2]
      simp
    · have hnone : relate a.asFloat b.asFloat = none := by
        rw [Numeral.relate_eq_none, ha.isNaN_asFloat, hb.isNaN_asFloat]
        simpa [Decidable.or_iff_not_imp_left] using hnan
      have htrue : (a.isNaN || b.isNaN) = true := by
        simpa [Decidable.or_iff_not_imp_left] using hnan
      simp [hnone, htrue]

/-- Comparisons of real values hold by their order, and never of NaN. -/
theorem comparison_of_isReal (name : String) (test : Ordering → Bool) (ha : a.IsReal)
    (hb : b.IsReal) :
    comparison name test [a, b] = .ok (.bool (!(a.isNaN || b.isNaN) && test (order a b))) := by
  have hreal : checkReal name [a, b] = .ok () := checkReal_of_isReal name (by simp [ha, hb])
  simp only [comparison, two, hreal, Outcome.ok_bind, ha.isNaN_asFloat, hb.isNaN_asFloat]
  cases a.isNaN || b.isNaN <;> rfl

/-! ## Least and greatest values -/

theorem order_of_isNaN (a : Value) (hnan : b.isNaN = true) : order a b = .eq := by
  cases b with
  | float y =>
      have hrelate : relate a.asFloat y = none := Numeral.relate_eq_none.2 (.inr hnan)
      rw [order]
      split
      · rename_i hq
        cases hq
      · have hlt : ¬a.asFloat < y := by simp [Numeral.lt_iff_relate, hrelate]
        have hgt : ¬y < a.asFloat := by simp [Numeral.gt_iff_relate, hrelate]
        exact (if_neg hlt).trans (if_neg hgt)
  | _ => cases hnan

variable {best : Value} {vs : List Value}

theorem order_self (ha : a.IsNumber) : order a a = .eq := by
  have hswap := order_swap ha ha
  cases h : order a a with
  | eq => rfl
  | _ =>
      rw [h] at hswap
      cases hswap

/-- One step of a scan: neither of two numbers comes before the one that is kept. -/
theorem better_of_isNumber (ho : o ≠ .eq) (ha : a.IsNumber) (hbest : best.IsNumber) :
    ∃ next, (if order a best == o then a else best) = next ∧
      (next = a ∨ next = best) ∧ (next = best ∨ order next best = o) ∧
      order a next ≠ o ∧ order best next ≠ o := by
  by_cases hab : order a best = o
  · refine ⟨a, if_pos (beq_iff_eq.2 hab), .inl rfl, .inr hab, ?_, ?_⟩
    · rw [order_self ha]
      exact ho.symm
    · rw [order_swap ha hbest, hab]
      cases o <;> simp at ho ⊢
  · refine ⟨best, if_neg (by simpa using hab), .inr rfl, .inl rfl, hab, ?_⟩
    rw [order_self hbest]
    exact ho.symm

/-- A whole scan of numbers ends at its start or at what comes before it, and nothing that it has
seen comes before its end. -/
theorem extreme_of_isNumber (ho : o ≠ .eq) (hbest : best.IsNumber) (hvs : ∀ v ∈ vs, v.IsNumber) :
    ∃ v, extreme (· == o) best vs = v ∧ v ∈ best :: vs ∧ (v = best ∨ order v best = o) ∧
      ∀ w ∈ best :: vs, order w v ≠ o := by
  induction vs generalizing best with
  | nil =>
      refine ⟨best, rfl, List.mem_cons_self, .inl rfl, fun w hw ↦ ?_⟩
      rw [List.mem_singleton.1 hw, order_self hbest]
      exact ho.symm
  | cons a vs ih =>
      obtain ⟨ha, hvs⟩ := List.forall_mem_cons.1 hvs
      obtain ⟨next, hnext, hmem, hstep, hafter, hbefore⟩ := better_of_isNumber ho ha hbest
      have hnumber : next.IsNumber := by
        rcases hmem with rfl | rfl
        · exact ha
        · exact hbest
      obtain ⟨v, hv, hvmem, hend, hleast⟩ := ih hnumber hvs
      have hvnumber : v.IsNumber := by
        rcases List.mem_cons.1 hvmem with rfl | hv
        · exact hnumber
        · exact hvs v hv
      -- what does not come before the value that is kept does not come before the end
      have hlater {w : Value} (hw : w.IsNumber) (h : order w next ≠ o) : order w v ≠ o := by
        rcases hend with rfl | hend
        · exact h
        · exact fun hwv ↦ h (order_trans ho hw hvnumber hnumber hwv hend)
      refine ⟨v, ?_, ?_, ?_, ?_⟩
      · rw [extreme, ha.isNaN_asFloat, if_neg Bool.false_ne_true, hnext, hv]
      · rcases List.mem_cons.1 hvmem with rfl | hv
        · rcases hmem with rfl | rfl <;> simp
        · exact List.mem_cons_of_mem _ (List.mem_cons_of_mem _ hv)
      · rcases hstep with rfl | hstep
        · exact hend
        · rcases hend with rfl | hend
          · exact .inr hstep
          · exact .inr (order_trans ho hvnumber hnumber hbest hend hstep)
      · intro w hw
        rcases List.mem_cons.1 hw with rfl | hw
        · exact hlater hbest hbefore
        · rcases List.mem_cons.1 hw with rfl | hw
          · exact hlater ha hafter
          · exact hleast w (List.mem_cons_of_mem _ hw)

/-- A scan ends at a NaN if it comes to one. -/
theorem extreme_of_isNaN (ho : o ≠ .eq) (hvs : ∀ v ∈ vs, v.IsReal)
    (hnan : ∃ w ∈ best :: vs, w.isNaN = true) :
    ∃ v, extreme (· == o) best vs = v ∧ v ∈ best :: vs ∧ v.isNaN = true := by
  induction vs generalizing best with
  | nil =>
      obtain ⟨w, hw, hnan⟩ := hnan
      obtain rfl := List.mem_singleton.1 hw
      exact ⟨w, rfl, hw, hnan⟩
  | cons a vs ih =>
      obtain ⟨ha, hvs⟩ := List.forall_mem_cons.1 hvs
      rw [extreme, ha.isNaN_asFloat]
      by_cases han : a.isNaN = true
      · exact ⟨a, if_pos han, by simp, han⟩
      · rw [if_neg han]
        generalize hnext : (if order a best == o then a else best) = next
        have hmem : next = a ∨ next = best := by
          rw [← hnext]
          split
          · exact .inl rfl
          · exact .inr rfl
        have hrest : ∃ w ∈ next :: vs, w.isNaN = true := by
          obtain ⟨w, hw, hnan⟩ := hnan
          rcases List.mem_cons.1 hw with rfl | hw
          · have hkeep : next = w := by
              rw [← hnext, order_of_isNaN a hnan]
              exact if_neg (by simpa using ho.symm)
            exact ⟨w, by simp [hkeep], hnan⟩
          · rcases List.mem_cons.1 hw with rfl | hw
            · exact absurd hnan han
            · exact ⟨w, List.mem_cons_of_mem _ hw, hnan⟩
        obtain ⟨v, hv, hvmem, hnan⟩ := ih hvs hrest
        refine ⟨v, hv, ?_, hnan⟩
        rcases List.mem_cons.1 hvmem with rfl | hv
        · rcases hmem with rfl | rfl <;> simp
        · exact List.mem_cons_of_mem _ (List.mem_cons_of_mem _ hv)

/-- The end of a scan: one of the arguments, a NaN if there is one, and else one that no argument
comes before. -/
theorem extremum_of_isReal (name : String) (ho : o ≠ .eq) (hne : vs ≠ [])
    (hvs : ∀ v ∈ vs, v.IsReal) :
    ∃ v ∈ vs, extremum name (· == o) vs = .ok v ∧ (v.isNaN = true ↔ ∃ w ∈ vs, w.isNaN = true) ∧
      (v.isNaN = false → ∀ w ∈ vs, w.IsNumber ∧ order v w ≠ o.swap) := by
  obtain ⟨a, rest, rfl⟩ := List.exists_cons_of_ne_nil hne
  have hrun {v : Value} (h : extreme (· == o) a rest = v) :
      extremum name (· == o) (a :: rest) = .ok v := by
    rw [extremum, checkReal_of_isReal name hvs, Outcome.ok_bind, h]
    rfl
  by_cases hnan : ∃ w ∈ a :: rest, w.isNaN = true
  · obtain ⟨v, hv, hmem, hvnan⟩ := extreme_of_isNaN ho (List.forall_mem_cons.1 hvs).2 hnan
    exact ⟨v, hmem, hrun hv, iff_of_true hvnan hnan, fun h ↦ by simp [hvnan] at h⟩
  · have hnumbers : ∀ w ∈ a :: rest, w.IsNumber := fun w hw ↦
      ⟨hvs w hw, Bool.eq_false_of_not_eq_true fun h ↦ hnan ⟨w, hw, h⟩⟩
    obtain ⟨hfirst, hrest⟩ := List.forall_mem_cons.1 hnumbers
    obtain ⟨v, hv, hmem, -, hleast⟩ := extreme_of_isNumber ho hfirst hrest
    have hvnumber := hnumbers v hmem
    refine ⟨v, hmem, hrun hv, iff_of_false (by simp [hvnumber.isNaN_eq]) hnan, fun _ w hw ↦ ?_⟩
    refine ⟨hnumbers w hw, fun h ↦ hleast w hw ?_⟩
    rw [order_swap hvnumber (hnumbers w hw), h, Ordering.swap_swap]

/-! ## The builtin callables -/

/-- What a builtin callable gives for arguments. -/
def Gives (name : String) (args : List Value) (v : Value) : Prop :=
  ∃ f, Registry.builtin.find? name = some f ∧ f args = .ok v

/-- What the registry gives under a name is the answer of its callable. -/
theorem gives_iff {name : String} {f : Callable} (h : Registry.builtin.find? name = some f)
    {args : List Value} {v : Value} : Gives name args v ↔ f args = .ok v := by
  simp [Gives, h]

theorem comparison_eq_true_iff (name : String) (test : Ordering → Bool) (ha : a.IsReal)
    (hb : b.IsReal) :
    comparison name test [a, b] = .ok (.bool true) ↔
      a.IsNumber ∧ b.IsNumber ∧ test (order a b) = true := by
  rw [comparison_of_isReal name test ha hb]
  constructor
  · intro h
    have htrue := Value.bool.inj (Except.ok.inj h)
    simp only [Bool.and_eq_true, Bool.not_eq_true', Bool.or_eq_false_iff] at htrue
    exact ⟨⟨ha, htrue.1.1⟩, ⟨hb, htrue.1.2⟩, htrue.2⟩
  · rintro ⟨ha, hb, htest⟩
    rw [ha.isNaN_eq, hb.isNaN_eq, htest]
    rfl

/-- The six comparisons of real values have consistent answers, of which exactly one of the strict
ones and equality holds unless there is a NaN. -/
theorem exists_answers (ha : a.IsReal) (hb : b.IsReal) : ∃ below same above : Bool,
    Gives "<" [a, b] (.bool below) ∧ Gives "==" [a, b] (.bool same) ∧
    Gives ">" [a, b] (.bool above) ∧ Gives "<=" [a, b] (.bool (below || same)) ∧
    Gives ">=" [a, b] (.bool (above || same)) ∧ Gives "!=" [a, b] (.bool !same) ∧
    [below, same, above].count true = if a.isNaN || b.isNaN then 0 else 1 := by
  have hcompare (name : String) (test : Ordering → Bool) {answer : Bool}
      (hname : Registry.builtin.find? name = some (comparison name test))
      (h : (!(a.isNaN || b.isNaN) && test (order a b)) = answer) :
      Gives name [a, b] (.bool answer) := by
    rw [gives_iff hname, comparison_of_isReal name test ha hb, h]
  have hequal {name : String} {negated answer : Bool}
      (hname : Registry.builtin.find? name = some (equality name negated))
      (h : ((!(a.isNaN || b.isNaN) && order a b == .eq) != negated) = answer) :
      Gives name [a, b] (.bool answer) := by
    rw [gives_iff hname, equality, two, equal_of_isReal ha hb, h]
  generalize order a b = o at hcompare hequal
  generalize (a.isNaN || b.isNaN) = nan at hcompare hequal ⊢
  refine ⟨!nan && o == .lt, !nan && o == .eq, !nan && o == .gt, hcompare "<" (· == .lt) rfl rfl,
    hequal rfl (Bool.bne_false _), hcompare ">" (· == .gt) rfl rfl, hcompare "<=" (· != .gt) rfl ?_,
    hcompare ">=" (· != .lt) rfl ?_, hequal rfl (Bool.bne_true _), ?_⟩
  · cases nan <;> cases o <;> rfl
  · cases nan <;> cases o <;> rfl
  · cases nan <;> cases o <;> rfl

/-- The less-than comparison of real values is transitive. -/
theorem gives_lt_trans (ha : a.IsReal) (hb : b.IsReal) (hc : c.IsReal)
    (hab : Gives "<" [a, b] (.bool true)) (hbc : Gives "<" [b, c] (.bool true)) :
    Gives "<" [a, c] (.bool true) := by
  have hiff {x y : Value} (hx : x.IsReal) (hy : y.IsReal) : Gives "<" [x, y] (.bool true) ↔
      x.IsNumber ∧ y.IsNumber ∧ order x y = .lt := by
    rw [gives_iff rfl, comparison_eq_true_iff "<" _ hx hy, beq_iff_eq]
  obtain ⟨ha', hb', hab⟩ := (hiff ha hb).1 hab
  obtain ⟨-, hc', hbc⟩ := (hiff hb hc).1 hbc
  exact (hiff ha hc).2 ⟨ha', hc', order_lt_trans ha' hb' hc' hab hbc⟩

/-- A callable that scans for what comes first, and the comparison that this stands in with all
arguments. -/
theorem exists_gives_extremum {name bound : String} (ho : o ≠ .eq)
    (hname : Registry.builtin.find? name = some (extremum name (· == o)))
    (hbound : Registry.builtin.find? bound = some (comparison bound (· != o.swap)))
    (hne : vs ≠ []) (hvs : ∀ v ∈ vs, v.IsReal) :
    ∃ v ∈ vs, Gives name vs v ∧ (v.isNaN = true ↔ ∃ w ∈ vs, w.isNaN = true) ∧
      (v.isNaN = false → ∀ w ∈ vs, Gives bound [v, w] (.bool true)) := by
  obtain ⟨v, hmem, hv, hnan, hleast⟩ := extremum_of_isReal name ho hne hvs
  refine ⟨v, hmem, (gives_iff hname).2 hv, hnan, fun hvnan w hw ↦ (gives_iff hbound).2 ?_⟩
  obtain ⟨hwnumber, horder⟩ := hleast hvnan w hw
  rw [comparison_eq_true_iff bound _ (hvs v hmem) (hvs w hw)]
  exact ⟨⟨hvs v hmem, hvnan⟩, hwnumber, bne_iff_ne.2 horder⟩

/-- Comparisons of real values fit together, whatever mixture of truth values, rationals and doubles
they are: of two numbers exactly one is below the other or they are equal, nothing holds of a NaN
but that it differs, and the strict order is transitive. A least or greatest value is one of the
arguments, is a NaN if there is one, and else is in order with all of them. -/
theorem order_coherent :
    (∀ a b : Value, a.IsReal → b.IsReal → ∃ below same above : Bool,
      Gives "<" [a, b] (.bool below) ∧ Gives "==" [a, b] (.bool same) ∧
      Gives ">" [a, b] (.bool above) ∧ Gives "<=" [a, b] (.bool (below || same)) ∧
      Gives ">=" [a, b] (.bool (above || same)) ∧ Gives "!=" [a, b] (.bool !same) ∧
      [below, same, above].count true = if a.isNaN || b.isNaN then 0 else 1) ∧
    (∀ a b c : Value, a.IsReal → b.IsReal → c.IsReal →
      Gives "<" [a, b] (.bool true) → Gives "<" [b, c] (.bool true) →
      Gives "<" [a, c] (.bool true)) ∧
    ∀ vs : List Value, vs ≠ [] → (∀ v ∈ vs, v.IsReal) →
      ∀ name bound, (name, bound) ∈ [("min", "<="), ("max", ">=")] →
        ∃ v ∈ vs, Gives name vs v ∧ (v.isNaN = true ↔ ∃ w ∈ vs, w.isNaN = true) ∧
          (v.isNaN = false → ∀ w ∈ vs, Gives bound [v, w] (.bool true)) := by
  refine ⟨fun a b ↦ exists_answers, fun a b c ↦ gives_lt_trans, ?_⟩
  intro vs hne hvs name bound hname
  rcases List.mem_pair.1 hname with h | h
  · obtain ⟨rfl, rfl⟩ := Prod.mk.inj h
    exact exists_gives_extremum (o := .lt) (by decide) rfl rfl hne hvs
  · obtain ⟨rfl, rfl⟩ := Prod.mk.inj h
    exact exists_gives_extremum (o := .gt) (by decide) rfl rfl hne hvs

/-- Two rationals that differ and a double that both are equal to. -/
theorem order_coherent_rounded :
    let p : Value := .rational 9007199254740993
    let x : Value := .float 9007199254740992
    let q : Value := .rational 9007199254740992
    Gives "==" [p, x] (.bool true) ∧ Gives "==" [x, q] (.bool true) ∧
      Gives "<" [q, p] (.bool true) ∧
      ∃ v ∈ [p, x, q], Gives "min" [p, x, q] v ∧ v.isNaN = false ∧
        ∀ w ∈ [p, x, q], Gives "<=" [v, w] (.bool true) := by
  intro p x q
  have hvs : ∀ v ∈ [p, x, q], v.IsReal := by decide
  have hequal : equal p x = true ∧ equal x q = true := by decide +kernel
  obtain ⟨v, hv, hmin, hnan, hleast⟩ :=
    order_coherent.2.2 [p, x, q] (by simp) hvs "min" "<=" (by simp)
  have hv' : v.isNaN = false := by
    have hnone : ¬∃ w ∈ [p, x, q], w.isNaN = true := by decide +kernel
    exact Bool.eq_false_of_not_eq_true fun h ↦ hnone (hnan.1 h)
  refine ⟨⟨_, rfl, ?_⟩, ⟨_, rfl, ?_⟩, ⟨_, rfl, ?_⟩, v, hv, hmin, hv', hleast hv'⟩
  · exact congrArg (fun b ↦ Except.ok (Value.bool (b != false))) hequal.1
  · exact congrArg (fun b ↦ Except.ok (Value.bool (b != false))) hequal.2
  · exact (comparison_eq_true_iff "<" _ (hvs q (by simp)) (hvs p (by simp))).2
      ⟨⟨by decide, rfl⟩, ⟨by decide, rfl⟩, by decide +kernel⟩

end Builtin

end ExprCompiler
