import ExprCompiler.Proofs.Exact.Builtin
import ExprCompiler.Proofs.Logic.Order

/-!
# Builtin callables answer

A callable that is given valid values should give a valid value back or complain in its own name,
and not fault. Main statement: the builtin callables do so for arguments of all kinds and any
number, but for one: zeta faults on a real argument below one, and on no other
(`Registry.builtin_faults_iff`).
-/

namespace ExprCompiler

/-! ## Answers -/

/-- An answer in the name of a callable: a valid value, or a complaint. -/
inductive Answer (name : String) : Except Failure Value → Prop
  | value {v : Value} (h : v.isValid = true) : Answer name (.ok v)
  | complaint (why : Complaint) : Answer name (.error (.callable name why))

/-- A callable that answers in a name, whatever valid values it is given. -/
def Callable.Answers (name : String) (f : Callable) : Prop :=
  ∀ args : List Value, (∀ v ∈ args, v.isValid = true) → Answer name (f args)

namespace Answer

variable {name : String} {r : Except Failure Value}

/-- An answer is a valid value or a complaint of the callable itself. -/
theorem value_or_complaint (h : Answer name r) :
    (∃ v, r = .ok v ∧ v.isValid = true) ∨ ∃ why, r = .error (.callable name why) := by
  cases h with
  | value hv => exact .inl ⟨_, rfl, hv⟩
  | complaint why => exact .inr ⟨why, rfl⟩

theorem ne_fault (h : Answer name r) (fault : Fault) : r ≠ .error (.fault fault) := by
  cases h <;> simp

end Answer

/-! ## Ranks -/

namespace Value

variable {v : Value} {vs : List Value}

/-- At these ranks operands meet without rounding. -/
def Rank.IsExact (r : Rank) : Prop := r ≠ .complex ∧ r ≠ .float

/-- A join is exact only if both of its parts are. -/
theorem Rank.isExact_of_join {r s : Rank} (h : (r.join s).IsExact) : r.IsExact ∧ s.IsExact := by
  unfold IsExact at h ⊢
  cases r <;> cases s <;> simp_all [join]

/-- The widest rank is exact only if every rank is. -/
theorem isExact_of_foldl {r : Rank} (h : (vs.foldl (fun r v ↦ r.join v.rank) r).IsExact) :
    r.IsExact ∧ ∀ v ∈ vs, v.rank.IsExact := by
  induction vs generalizing r with
  | nil => exact ⟨h, by simp⟩
  | cons v vs ih =>
      obtain ⟨hjoin, hvs⟩ := ih h
      obtain ⟨hr, hv⟩ := Rank.isExact_of_join hjoin
      exact ⟨hr, List.forall_mem_cons.2 ⟨hv, hvs⟩⟩

/-- A valid value of an exact rank stands for a rational. -/
theorem denotes_of_isExact (hvalid : v.isValid = true) (h : v.rank.IsExact) :
    ∃ q, v.Denotes q := by
  cases v with
  | bool b => exact ⟨_, rfl⟩
  | rational q => exact ⟨q, rfl⟩
  | invalid => cases hvalid
  | float x => exact absurd rfl h.2
  | complex z => exact absurd rfl h.1

/-- Valid operands meet as complex numbers or doubles, or all of them are exact numbers. -/
theorem widest_cases (hvs : ∀ v ∈ vs, v.isValid = true) :
    widest vs = .complex ∨ widest vs = .float ∨ ∃ qs, List.Forall₂ Denotes vs qs := by
  by_cases h : (widest vs).IsExact
  · have hranks := (isExact_of_foldl h).2
    clear h
    refine .inr (.inr ?_)
    induction vs with
    | nil => exact ⟨[], .nil⟩
    | cons v vs ih =>
        obtain ⟨hv, hvs⟩ := List.forall_mem_cons.1 hvs
        obtain ⟨hrank, hranks⟩ := List.forall_mem_cons.1 hranks
        obtain ⟨q, hq⟩ := denotes_of_isExact hv hrank
        obtain ⟨qs, hqs⟩ := ih hvs hranks
        exact ⟨q :: qs, .cons hq hqs⟩
  · rw [Rank.IsExact, not_and_or, not_not, not_not] at h
    exact h.imp_right .inl

/-- Two valid values meet as complex numbers, as doubles or as rationals. -/
theorem widest_pair_cases {a b : Value} (ha : a.isValid = true) (hb : b.isValid = true) :
    widest [a, b] = .complex ∨ widest [a, b] = .float ∨ ∃ p q, a.Denotes p ∧ b.Denotes q := by
  have hvs : ∀ v ∈ [a, b], v.isValid = true := by simp [ha, hb]
  refine (widest_cases hvs).imp_right (Or.imp_right ?_)
  rintro ⟨qs, _ | ⟨hp, _ | ⟨hq, -⟩⟩⟩
  exact ⟨_, _, hp, hq⟩

end Value

namespace Builtin

open Value

variable {name : String} {args : List Value} {a b x : Value}

/-! ## Arithmetic -/

theorem exists_add (hargs : ∀ v ∈ args, v.isValid = true) :
    ∃ v, add args = .ok v ∧ v.isValid = true := by
  rcases widest_cases hargs with h | h | ⟨qs, hqs⟩
  · exact ⟨_, by rw [add, h], rfl⟩
  · exact ⟨_, by rw [add, h], rfl⟩
  · exact ⟨_, add_of_denotes hqs, rfl⟩

theorem exists_mul (hargs : ∀ v ∈ args, v.isValid = true) :
    ∃ v, mul args = .ok v ∧ v.isValid = true := by
  rcases widest_cases hargs with h | h | ⟨qs, hqs⟩
  · exact ⟨_, by rw [mul, h], rfl⟩
  · exact ⟨_, by rw [mul, h], rfl⟩
  · exact ⟨_, mul_of_denotes hqs, rfl⟩

theorem exists_negate (hx : x.isValid = true) : ∃ v, negate x = .ok v ∧ v.isValid = true :=
  exists_mul (List.forall_mem_cons.2 ⟨rfl, by simp [hx]⟩)

/-- A quotient by an exact zero is a double, and there is one in all other cases too. -/
theorem exists_div (ha : a.isValid = true) (hb : b.isValid = true) :
    ∃ v, div [a, b] = .ok v ∧ v.isValid = true := by
  rcases widest_pair_cases ha hb with h | h | ⟨p, q, hp, hq⟩
  · exact ⟨_, by rw [div, two, h], rfl⟩
  · exact ⟨_, by rw [div, two, h], rfl⟩
  · by_cases hzero : q = 0
    · refine ⟨.float (a.asFloat / 0.0), ?_, rfl⟩
      rw [div, two, widest_of_denotes (.cons hp (.cons hq .nil)), hq.exact]
      simp [hzero]
    · exact ⟨_, div_of_denotes hp hq hzero, rfl⟩

theorem exists_pow (ha : a.isValid = true) (hb : b.isValid = true) :
    ∃ v, pow [a, b] = .ok v ∧ v.isValid = true := by
  rcases widest_pair_cases ha hb with h | h | ⟨p, q, hp, hq⟩
  · exact ⟨_, by rw [pow, two, h], rfl⟩
  · exact ⟨_, by rw [pow, two, h], rfl⟩
  · rw [pow, two, widest_of_denotes (.cons hp (.cons hq .nil)), hq.exact, hp.exact]
    simp only [Outcome.ok_bind]
    split
    · split
      · exact ⟨_, rfl, rfl⟩
      · exact ⟨_, rfl, rfl⟩
    · exact ⟨_, rfl, rfl⟩

theorem answer_of_exists {r : Except Failure Value} (h : ∃ v, r = .ok v ∧ v.isValid = true) :
    Answer name r := by
  obtain ⟨v, rfl, hv⟩ := h
  exact .value hv

/-! ## Numbers of arguments -/

/-- A callable of one argument answers if its function does. -/
theorem answers_one {f : Value → Except Failure Value}
    (h : ∀ x, x.isValid = true → Answer name (f x)) : Callable.Answers name (one name f) := by
  intro args hargs
  rcases args with _ | ⟨x, _ | ⟨y, rest⟩⟩
  · exact .complaint _
  · exact h x (hargs x (by simp))
  · exact .complaint _

/-- A callable of two arguments answers if its function does. -/
theorem answers_two {f : Value → Value → Except Failure Value}
    (h : ∀ a b, a.isValid = true → b.isValid = true → Answer name (f a b)) :
    Callable.Answers name (two name f) := by
  intro args hargs
  rcases args with _ | ⟨a, _ | ⟨b, _ | ⟨c, rest⟩⟩⟩
  · exact .complaint _
  · exact .complaint _
  · exact h a b (hargs a (by simp)) (hargs b (by simp))
  · exact .complaint _

/-- The check for real arguments passes, or complains in the name of the callable. -/
theorem checkReal_cases (name : String) (args : List Value) :
    checkReal name args = .ok () ∨
      ∃ why, checkReal name args = .error (.callable name why) := by
  unfold checkReal
  split
  · exact .inr ⟨_, rfl⟩
  · exact .inl rfl

/-- A callable that refuses complex arguments answers if it does so for all others. -/
theorem answer_checkReal {k : Unit → Except Failure Value} (h : Answer name (k ())) :
    Answer name (checkReal name args >>= k) := by
  rcases checkReal_cases name args with hreal | ⟨why, hcomplex⟩
  · rw [hreal]
    exact h
  · rw [hcomplex]
    exact .complaint why

theorem answers_sub : Callable.Answers "-" sub := by
  intro args hargs
  rcases args with _ | ⟨x, _ | ⟨y, _ | ⟨z, rest⟩⟩⟩
  · exact .complaint _
  · exact answer_of_exists (exists_negate (hargs x (by simp)))
  · obtain ⟨v, hv, hvalid⟩ := exists_negate (hargs y (by simp))
    rw [sub, hv, Outcome.ok_bind]
    have hsummands : ∀ w ∈ [x, v], w.isValid = true :=
      List.forall_mem_cons.2 ⟨hargs x (by simp), by simp [hvalid]⟩
    exact answer_of_exists (exists_add hsummands)
  · exact .complaint _

/-! ## Functions -/

/-- Functions of doubles answer, with or without an extension to complex numbers. -/
theorem answers_analytic (name : String) (f : Float → Float)
    (g : Option (ComplexFloat → ComplexFloat)) :
    Callable.Answers name (analytic name f g) := by
  refine answers_one fun x hx ↦ ?_
  cases x with
  | complex z =>
      cases g with
      | none => exact .complaint _
      | some g => exact .value rfl
  | _ => exact .value rfl

/-- The natural logarithm has a value everywhere. -/
theorem exists_naturalLog (x : Value) : ∃ v, naturalLog [x] = .ok v ∧ v.isValid = true := by
  cases x <;> exact ⟨_, rfl, rfl⟩

theorem answers_logarithm : Callable.Answers "log" logarithm := by
  intro args hargs
  rcases args with _ | ⟨x, _ | ⟨b, _ | ⟨c, rest⟩⟩⟩
  · exact .complaint _
  · exact answer_of_exists (exists_naturalLog x)
  · obtain ⟨l, hl, hlvalid⟩ := exists_naturalLog x
    obtain ⟨m, hm, hmvalid⟩ := exists_naturalLog b
    rw [logarithm, hl, hm, Outcome.ok_bind, Outcome.ok_bind]
    exact answer_of_exists (exists_div hlvalid hmvalid)
  · exact .complaint _

theorem answers_realBinary (name : String) (f : Float → Float → Float) :
    Callable.Answers name (realBinary name f) :=
  answers_two fun _ _ _ _ ↦ answer_checkReal (.value rfl)

/-- Roundings answer, exactly or in doubles. -/
theorem answers_rounding (name : String) (f : Float → Float) (g : Rat → Int) :
    Callable.Answers name (rounding name f g) := by
  refine answers_one fun x _ ↦ answer_checkReal ?_
  cases x.rat? with
  | some q => exact .value rfl
  | none => exact .value rfl

theorem answers_mod : Callable.Answers "mod" mod := by
  refine answers_two fun a b _ _ ↦ answer_checkReal ?_
  cases a.rat? with
  | none => exact .value rfl
  | some p =>
      cases b.rat? with
      | none => exact .value rfl
      | some q =>
          dsimp only
          split
          · exact .value rfl
          · exact .value rfl

theorem answers_factorial : Callable.Answers "factorial" factorial := by
  refine answers_one fun x _ ↦ answer_checkReal ?_
  cases x with
  | rational q =>
      dsimp only
      split
      · split
        · exact .complaint _
        · split
          · exact .value rfl
          · exact .value rfl
      · exact .value rfl
  | _ => exact .value rfl

theorem answers_comparison (name : String) (holds : Ordering → Bool) :
    Callable.Answers name (comparison name holds) := by
  refine answers_two fun a b _ _ ↦ answer_checkReal ?_
  split
  · exact .value rfl
  · exact .value rfl

/-- An extreme is one of the values that it is taken over. -/
theorem extreme_mem (better : Ordering → Bool) (best : Value) (vs : List Value) :
    extreme better best vs ∈ best :: vs := by
  induction vs generalizing best with
  | nil => exact List.mem_cons_self
  | cons a vs ih =>
      rw [extreme]
      split
      · simp
      · rcases List.mem_cons.1 (ih (if better (order a best) then a else best)) with h | h
        · rw [h]
          split <;> simp
        · simp [h]

/-- Extremes answer, since they give back an argument. -/
theorem answers_extremum (name : String) (better : Ordering → Bool) :
    Callable.Answers name (extremum name better) := by
  intro args hargs
  cases args with
  | nil => exact .complaint _
  | cons a rest => exact answer_checkReal (.value (hargs _ (extreme_mem better a rest)))

theorem answers_heaviside : Callable.Answers "heaviside" heaviside := by
  intro args hargs
  rcases args with _ | ⟨x, rest⟩
  · exact .complaint _
  · by_cases hlength : rest.length ≤ 1
    · have hdefault : (rest.headD (.rational (1 / 2))).isValid = true := by
        cases rest with
        | nil => rfl
        | cons h rest => exact hargs h (by simp)
      rcases checkReal_cases "heaviside" (x :: rest) with hreal | ⟨why, hcomplex⟩
      · rw [heaviside_cons hlength hreal]
        split
        · exact .value rfl
        · cases order x (.int 0) with
          | lt => exact .value rfl
          | gt => exact .value rfl
          | eq => exact .value hdefault
      · rcases rest with _ | ⟨h, _ | ⟨y, rest⟩⟩
        · simp only [heaviside, hcomplex, Outcome.error_bind]
          exact .complaint why
        · simp only [heaviside, hcomplex, Outcome.error_bind]
          exact .complaint why
        · simp at hlength
    · rcases rest with _ | ⟨h, _ | ⟨y, rest⟩⟩
      · simp at hlength
      · simp at hlength
      · exact .complaint _

theorem answers_abs : Callable.Answers "abs" abs :=
  answers_one fun x _ ↦ by cases x <;> exact .value rfl

theorem answers_sign : Callable.Answers "sign" sign := by
  refine answers_one fun x _ ↦ ?_
  cases x with
  | complex z =>
      dsimp only
      split
      · exact .value rfl
      · exact .value rfl
  | _ => exact .value rfl

theorem answers_imagPart : Callable.Answers "imag" imagPart :=
  answers_one fun x _ ↦ by cases x <;> exact .value rfl

theorem answers_realPart : Callable.Answers "real" realPart := by
  refine answers_one fun x hx ↦ ?_
  cases x with
  | complex z => exact .value rfl
  | _ => exact .value hx

theorem answers_conjugate : Callable.Answers "conj" conjugate := by
  refine answers_one fun x hx ↦ ?_
  cases x with
  | complex z => exact .value rfl
  | _ => exact .value hx

/-! ## Zeta -/

/-- The zeta function is left undefined below one. -/
theorem zeta?_eq_none_iff {y : Float} : Elementary.zeta? y = none ↔ y < 1 := by
  unfold Elementary.zeta?
  split
  · rename_i hone
    have hrelate := Numeral.beq_iff_relate.1 hone
    simp [Numeral.lt_iff_relate, hrelate]
  · split
    · simp [*]
    · dsimp only
      split <;> simp [*]

/-- At a real value the zeta function is that of doubles, or a fault. -/
theorem zeta_of_isReal (hx : x.IsReal) :
    zeta [x] = (Elementary.zeta? x.asFloat).elim (.error (.fault .outOfDomain))
      fun y ↦ .ok (.float y) := by
  have hreal := checkReal_of_isReal "zeta" (List.forall_mem_singleton.2 hx)
  rw [zeta, one, hreal, Outcome.ok_bind]
  cases Elementary.zeta? x.asFloat <;> rfl

/-- Left of one zeta faults. -/
theorem zeta_of_lt (hx : x.IsReal) (h : x.asFloat < 1) :
    zeta [x] = .error (.fault .outOfDomain) := by
  rw [zeta_of_isReal hx, zeta?_eq_none_iff.2 h]
  rfl

/-- Everywhere else, and for other arguments, zeta answers. -/
theorem answer_zeta (hargs : ∀ v ∈ args, v.isValid = true)
    (h : ¬∃ x, args = [x] ∧ x.IsReal ∧ x.asFloat < 1) : Answer "zeta" (zeta args) := by
  rcases args with _ | ⟨x, _ | ⟨y, rest⟩⟩
  · exact .complaint _
  · by_cases hx : x.IsReal
    · rw [zeta_of_isReal hx]
      cases hy : Elementary.zeta? x.asFloat with
      | some y => exact .value rfl
      | none => exact absurd ⟨x, rfl, hx, zeta?_eq_none_iff.1 hy⟩ h
    · cases x with
      | complex z => exact .complaint _
      | invalid => exact absurd (hargs .invalid (by simp)) Bool.false_ne_true
      | _ => exact absurd ⟨rfl, by simp [kind]⟩ hx
  · exact .complaint _

end Builtin

/-! ## The registry -/

namespace Registry

open Builtin

/-- Each builtin but zeta answers in the name that it is registered under. -/
theorem answers_of_mem : ∀ e ∈ entries, e.1 ≠ "zeta" → e.2.Answers e.1 := by
  have htotal {name : String} {f : Callable}
      (h : ∀ {args : List Value}, (∀ v ∈ args, v.isValid = true) →
        ∃ v, f args = .ok v ∧ v.isValid = true) : f.Answers name :=
    fun _ hargs ↦ answer_of_exists (h hargs)
  have hvalue {name : String} {g : List Value → Bool} :
      Callable.Answers name fun args ↦ .ok (.bool (g args)) :=
    fun _ _ ↦ .value rfl
  simp only [entries, List.forall_mem_cons]
  refine ⟨fun _ ↦ htotal exists_add, fun _ ↦ answers_sub, fun _ ↦ htotal exists_mul,
    fun _ ↦ answers_two fun _ _ ha hb ↦ answer_of_exists (exists_div ha hb),
    fun _ ↦ answers_two fun _ _ ha hb ↦ answer_of_exists (exists_pow ha hb),
    fun _ ↦ answers_two fun _ _ _ _ ↦ .value rfl, fun _ ↦ answers_two fun _ _ _ _ ↦ .value rfl,
    fun _ ↦ answers_comparison _ _, fun _ ↦ answers_comparison _ _,
    fun _ ↦ answers_comparison _ _, fun _ ↦ answers_comparison _ _,
    fun _ ↦ hvalue, fun _ ↦ hvalue, fun _ ↦ answers_one fun _ _ ↦ .value rfl,
    fun _ ↦ answers_one fun _ hx ↦ .value hx, fun _ ↦ answers_abs, fun _ ↦ answers_sign,
    fun _ ↦ answers_realPart, fun _ ↦ answers_imagPart, fun _ ↦ answers_conjugate,
    fun _ ↦ answers_rounding _ _ _, fun _ ↦ answers_rounding _ _ _,
    fun _ ↦ answers_extremum _ _, fun _ ↦ answers_extremum _ _, fun _ ↦ answers_mod,
    fun _ ↦ answers_factorial, fun _ ↦ answers_realBinary _ _, fun _ ↦ answers_heaviside,
    fun _ ↦ answers_logarithm, ?_⟩
  -- The functions of one number, up to zeta.
  iterate 22 refine ⟨fun _ ↦ answers_analytic _ _ _, ?_⟩
  exact ⟨fun hne ↦ absurd rfl hne, fun _ ↦ answers_realBinary _ _, List.forall_mem_nil _⟩

/-- What the default registry finds is one of its entries. -/
theorem mem_entries_of_find? {name : String} {f : Callable} (h : builtin.find? name = some f) :
    (name, f) ∈ entries := by
  obtain ⟨e', hfind, hvalue⟩ := Option.map_eq_some_iff.1 (Option.join_eq_some_iff.1 h)
  have hname : e'.1 = name := by simpa using List.find?_some hfind
  obtain ⟨e, he, rfl⟩ := List.mem_map.1 (List.mem_of_find?_eq_some hfind)
  obtain rfl := hname
  obtain rfl := Option.some.inj hvalue
  exact he

/-- A builtin that is given valid values gives a valid value or complains in its own name, unless it
is zeta and its only argument is a real number below one. There it faults, and nowhere else. -/
theorem builtin_faults_iff {name : String} {f : Callable} (hf : builtin.find? name = some f)
    {args : List Value} (hargs : ∀ v ∈ args, v.isValid = true) :
    ((∃ v, f args = .ok v ∧ v.isValid = true) ∨ (∃ why, f args = .error (.callable name why)) ∨
      ∃ fault, f args = .error (.fault fault)) ∧
    ∀ fault, f args = .error (.fault fault) ↔
      fault = .outOfDomain ∧ name = "zeta" ∧ ∃ x, args = [x] ∧ x.IsReal ∧ x.asFloat < 1 := by
  by_cases hzeta : name = "zeta" ∧ ∃ x, args = [x] ∧ x.IsReal ∧ x.asFloat < 1
  · have hfault : f args = .error (.fault .outOfDomain) := by
      obtain ⟨rfl, x, rfl, hreal, hlt⟩ := hzeta
      obtain rfl : zeta = f := Option.some.inj hf
      exact zeta_of_lt hreal hlt
    refine ⟨.inr (.inr ⟨_, hfault⟩), fun fault ↦ ?_⟩
    rw [hfault]
    simp [hzeta, eq_comm]
  · have hanswer : Answer name (f args) := by
      by_cases hname : name = "zeta"
      · obtain rfl := hname
        obtain rfl : zeta = f := Option.some.inj hf
        exact answer_zeta hargs fun hx ↦ hzeta ⟨rfl, hx⟩
      · exact answers_of_mem _ (mem_entries_of_find? hf) hname args hargs
    refine ⟨hanswer.value_or_complaint.imp_right .inl, fun fault ↦ ?_⟩
    exact iff_of_false (hanswer.ne_fault fault) fun h ↦ hzeta h.2

/-- Half of one as a double makes zeta fault; as part of a complex number it is refused. -/
theorem builtin_faults_iff_half :
    ∃ f, builtin.find? "zeta" = some f ∧ f [.float 0.5] = .error (.fault .outOfDomain) ∧
      ∀ fault, f [.complex ⟨0.5, 0⟩] ≠ .error (.fault fault) := by
  have hf : builtin.find? "zeta" = some zeta := rfl
  refine ⟨zeta, hf, ?_, fun fault hfault ↦ ?_⟩
  · refine ((builtin_faults_iff hf (by simp [Value.isValid])).2 .outOfDomain).2
      ⟨rfl, rfl, _, rfl, ?_⟩
    decide +kernel
  · obtain ⟨-, -, x, hx, hreal, -⟩ :=
      ((builtin_faults_iff hf (by simp [Value.isValid])).2 fault).1 hfault
    cases hx
    exact hreal.2 rfl

/-- A builtin without an answer for valid values. -/
theorem exists_builtin_fault : ∃ name f args, builtin.find? name = some f ∧
    (∀ v ∈ args, v.isValid = true) ∧ ∃ fault, f args = .error (.fault fault) :=
  ⟨"zeta", zeta, [.int 0], rfl, by simp [Value.int, Value.isValid], .outOfDomain,
    zeta_of_lt ⟨rfl, by decide⟩ (by decide +kernel)⟩

end Registry

end ExprCompiler
