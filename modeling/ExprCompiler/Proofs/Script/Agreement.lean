import ExprCompiler.Proofs.Logic.Builtin
import ExprCompiler.Proofs.Script.Acceptance
import ExprCompiler.Proofs.Script.Names

/-!
# Agreement of scripts and the interpreter

Selections are built from parameters, truth values, doubles, relations, logic and branches. The
interpreter evaluates all arguments of a conjunction and compares values by their ranks; a script
stops at the first argument that decides, and compares doubles. Main statement: both backends
compile every selection, and for the same doubles the two functions give the same double
(`Function.exists_call_eq_script`).
-/

namespace ExprCompiler

namespace Target

/-- Expressions that compare, combine and select parameters, truth values and doubles. -/
inductive IsSelection (params : List String) : Target → Prop where
  | var {name : String} (h : name ∈ params) : IsSelection params (.var name)
  | bool (b : Bool) : IsSelection params (.lit (.bool b))
  | float (x : Float) : IsSelection params (.lit (.float x))
  | relation (op : Relation) {a b : Target} (ha : IsSelection params a)
      (hb : IsSelection params b) : IsSelection params (.call op.symbol [a, b])
  | conjunction {ts : List Target} (h : ∀ t ∈ ts, IsSelection params t) :
      IsSelection params (.call "&" ts)
  | disjunction {ts : List Target} (h : ∀ t ∈ ts, IsSelection params t) :
      IsSelection params (.call "|" ts)
  | negation {t : Target} (h : IsSelection params t) : IsSelection params (.call "!" [t])
  | through {name : String} (hname : name ∈ ["identity", "real", "conj"]) {t : Target}
      (h : IsSelection params t) : IsSelection params (.call name [t])
  | branches {pieces : List (Target × Target)}
      (hvalue : ∀ p ∈ pieces, IsSelection params p.1)
      (hcondition : ∀ p ∈ pieces, IsSelection params p.2) :
      IsSelection params (branches pieces)

end Target

/-! ## Callables -/

namespace Script

/-- A datum as a value shows its number. -/
theorem Datum.shows (d : Datum) : d.toValue.Shows d.toNumber := by
  cases d with
  | number x => exact Value.shows_float x
  | bool b => exact Value.shows_bool b

theorem Datum.truth_toValue (d : Datum) : d.toValue.truth = d.truth := d.shows.truth

/-- A callable that is no special form, and that scripts apply to so many data as the interpreter
applies it to their values. -/
structure Mirrors (name : String) (count : Nat) : Prop where
  plain : name ∉ ["piecewise", "pair", "&", "|"]
  emits (ss : List String) : ss.length = count → ∃ s, emitCall .builtin name ss = .ok s
  agrees : ∃ f, Registry.builtin.find? name = some f ∧
    ∀ (read : String → String) (ds : List Datum), ds.length = count →
      ∃ d, apply read .builtin name ds = .ok d ∧ f (ds.map Datum.toValue) = .ok d.toValue

theorem mirrors_relation (op : Relation) : Mirrors op.symbol 2 where
  plain := by cases op <;> decide
  emits ss h := by
    obtain ⟨a, b, rfl⟩ := List.length_eq_two.1 h
    cases op <;> exact ⟨_, rfl⟩
  agrees := by
    have hresolve : Operators.builtin.resolve op.tag = op.symbol := by cases op <;> rfl
    obtain ⟨f, hf, -⟩ := Builtin.relation_of_shows op (Value.shows_float 0) (Value.shows_float 0)
    refine ⟨f, hresolve ▸ hf, fun read ds h ↦ ?_⟩
    obtain ⟨a, b, rfl⟩ := List.length_eq_two.1 h
    refine ⟨.bool (op.holds a.toNumber b.toNumber), by cases op <;> rfl, ?_⟩
    obtain ⟨g, hg, hvalue⟩ := Builtin.relation_of_shows op a.shows b.shows
    obtain rfl : f = g := Option.some.inj (hf.symm.trans hg)
    exact hvalue

theorem mirrors_negation : Mirrors "!" 1 where
  plain := by decide
  emits ss h := by
    obtain ⟨s, rfl⟩ := List.length_eq_one_iff.1 h
    exact ⟨_, rfl⟩
  agrees := by
    refine ⟨Builtin.negation, rfl, fun read ds h ↦ ?_⟩
    obtain ⟨d, rfl⟩ := List.length_eq_one_iff.1 h
    refine ⟨.bool !d.truth, rfl, ?_⟩
    rw [← d.truth_toValue]
    rfl

/-- On data, which are never complex, these give back what they get. -/
theorem mirrors_through {name : String} (h : name ∈ ["identity", "real", "conj"]) :
    Mirrors name 1 := by
  have hthrough {f : Callable} (hplain : name ∉ ["piecewise", "pair", "&", "|"])
      (hf : Registry.builtin.find? name = some f)
      (hvalue : ∀ d : Datum, f [d.toValue] = .ok d.toValue)
      (hemit : ∀ s, emitCall .builtin name [s] = .ok (grouped s))
      (happly : ∀ read d, apply read .builtin name [d] = .ok d) : Mirrors name 1 := by
    refine ⟨hplain, fun ss h ↦ ?_, f, hf, fun read ds h ↦ ?_⟩
    · obtain ⟨s, rfl⟩ := List.length_eq_one_iff.1 h
      exact ⟨_, hemit s⟩
    · obtain ⟨d, rfl⟩ := List.length_eq_one_iff.1 h
      exact ⟨d, happly read d, hvalue d⟩
  simp only [List.mem_cons, List.not_mem_nil, or_false] at h
  rcases h with rfl | rfl | rfl
  all_goals
    refine hthrough (by decide) rfl (fun d ↦ ?_) (fun _ ↦ rfl) (fun _ _ ↦ rfl)
    cases d <;> rfl

end Script

/-! ## Compilation -/

/-- Both backends build an expression over the default registry. -/
def Target.Compiles (params : List String) (t : Target) : Prop :=
  (∃ c, Interpreter.build params .builtin t = .ok c) ∧ ∃ c, Script.emit params .builtin t = .ok c

section Compiles

variable {params : List String}

/-- An application compiles if its callable is there and scripts have it for as many arguments. -/
theorem compiles_call {name : String} {ts : List Target} {f : Callable}
    (hname : name ≠ "piecewise" ∧ name ≠ "pair") (hf : Registry.builtin.find? name = some f)
    (hemit : ∀ ss, ss.length = ts.length → ∃ s, Script.emitCall .builtin name ss = .ok s)
    (h : ∀ t ∈ ts, t.Compiles params) : Target.Compiles params (.call name ts) := by
  constructor
  · refine (Interpreter.exists_build_call hname.1 ts).2 ⟨hname.2, ?_, fun t ht ↦ (h t ht).1⟩
    rw [hf]
    rfl
  · obtain ⟨ss, hss⟩ := Outcome.exists_mapM_iff.2 fun t ht ↦ (h t ht).2
    obtain ⟨s, hs⟩ := hemit ss (Outcome.forall₂_of_mapM hss).length_eq.symm
    refine ⟨s, ?_⟩
    rw [Script.emit, if_neg (mt beq_iff_eq.1 hname.1), Script.emitAll_eq_mapM, hss]
    exact hs

theorem compiles_mirrored {name : String} {ts : List Target} (hname : Script.Mirrors name ts.length)
    (h : ∀ t ∈ ts, t.Compiles params) : Target.Compiles params (.call name ts) := by
  obtain ⟨f, hf, -⟩ := hname.agrees
  have hplain := hname.plain
  simp only [List.mem_cons, not_or] at hplain
  exact compiles_call ⟨hplain.1, hplain.2.1⟩ hf hname.emits h

theorem compiles_branches {pieces : List (Target × Target)}
    (hvalue : ∀ p ∈ pieces, p.1.Compiles params)
    (hcondition : ∀ p ∈ pieces, p.2.Compiles params) :
    (Target.branches pieces).Compiles params := by
  have hbuild := Interpreter.judges_build params .builtin
  have hemit := Script.judges_emit params Registry.extends_builtin
  constructor
  · exact (hbuild.branches _).2 ⟨pieces, rfl, fun p hp ↦ ⟨(hvalue p hp).1, (hcondition p hp).1⟩⟩
  · exact (hemit.branches _).2 ⟨pieces, rfl, fun p hp ↦ ⟨(hvalue p hp).2, (hcondition p hp).2⟩⟩

/-- Both backends compile every selection. -/
theorem Target.IsSelection.compiles {t : Target} (h : t.IsSelection params) :
    t.Compiles params := by
  induction h with
  | @var name hname =>
      obtain ⟨i, hi⟩ := Option.isSome_iff_exists.1 (List.isSome_idxOf?.2 hname)
      constructor
      · exact ⟨.slot i, by rw [Interpreter.build, hi]⟩
      · exact ⟨Script.parameterName i, by rw [Script.emit, hi]⟩
  | bool b => exact ⟨⟨_, rfl⟩, _, rfl⟩
  | float x => exact ⟨⟨_, rfl⟩, _, rfl⟩
  | relation op _ _ iha ihb =>
      exact compiles_mirrored (Script.mirrors_relation op) (by simp [iha, ihb])
  | conjunction _ ih =>
      exact compiles_call (by decide) rfl (fun ss _ ↦ by cases ss <;> exact ⟨_, rfl⟩) ih
  | disjunction _ ih =>
      exact compiles_call (by decide) rfl (fun ss _ ↦ by cases ss <;> exact ⟨_, rfl⟩) ih
  | negation _ ih => exact compiles_mirrored Script.mirrors_negation (by simp [ih])
  | through hname _ ih => exact compiles_mirrored (Script.mirrors_through hname) (by simp [ih])
  | branches _ _ ihvalue ihcondition => exact compiles_branches ihvalue ihcondition

end Compiles

/-! ## Values -/

namespace Script

variable {read : String → String} {ρ : Table Float} {σ : Table Value}

/-- A script and the interpreter give an expression the same value. -/
def Agrees (read : String → String) (ρ : Table Float) (σ : Table Value) (t : Target) : Prop :=
  ∃ d, value read .builtin ρ t = .ok d ∧ t.value .builtin σ = .ok d.toValue

/-- Arguments that agree have the same values in both backends. -/
theorem exists_values_of_agrees {ts : List Target} (h : ∀ t ∈ ts, Agrees read ρ σ t) :
    ∃ ds, values read .builtin ρ ts = .ok ds ∧
      Target.values .builtin σ ts = .ok (ds.map Datum.toValue) ∧ ds.length = ts.length := by
  induction ts with
  | nil => exact ⟨[], rfl, rfl, rfl⟩
  | cons t ts ih =>
      obtain ⟨⟨d, hd, hv⟩, hts⟩ := List.forall_mem_cons.1 h
      obtain ⟨ds, hds, hvs, hlen⟩ := ih hts
      refine ⟨d :: ds, ?_, ?_, by rw [List.length_cons, List.length_cons, hlen]⟩
      · rw [values, hd, hds]
        rfl
      · rw [Target.values, hv, hvs]
        rfl

/-- Stopping at the first argument that decides does not change the result. -/
theorem firstTruth_of_values {ts : List Target} {ds : List Datum} (stop : Bool)
    (h : values read .builtin ρ ts = .ok ds) :
    firstTruth read .builtin ρ stop ts =
      .ok (.bool (if ds.any (·.truth == stop) then stop else !stop)) := by
  induction ts generalizing ds with
  | nil =>
      cases h
      rfl
  | cons t ts ih =>
      obtain ⟨d, hd, h⟩ := Outcome.bind_eq_ok.1 h
      obtain ⟨ds', hds, h⟩ := Outcome.bind_eq_ok.1 h
      cases h
      rw [firstTruth, hd, Outcome.ok_bind, List.any_cons]
      by_cases hstop : d.truth = stop
      · simp [hstop]
      · rw [if_neg hstop, ih hds, beq_eq_false_iff_ne.2 hstop, Bool.false_or]

theorem agrees_mirrored {name : String} {ts : List Target} (hname : Mirrors name ts.length)
    (h : ∀ t ∈ ts, Agrees read ρ σ t) : Agrees read ρ σ (.call name ts) := by
  obtain ⟨ds, hds, hvs, hlen⟩ := exists_values_of_agrees h
  obtain ⟨f, hf, happly⟩ := hname.agrees
  obtain ⟨d, hd, hv⟩ := happly read ds hlen
  have hplain := hname.plain
  simp only [List.mem_cons, not_or] at hplain
  refine ⟨d, ?_, Target.value_call hplain.1 hf hvs hv d.shows.isValid⟩
  rw [value, if_neg hplain.1, if_neg hplain.2.2.1, if_neg hplain.2.2.2.1, hds]
  exact hd

/-- Logic agrees if the callable looks for a truth value that decides. -/
theorem agrees_logic {name : String} {ts : List Target} {f : Callable} (stop : Bool)
    (hname : name ≠ "piecewise") (hf : Registry.builtin.find? name = some f)
    (hfold : ∀ vs, f vs = .ok (.bool (if vs.any (·.truth == stop) then stop else !stop)))
    (hvalue : value read .builtin ρ (.call name ts) = firstTruth read .builtin ρ stop ts)
    (h : ∀ t ∈ ts, Agrees read ρ σ t) : Agrees read ρ σ (.call name ts) := by
  obtain ⟨ds, hds, hvs, -⟩ := exists_values_of_agrees h
  refine ⟨_, hvalue.trans (firstTruth_of_values stop hds), ?_⟩
  refine Target.value_call hname hf hvs ?_ rfl
  have htruth : (fun d : Datum ↦ d.toValue.truth == stop) = fun d ↦ d.truth == stop := by
    funext d
    rw [d.truth_toValue]
  rw [hfold, List.any_map]
  simp only [Function.comp_def, htruth]
  rfl

theorem agrees_conjunction {ts : List Target} (h : ∀ t ∈ ts, Agrees read ρ σ t) :
    Agrees read ρ σ (.call "&" ts) := by
  refine agrees_logic (f := Builtin.conjunction) false (by decide) rfl (fun vs ↦ ?_) ?_ h
  · simp only [Builtin.conjunction, List.all_eq_not_any_not, beq_false]
    cases vs.any (!·.truth) <;> rfl
  · rw [value, if_neg (by decide), if_pos rfl]

theorem agrees_disjunction {ts : List Target} (h : ∀ t ∈ ts, Agrees read ρ σ t) :
    Agrees read ρ σ (.call "|" ts) := by
  refine agrees_logic (f := Builtin.disjunction) true (by decide) rfl (fun vs ↦ ?_) ?_ h
  · simp only [Builtin.disjunction, beq_true]
    cases vs.any Value.truth <;> rfl
  · rw [value, if_neg (by decide), if_neg (by decide), if_pos rfl]

theorem agrees_branches {pieces : List (Target × Target)}
    (hvalue : ∀ p ∈ pieces, Agrees read ρ σ p.1)
    (hcondition : ∀ p ∈ pieces, Agrees read ρ σ p.2) :
    Agrees read ρ σ (.branches pieces) := by
  have hfirst : ∃ d, firstBranch read .builtin ρ (pieces.map .ofPiece) = .ok d ∧
      Target.firstBranch .builtin σ (pieces.map .ofPiece) = .ok d.toValue := by
    induction pieces with
    | nil => exact ⟨_, rfl, rfl⟩
    | cons p pieces ih =>
        obtain ⟨⟨v, hv, hv'⟩, hvalue⟩ := List.forall_mem_cons.1 hvalue
        obtain ⟨⟨c, hc, hc'⟩, hcondition⟩ := List.forall_mem_cons.1 hcondition
        rw [List.map_cons, Target.ofPiece, firstBranch, Target.firstBranch, if_pos rfl, if_pos rfl,
          hc, hc', Outcome.ok_bind, Outcome.ok_bind, c.truth_toValue]
        split
        · exact ⟨v, hv, hv'⟩
        · exact ih hvalue hcondition
  obtain ⟨d, hd, hv⟩ := hfirst
  refine ⟨d, ?_, ?_⟩
  · rw [Target.branches, value, if_pos rfl, hd]
  · rw [Target.branches, Target.value, if_pos rfl, hv]

/-- A script and the interpreter agree about every selection. -/
theorem agrees_of_isSelection (read : String → String) {params : List String} {xs : List Float}
    {t : Target} (hlen : xs.length = params.length) (h : t.IsSelection params) :
    Agrees read (params.zip xs) (params.zip (xs.map .float)) t := by
  induction h with
  | var hname =>
      obtain ⟨x, hx⟩ := Table.exists_get?_zip hlen hname
      refine ⟨.number x, ?_, ?_⟩
      · rw [value, hx]
      · rw [Target.value, Value.lookup, Table.get?_zip_map, hx]
        rfl
  | bool b => exact ⟨.bool b, rfl, rfl⟩
  | float x => exact ⟨.number x, rfl, rfl⟩
  | relation op _ _ iha ihb => exact agrees_mirrored (mirrors_relation op) (by simp [iha, ihb])
  | conjunction _ ih => exact agrees_conjunction ih
  | disjunction _ ih => exact agrees_disjunction ih
  | negation _ ih => exact agrees_mirrored mirrors_negation (by simp [ih])
  | through hname _ ih => exact agrees_mirrored (mirrors_through hname) (by simp [ih])
  | branches _ _ ihvalue ihcondition => exact agrees_branches ihvalue ihcondition

theorem Datum.real_toValue (d : Datum) : d.toValue.real = .ok d.toNumber := by
  cases d <;> rfl

theorem realArguments_float (xs : List Float) : realArguments (xs.map .float) = .ok xs := by
  induction xs with
  | nil => rfl
  | cons x xs ih =>
      rw [realArguments] at ih ⊢
      rw [List.map_cons, List.mapM_cons, ih]
      rfl

end Script

namespace Function

/-- Over parameters without repetition a selection becomes a function of either backend. -/
theorem exists_compile {params : List String} {t : Target} (hparams : params.Nodup)
    (ht : t.IsSelection params) :
    (∃ f, compile Interpreter.backend .builtin t params = .ok f) ∧
      ∃ f, compile Script.backend .builtin t params = .ok f := by
  obtain ⟨hbuild, hemit⟩ := ht.compiles
  constructor
  · exact (exists_compile_iff hparams t).2 (Interpreter.exists_build_iff.1 hbuild)
  · exact (exists_compile_script_iff hparams).2 hemit

/-- Both backends compile every selection over parameters without repetition, and for as many
doubles as there are parameters both functions give one and the same double. -/
theorem exists_call_eq_script {params : List String} {t : Target} (hparams : params.Nodup)
    (ht : t.IsSelection params) :
    ∃ f g, compile Interpreter.backend .builtin t params = .ok f ∧
      compile Script.backend .builtin t params = .ok g ∧
      ∀ xs : List Float, xs.length = params.length →
        ∃ y, f.call xs = .ok y ∧ g.call xs = .ok y := by
  obtain ⟨⟨f, hf⟩, g, hg⟩ := exists_compile hparams ht
  refine ⟨f, g, hf, hg, fun xs hlen ↦ ?_⟩
  obtain ⟨d, hd, hvalue⟩ := Script.agrees_of_isSelection Text.reread hlen ht
  have hargs : (xs.map Value.float).length = params.length := by rw [List.length_map, hlen]
  have hvalid : ∀ v ∈ xs.map Value.float, v.isValid = true := by simp [Value.isValid]
  refine ⟨d.toNumber, ?_, ?_⟩
  · rw [call, (eval_of_compile hf).2 _ hargs hvalid, hvalue]
    exact d.real_toValue
  · rw [call, eval_of_compile_script hg hargs hvalid, Script.valueAt, Script.realArguments_float,
      Outcome.ok_bind, hd]
    exact d.real_toValue

/-- A NaN holds as a condition, and a negative zero passes through, on both sides. -/
theorem exists_call_eq_script_at_nan :
    let t : Target := .branches [(.call "real" [.var "y"], .call "&" [.var "x", .lit (.bool true)]),
      (.lit (.float 1), .call "<=" [.call "!" [.var "x"], .var "y"])]
    t.IsSelection ["x", "y"] ∧ ∃ f g, compile Interpreter.backend .builtin t ["x", "y"] = .ok f ∧
      compile Script.backend .builtin t ["x", "y"] = .ok g ∧
      ∃ y, f.call [Elementary.nan, -0.0] = .ok y ∧ g.call [Elementary.nan, -0.0] = .ok y := by
  intro t
  have hx : Target.IsSelection ["x", "y"] (.var "x") := .var (by decide)
  have hy : Target.IsSelection ["x", "y"] (.var "y") := .var (by decide)
  have ht : t.IsSelection ["x", "y"] := by
    apply Target.IsSelection.branches
    · simp only [List.forall_mem_cons, List.not_mem_nil]
      exact ⟨.through (by decide) hy, .float 1, by simp⟩
    · simp only [List.forall_mem_cons, List.not_mem_nil]
      exact ⟨.conjunction (by simp [hx, Target.IsSelection.bool]), .relation .le (.negation hx) hy,
        by simp⟩
  obtain ⟨f, g, hf, hg, hcall⟩ := exists_call_eq_script (by decide) ht
  exact ⟨ht, f, g, hf, hg, hcall _ rfl⟩

end Function

end ExprCompiler
