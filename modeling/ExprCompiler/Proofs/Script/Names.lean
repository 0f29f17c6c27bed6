import ExprCompiler.Proofs.Semantics.Script

/-!
# Names in scripts

A script quotes the variables that are no parameters and the callables that it has to call back,
and means by them what its engine reads in the literals. Main statement: functions that are
compiled to scripts evaluate with the names that are read, and these are the names themselves if
and only if no character is a bell or lies beyond the basic plane
(`Function.eval_script_reread`).
-/

namespace ExprCompiler

namespace Target

mutual

/-- The names that a script may have to quote: the variables that are no parameters, and the
callables. -/
def quoted (params : List String) : Target → List String
  | .var name => if name ∈ params then [] else [name]
  | .call name args => name :: quotedAll params args
  | _ => []

def quotedAll (params : List String) : List Target → List String
  | [] => []
  | t :: ts => quoted params t ++ quotedAll params ts

end

end Target

namespace Script

variable {params : List String} {env : List Float} {read read' : String → String}

/-- A call depends on the reading of its own name only. -/
theorem apply_congr {name : String} (hname : read name = read' name) (r : Registry)
    (ds : List Datum) : apply read r name ds = apply read' r name ds := by
  rw [apply, apply, hname]

mutual

/-- How names are read matters only for those that a script may have to quote. -/
theorem value_congr (r : Registry) (hlen : env.length = params.length) :
    (t : Target) → (∀ name ∈ t.quoted params, read name = read' name) →
      value read r (params.zip env) t = value read' r (params.zip env) t
  | .var name, h => by
      rw [value, value]
      by_cases hname : name ∈ params
      · obtain ⟨x, hx⟩ := Table.exists_get?_zip hlen hname
        rw [hx]
      · rw [Target.quoted, if_neg hname] at h
        rw [h name (List.mem_singleton.2 rfl)]
  | .call name ts, h => by
      rw [Target.quoted, List.forall_mem_cons] at h
      obtain ⟨hname, hts⟩ := h
      have happly : apply read r name = apply read' r name := by
        funext ds
        exact apply_congr hname r ds
      rw [value, value, firstBranch_congr r hlen ts hts, firstTruth_congr r hlen false ts hts,
        firstTruth_congr r hlen true ts hts, values_congr r hlen ts hts, happly]
  | .lit _, _ | .foreign _ _, _ | .absent, _ => rfl

/-- Values depend on the reading of the quoted names only. -/
theorem values_congr (r : Registry) (hlen : env.length = params.length) :
    (ts : List Target) → (∀ name ∈ Target.quotedAll params ts, read name = read' name) →
      values read r (params.zip env) ts = values read' r (params.zip env) ts
  | [], _ => rfl
  | t :: ts, h => by
      obtain ⟨ht, hts⟩ := List.forall_mem_append.1 h
      rw [values, values, value_congr r hlen t ht, values_congr r hlen ts hts]

theorem firstTruth_congr (r : Registry) (hlen : env.length = params.length) (stop : Bool) :
    (ts : List Target) → (∀ name ∈ Target.quotedAll params ts, read name = read' name) →
      firstTruth read r (params.zip env) stop ts = firstTruth read' r (params.zip env) stop ts
  | [], _ => rfl
  | t :: ts, h => by
      obtain ⟨ht, hts⟩ := List.forall_mem_append.1 h
      rw [firstTruth, firstTruth, value_congr r hlen t ht, firstTruth_congr r hlen stop ts hts]

theorem firstBranch_congr (r : Registry) (hlen : env.length = params.length) :
    (ts : List Target) → (∀ name ∈ Target.quotedAll params ts, read name = read' name) →
      firstBranch read r (params.zip env) ts = firstBranch read' r (params.zip env) ts
  | [], _ => rfl
  | .call name [v, c] :: ts, h => by
      obtain ⟨hpair, hts⟩ := List.forall_mem_append.1 h
      obtain ⟨hv, hc⟩ := List.forall_mem_append.1 (List.forall_mem_cons.1 hpair).2
      obtain ⟨hc, -⟩ := List.forall_mem_append.1 hc
      rw [firstBranch, firstBranch, value_congr r hlen v hv, value_congr r hlen c hc,
        firstBranch_congr r hlen ts hts]
  | .var _ :: _, _ | .lit _ :: _, _ | .foreign _ _ :: _, _ | .absent :: _, _
  | .call _ [] :: _, _ | .call _ [_] :: _, _ | .call _ (_ :: _ :: _ :: _) :: _, _ => rfl

end

/-- What an expression comes to for arguments in the order of the parameters. -/
def valueAt (read : String → String) (r : Registry) (params : List String) (args : List Value)
    (t : Target) : Except Failure Value := do
  let xs ← realArguments args
  return (← value read r (params.zip xs) t).toValue

theorem length_of_realArguments {args : List Value} {xs : List Float}
    (h : realArguments args = .ok xs) : xs.length = args.length :=
  (Outcome.forall₂_of_mapM h).length_eq.symm

/-- So does the value of a target at its arguments. -/
theorem valueAt_congr {args : List Value} {t : Target} (r : Registry)
    (hlen : args.length = params.length)
    (h : ∀ name ∈ t.quoted params, read name = read' name) :
    valueAt read r params args t = valueAt read' r params args t := by
  unfold valueAt
  cases hxs : realArguments args with
  | error e => rfl
  | ok xs =>
      have hlen : xs.length = params.length := (length_of_realArguments hxs).trans hlen
      rw [Outcome.ok_bind, Outcome.ok_bind, value_congr r hlen t h]

end Script

namespace Function

/-- The backend builds what it emits a script for, since every script of its own can be read. -/
theorem build_script_eq_ok {r : Registry} {t : Target} {params : List String} {s : String}
    (h : Script.emit params r t = .ok s) : ∃ evaluator,
      Script.backend.build t params r = .ok evaluator ∧
      ∀ args : List Value, args.length = params.length →
        evaluator args = Script.valueAt Text.reread r params args t := by
  obtain ⟨c, hread, hrun⟩ := Script.exists_read?_source h
  refine ⟨fun args ↦ do return (← Script.run r (← Script.realArguments args) c).toValue, ?_, ?_⟩
  · simp only [Script.backend, h, Outcome.ok_bind, hread]
    rfl
  · intro args hlen
    dsimp only [Script.valueAt]
    cases hxs : Script.realArguments args with
    | error e => rfl
    | ok xs =>
        have hlen : xs.length = params.length := (Script.length_of_realArguments hxs).trans hlen
        rw [Outcome.ok_bind, Outcome.ok_bind, hrun xs hlen]

/-- A script is compiled for exactly the expressions that it can be emitted for. -/
theorem exists_compile_script_iff {r : Registry} {t : Target} {params : List String}
    (hparams : params.Nodup) :
    (∃ f, compile Script.backend r t params = .ok f) ↔ ∃ s, Script.emit params r t = .ok s := by
  constructor
  · rintro ⟨f, hf⟩
    obtain ⟨-, -, evaluator, he, -⟩ := compile_eq_ok_iff.1 hf
    obtain ⟨s, hs, -⟩ := Outcome.bind_eq_ok.1 he
    exact ⟨s, hs⟩
  · rintro ⟨s, hs⟩
    obtain ⟨evaluator, hbuild, -⟩ := build_script_eq_ok hs
    refine exists_compile_of_build ?_ hparams hbuild
    rintro rfl
    cases hs

/-- A function that was compiled to a script evaluates to the value of its expression. -/
theorem eval_of_compile_script {r : Registry} {t : Target} {params : List String} {f : Function}
    (h : compile Script.backend r t params = .ok f) {args : List Value}
    (hlen : args.length = params.length) (hv : ∀ v ∈ args, v.isValid = true) :
    f.eval args = Script.valueAt Text.reread r params args t := by
  obtain ⟨-, -, evaluator, he, rfl⟩ := compile_eq_ok_iff.1 h
  obtain ⟨s, hs, -⟩ := Outcome.bind_eq_ok.1 he
  obtain ⟨evaluator', hbuild, hvalue⟩ := build_script_eq_ok hs
  cases he.symm.trans hbuild
  rw [eval_eq_evaluator hlen hv]
  exact hvalue args hlen

/-- A script evaluates with the names that its engine reads in their literals. These are the names
themselves if no character is a bell or lies beyond the basic plane, and not otherwise. -/
theorem eval_script_reread {r : Registry} {t : Target} {params : List String} {f : Function}
    (h : compile Script.backend r t params = .ok f) {args : List Value}
    (hlen : args.length = params.length) (hv : ∀ v ∈ args, v.isValid = true) :
    (∀ name, Text.readScript? (Text.quoteAscii name) = some name ↔ Text.IsRereadable name) ∧
      f.eval args = Script.valueAt Text.reread r params args t ∧
      ((∀ name ∈ t.quoted params, Text.IsRereadable name) →
        f.eval args = Script.valueAt id r params args t) := by
  have heval := eval_of_compile_script h hlen hv
  refine ⟨fun name ↦ ?_, heval, fun hnames ↦ ?_⟩
  · rw [Text.readScript?_quoteAscii, Option.some.injEq, Text.reread_eq_self]
  · rw [heval]
    exact Script.valueAt_congr r hlen fun name hname ↦ Text.reread_eq_self.2 (hnames name hname)

/-- Accents and line breaks survive. -/
theorem eval_script_reread_accent :
    ∃ f, compile Script.backend [("é\n", some fun vs ↦ .ok (vs.headD .invalid))]
        (.call "é\n" [.var "x"]) ["x"] = .ok f ∧
      f.eval [.bool true] = .ok (.float 1) := by
  obtain ⟨f, hf⟩ : ∃ f, compile Script.backend [("é\n", some fun vs ↦ .ok (vs.headD .invalid))]
      (.call "é\n" [.var "x"]) ["x"] = .ok f :=
    (exists_compile_script_iff (by decide)).2 ⟨_, rfl⟩
  have hvalid : ∀ v ∈ [Value.bool true], v.isValid = true := by simp [Value.isValid]
  refine ⟨f, hf, ?_⟩
  rw [(eval_script_reread hf rfl hvalid).2.2 (by decide)]
  rfl

/-- A variable beyond the basic plane is reported under another name, and a callable that is named
by a bell is not found, though the interpreter has both. -/
theorem exists_name_changed :
    (∃ f g, compile Script.backend .builtin (.var "😀") [] = .ok f ∧
      compile Interpreter.backend .builtin (.var "😀") [] = .ok g ∧
      f.eval [] = .error (.unbound "U0001f600") ∧ g.eval [] = .error (.unbound "😀")) ∧
    ∃ (r : Registry) (f g : Function), compile Script.backend r (.call "\x07" []) [] = .ok f ∧
      compile Interpreter.backend r (.call "\x07" []) [] = .ok g ∧
      f.eval [] = .error (.fault .absent) ∧ g.eval [] = .ok (.bool true) := by
  have hvalid : ∀ v ∈ ([] : List Value), v.isValid = true := by simp
  constructor
  · obtain ⟨f, hf⟩ : ∃ f, compile Script.backend .builtin (.var "😀") [] = .ok f :=
      (exists_compile_script_iff .nil).2 ⟨_, rfl⟩
    have hread : Text.reread "😀" = "U0001f600" := by decide
    refine ⟨f, _, hf, rfl, ?_, rfl⟩
    rw [eval_of_compile_script hf rfl hvalid, ← hread]
    rfl
  · let r : Registry := [("\x07", some fun _ ↦ .ok (.bool true))]
    obtain ⟨f, hf⟩ : ∃ f, compile Script.backend r (.call "\x07" []) [] = .ok f :=
      (exists_compile_script_iff .nil).2 ⟨_, rfl⟩
    refine ⟨r, f, _, hf, rfl, ?_, rfl⟩
    rw [eval_of_compile_script hf rfl hvalid]
    rfl

end Function

end ExprCompiler
