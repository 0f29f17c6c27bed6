import ExprCompiler.Proofs.Semantics.Target

/-!
# Values that circulate

Running code gets values from its arguments, from constants and from callables, which may give
anything. `Interpreter.runWith` is the interpreter with the ways to arguments and callables left
open: taken directly they make it `run`, and observed they also leave behind which positions were
read and what was invoked on which values. Main statement: no function that the interpreter
compiled reads beyond its arguments, invokes a callable on an invalid value, or evaluates to one
(`Function.eval_circulates_valid`).
-/

namespace ExprCompiler

namespace Traced

variable {ω ε α β : Type}

/-- The outcome of a sequence is the sequence of the outcomes. -/
theorem outcome_bind (x : Traced ω ε α) (f : α → Traced ω ε β) :
    (x >>= f).outcome = x.outcome >>= fun a ↦ (f a).outcome := by
  cases h : x.outcome with
  | error e => rw [bind_of_error h]; rfl
  | ok a => rw [bind_of_ok h]; rfl

/-- All events of a computation are proper, and so is its result if it comes to one. -/
structure Safe (Q : ω → Prop) (P : α → Prop) (x : Traced ω ε α) : Prop where
  events : ∀ e ∈ x.trace, Q e
  result : ∀ a, x.outcome = .ok a → P a

variable {Q : ω → Prop} {P : α → Prop} {R : β → Prop}

theorem safe_pure {a : α} (h : P a) : Safe Q P (pure a : Traced ω ε α) := by
  constructor
  · intro e he
    cases he
  · rintro b ⟨⟩
    exact h

theorem safe_fail (e : ε) : Safe Q P (fail e : Traced ω ε α) := by
  constructor
  · intro e he
    cases he
  · rintro b ⟨⟩

/-- What a proper result leads to is proper. -/
theorem Safe.bind {x : Traced ω ε α} {f : α → Traced ω ε β} (hx : Safe Q P x)
    (hf : ∀ a, P a → Safe Q R (f a)) : Safe Q R (x >>= f) := by
  cases h : x.outcome with
  | error e =>
      rw [bind_of_error h]
      exact ⟨hx.events, by rintro b ⟨⟩⟩
  | ok a =>
      obtain ⟨hevents, hresult⟩ := hf a (hx.result a h)
      rw [bind_of_ok h]
      refine ⟨?_, hresult⟩
      intro e he
      rcases List.mem_append.1 he with he | he
      · exact hx.events e he
      · exact hevents e he

end Traced

namespace Interpreter

/-! ## Access -/

/-- The ways from running code to its arguments and to callables, and the way to give up. -/
structure Access (m : Type → Type) where
  read : Nat → m Value
  invoke : String → Callable → List Value → m Value
  fail : Failure → m Value

section

variable {m : Type → Type} [Monad m]

mutual

/-- Runs code that has no way to arguments and callables but the given ones. -/
def runWith (a : Access m) : Code → m Value
  | .slot i => a.read i
  | .unbound name => a.fail (.unbound name)
  | .const v => pure v
  | .apply name f args => do
    let v ← a.invoke name f (← runAllWith a args)
    if v.isValid then return v else a.fail (.callable name .invalidResult)
  | .branches pieces => runPiecesWith a pieces

def runAllWith (a : Access m) : List Code → m (List Value)
  | [] => pure []
  | c :: cs => do
    let v ← runWith a c
    let vs ← runAllWith a cs
    return v :: vs

def runPiecesWith (a : Access m) : List (Code × Code) → m Value
  | [] => pure (.float Elementary.nan)
  | (value, condition) :: rest => do
    if (← runWith a condition).truth then runWith a value else runPiecesWith a rest

end

/-- Evaluates with as many valid arguments as there are parameters, and gives up on others. -/
def evalWith (access : List Value → Access m) (params : List String) (c : Code)
    (args : List Value) : m Value :=
  if args.length != params.length then (access args).fail (.arity params.length args.length)
  else
    match Function.firstInvalid? 0 params args with
    | some (i, p) => (access args).fail (.invalidArgument i p)
    | none => runWith (access args) c

end

/-- Arguments by position, and callables as they are. -/
def Access.direct (env : List Value) : Access (Except Failure) where
  read i := .ok ((env[i]?).getD .invalid)
  invoke _ f vs := f vs
  fail := .error

/-- What running code does to its surroundings. -/
inductive Event where
  | read (i : Nat)
  | invoke (name : String) (args : List Value)

/-- Direct access that leaves behind what it was used for. -/
def Access.observed (env : List Value) : Access (Traced Event Failure) where
  read i := ⟨(direct env).read i, [.read i]⟩
  invoke name f vs := ⟨(direct env).invoke name f vs, [.invoke name vs]⟩
  fail e := .fail e

mutual

/-- Running without observation is running. -/
theorem runWith_direct (env : List Value) : (c : Code) → runWith (.direct env) c = run env c
  | .slot _ | .unbound _ | .const _ => rfl
  | .apply name f args => by
      rw [runWith, run, runAllWith_direct env args]
      rfl
  | .branches pieces => by
      rw [runWith, run, runPiecesWith_direct env pieces]

theorem runAllWith_direct (env : List Value) :
    (cs : List Code) → runAllWith (.direct env) cs = runAll env cs
  | [] => rfl
  | c :: cs => by
      rw [runAllWith, runAll, runWith_direct env c, runAllWith_direct env cs]

theorem runPiecesWith_direct (env : List Value) :
    (ps : List (Code × Code)) → runPiecesWith (.direct env) ps = runPieces env ps
  | [] => rfl
  | (v, c) :: ps => by
      rw [runPiecesWith, runPieces, runWith_direct env v, runWith_direct env c,
        runPiecesWith_direct env ps]

end

mutual

/-- Observing leaves the outcome as it is. -/
theorem outcome_runWith (env : List Value) :
    (c : Code) → (runWith (.observed env) c).outcome = run env c
  | .slot _ | .unbound _ | .const _ => rfl
  | .apply name f args => by
      rw [runWith, run, Traced.outcome_bind, outcome_runAllWith env args]
      congr 1
      funext vs
      rw [Traced.outcome_bind]
      congr 1
      funext v
      split <;> rfl
  | .branches pieces => by
      rw [runWith, run, outcome_runPiecesWith env pieces]

/-- Observation does not change what a list evaluates to. -/
theorem outcome_runAllWith (env : List Value) :
    (cs : List Code) → (runAllWith (.observed env) cs).outcome = runAll env cs
  | [] => rfl
  | c :: cs => by
      simp only [runAllWith, runAll, Traced.outcome_bind, outcome_runWith env c,
        outcome_runAllWith env cs]
      rfl

theorem outcome_runPiecesWith (env : List Value) :
    (ps : List (Code × Code)) → (runPiecesWith (.observed env) ps).outcome = runPieces env ps
  | [] => rfl
  | (v, c) :: ps => by
      rw [runPiecesWith, runPieces, Traced.outcome_bind, outcome_runWith env c]
      congr 1
      funext w
      split
      · exact outcome_runWith env v
      · exact outcome_runPiecesWith env ps

end

/-! ## Resolved code -/

/-- Code whose positions lie below a bound and whose constants are valid. -/
inductive Code.Resolved (n : Nat) : Code → Prop where
  | slot {i : Nat} (h : i < n) : Resolved n (.slot i)
  | unbound (name : String) : Resolved n (.unbound name)
  | const {v : Value} (h : v.isValid = true) : Resolved n (.const v)
  | apply {name : String} {f : Callable} {args : List Code} (h : ∀ c ∈ args, Resolved n c) :
      Resolved n (.apply name f args)
  | branches {pieces : List (Code × Code)} (hvalue : ∀ p ∈ pieces, Resolved n p.1)
      (hcondition : ∀ p ∈ pieces, Resolved n p.2) : Resolved n (.branches pieces)

section Build

variable {params : List String} {r : Registry}

mutual

/-- The positions in built code are those of parameters. -/
theorem resolved_of_build : (t : Target) → (c : Code) → build params r t = .ok c →
    c.Resolved params.length
  | .var name, c, h => by
      rw [build] at h
      split at h
      · rename_i i hi
        cases h
        exact .slot (List.idxOf?_eq_some_iff.1 hi).1
      · cases h
        exact .unbound name
  | .lit v, c, h => by
      rw [build] at h
      split at h
      · rename_i hv
        cases h
        exact .const hv
      · cases h
  | .call name ts, c, h => by
      rw [build] at h
      split at h
      · obtain ⟨ps, hps, h⟩ := Outcome.bind_eq_ok.1 h
        cases h
        have hpieces := resolved_of_buildPieces ts 0 ps hps
        exact .branches (fun p hp ↦ (hpieces p hp).1) fun p hp ↦ (hpieces p hp).2
      · split at h
        · cases h
        · split at h
          · cases h
          · obtain ⟨cs, hcs, h⟩ := Outcome.bind_eq_ok.1 h
            cases h
            exact .apply (resolved_of_buildAll ts cs hcs)
  | .foreign _ _, c, h => by cases h
  | .absent, c, h => by cases h

/-- What is built has its slots within the parameters. -/
theorem resolved_of_buildAll : (ts : List Target) → (cs : List Code) →
    buildAll params r ts = .ok cs → ∀ c ∈ cs, c.Resolved params.length
  | [], cs, h => by
      cases h
      simp
  | t :: ts, cs, h => by
      obtain ⟨c, hc, h⟩ := Outcome.bind_eq_ok.1 h
      obtain ⟨cs', hcs, h⟩ := Outcome.bind_eq_ok.1 h
      cases h
      exact List.forall_mem_cons.2 ⟨resolved_of_build t c hc, resolved_of_buildAll ts cs' hcs⟩

theorem resolved_of_buildPieces : (ts : List Target) → (i : Nat) → (ps : List (Code × Code)) →
    buildPieces params r i ts = .ok ps →
      ∀ p ∈ ps, p.1.Resolved params.length ∧ p.2.Resolved params.length
  | [], i, ps, h => by
      cases h
      simp
  | .call name [v, c] :: ts, i, ps, h => by
      rw [buildPieces] at h
      by_cases hp : name = "pair"
      · simp only [hp, bne_self_eq_false, Bool.false_eq_true, if_false] at h
        obtain ⟨v', hv, h⟩ := Outcome.bind_eq_ok.1 h
        obtain ⟨c', hc, h⟩ := Outcome.bind_eq_ok.1 h
        obtain ⟨ps', hps, h⟩ := Outcome.bind_eq_ok.1 h
        cases h
        exact List.forall_mem_cons.2 ⟨⟨resolved_of_build v v' hv, resolved_of_build c c' hc⟩,
          resolved_of_buildPieces ts (i + 1) ps' hps⟩
      · simp [bne_iff_ne, hp] at h
  | .var _ :: _, i, ps, h | .lit _ :: _, i, ps, h | .foreign _ _ :: _, i, ps, h
  | .absent :: _, i, ps, h | .call _ [] :: _, i, ps, h | .call _ [_] :: _, i, ps, h
  | .call _ (_ :: _ :: _ :: _) :: _, i, ps, h => by cases h

end

end Build

/-! ## Proper events -/

/-- A position is read below the bound, and a callable is invoked on valid values. -/
def Event.Proper (n : Nat) : Event → Prop
  | .read i => i < n
  | .invoke _ args => ∀ v ∈ args, v.isValid = true

section Run

variable {env : List Value}

/-- Reading a slot within valid arguments gives a valid value. -/
theorem safe_read (henv : ∀ v ∈ env, v.isValid = true) {i : Nat} (hi : i < env.length) :
    ((Access.observed env).read i).Safe (Event.Proper env.length) fun v ↦ v.isValid = true := by
  constructor
  · intro e he
    obtain rfl := List.mem_singleton.1 he
    exact hi
  · intro v hv
    obtain rfl := Except.ok.inj hv
    rw [List.getElem?_eq_getElem hi]
    exact henv _ (List.getElem_mem hi)

/-- Calling a callable on valid values is a proper event. -/
theorem safe_invoke {vs : List Value} (hvs : ∀ v ∈ vs, v.isValid = true) (name : String)
    (f : Callable) :
    ((Access.observed env).invoke name f vs).Safe (Event.Proper env.length) fun _ ↦ True := by
  constructor
  · intro e he
    obtain rfl := List.mem_singleton.1 he
    exact hvs
  · intro v _
    trivial

/-- Running the code on these arguments leaves proper events alone behind, and comes to a failure or
a valid value. -/
def Code.IsSafe (env : List Value) (c : Code) : Prop :=
  (runWith (.observed env) c).Safe (Event.Proper env.length) fun v ↦ v.isValid = true

/-- Safe code in a list reads and calls properly, and gives valid values. -/
theorem safe_runAllWith {cs : List Code} (h : ∀ c ∈ cs, c.IsSafe env) :
    (runAllWith (.observed env) cs).Safe (Event.Proper env.length)
      fun vs ↦ ∀ v ∈ vs, v.isValid = true := by
  induction cs with
  | nil => exact Traced.safe_pure (by simp)
  | cons c cs ih =>
      obtain ⟨hc, hcs⟩ := List.forall_mem_cons.1 h
      rw [runAllWith]
      refine hc.bind fun v hv ↦ (ih hcs).bind fun vs hvs ↦ ?_
      exact Traced.safe_pure (List.forall_mem_cons.2 ⟨hv, hvs⟩)

theorem safe_runPiecesWith {ps : List (Code × Code)} (hvalue : ∀ p ∈ ps, p.1.IsSafe env)
    (hcondition : ∀ p ∈ ps, p.2.IsSafe env) :
    (runPiecesWith (.observed env) ps).Safe (Event.Proper env.length)
      fun v ↦ v.isValid = true := by
  induction ps with
  | nil => exact Traced.safe_pure rfl
  | cons p ps ih =>
      obtain ⟨hv, hvalue⟩ := List.forall_mem_cons.1 hvalue
      obtain ⟨hc, hcondition⟩ := List.forall_mem_cons.1 hcondition
      rw [runPiecesWith]
      refine hc.bind fun w _ ↦ ?_
      split
      · exact hv
      · exact ih hvalue hcondition

/-- Resolved code is safe on valid arguments, whatever its callables do. -/
theorem Code.Resolved.isSafe {c : Code} (hc : c.Resolved env.length)
    (henv : ∀ v ∈ env, v.isValid = true) : c.IsSafe env := by
  unfold IsSafe
  induction hc with
  | slot hi => exact safe_read henv hi
  | unbound name => exact Traced.safe_fail _
  | const hv => exact Traced.safe_pure hv
  | @apply name f args _ ih =>
      rw [runWith]
      refine (safe_runAllWith ih).bind fun vs hvs ↦ (safe_invoke hvs name f).bind fun v _ ↦ ?_
      split
      · rename_i hv
        exact Traced.safe_pure hv
      · exact Traced.safe_fail _
  | branches _ _ ihvalue ihcondition =>
      rw [runWith]
      exact safe_runPiecesWith ihvalue ihcondition

end Run

end Interpreter

/-! ## Evaluation -/

namespace Function

/-- Without a first invalid argument every argument is valid. -/
theorem isValid_of_firstInvalid? {params : List String} {args : List Value} {i : Nat}
    (hlen : args.length = params.length) (h : firstInvalid? i params args = none) :
    ∀ v ∈ args, v.isValid = true := by
  induction args generalizing params i with
  | nil => simp
  | cons v vs ih =>
      cases params with
      | nil => cases hlen
      | cons p ps =>
          rw [firstInvalid?] at h
          split at h
          · rename_i hv
            exact List.forall_mem_cons.2 ⟨hv, ih (Nat.succ.inj hlen) h⟩
          · cases h

end Function

namespace Interpreter

variable {params : List String} {c : Code}

/-- Evaluation is safe for all arguments: those that code could not be run on are refused. -/
theorem safe_evalWith (hc : c.Resolved params.length) (args : List Value) :
    (evalWith .observed params c args).Safe (Event.Proper args.length)
      fun v ↦ v.isValid = true := by
  unfold evalWith
  split
  · exact Traced.safe_fail _
  · rename_i hlen
    have hlen : args.length = params.length := by simpa using hlen
    split
    · exact Traced.safe_fail _
    · rename_i hvalid
      rw [← hlen] at hc
      exact hc.isSafe (Function.isValid_of_firstInvalid? hlen hvalid)

/-- Observation does not change what evaluation gives. -/
theorem outcome_evalWith (params : List String) (c : Code) (args : List Value) :
    (evalWith .observed params c args).outcome = evalWith .direct params c args := by
  unfold evalWith
  split
  · rfl
  · split
    · rfl
    · rw [outcome_runWith, runWith_direct]

end Interpreter

namespace Function

open ExprCompiler.Interpreter (build evalWith)

/-- A function of the interpreter evaluates by the ways to its arguments and to callables alone. It
reads no position beyond its arguments, invokes no callable on an invalid value, and comes to a
failure or a valid value, whatever the callables give. -/
theorem eval_circulates_valid {r : Registry} {t : Target} {params : List String} {f : Function}
    (h : compile Interpreter.backend r t params = .ok f) :
    ∃ c, build params r t = .ok c ∧ ∀ args : List Value,
      f.eval args = evalWith .direct params c args ∧
      (evalWith .observed params c args).outcome = f.eval args ∧
      (∀ i, .read i ∈ (evalWith .observed params c args).trace → i < args.length) ∧
      (∀ name vs, .invoke name vs ∈ (evalWith .observed params c args).trace →
        ∀ v ∈ vs, v.isValid = true) ∧
      ∀ v, f.eval args = .ok v → v.isValid = true := by
  obtain ⟨-, -, evaluator, he, rfl⟩ := compile_eq_ok_iff.1 h
  obtain ⟨c, hc, he⟩ := Outcome.bind_eq_ok.1 he
  cases he
  refine ⟨c, hc, fun args ↦ ?_⟩
  have heval : eval ⟨params, t, Interpreter.backend.name, fun args ↦ Interpreter.run args c⟩ args =
      evalWith .direct params c args := by
    simp only [eval, evalWith, Interpreter.runWith_direct]
    rfl
  have hsafe := Interpreter.safe_evalWith (Interpreter.resolved_of_build t c hc) args
  rw [heval, Interpreter.outcome_evalWith]
  refine ⟨rfl, rfl, fun i hi ↦ hsafe.events _ hi, fun name vs hvs ↦ hsafe.events _ hvs, ?_⟩
  intro v hv
  rw [← Interpreter.outcome_evalWith] at hv
  exact hsafe.result v hv

/-- A callable that gives an invalid value is invoked, and the one around it is not. -/
theorem eval_circulates_valid_nothing :
    let r : Registry := [("nothing", some fun _ ↦ .ok .invalid),
      ("first", some fun vs ↦ .ok (vs.headD .invalid))]
    let t : Target := .call "first" [.call "nothing" [.var "x"]]
    ∃ f c, compile Interpreter.backend r t ["x"] = .ok f ∧ build ["x"] r t = .ok c ∧
      f.eval [.bool true] = .error (.callable "nothing" .invalidResult) ∧
      (evalWith .observed ["x"] c [.bool true]).trace =
        [.read 0, .invoke "nothing" [.bool true]] ∧
      ∀ name vs, .invoke name vs ∈ (evalWith .observed ["x"] c [.bool true]).trace →
        ∀ v ∈ vs, v.isValid = true := by
  intro r t
  obtain ⟨f, hf⟩ : ∃ f, compile Interpreter.backend r t ["x"] = .ok f := ⟨_, rfl⟩
  obtain ⟨c, hc, heval⟩ := eval_circulates_valid hf
  obtain ⟨-, houtcome, -, hinvoke, -⟩ := heval [.bool true]
  refine ⟨f, c, hf, hc, ?_, ?_, hinvoke⟩
  · rw [← houtcome]
    cases hc
    rfl
  · cases hc
    rfl

end Function

end ExprCompiler
