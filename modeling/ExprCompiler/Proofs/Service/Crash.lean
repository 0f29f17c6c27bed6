import ExprCompiler.Proofs.Sampling.Schedule
import ExprCompiler.Service.Endpoint

/-!
# Requests that end the process

A fault on the way to an answer is reported as the error of the tool, but with the fault of a task
there is no one to report it. Only a surface has tasks, its rows. Main statement: a request is left
without a response if and only if it is for a surface that gets as far as to its grid, and the first
point of the grid that fails for good comes to a fault (`Handler.outcome_handle_eq_error_iff`).
-/

namespace ExprCompiler.Sampling

/-! ## Samples without tasks -/

theorem avoids_ofExcept {α : Type} (r : Except Failure α) :
    Traced.Avoids Halt.crash (Sampled.ofExcept r) := by
  intro f hf
  cases r <;> cases hf

theorem avoids_required (e? : Option Expr) : Traced.Avoids Halt.crash (required e?) := by
  intro f hf
  cases e? <;> cases hf

/-- A function of one variable is sampled without tasks. -/
theorem Plotter.avoids_function (p : Plotter) (e? : Option Expr) (lo hi : Float) :
    Traced.Avoids Halt.crash (p.function e? lo hi) := by
  refine Traced.avoids_bind (avoids_required e?) fun e _ ↦ ?_
  refine Traced.avoids_bind (avoids_ofExcept _) fun v _ ↦ ?_
  refine Traced.avoids_bind (p.avoids_evaluator e _) fun eval _ ↦ ?_
  exact Traced.avoids_bind (avoids_ofExcept _) fun ys _ ↦ Traced.avoids_pure _

/-- So is a curve. -/
theorem Plotter.avoids_parametric (p : Plotter) (x? y? : Option Expr) (var : String)
    (lo hi : Float) : Traced.Avoids Halt.crash (p.parametric x? y? var lo hi) := by
  refine Traced.avoids_bind (avoids_required x?) fun x _ ↦ ?_
  refine Traced.avoids_bind (avoids_required y?) fun y _ ↦ ?_
  refine Traced.avoids_bind (p.avoids_evaluator x _) fun fx _ ↦ ?_
  refine Traced.avoids_bind (p.avoids_evaluator y _) fun fy _ ↦ ?_
  exact Traced.avoids_bind (avoids_ofExcept _) fun points _ ↦ Traced.avoids_pure _

end ExprCompiler.Sampling

namespace ExprCompiler.Service

open Sampling (Plotter linspace FailsFirst)

/-! ## Axes -/

/-- How many points the arguments of a surface ask for on each axis. -/
def Arguments.AxisCount (p : Arguments) (n : Nat) : Prop :=
  if p.has "samples" then p.int "samples" = .ok (n : Int) ∧ 1 ≤ n ∧ n ≤ 1000 else n = 20

/-- The points that the arguments of a surface ask for on its axes. -/
def Arguments.Spans (p : Arguments) (xs ys : List Float) : Prop :=
  ∃ x₀ x₁ y₀ y₁ n, p.floats "x_range" = .ok [x₀, x₁] ∧ p.floats "y_range" = .ok [y₀, y₁] ∧
    p.AxisCount n ∧ xs = linspace x₀ x₁ n ∧ ys = linspace y₀ y₁ n

/-- Arguments ask for one number of points. -/
theorem Arguments.AxisCount.unique {p : Arguments} {m n : Nat} (hm : p.AxisCount m)
    (hn : p.AxisCount n) : m = n := by
  unfold AxisCount at hm hn
  split at hm
  · rename_i hsamples
    rw [if_pos hsamples] at hn
    exact Int.ofNat.inj (Except.ok.inj (hm.1.symm.trans hn.1))
  · rename_i hsamples
    rw [if_neg hsamples] at hn
    exact hm.trans hn.symm

/-- Arguments ask for one grid. -/
theorem Arguments.Spans.unique {p : Arguments} {xs ys xs' ys' : List Float} (h : p.Spans xs ys)
    (h' : p.Spans xs' ys') : xs = xs' ∧ ys = ys' := by
  obtain ⟨x₀, x₁, y₀, y₁, n, hx, hy, hn, rfl, rfl⟩ := h
  obtain ⟨x₀', x₁', y₀', y₁', n', hx', hy', hn', rfl, rfl⟩ := h'
  cases hx.symm.trans hx'
  cases hy.symm.trans hy'
  cases hn.unique hn'
  exact ⟨rfl, rfl⟩

namespace Handler

variable {α β : Type} {h : Handler} {f : Fault}

/-- A reading has the result of what it reads. -/
theorem outcome_reading {r : Except ArgumentError α} {a : α} :
    (reading r).outcome = .ok a ↔ r = .ok a := Outcome.mapError_eq_ok

/-- A sampling has the result of what it samples. -/
theorem outcome_sampling {r : Sampling.Sampled α} {a : α} :
    (sampling r).outcome = .ok a ↔ r.outcome = .ok a := Outcome.mapError_eq_ok

/-- A sample count is taken from the arguments if it lies within the limit. -/
theorem outcome_sampleCount {p : Arguments} {limit n : Nat} :
    (sampleCount p limit).outcome = .ok n ↔
      p.int "samples" = .ok (n : Int) ∧ 1 ≤ n ∧ n ≤ limit := by
  unfold sampleCount
  simp only [Traced.outcome_bind_eq_ok, outcome_reading]
  constructor
  · rintro ⟨i, hi, h⟩
    split at h
    · obtain ⟨_, hfail, -⟩ := Traced.outcome_bind_eq_ok.1 h
      cases hfail
    · rename_i hrange
      simp only [Bool.or_eq_true, decide_eq_true_eq, not_or] at hrange
      cases h
      refine ⟨?_, by omega, by omega⟩
      rw [Int.toNat_of_nonneg (by omega)]
      exact hi
  · rintro ⟨hn, hpos, hle⟩
    refine ⟨n, hn, ?_⟩
    rw [if_neg (by simp; omega)]
    rfl

end Handler

/-! ## Work that does not crash -/

namespace Handler

open Traced (Avoids avoids_bind avoids_pure avoids_emit)

variable {α : Type} {f : Fault}

theorem avoids_reading (r : Except ArgumentError α) : Avoids ToolError.crash (reading r) := by
  intro f hf
  cases r <;> cases hf

/-- A sample crashes the tool if sampling crashed. -/
theorem outcome_sampling_eq_crash_iff {r : Sampling.Sampled α} :
    (sampling r).outcome = .error (.crash f) ↔ r.outcome = .error (.crash f) := by
  show r.outcome.mapError ToolError.ofHalt = _ ↔ _
  cases r.outcome with
  | ok a => simp [Except.mapError]
  | error halt => cases halt <;> simp [Except.mapError, ToolError.ofHalt]

/-- Sampling that does not crash is reported without a crash. -/
theorem avoids_sampling {r : Sampling.Sampled α} (h : Avoids Sampling.Halt.crash r) :
    Avoids ToolError.crash (sampling r) :=
  fun f hf ↦ h f (outcome_sampling_eq_crash_iff.1 hf)

theorem avoids_compile (h : Handler) (params : Option (List String)) (e : Expr) :
    Avoids ToolError.crash (h.compile params e) := by
  refine avoids_bind (avoids_emit _) fun _ _ f hf ↦ ?_
  revert hf
  cases Options.compileExpr _ e <;> rintro ⟨⟩

theorem avoids_values (g : Function) (points : List (List Float)) :
    Avoids ToolError.crash (Traced.ofExcept (valuesFrom g 0 points) : Working _) := by
  suffices hvalues : ∀ i f, valuesFrom g i points ≠ .error (.crash f) from hvalues 0
  induction points with
  | nil => exact fun i f hf ↦ nomatch hf
  | cons p points ih =>
      intro i f hf
      rcases Outcome.bind_eq_error.1 hf with hf | ⟨v, -, hf⟩
      · cases hv : g.eval (p.map .float) <;> rw [hv] at hf <;> cases hf
      · rcases Outcome.bind_eq_error.1 hf with hf | ⟨ds, -, hf⟩
        · exact ih (i + 1) f hf
        · cases hf

theorem avoids_sampleCount (p : Arguments) (limit : Nat) :
    Avoids ToolError.crash (sampleCount p limit) := by
  refine avoids_bind (avoids_reading _) fun n _ ↦ ?_
  dsimp only
  split
  · exact fun f hf ↦ nomatch hf
  · exact avoids_pure _

theorem avoids_plotterFor (h : Handler) (p : Arguments) :
    Avoids ToolError.crash (plotterFor h p) := by
  unfold plotterFor
  split
  · exact avoids_bind (avoids_sampleCount p _) fun _ _ ↦ avoids_pure _
  · exact avoids_pure _

theorem avoids_compileTool (h : Handler) (p : Arguments) :
    Avoids ToolError.crash (h.compileTool p) := by
  unfold compileTool
  refine avoids_bind (avoids_reading _) fun e _ ↦ ?_
  have hrest (params : Option (List String)) : Avoids ToolError.crash (do
      let g ← h.compile params e
      let described := [
        ("params", if g.params.isEmpty then .absent else .texts g.params),
        ("target", .text g.expr.text),
        ("backend", .text g.backend)]
      if p.has "points" then
        let points ← reading (p.points "points")
        let values ← Traced.ofExcept (valuesFrom g 0 points)
        Traced.emit (.points points.length)
        return (some (.record (described ++ [("values", .list values)])), g.text)
      else return (some (.record described), g.text) : Working Answer) := by
    refine avoids_bind (avoids_compile h params e) fun g _ ↦ ?_
    dsimp only
    split
    · refine avoids_bind (avoids_reading _) fun points _ ↦ ?_
      refine avoids_bind (avoids_values g points) fun values _ ↦ ?_
      exact avoids_bind (avoids_emit _) fun _ _ ↦ avoids_pure _
    · exact avoids_pure _
  dsimp only
  split
  · refine avoids_bind ?_ fun params _ ↦ hrest params
    exact avoids_bind (avoids_reading _) fun _ _ ↦ avoids_pure _
  · exact avoids_bind (avoids_pure _) fun params _ ↦ hrest params

theorem avoids_sample (h : Handler) (p : Arguments) : Avoids ToolError.crash (h.sample p) := by
  refine avoids_bind (avoids_reading _) fun e _ ↦ ?_
  refine avoids_bind (avoids_reading _) fun ⟨lo, hi⟩ _ ↦ ?_
  refine avoids_bind (avoids_plotterFor h p) fun plotter _ ↦ ?_
  refine avoids_bind (avoids_sampling (plotter.avoids_function _ lo hi)) fun s _ ↦ ?_
  exact avoids_bind (avoids_emit _) fun _ _ ↦ avoids_pure _

theorem avoids_parametric (h : Handler) (p : Arguments) :
    Avoids ToolError.crash (h.parametric p) := by
  refine avoids_bind (avoids_reading _) fun x _ ↦ ?_
  refine avoids_bind (avoids_reading _) fun y _ ↦ ?_
  refine avoids_bind (avoids_reading _) fun var _ ↦ ?_
  refine avoids_bind (avoids_reading _) fun ⟨lo, hi⟩ _ ↦ ?_
  refine avoids_bind (avoids_plotterFor h p) fun plotter _ ↦ ?_
  refine avoids_bind (avoids_sampling (plotter.avoids_parametric _ _ var lo hi)) fun s _ ↦ ?_
  exact avoids_bind (avoids_emit _) fun _ _ ↦ avoids_pure _

/-! ## Surfaces -/

/-- Whether a request ends the process with a fault: it is for a surface whose arguments can all be
read and whose expression can be evaluated, and the first point of its grid that fails for good
comes to the fault. -/
def Crashes (h : Handler) (r : Request) (f : Fault) : Prop :=
  r.tool = "surface" ∧ ∃ e x y xs ys eval, r.arguments.expr "expr" = .ok e ∧
    r.arguments.text "x" = .ok x ∧ r.arguments.text "y" = .ok y ∧ r.arguments.Spans xs ys ∧
    (h.plotter.evaluator e [x, y]).outcome = .ok eval ∧ FailsFirst eval xs ys (.fault f)

/-- A reading does not crash, but what comes after it may. -/
theorem outcome_bind_eq_crash_iff {β : Type} {x : Except ArgumentError α} {k : α → Working β} :
    (reading x >>= k).outcome = .error (.crash f) ↔
      ∃ a, x = .ok a ∧ (k a).outcome = .error (.crash f) := by
  simp only [Traced.outcome_bind_eq_error, outcome_reading]
  exact or_iff_right (avoids_reading x f)

/-- The tool for surfaces ends the process if and only if the surface does. -/
theorem outcome_surface_eq_crash_iff {h : Handler} {p : Arguments} :
    (h.surface p).outcome = .error (.crash f) ↔
      ∃ e x y xs ys, p.expr "expr" = .ok e ∧ p.text "x" = .ok x ∧ p.text "y" = .ok y ∧
        p.Spans xs ys ∧
        (h.plotter.surface (some e) x y xs ys false).outcome = .error (.crash f) := by
  have hgrid (e : Expr) (x y : String) (xs ys : List Float) :
      (sampling (h.plotter.surface (some e) x y xs ys false) >>= fun g ↦ do
        Traced.emit (.points (g.y.length * g.x.length))
        return ((some (.record [("x", .numbers g.x), ("y", .numbers g.y),
          ("z", .list (g.z.map .finites))]), g.label) : Answer)).outcome = .error (.crash f) ↔
        (h.plotter.surface (some e) x y xs ys false).outcome = .error (.crash f) := by
    rw [Traced.outcome_bind_eq_error, outcome_sampling_eq_crash_iff]
    refine or_iff_left ?_
    rintro ⟨g, -, hf⟩
    exact avoids_bind (avoids_emit _) (fun _ _ ↦ avoids_pure _) f hf
  unfold surface
  simp only [outcome_bind_eq_crash_iff]
  constructor
  · rintro ⟨e, he, x, hx, y, hy, xr, hxr, yr, hyr, hf⟩
    split at hf
    · rename_i x₀ x₁ y₀ y₁
      suffices hn : ∃ n, p.AxisCount n ∧ (h.plotter.surface (some e) x y
          (linspace x₀ x₁ n) (linspace y₀ y₁ n) false).outcome = .error (.crash f) by
        obtain ⟨n, hn, hf⟩ := hn
        exact ⟨e, x, y, _, _, he, hx, hy, ⟨x₀, x₁, y₀, y₁, n, hxr, hyr, hn, rfl, rfl⟩, hf⟩
      split at hf
      · rename_i hsamples
        rw [Traced.outcome_bind_eq_error] at hf
        obtain ⟨n, hn, hf⟩ := hf.resolve_left (avoids_sampleCount p 1000 f)
        exact ⟨n, (if_pos hsamples).mpr (outcome_sampleCount.1 hn), (hgrid e x y _ _).1 hf⟩
      · rename_i hsamples
        exact ⟨20, (if_neg hsamples).mpr rfl, (hgrid e x y _ _).1 hf⟩
    · cases hf
  · rintro ⟨e, x, y, _, _, he, hx, hy, ⟨x₀, x₁, y₀, y₁, n, hxr, hyr, hn, rfl, rfl⟩, hf⟩
    refine ⟨e, he, x, hx, y, hy, _, hxr, _, hyr, ?_⟩
    unfold Arguments.AxisCount at hn
    dsimp only
    split at hn
    · rename_i hsamples
      rw [if_pos hsamples, Traced.outcome_bind_eq_error]
      exact .inr ⟨n, outcome_sampleCount.2 hn, (hgrid e x y _ _).2 hf⟩
    · rename_i hsamples
      subst hn
      rw [if_neg hsamples]
      exact (hgrid e x y _ _).2 hf

/-! ## Requests -/

/-- Only a surface ends the process. -/
theorem outcome_work_eq_crash_iff {h : Handler} {r : Request} :
    (h.work r).outcome = .error (.crash f) ↔ h.Crashes r f := by
  by_cases hname : r.tool = "surface"
  · have hwork : h.work r = h.surface r.arguments := by simp only [work, tool?, hname]
    rw [hwork, outcome_surface_eq_crash_iff]
    simp only [Plotter.outcome_surface_eq_crash_iff, Crashes, hname, true_and]
    constructor
    · rintro ⟨e, x, y, xs, ys, he, hx, hy, hspans, eval, heval, hfirst⟩
      exact ⟨e, x, y, xs, ys, eval, he, hx, hy, hspans, heval, hfirst⟩
    · rintro ⟨e, x, y, xs, ys, eval, he, hx, hy, hspans, heval, hfirst⟩
      exact ⟨e, x, y, xs, ys, he, hx, hy, hspans, eval, heval, hfirst⟩
  · refine iff_of_false ?_ fun hcrashes ↦ hname hcrashes.1
    suffices havoids : Avoids ToolError.crash (h.work r) from havoids f
    unfold work
    split
    · rename_i tool htool
      unfold tool? at htool
      split at htool
      all_goals
        rename_i hname'
        cases htool
      · exact avoids_compileTool h r.arguments
      · exact avoids_sample h r.arguments
      · exact avoids_parametric h r.arguments
      · exact absurd hname' hname
      · exact avoids_bind (avoids_reading _) fun _ _ ↦ avoids_pure _
      · exact avoids_bind (avoids_reading _) fun _ _ ↦ avoids_pure _
      · exact avoids_pure _
      · exact avoids_pure _
    · exact fun f hf ↦ nomatch hf

/-- A response carries the outcome of the work under the identifier of the request. -/
theorem outcome_handle (h : Handler) (freshId : String) (r : Request) :
    (h.handle freshId r).outcome =
      respond (if r.id.isEmpty then freshId else r.id) (h.work r).outcome := by
  unfold handle
  dsimp only
  cases respond _ (h.work r).outcome <;> rfl

/-- There is no response exactly to the crash of a tool. -/
theorem respond_eq_error_iff {id : String} {x : Except ToolError Answer} :
    respond id x = .error f ↔ x = .error (.crash f) := by
  cases x with
  | ok a => simp [respond]
  | error e => cases e <;> simp [respond]

/-- A request is left without a response if and only if it ends the process. -/
theorem outcome_handle_eq_error_iff {h : Handler} (freshId : String) {r : Request} :
    (h.handle freshId r).outcome = .error f ↔ h.Crashes r f := by
  rw [outcome_handle, respond_eq_error_iff, outcome_work_eq_crash_iff]

/-- A request has a response if and only if it does not end the process. -/
theorem exists_response_iff {h : Handler} (freshId : String) {r : Request} :
    (∃ response, (h.handle freshId r).outcome = .ok response) ↔ ∀ f, ¬h.Crashes r f := by
  simp only [← outcome_handle_eq_error_iff freshId]
  cases (h.handle freshId r).outcome <;> simp

/-- What a response says: the answer of the tool, or what it reports of its error. -/
structure Responds (h : Handler) (freshId : String) (r : Request) (response : Response) :
    Prop where
  id : response.id = if r.id.isEmpty then freshId else r.id
  ok : ∀ a, (h.work r).outcome = .ok a →
    response.result = a.1 ∧ response.text = a.2 ∧ response.error = ""
  error : ∀ e, (h.work r).outcome = .error e →
    response.result = none ∧ response.text = "" ∧ response.error = e.report
  trace : (h.handle freshId r).trace =
    (h.work r).trace ++ [.toolCall r.tool response.error.isEmpty]

/-- Every response that is given is one. -/
theorem responds_of_outcome {h : Handler} {freshId : String} {r : Request} {response : Response}
    (hr : (h.handle freshId r).outcome = .ok response) : Responds h freshId r response := by
  rw [outcome_handle] at hr
  have htrace : (h.handle freshId r).trace =
      (h.work r).trace ++ [.toolCall r.tool response.error.isEmpty] := by
    simp only [handle, hr]
  cases hw : (h.work r).outcome with
  | ok a =>
      rw [hw] at hr
      cases hr
      exact ⟨rfl, fun _ ha ↦ by cases hw.symm.trans ha; exact ⟨rfl, rfl, rfl⟩,
        fun _ he ↦ (nomatch hw.symm.trans he), htrace⟩
  | error e =>
      rw [hw] at hr
      cases e with
      | crash f => cases hr
      | _ =>
        cases hr
        exact ⟨rfl, fun _ ha ↦ (nomatch hw.symm.trans ha),
          fun _ he ↦ by cases hw.symm.trans he; exact ⟨rfl, rfl, rfl⟩, htrace⟩

/-- The events of a request that ends the process are those of its tool. -/
theorem trace_of_crashes {h : Handler} {freshId : String} {r : Request} (hf : h.Crashes r f) :
    (h.handle freshId r).trace = (h.work r).trace := by
  have hr := (outcome_handle_eq_error_iff freshId).2 hf
  rw [outcome_handle] at hr
  simp only [handle, hr]

/-- A call with an accepted body does what the request does: it ends the process, or it has the
response for its reply. -/
theorem serve_of_readBody (h : Handler) (freshId : String) {body : List Char} {r : Request}
    (hbody : readBody body = .ok r) :
    h.serve freshId "POST" body = Reply.answered <$> h.handle freshId r := by
  simp only [serve, hbody]
  rfl

end Handler

end ExprCompiler.Service
