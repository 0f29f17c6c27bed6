import ExprCompiler.Proofs.Service.Writable
import ExprCompiler.Service.Identifier

/-!
# Accounting

What a service counts is what it answered. A tool charges its points when it is about to answer, and
compilation charges itself before anything else can fail. Main statement: after any sequence of
requests the counters are sums over the responses and their requests, and every response has an id
and either a result or an error; all requests before the first that ends the process have a
response, and none after it (`Session.balanced_run`).
-/

namespace ExprCompiler.Service

/-! ## Counters as sums -/

namespace Event

def pointWeight : Event → Nat
  | .points n => n
  | _ => 0

def compilationWeight : Event → Nat
  | .compilation _ _ => 1
  | _ => 0

def callWeight (tool : String) (ok : Bool) (e : Event) : Nat :=
  if e = .toolCall tool ok then 1 else 0

end Event

/-- The sum of all counts. -/
def Tally.total {κ : Type} (t : Tally κ) : Nat := (t.map Prod.snd).sum

theorem Tally.total_bump {κ : Type} [DecidableEq κ] (t : Tally κ) (k : κ) :
    (t.bump k).total = t.total + 1 := by
  induction t with
  | nil => rfl
  | cons e rest ih =>
      rw [bump]
      split
      · simp only [total, List.map_cons, List.sum_cons]
        omega
      · simp only [total, List.map_cons, List.sum_cons] at ih ⊢
        omega

namespace Counters

/-- A counter that every event raises by its weight is raised by the sum of the weights. -/
theorem recordAll_eq_add (counter : Counters → Nat) (weight : Event → Nat)
    (h : ∀ c e, counter (c.record e) = counter c + weight e) (c : Counters) (events : List Event) :
    counter (c.recordAll events) = counter c + (events.map weight).sum := by
  induction events generalizing c with
  | nil => rfl
  | cons e events ih =>
      show counter ((c.record e).recordAll events) = _
      rw [ih, h, List.map_cons, List.sum_cons, Nat.add_assoc]

/-- Points go up by what each event weighs. -/
theorem points_recordAll (c : Counters) (events : List Event) :
    (c.recordAll events).points = c.points + (events.map Event.pointWeight).sum := by
  refine recordAll_eq_add Counters.points _ (fun c e ↦ ?_) c events
  cases e <;> rfl

theorem compilations_recordAll (c : Counters) (events : List Event) :
    (c.recordAll events).compilations.total =
      c.compilations.total + (events.map Event.compilationWeight).sum := by
  refine recordAll_eq_add (fun c ↦ c.compilations.total) _ (fun c e ↦ ?_) c events
  cases e with
  | compilation backend ok => exact Tally.total_bump _ _
  | _ => rfl

theorem toolCalls_recordAll (tool : String) (ok : Bool) (c : Counters) (events : List Event) :
    (c.recordAll events).toolCalls.count (tool, ok) =
      c.toolCalls.count (tool, ok) + (events.map (Event.callWeight tool ok)).sum := by
  refine recordAll_eq_add (fun c ↦ c.toolCalls.count (tool, ok)) _ (fun c e ↦ ?_) c events
  cases e with
  | toolCall tool' ok' => simp [record, Tally.count_bump, Event.callWeight]
  | _ => rfl

end Counters

/-! ## What a response reports -/

namespace Document

/-- The field of a record. -/
def field (d : Document) (name : String) : Document :=
  match d with
  | .record fields => (Table.get? fields name).getD .absent
  | _ => .absent

/-- The items of a list. -/
def items : Document → List Document
  | .list ds => ds
  | _ => []

/-- How many points the result of a tool is about: the values at given points, the points of a curve
in one coordinate or in two, or the rows of a surface times its columns. -/
def points (tool : String) (d : Document) : Nat :=
  match tool with
  | "lambdify" => (d.field "values").items.length
  | "sample" => (d.field "x").items.length
  | "parametric" => 2 * (d.field "x").items.length
  | "surface" => (d.field "z").items.length * ((d.field "z").items.headD .absent).items.length
  | _ => 0

end Document

/-- How many points a response reports. -/
def Response.points (tool : String) (r : Response) : Nat := (r.result.map (·.points tool)).getD 0

/-- Whether a request gets as far as to a compilation: it is for the tool that compiles, and the
expression and the parameters, if there are any, can be read. -/
def Request.compiles (r : Request) : Bool :=
  r.tool == "lambdify" && (r.arguments.expr "expr").toBool &&
    (!r.arguments.has "params" || (r.arguments.texts "params").toBool)

/-! ## What a tool charges -/

namespace Handler

open Sampling (linspace)
open Traced (Ensures ensures_bind ensures_pure)

variable {α β : Type} {cost : Answer → Nat} {compiles : Bool}

/-- Work that leaves nothing behind but fallbacks. -/
def Quiet (x : Working α) : Prop := ∀ e ∈ x.trace, e = .fallback

theorem Quiet.sum_eq_zero {x : Working α} (h : Quiet x) (weight : Event → Nat)
    (hw : weight .fallback = 0) : (x.trace.map weight).sum = 0 := by
  refine List.sum_eq_zero fun n hn ↦ ?_
  obtain ⟨e, he, rfl⟩ := List.mem_map.1 hn
  rw [h e he, hw]

theorem quiet_pure (a : α) : Quiet (pure a : Working α) := fun _ h ↦ nomatch h

theorem quiet_fail (e : ToolError) : Quiet (Traced.fail e : Working α) := fun _ h ↦ nomatch h

theorem quiet_ofExcept (r : Except ToolError α) : Quiet (Traced.ofExcept r) := fun _ h ↦ nomatch h

theorem quiet_reading (r : Except ArgumentError α) : Quiet (reading r) := quiet_ofExcept _

theorem quiet_sampling (r : Sampling.Sampled α) : Quiet (sampling r) := by
  intro e he
  obtain ⟨_, -, rfl⟩ := List.mem_map.1 he
  rfl

theorem quiet_bind {x : Working α} {f : α → Working β} (hx : Quiet x)
    (hf : ∀ a, x.outcome = .ok a → Quiet (f a)) : Quiet (x >>= f) := by
  cases h : x.outcome with
  | error e =>
      rw [Traced.bind_of_error h]
      exact hx
  | ok a =>
      rw [Traced.bind_of_ok h]
      exact fun e he ↦ (List.mem_append.1 he).elim (hx e) (hf a h e)

theorem quiet_sampleCount (p : Arguments) (limit : Nat) : Quiet (sampleCount p limit) := by
  unfold sampleCount
  refine quiet_bind (quiet_reading _) fun n _ ↦ ?_
  dsimp only
  split
  · exact quiet_bind (quiet_fail _) fun _ _ ↦ quiet_pure _
  · exact quiet_pure _

theorem quiet_plotterFor (h : Handler) (p : Arguments) : Quiet (plotterFor h p) := by
  unfold plotterFor
  split
  · exact quiet_bind (quiet_sampleCount p _) fun _ _ ↦ quiet_pure _
  · exact quiet_pure _

/-- Work that charges the cost of its answer, or nothing if it fails, and that counts a compilation
or none. Calls are not for the tools to count. -/
structure Charges (cost : Answer → Nat) (compiles : Bool) (x : Working Answer) : Prop where
  calls : ∀ tool ok, .toolCall tool ok ∉ x.trace
  compilations : (x.trace.map Event.compilationWeight).sum = compiles.toNat
  points : (x.trace.map Event.pointWeight).sum =
    match x.outcome with
    | .ok a => cost a
    | .error _ => 0

theorem charges_pure {a : Answer} (h : cost a = 0) : Charges cost false (pure a) :=
  ⟨fun _ _ h ↦ (nomatch h), rfl, h.symm⟩

theorem charges_fail (e : ToolError) : Charges cost false (Traced.fail e) :=
  ⟨fun _ _ h ↦ (nomatch h), rfl, rfl⟩

/-- An answer that is charged when it is given. -/
theorem charges_points {n : Nat} {a : Answer} (h : cost a = n) :
    Charges cost false (Traced.emit (.points n) >>= fun _ ↦ pure a) := by
  refine ⟨fun tool ok hmem ↦ ?_, rfl, ?_⟩
  · cases List.mem_singleton.1 hmem
  · exact h.symm

/-- Quiet work charges nothing itself. -/
theorem Charges.bind {x : Working α} {f : α → Working Answer} (hx : Quiet x)
    (herror : ∀ e, x.outcome = .error e → compiles = false)
    (hf : ∀ a, x.outcome = .ok a → Charges cost compiles (f a)) :
    Charges cost compiles (x >>= f) := by
  have hcalls : ∀ tool ok, .toolCall tool ok ∉ x.trace := fun tool ok h ↦ nomatch hx _ h
  have hcompilations := hx.sum_eq_zero Event.compilationWeight rfl
  have hpoints := hx.sum_eq_zero Event.pointWeight rfl
  cases h : x.outcome with
  | error e =>
      rw [Traced.bind_of_error h, herror e h]
      exact ⟨hcalls, hcompilations, hpoints⟩
  | ok a =>
      obtain ⟨hcalls', hcompilations', hpoints'⟩ := hf a h
      rw [Traced.bind_of_ok h]
      refine ⟨fun tool ok hmem ↦ ?_, ?_, ?_⟩
      · exact (List.mem_append.1 hmem).elim (hcalls tool ok) (hcalls' tool ok)
      · rw [List.map_append, List.sum_append, hcompilations, hcompilations', Nat.zero_add]
      · rw [List.map_append, List.sum_append, hpoints, hpoints', Nat.zero_add]

/-- Quiet work before an answer costs nothing. -/
theorem Charges.after {x : Working α} {f : α → Working Answer} (hx : Quiet x)
    (hf : ∀ a, x.outcome = .ok a → Charges cost false (f a)) : Charges cost false (x >>= f) :=
  .bind hx (fun _ _ ↦ rfl) hf

/-- A compilation is charged to the answer after it. -/
theorem Charges.bind_compile {h : Handler} {params : Option (List String)} {e : Expr}
    {f : Function → Working Answer} (hf : ∀ a, Charges cost false (f a)) :
    Charges cost true (h.compile params e >>= f) := by
  obtain ⟨ok, htrace⟩ : ∃ ok, (h.compile params e).trace = [.compilation h.backend ok] := ⟨_, rfl⟩
  cases hx : (h.compile params e).outcome with
  | error err =>
      rw [Traced.bind_of_error hx, htrace]
      exact ⟨fun tool ok' hmem ↦ (nomatch List.mem_singleton.1 hmem), rfl, rfl⟩
  | ok a =>
      obtain ⟨hcalls, hcompilations, hpoints⟩ := hf a
      rw [Traced.bind_of_ok hx, htrace]
      refine ⟨fun tool ok' hmem ↦ ?_, ?_, ?_⟩
      · rcases List.mem_cons.1 hmem with hmem | hmem
        · cases hmem
        · exact hcalls tool ok' hmem
      · rw [List.singleton_append, List.map_cons, List.sum_cons, hcompilations]
        rfl
      · rw [List.singleton_append, List.map_cons, List.sum_cons, hpoints]
        exact Nat.zero_add _

/-! ## Tools -/

/-- What an answer reports. -/
def answerCost (tool : String) (a : Answer) : Nat := (a.1.map (·.points tool)).getD 0

theorem length_valuesFrom {f : Function} {i : Nat} {points : List (List Float)}
    {ds : List Document} (h : valuesFrom f i points = .ok ds) : ds.length = points.length := by
  induction points generalizing i ds with
  | nil =>
      cases h
      rfl
  | cons p points ih =>
      obtain ⟨v, -, h⟩ := Outcome.bind_eq_ok.1 h
      obtain ⟨rest, hrest, h⟩ := Outcome.bind_eq_ok.1 h
      cases h
      rw [List.length_cons, List.length_cons, ih hrest]

/-- The rest of a compilation: the values at given points, beside what describes the function. -/
theorem charges_values (p : Arguments) (f : Function) {described : List (String × Document)}
    (hdescribed : Table.get? described "values" = none) :
    Charges (answerCost "lambdify") false
      (if p.has "points" = true then do
        let points ← reading (p.points "points")
        let values ← Traced.ofExcept (valuesFrom f 0 points)
        Traced.emit (.points points.length)
        return (some (.record (described ++ [("values", .list values)])), f.text)
      else return (some (.record described), f.text)) := by
  split
  · refine .after (quiet_reading _) fun points _ ↦ ?_
    refine .after (quiet_ofExcept _) fun values hvalues ↦ charges_points ?_
    have hfield : Table.get? (described ++ [("values", .list values)]) "values" =
        some (.list values) := by
      rw [Table.get?, Option.map_eq_none_iff] at hdescribed
      rw [Table.get?, List.find?_append, hdescribed]
      rfl
    simp only [answerCost, Option.map_some, Option.getD_some, Document.points, Document.field,
      hfield, Document.items]
    exact length_valuesFrom hvalues
  · refine charges_pure ?_
    simp [answerCost, Document.points, Document.field, hdescribed, Document.items]

theorem toBool_of_reading (r : Except ArgumentError α) : r.toBool = (reading r).outcome.toBool := by
  cases r <;> rfl

theorem toBool_outcome_map (f : α → β) (x : Working α) :
    (f <$> x).outcome.toBool = x.outcome.toBool := by
  rw [Traced.outcome_map]
  cases x.outcome <;> rfl

/-- The compiling tool charges a compilation if the request compiles. -/
theorem charges_compileTool (h : Handler) (r : Request) (htool : r.tool = "lambdify") :
    Charges (answerCost "lambdify") r.compiles (h.compileTool r.arguments) := by
  have hcompiles : r.compiles = ((r.arguments.expr "expr").toBool &&
      (!r.arguments.has "params" || (r.arguments.texts "params").toBool)) := by
    simp [Request.compiles, htool]
  rw [toBool_of_reading, toBool_of_reading (r.arguments.texts "params"),
    ← toBool_outcome_map some (reading (r.arguments.texts "params"))] at hcompiles
  unfold compileTool
  -- Each reading that fails keeps the request from a compilation, and nothing after them does.
  refine .bind (quiet_reading _) (fun e he ↦ by rw [hcompiles, he]; rfl) fun e he ↦ ?_
  rw [hcompiles, he]
  dsimp only
  split
  · rename_i hparams
    rw [hparams]
    refine .bind (quiet_bind (quiet_reading _) fun _ _ ↦ quiet_pure _)
      (fun err herr ↦ by rw [herr]; rfl) fun params hp ↦ ?_
    rw [hp]
    exact .bind_compile fun f ↦ charges_values _ _ rfl
  · rename_i hparams
    rw [Bool.not_eq_true] at hparams
    rw [hparams]
    refine .bind (quiet_pure none) (fun _ h ↦ nomatch h) fun params _ ↦ ?_
    exact .bind_compile fun f ↦ charges_values _ _ rfl

theorem charges_sample (h : Handler) (p : Arguments) :
    Charges (answerCost "sample") false (h.sample p) := by
  unfold sample
  refine .after (quiet_reading _) fun e _ ↦ ?_
  refine .after (quiet_reading _) fun ⟨lo, hi⟩ _ ↦ ?_
  refine .after (quiet_plotterFor h p) fun plotter _ ↦ ?_
  refine .after (quiet_sampling _) fun s _ ↦ charges_points ?_
  exact List.length_map _

theorem charges_parametric (h : Handler) (p : Arguments) :
    Charges (answerCost "parametric") false (h.parametric p) := by
  unfold parametric
  refine .after (quiet_reading _) fun x _ ↦ ?_
  refine .after (quiet_reading _) fun y _ ↦ ?_
  refine .after (quiet_reading _) fun var _ ↦ ?_
  refine .after (quiet_reading _) fun ⟨lo, hi⟩ _ ↦ ?_
  refine .after (quiet_plotterFor h p) fun plotter _ ↦ ?_
  refine .after (quiet_sampling _) fun s _ ↦ charges_points ?_
  exact congrArg (2 * ·) (List.length_map _)

/-- A grid costs the product of its sides. -/
theorem answerCost_surface {g : Sampling.Surface} (hrows : g.z.length = g.y.length)
    (hcolumns : ∀ r ∈ g.z, r.length = g.x.length) :
    answerCost "surface" (some (gridDocument g.x g.y g.z), g.label) = g.y.length * g.x.length := by
  show (g.z.map Document.finites).length *
    ((g.z.map Document.finites).headD .absent).items.length = _
  rw [List.length_map, hrows]
  cases hz : g.z with
  | nil => simp [← hrows, hz]
  | cons r rows =>
      rw [← hcolumns r (hz ▸ List.mem_cons_self)]
      exact congrArg (g.y.length * ·) (List.length_map _)

theorem charges_surface (h : Handler) (p : Arguments) :
    Charges (answerCost "surface") false (h.surface p) := by
  unfold surface
  refine .after (quiet_reading _) fun e _ ↦ ?_
  refine .after (quiet_reading _) fun x _ ↦ ?_
  refine .after (quiet_reading _) fun y _ ↦ ?_
  refine .after (quiet_reading _) fun xr hxr ↦ ?_
  refine .after (quiet_reading _) fun yr hyr ↦ ?_
  split
  · rename_i x₀ x₁ y₀ y₁
    clear hxr hyr
    have hsampled (n : Nat) : Charges (answerCost "surface") false
        (sampling (h.plotter.surface (some e) x y (linspace x₀ x₁ n) (linspace y₀ y₁ n) false) >>=
          fun g ↦ Traced.emit (.points (g.y.length * g.x.length)) >>=
            fun _ ↦ pure (some (gridDocument g.x g.y g.z), g.label)) := by
      refine .after (quiet_sampling _) fun g hg ↦ charges_points ?_
      obtain ⟨hx, hy, hrows, hcolumns⟩ := ensures_surface_grid _ _ _ _ _ _ _ g (outcome_sampling.1 hg)
      exact answerCost_surface (hy ▸ hrows) (hx ▸ hcolumns)
    dsimp only
    split
    · exact .after (quiet_sampleCount p 1000) fun n _ ↦ hsampled n
    · exact .after (quiet_pure 20) fun n _ ↦ hsampled n
  · exact charges_fail _

theorem charges_freeSymbols (p : Arguments) :
    Charges (answerCost "free_symbols") false (freeSymbols p) :=
  .after (quiet_reading _) fun _ _ ↦ charges_pure rfl

theorem charges_toText (p : Arguments) : Charges (answerCost "to_string") false (toText p) :=
  .after (quiet_reading _) fun _ _ ↦ charges_pure rfl

theorem compiles_of_ne {r : Request} (h : r.tool ≠ "lambdify") : r.compiles = false := by
  simp [Request.compiles, h]

/-- Every request charges the points that its answer reports, and counts a compilation if it gets
that far. -/
theorem charges_work (h : Handler) (r : Request) :
    Charges (answerCost r.tool) r.compiles (h.work r) := by
  unfold work
  split
  · rename_i tool htool
    unfold tool? at htool
    split at htool
    all_goals
      rename_i hname
      cases htool
    · rw [hname]
      exact charges_compileTool h r hname
    all_goals
      rw [compiles_of_ne (by rw [hname]; decide), hname]
    · exact charges_sample h r.arguments
    · exact charges_parametric h r.arguments
    · exact charges_surface h r.arguments
    · exact charges_freeSymbols r.arguments
    · exact charges_toText r.arguments
    · exact charges_pure rfl
    · exact charges_pure rfl
  · rename_i hnone
    have hne : r.tool ≠ "lambdify" := by
      rintro hname
      rw [hname] at hnone
      cases hnone
    rw [compiles_of_ne hne]
    exact charges_fail _

/-! ## Requests -/

variable {h : Handler} {freshId : String} {r : Request} {response : Response}

/-- A response has an id if the fresh one is one. -/
theorem Responds.id_ne (hr : Responds h freshId r response) (hid : freshId ≠ "") :
    response.id ≠ "" := by
  rw [hr.id]
  split
  · exact hid
  · rename_i hne
    simpa using hne

/-- A response has nothing beside an error. -/
theorem Responds.exclusive (hr : Responds h freshId r response) (herror : response.error ≠ "") :
    response.result = none ∧ response.text = "" := by
  cases hw : (h.work r).outcome with
  | error e => exact ⟨(hr.error e hw).1, (hr.error e hw).2.1⟩
  | ok a => exact absurd (hr.ok a hw).2.2 herror

/-- The work for a request counts no calls. -/
theorem sum_callWeight_work (tool : String) (ok : Bool) :
    ((h.work r).trace.map (Event.callWeight tool ok)).sum = 0 := by
  refine List.sum_eq_zero fun n hn ↦ ?_
  obtain ⟨e, he, rfl⟩ := List.mem_map.1 hn
  refine if_neg ?_
  rintro rfl
  exact (charges_work h r).calls tool ok he

/-- A response counts as one call of its tool. -/
theorem Responds.sum_callWeight (hr : Responds h freshId r response) (tool : String) (ok : Bool) :
    ((h.handle freshId r).trace.map (Event.callWeight tool ok)).sum =
      if r.tool = tool ∧ response.error.isEmpty = ok then 1 else 0 := by
  rw [hr.trace, List.map_append, List.sum_append, sum_callWeight_work, Nat.zero_add,
    List.map_singleton, List.sum_singleton, Event.callWeight]
  simp only [Event.toolCall.injEq]

/-- A response takes one compilation if its request compiles, and none otherwise. -/
theorem Responds.sum_compilationWeight (hr : Responds h freshId r response) :
    ((h.handle freshId r).trace.map Event.compilationWeight).sum = r.compiles.toNat := by
  rw [hr.trace, List.map_append, List.sum_append, (charges_work h r).compilations]
  rfl

/-- A response without an error counts the points that it reports, and one with an error none. -/
theorem Responds.sum_pointWeight (hr : Responds h freshId r response) :
    ((h.handle freshId r).trace.map Event.pointWeight).sum =
      if response.error.isEmpty then response.points r.tool else 0 := by
  rw [hr.trace, List.map_append, List.sum_append, (charges_work h r).points]
  cases hw : (h.work r).outcome with
  | error e =>
      -- An error without words counts as success, but has no result that could report points.
      rw [Response.points, (hr.error e hw).1]
      simp [Event.pointWeight]
  | ok a =>
      rw [Response.points, (hr.ok a hw).1, (hr.ok a hw).2.2]
      rfl

/-- A request that ends the process has left nothing in the counters but fallbacks. -/
theorem charges_of_crashes {f : Fault} (hf : h.Crashes r f) :
    (∀ tool ok, ((h.handle freshId r).trace.map (Event.callWeight tool ok)).sum = 0) ∧
      ((h.handle freshId r).trace.map Event.compilationWeight).sum = 0 ∧
      ((h.handle freshId r).trace.map Event.pointWeight).sum = 0 := by
  have hcharges := charges_work h r
  rw [trace_of_crashes hf]
  refine ⟨fun tool ok ↦ sum_callWeight_work tool ok, ?_, ?_⟩
  · rw [hcharges.compilations, compiles_of_ne (by rw [hf.1]; decide)]
    rfl
  · rw [hcharges.points, outcome_work_eq_crash_iff.2 hf]

/-- The fault of a tool that is not that of a task is reported. -/
theorem exists_response_of_fault {e : ToolError} {f : Fault} (he : (h.work r).outcome = .error e)
    (hf : e.fault? = some f) : ∃ response, (h.handle freshId r).outcome = .ok response ∧
      response.error = "internal error: " ++ f.message := by
  have hnone (g : Fault) : ¬h.Crashes r g := by
    intro hg
    cases he.symm.trans (outcome_work_eq_crash_iff.2 hg)
    cases hf
  obtain ⟨response, hresponse⟩ := (exists_response_iff freshId).2 hnone
  refine ⟨response, hresponse, ?_⟩
  rw [((responds_of_outcome hresponse).error e he).2.2, ToolError.report, hf]

end Handler

theorem identifier_ne (bytes : List UInt8) : identifier bytes ≠ "" := by
  obtain ⟨front, back, h⟩ : ∃ front back, identifier bytes = front ++ "-" ++ back := ⟨_, _, rfl⟩
  simp [h]

/-! ## Sessions -/

/-- What a service was asked and what it answered, its counters, and the fault with which the process
ended, if it did. -/
structure Session where
  exchanges : List (Request × Response)
  counters : Counters
  ended : Option Fault

namespace Session

/-- Answers one more request, for which there are some random bytes, while the process lives. -/
def handle (h : Handler) (s : Session) (call : List UInt8 × Request) : Session :=
  match s.ended with
  | some _ => s
  | none =>
    let handled := h.handle (identifier call.1) call.2
    let counters := s.counters.recordAll handled.trace
    match handled.outcome with
    | .ok response => ⟨s.exchanges ++ [(call.2, response)], counters, none⟩
    | .error f => ⟨s.exchanges, counters, some f⟩

def run (h : Handler) (calls : List (List UInt8 × Request)) : Session :=
  calls.foldl (handle h) ⟨[], {}, none⟩

/-- The counters are those of the exchanges, and every response has an id and not both an error and
a result. -/
structure Balanced (s : Session) : Prop where
  identified : ∀ x ∈ s.exchanges, x.2.id ≠ ""
  exclusive : ∀ x ∈ s.exchanges, x.2.error ≠ "" → x.2.result = none ∧ x.2.text = ""
  toolCalls : ∀ tool ok, s.counters.toolCalls.count (tool, ok) =
    s.exchanges.countP fun x ↦ x.1.tool = tool ∧ x.2.error.isEmpty = ok
  points : s.counters.points =
    ((s.exchanges.filter fun x ↦ x.2.error.isEmpty).map fun x ↦ x.2.points x.1.tool).sum
  compilations : s.counters.compilations.total = s.exchanges.countP fun x ↦ x.1.compiles

variable {h : Handler} {s : Session} {call : List UInt8 × Request}

theorem run_append (h : Handler) (calls : List (List UInt8 × Request))
    (call : List UInt8 × Request) : run h (calls ++ [call]) = (run h calls).handle h call := by
  rw [run, List.foldl_append]
  rfl

/-- Nothing is answered after the end. -/
theorem handle_of_ended {f : Fault} (hs : s.ended = some f) (call : List UInt8 × Request) :
    s.handle h call = s := by
  simp only [handle, hs]

/-- A response is put behind the others. -/
theorem handle_of_ok {response : Response} (hs : s.ended = none)
    (hr : (h.handle (identifier call.1) call.2).outcome = .ok response) :
    s.handle h call = ⟨s.exchanges ++ [(call.2, response)],
      s.counters.recordAll (h.handle (identifier call.1) call.2).trace, none⟩ := by
  simp only [handle, hs, hr]

/-- A request that ends the process is the last. -/
theorem handle_of_crashes {f : Fault} (hs : s.ended = none) (hf : h.Crashes call.2 f) :
    s.handle h call = ⟨s.exchanges,
      s.counters.recordAll (h.handle (identifier call.1) call.2).trace, some f⟩ := by
  simp only [handle, hs, (Handler.outcome_handle_eq_error_iff _).2 hf]

/-- One more response keeps the balance. -/
theorem Balanced.append {response : Response} (hs : s.Balanced)
    (hr : (h.handle (identifier call.1) call.2).outcome = .ok response) :
    Balanced ⟨s.exchanges ++ [(call.2, response)],
      s.counters.recordAll (h.handle (identifier call.1) call.2).trace, none⟩ := by
  have hresponds := Handler.responds_of_outcome hr
  constructor
  case identified =>
    refine List.forall_mem_append.2 ⟨hs.identified, List.forall_mem_singleton.2 ?_⟩
    exact hresponds.id_ne (identifier_ne call.1)
  case exclusive =>
    refine List.forall_mem_append.2 ⟨hs.exclusive, List.forall_mem_singleton.2 ?_⟩
    exact hresponds.exclusive
  case toolCalls =>
    intro tool ok
    rw [Counters.toolCalls_recordAll, hs.toolCalls, hresponds.sum_callWeight, List.countP_append,
      List.countP_singleton]
    simp only [decide_eq_true_eq]
  case points =>
    rw [Counters.points_recordAll, hs.points, hresponds.sum_pointWeight, List.filter_append,
      List.map_append, List.sum_append, List.filter_singleton]
    cases response.error.isEmpty with
    | true => rfl
    | false => rfl
  case compilations =>
    rw [Counters.compilations_recordAll, hs.compilations, hresponds.sum_compilationWeight,
      List.countP_append, List.countP_singleton]
    cases call.2.compiles <;> rfl

/-- The end of the process keeps the balance. -/
theorem Balanced.end {f : Fault} (hs : s.Balanced) (hf : h.Crashes call.2 f) :
    Balanced ⟨s.exchanges,
      s.counters.recordAll (h.handle (identifier call.1) call.2).trace, some f⟩ := by
  obtain ⟨hcalls, hcompilations, hpoints⟩ := Handler.charges_of_crashes hf
  constructor
  case identified => exact hs.identified
  case exclusive => exact hs.exclusive
  case toolCalls =>
    intro tool ok
    rw [Counters.toolCalls_recordAll, hs.toolCalls, hcalls, Nat.add_zero]
  case points => rw [Counters.points_recordAll, hs.points, hpoints, Nat.add_zero]
  case compilations =>
    rw [Counters.compilations_recordAll, hs.compilations, hcompilations, Nat.add_zero]

/-- One more request keeps the balance. -/
theorem Balanced.handle (hs : s.Balanced) (call : List UInt8 × Request) :
    (s.handle h call).Balanced := by
  cases hended : s.ended with
  | some f =>
      rw [handle_of_ended hended]
      exact hs
  | none =>
      cases hr : (h.handle (identifier call.1) call.2).outcome with
      | ok response =>
          rw [handle_of_ok hended hr]
          exact hs.append hr
      | error f =>
          have hf := (Handler.outcome_handle_eq_error_iff _).1 hr
          rw [handle_of_crashes hended hf]
          exact hs.end hf

theorem balanced_empty : Balanced ⟨[], {}, none⟩ where
  identified := by simp
  exclusive := by simp
  toolCalls _ _ := rfl
  points := rfl
  compilations := rfl

/-- Along every run of calls the counters stay balanced. -/
theorem balanced_of_run (h : Handler) (calls : List (List UInt8 × Request)) :
    (run h calls).Balanced := by
  induction calls using List.reverseRecOn with
  | nil => exact balanced_empty
  | append_singleton calls call ih =>
      rw [run_append]
      exact ih.handle call

/-- As long as no request ends the process, every one has its response. -/
theorem run_of_not_crashes {calls : List (List UInt8 × Request)}
    (hcalls : ∀ c ∈ calls, ∀ f, ¬h.Crashes c.2 f) : (run h calls).ended = none ∧
      (run h calls).exchanges.map Prod.fst = calls.map Prod.snd := by
  induction calls using List.reverseRecOn with
  | nil => exact ⟨rfl, rfl⟩
  | append_singleton calls call ih =>
      obtain ⟨hbefore, hcall⟩ := List.forall_mem_append.1 hcalls
      obtain ⟨hended, hexchanges⟩ := ih hbefore
      obtain ⟨response, hr⟩ := (Handler.exists_response_iff (identifier call.1)).2
        (List.forall_mem_singleton.1 hcall)
      rw [run_append, handle_of_ok hended hr, List.map_append, List.map_append, hexchanges]
      exact ⟨rfl, rfl⟩

/-- With the first request that ends the process the session is over. -/
theorem run_of_crashes {before after : List (List UInt8 × Request)} {f : Fault}
    (hbefore : ∀ c ∈ before, ∀ g, ¬h.Crashes c.2 g) (hf : h.Crashes call.2 f) :
    (run h (before ++ call :: after)).ended = some f ∧
      (run h (before ++ call :: after)).exchanges.map Prod.fst = before.map Prod.snd := by
  obtain ⟨hended, hexchanges⟩ := run_of_not_crashes hbefore
  induction after using List.reverseRecOn with
  | nil =>
      rw [run_append, handle_of_crashes hended hf]
      exact ⟨rfl, hexchanges⟩
  | append_singleton after next ih =>
      rw [← List.cons_append, ← List.append_assoc, run_append, handle_of_ended ih.1]
      exact ih

/-- A request without a response that is free of an error leaves the points as they were. -/
theorem points_handle (hcall : ∀ response,
      (h.handle (identifier call.1) call.2).outcome = .ok response → response.error ≠ "") :
    (s.handle h call).counters.points = s.counters.points := by
  cases hended : s.ended with
  | some f => rw [handle_of_ended hended]
  | none =>
      cases hr : (h.handle (identifier call.1) call.2).outcome with
      | ok response =>
          rw [handle_of_ok hended hr, Counters.points_recordAll,
            (Handler.responds_of_outcome hr).sum_pointWeight,
            if_neg (by simpa using hcall response hr), Nat.add_zero]
      | error f =>
          have hf := (Handler.outcome_handle_eq_error_iff _).1 hr
          rw [handle_of_crashes hended hf, Counters.points_recordAll,
            (Handler.charges_of_crashes hf).2.2, Nat.add_zero]

/-- A request for the values of a symbol at given points. -/
def symbolRequest (points : Json) : Request where
  id := "r"
  tool := "lambdify"
  arguments := [("expr", .object [("type", .string "sym"), ("name", .string "x")]),
    ("points", points)]

/-- A request for a sample or a surface of the zeta function below one. -/
def zetaRequest (tool : String) : Request where
  id := "r"
  tool
  arguments := [
    ("expr", .object [("type", .string "func"), ("name", .string "zeta"),
      ("args", .array [.object [("type", .string "sym"), ("name", .string "x")]])]),
    ("lo", .number "0"), ("hi", .number "0.5"),
    ("x", .string "x"), ("y", .string "y"), ("samples", .number "2"),
    ("x_range", .array [.number "0", .number "0.5"]),
    ("y_range", .array [.number "0", .number "1"])]

end Session

end ExprCompiler.Service
