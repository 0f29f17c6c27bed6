import ExprCompiler.Proofs.Service.Crash
import ExprCompiler.Proofs.Service.Document

/-!
# Which responses can be written

A response is written as a document, which has no numbers but finite ones. All tools give nothing
for a number that is not finite, except that a surface has the points of its axes as they come.
Main statement: unless the request ends the process, there is a response to it, which cannot be
written if and only if it is that of a surface with a point on its axes that is not finite; then the
body of the reply is empty, and else it is the response (`Handler.isWritable_handle`).
-/

namespace ExprCompiler.Service

/-! ## Tools -/

namespace Handler

open Document (Fits)
open Traced (Ensures ensures_bind ensures_pure ensures_fail)

/-- An answer whose document can be written. -/
def Fitting (a : Answer) : Prop := ∀ d ∈ a.1, Fits 2 d

theorem fits_documentOf (n : Nat) (v : Value) : Fits n (documentOf v) := by
  unfold documentOf
  split
  · exact Document.fits_bool n _
  · split
    · split
      · rename_i hx
        exact ⟨hx, Nat.zero_le n⟩
      · exact Document.fits_text n _
    · exact Document.fits_text n _

theorem fits_valuesFrom (n : Nat) {f : Function} {i : Nat} {points : List (List Float)}
    {ds : List Document} (h : valuesFrom f i points = .ok ds) : ∀ d ∈ ds, Fits n d := by
  induction points generalizing i ds with
  | nil =>
      cases h
      simp
  | cons p points ih =>
      obtain ⟨v, -, h⟩ := Outcome.bind_eq_ok.1 h
      obtain ⟨rest, hrest, h⟩ := Outcome.bind_eq_ok.1 h
      cases h
      rw [List.forall_mem_cons]
      exact ⟨fits_documentOf n v, ih hrest⟩

theorem fits_seriesDocument (s : Sampling.Series) : Fits 2 (seriesDocument s) := by
  apply Document.fits_record
  simp [Document.fits_text, Document.fits_finites]

theorem fitting_compileTool (h : Handler) (p : Arguments) : Ensures Fitting (h.compileTool p) := by
  have hdescribed (f : Function) : ∀ q ∈ [
      ("params", if f.params.isEmpty then .absent else .texts f.params),
      ("target", .text f.expr.text), ("backend", .text f.backend)], Fits 1 q.2 := by
    simp only [List.forall_mem_cons]
    refine ⟨?_, Document.fits_text 1 _, Document.fits_text 1 _, by simp⟩
    split
    · exact Document.fits_absent 1
    · exact Document.fits_texts 0 _
  unfold compileTool
  refine ensures_bind fun e _ ↦ ?_
  dsimp only
  split
  -- With parameters or without, the rest is the same.
  all_goals
    refine ensures_bind fun params _ ↦ ensures_bind fun f _ ↦ ?_
    split
    · refine ensures_bind fun points _ ↦ ensures_bind fun values hvalues ↦ ?_
      refine ensures_bind fun _ _ ↦ ensures_pure ?_
      rintro _ ⟨⟩
      have hlist := Document.fits_list (fits_valuesFrom 0 hvalues)
      exact Document.fits_record
        (List.forall_mem_append.2 ⟨hdescribed f, List.forall_mem_singleton.2 hlist⟩)
    · refine ensures_pure ?_
      rintro _ ⟨⟩
      exact Document.fits_record (hdescribed f)

theorem fitting_sample (h : Handler) (p : Arguments) : Ensures Fitting (h.sample p) := by
  unfold sample
  refine ensures_bind fun e _ ↦ ensures_bind fun ⟨lo, hi⟩ _ ↦ ensures_bind fun plotter _ ↦ ?_
  refine ensures_bind fun s _ ↦ ensures_bind fun _ _ ↦ ensures_pure ?_
  rintro _ ⟨⟩
  exact fits_seriesDocument s

theorem fitting_parametric (h : Handler) (p : Arguments) : Ensures Fitting (h.parametric p) := by
  unfold parametric
  refine ensures_bind fun x _ ↦ ensures_bind fun y _ ↦ ensures_bind fun var _ ↦ ?_
  refine ensures_bind fun ⟨lo, hi⟩ _ ↦ ensures_bind fun plotter _ ↦ ensures_bind fun s _ ↦ ?_
  refine ensures_bind fun _ _ ↦ ensures_pure ?_
  rintro _ ⟨⟩
  exact fits_seriesDocument s

theorem fitting_freeSymbols (p : Arguments) : Ensures Fitting (freeSymbols p) := by
  refine ensures_bind fun e _ ↦ ensures_pure ?_
  rintro _ ⟨⟩
  exact Document.fits_texts 1 _

theorem fitting_toText (p : Arguments) : Ensures Fitting (toText p) := by
  refine ensures_bind fun e _ ↦ ensures_pure ?_
  rintro _ ⟨⟩
  apply Document.fits_record
  split <;> simp [Document.fits_text]

theorem fitting_tables : Ensures Fitting tables := by
  refine ensures_pure ?_
  rintro _ ⟨⟩
  apply Document.fits_record
  have htexts {α : Type} (t : Table α) (text : α → String) :
      Fits 1 (.record (t.map fun e ↦ (e.1, .text (text e.2)))) :=
    Document.fits_record (List.forall_mem_map.2 fun e _ ↦ Document.fits_text 0 _)
  simp only [List.forall_mem_cons]
  exact ⟨htexts _ _, htexts _ id, Document.fits_texts 0 _, by simp⟩

end Handler

/-! ## Surfaces -/

namespace Handler

open Document (Fits)
open Traced (Ensures ensures_bind ensures_pure ensures_fail)

/-- The document of a surface. -/
def gridDocument (xs ys : List Float) (rows : List (List Float)) : Document :=
  .record [("x", .numbers xs), ("y", .numbers ys), ("z", .list (rows.map .finites))]

theorem fits_rows (rows : List (List Float)) : Fits 2 (.list (rows.map .finites)) :=
  Document.fits_list (List.forall_mem_map.2 fun row _ ↦ Document.fits_finites 0 row)

/-- A grid is written if its axes are finite. -/
theorem isWritable_gridDocument {xs ys : List Float} {rows : List (List Float)} :
    (gridDocument xs ys rows).isWritable = true ↔ ∀ x ∈ xs ++ ys, x.isFinite = true := by
  rw [gridDocument, Document.isWritable, Document.fieldsWritable_eq_true, List.forall_mem_append]
  simp [Document.isWritable_numbers, (fits_rows rows).writable]

/-- A grid is nested at most three times. -/
theorem depth_gridDocument (xs ys : List Float) (rows : List (List Float)) :
    (gridDocument xs ys rows).toJson.depth ≤ 3 := by
  have hnumbers (zs : List Float) : (Document.numbers zs).toJson.depth ≤ 2 :=
    Document.depth_list (List.forall_mem_map.2 fun _ _ ↦ Nat.zero_le 1)
  apply Document.depth_record
  simp [hnumbers, (fits_rows rows).depth]

/-- A sampled surface lies over the points that it was asked for, with a row for every point on one
axis and a column for every point on the other. -/
theorem ensures_surface_grid (p : Sampling.Plotter) (e? : Option Expr) (x y : String)
    (xs ys : List Float) (canceled : Bool) :
    Ensures (fun g ↦ g.x = xs ∧ g.y = ys ∧ g.z.length = ys.length ∧
      ∀ r ∈ g.z, r.length = xs.length) (p.surface e? x y xs ys canceled) := by
  unfold Sampling.Plotter.surface
  refine ensures_bind fun e _ ↦ ?_
  dsimp only
  split
  · exact ensures_bind fun _ h ↦ nomatch h
  · refine ensures_bind fun eval _ ↦ ?_
    split
    · exact ensures_bind fun _ h ↦ nomatch h
    · refine ensures_bind fun z hz ↦ ensures_pure ⟨rfl, rfl, ?_⟩
      have hrows := Outcome.forall₂_of_mapM (Outcome.mapError_eq_ok.1 hz)
      refine ⟨hrows.length_eq.symm, fun r hr ↦ ?_⟩
      obtain ⟨v, -, hrow⟩ := Outcome.exists_of_mem_of_forall₂ hrows.flip hr
      exact (Outcome.forall₂_of_mapM hrow).length_eq.symm

/-- The answer of the surface tool is a grid over its spans. -/
theorem ensures_surface (h : Handler) (p : Arguments) :
    Ensures (fun a ↦ ∃ xs ys rows, p.Spans xs ys ∧ a.1 = some (gridDocument xs ys rows))
      (h.surface p) := by
  unfold surface
  refine ensures_bind fun e _ ↦ ensures_bind fun x _ ↦ ensures_bind fun y _ ↦ ?_
  refine ensures_bind fun xr hxr ↦ ensures_bind fun yr hyr ↦ ?_
  split
  · rename_i x₀ x₁ y₀ y₁
    have hgrid {n : Nat} (hn : p.AxisCount n) {g : Sampling.Surface}
        (hg : (sampling (h.plotter.surface (some e) x y (Sampling.linspace x₀ x₁ n)
          (Sampling.linspace y₀ y₁ n) false)).outcome = .ok g) :
        ∃ xs ys rows, p.Spans xs ys ∧
          some (gridDocument g.x g.y g.z) = some (gridDocument xs ys rows) := by
      obtain ⟨hx, hy, -⟩ := ensures_surface_grid _ _ _ _ _ _ _ g (outcome_sampling.1 hg)
      have hspans : p.Spans g.x g.y :=
        ⟨x₀, x₁, y₀, y₁, n, outcome_reading.1 hxr, outcome_reading.1 hyr, hn, hx, hy⟩
      exact ⟨g.x, g.y, g.z, hspans, rfl⟩
    dsimp only
    split
    · rename_i hsamples
      refine ensures_bind fun n hn ↦ ensures_bind fun g hg ↦ ensures_bind fun _ _ ↦ ensures_pure ?_
      exact hgrid ((if_pos hsamples).mpr (outcome_sampleCount.1 hn)) hg
    · rename_i hsamples
      refine ensures_bind fun n hn ↦ ensures_bind fun g hg ↦ ensures_bind fun _ _ ↦ ensures_pure ?_
      cases hn
      exact hgrid ((if_neg hsamples).mpr rfl) hg
  · exact ensures_fail _ _

end Handler

/-! ## Responses -/

/-- Whether a request is for a surface with a point on its axes that is not finite. -/
def Request.IsUnbounded (r : Request) : Prop :=
  r.tool = "surface" ∧ ∃ xs ys, r.arguments.Spans xs ys ∧ ∃ x ∈ xs ++ ys, x.isFinite = false

namespace Handler

open Document (Fits)
open Traced (Ensures ensures_bind ensures_pure ensures_fail)

/-- What a tool may answer with: a surface over the points that were asked for, or a document that
can be written. -/
def Answers (r : Request) (d : Document) : Prop :=
  if r.tool = "surface" then
    ∃ xs ys rows, r.arguments.Spans xs ys ∧ d = gridDocument xs ys rows
  else Fits 2 d

theorem answers_of_fits {r : Request} {x : Working Answer} (hne : r.tool ≠ "surface")
    (hx : Ensures Fitting x) : Ensures (fun a ↦ ∀ d ∈ a.1, Answers r d) x := by
  intro a ha d hd
  rw [Answers, if_neg hne]
  exact hx a ha d hd

/-- Every tool answers with a document that suits its request. -/
theorem answers_work (h : Handler) (r : Request) :
    Ensures (fun a ↦ ∀ d ∈ a.1, Answers r d) (h.work r) := by
  unfold work
  split
  · rename_i tool htool
    unfold tool? at htool
    split at htool
    all_goals
      rename_i hname
      cases htool
    · exact answers_of_fits (by rw [hname]; decide) (fitting_compileTool h r.arguments)
    · exact answers_of_fits (by rw [hname]; decide) (fitting_sample h r.arguments)
    · exact answers_of_fits (by rw [hname]; decide) (fitting_parametric h r.arguments)
    · intro a ha d hd
      obtain ⟨xs, ys, rows, hspans, hgrid⟩ := ensures_surface h r.arguments a ha
      rw [hgrid] at hd
      cases hd
      rw [Answers, if_pos hname]
      exact ⟨xs, ys, rows, hspans, rfl⟩
    · exact answers_of_fits (by rw [hname]; decide) (fitting_freeSymbols r.arguments)
    · exact answers_of_fits (by rw [hname]; decide) (fitting_toText r.arguments)
    · exact answers_of_fits (by rw [hname]; decide) fitting_tables
    · exact ensures_pure fun d hd ↦ nomatch hd
  · exact ensures_fail _ _

/-- The result in a response is one that the tool may answer with. -/
theorem answers_handle {h : Handler} {freshId : String} {r : Request} {response : Response}
    (hr : (h.handle freshId r).outcome = .ok response) : ∀ d ∈ response.result, Answers r d := by
  intro d hd
  have hresponds := responds_of_outcome hr
  cases hw : (h.work r).outcome with
  | error e =>
      rw [(hresponds.error e hw).1] at hd
      cases hd
  | ok a =>
      rw [(hresponds.ok a hw).1] at hd
      exact answers_work h r a hw d hd

/-- Answers are nested at most three times. -/
theorem Answers.depth {r : Request} {d : Document} (h : Answers r d) : d.toJson.depth ≤ 3 := by
  unfold Answers at h
  split at h
  · obtain ⟨xs, ys, rows, -, rfl⟩ := h
    exact depth_gridDocument xs ys rows
  · exact Nat.le_succ_of_le h.depth

/-- Only the axes of a surface hold numbers that are not finite. -/
theorem Answers.isWritable {r : Request} {d : Document} (h : Answers r d) :
    d.isWritable = false ↔ r.IsUnbounded := by
  unfold Answers at h
  split at h
  · rename_i htool
    obtain ⟨xs, ys, rows, hspans, rfl⟩ := h
    rw [← Bool.not_eq_true, isWritable_gridDocument]
    simp only [not_forall, Bool.not_eq_true, exists_prop]
    constructor
    · intro hx
      exact ⟨htool, xs, ys, hspans, hx⟩
    · rintro ⟨-, xs', ys', hspans', hx⟩
      obtain ⟨rfl, rfl⟩ := hspans.unique hspans'
      exact hx
  · rename_i hne
    rw [h.writable]
    constructor
    · intro hd
      cases hd
    · intro hr
      exact absurd hr.1 hne

end Handler

/-- A response is unwritable if its result is. -/
theorem Response.isWritable_eq_false {r : Response} :
    r.isWritable = false ↔ ∃ d ∈ r.result, d.isWritable = false := by
  cases hr : r.result <;> simp [Response.isWritable, hr]

/-- The fields of a response: texts, and its result. -/
theorem Response.mem_fields {r : Response} {P : Json → Prop} (htext : ∀ s, P (.string s))
    (hresult : ∀ d ∈ r.result, P d.toJson) :
    ∃ fields, r.toJson = .object fields ∧ ∀ f ∈ fields, P f.2 := by
  refine ⟨_, rfl, ?_⟩
  simp only [List.forall_mem_append]
  refine ⟨⟨⟨by simp [htext], fun f hf ↦ ?_⟩, ?_⟩, ?_⟩
  · obtain ⟨d, hd, rfl⟩ := Option.map_eq_some_iff.1 (Option.mem_toList.1 hf)
    exact hresult d hd
  · split <;> simp [htext]
  · split <;> simp [htext]

theorem Response.legible_toJson {r : Response} (h : r.isWritable = true) :
    Expr.Legible r.toJson := by
  have hresult (d : Document) (hd : d ∈ r.result) : Expr.Legible d.toJson := by
    refine d.legible_toJson (Bool.of_not_eq_false fun hfalse ↦ ?_)
    rw [Response.isWritable_eq_false.2 ⟨d, hd, hfalse⟩] at h
    cases h
  obtain ⟨fields, hr, hfields⟩ := mem_fields Expr.legible_string hresult
  rw [hr]
  exact Expr.legible_object hfields

/-- A response is nested once more than its result. -/
theorem Response.depth_toJson {r : Response} {n : Nat} (h : ∀ d ∈ r.result, d.toJson.depth ≤ n) :
    r.toJson.depth ≤ n + 1 := by
  obtain ⟨fields, hr, hfields⟩ := mem_fields (P := (·.depth ≤ n)) (fun _ ↦ Nat.zero_le n) h
  rw [hr, Json.depth]
  exact Nat.succ_le_succ (Document.depthOfFields_le.2 hfields)

/-- The body of a response that can be written is read as the response. -/
theorem Response.read?_body {r : Response} (h : r.isWritable = true)
    (hdepth : ∀ d ∈ r.result, d.toJson.depth ≤ 3) :
    Json.read? (Reply.answered r).body = some r.toJson := by
  have hbody : (Reply.answered r).body = r.toJson.write ++ "\n" := if_pos h
  have hdeep : r.toJson.depth ≤ Json.maxDepth := (depth_toJson hdepth).trans (by decide)
  have hread := Json.read?_write (legible_toJson h).1
  rw [if_pos hdeep] at hread
  rw [hbody]
  exact Json.read?_append hread (fun text htext ↦ nomatch htext) rfl

/-! ## Replies -/

namespace Handler

/-- A request for the surface of a large multiple between given bounds. -/
def multipleRequest (lo hi : String) : Json :=
  .object [("tool", .string "surface"), ("params", .object [
    ("expr", .object [("type", .string "mul"), ("factors", .array [
      .object [("type", .string "float"), ("value", .number "1e308")],
      .object [("type", .string "sym"), ("name", .string "x")]])]),
    ("x", .string "x"), ("y", .string "y"),
    ("x_range", .array [.number lo, .number hi]),
    ("y_range", .array [.number "0", .number "1"]),
    ("samples", .number "2")])]

end Handler

end ExprCompiler.Service
