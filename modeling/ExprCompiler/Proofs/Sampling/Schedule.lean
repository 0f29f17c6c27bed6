import ExprCompiler.Proofs.Outcome
import ExprCompiler.Sampling.Plotter

/-!
# Surfaces by schedule

The rows of a surface do not depend on each other, so each can be the task of a worker. A task that
starts after an error was reported gives up, any other evaluates its points from left to right and
writes its row or reports the first error that it meets, and of all reports the first counts. A
task that comes to a fault reports nothing: it ends the process, and all other tasks with it. A
schedule says whose turn it is, turn by turn. Main statements: whatever the schedule, when all tasks
have finished there is a surface if and only if no point fails for good, it is the surface of
`Plotter.surface`, and otherwise the error is that of a point and not that of a task that gave up
(`Plotter.surface_of_schedule`). If there are faults on the grid and no errors that fail for good,
every schedule ends the process, as `Plotter.surface` does (`Plotter.crash_of_schedule`).
-/

namespace ExprCompiler.Sampling

/-! ## Tasks -/

/-- How far the task of a row has come. -/
inductive Status where
  | waiting
  /-- The places that are left, and the values at the others. -/
  | running (left values : List Float)
  /-- The error that is to be reported. -/
  | failing (e : Failure)
  | finished

def Status.isFinished : Status → Bool
  | .finished => true
  | _ => false

/-- The task of a row: where the row lies, how far the task has come, and what stands in the row. -/
structure RowTask where
  y : Float
  status : Status
  written : List Float

/-- The tasks of all rows, the error that was reported first, and the fault that ended everything. -/
structure Rows where
  tasks : List RowTask
  error : Option Failure
  crash : Option Fault

/-- One turn of a task, and what it reports. A task that starts looks whether there was an error
before. -/
def RowTask.advance (eval : PointEvaluator) (xs : List Float) (failed : Bool) (t : RowTask) :
    RowTask × Option Failure :=
  match t.status with
  | .waiting =>
    ({ t with status := if failed then .failing (.plotting .canceled) else .running xs [] }, none)
  | .running (x :: left) values =>
    match point eval [x, t.y] with
    | .ok v => ({ t with status := .running left (values ++ [v]) }, none)
    | .error e => ({ t with status := .failing e }, none)
  | .running [] values => ({ t with status := .finished, written := values }, none)
  | .failing e => ({ t with status := .finished }, some e)
  | .finished => (t, none)

/-- The fault that a task came to. -/
def RowTask.fault? (t : RowTask) : Option Fault :=
  match t.status with
  | .failing (.fault f) => some f
  | _ => none

namespace Rows

/-- Before the first turn, with zeros in all rows. -/
def initial (xs ys : List Float) : Rows := 
  ⟨ys.map fun y ↦ ⟨y, .waiting, xs.map fun _ ↦ 0⟩, none, none⟩

/-- One turn of the task with this number, as long as no task came to a fault. -/
def advance (eval : PointEvaluator) (xs : List Float) (s : Rows) (i : Nat) : Rows :=
  match s.crash, s.tasks[i]? with
  | none, some t =>
    let (t', report) := t.advance eval xs s.error.isSome
    ⟨s.tasks.set i t', s.error.or report, t'.fault?⟩
  | _, _ => s

/-- The turns of a schedule, one after the other. -/
def run (eval : PointEvaluator) (xs : List Float) (s : Rows) (turns : List Nat) : Rows :=
  turns.foldl (advance eval xs) s

def allFinished (s : Rows) : Bool := s.tasks.all fun t ↦ t.status.isFinished

/-- The rows or the first error, once all tasks have finished. -/
def outcome? (s : Rows) : Option (Except Failure (List (List Float))) :=
  if s.crash.isNone && s.allFinished then
    some (match s.error with
      | some e => .error e
      | none => .ok (s.tasks.map RowTask.written))
  else none

end Rows

/-! ## What a turn preserves -/

variable {eval : PointEvaluator} {xs ys : List Float}

/-- A task agrees with its row: what it still has to do gives the row, what it is to report is the
error of the row, and what it wrote is the row; the latter two only as long as no error was
reported. -/
def RowTask.Agrees (eval : PointEvaluator) (xs : List Float) (failed : Bool) (t : RowTask) : Prop :=
  match t.status with
  | .waiting => True
  | .running left values =>
    row eval xs t.y = (left.mapM fun x ↦ point eval [x, t.y]).map (values ++ ·)
  | .failing e => failed = true ∨ row eval xs t.y = .error e
  | .finished => failed = true ∨ row eval xs t.y = .ok t.written

/-- All tasks agree with their rows, an error that was reported is that of a row and no fault, and a
fault that ended everything is that of a row. -/
structure Rows.Agree (eval : PointEvaluator) (xs ys : List Float) (s : Rows) : Prop where
  places : s.tasks.map RowTask.y = ys
  tasks : ∀ t ∈ s.tasks, t.Agrees eval xs s.error.isSome
  error : ∀ e, s.error = some e → (∃ y ∈ ys, row eval xs y = .error e) ∧ ∀ f, e ≠ .fault f
  running : s.crash = none → ∀ t ∈ s.tasks, t.fault? = none
  crash : ∀ f, s.crash = some f → ∃ y ∈ ys, row eval xs y = .error (.fault f)

namespace RowTask

variable {failed : Bool} {t : RowTask}

theorem Agrees.mono (h : t.Agrees eval xs failed) (report : Option Failure) :
    t.Agrees eval xs (failed || report.isSome) := by
  unfold Agrees at h ⊢
  cases hstatus : t.status with
  | waiting => trivial
  | running left values => simpa only [hstatus] using h
  | failing e | finished =>
      simp only [hstatus] at h ⊢
      exact h.imp_left fun hfailed ↦ by simp [hfailed]

/-- A finished task that saw no failure has written its row. -/
theorem Agrees.row_eq (h : t.Agrees eval xs false) (hfinished : t.status.isFinished = true) :
    row eval xs t.y = .ok t.written := by
  obtain ⟨y, status, written⟩ := t
  cases status with
  | finished => exact h.resolve_left Bool.false_ne_true
  | _ => cases hfinished

theorem advance_y : (t.advance eval xs failed).1.y = t.y := by
  unfold advance
  cases t.status with
  | running left values =>
      cases left with
      | nil => rfl
      | cons x left =>
          simp only
          split <;> rfl
  | _ => rfl

/-- A turn keeps a task in agreement with its row, and an error that it reports is that of the row
or comes after another. -/
theorem Agrees.advance (h : t.Agrees eval xs failed) :
    (t.advance eval xs failed).1.Agrees eval xs (failed || (t.advance eval xs failed).2.isSome) ∧
      ∀ e, (t.advance eval xs failed).2 = some e →
        failed = true ∨ row eval xs t.y = .error e := by
  obtain ⟨y, status, written⟩ := t
  cases status with
  | waiting =>
      refine ⟨?_, fun e he ↦ by cases he⟩
      -- A task gives up only after an error, and otherwise has the whole row left.
      cases failed with
      | true => exact .inl rfl
      | false => exact (Except.map_id ▸ rfl : row eval xs y = (row eval xs y).map ([] ++ ·))
  | running left values =>
      cases left with
      | nil =>
          refine ⟨.inr ?_, fun e he ↦ by cases he⟩
          have hrow : row eval xs y = .ok (values ++ []) := h
          rw [List.append_nil] at hrow
          exact hrow
      | cons x left =>
          have hrow : row eval xs y =
              ((x :: left).mapM fun x ↦ point eval [x, y]).map (values ++ ·) := h
          rw [List.mapM_cons] at hrow
          simp only [RowTask.advance]
          cases hpoint : point eval [x, y] with
          | error e =>
              refine ⟨.inr ?_, fun e he ↦ by cases he⟩
              rw [hpoint] at hrow
              exact hrow
          | ok v =>
              refine ⟨?_, fun e he ↦ by cases he⟩
              show row eval xs y = (left.mapM fun x ↦ point eval [x, y]).map (values ++ [v] ++ ·)
              rw [hrow, hpoint]
              cases left.mapM fun x ↦ point eval [x, y] with
              | error e => rfl
              | ok vs => simp [Except.map]
  | failing e =>
      -- After the report there is an error, so nothing is asked of the row any more.
      refine ⟨.inl (by simp [RowTask.advance]), fun e' he ↦ ?_⟩
      cases he
      exact h
  | finished => exact ⟨h.mono none, fun e he ↦ by cases he⟩

/-- What a task reports is what it was to report, which is no fault before it came to one. -/
theorem advance_report {e : Failure} (h : (t.advance eval xs failed).2 = some e)
    (hrunning : t.fault? = none) (f : Fault) : e ≠ .fault f := by
  obtain ⟨y, status, written⟩ := t
  cases status with
  | failing e' =>
      cases h
      rintro rfl
      cases hrunning
  | running left values =>
      cases left with
      | nil => cases h
      | cons x left =>
          simp only [advance] at h
          split at h <;> cases h
  | _ => cases h

/-- A task comes to a fault at a point of its row. -/
theorem Agrees.row_of_fault {f : Fault} (h : t.Agrees eval xs failed) (hrunning : t.fault? = none)
    (hf : (t.advance eval xs failed).1.fault? = some f) : row eval xs t.y = .error (.fault f) := by
  obtain ⟨y, status, written⟩ := t
  cases status with
  | waiting => cases failed <;> cases hf
  | running left values =>
      cases left with
      | nil => cases hf
      | cons x left =>
          have hrow : row eval xs y =
              ((x :: left).mapM fun x ↦ point eval [x, y]).map (values ++ ·) := h
          rw [List.mapM_cons] at hrow
          simp only [RowTask.advance] at hf
          cases hpoint : point eval [x, y] with
          | ok v =>
              rw [hpoint] at hf
              cases hf
          | error e =>
              rw [hpoint] at hf hrow
              cases e with
              | fault g =>
                  cases hf
                  exact hrow
              | _ => cases hf
  | failing e => cases hf
  | finished => cases hf

end RowTask

namespace Rows

variable {s : Rows}

/-- Before the first turn the tasks agree with their rows. -/
theorem agree_initial (eval : PointEvaluator) (xs ys : List Float) :
    (initial xs ys).Agree eval xs ys := by
  have hwaiting : ∀ t ∈ (initial xs ys).tasks, t.status = .waiting := by
    intro t ht
    obtain ⟨y, -, rfl⟩ := List.mem_map.1 ht
    rfl
  constructor
  case places =>
    rw [initial, List.map_map]
    exact List.map_id ys
  case tasks =>
    intro t ht
    simp [RowTask.Agrees, hwaiting t ht]
  case error =>
    intro e he
    cases he
  case running =>
    intro _ t ht
    simp [RowTask.fault?, hwaiting t ht]
  case crash =>
    intro f hf
    cases hf

/-- A turn of a task changes this task only, and keeps the first error. -/
theorem advance_of_some {i : Nat} {t : RowTask} (hcrash : s.crash = none)
    (ht : s.tasks[i]? = some t) :
    s.advance eval xs i = ⟨s.tasks.set i (t.advance eval xs s.error.isSome).1,
      s.error.or (t.advance eval xs s.error.isSome).2,
      (t.advance eval xs s.error.isSome).1.fault?⟩ := by
  rw [advance, hcrash, ht]

theorem advance_of_none {i : Nat} (ht : s.tasks[i]? = none) : s.advance eval xs i = s := by
  cases hcrash : s.crash <;> simp [advance, hcrash, ht]

/-- After a fault there are no more turns. -/
theorem advance_of_crash {f : Fault} (hcrash : s.crash = some f) (i : Nat) :
    s.advance eval xs i = s := by
  rw [advance, hcrash]

/-- A turn of any task keeps all of them in agreement with their rows. -/
theorem Agree.advance (h : s.Agree eval xs ys) (i : Nat) :
    (s.advance eval xs i).Agree eval xs ys := by
  cases hcrash : s.crash with
  | some f =>
      rw [advance_of_crash hcrash]
      exact h
  | none =>
  cases ht : s.tasks[i]? with
  | none =>
      rw [advance_of_none ht]
      exact h
  | some t =>
      have hmem := List.mem_of_getElem? ht
      have hplace : t.y ∈ ys := h.places ▸ List.mem_map.2 ⟨t, hmem, rfl⟩
      have hrunning := h.running hcrash
      obtain ⟨hturn, hreport⟩ := (h.tasks t hmem).advance
      rw [advance_of_some hcrash ht]
      refine ⟨?_, ?_, ?_, ?_, ?_⟩
      · obtain ⟨hi, hget⟩ := List.getElem?_eq_some_iff.1 ht
        have hi' : i < (s.tasks.map RowTask.y).length := by simpa using hi
        have hplace : t.y = (s.tasks.map RowTask.y)[i] := by rw [List.getElem_map, hget]
        rw [List.map_set, RowTask.advance_y, hplace, List.set_getElem_self, h.places]
      · intro t' ht'
        rw [Option.isSome_or]
        rcases List.mem_or_eq_of_mem_set ht' with ht' | rfl
        · exact (h.tasks t' ht').mono _
        · exact hturn
      · intro e he
        rcases Option.or_eq_some_iff.1 he with he | ⟨hnone, he⟩
        · exact h.error e he
        · rcases hreport e he with hfailed | hrow
          · rw [hnone] at hfailed
            cases hfailed
          · exact ⟨⟨t.y, hplace, hrow⟩, RowTask.advance_report he (hrunning t hmem)⟩
      · intro hnone t' ht'
        rcases List.mem_or_eq_of_mem_set ht' with ht' | rfl
        · exact hrunning t' ht'
        · exact hnone
      · intro f hf
        exact ⟨t.y, hplace, (h.tasks t hmem).row_of_fault (hrunning t hmem) hf⟩

/-- Every schedule keeps the tasks in agreement with their rows. -/
theorem Agree.run (h : s.Agree eval xs ys) (turns : List Nat) :
    (s.run eval xs turns).Agree eval xs ys := by
  induction turns generalizing s with
  | nil => exact h
  | cons i turns ih => exact ih (h.advance i)

end Rows

/-! ## How many turns there are -/

/-- How many turns a task takes at most until it has finished. -/
def RowTask.turnsLeft (columns : Nat) (t : RowTask) : Nat :=
  match t.status with
  | .waiting => columns + 3
  | .running left _ => left.length + 2
  | .failing _ => 1
  | .finished => 0

theorem RowTask.isFinished_of_turnsLeft {t : RowTask} {columns : Nat}
    (h : t.turnsLeft columns = 0) : t.status.isFinished = true := by
  unfold turnsLeft at h
  cases hstatus : t.status with
  | finished => rfl
  | _ => simp [hstatus] at h

/-- A turn brings a task nearer to its end. -/
theorem RowTask.turnsLeft_advance (t : RowTask) (failed : Bool) :
    (t.advance eval xs failed).1.turnsLeft xs.length ≤ t.turnsLeft xs.length - 1 := by
  obtain ⟨y, status, written⟩ := t
  cases status with
  | waiting => cases failed <;> simp [advance, turnsLeft]
  | running left values =>
      cases left with
      | nil => simp [advance, turnsLeft]
      | cons x left =>
          simp only [advance]
          cases point eval [x, y] <;> simp [turnsLeft]
  | failing e | finished => simp [advance, turnsLeft]

namespace Rows

variable {s : Rows}

/-- Nothing happens in a run after a fault. -/
theorem run_of_crash {f : Fault} (hcrash : s.crash = some f) (turns : List Nat) :
    s.run eval xs turns = s := by
  induction turns with
  | nil => rfl
  | cons i turns ih =>
      show (s.advance eval xs i).run eval xs turns = s
      rw [advance_of_crash hcrash, ih]

/-- A turn of a task is one that it does not take any more. -/
theorem exists_turnsLeft_advance (eval : PointEvaluator) (xs : List Float) {i : Nat} {t : RowTask}
    (hcrash : s.crash = none) (ht : s.tasks[i]? = some t) (j : Nat) :
    ∃ t', (s.advance eval xs j).tasks[i]? = some t' ∧
      t'.turnsLeft xs.length ≤ t.turnsLeft xs.length - if j = i then 1 else 0 := by
  by_cases hj : j = i
  · subst hj
    obtain ⟨hi, -⟩ := List.getElem?_eq_some_iff.1 ht
    refine ⟨(t.advance eval xs s.error.isSome).1, ?_, ?_⟩
    · rw [advance_of_some hcrash ht]
      exact List.getElem?_set_self hi
    · rw [if_pos rfl]
      exact t.turnsLeft_advance _
  · refine ⟨t, ?_, by simp [hj]⟩
    cases hother : s.tasks[j]? with
    | none => rw [advance_of_none hother, ht]
    | some u =>
        rw [advance_of_some hcrash hother]
        exact (List.getElem?_set_ne hj).trans ht

/-- As many turns as a schedule has for a task are behind it, if there was no fault. -/
theorem exists_turnsLeft_run {eval : PointEvaluator} {xs : List Float} {i : Nat} {t : RowTask}
    {turns : List Nat} (hcrash : (s.run eval xs turns).crash = none) (ht : s.tasks[i]? = some t) :
    ∃ t', (s.run eval xs turns).tasks[i]? = some t' ∧
      t'.turnsLeft xs.length ≤ t.turnsLeft xs.length - turns.count i := by
  induction turns generalizing s t with
  | nil => exact ⟨t, ht, Nat.le_refl _⟩
  | cons j turns ih =>
      have hbefore : s.crash = none := by
        cases hs : s.crash with
        | none => rfl
        | some f => rw [run_of_crash hs, hs] at hcrash; cases hcrash
      obtain ⟨t₁, ht₁, hle₁⟩ := exists_turnsLeft_advance eval xs hbefore ht j
      obtain ⟨t₂, ht₂, hle₂⟩ := ih hcrash ht₁
      refine ⟨t₂, ht₂, Nat.le_trans hle₂ ?_⟩
      rw [List.count_cons]
      simp only [beq_iff_eq]
      omega

/-- A schedule that lets every task have its turns lets all of them finish, if there is no fault. -/
theorem exists_outcome?_run {turns : List Nat}
    (hcrash : ((initial xs ys).run eval xs turns).crash = none)
    (h : ∀ i < ys.length, xs.length + 3 ≤ turns.count i) :
    ∃ r, ((initial xs ys).run eval xs turns).outcome? = some r := by
  have hplaces := ((agree_initial eval xs ys).run turns).places
  have hfinished : ((initial xs ys).run eval xs turns).allFinished = true := by
    refine List.all_eq_true.2 fun t ht ↦ ?_
    obtain ⟨i, hi⟩ := List.mem_iff_getElem?.1 ht
    have hy : ys[i]? = some t.y := by rw [← hplaces, List.getElem?_map, hi, Option.map_some]
    obtain ⟨hlt, -⟩ := List.getElem?_eq_some_iff.1 hy
    have hinitial : (initial xs ys).tasks[i]? = some ⟨t.y, .waiting, xs.map fun _ ↦ 0⟩ := by
      rw [initial, List.getElem?_map, hy, Option.map_some]
    obtain ⟨t', ht', hle⟩ := exists_turnsLeft_run hcrash hinitial
    cases hi.symm.trans ht'
    have hzero : xs.length + 3 - turns.count i = 0 := Nat.sub_eq_zero_of_le (h i hlt)
    exact RowTask.isFinished_of_turnsLeft (Nat.le_zero.1 (hzero ▸ hle))
  exact ⟨_, if_pos (by rw [hcrash, hfinished]; rfl)⟩

/-! ## What comes out -/

/-- There is an outcome once all tasks are finished: the first error, or the rows. -/
theorem allFinished_of_outcome? {r : Except Failure (List (List Float))}
    (h : s.outcome? = some r) :
    s.allFinished = true ∧ r = (match s.error with
      | some e => .error e
      | none => .ok (s.tasks.map RowTask.written)) := by
  unfold outcome? at h
  split at h
  · rename_i hdone
    exact ⟨(Bool.and_eq_true_iff.1 hdone).2, (Option.some.inj h).symm⟩
  · cases h

/-- The rows that come out are those of a pass through all rows in order. -/
theorem Agree.mapM_row {z : List (List Float)} (h : s.Agree eval xs ys)
    (hz : s.outcome? = some (.ok z)) : ys.mapM (row eval xs) = .ok z := by
  obtain ⟨hfinished, hz⟩ := allFinished_of_outcome? hz
  cases herror : s.error with
  | some e =>
      rw [herror] at hz
      cases hz
  | none =>
      rw [herror] at hz
      cases hz
      rw [← h.places, List.mapM_map]
      refine Outcome.mapM_eq_ok fun t ht ↦ ?_
      have hagrees := h.tasks t ht
      rw [herror] at hagrees
      exact hagrees.row_eq (List.all_eq_true.1 hfinished t ht)

/-- An error that comes out is that of a row, and no fault. -/
theorem Agree.exists_row_error {e : Failure} (h : s.Agree eval xs ys)
    (he : s.outcome? = some (.error e)) :
    (∃ y ∈ ys, row eval xs y = .error e) ∧ ∀ f, e ≠ .fault f := by
  obtain ⟨-, he⟩ := allFinished_of_outcome? he
  cases herror : s.error with
  | some e' =>
      rw [herror] at he
      cases he
      exact h.error _ herror
  | none =>
      rw [herror] at he
      cases he

end Rows

/-! ## Points -/

/-- A failure that has nothing to do with the point. -/
inductive Recurring : Failure → Prop
  | arity (want got : Nat) : Recurring (.arity want got)
  | unbound (name : String) : Recurring (.unbound name)

/-- The value at a point, which is NaN where evaluation fails. -/
def valueAt (eval : PointEvaluator) (args : List Float) : Float :=
  match eval args with
  | .ok y => y
  | .error _ => Elementary.nan

/-- Fatal failures are the recurring ones and the faults. -/
theorem isFatal_iff {e : Failure} : isFatal e = true ↔ Recurring e ∨ ∃ f, e = .fault f := by
  constructor
  · intro h
    cases e with
    | arity want got => exact .inl (.arity want got)
    | unbound name => exact .inl (.unbound name)
    | fault f => exact .inr ⟨f, rfl⟩
    | _ => cases h
  · rintro (h | ⟨f, rfl⟩)
    · cases h <;> rfl
    · rfl

/-- A point fails on a fatal failure of the evaluator only. -/
theorem point_eq_error_iff {args : List Float} {e : Failure} :
    point eval args = .error e ↔ eval args = .error e ∧ isFatal e = true := by
  unfold point
  cases eval args with
  | ok y => simp
  | error e' =>
      cases hfatal : isFatal e' with
      | true =>
          simp only [hfatal, if_true, Except.error.injEq, iff_self_and]
          rintro rfl
          exact hfatal
      | false =>
          simp only [hfatal, Bool.false_eq_true, if_false, reduceCtorEq, false_iff,
            Except.error.injEq, not_and, Bool.not_eq_true]
          rintro rfl
          exact hfatal

theorem point_eq_valueAt {args : List Float} (h : ∀ e, eval args = .error e → isFatal e = false) :
    point eval args = .ok (valueAt eval args) := by
  unfold point valueAt
  cases heval : eval args with
  | ok y => rfl
  | error e => simp [h e heval]

/-- Whether evaluation at a point lets those after it have their turn: it does not fail for good. -/
def Passes (eval : PointEvaluator) (args : List Float) : Prop :=
  ∀ e, eval args = .error e → isFatal e = false

theorem exists_point_iff {args : List Float} : (∃ v, point eval args = .ok v) ↔ Passes eval args := by
  constructor
  · rintro ⟨v, hv⟩ e he
    cases hfatal : isFatal e with
    | false => rfl
    | true => cases hv.symm.trans (point_eq_error_iff.2 ⟨he, hfatal⟩)
  · intro h
    exact ⟨_, point_eq_valueAt h⟩

/-- How the first point of a grid that fails for good, row by row and from left to right, fails. -/
def FailsFirst (eval : PointEvaluator) (xs ys : List Float) (e : Failure) : Prop :=
  ∃ us u us' vs v vs', xs = us ++ u :: us' ∧ ys = vs ++ v :: vs' ∧
    eval [u, v] = .error e ∧ isFatal e = true ∧
    (∀ b ∈ vs, ∀ a ∈ xs, Passes eval [a, b]) ∧ ∀ a ∈ us, Passes eval [a, v]

theorem FailsFirst.ne_nil {e : Failure} (h : FailsFirst eval xs ys e) : xs ≠ [] ∧ ys ≠ [] := by
  obtain ⟨us, u, us', vs, v, vs', rfl, rfl, -⟩ := h
  exact ⟨by simp, by simp⟩

/-- The rows in order fail as the first point that fails for good. -/
theorem mapM_row_eq_error_iff {e : Failure} :
    ys.mapM (row eval xs) = .error e ↔ FailsFirst eval xs ys e := by
  have hrow (b : Float) : (∃ r, row eval xs b = .ok r) ↔ ∀ a ∈ xs, Passes eval [a, b] := by
    simp only [row, Outcome.exists_mapM_iff, exists_point_iff]
  rw [Outcome.mapM_eq_error_iff]
  simp only [row, Outcome.mapM_eq_error_iff, point_eq_error_iff, exists_point_iff]
  constructor
  · rintro ⟨vs, v, vs', rfl, ⟨us, u, us', rfl, ⟨he, hfatal⟩, hleft⟩, hbefore⟩
    exact ⟨us, u, us', vs, v, vs', rfl, rfl, he, hfatal, fun b hb ↦ (hrow b).1 (hbefore b hb),
      hleft⟩
  · rintro ⟨us, u, us', vs, v, vs', rfl, rfl, he, hfatal, hbefore, hleft⟩
    exact ⟨vs, v, vs', rfl, ⟨us, u, us', rfl, ⟨he, hfatal⟩, hleft⟩,
      fun b hb ↦ (hrow b).2 (hbefore b hb)⟩

/-- A row fails with a fatal failure at one of its points. -/
theorem exists_of_row_error {y : Float} {e : Failure} (h : row eval xs y = .error e) :
    ∃ x ∈ xs, eval [x, y] = .error e ∧ isFatal e = true := by
  obtain ⟨i, x, hi, hx, -⟩ := Outcome.exists_of_mapM_error h
  exact ⟨x, List.mem_of_getElem? hi, point_eq_error_iff.1 hx⟩

/-- The rows if nothing on the grid fails for good. -/
theorem mapM_row_eq
    (h : ∀ u ∈ xs, ∀ v ∈ ys, ∀ e, eval [u, v] = .error e → isFatal e = false) :
    ys.mapM (row eval xs) = .ok (ys.map fun v ↦ xs.map fun u ↦ valueAt eval [u, v]) := by
  refine Outcome.mapM_eq_ok fun v hv ↦ ?_
  exact Outcome.mapM_eq_ok fun u hu ↦ point_eq_valueAt (h u hu v hv)

/-- Nothing on the grid fails for good if there are rows. -/
theorem isFatal_of_mapM_row {z : List (List Float)} {u v : Float} {e : Failure}
    (h : ys.mapM (row eval xs) = .ok z) (hu : u ∈ xs) (hv : v ∈ ys)
    (he : eval [u, v] = .error e) : isFatal e = false := by
  obtain ⟨r, -, hr⟩ := Outcome.exists_of_mem_of_mapM h hv
  obtain ⟨w, -, hw⟩ := Outcome.exists_of_mem_of_mapM hr hu
  cases hfatal : isFatal e with
  | false => rfl
  | true => cases hw.symm.trans (point_eq_error_iff.2 ⟨he, hfatal⟩)

theorem not_recurring_of_mapM_row {z : List (List Float)} {u v : Float} {e : Failure}
    (h : ys.mapM (row eval xs) = .ok z) (hu : u ∈ xs) (hv : v ∈ ys)
    (he : eval [u, v] = .error e) : ¬Recurring e := by
  intro hrecurring
  cases (isFatal_of_mapM_row h hu hv he).symm.trans (isFatal_iff.2 (.inl hrecurring))

/-- An error that comes out is that of a point, and would come again at others. -/
theorem Rows.Agree.exists_recurring {s : Rows} {e : Failure} (h : s.Agree eval xs ys)
    (he : s.outcome? = some (.error e)) :
    ∃ u ∈ xs, ∃ v ∈ ys, eval [u, v] = .error e ∧ Recurring e := by
  obtain ⟨⟨v, hv, hrow⟩, hne⟩ := h.exists_row_error he
  obtain ⟨u, hu, heval, hfatal⟩ := exists_of_row_error hrow
  rcases isFatal_iff.1 hfatal with hrecurring | ⟨f, rfl⟩
  · exact ⟨u, hu, v, hv, heval, hrecurring⟩
  · exact absurd rfl (hne f)

/-- A fault that ended everything is that of a point. -/
theorem Rows.Agree.exists_fault {s : Rows} {f : Fault} (h : s.Agree eval xs ys)
    (hf : s.crash = some f) : ∃ u ∈ xs, ∃ v ∈ ys, eval [u, v] = .error (.fault f) := by
  obtain ⟨v, hv, hrow⟩ := h.crash f hf
  obtain ⟨u, hu, heval, -⟩ := exists_of_row_error hrow
  exact ⟨u, hu, v, hv, heval⟩

/-- A surface is made of the rows in order. -/
theorem Plotter.outcome_surface {p : Plotter} {e : Expr} {x y : String}
    (heval : (p.evaluator e [x, y]).outcome = .ok eval) (hxs : xs ≠ []) (hys : ys ≠ []) :
    (p.surface (some e) x y xs ys false).outcome =
      ((ys.mapM (row eval xs)).mapError .ofTask).map fun z ↦ ⟨e.render, xs, ys, z⟩ := by
  have hgrid : (xs.isEmpty || ys.isEmpty) = false := by simp [hxs, hys]
  rw [surface, required, Traced.bind_of_ok rfl]
  simp only [hgrid, Bool.false_eq_true, if_false]
  rw [Traced.bind_of_ok heval]
  cases ys.mapM (row eval xs) <;> rfl

/-- An evaluator is found by no task of its own. -/
theorem Plotter.avoids_evaluator (p : Plotter) (e : Expr) (params : List String) :
    Traced.Avoids Halt.crash (p.evaluator e params) := by
  intro f hf
  unfold evaluator at hf
  split at hf
  · cases hf
  · rcases Traced.outcome_bind_eq_error.1 hf with hf | ⟨-, -, hf⟩
    · cases hf
    · split at hf <;> cases hf

/-- A surface ends the process if and only if the first point that fails for good comes to a
fault. -/
theorem Plotter.outcome_surface_eq_crash_iff {p : Plotter} {e : Expr} {x y : String} {f : Fault} :
    (p.surface (some e) x y xs ys false).outcome = .error (.crash f) ↔
      ∃ eval, (p.evaluator e [x, y]).outcome = .ok eval ∧ FailsFirst eval xs ys (.fault f) := by
  by_cases hgrid : xs = [] ∨ ys = []
  · refine iff_of_false (fun h ↦ ?_) ?_
    · have hempty : (xs.isEmpty || ys.isEmpty) = true := by simpa using hgrid
      rw [surface, required, Traced.bind_of_ok rfl] at h
      simp only [hempty, if_true] at h
      cases h
    · rintro ⟨eval, -, hfirst⟩
      exact hgrid.elim hfirst.ne_nil.1 hfirst.ne_nil.2
  obtain ⟨hxs, hys⟩ := not_or.1 hgrid
  cases heval : (p.evaluator e [x, y]).outcome with
  | error halt =>
      refine iff_of_false (fun h ↦ ?_) (by simp)
      have hgrid : (xs.isEmpty || ys.isEmpty) = false := by simp [hxs, hys]
      rw [surface, required, Traced.bind_of_ok rfl] at h
      simp only [hgrid, Bool.false_eq_true, if_false] at h
      rw [Traced.bind_of_error heval] at h
      cases h
      exact p.avoids_evaluator e [x, y] f heval
  | ok eval =>
      simp only [outcome_surface heval hxs hys, Except.ok.injEq, exists_eq_left',
        ← mapM_row_eq_error_iff]
      cases ys.mapM (row eval xs) with
      | ok z => simp [Except.mapError, Except.map]
      | error err => cases err <;> simp [Except.mapError, Except.map, Halt.ofTask]

/-- Whatever the schedule, once all rows have finished there is a surface if and only if no point
fails for good. It then holds the values at all points, as the surface that is sampled in order
does. Otherwise the error is that of a point and fails it for good; it is never that of a row that
gave up. Every schedule in which no row lacks turns comes to an end. -/
theorem Plotter.surface_of_schedule (p : Plotter) (e : Expr) (x y : String) (xs ys : List Float)
    (hxs : xs ≠ []) (hys : ys ≠ []) (eval : PointEvaluator)
    (heval : (p.evaluator e [x, y]).outcome = .ok eval)
    (hfault : ∀ u ∈ xs, ∀ v ∈ ys, ∀ f, eval [u, v] ≠ .error (.fault f)) (turns : List Nat) :
    ((∀ i < ys.length, xs.length + 3 ≤ turns.count i) →
      ∃ r, ((Rows.initial xs ys).run eval xs turns).outcome? = some r) ∧
    ∀ r, ((Rows.initial xs ys).run eval xs turns).outcome? = some r →
      ((∃ z, r = .ok z) ↔
        ∀ u ∈ xs, ∀ v ∈ ys, ∀ err, eval [u, v] = .error err → ¬Recurring err) ∧
      (∀ z, r = .ok z → z = (ys.map fun v ↦ xs.map fun u ↦ valueAt eval [u, v]) ∧
        (p.surface (some e) x y xs ys false).outcome = .ok ⟨e.render, xs, ys, z⟩) ∧
      ∀ err, r = .error err →
        (∃ u ∈ xs, ∃ v ∈ ys, eval [u, v] = .error err) ∧ Recurring err ∧
          err ≠ .plotting .canceled ∧
          ∃ err', (p.surface (some e) x y xs ys false).outcome = .error err' := by
  have hagree := (Rows.agree_initial eval xs ys).run turns
  have hcrash : ((Rows.initial xs ys).run eval xs turns).crash = none := by
    refine Option.eq_none_iff_forall_ne_some.2 fun f hf ↦ ?_
    obtain ⟨u, hu, v, hv, hpoint⟩ := hagree.exists_fault hf
    exact hfault u hu v hv f hpoint
  refine ⟨Rows.exists_outcome?_run hcrash, fun r hr ↦ ?_⟩
  refine ⟨⟨?_, fun hpoints ↦ ?_⟩, ?_, ?_⟩
  · rintro ⟨z, rfl⟩ u hu v hv err
    exact not_recurring_of_mapM_row (hagree.mapM_row hr) hu hv
  · cases r with
    | ok z => exact ⟨z, rfl⟩
    | error err =>
        obtain ⟨u, hu, v, hv, hpoint, hrecurring⟩ := hagree.exists_recurring hr
        exact absurd hrecurring (hpoints u hu v hv err hpoint)
  · rintro z rfl
    have hrows := hagree.mapM_row hr
    constructor
    · have hvalues := mapM_row_eq fun u hu v hv err ↦ isFatal_of_mapM_row hrows hu hv
      exact Except.ok.inj (hrows.symm.trans hvalues)
    · rw [outcome_surface heval hxs hys, hrows]
      rfl
  · rintro err rfl
    obtain ⟨u, hu, v, hv, hpoint, hrecurring⟩ := hagree.exists_recurring hr
    refine ⟨⟨u, hu, v, hv, hpoint⟩, hrecurring, ?_, ?_⟩
    · rintro rfl
      cases hrecurring
    · rw [outcome_surface heval hxs hys]
      cases hrows : ys.mapM (row eval xs) with
      | error err' => exact ⟨.ofTask err', rfl⟩
      | ok z => exact absurd hrecurring (not_recurring_of_mapM_row hrows hu hv hpoint)

/-- The second row fails before the first one starts, which then gives up. -/
theorem Plotter.surface_of_schedule_probe :
    let p : Plotter :=
      { options := Options.withRegistry {} [("probe", some fun _ ↦ .error (.unbound "w"))] }
    let e : Expr := .func "probe" [.sym "x", .sym "y"]
    ∃ eval, (p.evaluator e ["x", "y"]).outcome = .ok eval ∧
      ((Rows.initial [0, 1] [2, 3]).run eval [0, 1] [1, 1, 1, 0, 0]).outcome? =
        some (.error (.unbound "w")) ∧
      (∃ u ∈ [0, 1], ∃ v ∈ [2, 3], eval [u, v] = .error (.unbound "w")) ∧
      ∃ err, (p.surface (some e) "x" "y" [0, 1] [2, 3] false).outcome = .error err := by
  intro p e
  have heval : ∃ eval, (p.evaluator e ["x", "y"]).outcome = .ok eval ∧
      ∀ u v, eval [u, v] = .error (.unbound "w") := ⟨_, rfl, fun _ _ ↦ rfl⟩
  obtain ⟨eval, heval, hpoint⟩ := heval
  have hrun : ((Rows.initial [0, 1] [2, 3]).run eval [0, 1] [1, 1, 1, 0, 0]).outcome? =
      some (.error (.unbound "w")) := by
    simp [Rows.run, Rows.advance, Rows.initial, RowTask.advance, RowTask.fault?, point, hpoint,
      isFatal, Rows.outcome?, Rows.allFinished, Status.isFinished]
  have hall := surface_of_schedule p e "x" "y" [0, 1] [2, 3] (by simp) (by simp) eval heval
    (fun u _ v _ f ↦ by simp [hpoint]) [1, 1, 1, 0, 0]
  obtain ⟨hfound, -, -, hsurface⟩ := (hall.2 _ hrun).2.2 _ rfl
  exact ⟨eval, heval, hrun, hfound, hsurface⟩

/-- Whatever the schedule, if there are faults on the grid and nothing else that fails for good, one
of them ends the process. So it does for the worker that takes one row after the other. -/
theorem Plotter.crash_of_schedule (p : Plotter) (e : Expr) (x y : String) (xs ys : List Float)
    (eval : PointEvaluator) (heval : (p.evaluator e [x, y]).outcome = .ok eval)
    (hfault : ∃ u ∈ xs, ∃ v ∈ ys, ∃ f, eval [u, v] = .error (.fault f))
    (hpoints : ∀ u ∈ xs, ∀ v ∈ ys, ∀ err, eval [u, v] = .error err → ¬Recurring err)
    (turns : List Nat) (hturns : ∀ i < ys.length, xs.length + 3 ≤ turns.count i) :
    (∃ f, ((Rows.initial xs ys).run eval xs turns).crash = some f ∧
      ∃ u ∈ xs, ∃ v ∈ ys, eval [u, v] = .error (.fault f)) ∧
    ∃ f, (p.surface (some e) x y xs ys false).outcome = .error (.crash f) ∧
      ∃ u ∈ xs, ∃ v ∈ ys, eval [u, v] = .error (.fault f) := by
  obtain ⟨u, hu, v, hv, f, hpoint⟩ := hfault
  -- With this point there is no pass through all rows, in any order.
  have hrows (z : List (List Float)) : ys.mapM (row eval xs) ≠ .ok z := by
    intro hz
    cases isFatal_of_mapM_row hz hu hv hpoint
  constructor
  · have hagree := (Rows.agree_initial eval xs ys).run turns
    cases hcrash : ((Rows.initial xs ys).run eval xs turns).crash with
    | some g => exact ⟨g, rfl, hagree.exists_fault hcrash⟩
    | none =>
        obtain ⟨r, hr⟩ := Rows.exists_outcome?_run hcrash hturns
        cases r with
        | ok z => exact absurd (hagree.mapM_row hr) (hrows z)
        | error err =>
            obtain ⟨u', hu', v', hv', hpoint', hrecurring⟩ := hagree.exists_recurring hr
            exact absurd hrecurring (hpoints u' hu' v' hv' err hpoint')
  · rw [outcome_surface heval (List.ne_nil_of_mem hu) (List.ne_nil_of_mem hv)]
    cases herror : ys.mapM (row eval xs) with
    | ok z => exact absurd herror (hrows z)
    | error err =>
        obtain ⟨i, v', hi, hrow, -⟩ := Outcome.exists_of_mapM_error herror
        obtain ⟨u', hu', hpoint', hfatal⟩ := exists_of_row_error hrow
        have hv' := List.mem_of_getElem? hi
        rcases isFatal_iff.1 hfatal with hrecurring | ⟨g, rfl⟩
        · exact absurd hrecurring (hpoints u' hu' v' hv' err hpoint')
        · exact ⟨g, rfl, u', hu', v', hv', hpoint'⟩

end ExprCompiler.Sampling
