import ExprCompiler.Failure
import ExprCompiler.Numeral.Layout

/-!
# Counters

What a service has done so far. A labelled counter appears once it has been used; the others are
there from the start.
-/

namespace ExprCompiler.Service

/-- Something that is counted. -/
inductive Event where
  | toolCall (tool : String) (ok : Bool)
  | compilation (backend : String) (ok : Bool)
  | fallback
  | points (n : Nat)
deriving DecidableEq, Repr

/-- Counts by key, in the order of first use. -/
abbrev Tally (κ : Type) := List (κ × Nat)

namespace Tally

variable {κ : Type} [DecidableEq κ]

def count (t : Tally κ) (k : κ) : Nat := ((t.find? fun e ↦ e.1 = k).map Prod.snd).getD 0

def bump (t : Tally κ) (k : κ) : Tally κ :=
  match t with
  | [] => [(k, 1)]
  | e :: rest => if e.1 = k then (k, e.2 + 1) :: rest else e :: bump rest k

theorem count_bump (t : Tally κ) (k k' : κ) :
    (t.bump k).count k' = t.count k' + if k = k' then 1 else 0 := by
  induction t with
  | nil => by_cases h : k = k' <;> simp [bump, count, h]
  | cons e rest ih =>
    simp only [count] at ih ⊢
    by_cases he : e.1 = k <;> by_cases hk : k = k' <;> by_cases hek : e.1 = k' <;>
      simp_all [bump]

end Tally

structure Counters where
  /-- Calls by tool and by whether they succeeded. -/
  toolCalls : Tally (String × Bool) := []
  /-- Compilations by backend and by whether they succeeded. -/
  compilations : Tally (String × Bool) := []
  /-- Timed calls by tool. -/
  timings : Tally String := []
  fallbacks : Nat := 0
  points : Nat := 0

namespace Counters

def record (c : Counters) : Event → Counters
  | .toolCall tool ok =>
    { c with toolCalls := c.toolCalls.bump (tool, ok), timings := c.timings.bump tool }
  | .compilation backend ok => { c with compilations := c.compilations.bump (backend, ok) }
  | .fallback => { c with fallbacks := c.fallbacks + 1 }
  | .points n => { c with points := c.points + n }

def recordAll (c : Counters) (events : List Event) : Counters := events.foldl record c

/-- Adds points, of which there cannot be fewer than none. -/
def addPoints (c : Counters) (n : Int) : Except Fault Counters :=
  if n < 0 then .error .counterDecrease else .ok (c.record (.points n.toNat))

def status (ok : Bool) : String := if ok then "ok" else "error"

def number (n : Nat) : String := Numeral.general (Numeral.nearest (n : Rat))

/-- A line for every counter, in order. -/
def lines (c : Counters) : List String :=
  let calls := c.toolCalls.map fun e ↦
    "lambdify_tool_calls_total\x7bstatus=" ++ status e.1.2 ++ ",tool=" ++ e.1.1 ++ "\x7d "
      ++ number e.2
  let compiled := c.compilations.map fun e ↦
    "lambdify_compilations_total\x7bbackend=" ++ e.1.1 ++ ",status=" ++ status e.1.2 ++ "\x7d "
      ++ number e.2
  let timed := c.timings.map fun e ↦
    "lambdify_tool_duration_seconds\x7btool=" ++ e.1 ++ "\x7d count " ++ toString e.2
  let plain := ["lambdify_fallbacks_total\x7b\x7d " ++ number c.fallbacks,
    "lambdify_points_sampled_total\x7b\x7d " ++ number c.points]
  (calls ++ compiled ++ timed ++ plain).mergeSort fun a b ↦ decide (a ≤ b)

end Counters

end ExprCompiler.Service
