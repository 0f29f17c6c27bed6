/-!
# Traced computations

A computation that may fail and leaves events behind. The events up to a failure stay: what was
observed was observed, whether or not a result came of it.
-/

namespace ExprCompiler

/-- The outcome of a computation with its events in order. -/
structure Traced (ω ε α : Type) where
  outcome : Except ε α
  trace : List ω

namespace Traced

variable {ω ε α β : Type}

def ofExcept (r : Except ε α) : Traced ω ε α := ⟨r, []⟩

def emit (e : ω) : Traced ω ε Unit := ⟨.ok (), [e]⟩

def fail (e : ε) : Traced ω ε α := ⟨.error e, []⟩

/-- A failed computation does not go on; otherwise the events follow each other. -/
def andThen (x : Traced ω ε α) (f : α → Traced ω ε β) : Traced ω ε β :=
  match x.outcome with
  | .error e => ⟨.error e, x.trace⟩
  | .ok a => ⟨(f a).outcome, x.trace ++ (f a).trace⟩

instance : Monad (Traced ω ε) where
  pure a := ⟨.ok a, []⟩
  bind := andThen

/-- The same computation with other errors. -/
def mapError {ε' : Type} (f : ε → ε') (x : Traced ω ε α) : Traced ω ε' α :=
  ⟨x.outcome.mapError f, x.trace⟩

/-- The same computation seen through other events. -/
def mapTrace {ω' : Type} (f : ω → ω') (x : Traced ω ε α) : Traced ω' ε α :=
  ⟨x.outcome, x.trace.map f⟩

@[simp] theorem outcome_pure (a : α) : (pure a : Traced ω ε α).outcome = .ok a := rfl

@[simp] theorem trace_pure (a : α) : (pure a : Traced ω ε α).trace = [] := rfl

@[simp] theorem outcome_mapTrace {ω' : Type} (f : ω → ω') (x : Traced ω ε α) :
    (x.mapTrace f).outcome = x.outcome := rfl

@[simp] theorem trace_mapTrace {ω' : Type} (f : ω → ω') (x : Traced ω ε α) :
    (x.mapTrace f).trace = x.trace.map f := rfl

theorem bind_of_ok {x : Traced ω ε α} {a : α} (h : x.outcome = .ok a) (f : α → Traced ω ε β) :
    x >>= f = ⟨(f a).outcome, x.trace ++ (f a).trace⟩ := by
  change andThen x f = _
  simp [andThen, h]

theorem bind_of_error {x : Traced ω ε α} {e : ε} (h : x.outcome = .error e)
    (f : α → Traced ω ε β) : x >>= f = ⟨.error e, x.trace⟩ := by
  change andThen x f = _
  simp [andThen, h]

end Traced

end ExprCompiler
