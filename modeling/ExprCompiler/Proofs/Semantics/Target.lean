import ExprCompiler.Interpreter
import ExprCompiler.Proofs.Outcome

/-!
# The meaning of target expressions

`Target.value` gives a target expression its value under bindings of names, with no positions and
no code in between. Main statement: what the interpreter builds runs to exactly that value, or to
that failure (`Interpreter.run_build`).
-/

namespace ExprCompiler

/-- The value that a callable came to. An invalid one is the callable's failure. -/
def Callable.apply (name : String) (f : Callable) (vs : List Value) : Except Failure Value := do
  let v ← f vs
  if v.isValid then return v else complain name .invalidResult

/-- The value bound to a name. -/
def Value.lookup (ρ : Table Value) (name : String) : Except Failure Value :=
  match ρ.get? name with
  | some v => .ok v
  | none => .error (.unbound name)

/-- The value and the condition of a pair: the two arguments, if the identifier says so. -/
def pairOf? {α : Type} (name : String) : List α → Option (α × α)
  | [v, c] => if name = "pair" then some (v, c) else none
  | _ => none

theorem pairOf?_eq_some {α : Type} {name : String} {as : List α} {v c : α} :
    pairOf? name as = some (v, c) ↔ name = "pair" ∧ as = [v, c] := by
  unfold pairOf?
  split
  · simp
  · rename_i h
    constructor
    · intro h
      cases h
    · rintro ⟨-, rfl⟩
      exact absurd rfl (h v c)

/-- What relates two lists element by element relates them as pairs. -/
theorem pairOf?_of_forall₂ {α β : Type} {R : α → β → Prop} {as : List α} {bs : List β}
    (name : String) (h : List.Forall₂ R as bs) :
    Option.Rel (fun p q ↦ R p.1 q.1 ∧ R p.2 q.2) (pairOf? name as) (pairOf? name bs) := by
  match h with
  | .nil | .cons _ .nil | .cons _ (.cons _ (.cons _ _)) => exact .none
  | .cons hv (.cons hc .nil) =>
      by_cases hp : name = "pair"
      · simp only [pairOf?, hp, if_true]
        exact .some ⟨hv, hc⟩
      · simp only [pairOf?, hp, if_false]
        exact .none

namespace Target

def pair? : Target → Option (Target × Target)
  | .call name ts => pairOf? name ts
  | _ => none

/-- A value with its condition. -/
def ofPiece (p : Target × Target) : Target := .call "pair" [p.1, p.2]

/-- The expression that tries values with their conditions in order. -/
def branches (pieces : List (Target × Target)) : Target :=
  .call "piecewise" (pieces.map ofPiece)

/-- A target is a pair if it is a piece. -/
theorem pair?_eq_some {t : Target} {p : Target × Target} :
    t.pair? = some p ↔ t = ofPiece p := by
  obtain ⟨v, c⟩ := p
  cases t with
  | call name args => simp [pair?, pairOf?_eq_some, ofPiece]
  | _ => simp [pair?, ofPiece]

mutual

/-- The value under bindings of names and of callables. -/
def value (r : Registry) (ρ : Table Value) : Target → Except Failure Value
  | .var name => Value.lookup ρ name
  | .lit v => .ok v
  | .call name args =>
    if name = "piecewise" then firstBranch r ρ args
    else
      match r.find? name with
      | none => .error (.building name .unimplemented)
      | some f => do Callable.apply name f (← values r ρ args)
  | .foreign type _ => .error (.building "" (.unsupported type))
  | .absent => .error (.building "" (.unsupported "<nil>"))

/-- The values from left to right, up to the first failure. -/
def values (r : Registry) (ρ : Table Value) : List Target → Except Failure (List Value)
  | [] => .ok []
  | t :: ts => do
    let v ← value r ρ t
    let vs ← values r ρ ts
    return v :: vs

/-- The value of the first pair whose condition holds, and NaN if there is none. Conditions behind
it and values of other pairs are not looked at. -/
def firstBranch (r : Registry) (ρ : Table Value) : List Target → Except Failure Value
  | [] => .ok (.float Elementary.nan)
  | .call name [v, c] :: rest =>
    if name = "pair" then do
      if (← value r ρ c).truth then value r ρ v else firstBranch r ρ rest
    else .error (.building "piecewise" .pairOutside)
  | _ :: _ => .error (.building "piecewise" .pairOutside)

end

/-- An application has the value that its callable gives for the values of the arguments. -/
theorem value_call {r : Registry} {ρ : Table Value} {name : String} {f : Callable}
    {args : List Target} {vs : List Value} {v : Value} (hname : name ≠ "piecewise")
    (hf : r.find? name = some f) (hargs : values r ρ args = .ok vs) (hv : f vs = .ok v)
    (hvalid : v.isValid = true) : value r ρ (.call name args) = .ok v := by
  rw [value, if_neg hname, hf, hargs]
  simp [Callable.apply, hv, hvalid]

theorem values_pair {r : Registry} {ρ : Table Value} {t u : Target} {v w : Value}
    (ht : value r ρ t = .ok v) (hu : value r ρ u = .ok w) :
    values r ρ [t, u] = .ok [v, w] := by
  rw [values, values, values, ht, hu]
  rfl

theorem firstBranch_cons (r : Registry) (ρ : Table Value) (t : Target) (ts : List Target) :
    firstBranch r ρ (t :: ts) =
      match t.pair? with
      | some (v, c) => do if (← value r ρ c).truth then value r ρ v else firstBranch r ρ ts
      | none => .error (.building "piecewise" .pairOutside) := by
  match t with
  | .call name [v, c] =>
      rw [firstBranch]
      by_cases hp : name = "pair"
      · simp [pair?, pairOf?, hp]
      · simp [pair?, pairOf?, hp]
  | .call _ [] | .call _ [_] | .call _ (_ :: _ :: _ :: _) => rfl
  | .var _ | .lit _ | .foreign _ _ | .absent => rfl

theorem mem_firstOccurrences {names : List String} {name : String} :
    name ∈ firstOccurrences names ↔ name ∈ names := by
  have h (acc : List String) :
      name ∈ names.foldl (fun acc n ↦ if acc.contains n then acc else n :: acc) acc ↔
        name ∈ acc ∨ name ∈ names := by
    induction names generalizing acc with
    | nil => simp
    | cons n names ih =>
        rw [List.foldl_cons, ih, List.mem_cons]
        split
        · rename_i hn
          have hn := List.contains_iff_mem.1 hn
          constructor
          · rintro (h | h)
            · exact .inl h
            · exact .inr (.inr h)
          · rintro (h | rfl | h)
            · exact .inl h
            · exact .inl hn
            · exact .inr h
        · rw [List.mem_cons]
          tauto
  rw [firstOccurrences, List.mem_reverse, h]
  simp

end Target

/-! ## Positions and names -/

theorem Table.get?_cons {α : Type} (e : String × α) (t : Table α) (name : String) :
    Table.get? (e :: t) name = if e.1 = name then some e.2 else t.get? name := by
  by_cases he : e.1 = name <;> simp [Table.get?, he]

theorem Table.mem_of_get? {α : Type} {t : Table α} {name : String} {a : α}
    (h : t.get? name = some a) : (name, a) ∈ t := by
  obtain ⟨e, he, rfl⟩ := Option.map_eq_some_iff.1 h
  obtain rfl : e.1 = name := by simpa using List.find?_some he
  exact List.mem_of_find?_eq_some he

/-- An entry of a table without repeated names is found under its name. -/
theorem Table.get?_of_mem {α : Type} {t : Table α} (h : (t.map Prod.fst).Nodup) {name : String}
    {a : α} (ha : (name, a) ∈ t) : t.get? name = some a := by
  induction t with
  | nil => cases ha
  | cons e t ih =>
      rw [List.map_cons, List.nodup_cons] at h
      rw [get?_cons]
      rcases List.mem_cons.1 ha with rfl | ha
      · exact if_pos rfl
      · have hne : e.1 ≠ name := fun heq ↦ h.1 (heq ▸ List.mem_map_of_mem ha)
        rw [if_neg hne, ih h.2 ha]

/-- An inserted entry is found under its own name and hides nothing else. -/
theorem Table.get?_insert {α : Type} (t : Table α) (name : String) (a : α) (key : String) :
    (t.insert name a).get? key = if name = key then some a else t.get? key := by
  induction t with
  | nil => rw [insert, get?_cons]
  | cons e t ih =>
      rw [insert]
      split
      · rename_i he
        rw [get?_cons, get?_cons, beq_iff_eq.1 he]
        split <;> rfl
      · rename_i he
        rw [get?_cons, get?_cons, ih]
        grind

/-- The position of a parameter is that of its argument. -/
theorem Table.get?_zip {α : Type} {params : List String} {args : List α} {name : String} {i : Nat}
    (h : params.idxOf? name = some i) : Table.get? (params.zip args) name = args[i]? := by
  induction params generalizing args i with
  | nil => simp at h
  | cons p ps ih =>
      cases args with
      | nil => simp [Table.get?]
      | cons a as =>
          rw [List.zip_cons_cons, Table.get?_cons]
          rw [List.idxOf?_cons] at h
          by_cases hp : p = name
          · subst hp
            simp only [beq_self_eq_true, if_true, Option.some.injEq] at h
            subst h
            simp
          · simp only [beq_iff_eq, hp, if_false, Option.map_eq_some_iff] at h
            obtain ⟨j, hj, rfl⟩ := h
            rw [if_neg hp]
            exact ih hj

/-- A name that is no parameter is bound to nothing. -/
theorem Table.get?_zip_none {α : Type} {params : List String} {name : String}
    (h : params.idxOf? name = none) (args : List α) :
    Table.get? (params.zip args) name = none := by
  rw [List.idxOf?_eq_none_iff] at h
  simp only [Table.get?, Option.map_eq_none_iff, List.find?_eq_none, beq_iff_eq]
  rintro ⟨p, a⟩ hp rfl
  exact h (List.of_mem_zip hp).1

theorem Table.get?_zip_map {α β : Type} (g : α → β) (params : List String) (args : List α)
    (name : String) :
    Table.get? (params.zip (args.map g)) name = (Table.get? (params.zip args) name).map g := by
  induction params generalizing args with
  | nil => rfl
  | cons p ps ih =>
      cases args with
      | nil => rfl
      | cons a as =>
          rw [List.map_cons, List.zip_cons_cons, List.zip_cons_cons, Table.get?_cons,
            Table.get?_cons, ih]
          split <;> rfl

/-- Every parameter is bound to one of as many arguments. -/
theorem Table.exists_get?_zip {α : Type} {params : List String} {args : List α} {name : String}
    (hlen : args.length = params.length) (h : name ∈ params) :
    ∃ a, Table.get? (params.zip args) name = some a := by
  obtain ⟨i, hi⟩ := Option.isSome_iff_exists.1 (List.isSome_idxOf?.2 h)
  have hlt : i < args.length := by
    rw [hlen]
    exact (List.idxOf?_eq_some_iff.mp hi).1
  exact ⟨args[i], by rw [Table.get?_zip hi, List.getElem?_eq_getElem hlt]⟩

/-! ## Running what was built -/

namespace Interpreter

variable {params : List String} {r : Registry} {args : List Value}

/-- A slot holds the argument of its parameter. -/
theorem run_slot {name : String} {i : Nat} (h : params.idxOf? name = some i)
    (hlen : args.length = params.length) :
    run args (.slot i) = Value.lookup (params.zip args) name := by
  have hi : i < args.length := by
    rw [hlen]
    exact (List.idxOf?_eq_some_iff.mp h).1
  rw [Value.lookup, Table.get?_zip h, List.getElem?_eq_getElem hi]
  simp [run, hi]

mutual

/-- Code runs to the value of the expression that it was built from. -/
theorem run_build (hlen : args.length = params.length) :
    (t : Target) → (c : Code) → build params r t = .ok c →
      run args c = t.value r (params.zip args)
  | .var name, c, h => by
      rw [build] at h
      cases hi : params.idxOf? name with
      | some i =>
          rw [hi] at h
          cases h
          exact run_slot hi hlen
      | none =>
          rw [hi] at h
          cases h
          simp [run, Target.value, Value.lookup, Table.get?_zip_none hi]
  | .lit v, c, h => by
      rw [build] at h
      split at h
      · cases h
        rfl
      · cases h
  | .call name ts, c, h => by
      rw [build] at h
      rw [Target.value]
      by_cases hp : name = "piecewise"
      · simp only [hp, beq_self_eq_true, if_true, Outcome.bind_eq_ok, Outcome.pure_eq_ok] at h
        obtain ⟨ps, hps, h⟩ := h
        cases h
        rw [if_pos hp, run]
        exact runPieces_buildPieces hlen ts 0 ps hps
      · simp only [beq_iff_eq, hp, if_false] at h
        rw [if_neg hp]
        split at h
        · cases h
        · cases hf : r.find? name with
          | none =>
              rw [hf] at h
              cases h
          | some f =>
              rw [hf] at h
              obtain ⟨cs, hcs, h⟩ := Outcome.bind_eq_ok.mp h
              cases h
              rw [run, runAll_buildAll hlen ts cs hcs]
              rfl
  | .foreign type text, c, h => by cases h
  | .absent, c, h => by cases h

/-- What is built from targets runs to their values. -/
theorem runAll_buildAll (hlen : args.length = params.length) :
    (ts : List Target) → (cs : List Code) → buildAll params r ts = .ok cs →
      runAll args cs = Target.values r (params.zip args) ts
  | [], cs, h => by
      cases h
      rfl
  | t :: ts, cs, h => by
      obtain ⟨c, hc, h⟩ := Outcome.bind_eq_ok.mp h
      obtain ⟨cs', hcs, h⟩ := Outcome.bind_eq_ok.mp h
      cases h
      rw [runAll, Target.values, run_build hlen t c hc, runAll_buildAll hlen ts cs' hcs]

theorem runPieces_buildPieces (hlen : args.length = params.length) :
    (ts : List Target) → (i : Nat) → (ps : List (Code × Code)) →
      buildPieces params r i ts = .ok ps →
      runPieces args ps = Target.firstBranch r (params.zip args) ts
  | [], i, ps, h => by
      cases h
      rfl
  | .call name [v, c] :: ts, i, ps, h => by
      rw [buildPieces] at h
      by_cases hp : name = "pair"
      · simp only [hp, bne_self_eq_false, Bool.false_eq_true, if_false] at h
        obtain ⟨v', hv, h⟩ := Outcome.bind_eq_ok.mp h
        obtain ⟨c', hc, h⟩ := Outcome.bind_eq_ok.mp h
        obtain ⟨ps', hps, h⟩ := Outcome.bind_eq_ok.mp h
        cases h
        rw [runPieces, Target.firstBranch, if_pos hp, run_build hlen v v' hv,
          run_build hlen c c' hc, runPieces_buildPieces hlen ts (i + 1) ps' hps]
      · simp [bne_iff_ne, hp] at h
  | .var _ :: _, i, ps, h | .lit _ :: _, i, ps, h | .foreign _ _ :: _, i, ps, h
  | .absent :: _, i, ps, h | .call _ [] :: _, i, ps, h | .call _ [_] :: _, i, ps, h
  | .call _ (_ :: _ :: _ :: _) :: _, i, ps, h => by cases h

end

end Interpreter

namespace Function

theorem firstInvalid?_eq_none {args : List Value} (h : ∀ v ∈ args, v.isValid = true) (i : Nat)
    (params : List String) : firstInvalid? i params args = none := by
  induction args generalizing i params with
  | nil => cases params <;> rfl
  | cons v vs ih =>
      cases params with
      | nil => rfl
      | cons p ps =>
          rw [firstInvalid?, if_pos (h v (by simp))]
          exact ih (fun w hw ↦ h w (by simp [hw])) (i + 1) ps

/-- There is no first duplicate if no parameter is repeated or seen before. -/
theorem firstDuplicate?_eq_none {seen params : List String} :
    firstDuplicate? seen params = none ↔ params.Nodup ∧ ∀ p ∈ params, p ∉ seen := by
  induction params generalizing seen with
  | nil => simp [firstDuplicate?]
  | cons p ps ih =>
      rw [firstDuplicate?]
      by_cases hp : p ∈ seen
      · simp [hp]
      · simp only [List.contains_eq_mem, hp, decide_false, Bool.false_eq_true, if_false, ih,
          List.nodup_cons, List.mem_cons, not_or]
        grind

/-- What a backend compiles is there, over parameters without repetition, and is what it built. -/
theorem compile_eq_ok_iff {b : Backend} {r : Registry} {t : Target} {params : List String}
    {f : Function} :
    compile b r t params = .ok f ↔
      t ≠ .absent ∧ params.Nodup ∧
        ∃ evaluator, b.build t params r = .ok evaluator ∧ f = ⟨params, t, b.name, evaluator⟩ := by
  have hnodup : firstDuplicate? [] params = none ↔ params.Nodup := by
    simp [firstDuplicate?_eq_none]
  unfold compile
  split
  · simp
  · rename_i ht
    split
    · rename_i p hp
      simp [← hnodup, hp]
    · rename_i hp
      simp only [Outcome.bind_eq_ok, Outcome.mapError_eq_ok, Outcome.pure_eq_ok, Except.ok.injEq]
      have hpresent : t ≠ .absent := ht
      simp [hpresent, hnodup.1 hp, eq_comm]

theorem exists_compile_of_build {b : Backend} {r : Registry} {t : Target} {params : List String}
    {evaluator : Evaluator} (ht : t ≠ .absent) (hparams : params.Nodup)
    (h : b.build t params r = .ok evaluator) : ∃ f, compile b r t params = .ok f :=
  ⟨_, compile_eq_ok_iff.2 ⟨ht, hparams, evaluator, h, rfl⟩⟩

/-- With as many valid arguments as there are parameters, a function evaluates. -/
theorem eval_eq_evaluator {f : Function} {args : List Value}
    (hlen : args.length = f.params.length) (hv : ∀ v ∈ args, v.isValid = true) :
    f.eval args = f.evaluator args := by
  simp only [eval, hlen, bne_self_eq_false, Bool.false_eq_true, if_false,
    firstInvalid?_eq_none hv]

/-- A function that the interpreter compiled evaluates to the value of its expression. -/
theorem eval_of_compile {r : Registry} {t : Target} {params : List String} {f : Function}
    (h : compile Interpreter.backend r t params = .ok f) :
    f.params = params ∧
      ∀ args : List Value, args.length = params.length → (∀ v ∈ args, v.isValid = true) →
        f.eval args = t.value r (params.zip args) := by
  obtain ⟨-, -, evaluator, he, rfl⟩ := compile_eq_ok_iff.1 h
  obtain ⟨c, hc, he⟩ := Outcome.bind_eq_ok.1 he
  cases he
  refine ⟨rfl, fun args hlen hv ↦ ?_⟩
  rw [eval_eq_evaluator hlen hv]
  exact Interpreter.run_build hlen t c hc

end Function

end ExprCompiler
