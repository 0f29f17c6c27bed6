import ExprCompiler.Proofs.Semantics.Target

/-!
# Well-formed expressions

A target expression is well formed if its literals are valid, its callables are registered and its
pairs stand where pairs belong. A builder judges an expression by its literals, its callables and
their numbers of arguments, and what it accepts is settled by that alone, whatever the order in
which it looks (`Target.Judges.unique`). Main statement: the interpreter compiles exactly the
well-formed expressions (`Function.exists_compile_iff`).
-/

namespace ExprCompiler

namespace Target

/-- Expressions made of the given literals and callables. What `piecewise` is applied to are pairs,
and pairs stand nowhere else. -/
inductive Formed (literal : Value → Prop) (callable : String → Nat → Prop) : Target → Prop where
  | var (name : String) : Formed literal callable (.var name)
  | lit {v : Value} (h : literal v) : Formed literal callable (.lit v)
  | call {name : String} {args : List Target} (hbranches : name ≠ "piecewise")
      (hpair : name ≠ "pair") (hname : callable name args.length)
      (hargs : ∀ t ∈ args, Formed literal callable t) : Formed literal callable (.call name args)
  | branches {pieces : List (Target × Target)}
      (hvalue : ∀ p ∈ pieces, Formed literal callable p.1)
      (hcondition : ∀ p ∈ pieces, Formed literal callable p.2) :
      Formed literal callable (branches pieces)

/-- Valid literals and registered callables in place. -/
def WellFormed (r : Registry) : Target → Prop :=
  Formed (fun v ↦ v.isValid = true) fun name _ ↦ (r.find? name).isSome = true

/-! ## Judgements -/

/-- A judgement on expressions that goes part by part: literals by their value, applications by the
callable, the number of arguments and the arguments, and `piecewise` by the parts of its pairs. -/
structure Judges (literal : Value → Prop) (callable : String → Nat → Prop) (A : Target → Prop) :
    Prop where
  var (name : String) : A (.var name)
  lit (v : Value) : A (.lit v) ↔ literal v
  call {name : String} (h : name ≠ "piecewise") (args : List Target) :
    A (.call name args) ↔ name ≠ "pair" ∧ callable name args.length ∧ ∀ t ∈ args, A t
  branches (args : List Target) : A (.call "piecewise" args) ↔
    ∃ pieces : List (Target × Target), args = pieces.map ofPiece ∧ ∀ p ∈ pieces, A p.1 ∧ A p.2
  foreign (type text : String) : ¬A (.foreign type text)
  absent : ¬A .absent

variable {literal : Value → Prop} {callable : String → Nat → Prop} {A B : Target → Prop}

/-- Pieces are smaller than the arguments that they stand for. -/
theorem sizeOf_piece_lt {p : Target × Target} {pieces : List (Target × Target)}
    {args : List Target} (hargs : args = pieces.map ofPiece) (hp : p ∈ pieces) :
    sizeOf p.1 < sizeOf args ∧ sizeOf p.2 < sizeOf args := by
  have hmem : ofPiece p ∈ args := hargs ▸ List.mem_map_of_mem hp
  have hlt := List.sizeOf_lt_of_mem hmem
  simp only [ofPiece, Target.call.sizeOf_spec, List.cons.sizeOf_spec, List.nil.sizeOf_spec] at hlt
  omega

/-- Two judgements that go by the same literals and callables accept the same expressions. The parts
of a pair stand two levels down, so the induction is on the size. -/
theorem Judges.unique (hA : Judges literal callable A) (hB : Judges literal callable B) :
    (t : Target) → (A t ↔ B t)
  | .var name => iff_of_true (hA.var name) (hB.var name)
  | .lit v => (hA.lit v).trans (hB.lit v).symm
  | .foreign type text => iff_of_false (hA.foreign type text) (hB.foreign type text)
  | .absent => iff_of_false hA.absent hB.absent
  | .call name args => by
      by_cases hname : name = "piecewise"
      · rw [hname, hA.branches, hB.branches]
        refine exists_congr fun pieces ↦ and_congr_right fun hargs ↦ forall₂_congr fun p hp ↦ ?_
        have hlt := sizeOf_piece_lt hargs hp
        exact and_congr (hA.unique hB p.1) (hA.unique hB p.2)
      · rw [hA.call hname, hB.call hname]
        refine and_congr_right fun _ ↦ and_congr_right fun _ ↦ forall₂_congr fun t ht ↦ ?_
        have hlt := List.sizeOf_lt_of_mem ht
        exact hA.unique hB t

/-- The grammar is a judgement itself. -/
theorem judges_formed : Judges literal callable (Formed literal callable) where
  var := .var
  lit v := by
    constructor
    · rintro ⟨⟩
      assumption
    · exact .lit
  call {name} hname args := by
    constructor
    · intro h
      cases h with
      | call _ hpair hcallable hargs => exact ⟨hpair, hcallable, hargs⟩
      | branches => exact absurd rfl hname
    · rintro ⟨hpair, hcallable, hargs⟩
      exact .call hname hpair hcallable hargs
  branches args := by
    constructor
    · intro h
      cases h with
      | call hname => exact absurd rfl hname
      | branches hvalue hcondition =>
          exact ⟨_, rfl, fun p hp ↦ ⟨hvalue p hp, hcondition p hp⟩⟩
    · rintro ⟨pieces, rfl, hpieces⟩
      exact .branches (fun p hp ↦ (hpieces p hp).1) fun p hp ↦ (hpieces p hp).2
  foreign type text := by rintro ⟨⟩
  absent := by rintro ⟨⟩

end Target

/-! ## Builders -/

/-- The pairs of a choice can be built if and only if all arguments are pairs and the parts of each
can be built. -/
theorem exists_pieces_iff {γ : Type} {one : Target → Except Failure γ}
    {pieces : Nat → List Target → Except Failure (List (γ × γ))}
    (hnil : ∀ i, pieces i [] = .ok [])
    (hcons : ∀ i t ts, pieces i (t :: ts) =
      match t.pair? with
      | some (v, c) => do return (← one v, ← one c) :: (← pieces (i + 1) ts)
      | none => .error (.building "piecewise" (.notAPair i)))
    (i : Nat) (ts : List Target) :
    (∃ ps, pieces i ts = .ok ps) ↔
      ∃ parts : List (Target × Target), ts = parts.map Target.ofPiece ∧
        ∀ p ∈ parts, (∃ c, one p.1 = .ok c) ∧ ∃ c, one p.2 = .ok c := by
  induction ts generalizing i with
  | nil =>
      rw [hnil]
      exact iff_of_true ⟨[], rfl⟩ ⟨[], rfl, by simp⟩
  | cons t ts ih =>
      rw [hcons]
      cases ht : t.pair? with
      | none =>
          constructor
          · rintro ⟨ps, ⟨⟩⟩
          · rintro ⟨_ | ⟨p, parts⟩, hparts, -⟩
            · cases hparts
            · rw [(List.cons.inj hparts).1, Target.pair?_eq_some.2 rfl] at ht
              cases ht
      | some p =>
          obtain rfl := Target.pair?_eq_some.1 ht
          constructor
          · rintro ⟨ps, h⟩
            obtain ⟨v, hv, h⟩ := Outcome.bind_eq_ok.1 h
            obtain ⟨c, hc, h⟩ := Outcome.bind_eq_ok.1 h
            obtain ⟨ps', hps, -⟩ := Outcome.bind_eq_ok.1 h
            obtain ⟨parts, rfl, hparts⟩ := (ih (i + 1)).1 ⟨ps', hps⟩
            exact ⟨p :: parts, rfl, List.forall_mem_cons.2 ⟨⟨⟨v, hv⟩, c, hc⟩, hparts⟩⟩
          · rintro ⟨_ | ⟨q, parts⟩, hparts, hall⟩
            · cases hparts
            · obtain ⟨hq, hts⟩ := List.cons.inj hparts
              obtain rfl : p = q := Option.some.inj (ht.symm.trans (Target.pair?_eq_some.2 hq))
              obtain ⟨⟨⟨v, hv⟩, c, hc⟩, hall⟩ := List.forall_mem_cons.1 hall
              obtain ⟨ps, hps⟩ := (ih (i + 1)).2 ⟨parts, hts, hall⟩
              exact ⟨(v, c) :: ps, by simp [hv, hc, hps]⟩

namespace Interpreter

variable {params : List String} {r : Registry}

theorem buildPieces_cons (i : Nat) (t : Target) (ts : List Target) :
    buildPieces params r i (t :: ts) =
      match t.pair? with
      | some (v, c) => do
        return (← build params r v, ← build params r c) :: (← buildPieces params r (i + 1) ts)
      | none => .error (.building "piecewise" (.notAPair i)) := by
  match t with
  | .call name [v, c] =>
      rw [buildPieces]
      by_cases hp : name = "pair"
      · simp [Target.pair?, pairOf?, hp]
      · simp [Target.pair?, pairOf?, hp]
  | .call _ [] | .call _ [_] | .call _ (_ :: _ :: _ :: _) => rfl
  | .var _ | .lit _ | .foreign _ _ | .absent => rfl

/-- Building a list is building its elements in turn. -/
theorem buildAll_eq_mapM (ts : List Target) :
    buildAll params r ts = ts.mapM (build params r) := by
  induction ts with
  | nil => rfl
  | cons t ts ih => rw [buildAll, List.mapM_cons, ih]

/-- A call is built if its name is known and its arguments are built. -/
theorem exists_build_call {name : String} (hname : name ≠ "piecewise") (args : List Target) :
    (∃ c, build params r (.call name args) = .ok c) ↔ name ≠ "pair" ∧
      (r.find? name).isSome = true ∧ ∀ t ∈ args, ∃ c, build params r t = .ok c := by
  rw [build, if_neg (mt beq_iff_eq.1 hname), ← Outcome.exists_mapM_iff, ← buildAll_eq_mapM]
  by_cases hpair : name = "pair"
  · simp [hpair]
  · rw [if_neg (mt beq_iff_eq.1 hpair)]
    cases r.find? name with
    | none => simp
    | some f => simp [hpair, Outcome.bind_eq_ok]

/-- The interpreter judges expressions by valid literals and registered callables. -/
theorem judges_build (params : List String) (r : Registry) : Target.Judges
    (fun v ↦ v.isValid = true) (fun name _ ↦ (r.find? name).isSome = true)
    fun t ↦ ∃ c, build params r t = .ok c where
  var name := by
    rw [build]
    split
    · exact ⟨_, rfl⟩
    · exact ⟨_, rfl⟩
  lit v := by
    rw [build]
    split
    · rename_i hv
      exact iff_of_true ⟨_, rfl⟩ hv
    · rename_i hv
      exact iff_of_false (by simp) hv
  call := exists_build_call
  branches args := by
    rw [build, if_pos (beq_self_eq_true _), ← exists_pieces_iff (fun _ ↦ rfl) buildPieces_cons 0]
    simp [Outcome.bind_eq_ok]
  foreign type text := by simp [build]
  absent := by simp [build]

/-- A target is built if and only if it is well-formed. -/
theorem exists_build_iff {t : Target} :
    (∃ c, build params r t = .ok c) ↔ t.WellFormed r :=
  (judges_build params r).unique Target.judges_formed t

end Interpreter

namespace Function

/-- The interpreter compiles what is well formed. -/
theorem exists_compile_iff {r : Registry} {params : List String} (hparams : params.Nodup)
    (t : Target) :
    (∃ f, compile Interpreter.backend r t params = .ok f) ↔ t.WellFormed r := by
  rw [← Interpreter.exists_build_iff]
  constructor
  · rintro ⟨f, hf⟩
    obtain ⟨-, -, evaluator, he, -⟩ := compile_eq_ok_iff.1 hf
    obtain ⟨c, hc, -⟩ := Outcome.bind_eq_ok.1 he
    exact ⟨c, hc⟩
  · rintro ⟨c, hc⟩
    refine exists_compile_of_build ?_ hparams (Outcome.bind_eq_ok.2 ⟨c, hc, rfl⟩)
    rintro rfl
    cases hc

end Function

end ExprCompiler
