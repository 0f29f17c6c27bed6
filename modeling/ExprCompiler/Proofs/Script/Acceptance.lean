import ExprCompiler.Proofs.Interpreter.Acceptance
import ExprCompiler.Proofs.Semantics.Script

/-!
# What scripts can write

Emission asks more of an expression than the interpreter does, and looks at arguments before it
looks at their callable. Main statement: over a registry that extends the default one, the
interpreter compiles exactly the well-formed expressions, and a script is emitted for exactly those
among them that have no complex literal and the numbers of arguments that scripts can write
(`Function.exists_compile_iff_wellFormed`).
-/

namespace ExprCompiler

/-! ## Registries -/

namespace Registry

/-- A registry that has a callable under every identifier of the default one. -/
def Extends (r : Registry) : Prop :=
  ∀ name, (builtin.find? name).isSome = true → (r.find? name).isSome = true

theorem extends_builtin : Extends builtin := fun _ h ↦ h

theorem isSome_find?_insert {r : Registry} {f : Option Callable} {name : String}
    (hf : f.isSome = true) (h : (r.find? name).isSome = true) (key : String) :
    (find? (r.insert key f) name).isSome = true := by
  rw [find?, Table.get?_insert]
  split
  · exact hf
  · exact h

/-- Overlaying defined functions extends the registry. -/
theorem extends_overlay {fns : Registry} (h : ∀ e ∈ fns, e.2.isSome = true) :
    Extends (Table.overlay builtin fns) := by
  have hover (r : Registry) (name : String) (hr : (r.find? name).isSome = true) :
      (find? (Table.overlay r fns) name).isSome = true := by
    unfold Table.overlay
    induction fns generalizing r with
    | nil => exact hr
    | cons e fns ih =>
        obtain ⟨he, hfns⟩ := List.forall_mem_cons.1 h
        exact ih hfns (r.insert e.1 e.2) (isSome_find?_insert he hr e.1)
  exact hover builtin

end Registry

/-! ## Scripts -/

namespace Script

variable {params : List String} {r : Registry}

/-- The numbers of arguments for which scripts can write an application. -/
structure Takes (name : String) (count : Nat) : Prop where
  minus : name = "-" → count = 1 ∨ count = 2
  single : name ∈ ["!", "identity", "real", "conj"] → count = 1
  equality : name ∈ ["==", "!="] → count = 2
  chain : name ∈ ["+", "*", "/", "<", "<=", ">", ">="] → 1 ≤ count

/-- Sums, products, quotients and the order relations are chained. -/
theorem isSome_chain? {name : String} :
    (chain? name).isSome = true ↔ name ∈ ["+", "*", "/", "<", "<=", ">", ">="] := by
  unfold chain?
  split <;> simp_all

/-- A call without an emission of its own is emitted by its name. -/
theorem emitCall_eq_emitNamed {name : String} {ts : List String} (hown : name ∉ ownNames)
    (hlog : name = "log" → ts.length ≠ 1) : emitCall r name ts = emitNamed r name ts := by
  unfold emitCall
  split
  case h_22 => rfl
  case h_21 => exact absurd rfl (hlog rfl)
  all_goals exact absurd (by decide) hown

/-- The chains and functions of scripts are callables of the default registry. -/
theorem isSome_find?_of_native {name : String} (hr : r.Extends)
    (h : (chain? name).isSome = true ∨ (mathFunctions.get? name).isSome = true) :
    (r.find? name).isSome = true := by
  apply hr
  rcases h with h | h
  · have hchains : ∀ key ∈ ["+", "*", "/", "<", "<=", ">", ">="],
        (Registry.builtin.find? key).isSome = true := by decide
    exact hchains name (isSome_chain?.1 h)
  · have hfunctions : ∀ e ∈ mathFunctions, (Registry.builtin.find? e.1).isSome = true := by decide
    rw [Table.get?, Option.isSome_map, List.find?_isSome] at h
    obtain ⟨e, he, hname⟩ := h
    rw [← beq_iff_eq.1 hname]
    exact hfunctions e he

/-- A named call is emitted if its name is known and a chain has an operand. -/
theorem exists_emitNamed_iff {name : String} {ts : List String} (hr : r.Extends) :
    (∃ c, emitNamed r name ts = .ok c) ↔ (r.find? name).isSome = true ∧
      (name ∈ ["+", "*", "/", "<", "<=", ">", ">="] → 1 ≤ ts.length) := by
  rw [← isSome_chain?]
  unfold emitNamed
  split
  · rename_i op hop
    have hfind := isSome_find?_of_native hr (.inl (by rw [hop]; rfl))
    rcases ts with _ | ⟨t, _ | ⟨u, ts⟩⟩ <;> simp [hfind, hop]
  · rename_i hop
    split
    · rename_i f hf
      have hfind := isSome_find?_of_native hr (.inr (by rw [hf]; rfl))
      simp [hfind, hop]
    · split
      · rename_i hfind
        simp [hfind]
      · rename_i hfind
        simp [hfind, hop]

theorem takes_of_not_mem {name : String} {count : Nat} (hown : name ∉ ownNames)
    (h : name ∈ ["+", "*", "/", "<", "<=", ">", ">="] → 1 ≤ count) : Takes name count := by
  simp only [ownNames, List.mem_cons, List.not_mem_nil, or_false, not_or] at hown
  constructor
  · tauto
  · simp only [List.mem_cons, List.not_mem_nil, or_false]
    tauto
  · simp only [List.mem_cons, List.not_mem_nil, or_false]
    tauto
  · exact h

/-- A call with an emission of its own is emitted if its arguments are as many as it takes. -/
theorem exists_emitCall_of_mem {name : String} {ts : List String} (hown : name ∈ ownNames)
    (hpair : name ≠ "pair") (htakes : Takes name ts.length) :
    ∃ c, emitCall r name ts = .ok c := by
  have hgroup : name = "-" ∨ name ∈ ["!", "identity", "real", "conj"] ∨ name ∈ ["==", "!="] ∨
      name ∈ ["&", "|"] := by
    simp only [ownNames, List.mem_cons, List.not_mem_nil, or_false] at hown ⊢
    tauto
  rcases hgroup with rfl | h | h | h
  · rcases htakes.minus rfl with hlen | hlen
    · obtain ⟨t, rfl⟩ := List.length_eq_one_iff.1 hlen
      exact ⟨_, rfl⟩
    · obtain ⟨a, b, rfl⟩ := List.length_eq_two.1 hlen
      exact ⟨_, rfl⟩
  · obtain ⟨t, rfl⟩ := List.length_eq_one_iff.1 (htakes.single h)
    simp only [List.mem_cons, List.not_mem_nil, or_false] at h
    rcases h with rfl | rfl | rfl | rfl
    all_goals exact ⟨_, rfl⟩
  · obtain ⟨a, b, rfl⟩ := List.length_eq_two.1 (htakes.equality h)
    simp only [List.mem_cons, List.not_mem_nil, or_false] at h
    rcases h with rfl | rfl
    all_goals exact ⟨_, rfl⟩
  · simp only [List.mem_cons, List.not_mem_nil, or_false] at h
    rcases h with rfl | rfl
    all_goals cases ts <;> exact ⟨_, rfl⟩

/-- An application is emitted if and only if it is no pair, its callable is registered and scripts
can write it for so many arguments. -/
theorem exists_emitCall_iff {name : String} {ts : List String} (hr : r.Extends) :
    (∃ c, emitCall r name ts = .ok c) ↔
      name ≠ "pair" ∧ (r.find? name).isSome = true ∧ Takes name ts.length := by
  constructor
  · rintro ⟨c, hc⟩
    cases emits_of_emitCall hc with
    | named hown _ h =>
        obtain ⟨hfind, hchain⟩ := (exists_emitNamed_iff hr).1 ⟨c, h⟩
        refine ⟨?_, hfind, takes_of_not_mem hown hchain⟩
        rintro rfl
        exact hown (by decide)
    | through hname t =>
        simp only [List.mem_cons, List.not_mem_nil, or_false] at hname
        rcases hname with rfl | rfl | rfl
        all_goals exact ⟨by decide, hr _ rfl, by constructor <;> simp⟩
    | _ => exact ⟨by decide, hr _ rfl, by constructor <;> simp⟩
  · rintro ⟨hpair, hfind, htakes⟩
    by_cases hown : name ∈ ownNames
    · exact exists_emitCall_of_mem hown hpair htakes
    · by_cases hlog : name = "log" ∧ ts.length = 1
      · obtain ⟨rfl, hlen⟩ := hlog
        obtain ⟨t, rfl⟩ := List.length_eq_one_iff.1 hlen
        exact ⟨_, rfl⟩
      · rw [emitCall_eq_emitNamed hown (not_and.1 hlog)]
        exact (exists_emitNamed_iff hr).2 ⟨hfind, htakes.chain⟩

/-- A literal is emitted if it is valid and not complex. -/
theorem exists_emitLiteral_iff (v : Value) :
    (∃ c, emitLiteral v = .ok c) ↔ v.isValid = true ∧ v.kind ≠ .complex := by
  cases v with
  | rational q =>
      rw [emitLiteral]
      split <;> simp [Value.isValid, Value.kind]
  | _ => simp [emitLiteral, Value.isValid, Value.kind]

theorem emitPieces_cons (i : Nat) (t : Target) (ts : List Target) :
    emitPieces params r i (t :: ts) =
      match t.pair? with
      | some (v, c) => do
        return (← emit params r v, ← emit params r c) :: (← emitPieces params r (i + 1) ts)
      | none => .error (.building "piecewise" (.notAPair i)) := by
  match t with
  | .call name [v, c] =>
      rw [emitPieces]
      by_cases hp : name = "pair"
      · simp [Target.pair?, pairOf?, hp]
      · simp [Target.pair?, pairOf?, hp]
  | .call _ [] | .call _ [_] | .call _ (_ :: _ :: _ :: _) => rfl
  | .var _ | .lit _ | .foreign _ _ | .absent => rfl

theorem emitAll_eq_mapM (ts : List Target) : emitAll params r ts = ts.mapM (emit params r) := by
  induction ts with
  | nil => rfl
  | cons t ts ih => rw [emitAll, List.mapM_cons, ih]

/-- A call is emitted if its name is known, it takes its arguments and these are emitted. -/
theorem exists_emit_call {name : String} (hr : r.Extends) (hname : name ≠ "piecewise")
    (args : List Target) :
    (∃ c, emit params r (.call name args) = .ok c) ↔ name ≠ "pair" ∧
      ((r.find? name).isSome = true ∧ Takes name args.length) ∧
        ∀ t ∈ args, ∃ c, emit params r t = .ok c := by
  rw [emit, if_neg (mt beq_iff_eq.1 hname), ← Outcome.exists_mapM_iff, emitAll_eq_mapM]
  constructor
  · rintro ⟨c, hc⟩
    obtain ⟨cs, hcs, hc⟩ := Outcome.bind_eq_ok.1 hc
    obtain ⟨hpair, hfind, htakes⟩ := (exists_emitCall_iff hr).1 ⟨c, hc⟩
    rw [← (Outcome.forall₂_of_mapM hcs).length_eq] at htakes
    exact ⟨hpair, ⟨hfind, htakes⟩, cs, hcs⟩
  · rintro ⟨hpair, ⟨hfind, htakes⟩, cs, hcs⟩
    rw [(Outcome.forall₂_of_mapM hcs).length_eq] at htakes
    rw [hcs]
    exact (exists_emitCall_iff hr).2 ⟨hpair, hfind, htakes⟩

/-- Emission judges expressions by real literals and callables that scripts can write. -/
theorem judges_emit (params : List String) (hr : r.Extends) : Target.Judges
    (fun v ↦ v.isValid = true ∧ v.kind ≠ .complex)
    (fun name count ↦ (r.find? name).isSome = true ∧ Takes name count)
    fun t ↦ ∃ c, emit params r t = .ok c where
  var name := by
    rw [emit]
    split
    · exact ⟨_, rfl⟩
    · exact ⟨_, rfl⟩
  lit v := by
    rw [emit]
    exact exists_emitLiteral_iff v
  call := exists_emit_call hr
  branches args := by
    rw [emit, if_pos (beq_self_eq_true _), ← exists_pieces_iff (fun _ ↦ rfl) emitPieces_cons 0]
    simp [Outcome.bind_eq_ok]
  foreign type text := by simp [emit]
  absent := by simp [emit]

end Script

/-! ## Acceptance -/

namespace Target

mutual

/-- The expression with all that stands in it. -/
def nodes : Target → List Target
  | .call name args => .call name args :: nodesAll args
  | t => [t]

def nodesAll : List Target → List Target
  | [] => []
  | t :: ts => nodes t ++ nodesAll ts

end

theorem forall_mem_nodesAll {P : Target → Prop} {ts : List Target} :
    (∀ s ∈ nodesAll ts, P s) ↔ ∀ t ∈ ts, ∀ s ∈ t.nodes, P s := by
  induction ts with
  | nil => simp [nodesAll]
  | cons t ts ih => rw [nodesAll, List.forall_mem_append, List.forall_mem_cons, ih]

/-- What scripts ask of an expression, its parts aside: a literal is not complex, and an application
has a number of arguments that can be written. -/
def Scriptable : Target → Prop
  | .lit v => v.kind ≠ .complex
  | .call name args => Script.Takes name args.length
  | _ => True

theorem forall_mem_nodes_call {P : Target → Prop} {name : String} {args : List Target} :
    (∀ s ∈ (Target.call name args).nodes, P s) ↔
      P (.call name args) ∧ ∀ t ∈ args, ∀ s ∈ t.nodes, P s := by
  rw [nodes, List.forall_mem_cons, forall_mem_nodesAll]

/-- Scripts ask nothing of special forms. -/
theorem scriptable_special {name : String} (h : name = "piecewise" ∨ name = "pair")
    (args : List Target) : Scriptable (.call name args) := by
  rcases h with rfl | rfl
  all_goals constructor <;> simp

/-- To ask for more of every literal and of every application is a judgement again. -/
theorem judges_scriptable (r : Registry) : Judges
    (fun v ↦ v.isValid = true ∧ v.kind ≠ .complex)
    (fun name count ↦ (r.find? name).isSome = true ∧ Script.Takes name count)
    fun t ↦ t.WellFormed r ∧ ∀ s ∈ t.nodes, s.Scriptable where
  var name := ⟨.var name, by simp [nodes, Scriptable]⟩
  lit v := by
    rw [WellFormed, judges_formed.lit]
    simp [nodes, Scriptable]
  call {name} hname args := by
    rw [WellFormed, judges_formed.call hname, forall_mem_nodes_call]
    constructor
    · rintro ⟨⟨hpair, hfind, hformed⟩, htakes, hnodes⟩
      exact ⟨hpair, ⟨hfind, htakes⟩, fun t ht ↦ ⟨hformed t ht, hnodes t ht⟩⟩
    · rintro ⟨hpair, ⟨hfind, htakes⟩, hall⟩
      exact ⟨⟨hpair, hfind, fun t ht ↦ (hall t ht).1⟩, htakes, fun t ht ↦ (hall t ht).2⟩
  branches args := by
    rw [WellFormed, judges_formed.branches, forall_mem_nodes_call]
    have hspecial := scriptable_special (.inl rfl) args
    constructor
    · rintro ⟨⟨pieces, rfl, hformed⟩, -, hnodes⟩
      refine ⟨pieces, rfl, fun p hp ↦ ?_⟩
      have hpair := (forall_mem_nodes_call.1 (hnodes _ (List.mem_map_of_mem hp))).2
      exact ⟨⟨(hformed p hp).1, hpair p.1 (by simp)⟩, (hformed p hp).2, hpair p.2 (by simp)⟩
    · rintro ⟨pieces, rfl, hall⟩
      refine ⟨⟨pieces, rfl, fun p hp ↦ ⟨(hall p hp).1.1, (hall p hp).2.1⟩⟩, hspecial, ?_⟩
      rw [List.forall_mem_map]
      intro p hp
      refine forall_mem_nodes_call.2 ⟨scriptable_special (.inr rfl) _, ?_⟩
      simp only [List.forall_mem_cons]
      exact ⟨(hall p hp).1.2, (hall p hp).2.2, by simp⟩
  foreign type text h := judges_formed.foreign type text h.1
  absent h := judges_formed.absent h.1

end Target

namespace Function

/-- Over the default callables and others, the interpreter compiles exactly the well-formed
expressions, and scripts are emitted for exactly those among them whose literals are real and whose
applications have a number of arguments that can be written. -/
theorem exists_compile_iff_wellFormed {fns : Registry} (hfns : ∀ e ∈ fns, e.2.isSome = true)
    {params : List String} (hparams : params.Nodup) (t : Target) :
    let r : Registry := Table.overlay Registry.builtin fns
    ((∃ f, compile Interpreter.backend r t params = .ok f) ↔ t.WellFormed r) ∧
      ((∃ c, Script.emit params r t = .ok c) ↔
        (∃ f, compile Interpreter.backend r t params = .ok f) ∧
          ∀ s ∈ t.nodes, s.Scriptable) := by
  intro r
  rw [exists_compile_iff hparams]
  exact ⟨Iff.rfl, (Script.judges_emit params (Registry.extends_overlay hfns)).unique
    (Target.judges_scriptable r) t⟩

/-- A difference of three below a choice compiles, and no script is emitted for it. -/
theorem exists_compile_iff_wellFormed_difference :
    let r : Registry := Table.overlay Registry.builtin [("f", some fun _ ↦ .ok (.bool true))]
    let x : Target := .var "x"
    let t : Target := .branches [(.call "f" [], .call "-" [x, x, x])]
    (∃ f, compile Interpreter.backend r t ["x"] = .ok f) ∧
      ¬∃ c, Script.emit ["x"] r t = .ok c := by
  intro r x t
  have hfns : ∀ e ∈ ([("f", some fun _ ↦ .ok (.bool true))] : Registry), e.2.isSome = true := by
    simp
  have hparams : ["x"].Nodup := by simp
  obtain ⟨hcompile, hemit⟩ := exists_compile_iff_wellFormed hfns hparams t
  constructor
  · refine hcompile.2 (.branches ?_ ?_)
    · simp only [List.forall_mem_cons]
      exact ⟨.call (by decide) (by decide) rfl (by simp), by simp⟩
    · simp only [List.forall_mem_cons]
      refine ⟨.call (by decide) (by decide) rfl ?_, by simp⟩
      simp only [List.forall_mem_cons]
      exact ⟨.var "x", .var "x", .var "x", by simp⟩
  · intro h
    have htakes : Script.Takes "-" 3 := (hemit.1 h).2 (.call "-" [x, x, x]) (by
      simp [t, Target.branches, Target.ofPiece, Target.nodes, Target.nodesAll])
    rcases htakes.minus rfl with h | h
    · cases h
    · cases h

end Function

end ExprCompiler
