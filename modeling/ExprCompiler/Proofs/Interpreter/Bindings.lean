import ExprCompiler.Proofs.Interpreter.Acceptance

/-!
# Bindings

The interpreter resolves variables to positions, and the same variable may have another position
over other parameters. Main statement: two functions of one expression evaluate alike for arguments
that bind its free variables alike, so neither the order of parameters nor unused ones matter
(`Function.eval_eq_of_bindings`).
-/

namespace ExprCompiler

namespace Target

variable {ρ σ : Table Value}

mutual

/-- The value depends on the bindings of the variables alone. -/
theorem value_congr (r : Registry) : (t : Target) →
    (∀ name ∈ t.vars, ρ.get? name = σ.get? name) → t.value r ρ = t.value r σ
  | .var name, h => by
      rw [value, value, Value.lookup, Value.lookup, h name (List.mem_singleton.2 rfl)]
  | .call name args, h => by
      rw [value, value, firstBranch_congr r args h, values_congr r args h]
  | .lit _, _ | .foreign _ _, _ | .absent, _ => rfl

/-- Values depend on the variables that occur only. -/
theorem values_congr (r : Registry) : (ts : List Target) →
    (∀ name ∈ varsAll ts, ρ.get? name = σ.get? name) → values r ρ ts = values r σ ts
  | [], _ => rfl
  | t :: ts, h => by
      obtain ⟨ht, hts⟩ := List.forall_mem_append.1 h
      rw [values, values, value_congr r t ht, values_congr r ts hts]

/-- So does the branch that is taken. -/
theorem firstBranch_congr (r : Registry) : (ts : List Target) →
    (∀ name ∈ varsAll ts, ρ.get? name = σ.get? name) → firstBranch r ρ ts = firstBranch r σ ts
  | [], _ => rfl
  | .call name [v, c] :: ts, h => by
      obtain ⟨hpair, hts⟩ := List.forall_mem_append.1 h
      obtain ⟨hv, hc⟩ := List.forall_mem_append.1 hpair
      obtain ⟨hc, -⟩ := List.forall_mem_append.1 hc
      rw [firstBranch, firstBranch, value_congr r v hv, value_congr r c hc,
        firstBranch_congr r ts hts]
  | .var _ :: _, _ | .lit _ :: _, _ | .foreign _ _ :: _, _ | .absent :: _, _
  | .call _ [] :: _, _ | .call _ [_] :: _, _ | .call _ (_ :: _ :: _ :: _) :: _, _ => rfl

end

end Target

/-- Over distinct parameters, a name is bound to the argument that stands at its place. -/
theorem Table.get?_zip_eq_some {α : Type} {params : List String} (hparams : params.Nodup)
    {args : List α} {name : String} {a : α} :
    Table.get? (params.zip args) name = some a ↔ (name, a) ∈ params.zip args := by
  induction params generalizing args with
  | nil => simp [Table.get?]
  | cons p ps ih =>
      obtain ⟨hp, hps⟩ := List.nodup_cons.1 hparams
      cases args with
      | nil => simp [Table.get?]
      | cons b bs =>
          rw [List.zip_cons_cons, Table.get?_cons, List.mem_cons, Prod.mk.injEq, ← ih hps]
          by_cases hname : p = name
          · subst hname
            have hnone := Table.get?_zip_none (List.idxOf?_eq_none_iff.2 hp) bs
            simp [hnone, eq_comm]
          · simp [hname, Ne.symm hname]

namespace Function

/-- Functions of one expression over distinct parameters are there together, and evaluate alike for
valid arguments that bind the same of its free variables to the same values. -/
theorem eval_eq_of_bindings (r : Registry) (t : Target) {ps qs : List String} (hps : ps.Nodup)
    (hqs : qs.Nodup) {as bs : List Value} (has : as.length = ps.length)
    (hbs : bs.length = qs.length) (hvas : ∀ v ∈ as, v.isValid = true)
    (hvbs : ∀ v ∈ bs, v.isValid = true)
    (h : ∀ name ∈ t.freeVars, ∀ v, (name, v) ∈ ps.zip as ↔ (name, v) ∈ qs.zip bs) :
    ((∃ f, compile Interpreter.backend r t ps = .ok f) ↔
        ∃ g, compile Interpreter.backend r t qs = .ok g) ∧
      ∀ f g, compile Interpreter.backend r t ps = .ok f →
        compile Interpreter.backend r t qs = .ok g → f.eval as = g.eval bs := by
  constructor
  · rw [exists_compile_iff hps, exists_compile_iff hqs]
  · intro f g hf hg
    rw [(eval_of_compile hf).2 as has hvas, (eval_of_compile hg).2 bs hbs hvbs]
    apply Target.value_congr
    intro name hname
    apply Option.ext
    intro v
    rw [Table.get?_zip_eq_some hps, Table.get?_zip_eq_some hqs]
    exact h name (Target.mem_firstOccurrences.2 hname) v

/-- A difference takes its arguments in another order, with one in between that it does not use, and
fails alike without one that it does. -/
theorem eval_eq_of_bindings_difference :
    let t : Target := .call "-" [.var "x", .var "y"]
    ∃ f g h k, compile Interpreter.backend .builtin t ["x", "y"] = .ok f ∧
      compile Interpreter.backend .builtin t ["y", "z", "x"] = .ok g ∧
      compile Interpreter.backend .builtin t ["x"] = .ok h ∧
      compile Interpreter.backend .builtin t ["z", "x"] = .ok k ∧
      f.eval [.int 7, .int 5] = g.eval [.int 5, .bool true, .int 7] ∧
      h.eval [.int 7] = k.eval [.bool true, .int 7] := by
  intro t
  have hfree : t.freeVars = ["x", "y"] := rfl
  have hcompile (ps : List String) (hps : ps.Nodup) :
      ∃ f, compile Interpreter.backend .builtin t ps = .ok f := by
    refine (exists_compile_iff hps t).2 (.call (by decide) (by decide) rfl ?_)
    simp only [List.forall_mem_cons]
    exact ⟨.var "x", .var "y", by simp⟩
  have hxy : ["x", "y"].Nodup := by simp
  have hyzx : ["y", "z", "x"].Nodup := by simp
  have hx : ["x"].Nodup := by simp
  have hzx : ["z", "x"].Nodup := by simp
  obtain ⟨f, hf⟩ := hcompile _ hxy
  obtain ⟨g, hg⟩ := hcompile _ hyzx
  obtain ⟨h, hh⟩ := hcompile _ hx
  obtain ⟨k, hk⟩ := hcompile _ hzx
  refine ⟨f, g, h, k, hf, hg, hh, hk, ?_, ?_⟩
  · refine (eval_eq_of_bindings .builtin t hxy hyzx rfl rfl ?_ ?_ ?_).2 f g hf hg
    · simp [Value.int, Value.isValid]
    · simp [Value.int, Value.isValid]
    · simp [hfree]
  · refine (eval_eq_of_bindings .builtin t hx hzx rfl rfl ?_ ?_ ?_).2 h k hh hk
    · simp [Value.int, Value.isValid]
    · simp [Value.int, Value.isValid]
    · simp [hfree]

end Function

end ExprCompiler
