import ExprCompiler.Proofs.Script.Reading
import ExprCompiler.Proofs.Semantics.Target
import ExprCompiler.Script.Run

/-!
# The meaning of target expressions in scripts

`Script.value` gives a target expression the value that scripts give it, under bindings of names
and with no script in between. What a script makes of a name that it has to quote is a parameter.
Main statement: the text of an emitted script is read as a term that runs to exactly that value, or
to that failure, where a name is what a script engine reads in its literal
(`Script.exists_read?_source`).
-/

namespace ExprCompiler.Script

/-! ## Operations -/

/-- An operation on one datum. -/
def unary (f : Datum → Datum) : List Datum → Option Datum
  | [d] => some (f d)
  | _ => none

/-- An operation on two data. -/
def binary (f : Datum → Datum → Datum) : List Datum → Option Datum
  | [a, b] => some (f a b)
  | _ => none

/-- The operations that scripts write out, for the numbers of arguments that they have them for. -/
def operations : Table (List Datum → Option Datum) := [
  ("-", fun
    | [d] => some (.number (-d.toNumber))
    | [a, b] => some (.number (a.toNumber - b.toNumber))
    | _ => none),
  ("!", unary fun d ↦ .bool !d.truth),
  ("==", binary fun a b ↦ .bool (a.toNumber == b.toNumber)),
  ("!=", binary fun a b ↦ .bool (a.toNumber != b.toNumber)),
  ("identity", unary id),
  ("real", unary id),
  ("conj", unary id),
  ("log", unary fun d ↦ .number d.toNumber.log)]

/-- Chains of operators and the functions that scripts have, for any number of arguments. -/
def function? (name : String) (ds : List Datum) : Option Datum :=
  match chain? name with
  | some op =>
    match ds with
    | [] => none
    | d :: ds => some (ds.foldl op.step d)
  | none => (mathFunctions.get? name).map (·.apply ds)

/-- What scripts compute by themselves. -/
def native? (name : String) (ds : List Datum) : Option Datum :=
  match operations.get? name with
  | some f => f ds
  | none => function? name ds

/-- The value of an application, where `read` says what becomes of a name in a script. -/
def apply (read : String → String) (r : Registry) (name : String) (ds : List Datum) :
    Except Failure Datum :=
  match native? name ds with
  | some d => .ok d
  | none => callNamed r (read name) ds

def literal : Value → Except Failure Datum
  | .bool b => .ok (.bool b)
  | .rational q =>
    let n := Numeral.nearest q.num
    .ok (.number (if q.den = 1 then n else n / Numeral.nearest q.den))
  | .float x => .ok (.number x)
  | v => .error (.building "" (.complexLiteral v))

/-! ## Values -/

mutual

/-- The value under bindings of names and of callables. -/
def value (read : String → String) (r : Registry) (ρ : Table Float) :
    Target → Except Failure Datum
  | .var name =>
    match ρ.get? name with
    | some x => .ok (.number x)
    | none => .error (.unbound (read name))
  | .lit v => literal v
  | .call name args =>
    if name = "piecewise" then firstBranch read r ρ args
    else if name = "&" then firstTruth read r ρ false args
    else if name = "|" then firstTruth read r ρ true args
    else do apply read r name (← values read r ρ args)
  | .foreign type _ => .error (.building "" (.unsupported type))
  | .absent => .error (.building "" (.unsupported "<nil>"))

/-- The values from left to right, up to the first failure. -/
def values (read : String → String) (r : Registry) (ρ : Table Float) :
    List Target → Except Failure (List Datum)
  | [] => .ok []
  | t :: ts => do
    let d ← value read r ρ t
    let ds ← values read r ρ ts
    return d :: ds

/-- The truth value `stop`, if an argument has it, and its opposite if none has. Arguments behind
the first that has it are not looked at. -/
def firstTruth (read : String → String) (r : Registry) (ρ : Table Float) (stop : Bool) :
    List Target → Except Failure Datum
  | [] => .ok (.bool !stop)
  | t :: ts => do
    if (← value read r ρ t).truth = stop then return .bool stop else firstTruth read r ρ stop ts

/-- The value of the first pair whose condition holds, and NaN if there is none. -/
def firstBranch (read : String → String) (r : Registry) (ρ : Table Float) :
    List Target → Except Failure Datum
  | [] => .ok (.number Elementary.nan)
  | .call name [v, c] :: rest =>
    if name = "pair" then do
      if (← value read r ρ c).truth then value read r ρ v else firstBranch read r ρ rest
    else .error (.building "piecewise" .pairOutside)
  | _ :: _ => .error (.building "piecewise" .pairOutside)

end

/-! ## Running what was emitted -/

section Run

variable {params formals : List String} {r : Registry} {env : List Float}

/-- Arguments that run come to as many data. -/
theorem length_of_runAll {ts : List Term} {ds : List Datum} (h : runAll r env ts = .ok ds) :
    ds.length = ts.length := by
  induction ts generalizing ds with
  | nil =>
      cases h
      rfl
  | cons t ts ih =>
      obtain ⟨d, -, h⟩ := Outcome.bind_eq_ok.1 h
      obtain ⟨ds', hds, h⟩ := Outcome.bind_eq_ok.1 h
      cases h
      rw [List.length_cons, List.length_cons, ih hds]

theorem runAll_cons (t : Term) (ts : List Term) : runAll r env (t :: ts) =
    run r env t >>= fun d ↦ runAll r env ts >>= fun ds ↦ .ok (d :: ds) := by
  rw [runAll]
  rfl

/-- After a run of terms only lists of their length matter. -/
theorem runAll_bind_congr {α : Type} {ts : List Term} {f g : List Datum → Except Failure α}
    (h : ∀ ds, ds.length = ts.length → f ds = g ds) :
    runAll r env ts >>= f = runAll r env ts >>= g := by
  cases hds : runAll r env ts with
  | error e => rfl
  | ok ds => exact h ds (length_of_runAll hds)

theorem runAll_singleton_bind {α : Type} (t : Term) (f : List Datum → Except Failure α) :
    runAll r env [t] >>= f = run r env t >>= fun d ↦ f [d] := by
  rw [runAll, runAll]
  cases run r env t <;> rfl

theorem runAll_pair_bind {α : Type} (a b : Term) (f : List Datum → Except Failure α) :
    runAll r env [a, b] >>= f = run r env a >>= fun x ↦ run r env b >>= fun y ↦ f [x, y] := by
  rw [runAll, runAll, runAll]
  cases run r env a <;> cases run r env b <;> rfl

/-- An operator that never decides by its first operand runs both. -/
theorem run_binary {op : Operator} (hop : ∀ d, op.decides d = false) (a b : Term) :
    run r env (.binary op a b) =
      run r env a >>= fun x ↦ run r env b >>= fun y ↦ .ok (op.apply x y) := by
  rw [run]
  cases run r env a with
  | error e => rfl
  | ok x => simp [hop]

/-- A chain runs all its operands, and then takes them together from the left. -/
theorem run_chain (op : Chain) (ts : List Term) (t : Term) :
    run r env (ts.foldl (.binary (.chain op)) t) =
      run r env t >>= fun d ↦ runAll r env ts >>= fun ds ↦ .ok (ds.foldl op.step d) := by
  induction ts generalizing t with
  | nil =>
      rw [List.foldl_nil]
      cases run r env t <;> rfl
  | cons u ts ih =>
      rw [List.foldl_cons, ih, run_binary (fun _ ↦ rfl), runAll]
      cases run r env t with
      | error e => rfl
      | ok x =>
          cases run r env u with
          | error e => rfl
          | ok y => cases runAll r env ts <;> rfl

theorem run_toNumber (t : Term) :
    run r env (.call .toNumber [t]) = (run r env t).map fun d ↦ .number d.toNumber := by
  rw [run, runAll_singleton_bind]
  cases run r env t <;> rfl

/-- A condition holds for everything but zero and falsehood. -/
theorem run_truth (t : Term) :
    run r env t.truth = (run r env t).map fun d ↦ .bool d.truth := by
  rw [Term.truth, run_binary (fun _ ↦ rfl), run_toNumber]
  cases run r env t <;> rfl

/-- Truth values from left to right until one is `stop`, which is then the result. -/
def runUntil (r : Registry) (env : List Float) (stop : Bool) : List Term → Except Failure Datum
  | [] => .ok (.bool !stop)
  | t :: ts => do
    if (← run r env t).truth = stop then return .bool stop else runUntil r env stop ts

/-- Conditions behind a condition are run until one of them decides. -/
theorem run_conditions {op : Operator} {stop : Bool}
    (hop : ∀ b, op.decides (.bool b) = (b == stop)) (happly : ∀ x y, op.apply x y = y)
    (ts : List Term) {t : Term} {x : Except Failure Bool}
    (ht : run r env t = x.map .bool) :
    run r env ((ts.map Term.truth).foldl (.binary op) t) =
      x >>= fun b ↦ if b = stop then .ok (.bool stop) else runUntil r env stop ts := by
  induction ts generalizing t x with
  | nil =>
      rw [List.map_nil, List.foldl_nil, ht]
      cases x with
      | error e => rfl
      | ok b => cases b <;> cases stop <;> rfl
  | cons u ts ih =>
      have hnext : run r env (.binary op t u.truth) = Except.map .bool
          (x >>= fun b ↦ if b = stop then .ok stop else (run r env u).map Datum.truth) := by
        rw [run, ht, run_truth]
        cases x with
        | error e => rfl
        | ok b =>
            by_cases hb : b = stop
            · simp [Except.map, hop, hb]
            · cases run r env u <;> simp [Except.map, hop, hb, happly]
      rw [List.map_cons, List.foldl_cons, ih hnext, runUntil]
      cases x with
      | error e => rfl
      | ok b =>
          by_cases hb : b = stop
          · simp [hb]
          · cases run r env u <;> simp [Except.map, hb]

/-- A choice runs its condition, and then one of its values. -/
theorem run_choice (c v w : Term) :
    run r env (.choice c.truth v w) =
      run r env c >>= fun d ↦ if d.truth then run r env v else run r env w := by
  rw [run, run_truth]
  cases run r env c <;> rfl

theorem run_signed (negative : Bool) (x : Float) :
    run r env (.signed negative x) = .ok (.number (if negative then -x else x)) := by
  cases negative <;> rfl

/-! ## Applications -/

/-- The names that are emitted in a way of their own, whatever the number of arguments. -/
def ownNames : List String :=
  ["pair", "-", "!", "==", "!=", "&", "|", "identity", "real", "conj"]

/-- A name without an operation, or with one for another number of arguments, is that of a function
or of a callable. -/
theorem native?_eq_function? {name : String} {ds : List Datum} (hown : name ∉ ownNames)
    (hlog : name = "log" → ds.length ≠ 1) : native? name ds = function? name ds := by
  by_cases hname : name = "log"
  · have hlen := hlog hname
    subst hname
    match ds with
    | [] | _ :: _ :: _ => rfl
    | [_] => exact absurd rfl hlen
  · have hkeys : ∀ e ∈ operations, e.1 ∈ ownNames ∨ e.1 = "log" := by decide
    have hnone : operations.get? name = none := by
      rw [Table.get?, Option.map_eq_none_iff, List.find?_eq_none]
      intro e he hkey
      obtain rfl := beq_iff_eq.1 hkey
      rcases hkeys e he with hkey | hkey
      · exact hown hkey
      · exact hname hkey
    rw [native?, hnone]

theorem globalMode?_of_functions {s : String} {f : Math} (h : functions.get? s = some f) :
    globalMode? s = some (.arguments (.math f)) := by
  have hnone : ∀ key ∈ ["true", "false", "NaN", "Infinity", "Number", "__call", "__unbound"],
      (functions.get? key).isSome = false := by decide
  have hne (key : String) (hkey : key ∈ ["true", "false", "NaN", "Infinity", "Number", "__call",
      "__unbound"]) : s ≠ key := by
    rintro rfl
    have := hnone s hkey
    rw [h] at this
    cases this
  unfold globalMode?
  split
  case h_8 => rw [h]; rfl
  all_goals exact absurd rfl (hne _ (by decide))

/-- The functions of scripts are called by their names there. -/
theorem modeOfName?_functionName (count : Nat) {name : String} {f : Math}
    (h : mathFunctions.get? name = some f) : isName (functionName name) = true ∧
      modeOfName? (formalNames count) (functionName name) = some (.arguments (.math f)) := by
  have hmem := Table.mem_of_get? h
  have hnames : ∀ key ∈ mathFunctions.map Prod.fst, isName (functionName key) = true := by decide
  have hkeys : (functions.map Prod.fst).Nodup := by decide
  have hfind : functions.get? (functionName name) = some f :=
    Table.get?_of_mem hkeys (List.mem_cons_of_mem _ (List.mem_map_of_mem hmem))
  have hlead : (functionName name).toList.head? ≠ some 'p' := by simp [functionName]
  refine ⟨hnames name (List.mem_map_of_mem hmem), ?_⟩
  rw [modeOfName?_formalNames count hlead]
  exact globalMode?_of_functions hfind

/-- An operand that runs to a value, whatever the arguments of the script are. -/
def Means (count : Nat) (r : Registry) (s : String) (value : List Float → Except Failure Datum) :
    Prop :=
  ∃ c, Operand (formalNames count) s c ∧ ∀ env, env.length = count → run r env c = value env

variable {count : Nat}

/-- A text means what is equal to its meaning for the right number of arguments. -/
theorem Means.congr {s : String} {v w : List Float → Except Failure Datum} (h : Means count r s v)
    (hvw : ∀ env, env.length = count → v env = w env) : Means count r s w := by
  obtain ⟨c, hc, hrun⟩ := h
  exact ⟨c, hc, fun env hlen ↦ (hrun env hlen).trans (hvw env hlen)⟩

/-- A name of the engine that stands for a number or a truth value. -/
theorem Means.global {s : String} {c : Term} {d : Datum} (hname : isName s = true)
    (hlead : s.toList.head? ≠ some 'p') (hmode : globalMode? s = some (.operator c))
    (hrun : ∀ env, run r env c = .ok d) : Means count r s fun _ ↦ .ok d :=
  ⟨c, .name hname (.name hname ((modeOfName?_formalNames count hlead).trans hmode)),
    fun env _ ↦ hrun env⟩

/-- Neither an operation nor a special form: a chain, a function of scripts, or a call back. -/
theorem means_emitNamed {name : String} {ss : List String} {cs : List Term} {s : String}
    (hcs : List.Forall₂ (Operand (formalNames count)) ss cs)
    (hnative : ∀ ds : List Datum, ds.length = ss.length → native? name ds = function? name ds)
    (h : emitNamed r name ss = .ok s) :
    Means count r s fun env ↦ runAll r env cs >>= apply Text.reread r name := by
  have hreads : List.Forall₂ (Reads (formalNames count)) ss cs := hcs.imp fun _ _ h ↦ h.reads
  unfold emitNamed at h
  split at h
  · rename_i op hop
    have hvalue {d : Datum} {ds : List Datum} (hlen : (d :: ds).length = ss.length) :
        apply Text.reread r name (d :: ds) = .ok (ds.foldl op.step d) := by
      rw [apply, hnative _ hlen, function?, hop]
    split at h
    · cases h
    · cases h
      cases hreads with
      | nil => contradiction
      | @cons s c ss cs hs hss =>
          refine ⟨_, .grouped (.chained (.chain op) hs hss), fun env _ ↦ ?_⟩
          dsimp only
          rw [run_chain, runAll_cons]
          cases run r env c with
          | error e => rfl
          | ok d =>
              cases hds : runAll r env cs with
              | error e => rfl
              | ok ds =>
                  refine (hvalue ?_).symm
                  simp [length_of_runAll hds, hss.length_eq]
  · rename_i hop
    split at h
    · rename_i f hf
      cases h
      obtain ⟨hname, hmode⟩ := modeOfName?_functionName count hf
      refine ⟨_, .applied hname (.applied hname hmode hreads), fun env _ ↦ ?_⟩
      rw [run]
      apply runAll_bind_congr
      intro ds hlen
      rw [apply, hnative ds (hlen.trans hcs.length_eq.symm), function?, hop, hf]
      rfl
    · rename_i hf
      split at h
      · cases h
      · cases h
        have hmode := modeOfName?_formalNames count (s := "__call") (by decide)
        refine ⟨_, .applied rfl (.named rfl hmode name hreads), fun env _ ↦ ?_⟩
        rw [run]
        apply runAll_bind_congr
        intro ds hlen
        rw [apply, hnative ds (hlen.trans hcs.length_eq.symm), function?, hop, hf]
        rfl

/-- What an application is emitted as. -/
inductive Emits (r : Registry) : String → List String → String → Prop where
  | neg (s : String) : Emits r "-" [s] (grouped ("-" ++ s))
  | minus (a b : String) : Emits r "-" [a, b] (chained .minus [a, b])
  | not (s : String) : Emits r "!" [s] (grouped ("!" ++ truthText s))
  | equal (a b : String) :
      Emits r "==" [a, b] (chained .same [applied "Number" [a], applied "Number" [b]])
  | unequal (a b : String) :
      Emits r "!=" [a, b] (chained .different [applied "Number" [a], applied "Number" [b]])
  | allOfNone : Emits r "&" [] "true"
  | all {ss : List String} (h : ss ≠ []) : Emits r "&" ss (chained .and (ss.map truthText))
  | anyOfNone : Emits r "|" [] "false"
  | any {ss : List String} (h : ss ≠ []) : Emits r "|" ss (chained .or (ss.map truthText))
  | through {name : String} (h : name ∈ ["identity", "real", "conj"]) (s : String) :
      Emits r name [s] (grouped s)
  | log (s : String) : Emits r "log" [s] (applied "Math.log" [s])
  | named {name : String} {ss : List String} {s : String} (hown : name ∉ ownNames)
      (hlog : name = "log" → ss.length ≠ 1) (h : emitNamed r name ss = .ok s) : Emits r name ss s

/-- What is emitted for a call has one of its forms. -/
theorem emits_of_emitCall {name : String} {ss : List String} {s : String}
    (h : emitCall r name ss = .ok s) : Emits r name ss s := by
  unfold emitCall at h
  split at h
  case h_22 =>
    refine .named ?_ (fun hname hlen ↦ ?_) h
    · simp only [ownNames, List.mem_cons, List.not_mem_nil, or_false]
      tauto
    · obtain ⟨t, ht⟩ := List.length_eq_one_iff.1 hlen
      tauto
  -- The other cases name the callable, and the arguments unless it takes any number.
  all_goals cases h
  case h_12 | h_14 => exact by constructor; assumption
  case h_15 | h_16 | h_17 => exact .through (by decide) _
  all_goals constructor

theorem modeOfName?_number :
    modeOfName? (formalNames count) "Number" = some (.arguments .toNumber) :=
  modeOfName?_formalNames count (by decide)

theorem exists_of_operands_one {s : String} {cs : List Term}
    (h : List.Forall₂ (Operand formals) [s] cs) : ∃ c, cs = [c] ∧ Operand formals s c := by
  obtain ⟨c, _, hs, hnil, rfl⟩ := List.forall₂_cons_left_iff.1 h
  cases hnil
  exact ⟨c, rfl, hs⟩

theorem exists_of_operands_two {a b : String} {cs : List Term}
    (h : List.Forall₂ (Operand formals) [a, b] cs) :
    ∃ c d, cs = [c, d] ∧ Operand formals a c ∧ Operand formals b d := by
  obtain ⟨c, _, ha, hrest, rfl⟩ := List.forall₂_cons_left_iff.1 h
  obtain ⟨d, rfl, hb⟩ := exists_of_operands_one hrest
  exact ⟨c, d, rfl, ha, hb⟩

/-- An operator between two operands that are taken as numbers. -/
theorem means_numbers {op : Operator} (hop : ∀ d, op.decides d = false) {a b : String} {c d : Term}
    (ha : Operand (formalNames count) a c) (hb : Operand (formalNames count) b d) :
    Means count r (chained op [applied "Number" [a], applied "Number" [b]]) fun env ↦
      run r env c >>= fun x ↦ run r env d >>= fun y ↦
        .ok (op.apply (.number x.toNumber) (.number y.toNumber)) := by
  refine ⟨_, .grouped (.chained op (ha.reads.toNumber modeOfName?_number)
    (.cons (hb.reads.toNumber modeOfName?_number) .nil)), fun env _ ↦ ?_⟩
  dsimp only [List.foldl]
  rw [run_binary hop, run_toNumber, run_toNumber]
  cases run r env c with
  | error e => rfl
  | ok x => cases run r env d <;> rfl

/-- An emitted application runs its arguments and applies what it stands for. -/
theorem means_emitCall {name : String} {ss : List String} {cs : List Term} {s : String}
    (hand : name ≠ "&") (hor : name ≠ "|")
    (hcs : List.Forall₂ (Operand (formalNames count)) ss cs) (h : emitCall r name ss = .ok s) :
    Means count r s fun env ↦ runAll r env cs >>= apply Text.reread r name := by
  cases emits_of_emitCall h with
  | neg s =>
      obtain ⟨c, rfl, hs⟩ := exists_of_operands_one hcs
      refine ⟨_, .grouped (hs.reads.neg hs.lead).grouped, fun env _ ↦ ?_⟩
      dsimp only
      rw [run, runAll_singleton_bind]
      rfl
  | minus a b =>
      obtain ⟨c, d, rfl, ha, hb⟩ := exists_of_operands_two hcs
      refine ⟨_, .grouped (.chained .minus ha.reads (.cons hb.reads .nil)), fun env _ ↦ ?_⟩
      dsimp only
      rw [runAll_pair_bind]
      exact run_binary (fun _ ↦ rfl) c d
  | not s =>
      obtain ⟨c, rfl, hs⟩ := exists_of_operands_one hcs
      have htruth := Operand.grouped (hs.reads.truth modeOfName?_number)
      refine ⟨_, .grouped (htruth.reads.not htruth.lead).grouped, fun env _ ↦ ?_⟩
      dsimp only
      rw [run, run_truth, runAll_singleton_bind]
      cases run r env c <;> rfl
  | equal a b =>
      obtain ⟨c, d, rfl, ha, hb⟩ := exists_of_operands_two hcs
      refine (means_numbers (fun _ ↦ rfl) ha hb).congr fun env _ ↦ ?_
      rw [runAll_pair_bind]
      rfl
  | unequal a b =>
      obtain ⟨c, d, rfl, ha, hb⟩ := exists_of_operands_two hcs
      refine (means_numbers (fun _ ↦ rfl) ha hb).congr fun env _ ↦ ?_
      rw [runAll_pair_bind]
      rfl
  | allOfNone | all _ => exact absurd rfl hand
  | anyOfNone | any _ => exact absurd rfl hor
  | through hname s =>
      obtain ⟨c, rfl, hs⟩ := exists_of_operands_one hcs
      have happly : (fun d ↦ apply Text.reread r name [d]) = pure := by
        simp only [List.mem_cons, List.not_mem_nil, or_false] at hname
        rcases hname with rfl | rfl | rfl <;> rfl
      refine ⟨_, .grouped hs.reads.grouped, fun env _ ↦ ?_⟩
      dsimp only
      rw [runAll_singleton_bind, happly, bind_pure]
  | log s =>
      have hmode : modeOfName? (formalNames count) "Math.log" =
          some (.arguments (.math (.unary Float.log))) := modeOfName?_formalNames count (by decide)
      obtain ⟨c, rfl, hs⟩ := exists_of_operands_one hcs
      refine ⟨_, .applied rfl (.applied rfl hmode (.cons hs.reads .nil)), fun env _ ↦ ?_⟩
      dsimp only
      rw [run, runAll_singleton_bind, runAll_singleton_bind]
      rfl
  | named hown hlog h =>
      refine means_emitNamed hcs (fun ds hlen ↦ native?_eq_function? hown fun hname ↦ ?_) h
      rw [hlen]
      exact hlog hname

/-- Emitted logic runs conditions until one of them decides. -/
theorem means_logic {op : Operator} {stop : Bool} (hop : ∀ b, op.decides (.bool b) = (b == stop))
    (happly : ∀ x y, op.apply x y = y) {ss : List String} {cs : List Term} (hne : ss ≠ [])
    (hcs : List.Forall₂ (Operand (formalNames count)) ss cs) :
    Means count r (chained op (ss.map truthText)) fun env ↦ runUntil r env stop cs := by
  cases hcs with
  | nil => exact absurd rfl hne
  | @cons s c ss cs hs hss =>
      have htruths : List.Forall₂ (Reads (formalNames count)) (ss.map truthText)
          (cs.map Term.truth) := by
        rw [List.forall₂_map_left_iff, List.forall₂_map_right_iff]
        exact hss.imp fun _ _ h ↦ h.reads.truth modeOfName?_number
      refine ⟨_, .grouped (.chained op (hs.reads.truth modeOfName?_number) htruths),
        fun env _ ↦ ?_⟩
      have hfirst : run r env c.truth = ((run r env c).map Datum.truth).map .bool := by
        rw [run_truth]
        cases run r env c <;> rfl
      dsimp only
      rw [run_conditions hop happly cs hfirst, runUntil]
      cases run r env c <;> rfl

/-- Conjunctions and disjunctions mean the first operand that decides them. -/
theorem means_emitLogic (stop : Bool) {ss : List String} {cs : List Term} {s : String}
    (hcs : List.Forall₂ (Operand (formalNames count)) ss cs)
    (h : emitCall r (if stop then "|" else "&") ss = .ok s) :
    Means count r s fun env ↦ runUntil r env stop cs := by
  cases hcs with
  | nil =>
      cases stop
      all_goals
        cases h
        exact .global rfl (by decide) rfl fun _ ↦ rfl
  | cons hs hss =>
      cases stop
      all_goals
        cases h
        exact means_logic (by decide) (fun _ _ ↦ rfl) (by simp) (.cons hs hss)

/-! ## Literals and expressions -/

/-- The text of a double means the double. -/
theorem means_floatText (x : Float) : Means count r (floatText x) fun _ ↦ .ok (.number x) := by
  rw [floatText]
  split_ifs with hnan hinf hneg
  · rw [Numeral.eq_nan hnan]
    exact .global rfl (by decide) rfl fun _ ↦ rfl
  · -- Of the two infinities only one is negative.
    have hx : x = -Elementary.infinity := by
      rcases Numeral.eq_infinity hinf with rfl | h
      · exact absurd hneg (by decide +kernel)
      · exact h
    obtain ⟨c, hc, hrun⟩ : Means count r "Infinity" fun _ ↦ .ok (.number Elementary.infinity) :=
      .global rfl (by decide) rfl fun _ ↦ rfl
    refine ⟨_, .grouped (hc.reads.neg hc.lead).grouped, fun env henv ↦ ?_⟩
    dsimp only at hrun ⊢
    rw [run, hrun env henv, hx]
    rfl
  · have hx : x = Elementary.infinity := by
      rcases Numeral.eq_infinity hinf with h | rfl
      · exact h
      · exact absurd (by decide +kernel) hneg
    rw [hx]
    exact .global rfl (by decide) rfl fun _ ↦ rfl
  · obtain ⟨negative, spelled, htext, hscale, -, hx⟩ := Numeral.exists_spelling_text .general
      (Bool.eq_false_of_not_eq_true hnan) (Bool.eq_false_of_not_eq_true hinf)
    rw [Numeral.general, htext]
    refine ⟨_, .grouped (.grouped (.signed negative spelled _)), fun env _ ↦ ?_⟩
    rw [run_signed, spelled.decimal_chars _ hscale, ← hx]

theorem means_emitLiteral {v : Value} {s : String} (h : emitLiteral v = .ok s) :
    Means count r s fun _ ↦ literal v := by
  cases v with
  | bool b =>
      cases h
      cases b with
      | true => exact .global rfl (by decide) rfl fun _ ↦ rfl
      | false => exact .global rfl (by decide) rfl fun _ ↦ rfl
  | rational q =>
      have hnum {env : List Float} :
          run r env (.signed (q.num < 0) (Numeral.nearestQuotient q.num.natAbs 1)) =
            .ok (.number (Numeral.nearest q.num)) := by
        rw [run_signed, Numeral.nearest_intCast]
        simp only [decide_eq_true_eq]
      rw [emitLiteral] at h
      by_cases hq : q.den = 1
      · rw [if_pos (beq_iff_eq.2 hq)] at h
        cases h
        refine ⟨_, .grouped (Reads.int q.num).grouped, fun env _ ↦ ?_⟩
        dsimp only
        rw [hnum, literal, if_pos hq]
      · rw [if_neg (mt beq_iff_eq.1 hq)] at h
        cases h
        refine ⟨_, .grouped (.chained (.chain .divide) (.int q.num) (.cons (.nat q.den) .nil)),
          fun env _ ↦ ?_⟩
        dsimp only
        rw [run_chain, hnum, literal, if_neg hq, Numeral.nearest_natCast]
        rfl
  | float x =>
      cases h
      exact means_floatText x
  | _ => cases h

mutual

/-- The text of an expression stands for its value. -/
theorem means_emit : (t : Target) → (s : String) → emit params r t = .ok s →
    Means params.length r s fun env ↦ value Text.reread r (params.zip env) t
  | .var name, s, h => by
      rw [emit] at h
      cases hi : params.idxOf? name with
      | some i =>
          rw [hi] at h
          cases h
          have hlt := (List.idxOf?_eq_some_iff.1 hi).1
          refine ⟨_, .name (isName_parameterName i) (.param hlt), fun env hlen ↦ ?_⟩
          dsimp only
          rw [value, Table.get?_zip hi, List.getElem?_eq_getElem (hlen ▸ hlt), run,
            List.getElem?_eq_getElem (hlen ▸ hlt)]
          rfl
      | none =>
          rw [hi] at h
          cases h
          refine ⟨_, .applied rfl (.named rfl (modeOfName?_formalNames _ (by decide)) name .nil),
            fun env _ ↦ ?_⟩
          dsimp only
          rw [value, Table.get?_zip_none hi]
          rfl
  | .lit v, s, h => by
      rw [emit] at h
      simp only [value]
      exact means_emitLiteral h
  | .call name ts, s, h => by
      rw [emit] at h
      simp only [value]
      by_cases hp : name = "piecewise"
      · rw [if_pos (beq_iff_eq.2 hp)] at h
        obtain ⟨ps, hps, h⟩ := Outcome.bind_eq_ok.1 h
        cases h
        simp only [if_pos hp]
        exact means_emitPieces ts 0 ps hps
      · rw [if_neg (mt beq_iff_eq.1 hp)] at h
        obtain ⟨ss, hss, h⟩ := Outcome.bind_eq_ok.1 h
        obtain ⟨cs, hcs, hrun⟩ := operands_emitAll ts ss hss
        simp only [if_neg hp]
        by_cases hand : name = "&"
        · subst hand
          exact (means_emitLogic false hcs h).congr fun env hlen ↦ (hrun env hlen).2 false
        · simp only [if_neg hand]
          by_cases hor : name = "|"
          · subst hor
            exact (means_emitLogic true hcs h).congr fun env hlen ↦ (hrun env hlen).2 true
          · simp only [if_neg hor]
            refine (means_emitCall hand hor hcs h).congr fun env hlen ↦ ?_
            rw [(hrun env hlen).1]
  | .foreign type text, s, h => by cases h
  | .absent, s, h => by cases h

/-- Emitted arguments are operands and mean the values of their targets. -/
theorem operands_emitAll : (ts : List Target) → (ss : List String) → emitAll params r ts = .ok ss →
    ∃ cs, List.Forall₂ (Operand (formalNames params.length)) ss cs ∧
      ∀ env, env.length = params.length →
        runAll r env cs = values Text.reread r (params.zip env) ts ∧
          ∀ stop, runUntil r env stop cs = firstTruth Text.reread r (params.zip env) stop ts
  | [], ss, h => by
      cases h
      exact ⟨[], .nil, fun env _ ↦ ⟨rfl, fun stop ↦ rfl⟩⟩
  | t :: ts, ss, h => by
      obtain ⟨s, hs, h⟩ := Outcome.bind_eq_ok.1 h
      obtain ⟨ss', hss, h⟩ := Outcome.bind_eq_ok.1 h
      cases h
      obtain ⟨c, hc, hrun⟩ := means_emit t s hs
      obtain ⟨cs, hcs, hruns⟩ := operands_emitAll ts ss' hss
      refine ⟨c :: cs, .cons hc hcs, fun env hlen ↦ ⟨?_, fun stop ↦ ?_⟩⟩
      · rw [runAll, values, hrun env hlen, (hruns env hlen).1]
      · rw [runUntil, firstTruth, hrun env hlen, (hruns env hlen).2]

/-- Emitted branches mean the first one whose condition holds. -/
theorem means_emitPieces : (ts : List Target) → (i : Nat) → (ps : List (String × String)) →
    emitPieces params r i ts = .ok ps →
      Means params.length r (branchesText ps) fun env ↦
        firstBranch Text.reread r (params.zip env) ts
  | [], i, ps, h => by
      cases h
      exact .global rfl (by decide) rfl fun _ ↦ rfl
  | .call name [v, c] :: ts, i, ps, h => by
      rw [emitPieces] at h
      by_cases hp : name = "pair"
      · simp only [hp, bne_self_eq_false, Bool.false_eq_true, if_false] at h
        obtain ⟨v', hv, h⟩ := Outcome.bind_eq_ok.1 h
        obtain ⟨c', hc, h⟩ := Outcome.bind_eq_ok.1 h
        obtain ⟨ps', hps, h⟩ := Outcome.bind_eq_ok.1 h
        cases h
        obtain ⟨tv, htv, hrunv⟩ := means_emit v v' hv
        obtain ⟨tc, htc, hrunc⟩ := means_emit c c' hc
        obtain ⟨tw, htw, hrunw⟩ := means_emitPieces ts (i + 1) ps' hps
        refine ⟨_, .grouped (.branch modeOfName?_number htv.reads htc.reads htw.reads),
          fun env hlen ↦ ?_⟩
        dsimp only
        rw [run_choice, hrunc env hlen, hrunv env hlen, hrunw env hlen, firstBranch, if_pos hp]
      · simp [bne_iff_ne, hp] at h
  | .var _ :: _, i, ps, h | .lit _ :: _, i, ps, h | .foreign _ _ :: _, i, ps, h
  | .absent :: _, i, ps, h | .call _ [] :: _, i, ps, h | .call _ [_] :: _, i, ps, h
  | .call _ (_ :: _ :: _ :: _) :: _, i, ps, h => by cases h

end

/-- Every emitted script can be read, and what is read runs to the value of the expression. -/
theorem exists_read?_source {t : Target} {s : String} (h : emit params r t = .ok s) :
    ∃ c, read? (source params.length s) = some c ∧ ∀ env, env.length = params.length →
      run r env c = value Text.reread r (params.zip env) t := by
  obtain ⟨c, hc, hrun⟩ := means_emit t s h
  exact ⟨c, read?_source hc.reads, hrun⟩

end Run

end ExprCompiler.Script
