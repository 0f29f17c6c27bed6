import ExprCompiler.Proofs.Sampling.Schedule
import ExprCompiler.Sampling.Broadcast

/-!
# Broadcasting, position by position

The common length of columns is found in one pass, which compares each column with what it saw
before. What it accepts can be said without an order of the columns: none is empty, and all that
have more than one element have the same length. Main statement: broadcasting then applies the
function once for every position of the longest column, and gives all values or the failure at the
first position that fails for good (`broadcast_elementwise`).
-/

namespace ExprCompiler.Sampling

/-! ## Shapes -/

/-- The length of the longest column; without columns it is one. -/
def longest (columns : List (List Float)) : Nat := (columns.map List.length).max?.getD 1

/-- The length that broadcasting goes by, or its complaint about the columns. -/
def shape (f : Function) (columns : List (List Float)) : Except Failure Nat := do
  if columns.length != f.params.length then throw (.arity f.params.length columns.length)
  commonLength 1 columns

variable {columns : List (List Float)} {n m : Nat}

/-- The pass with `n` found so far comes to `m` if all lengths but one are `m`, as `n` is unless
it is one itself. -/
theorem commonLength_eq_ok_iff : commonLength n columns = .ok m ↔
    (∀ a ∈ columns, a ≠ [] ∧ (a.length = 1 ∨ a.length = m)) ∧ (n = 1 ∨ n = m) ∧
      (n = m ∨ ∃ a ∈ columns, a.length = m) := by
  induction columns generalizing n with
  | nil =>
      rw [commonLength, Except.ok.injEq]
      simpa using Or.inr
  | cons a rest ih =>
      rw [commonLength, List.forall_mem_cons, List.exists_mem_cons_iff]
      split
      · rename_i hempty
        simp [List.isEmpty_iff.1 hempty]
      · rename_i hempty
        have hne : a ≠ [] := by simpa using hempty
        split
        · rename_i hlength
          have hlength : a.length = 1 ∨ a.length = n := by simpa using hlength
          rw [ih]
          grind
        · rename_i hlength
          have hlength : a.length ≠ 1 ∧ a.length ≠ n := by simpa using hlength
          split
          · rename_i hone
            have hone : n = 1 := by simpa using hone
            rw [ih]
            grind
          · rename_i hone
            have hone : n ≠ 1 := by simpa using hone
            simp only [reduceCtorEq, false_iff]
            grind

/-- Columns that go together, in whatever order: none is empty, and there is one length that all
of them have that have more than one element. -/
def Conform (columns : List (List Float)) : Prop :=
  (∀ a ∈ columns, a ≠ []) ∧ ∃ n, ∀ a ∈ columns, a.length = 1 ∨ a.length = n

/-- Conforming columns have one element or as many as the longest. -/
theorem Conform.length_eq (h : Conform columns) {a : List Float} (ha : a ∈ columns) :
    a.length = 1 ∨ a.length = longest columns := by
  obtain ⟨hne, n, hn⟩ := h
  obtain ⟨k, hk⟩ : ∃ k, (columns.map List.length).max? = some k :=
    Option.isSome_iff_exists.1 (List.isSome_max?_of_mem (List.mem_map_of_mem ha))
  have hlongest : longest columns = k := by rw [longest, hk, Option.getD_some]
  obtain ⟨hmem, hmax⟩ := List.max?_eq_some_iff.1 hk
  obtain ⟨b, hb, hbk⟩ := List.mem_map.1 hmem
  have hle : a.length ≤ k := hmax _ (List.mem_map_of_mem ha)
  have hpos : 0 < a.length := List.length_pos_iff.2 (hne a ha)
  rcases hn a ha with h1 | h1 <;> rcases hn b hb with h2 | h2 <;> omega

theorem longest_eq_one_or_mem (columns : List (List Float)) :
    1 = longest columns ∨ ∃ a ∈ columns, a.length = longest columns := by
  unfold longest
  cases hk : (columns.map List.length).max? with
  | none => exact .inl rfl
  | some k => exact .inr (by simpa using List.mem_map.1 (List.max?_eq_some_iff.1 hk).1)

/-- The pass finds the length of the longest column if the columns go together. -/
theorem Conform.commonLength_eq (h : Conform columns) :
    commonLength 1 columns = .ok (longest columns) :=
  commonLength_eq_ok_iff.2 ⟨fun a ha ↦ ⟨h.1 a ha, h.length_eq ha⟩, .inl rfl,
    longest_eq_one_or_mem columns⟩

/-- The pass goes through exactly the columns that go together. -/
theorem exists_commonLength_iff : (∃ n, commonLength 1 columns = .ok n) ↔ Conform columns := by
  constructor
  · rintro ⟨n, h⟩
    have hall := (commonLength_eq_ok_iff.1 h).1
    exact ⟨fun a ha ↦ (hall a ha).1, n, fun a ha ↦ (hall a ha).2⟩
  · intro h
    exact ⟨_, h.commonLength_eq⟩

variable {f : Function}

theorem shape_of_length (h : columns.length = f.params.length) :
    shape f columns = commonLength 1 columns := by
  simp [shape, h]

theorem shape_of_length_ne (h : columns.length ≠ f.params.length) :
    shape f columns = .error (.arity f.params.length columns.length) := by
  simp [shape, h]

/-- There is a common shape if the columns are as many as the parameters and conform. -/
theorem exists_shape_iff : (∃ n, shape f columns = .ok n) ↔
    columns.length = f.params.length ∧ Conform columns := by
  by_cases hlength : columns.length = f.params.length
  · rw [shape_of_length hlength, exists_commonLength_iff]
    exact (and_iff_right hlength).symm
  · rw [shape_of_length_ne hlength]
    simp [hlength]

/-- The arguments at every position, as broadcasting puts them together. -/
def argumentRows (columns : List (List Float)) : List (List Float) :=
  (List.range (longest columns)).map fun i ↦ columns.map (elementAt i)

/-- Without a common shape nothing is evaluated. -/
theorem broadcast_of_shape_error {e : Failure} (h : shape f columns = .error e) :
    broadcast (some f) columns = .error e := by
  by_cases hlength : columns.length = f.params.length
  · rw [shape_of_length hlength] at h
    simp [broadcast, hlength, h]
  · rw [shape_of_length_ne hlength] at h
    cases h
    simp [broadcast, hlength]

/-- Conforming columns are evaluated row by row. -/
theorem broadcast_of_conform (hlength : columns.length = f.params.length)
    (h : Conform columns) :
    broadcast (some f) columns = (argumentRows columns).mapM (point f.call) := by
  rw [argumentRows, List.mapM_map]
  simp [broadcast, hlength, h.commonLength_eq, Function.comp_def]

/-! ## Positions -/

/-- The arguments at a position: of each column the element there, or its only one. -/
def ArgumentsAt (i : Nat) : List (List Float) → List Float → Prop :=
  List.Forall₂ fun a x ↦ a = [x] ∨ a.length ≠ 1 ∧ a[i]? = some x

theorem elementAt_of_getElem? {i : Nat} {a : List Float} {x : Float} (hlength : a.length ≠ 1)
    (h : a[i]? = some x) : elementAt i a = x := by
  unfold elementAt
  split
  · exact absurd rfl hlength
  · rw [h, Option.getD_some]

/-- No column is left behind its last element. -/
theorem Conform.argumentsAt (h : Conform columns) {i : Nat} (hi : i < longest columns) :
    ArgumentsAt i columns (columns.map (elementAt i)) := by
  refine List.forall₂_map_right_iff.2 (List.forall₂_same.2 fun a ha ↦ ?_)
  by_cases hlength : a.length = 1
  · obtain ⟨x, rfl⟩ := List.length_eq_one_iff.1 hlength
    exact .inl rfl
  · have hia : i < a.length := by
      rw [(h.length_eq ha).resolve_left hlength]
      exact hi
    have hget := List.getElem?_eq_getElem hia
    exact .inr ⟨hlength, by rw [hget, elementAt_of_getElem? hlength hget]⟩

/-- Each row of arguments has one element of every column. -/
theorem Conform.argumentsAt_of_getElem? (h : Conform columns) {i : Nat} {args : List Float}
    (hargs : (argumentRows columns)[i]? = some args) : ArgumentsAt i columns args := by
  rw [argumentRows, List.getElem?_map] at hargs
  obtain ⟨j, hj, rfl⟩ := Option.map_eq_some_iff.1 hargs
  obtain ⟨hi, rfl⟩ := List.getElem?_eq_some_iff.1 hj
  rw [List.getElem_range]
  exact h.argumentsAt (by simpa using hi)

/-! ## Values -/

/-- A pass through points stops at the first one that fails for good. -/
theorem mapM_point_eq_error {eval : PointEvaluator} {before after : List (List Float)}
    {args : List Float} {e : Failure} (h : eval args = .error e) (hfatal : isFatal e = true)
    (hbefore : ∀ b ∈ before, ∀ e', eval b = .error e' → isFatal e' = false) :
    (before ++ args :: after).mapM (point eval) = .error e := by
  have hpoint := point_eq_error_iff.2 ⟨h, hfatal⟩
  refine Outcome.mapM_eq_error_iff.2 ⟨before, args, after, rfl, hpoint, ?_⟩
  intro b hb
  exact ⟨_, point_eq_valueAt (hbefore b hb)⟩

/-- A failure that ends the whole pass: one that has nothing to do with the position, or a fault,
which is no failure of the function but the end of the call. -/
def Stops (e : Failure) : Prop := Recurring e ∨ ∃ fault, e = .fault fault

theorem isFatal_eq_false {e : Failure} (h : ¬Stops e) : isFatal e = false := by
  rw [← Bool.not_eq_true, isFatal_iff]
  exact h

/-- Broadcasting goes by the shape of the columns, which passes if there are as many as parameters,
none is empty and all lengths but one are the same. It then applies the function to the elements at
each position of the longest column, and never looks behind the last element of one. The values
are those of the function, NaN where it fails; a failure that stops is the outcome in their place,
and of several the first. -/
theorem broadcast_elementwise (f : Function) (columns : List (List Float)) :
    ((∃ n, shape f columns = .ok n) ↔
      columns.length = f.params.length ∧ (∀ a ∈ columns, a ≠ []) ∧
        ∃ n, ∀ a ∈ columns, a.length = 1 ∨ a.length = n) ∧
    (∀ e, shape f columns = .error e → broadcast (some f) columns = .error e) ∧
    ((∃ n, shape f columns = .ok n) →
      (argumentRows columns).length = longest columns ∧
      (∀ i args, (argumentRows columns)[i]? = some args → ArgumentsAt i columns args) ∧
      ((∀ args ∈ argumentRows columns, ∀ e, f.call args = .error e → ¬Stops e) →
        broadcast (some f) columns = .ok ((argumentRows columns).map (valueAt f.call))) ∧
      ∀ before args after e, argumentRows columns = before ++ args :: after →
        f.call args = .error e → Stops e →
        (∀ b ∈ before, ∀ e', f.call b = .error e' → ¬Stops e') →
          broadcast (some f) columns = .error e) := by
  refine ⟨exists_shape_iff, fun e ↦ broadcast_of_shape_error, ?_⟩
  intro hshape
  obtain ⟨hlength, hconform⟩ := exists_shape_iff.1 hshape
  refine ⟨by rw [argumentRows, List.length_map, List.length_range], ?_, ?_, ?_⟩
  · intro i args hargs
    exact hconform.argumentsAt_of_getElem? hargs
  · intro hrows
    rw [broadcast_of_conform hlength hconform]
    exact Outcome.mapM_eq_ok fun args hargs ↦
      point_eq_valueAt fun e he ↦ isFatal_eq_false (hrows args hargs e he)
  · intro before args after e hsplit he hstops hbefore
    rw [broadcast_of_conform hlength hconform, hsplit]
    exact mapM_point_eq_error he (isFatal_iff.2 hstops) fun b hb e' he' ↦
      isFatal_eq_false (hbefore b hb e' he')

/-- The only element is repeated wherever its column stands, and two lengths do not go together. -/
theorem broadcast_elementwise_first :
    let r : Registry := [("first", some fun vs ↦ .ok (vs.headD .invalid))]
    ∃ f, Function.compile Interpreter.backend r (.call "first" [.var "x", .var "y"]) ["x", "y"] =
        .ok f ∧
      broadcast (some f) [[1, 2, 3], [7]] = .ok [1, 2, 3] ∧
      broadcast (some f) [[7], [1, 2, 3]] = .ok [7, 7, 7] ∧
      broadcast (some f) [[1, 2], [1, 2, 3]] = .error (.plotting (.lengths 2 3)) := by
  intro r
  refine ⟨_, rfl, ?_, ?_, ?_⟩
  · refine ((broadcast_elementwise _ _).2.2 ⟨3, rfl⟩).2.2.1 fun args hargs e he ↦ ?_
    obtain ⟨i, -, rfl⟩ := List.mem_map.1 hargs
    cases he
  · refine ((broadcast_elementwise _ _).2.2 ⟨3, rfl⟩).2.2.1 fun args hargs e he ↦ ?_
    obtain ⟨i, -, rfl⟩ := List.mem_map.1 hargs
    cases he
  · exact (broadcast_elementwise _ _).2.1 _ rfl

end ExprCompiler.Sampling
