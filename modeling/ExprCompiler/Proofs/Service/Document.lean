import ExprCompiler.Proofs.Expr.RoundTrip
import ExprCompiler.Service.Document

/-!
# Documents of results

A document can be written if its numbers are finite. Main statements: its text then has numbers of
the grammar alone (`Document.legible_toJson`), and a document that is put together from those that
can be written can be written too (`Document.fits_list`, `Document.fits_record`).
-/

namespace ExprCompiler.Service.Document

/-! ## Numbers -/

@[simp] theorem allWritable_eq_true {ds : List Document} :
    allWritable ds = true ↔ ∀ d ∈ ds, d.isWritable = true := by
  induction ds with
  | nil => simp [allWritable]
  | cons d ds ih => rw [allWritable, Bool.and_eq_true, ih, List.forall_mem_cons]

@[simp] theorem fieldsWritable_eq_true {fields : List (String × Document)} :
    fieldsWritable fields = true ↔ ∀ f ∈ fields, f.2.isWritable = true := by
  induction fields with
  | nil => simp [fieldsWritable]
  | cons f fields ih => rw [fieldsWritable, Bool.and_eq_true, ih, List.forall_mem_cons]

/-- A number that had to be finite is written, as nothing if it is not. -/
theorem isWritable_finite (x : Float) : (finite x).isWritable = true := by
  unfold finite
  split
  · assumption
  · rfl

/-- Numbers are written if and only if all of them are finite. -/
theorem isWritable_numbers {xs : List Float} :
    (numbers xs).isWritable = true ↔ ∀ x ∈ xs, x.isFinite = true := by
  rw [numbers, isWritable, allWritable_eq_true, List.forall_mem_map]
  rfl

theorem toJsonAll_eq_map (ds : List Document) : toJsonAll ds = ds.map toJson := by
  induction ds with
  | nil => rfl
  | cons d ds ih => rw [toJsonAll, ih, List.map_cons]

theorem toJsonFields_eq_map (fields : List (String × Document)) :
    toJsonFields fields = fields.map fun f ↦ (f.1, f.2.toJson) := by
  induction fields with
  | nil => rfl
  | cons f fields ih => rw [toJsonFields, ih, List.map_cons]

open ExprCompiler.Expr (Legible legible_array legible_object)

mutual

/-- A document with finite numbers alone is written with numbers alone. -/
theorem legible_toJson : (d : Document) → d.isWritable = true → Legible d.toJson
  | .absent, _ | .bool _, _ | .text _, _ => ⟨rfl, rfl⟩
  | .number x, h => by
      obtain ⟨hnan, hinf⟩ := Numeral.isNaN_isInf_of_isFinite h
      refine ⟨Numeral.isNumberText_document hnan hinf, ?_⟩
      rw [toJson, Json.inRange, Numeral.readFloat_document hnan hinf]
      rfl
  | .list items, h => legible_array (legible_toJsonAll items h)
  | .record fields, h => by
      refine legible_object fun f hf ↦ legible_toJsonFields fields h f ?_
      exact List.mem_mergeSort.1 hf

/-- What can be written as a list becomes documents that can be read back. -/
theorem legible_toJsonAll :
    (ds : List Document) → allWritable ds = true → ∀ j ∈ toJsonAll ds, Legible j
  | [], _ => by simp [toJsonAll]
  | d :: ds, h => by
      obtain ⟨hd, hds⟩ := Bool.and_eq_true_iff.1 h
      rw [toJsonAll, List.forall_mem_cons]
      exact ⟨legible_toJson d hd, legible_toJsonAll ds hds⟩

/-- The fields of a record that can be written can be read back. -/
theorem legible_toJsonFields :
    (fields : List (String × Document)) → fieldsWritable fields = true →
      ∀ f ∈ toJsonFields fields, Legible f.2
  | [], _ => by simp [toJsonFields]
  | (name, d) :: fields, h => by
      obtain ⟨hd, hfields⟩ := Bool.and_eq_true_iff.1 h
      rw [toJsonFields, List.forall_mem_cons]
      exact ⟨legible_toJson d hd, legible_toJsonFields fields hfields⟩

end

/-! ## Depths -/

/-- An object is as deep as the deepest of its fields. -/
theorem depthOfFields_le {fields : List (String × Json)} {n : Nat} :
    Json.depthOfFields fields ≤ n ↔ ∀ f ∈ fields, f.2.depth ≤ n := by
  induction fields with
  | nil => simp [Json.depthOfFields]
  | cons f fields ih => rw [Json.depthOfFields, max_le_iff, ih, List.forall_mem_cons]

/-- A list is nested once more than what is in it. -/
theorem depth_list {ds : List Document} {n : Nat} (h : ∀ d ∈ ds, d.toJson.depth ≤ n) :
    (Document.list ds).toJson.depth ≤ n + 1 := by
  rw [toJson, Json.depth, toJsonAll_eq_map]
  exact Nat.succ_le_succ (Expr.depthOfItems_le.2 (List.forall_mem_map.2 h))

/-- A record is nested once more than what is in it. -/
theorem depth_record {fields : List (String × Document)} {n : Nat}
    (h : ∀ f ∈ fields, f.2.toJson.depth ≤ n) : (Document.record fields).toJson.depth ≤ n + 1 := by
  rw [toJson, Json.depth, toJsonFields_eq_map]
  refine Nat.succ_le_succ (depthOfFields_le.2 fun f hf ↦ ?_)
  obtain ⟨g, hg, rfl⟩ := List.mem_map.1 (List.mem_mergeSort.1 hf)
  exact h g hg

/-- A document that can be written and is nested no deeper than so. -/
structure Fits (n : Nat) (d : Document) : Prop where
  writable : d.isWritable = true
  depth : d.toJson.depth ≤ n

theorem fits_absent (n : Nat) : Fits n .absent := ⟨rfl, Nat.zero_le n⟩
theorem fits_bool (n : Nat) (b : Bool) : Fits n (.bool b) := ⟨rfl, Nat.zero_le n⟩
theorem fits_text (n : Nat) (s : String) : Fits n (.text s) := ⟨rfl, Nat.zero_le n⟩

/-- A finite number or nothing fits at any depth. -/
theorem fits_finite (n : Nat) (x : Float) : Fits n (finite x) := by
  refine ⟨isWritable_finite x, ?_⟩
  unfold finite
  split <;> exact Nat.zero_le n

/-- A list takes one level of nesting. -/
theorem fits_list {n : Nat} {ds : List Document} (h : ∀ d ∈ ds, Fits n d) :
    Fits (n + 1) (.list ds) :=
  ⟨allWritable_eq_true.2 fun d hd ↦ (h d hd).writable, depth_list fun d hd ↦ (h d hd).depth⟩

/-- A record takes one level of nesting. -/
theorem fits_record {n : Nat} {fields : List (String × Document)}
    (h : ∀ f ∈ fields, Fits n f.2) : Fits (n + 1) (.record fields) :=
  ⟨fieldsWritable_eq_true.2 fun f hf ↦ (h f hf).writable, depth_record fun f hf ↦ (h f hf).depth⟩

/-- Texts in a list take one level of nesting. -/
theorem fits_texts (n : Nat) (ss : List String) : Fits (n + 1) (texts ss) :=
  fits_list (List.forall_mem_map.2 fun s _ ↦ fits_text n s)

/-- Numbers in a list take one level of nesting. -/
theorem fits_finites (n : Nat) (xs : List Float) : Fits (n + 1) (finites xs) :=
  fits_list (List.forall_mem_map.2 fun x _ ↦ fits_finite n x)

end ExprCompiler.Service.Document
