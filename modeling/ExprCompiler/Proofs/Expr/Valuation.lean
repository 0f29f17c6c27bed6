import ExprCompiler.Expr.Build
import Mathlib.Algebra.BigOperators.Group.Finset.Basic
import Mathlib.Algebra.BigOperators.Ring.List
import Mathlib.Algebra.Field.Rat
import Mathlib.Data.List.Sort
import Mathlib.Data.String.Basic
import Mathlib.Tactic.Ring

/-!
# Exact values of expressions

A valuation reads sums and products as such and numbers as themselves, and gives every other
expression any rational. Main statements: the normalising constructors of sums and products keep
the value under every valuation (`Expr.value_addOf`, `Expr.value_mulOf`), and they stay within
every class of expressions without inexact numbers (`Expr.ExactClass.addOf`,
`Expr.ExactClass.mulOf`).
-/

namespace ExprCompiler.Expr

/-- What sums, products and numbers are worth, given what everything else is worth. -/
structure Valuation where
  value : Expr → ℚ
  value_num (q : ℚ) : value (.num q) = q
  value_add (ts : List Expr) : value (.add ts) = (ts.map value).sum
  value_mul (fs : List Expr) : value (.mul fs) = (fs.map value).prod

attribute [simp] Valuation.value_num Valuation.value_add Valuation.value_mul

mutual

/-- The value with everything but numbers, sums and products read by `η`. -/
def valueOver (η : Expr → ℚ) : Expr → ℚ
  | .num q => q
  | .add ts => (valuesOver η ts).sum
  | .mul fs => (valuesOver η fs).prod
  | e => η e

def valuesOver (η : Expr → ℚ) : List Expr → List ℚ
  | [] => []
  | e :: es => valueOver η e :: valuesOver η es

end

theorem valuesOver_eq_map (η : Expr → ℚ) (es : List Expr) :
    valuesOver η es = es.map (valueOver η) := by
  induction es with
  | nil => rfl
  | cons e es ih => rw [valuesOver, ih, List.map_cons]

/-- Any reading of the remaining expressions makes a valuation. -/
def Valuation.of (η : Expr → ℚ) : Valuation where
  value := valueOver η
  value_num _ := rfl
  value_add ts := by rw [valueOver, valuesOver_eq_map]
  value_mul fs := by rw [valueOver, valuesOver_eq_map]

/-- A class of expressions that has all exact numbers and no inexact one, and whose sums and
products are those of its members. -/
structure ExactClass (P : Expr → Prop) : Prop where
  num (q : ℚ) : P (.num q)
  float (x : Float) : ¬P (.float x)
  add {ts : List Expr} : P (.add ts) ↔ ∀ t ∈ ts, P t
  mul {fs : List Expr} : P (.mul fs) ↔ ∀ f ∈ fs, P f

mutual

/-- Whether no inexact number is a term or a factor, at any level of sums and products. -/
def IsExact : Expr → Prop
  | .float _ => False
  | .add ts => AllExact ts
  | .mul fs => AllExact fs
  | _ => True

def AllExact : List Expr → Prop
  | [] => True
  | e :: es => IsExact e ∧ AllExact es

end

theorem allExact_iff {es : List Expr} : AllExact es ↔ ∀ e ∈ es, IsExact e := by
  induction es with
  | nil => simp [AllExact]
  | cons e es ih => simp [AllExact, ih]

/-- The constructors give exact expressions from exact ones. -/
theorem exactClass_isExact : ExactClass IsExact where
  num _ := trivial
  float _ := id
  add := allExact_iff
  mul := allExact_iff

variable {P : Expr → Prop} {es : List Expr}

/-! ## Flattening -/

/-- What holds of expressions, and with a sum of its terms, holds of all their terms. -/
theorem forall_mem_termsOf (hadd : ∀ ts, P (.add ts) → ∀ t ∈ ts, P t) (hes : ∀ e ∈ es, P e) :
    ∀ e ∈ es.flatMap termsOf, P e := by
  intro e he
  obtain ⟨t, ht, he⟩ := List.mem_flatMap.1 he
  cases t with
  | add ts => exact hadd ts (hes _ ht) e he
  | _ => exact List.mem_singleton.1 he ▸ hes _ ht

theorem forall_mem_factorsOf (hmul : ∀ fs, P (.mul fs) → ∀ f ∈ fs, P f) (hes : ∀ e ∈ es, P e) :
    ∀ e ∈ es.flatMap factorsOf, P e := by
  intro e he
  obtain ⟨t, ht, he⟩ := List.mem_flatMap.1 he
  cases t with
  | mul fs => exact hmul fs (hes _ ht) e he
  | _ => exact List.mem_singleton.1 he ▸ hes _ ht

/-- Flattening sums keeps their total. -/
theorem sum_termsOf (v : Valuation) (es : List Expr) :
    ((es.flatMap termsOf).map v.value).sum = (es.map v.value).sum := by
  induction es with
  | nil => rfl
  | cons e es ih =>
      rw [List.flatMap_cons, List.map_append, List.sum_append, ih, List.map_cons, List.sum_cons]
      congr 1
      cases e with
      | add ts => rw [termsOf, v.value_add]
      | _ => simp [termsOf]

theorem prod_factorsOf (v : Valuation) (es : List Expr) :
    ((es.flatMap factorsOf).map v.value).prod = (es.map v.value).prod := by
  induction es with
  | nil => rfl
  | cons e es ih =>
      rw [List.flatMap_cons, List.map_append, List.prod_append, ih, List.map_cons, List.prod_cons]
      congr 1
      cases e with
      | mul fs => rw [factorsOf, v.value_mul]
      | _ => simp [factorsOf]

/-! ## Numbers -/

/-- Without doubles a sum has no inexact part. -/
theorem inexactSum_eq_none (h : ∀ x, .float x ∉ es) : inexactSum es = none := by
  unfold inexactSum
  induction es with
  | nil => rfl
  | cons e es ih =>
      have hes : ∀ x, .float x ∉ es := fun x hx ↦ h x (List.mem_cons_of_mem _ hx)
      cases e with
      | float x => exact absurd List.mem_cons_self (h x)
      | _ => exact ih hes

theorem inexactProduct_eq_none (h : ∀ x, .float x ∉ es) : inexactProduct es = none := by
  unfold inexactProduct
  induction es with
  | nil => rfl
  | cons e es ih =>
      have hes : ∀ x, .float x ∉ es := fun x hx ↦ h x (List.mem_cons_of_mem _ hx)
      cases e with
      | float x => exact absurd List.mem_cons_self (h x)
      | _ => exact ih hes

/-- The exact number that an expression is. -/
def number? : Expr → Option ℚ
  | .num q => some q
  | _ => none

theorem exactSum_eq_sum (es : List Expr) : exactSum es = (es.filterMap number?).sum := by
  rw [List.sum_eq_foldl, List.foldl_filterMap, exactSum]
  congr
  funext acc e
  cases e <;> rfl

theorem exactProduct_eq_prod (es : List Expr) : exactProduct es = (es.filterMap number?).prod := by
  rw [List.prod_eq_foldl, List.foldl_filterMap, exactProduct]
  congr
  funext acc e
  cases e <;> rfl

/-- Numbers and other factors make up the product. -/
theorem prod_number?_mul (v : Valuation) (h : ∀ x, .float x ∉ es) :
    (es.filterMap number?).prod * ((es.filter fun e ↦ !e.isNumber).map v.value).prod =
      (es.map v.value).prod := by
  induction es with
  | nil => simp
  | cons e es ih =>
      have ih := ih fun x hx ↦ h x (List.mem_cons_of_mem _ hx)
      rw [List.map_cons, List.prod_cons, ← ih]
      cases e with
      | num q =>
          have hq : number? (.num q) = some q := rfl
          rw [List.filterMap_cons_some hq, List.filter_cons_of_neg (by simp [isNumber]),
            List.prod_cons, v.value_num, mul_assoc]
      | float x => exact absurd List.mem_cons_self (h x)
      | _ =>
          rw [List.filterMap_cons_none rfl, List.filter_cons_of_pos rfl, List.map_cons,
            List.prod_cons, mul_left_comm]

/-- Numbers, symbols and other terms make up the sum. -/
theorem sum_number?_add (v : Valuation) (h : ∀ x, .float x ∉ es) :
    ((es.filterMap symbolName?).map fun s ↦ v.value (.sym s)).sum +
        ((es.filter fun e ↦ !e.isNumber && e.symbolName?.isNone).map v.value).sum +
        (es.filterMap number?).sum =
      (es.map v.value).sum := by
  induction es with
  | nil => simp
  | cons e es ih =>
      have ih := ih fun x hx ↦ h x (List.mem_cons_of_mem _ hx)
      rw [List.map_cons, List.sum_cons, ← ih]
      cases e with
      | num q =>
          have hq : number? (.num q) = some q := rfl
          rw [List.filterMap_cons_none rfl, List.filterMap_cons_some hq,
            List.filter_cons_of_neg (by simp [isNumber]), List.sum_cons, v.value_num]
          ring
      | float x => exact absurd List.mem_cons_self (h x)
      | sym s =>
          have hs : symbolName? (.sym s) = some s := rfl
          rw [List.filterMap_cons_some hs, List.filterMap_cons_none rfl,
            List.filter_cons_of_neg (by simp [symbolName?]), List.map_cons, List.sum_cons]
          ring
      | _ =>
          rw [List.filterMap_cons_none rfl, List.filterMap_cons_none rfl,
            List.filter_cons_of_pos rfl, List.map_cons, List.sum_cons]
          ring

/-! ## Products -/

/-- Sorting by text only reorders. -/
theorem sortByText_perm (es : List Expr) : (sortByText es).Perm es := by
  have h := (List.mergeSort_perm (es.map fun e ↦ (e.render, e))
    fun a b ↦ decide (a.1 ≤ b.1)).map Prod.snd
  rwa [List.map_map, Function.comp_def, List.map_id'] at h

/-- A leading number counts once, and the order of the factors does not matter. -/
theorem value_assembleProduct (v : Valuation) (lead : Option Expr) (es : List Expr) :
    v.value (assembleProduct lead es) = lead.elim 1 v.value * (es.map v.value).prod := by
  rw [← ((sortByText_perm es).map v.value).prod_eq]
  unfold assembleProduct
  split
  · rename_i e he
    simp [he]
  · simp
  · simp

theorem ExactClass.assembleProduct (h : ExactClass P) {lead : Option Expr}
    (hlead : ∀ c ∈ lead, P c) (hes : ∀ e ∈ es, P e) : P (assembleProduct lead es) := by
  have hsort : ∀ e ∈ sortByText es, P e := fun e he ↦ hes e ((sortByText_perm es).mem_iff.1 he)
  unfold Expr.assembleProduct
  split
  · rename_i e he
    exact hsort e (by simp [he])
  · exact h.mul.2 hsort
  · rename_i c
    exact h.mul.2 (List.forall_mem_cons.2 ⟨hlead c rfl, hsort⟩)

/-- The product keeps the value. -/
theorem value_mulOf (v : Valuation) (h : ExactClass P) (hes : ∀ e ∈ es, P e) :
    v.value (mulOf es) = (es.map v.value).prod := by
  have hflat := forall_mem_factorsOf (fun _ ↦ h.mul.1) hes
  have hfloat : ∀ x, .float x ∉ es.flatMap Expr.factorsOf := fun x hx ↦ h.float x (hflat _ hx)
  rw [← prod_factorsOf, ← prod_number?_mul v hfloat, ← exactProduct_eq_prod]
  unfold mulOf
  simp only [inexactProduct_eq_none hfloat]
  split
  · rename_i hzero
    simp [beq_iff_eq.1 hzero]
  · split
    · rename_i hnil
      simp [List.isEmpty_iff.1 hnil]
    · split
      · rename_i hone
        simp [value_assembleProduct, beq_iff_eq.1 hone]
      · simp [value_assembleProduct]

theorem ExactClass.mulOf (h : ExactClass P) (hes : ∀ e ∈ es, P e) : P (mulOf es) := by
  have hflat := forall_mem_factorsOf (fun _ ↦ h.mul.1) hes
  have hfloat : ∀ x, .float x ∉ es.flatMap Expr.factorsOf := fun x hx ↦ h.float x (hflat _ hx)
  have hothers : ∀ e ∈ (es.flatMap Expr.factorsOf).filter fun e ↦ !e.isNumber, P e :=
    fun e he ↦ hflat e (List.mem_of_mem_filter he)
  unfold Expr.mulOf
  simp only [inexactProduct_eq_none hfloat]
  split
  · exact h.num 0
  · split
    · exact h.num _
    · split
      · exact h.assembleProduct (by simp) hothers
      · exact h.assembleProduct (by simp [h.num]) hothers

/-! ## Collected symbols -/

theorem mem_distinctSorted {names : List String} {name : String} :
    name ∈ distinctSorted names ↔ name ∈ names := by
  fun_induction distinctSorted names with
  | case1 a b rest hab ih => simp [ih, beq_iff_eq.1 hab]
  | case2 a b rest hab ih => simp [ih]
  | case3 names h => rfl

/-- Sorted names have no repetition after the distinct ones are taken. -/
theorem nodup_distinctSorted {names : List String} (h : names.Pairwise (· ≤ ·)) :
    (distinctSorted names).Nodup := by
  fun_induction distinctSorted names with
  | case1 a b rest hab ih => exact ih h.of_cons
  | case2 a b rest hab ih =>
      refine List.nodup_cons.2 ⟨fun hmem ↦ ?_, ih h.of_cons⟩
      -- Everything behind `b` is at least `b`, and so above `a`.
      obtain ⟨ha, hrest⟩ := List.pairwise_cons.1 h
      rcases List.mem_cons.1 (mem_distinctSorted.1 hmem) with rfl | hmem
      · simp at hab
      · have hba := (List.pairwise_cons.1 hrest).1 a hmem
        exact hab (beq_iff_eq.2 (le_antisymm (ha b List.mem_cons_self) hba))
  | case3 names h' =>
      match names with
      | [] => exact List.nodup_nil
      | [a] => exact List.nodup_singleton a
      | a :: b :: rest => exact absurd rfl (h' a b rest)

theorem mem_sortNames {names : List String} {name : String} :
    name ∈ sortNames names ↔ name ∈ names := by
  rw [sortNames, mem_distinctSorted, List.mem_mergeSort]

theorem nodup_sortNames (names : List String) : (sortNames names).Nodup :=
  nodup_distinctSorted (List.pairwise_mergeSort' (· ≤ ·) names)

/-- A symbol as often as it occurs is worth that many times the symbol. -/
theorem value_repeated (v : Valuation) (names : List String) (name : String) :
    v.value (repeated names name) = names.count name * v.value (.sym name) := by
  simp only [repeated]
  split
  · rename_i hone
    simp [beq_iff_eq.1 hone]
  · rw [value_mulOf v exactClass_isExact (by simp [IsExact])]
    simp

/-- Collecting symbols keeps their sum. -/
theorem sum_repeated (v : Valuation) (names : List String) :
    ((sortNames names).map fun s ↦ v.value (repeated names s)).sum =
      (names.map fun s ↦ v.value (.sym s)).sum := by
  have hset : (sortNames names).toFinset = names.toFinset := by
    ext name
    simp [mem_sortNames]
  rw [Finset.sum_list_map_count names, ← hset, List.sum_toFinset _ (nodup_sortNames names)]
  simp only [value_repeated, nsmul_eq_mul]

theorem ExactClass.repeated (h : ExactClass P) {names : List String} {name : String}
    (hname : P (.sym name)) : P (repeated names name) := by
  simp only [Expr.repeated]
  split
  · exact hname
  · exact h.mulOf (by simp [h.num, hname])

/-! ## Sums -/

/-- What trails an exact sum is worth the number it stands for. -/
theorem sum_trailing (v : Valuation) (q : ℚ) : ((trailing none q).map v.value).sum = q := by
  simp only [trailing]
  split
  · rename_i hzero
    simp [beq_iff_eq.1 hzero]
  · simp

theorem ExactClass.trailing (h : ExactClass P) (q : ℚ) : ∀ e ∈ trailing none q, P e := by
  simp only [Expr.trailing]
  split
  · simp
  · simp [h.num]

/-- The sum keeps the value. -/
theorem value_addOf (v : Valuation) (h : ExactClass P) (hes : ∀ e ∈ es, P e) :
    v.value (addOf es) = (es.map v.value).sum := by
  have hflat := forall_mem_termsOf (fun _ ↦ h.add.1) hes
  have hfloat : ∀ x, .float x ∉ es.flatMap Expr.termsOf := fun x hx ↦ h.float x (hflat _ hx)
  rw [← sum_termsOf, ← sum_number?_add v hfloat, ← exactSum_eq_sum, ← sum_repeated,
    ← sum_trailing v (exactSum _)]
  have hmap (names : List String) : (fun s ↦ v.value (repeated names s)) =
      v.value ∘ repeated names := rfl
  rw [hmap, ← List.map_map, ← List.sum_append, ← List.map_append, ← List.sum_append,
    ← List.map_append]
  unfold addOf
  simp only [inexactSum_eq_none hfloat]
  split
  · rename_i hparts
    simp [hparts]
  · rename_i e hparts
    simp [hparts]
  · rw [v.value_add]

theorem ExactClass.addOf (h : ExactClass P) (hes : ∀ e ∈ es, P e) : P (addOf es) := by
  have hflat := forall_mem_termsOf (fun _ ↦ h.add.1) hes
  have hfloat : ∀ x, .float x ∉ es.flatMap Expr.termsOf := fun x hx ↦ h.float x (hflat _ hx)
  unfold Expr.addOf
  simp only [inexactSum_eq_none hfloat]
  have hparts : ∀ e ∈ (sortNames ((es.flatMap Expr.termsOf).filterMap symbolName?)).map
        (Expr.repeated ((es.flatMap Expr.termsOf).filterMap symbolName?)) ++
      ((es.flatMap Expr.termsOf).filter fun e ↦ !e.isNumber && e.symbolName?.isNone) ++
      Expr.trailing none (exactSum (es.flatMap Expr.termsOf)), P e := by
    intro e he
    rcases List.mem_append.1 he with he | he
    · rcases List.mem_append.1 he with he | he
      · obtain ⟨name, hname, rfl⟩ := List.mem_map.1 he
        obtain ⟨t, ht, hs⟩ := List.mem_filterMap.1 (mem_sortNames.1 hname)
        cases t with
        | sym s =>
            obtain rfl := Option.some.inj hs
            exact h.repeated (hflat _ ht)
        | _ => cases hs
      · exact hflat e (List.mem_of_mem_filter he)
    · exact h.trailing _ e he
  split
  · exact h.num 0
  · rename_i e heq
    exact hparts e (by simp [heq])
  · exact h.add.2 hparts

/-- Under every valuation the sum that is built is worth the sum of its terms, and the product the
product of its factors, if no inexact number is added or multiplied at any level. -/
theorem Valuation.value_addOf_mulOf (v : Valuation) {ts fs : List Expr}
    (hts : ∀ t ∈ ts, t.IsExact) (hfs : ∀ f ∈ fs, f.IsExact) :
    v.value (addOf ts) = (ts.map v.value).sum ∧ v.value (mulOf fs) = (fs.map v.value).prod := by
  constructor
  · exact value_addOf v exactClass_isExact hts
  · exact value_mulOf v exactClass_isExact hfs

theorem Valuation.value_addOf_mulOf_nested :
    let v := Valuation.of fun | .sym _ => 3 | _ => 5
    let es := [.sym "x", .add [.sym "x", .num 2], .func "f" [], .num (-2)]
    (∀ e ∈ es, e.IsExact) ∧ v.value (addOf es) = 11 ∧ v.value (mulOf es) = -150 := by
  intro v es
  have hexact : ∀ e ∈ es, e.IsExact := by simp [es, IsExact, AllExact]
  obtain ⟨hsum, hprod⟩ := v.value_addOf_mulOf hexact hexact
  have hvalues : es.map v.value = [3, 3 + (2 + 0), 5, -2] := rfl
  rw [hsum, hprod, hvalues]
  refine ⟨hexact, ?_, ?_⟩
  · norm_num
  · norm_num

end ExprCompiler.Expr
