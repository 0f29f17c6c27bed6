import ExprCompiler.Proofs.Expr.Constructed
import ExprCompiler.Proofs.Expr.Settled

/-!
# Reordering and regrouping products

A product of exact factors is told by two things, the product of its numbers and its other factors
up to order (`Expr.mulOf_eq_exactMul`, `Expr.same_exactMul`). Both are the same whatever the order
of the factors, and a product among the factors passes them on (`Expr.coefficient_mulOf`,
`Expr.otherFactors_mulOf`). Main statement: products may be reordered and regrouped
(`Expr.Constructed.same_mulOf`).
-/

namespace ExprCompiler.Expr

variable {P : Expr → Prop} {Named : String → Prop} {es fs gs as bs : List Expr} {q : ℚ}

/-! ## Exact products -/

/-- The product of the numbers among the factors, products taken apart. -/
def coefficient (es : List Expr) : ℚ := exactProduct (es.flatMap factorsOf)

/-- The factors that are no numbers, products taken apart. -/
def otherFactors (es : List Expr) : List Expr :=
  (es.flatMap factorsOf).filter fun e ↦ !e.isNumber

/-- The product of a number and of factors that are none. -/
def exactMul (q : ℚ) (others : List Expr) : Expr :=
  if q == 0 then .num 0
  else if others.isEmpty then .num q
  else if q == 1 then assembleProduct none others
  else assembleProduct (some (.num q)) others

/-- Without inexact factors, a product is made of its number and its other factors. -/
theorem mulOf_eq_exactMul (h : ExactClass P) (hes : ∀ e ∈ es, P e) :
    mulOf es = exactMul (coefficient es) (otherFactors es) := by
  have hfloat : inexactProduct (es.flatMap factorsOf) = none :=
    inexactProduct_eq_none fun x hx ↦ h.float x (forall_mem_factorsOf (fun _ ↦ h.mul.1) hes _ hx)
  unfold mulOf exactMul
  simp only [hfloat]
  rfl

/-- Expressions without inexact numbers at any level. -/
theorem exactClass_everywhere : ExactClass (Everywhere fun e ↦ ∀ x, e ≠ .float x) where
  num q := everywhere_of_args_eq_nil rfl (by simp)
  float x h := h [] _ .here x rfl
  add := by simp [everywhere_iff (e := .add _), args]
  mul := by simp [everywhere_iff (e := .mul _), args]

theorem coefficient_append (as bs : List Expr) :
    coefficient (as ++ bs) = coefficient as * coefficient bs := by
  simp [coefficient, exactProduct_eq_prod]

theorem otherFactors_append (as bs : List Expr) :
    otherFactors (as ++ bs) = otherFactors as ++ otherFactors bs := by
  simp [otherFactors]

/-- The coefficient does not depend on the order of the factors. -/
theorem coefficient_perm (h : as.Perm bs) : coefficient as = coefficient bs := by
  rw [coefficient, coefficient, exactProduct_eq_prod, exactProduct_eq_prod]
  exact ((h.flatMap_right factorsOf).filterMap number?).prod_eq

theorem otherFactors_perm (h : as.Perm bs) : (otherFactors as).Perm (otherFactors bs) :=
  (h.flatMap_right factorsOf).filter _

/-! ## Equality of products -/

/-- Lists with one text at each place are equal, if what has one text is equal. -/
theorem sameAll_of_map_render (hmap : as.map render = bs.map render)
    (h : ∀ a ∈ as, ∀ b ∈ bs, a.render = b.render → same a b = true) : sameAll as bs = true := by
  induction as generalizing bs with
  | nil =>
      obtain rfl : bs = [] := by simpa using hmap.symm
      rfl
  | cons a as ih =>
      obtain ⟨b, bs, rfl, hab, hmap⟩ := List.map_eq_cons_iff.1 hmap.symm
      have hhead : same a b = true := h a List.mem_cons_self b List.mem_cons_self hab.symm
      have htail : sameAll as bs = true := ih hmap.symm fun x hx y hy ↦
        h x (List.mem_cons_of_mem a hx) y (List.mem_cons_of_mem b hy)
      simp [sameAll, hhead, htail]

/-- Sorting by text puts equal factors in equal places, if factors of one text are equal. -/
theorem sameAll_sortByText (hperm : as.Perm bs)
    (htext : ∀ a ∈ as, ∀ b ∈ as, a.render = b.render → same a b = true) :
    sameAll (sortByText as) (sortByText bs) = true := by
  have hsorted : (sortByText as).Perm (sortByText bs) :=
    (sortByText_perm as).trans (hperm.trans (sortByText_perm bs).symm)
  have hmap : (sortByText as).map render = (sortByText bs).map render :=
    List.Perm.eq_of_pairwise (fun _ _ _ _ ↦ le_antisymm) (pairwise_sortByText as)
      (pairwise_sortByText bs) (hsorted.map render)
  refine sameAll_of_map_render hmap fun a ha b hb ↦ htext a (mem_sortByText.1 ha) b ?_
  exact mem_sortByText.1 (hsorted.mem_iff.2 hb)

theorem same_assembleProduct {lead : Option Expr} (hlead : ∀ c ∈ lead, same c c = true)
    (h : sameAll (sortByText as) (sortByText bs) = true) :
    same (assembleProduct lead as) (assembleProduct lead bs) = true := by
  unfold assembleProduct
  generalize sortByText as = xs at h
  generalize sortByText bs = ys at h
  cases lead with
  | some c => simp [same, sameAll, hlead c rfl, h]
  | none =>
      -- One factor stands for itself; none, or two and more, make a product.
      rcases xs with _ | ⟨x, _ | ⟨x', xs⟩⟩ <;> rcases ys with _ | ⟨y, _ | ⟨y', ys⟩⟩ <;>
        simp_all [same, sameAll]

/-- Products of the same factors in another order are the same if equal texts mean equal factors. -/
theorem same_exactMul (hperm : as.Perm bs)
    (htext : ∀ a ∈ as, ∀ b ∈ as, a.render = b.render → same a b = true) :
    same (exactMul q as) (exactMul q bs) = true := by
  have hsort := sameAll_sortByText hperm htext
  have hempty : as.isEmpty = bs.isEmpty := by
    rw [Bool.eq_iff_iff, List.isEmpty_iff, List.isEmpty_iff]
    exact ⟨fun h ↦ (h ▸ hperm).nil_eq.symm, fun h ↦ (h ▸ hperm).eq_nil⟩
  unfold exactMul
  rw [← hempty]
  split
  · simp [same]
  · split
    · simp [same]
    · split
      · exact same_assembleProduct (by simp) hsort
      · exact same_assembleProduct (by simp [same]) hsort

/-! ## Products among factors -/

/-- An assembled product has its coefficient and then its factors in order. -/
theorem factorsOf_assembleProduct (lead : Option Expr) (hes : ∀ e ∈ es, e.isProduct = false) :
    factorsOf (assembleProduct lead es) = lead.toList ++ sortByText es := by
  have hsorted : ∀ e ∈ sortByText es, e.isProduct = false :=
    fun e he ↦ hes e (mem_sortByText.1 he)
  unfold assembleProduct
  split
  · rename_i e he
    rw [he] at hsorted ⊢
    have hproduct := hsorted e List.mem_cons_self
    cases e with
    | mul fs => cases hproduct
    | _ => rfl
  · rfl
  · rfl

theorem coefficient_singleton (e : Expr) :
    coefficient [e] = ((factorsOf e).filterMap number?).prod := by
  simp [coefficient, exactProduct_eq_prod]

theorem otherFactors_singleton (e : Expr) :
    otherFactors [e] = (factorsOf e).filter fun e ↦ !e.isNumber := by
  simp [otherFactors]

/-- A product passes on its number and its other factors. -/
theorem parts_exactMul (hq : q ≠ 0)
    (hes : ∀ e ∈ es, e.isProduct = false ∧ e.isNumber = false) :
    coefficient [exactMul q es] = q ∧ otherFactors [exactMul q es] = sortByText es := by
  have hnumber : ∀ e ∈ sortByText es, e.isNumber = false :=
    fun e he ↦ (hes e (mem_sortByText.1 he)).2
  have hnumbers := (number?_of_isNumber hnumber).1
  have hothers : ((sortByText es).filter fun e ↦ !e.isNumber) = sortByText es :=
    List.filter_eq_self.2 fun e he ↦ by simp [hnumber e he]
  have hfactors (lead : Option Expr) :
      factorsOf (assembleProduct lead es) = lead.toList ++ sortByText es :=
    factorsOf_assembleProduct lead fun e he ↦ (hes e he).1
  rw [coefficient_singleton, otherFactors_singleton]
  unfold exactMul
  split
  · simp_all
  · split
    · rename_i hnil
      obtain rfl := List.isEmpty_iff.1 hnil
      simp [factorsOf, number?, isNumber, sortByText]
    · split
      · rename_i hone
        simp [hfactors, hnumbers, hothers, beq_iff_eq.1 hone]
      · have hnum : (num q).isNumber = true := rfl
        simp [hfactors, hnumbers, hothers, number?, hnum]

/-- The other factors of normal expressions are neither products nor numbers. -/
theorem otherFactors_spec (h : ∀ e ∈ es, Normal Named e) :
    ∀ e ∈ otherFactors es, e.isProduct = false ∧ e.isNumber = false := by
  intro e he
  obtain ⟨hmem, hnumber⟩ := List.mem_filter.1 he
  exact ⟨(normal_factorsOf h e hmem).2, by simpa using hnumber⟩

/-- Multiplication keeps the coefficient. -/
theorem coefficient_mulOf (h : ExactClass P) (hes : ∀ e ∈ es, P e)
    (hnormal : ∀ e ∈ es, Normal Named e) : coefficient [mulOf es] = coefficient es := by
  rw [mulOf_eq_exactMul h hes]
  by_cases hzero : coefficient es = 0
  · simp [hzero, exactMul, coefficient_singleton, factorsOf, number?]
  · exact (parts_exactMul hzero (otherFactors_spec hnormal)).1

/-- Multiplication sorts the other factors, unless the product vanishes. -/
theorem otherFactors_mulOf (h : ExactClass P) (hes : ∀ e ∈ es, P e)
    (hnormal : ∀ e ∈ es, Normal Named e) (hzero : coefficient es ≠ 0) :
    otherFactors [mulOf es] = sortByText (otherFactors es) := by
  rw [mulOf_eq_exactMul h hes]
  exact (parts_exactMul hzero (otherFactors_spec hnormal)).2

/-! ## The theorem -/

/-- A product among the factors may be taken apart. -/
theorem same_mulOf_cons_mulOf (h : ExactClass P) (hes : ∀ e ∈ fs ++ gs, P e)
    (hnormal : ∀ e ∈ fs, Normal Named e)
    (htext : ∀ a ∈ otherFactors (fs ++ gs), ∀ b ∈ otherFactors (fs ++ gs),
      a.render = b.render → same a b = true) :
    same (mulOf (mulOf fs :: gs)) (mulOf (fs ++ gs)) = true := by
  obtain ⟨hfs, hgs⟩ := List.forall_mem_append.1 hes
  have hcons : ∀ e ∈ [mulOf fs] ++ gs, P e :=
    List.forall_mem_append.2 ⟨by simpa using h.mulOf hfs, hgs⟩
  have hcoefficient : coefficient ([mulOf fs] ++ gs) = coefficient (fs ++ gs) := by
    rw [coefficient_append, coefficient_append, coefficient_mulOf h hfs hnormal]
  change same (mulOf ([mulOf fs] ++ gs)) (mulOf (fs ++ gs)) = true
  rw [mulOf_eq_exactMul h hcons, mulOf_eq_exactMul h hes, hcoefficient]
  by_cases hzero : coefficient fs = 0
  · -- A factor zero makes both products zero, whatever the other factors are.
    simp [coefficient_append, hzero, exactMul, same]
  · have hperm : (otherFactors ([mulOf fs] ++ gs)).Perm (otherFactors (fs ++ gs)) := by
      rw [otherFactors_append, otherFactors_append, otherFactors_mulOf h hfs hnormal hzero]
      exact (sortByText_perm _).append_right _
    refine same_exactMul hperm fun a ha b hb ↦ ?_
    exact htext a (hperm.mem_iff.1 ha) b (hperm.mem_iff.1 hb)

/-- Multiplication does not depend on the order of the factors if equal texts mean equal factors. -/
theorem same_mulOf_of_perm (h : ExactClass P) (hes : ∀ e ∈ fs, P e) (hperm : gs.Perm fs)
    (htext : ∀ a ∈ otherFactors fs, ∀ b ∈ otherFactors fs,
      a.render = b.render → same a b = true) :
    same (mulOf gs) (mulOf fs) = true := by
  have hgs : ∀ e ∈ gs, P e := fun e he ↦ hes e (hperm.mem_iff.1 he)
  have hothers := otherFactors_perm hperm
  rw [mulOf_eq_exactMul h hgs, mulOf_eq_exactMul h hes, coefficient_perm hperm]
  refine same_exactMul hothers fun a ha b hb ↦ ?_
  exact htext a (hothers.mem_iff.1 ha) b (hothers.mem_iff.1 hb)

/-- Products of constructed expressions without inexact numbers may be reordered and regrouped, as
long as factors that are written alike are equal. -/
theorem Constructed.same_mulOf {fs gs : List Expr} (h : ∀ e ∈ fs ++ gs, Constructed e)
    (hexact : ∀ e ∈ fs ++ gs, ∀ p x, ¬e.At p (.float x))
    (htext : ∀ a ∈ otherFactors (fs ++ gs), ∀ b ∈ otherFactors (fs ++ gs),
      a.render = b.render → same a b = true) :
    (∀ fs', fs'.Perm fs → same (Expr.mulOf fs') (Expr.mulOf fs) = true) ∧
      same (Expr.mulOf (Expr.mulOf fs :: gs)) (Expr.mulOf (fs ++ gs)) = true := by
  have hleaves : ∀ e ∈ fs ++ gs, e.Everywhere fun e ↦ ∀ x, e ≠ .float x := by
    rintro e he p _ hx x rfl
    exact hexact e he p x hx
  have hmem {a : Expr} (ha : a ∈ otherFactors fs) : a ∈ otherFactors (fs ++ gs) := by
    rw [otherFactors_append]
    exact List.mem_append_left _ ha
  have hnormal : ∀ e ∈ fs, Normal (fun _ ↦ True) e :=
    fun e he ↦ (h e (List.mem_append_left _ he)).normal
  refine ⟨fun fs' hperm ↦ ?_, same_mulOf_cons_mulOf exactClass_everywhere hleaves hnormal htext⟩
  refine same_mulOf_of_perm exactClass_everywhere (List.forall_mem_append.1 hleaves).1 hperm ?_
  exact fun a ha b hb ↦ htext a (hmem ha) b (hmem hb)

/-- The numbers cancel when the product is taken apart, and a factor is repeated. -/
theorem Constructed.same_mulOf_cancelling :
    let fs := [Expr.sym "b", .num 2]
    let gs := [Expr.num (1 / 2), .sym "a", .sym "b"]
    (∀ a ∈ otherFactors (fs ++ gs), ∀ b ∈ otherFactors (fs ++ gs),
        a.render = b.render → same a b = true) ∧
      same (Expr.mulOf [.num 2, .sym "b"]) (Expr.mulOf fs) = true ∧
      same (Expr.mulOf (Expr.mulOf fs :: gs)) (Expr.mulOf (fs ++ gs)) = true := by
  intro fs gs
  have hothers : otherFactors (fs ++ gs) = [.sym "b", .sym "a", .sym "b"] := rfl
  have htext : ∀ a ∈ otherFactors (fs ++ gs), ∀ b ∈ otherFactors (fs ++ gs),
      a.render = b.render → same a b = true := by
    rw [hothers]
    simp [render, same]
  have hconstructed : ∀ e ∈ fs ++ gs, Constructed e := by
    simp [fs, gs, Constructed.sym, Constructed.num]
  have hexact : ∀ e ∈ fs ++ gs, ∀ p x, ¬e.At p (.float x) := by
    have hleaves : ∀ e ∈ fs ++ gs, e.args = [] ∧ ∀ x, e ≠ .float x := by simp [fs, gs, args]
    intro e he p x hx
    obtain ⟨hargs, hfloat⟩ := hleaves e he
    have heverywhere : e.Everywhere fun e ↦ ∀ x, e ≠ .float x :=
      everywhere_of_args_eq_nil hargs hfloat
    exact heverywhere p _ hx x rfl
  obtain ⟨hperm, hnested⟩ := Constructed.same_mulOf hconstructed hexact htext
  exact ⟨htext, hperm [.num 2, .sym "b"] (.swap _ _ _), hnested⟩

end ExprCompiler.Expr
