import ExprCompiler.Proofs.Expr.Valuation
import ExprCompiler.Proofs.Outcome

/-!
# Normal forms

What the constructors keep true of every sum, product, power and application. Main statements: each
constructor, and substitution, makes a normal expression of normal ones (`Expr.normal_addOf`,
`Expr.normal_mulOf`, `Expr.normal_powOf`, `Expr.normal_funcOf`, `Expr.normal_subst`).
-/

namespace ExprCompiler.Expr

/-! ## Shapes -/

/-- Whether an expression is the number zero, exact or not. -/
def isZero : Expr → Bool
  | .num q => q == 0
  | .float x => x == 0
  | _ => false

def isProduct : Expr → Bool
  | .mul _ => true
  | _ => false

/-- A sum has two terms or more and no sum among them. Only the last may be a number, which is not
zero, and no symbol is repeated. -/
structure SumShape (ts : List Expr) : Prop where
  two : 2 ≤ ts.length
  flat : ∀ t ∈ ts, t.isSum = false
  number : ∀ t ∈ ts.dropLast, t.isNumber = false
  nonzero : ∀ t ∈ ts, t.isZero = false
  symbols : (ts.filterMap symbolName?).Nodup

/-- A sum as the constructors leave it: its symbols, moreover, ascend by their names. -/
structure OrderedSum (ts : List Expr) : Prop extends SumShape ts where
  ascending : (ts.filterMap symbolName?).Pairwise (· ≤ ·)

/-- A product has two factors or more and no product among them. Only the first may be a number,
which is neither the exact zero nor the exact one, and the others ascend by their text. -/
structure ProductShape (fs : List Expr) : Prop where
  two : 2 ≤ fs.length
  flat : ∀ f ∈ fs, f.isProduct = false
  number : ∀ f ∈ fs.tail, f.isNumber = false
  lead : ∀ f ∈ fs, f ≠ .num 0 ∧ f ≠ .num 1
  ascending : ((fs.filter fun f ↦ !f.isNumber).map render).Pairwise (· ≤ ·)

/-- Whether an exact power is carried out: its exponent is a small integer. -/
def IsSmall (q : Rat) : Prop := q.den = 1 ∧ -20 ≤ lowWord q.num ∧ lowWord q.num ≤ 20

/-- A power has neither the exponent zero nor one and not the base one. Zero stands only below
negative exponents, an exact exponent never on a power, and what remains of exact powers is not
carried out. -/
structure PowerShape (b x : Expr) : Prop where
  exponent : x ≠ .num 0 ∧ x ≠ .num 1
  base : b ≠ .num 1
  zero : b = .num 0 → ∃ q, x = .num q ∧ q < 0
  nested : ∀ c y, b = .pow c y → ∀ q, x ≠ .num q
  exact : ∀ p q, b = .num p → x = .num q → p ≠ 0 → ¬IsSmall q

/-- Expressions whose sums, products, powers and applications are as the constructors leave them,
and whose names are as told. -/
inductive Normal (Named : String → Prop) : Expr → Prop
  | num (q : Rat) : Normal Named (.num q)
  | float (x : Float) : Normal Named (.float x)
  | sym {name : String} (hname : Named name) : Normal Named (.sym name)
  | add {ts : List Expr} (shape : OrderedSum ts) (terms : ∀ t ∈ ts, Normal Named t) :
      Normal Named (.add ts)
  | mul {fs : List Expr} (shape : ProductShape fs) (factors : ∀ f ∈ fs, Normal Named f) :
      Normal Named (.mul fs)
  | pow {b x : Expr} (shape : PowerShape b x) (base : Normal Named b)
      (exponent : Normal Named x) : Normal Named (.pow b x)
  | func {name : String} {as : List Expr} (hname : Named name)
      (kept : ∀ a, as = [a] → identity? name a = .ok none) (args : ∀ a ∈ as, Normal Named a) :
      Normal Named (.func name as)
  | const (c : Constant) : Normal Named (.const c)
  | rel (op : Relation) {a b : Expr} (lhs : Normal Named a) (rhs : Normal Named b) :
      Normal Named (.rel op a b)
  | piecewise {ps : List (Expr × Expr)} (values : ∀ p ∈ ps, Normal Named p.1)
      (conditions : ∀ p ∈ ps, Normal Named p.2) : Normal Named (.piecewise ps)
  | atom {tag name : String} (htag : Named tag) (hname : Named name) :
      Normal Named (.atom tag name)

variable {Named : String → Prop} {e : Expr} {es : List Expr}

/-- A weaker condition on the names keeps an expression normal. -/
theorem Normal.mono {Named' : String → Prop} (hle : ∀ s, Named s → Named' s)
    (h : Normal Named e) : Normal Named' e := by
  induction h with
  | num q => exact .num q
  | float x => exact .float x
  | sym hname => exact .sym (hle _ hname)
  | add shape _ ih => exact .add shape ih
  | mul shape _ ih => exact .mul shape ih
  | pow shape _ _ ihb ihx => exact .pow shape ihb ihx
  | func hname kept _ ih => exact .func (hle _ hname) kept ih
  | const c => exact .const c
  | rel op _ _ ihl ihr => exact .rel op ihl ihr
  | piecewise _ _ ihv ihc => exact .piecewise ihv ihc
  | atom htag hname => exact .atom (hle _ htag) (hle _ hname)

theorem Normal.of_isNumber (h : e.isNumber = true) : Normal Named e := by
  cases e with
  | num q => exact .num q
  | float x => exact .float x
  | _ => cases h

theorem two_le_length {α : Type} {as : List α} (hnil : as ≠ []) (hone : ∀ a, as ≠ [a]) :
    2 ≤ as.length := by
  cases as with
  | nil => exact absurd rfl hnil
  | cons a as =>
      cases as with
      | nil => exact absurd rfl (hone a)
      | cons b as => simp

/-! ## Products -/

/-- The factors of normal expressions are normal and no products. -/
theorem normal_factorsOf (h : ∀ e ∈ es, Normal Named e) :
    ∀ e ∈ es.flatMap factorsOf, Normal Named e ∧ e.isProduct = false := by
  intro e he
  obtain ⟨f, hf, he⟩ := List.mem_flatMap.1 he
  cases h f hf with
  | mul shape factors => exact ⟨factors e he, shape.flat e he⟩
  | _ =>
      obtain rfl := List.mem_singleton.1 he
      exact ⟨h _ hf, rfl⟩

/-- Sorting leaves the texts in order. -/
theorem pairwise_sortByText (es : List Expr) :
    ((sortByText es).map render).Pairwise (· ≤ ·) := by
  have hkey : ∀ a ∈ (es.map fun e ↦ (e.render, e)).mergeSort fun a b ↦ decide (a.1 ≤ b.1),
      (render ∘ Prod.snd) a = a.1 := by
    intro a ha
    obtain ⟨e, -, rfl⟩ := List.mem_map.1 (List.mem_mergeSort.1 ha)
    rfl
  rw [sortByText, List.map_map, List.map_congr_left hkey, List.pairwise_map]
  refine (List.pairwise_mergeSort ?_ ?_ _).imp of_decide_eq_true
  · intro a b c hab hbc
    exact decide_eq_true (le_trans (of_decide_eq_true hab) (of_decide_eq_true hbc))
  · intro a b
    simpa using le_total a.1 b.1

theorem mem_sortByText : e ∈ sortByText es ↔ e ∈ es := (sortByText_perm es).mem_iff

theorem length_sortByText (es : List Expr) : (sortByText es).length = es.length :=
  (sortByText_perm es).length_eq

/-- Sorted factors make a product, behind a number or alone. -/
theorem productShape_append {lead : Option Expr} (two : 2 ≤ lead.toList.length + es.length)
    (hlead : ∀ c ∈ lead, c.isNumber = true ∧ c ≠ .num 0 ∧ c ≠ .num 1)
    (hes : ∀ e ∈ es, e.isProduct = false ∧ e.isNumber = false) :
    ProductShape (lead.toList ++ sortByText es) := by
  have hsorted : ∀ e ∈ sortByText es, e.isProduct = false ∧ e.isNumber = false :=
    fun e he ↦ hes e (mem_sortByText.1 he)
  have hnone : ∀ e ∈ sortByText es, e ≠ .num 0 ∧ e ≠ .num 1 := by
    intro e he
    constructor
    · rintro rfl
      cases (hsorted _ he).2
    · rintro rfl
      cases (hsorted _ he).2
  have hfilter : ((sortByText es).filter fun e ↦ !e.isNumber) = sortByText es :=
    List.filter_eq_self.2 fun e he ↦ by simp [(hsorted e he).2]
  cases lead with
  | none =>
      refine ⟨?_, fun e he ↦ (hsorted e he).1, fun e he ↦ (hsorted e (List.mem_of_mem_tail he)).2,
        hnone, ?_⟩
      · simpa [length_sortByText] using two
      · change (((sortByText es).filter _).map render).Pairwise _
        rw [hfilter]
        exact pairwise_sortByText es
  | some c =>
      obtain ⟨hnumber, hc⟩ := hlead c rfl
      refine ⟨?_, ?_, fun e he ↦ (hsorted e he).2, ?_, ?_⟩
      · simpa [length_sortByText, Nat.add_comm] using two
      · intro e he
        rcases List.mem_cons.1 he with rfl | he
        · cases e <;> first | rfl | cases hnumber
        · exact (hsorted e he).1
      · intro e he
        rcases List.mem_cons.1 he with rfl | he
        · exact hc
        · exact hnone e he
      · change (((c :: sortByText es).filter _).map render).Pairwise _
        rw [List.filter_cons_of_neg (by simp [hnumber]), hfilter]
        exact pairwise_sortByText es

/-- The product of a number, unless it is left out, and one factor or more. -/
theorem normal_assembleProduct {lead : Option Expr} (hne : es ≠ [])
    (hlead : ∀ c ∈ lead, c.isNumber = true ∧ c ≠ .num 0 ∧ c ≠ .num 1)
    (hes : ∀ e ∈ es, Normal Named e ∧ e.isProduct = false ∧ e.isNumber = false) :
    Normal Named (assembleProduct lead es) := by
  have hsorted : ∀ e ∈ sortByText es, Normal Named e := fun e he ↦ (hes e (mem_sortByText.1 he)).1
  have hshape (two : 2 ≤ lead.toList.length + es.length) :
      ProductShape (lead.toList ++ sortByText es) :=
    productShape_append two hlead fun e he ↦ (hes e he).2
  have hpos : 1 ≤ es.length := List.length_pos_iff.2 hne
  unfold assembleProduct
  split
  · rename_i e he
    exact hsorted e (by simp [he])
  · rename_i hone
    refine .mul (hshape ?_) hsorted
    have htwo := two_le_length (List.ne_nil_of_length_pos (by rwa [length_sortByText])) hone
    rw [length_sortByText] at htwo
    simpa using htwo
  · rename_i c
    refine .mul (hshape ?_) (List.forall_mem_cons.2 ⟨.of_isNumber (hlead c rfl).1, hsorted⟩)
    exact Nat.add_le_add_left hpos 1

theorem normal_mulOf (h : ∀ e ∈ es, Normal Named e) : Normal Named (mulOf es) := by
  have hothers : ∀ e ∈ (es.flatMap factorsOf).filter fun e ↦ !e.isNumber,
      Normal Named e ∧ e.isProduct = false ∧ e.isNumber = false := by
    intro e he
    obtain ⟨hmem, hnumber⟩ := List.mem_filter.1 he
    obtain ⟨hnormal, hproduct⟩ := normal_factorsOf h e hmem
    exact ⟨hnormal, hproduct, by simpa using hnumber⟩
  unfold mulOf
  dsimp only
  split
  · exact .num 0
  · rename_i hzero
    split
    · split
      · exact .float _
      · rename_i hne
        refine normal_assembleProduct (by simpa using hne) ?_ hothers
        rintro c ⟨⟩
        exact ⟨rfl, by simp, by simp⟩
    · split
      · exact .num _
      · rename_i hne
        split
        · exact normal_assembleProduct (by simpa using hne) (by simp) hothers
        · rename_i hone
          refine normal_assembleProduct (by simpa using hne) ?_ hothers
          rintro c ⟨⟩
          exact ⟨rfl, by simpa using hzero, by simpa using hone⟩

/-! ## Sums -/

/-- The terms of normal expressions are normal and no sums. -/
theorem normal_termsOf (h : ∀ e ∈ es, Normal Named e) :
    ∀ e ∈ es.flatMap termsOf, Normal Named e ∧ e.isSum = false := by
  intro e he
  obtain ⟨t, ht, he⟩ := List.mem_flatMap.1 he
  cases h t ht with
  | add shape terms => exact ⟨terms e he, shape.flat e he⟩
  | _ =>
      obtain rfl := List.mem_singleton.1 he
      exact ⟨h _ ht, rfl⟩

/-- A symbol that occurs is itself or, if it is repeated, a product of two factors. -/
theorem repeated_eq {names : List String} {name : String} (h : name ∈ names) :
    repeated names name = .sym name ∧ names.count name = 1 ∨
      repeated names name = .mul [.num (names.count name), .sym name] := by
  have hpos : 0 < names.count name := List.count_pos_iff.2 h
  rw [repeated]
  by_cases hone : names.count name = 1
  · exact .inl ⟨by simp [hone], hone⟩
  · right
    have hzero : ((names.count name : Nat) : Rat) ≠ 0 := by exact_mod_cast hpos.ne'
    have hsort : sortByText [.sym name] = [.sym name] := List.perm_singleton.1 (sortByText_perm _)
    simp [hone, mulOf, factorsOf, exactProduct, inexactProduct, isNumber, hzero,
      assembleProduct, hsort]

theorem sublist_filterMap {α : Type} {f : α → Option α} {as : List α}
    (h : ∀ a ∈ as, f a = none ∨ f a = some a) : (as.filterMap f).Sublist as := by
  induction as with
  | nil => exact .slnil
  | cons a as ih =>
      have ih := ih fun b hb ↦ h b (List.mem_cons_of_mem a hb)
      rcases h a List.mem_cons_self with ha | ha
      · rw [List.filterMap_cons_none ha]
        exact ih.cons a
      · rw [List.filterMap_cons_some ha]
        exact ih.cons_cons a

/-- Repetitions are left out, and nothing else changes. -/
theorem sublist_distinctSorted (names : List String) : (distinctSorted names).Sublist names := by
  fun_induction distinctSorted names with
  | case1 a b rest hab ih => exact ih.cons a
  | case2 a b rest hab ih => exact ih.cons_cons a
  | case3 names h => exact .refl names

theorem pairwise_sortNames (names : List String) : (sortNames names).Pairwise (· ≤ ·) :=
  (List.pairwise_mergeSort' (· ≤ ·) names).sublist (sublist_distinctSorted _)

/-- Of the symbols that are collected those that are not repeated stay symbols. -/
theorem sublist_repeated (names : List String) :
    (((sortNames names).map (repeated names)).filterMap symbolName?).Sublist (sortNames names) := by
  rw [List.filterMap_map]
  refine sublist_filterMap fun name hname ↦ ?_
  rcases repeated_eq (mem_sortNames.1 hname) with ⟨h, -⟩ | h
  · exact .inr (by simp [h, symbolName?])
  · exact .inl (by simp [h, symbolName?])

/-- What trails a sum is a number other than zero. -/
theorem mem_trailing {inexact : Option Float} {q : Rat} (he : e ∈ trailing inexact q) :
    e.isNumber = true ∧ e.isZero = false := by
  unfold trailing at he
  split at he
  · dsimp only at he
    split at he
    · cases he
    · rename_i hzero
      obtain rfl := List.mem_singleton.1 he
      exact ⟨rfl, by simpa [isZero] using hzero⟩
  · split at he
    · cases he
    · rename_i hzero
      obtain rfl := List.mem_singleton.1 he
      exact ⟨rfl, by simpa [isZero] using hzero⟩

theorem length_trailing (inexact : Option Float) (q : Rat) : (trailing inexact q).length ≤ 1 := by
  unfold trailing
  split
  · dsimp only
    split <;> simp
  · split <;> simp

/-- Terms that are no numbers make a sum, before a number or alone. -/
theorem orderedSum_append {body last : List Expr} (two : 2 ≤ (body ++ last).length)
    (hlength : last.length ≤ 1) (hlast : ∀ e ∈ last, e.isNumber = true ∧ e.isZero = false)
    (hbody : ∀ e ∈ body, e.isSum = false ∧ e.isNumber = false)
    (hsymbols : (body.filterMap symbolName?).Nodup)
    (hascending : (body.filterMap symbolName?).Pairwise (· ≤ ·)) : OrderedSum (body ++ last) := by
  have hlastSum : ∀ e ∈ last, e.isSum = false := by
    intro e he
    cases e <;> first | rfl | cases (hlast _ he).1
  have hbodyZero : ∀ e ∈ body, e.isZero = false := by
    intro e he
    cases e <;> first | rfl | cases (hbody _ he).2
  have hlastSymbol : last.filterMap symbolName? = [] := by
    rw [List.filterMap_eq_nil_iff]
    intro e he
    cases e <;> first | rfl | cases (hlast _ he).1
  refine ⟨⟨two, ?_, ?_, ?_, ?_⟩, ?_⟩
  · intro e he
    rcases List.mem_append.1 he with he | he
    · exact (hbody e he).1
    · exact hlastSum e he
  · intro e he
    refine (hbody e ?_).2
    cases last with
    | nil =>
        rw [List.append_nil] at he
        exact List.mem_of_mem_dropLast he
    | cons n rest =>
        obtain rfl : rest = [] := List.length_eq_zero_iff.1 (Nat.le_zero.1 (Nat.le_of_succ_le_succ hlength))
        rwa [List.dropLast_concat] at he
  · intro e he
    rcases List.mem_append.1 he with he | he
    · exact hbodyZero e he
    · exact (hlast e he).2
  · rwa [List.filterMap_append, hlastSymbol, List.append_nil]
  · rwa [List.filterMap_append, hlastSymbol, List.append_nil]

/-- The terms of a sum before its number: what is left of the symbols, and the other terms. -/
theorem normal_terms (h : ∀ e ∈ es, Normal Named e ∧ e.isSum = false) :
    ∀ e ∈ (sortNames (es.filterMap symbolName?)).map (repeated (es.filterMap symbolName?)) ++
        es.filter fun e ↦ !e.isNumber && e.symbolName?.isNone,
      Normal Named e ∧ e.isSum = false ∧ e.isNumber = false := by
  intro e he
  rcases List.mem_append.1 he with he | he
  · obtain ⟨name, hname, rfl⟩ := List.mem_map.1 he
    have hname := mem_sortNames.1 hname
    have hsym : Normal Named (.sym name) := by
      obtain ⟨t, ht, hname⟩ := List.mem_filterMap.1 hname
      cases t with
      | sym s =>
          obtain rfl := Option.some.inj hname
          exact (h _ ht).1
      | _ => cases hname
    refine ⟨?_, ?_⟩
    · rw [repeated]
      split
      · exact hsym
      · refine normal_mulOf fun f hf ↦ ?_
        rcases List.mem_pair.1 hf with rfl | rfl
        · exact .num _
        · exact hsym
    · rcases repeated_eq hname with ⟨hr, -⟩ | hr
      · rw [hr]
        exact ⟨rfl, rfl⟩
      · rw [hr]
        exact ⟨rfl, rfl⟩
  · obtain ⟨hmem, hkind⟩ := List.mem_filter.1 he
    obtain ⟨hnormal, hsum⟩ := h e hmem
    exact ⟨hnormal, hsum, by simpa using (Bool.and_eq_true_iff.1 hkind).1⟩

theorem normal_addOf (h : ∀ e ∈ es, Normal Named e) : Normal Named (addOf es) := by
  have hterms := normal_terms (normal_termsOf h)
  have hothers : ∀ e ∈ (es.flatMap termsOf).filter fun e ↦ !e.isNumber && e.symbolName?.isNone,
      e.symbolName? = none :=
    fun e he ↦ Option.isNone_iff_eq_none.1 (Bool.and_eq_true_iff.1 (List.mem_filter.1 he).2).2
  have hsymbols := sublist_repeated ((es.flatMap termsOf).filterMap symbolName?)
  unfold addOf
  dsimp only
  split
  · split
    · exact .float 0
    · exact .num 0
  · rename_i e he
    have hmem : e ∈ [e] := List.mem_singleton_self e
    rw [← he] at hmem
    rcases List.mem_append.1 hmem with hmem | hmem
    · exact (hterms e hmem).1
    · exact .of_isNumber (mem_trailing hmem).1
  · rename_i hnil hone
    refine .add (orderedSum_append (two_le_length hnil hone) (length_trailing _ _)
      (fun e he ↦ mem_trailing he) (fun e he ↦ (hterms e he).2) ?_ ?_) ?_
    · rw [List.filterMap_append, List.filterMap_eq_nil_iff.2 hothers, List.append_nil]
      exact hsymbols.nodup (nodup_sortNames _)
    · rw [List.filterMap_append, List.filterMap_eq_nil_iff.2 hothers, List.append_nil]
      exact (pairwise_sortNames _).sublist hsymbols
    · intro e he
      rcases List.mem_append.1 he with he | he
      · exact (hterms e he).1
      · exact .of_isNumber (mem_trailing he).1

/-! ## Powers -/

/-- A power with a symbolic exponent is kept unless its base is zero or one. -/
theorem powerShape_of_ne {b x : Expr} (hx : ∀ q, x = .num q → False)
    (hb : b ≠ .num 0 ∧ b ≠ .num 1) : PowerShape b x where
  exponent := ⟨hx 0, hx 1⟩
  base := hb.2
  zero h := (hb.1 h).elim
  nested _ _ _ := hx
  exact _ q _ h := (hx q h).elim

theorem normal_powOf {b x : Expr} (hb : Normal Named b) (hx : Normal Named x) :
    Normal Named (powOf b x) := by
  fun_induction powOf b x with
  | case1 | case4 | case5 | case6 | case10 | case11 => exact .num _
  | case2 => exact hb
  | case3 q hq hq' p hp hneg =>
      obtain rfl := beq_iff_eq.1 hp
      refine .pow ⟨⟨by simpa using hq, by simpa using hq'⟩, by simp, fun _ ↦ ⟨q, rfl, hneg⟩, ?_, ?_⟩ hb hx
      · rintro c y ⟨⟩
      · rintro p q ⟨⟩ - hp
        exact absurd rfl hp
  | case7 q hq hq' p hp hp' w hw =>
      refine .pow ⟨⟨by simpa using hq, by simpa using hq'⟩, by simpa using hp', ?_, ?_, ?_⟩ hb hx
      · rintro ⟨⟩
        exact absurd rfl hp
      · rintro c y ⟨⟩
      · rintro p q ⟨⟩ ⟨⟩ -
        simpa [IsSmall, and_assoc] using hw
  | case8 q hq hq' c y ih =>
      cases hb with
      | pow shape hc hy =>
          refine ih hc (normal_mulOf fun e he ↦ ?_)
          rcases List.mem_pair.1 he with rfl | rfl
          · exact hy
          · exact hx
  | case9 b q hq hq' hnum hpow =>
      refine .pow ⟨⟨by simpa using hq, by simpa using hq'⟩, ?_, ?_, ?_, ?_⟩ hb hx
      · exact fun h ↦ hnum _ h
      · exact fun h ↦ (hnum _ h).elim
      · exact fun c y h ↦ (hpow c y h).elim
      · exact fun p _ h ↦ (hnum p h).elim
  | case12 =>
      refine .pow (powerShape_of_ne (by assumption) ⟨?_, ?_⟩) hb hx
      · simpa using ‹¬(_ == (0 : Rat)) = true›
      · simpa using ‹¬(_ == (1 : Rat)) = true›
  | case13 =>
      refine .pow (powerShape_of_ne (by assumption) ⟨?_, ?_⟩) hb hx
      · grind
      · grind

/-! ## Applications -/

/-- What an application is equal to is a number or stands in the argument. -/
theorem isNumber_or_mem_of_identity? {name : String} {a : Expr}
    (h : identity? name a = .ok (some e)) :
    e.isNumber = true ∨ ∃ inner as, a = .func inner as ∧ e ∈ as := by
  unfold identity? at h
  split at h
  · left
    have h := Except.ok.inj h
    repeat' split at h
    all_goals cases h
    all_goals rfl
  · refine .inr ⟨_, _, rfl, ?_⟩
    split at h
    · split at h
      · cases h
      · cases h
        exact List.mem_cons_self
    · split at h
      · split at h
        · cases h
          exact List.mem_cons_self
        · cases h
      · cases h
  · cases h

theorem normal_funcOf {name : String} (hname : Named name) (h : ∀ a ∈ es, Normal Named a)
    (he : funcOf name es = .ok e) : Normal Named e := by
  unfold funcOf at he
  split at he
  · rename_i a
    obtain ⟨found, hfound, he⟩ := Outcome.bind_eq_ok.1 he
    cases he
    cases found with
    | none =>
        refine .func hname ?_ h
        rintro a ⟨⟩
        exact hfound
    | some e =>
        rcases isNumber_or_mem_of_identity? hfound with hnumber | ⟨inner, as, rfl, hmem⟩
        · exact .of_isNumber hnumber
        · cases h _ (List.mem_singleton_self _) with
          | func _ _ args => exact args _ hmem
  · rename_i hone
    cases he
    exact .func hname (fun a ha ↦ absurd ha (hone a)) h

/-! ## Substitution -/

section Substitution

variable {name : String} {value : Expr}

mutual

/-- Substitution of a normal expression into one gives a normal expression. -/
theorem normal_subst (hvalue : Normal Named value) :
    ∀ {e e' : Expr}, Normal Named e → subst name value e = .ok e' → Normal Named e'
  | .sym s, e', he, h => by
      rw [subst] at h
      cases h
      split
      · exact hvalue
      · exact he
  | .add ts, e', .add _ terms, h => by
      obtain ⟨ts', hts, h⟩ := Outcome.bind_eq_ok.1 h
      cases h
      exact normal_addOf (normal_substAll hvalue terms hts)
  | .mul fs, e', .mul _ factors, h => by
      obtain ⟨fs', hfs, h⟩ := Outcome.bind_eq_ok.1 h
      cases h
      exact normal_mulOf (normal_substAll hvalue factors hfs)
  | .pow b x, e', .pow _ base exponent, h => by
      obtain ⟨b', hb, h⟩ := Outcome.bind_eq_ok.1 h
      obtain ⟨x', hx, h⟩ := Outcome.bind_eq_ok.1 h
      cases h
      exact normal_powOf (normal_subst hvalue base hb) (normal_subst hvalue exponent hx)
  | .func f as, e', .func hname _ args, h => by
      obtain ⟨as', has, h⟩ := Outcome.bind_eq_ok.1 h
      exact normal_funcOf hname (normal_substAll hvalue args has) h
  | .rel op a b, e', .rel _ lhs rhs, h => by
      obtain ⟨a', ha, h⟩ := Outcome.bind_eq_ok.1 h
      obtain ⟨b', hb, h⟩ := Outcome.bind_eq_ok.1 h
      cases h
      exact .rel op (normal_subst hvalue lhs ha) (normal_subst hvalue rhs hb)
  | .piecewise ps, e', .piecewise values conditions, h => by
      obtain ⟨ps', hps, h⟩ := Outcome.bind_eq_ok.1 h
      cases h
      obtain ⟨hv, hc⟩ := normal_substPieces hvalue values conditions hps
      exact .piecewise hv hc
  | .num _, e', he, h | .float _, e', he, h | .const _, e', he, h | .atom _ _, e', he, h => by
      cases h
      exact he

theorem normal_substAll (hvalue : Normal Named value) :
    ∀ {es es' : List Expr}, (∀ e ∈ es, Normal Named e) → substAll name value es = .ok es' →
      ∀ e ∈ es', Normal Named e
  | [], es', _, h => by
      cases h
      simp
  | e :: es, es', hes, h => by
      obtain ⟨e', he, h⟩ := Outcome.bind_eq_ok.1 h
      obtain ⟨es'', hrest, h⟩ := Outcome.bind_eq_ok.1 h
      cases h
      rw [List.forall_mem_cons] at hes ⊢
      exact ⟨normal_subst hvalue hes.1 he, normal_substAll hvalue hes.2 hrest⟩

theorem normal_substPieces (hvalue : Normal Named value) :
    ∀ {ps ps' : List (Expr × Expr)}, (∀ p ∈ ps, Normal Named p.1) →
      (∀ p ∈ ps, Normal Named p.2) → substPieces name value ps = .ok ps' →
      (∀ p ∈ ps', Normal Named p.1) ∧ ∀ p ∈ ps', Normal Named p.2
  | [], ps', _, _, h => by
      cases h
      simp
  | (e, c) :: ps, ps', hvalues, hconditions, h => by
      obtain ⟨e', he, h⟩ := Outcome.bind_eq_ok.1 h
      obtain ⟨c', hc, h⟩ := Outcome.bind_eq_ok.1 h
      obtain ⟨ps'', hrest, h⟩ := Outcome.bind_eq_ok.1 h
      cases h
      rw [List.forall_mem_cons] at hvalues hconditions
      rw [List.forall_mem_cons, List.forall_mem_cons]
      obtain ⟨hv, hc'⟩ := normal_substPieces hvalue hvalues.2 hconditions.2 hrest
      exact ⟨⟨normal_subst hvalue hvalues.1 he, hv⟩, normal_subst hvalue hconditions.1 hc, hc'⟩

end

end Substitution

end ExprCompiler.Expr
