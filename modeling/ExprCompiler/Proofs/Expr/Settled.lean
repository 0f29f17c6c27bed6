import ExprCompiler.Expr.Wire
import ExprCompiler.Proofs.Expr.Normal
import ExprCompiler.Proofs.Expr.Subterm
import ExprCompiler.Proofs.Numeral.Finite

/-!
# Building anew

The constructors fold and drop nothing of a normal expression that is built anew from its parts,
but they put its parts in order again: the symbols of a sum go first, by name, and the factors of a
product are sorted by their text, which changes with the order of the sums within them. `settled`
is what becomes of the whole tree. Main statements: it is the same tree up to the order of terms and
factors (`Expr.rearranged_settled`), and building it anew once more leaves it as it is
(`Expr.settled_settled`).
-/

namespace ExprCompiler.Expr

/-- The terms of a sum in the order that building it gives them. -/
def arranged (ts : List Expr) : List Expr :=
  (sortNames (ts.filterMap symbolName?)).map sym ++ ts.filter fun t ↦ t.symbolName?.isNone

/-- The factors of a product in the order that building it gives them. -/
def ranked (fs : List Expr) : List Expr :=
  (fs.filter fun f ↦ f.isNumber) ++ sortByText (fs.filter fun f ↦ !f.isNumber)

mutual

/-- The tree with its sums and products built anew from the inside out. -/
@[simp] def settled : Expr → Expr
  | .add ts => .add (arranged (settledAll ts))
  | .mul fs => .mul (ranked (settledAll fs))
  | .pow b x => .pow (settled b) (settled x)
  | .func name as => .func name (settledAll as)
  | .rel op a b => .rel op (settled a) (settled b)
  | .piecewise ps => .piecewise (settledPieces ps)
  | .pair v c => .pair (settled v) (settled c)
  | e => e

def settledAll : List Expr → List Expr
  | [] => []
  | e :: es => settled e :: settledAll es

def settledPieces : List (Expr × Expr) → List (Expr × Expr)
  | [] => []
  | (v, c) :: ps => (settled v, settled c) :: settledPieces ps

end

/-- The same tree up to the order of the terms of sums and of the factors of products, at every
level. -/
inductive Rearranged : Expr → Expr → Prop
  | leaf {e : Expr} (h : e.args = []) : Rearranged e e
  | add {ts us vs : List Expr} (terms : List.Forall₂ Rearranged ts us) (order : us.Perm vs) :
      Rearranged (.add ts) (.add vs)
  | mul {fs gs hs : List Expr} (factors : List.Forall₂ Rearranged fs gs) (order : gs.Perm hs) :
      Rearranged (.mul fs) (.mul hs)
  | pow {b c x y : Expr} (base : Rearranged b c) (exponent : Rearranged x y) :
      Rearranged (.pow b x) (.pow c y)
  | func (name : String) {as bs : List Expr} (args : List.Forall₂ Rearranged as bs) :
      Rearranged (.func name as) (.func name bs)
  | rel (op : Relation) {a b c d : Expr} (lhs : Rearranged a c) (rhs : Rearranged b d) :
      Rearranged (.rel op a b) (.rel op c d)
  | piecewise {ps qs : List (Expr × Expr)}
      (values : List.Forall₂ Rearranged (ps.map Prod.fst) (qs.map Prod.fst))
      (conditions : List.Forall₂ Rearranged (ps.map Prod.snd) (qs.map Prod.snd)) :
      Rearranged (.piecewise ps) (.piecewise qs)
  | pair {a b c d : Expr} (value : Rearranged a c) (condition : Rearranged b d) :
      Rearranged (.pair a b) (.pair c d)

/-- Rearrangement keeps the kind of an expression. -/
theorem Rearranged.tag_eq {e f : Expr} (h : Rearranged e f) : f.tag = e.tag := by
  cases h <;> rfl

variable {Named : String → Prop} {e : Expr} {es : List Expr}

/-! ## Heads -/

theorem settledAll_eq_map (es : List Expr) : settledAll es = es.map settled := by
  induction es with
  | nil => rfl
  | cons e es ih => rw [settledAll, ih, List.map_cons]

theorem settledPieces_eq_map (ps : List (Expr × Expr)) :
    settledPieces ps = ps.map fun p ↦ (settled p.1, settled p.2) := by
  induction ps with
  | nil => rfl
  | cons p ps ih => rw [settledPieces, ih, List.map_cons]

@[simp] theorem symbolName?_settled (e : Expr) : (settled e).symbolName? = e.symbolName? := by
  cases e <;> simp only [settled, symbolName?]

@[simp] theorem isNumber_settled (e : Expr) : (settled e).isNumber = e.isNumber := by
  cases e <;> simp only [settled, isNumber]

@[simp] theorem isZero_settled (e : Expr) : (settled e).isZero = e.isZero := by
  cases e <;> simp only [settled, isZero]

@[simp] theorem isSum_settled (e : Expr) : (settled e).isSum = e.isSum := by
  cases e <;> simp only [settled, isSum]

@[simp] theorem isProduct_settled (e : Expr) : (settled e).isProduct = e.isProduct := by
  cases e <;> simp only [settled, isProduct]

@[simp] theorem settled_eq_num_iff {q : Rat} : settled e = .num q ↔ e = .num q := by
  cases e <;> simp

@[simp] theorem settled_eq_float_iff {x : Float} : settled e = .float x ↔ e = .float x := by
  cases e <;> simp

/-! ## Order -/

theorem eq_sym_of_symbolName? {name : String} (h : e.symbolName? = some name) : e = .sym name := by
  cases e with
  | sym s => rw [Option.some.inj h]
  | _ => cases h

/-- Arranging adds and loses no term. -/
theorem mem_arranged : e ∈ arranged es ↔ e ∈ es := by
  rw [arranged, List.mem_append, List.mem_filter, Option.isNone_iff_eq_none]
  constructor
  · rintro (h | ⟨h, -⟩)
    · obtain ⟨name, hname, rfl⟩ := List.mem_map.1 h
      obtain ⟨t, ht, hname⟩ := List.mem_filterMap.1 (mem_sortNames.1 hname)
      rwa [eq_sym_of_symbolName? hname] at ht
    · exact h
  · intro h
    cases hname : e.symbolName? with
    | none => exact .inr ⟨h, rfl⟩
    | some name =>
        refine .inl (List.mem_map.2 ⟨name, ?_, (eq_sym_of_symbolName? hname).symm⟩)
        exact mem_sortNames.2 (List.mem_filterMap.2 ⟨e, h, hname⟩)

/-- Ranking only reorders the factors. -/
theorem ranked_perm (fs : List Expr) : (ranked fs).Perm fs :=
  ((sortByText_perm _).append_left _).trans (List.filter_append_perm _ fs)

theorem mem_ranked : e ∈ ranked es ↔ e ∈ es := (ranked_perm es).mem_iff

/-- Sorting names forgets their order and how often they occur. -/
theorem sortNames_congr {as bs : List String} (h : ∀ s, s ∈ as ↔ s ∈ bs) :
    sortNames as = sortNames bs := by
  refine List.Perm.eq_of_pairwise (fun a b _ _ ↦ le_antisymm) (pairwise_sortNames as)
    (pairwise_sortNames bs) ?_
  rw [List.perm_ext_iff_of_nodup (nodup_sortNames as) (nodup_sortNames bs)]
  intro s
  rw [mem_sortNames, mem_sortNames, h]

theorem filterMap_symbolName?_map_sym (names : List String) :
    (names.map sym).filterMap symbolName? = names := by
  rw [List.filterMap_map]
  exact List.filterMap_some

theorem map_sym_filterMap (ts : List Expr) :
    (ts.filterMap symbolName?).map sym = ts.filter fun t ↦ !t.symbolName?.isNone := by
  induction ts with
  | nil => rfl
  | cons t ts ih =>
      cases hname : t.symbolName? with
      | none => rw [List.filterMap_cons_none hname, List.filter_cons_of_neg (by simp [hname]), ih]
      | some name =>
          rw [List.filterMap_cons_some hname, List.filter_cons_of_pos (by simp [hname]),
            List.map_cons, ih, eq_sym_of_symbolName? hname]

/-- Arranging only reorders the terms if no symbol is repeated. -/
theorem arranged_perm {ts : List Expr} (h : (ts.filterMap symbolName?).Nodup) :
    (arranged ts).Perm ts := by
  have hnames : (sortNames (ts.filterMap symbolName?)).Perm (ts.filterMap symbolName?) :=
    (List.perm_ext_iff_of_nodup (nodup_sortNames _) h).2 fun _ ↦ mem_sortNames
  calc arranged ts
      = (sortNames (ts.filterMap symbolName?)).map sym ++ ts.filter fun t ↦ t.symbolName?.isNone := rfl
    _ |>.Perm ((ts.filterMap symbolName?).map sym ++ ts.filter fun t ↦ t.symbolName?.isNone) :=
        (hnames.map sym).append_right _
    _ |>.Perm ((ts.filter fun t ↦ t.symbolName?.isNone) ++ (ts.filterMap symbolName?).map sym) :=
        List.perm_append_comm
    _ |>.Perm ts := by
        rw [map_sym_filterMap]
        exact List.filter_append_perm _ ts

/-- Arranging terms twice is arranging them once. -/
theorem arranged_arranged (ts : List Expr) : arranged (arranged ts) = arranged ts := by
  have hsymbols : (arranged ts).filterMap symbolName? = sortNames (ts.filterMap symbolName?) := by
    have hothers : (ts.filter fun t ↦ t.symbolName?.isNone).filterMap symbolName? = [] := by
      rw [List.filterMap_eq_nil_iff]
      intro t ht
      exact Option.isNone_iff_eq_none.1 (List.mem_filter.1 ht).2
    rw [arranged, List.filterMap_append, filterMap_symbolName?_map_sym, hothers, List.append_nil]
  have hothers : ((arranged ts).filter fun t ↦ t.symbolName?.isNone) =
      ts.filter fun t ↦ t.symbolName?.isNone := by
    rw [arranged, List.filter_append, List.filter_filter]
    simp [List.filter_eq_nil_iff, symbolName?]
  have hnames : sortNames (sortNames (ts.filterMap symbolName?)) =
      sortNames (ts.filterMap symbolName?) := sortNames_congr fun _ ↦ mem_sortNames
  rw [arranged, hsymbols, hothers, hnames]
  rfl

/-- What is in order by its text stays so. -/
theorem sortByText_of_pairwise (h : (es.map render).Pairwise (· ≤ ·)) : sortByText es = es := by
  have hsorted : ((es.map fun e ↦ (e.render, e)).mergeSort fun a b ↦ decide (a.1 ≤ b.1)) =
      es.map fun e ↦ (e.render, e) := by
    apply List.mergeSort_of_pairwise
    rw [List.pairwise_map] at h ⊢
    exact h.imp decide_eq_true
  rw [sortByText, hsorted, List.map_map]
  exact List.map_id es

/-- Ranking factors twice is ranking them once. -/
theorem ranked_ranked (fs : List Expr) : ranked (ranked fs) = ranked fs := by
  obtain ⟨sorted, hsorted⟩ : ∃ l, l = sortByText (fs.filter fun f ↦ !f.isNumber) := ⟨_, rfl⟩
  have hsort : sortByText sorted = sorted := by
    rw [hsorted]
    exact sortByText_of_pairwise (pairwise_sortByText _)
  have hnone : ∀ f ∈ sorted, f.isNumber = false := by
    intro f hf
    rw [hsorted, mem_sortByText] at hf
    simpa using (List.mem_filter.1 hf).2
  have hranked : ranked fs = (fs.filter fun f ↦ f.isNumber) ++ sorted := by rw [ranked, hsorted]
  have hnumbers : (sorted.filter fun f ↦ f.isNumber) = [] :=
    List.filter_eq_nil_iff.2 fun f hf ↦ by simp [hnone f hf]
  have hothers : (sorted.filter fun f ↦ !f.isNumber) = sorted :=
    List.filter_eq_self.2 fun f hf ↦ by simp [hnone f hf]
  rw [hranked, ranked, List.filter_append, List.filter_append, hnumbers, hothers]
  simp [hsort]

/-- What is built anew is built anew to itself. -/
theorem settled_settled (h : Normal Named e) : settled (settled e) = settled e := by
  have hmap {es : List Expr} (ih : ∀ e ∈ es, settled (settled e) = settled e) {fs : List Expr}
      (hfs : ∀ f ∈ fs, f ∈ es.map settled) : fs.map settled = fs := by
    conv_rhs => rw [← List.map_id fs]
    refine List.map_congr_left fun f hf ↦ ?_
    obtain ⟨e, he, rfl⟩ := List.mem_map.1 (hfs f hf)
    exact ih e he
  induction h with
  | num | float | sym | const | atom => rfl
  | add _ _ ih =>
      simp only [settled, settledAll_eq_map]
      rw [hmap ih fun f hf ↦ mem_arranged.1 hf, arranged_arranged]
  | mul _ _ ih =>
      simp only [settled, settledAll_eq_map]
      rw [hmap ih fun f hf ↦ mem_ranked.1 hf, ranked_ranked]
  | pow _ _ _ ihb ihx => simp only [settled, ihb, ihx]
  | func _ _ _ ih =>
      simp only [settled, settledAll_eq_map]
      rw [hmap ih fun f hf ↦ hf]
  | rel _ _ _ ihl ihr => simp only [settled, ihl, ihr]
  | piecewise _ _ ihv ihc =>
      simp only [settled, settledPieces_eq_map, List.map_map]
      congr 1
      refine List.map_congr_left fun p hp ↦ ?_
      simp only [Function.comp_apply, ihv p hp, ihc p hp]

theorem filterMap_symbolName?_settled (es : List Expr) :
    (es.map settled).filterMap symbolName? = es.filterMap symbolName? := by
  rw [List.filterMap_map]
  exact List.filterMap_congr fun e _ ↦ symbolName?_settled e

/-- What is built anew is the same tree up to the order of terms and factors. -/
theorem rearranged_settled (h : Normal Named e) : Rearranged e (settled e) := by
  have hall {es : List Expr} (ih : ∀ e ∈ es, Rearranged e (settled e)) :
      List.Forall₂ Rearranged es (settledAll es) := by
    rw [settledAll_eq_map, List.forall₂_map_right_iff, List.forall₂_same]
    exact ih
  induction h with
  | num | float | sym | const | atom => exact .leaf rfl
  | add shape _ ih =>
      refine .add (hall ih) (arranged_perm ?_).symm
      rw [settledAll_eq_map, filterMap_symbolName?_settled]
      exact shape.symbols
  | mul _ _ ih => exact .mul (hall ih) (ranked_perm _).symm
  | pow _ _ _ ihb ihx => exact .pow ihb ihx
  | func _ _ _ ih => exact .func _ (hall ih)
  | rel op _ _ ihl ihr => exact .rel op ihl ihr
  | piecewise _ _ ihv ihc =>
      refine .piecewise ?_ ?_
      · rw [settledPieces_eq_map, List.map_map, List.forall₂_map_left_iff,
          List.forall₂_map_right_iff, List.forall₂_same]
        exact ihv
      · rw [settledPieces_eq_map, List.map_map, List.forall₂_map_left_iff,
          List.forall₂_map_right_iff, List.forall₂_same]
        exact ihc

/-- The search for symbols finds the same in what is built anew. -/
theorem mem_symbolsAt_settled (h : Normal Named e) {depth : Nat} {s : String} :
    s ∈ symbolsAt depth (settled e) ↔ s ∈ symbolsAt depth e := by
  have hall {es fs : List Expr} (ih : ∀ e ∈ es, ∀ {depth : Nat},
      s ∈ symbolsAt depth (settled e) ↔ s ∈ symbolsAt depth e)
      (hfs : ∀ f, f ∈ fs ↔ f ∈ es.map settled) (depth : Nat) :
      s ∈ symbolsList depth fs ↔ s ∈ symbolsList depth es := by
    simp only [symbolsList_eq_flatMap, List.mem_flatMap, hfs, List.mem_map]
    constructor
    · rintro ⟨f, ⟨e, he, rfl⟩, hs⟩
      exact ⟨e, he, (ih e he).1 hs⟩
    · rintro ⟨e, he, hs⟩
      exact ⟨settled e, ⟨e, he, rfl⟩, (ih e he).2 hs⟩
  induction h generalizing depth with
  | num | float | sym | const | atom => rfl
  | add _ _ ih =>
      simp only [settled, settledAll_eq_map, symbolsAt]
      split
      · rfl
      · exact hall ih (fun f ↦ mem_arranged) _
  | mul _ _ ih =>
      simp only [settled, settledAll_eq_map, symbolsAt]
      split
      · rfl
      · exact hall ih (fun f ↦ mem_ranked) _
  | pow _ _ _ ihb ihx =>
      simp only [settled, symbolsAt]
      split
      · rfl
      · rw [List.mem_append, List.mem_append]
        exact or_congr ihb ihx
  | func _ _ _ ih =>
      simp only [settled, settledAll_eq_map, symbolsAt]
      split
      · rfl
      · exact hall ih (fun f ↦ .rfl) _
  | rel _ _ _ ihl ihr =>
      simp only [settled, symbolsAt]
      split
      · rfl
      · rw [List.mem_append, List.mem_append]
        exact or_congr ihl ihr
  | @piecewise ps _ _ ihv ihc =>
      simp only [settled, settledPieces_eq_map, symbolsAt, symbolsPieces_eq_flatMap, List.flatMap_map]
      split
      · rfl
      · simp only [List.mem_flatMap, List.mem_append]
        exact exists_congr fun p ↦ and_congr_right fun hp ↦ or_congr (ihv p hp) (ihc p hp)

/-- Settling keeps the free symbols. -/
theorem freeSymbols_settled (h : Normal Named e) : freeSymbols (settled e) = freeSymbols e :=
  sortNames_congr fun _ ↦ mem_symbolsAt_settled h

/-! ## Equality -/

theorem sameAll_self (h : ∀ e ∈ es, same e e = true) : sameAll es es = true := by
  induction es with
  | nil => rfl
  | cons e es ih =>
      obtain ⟨he, hes⟩ := List.forall_mem_cons.1 h
      rw [sameAll, he, ih hes]
      rfl

theorem samePieces_self {ps : List (Expr × Expr)}
    (h : ∀ p ∈ ps, same p.1 p.1 = true ∧ same p.2 p.2 = true) : samePieces ps ps = true := by
  induction ps with
  | nil => rfl
  | cons p ps ih =>
      obtain ⟨⟨hv, hc⟩, hps⟩ := List.forall_mem_cons.1 h
      rw [samePieces, hv, hc, ih hps]
      rfl

/-- Whether an expression is no NaN. -/
def IsProper (e : Expr) : Prop := ∀ x, e = .float x → x.isNaN = false

/-- An expression without NaNs is equal to itself. -/
theorem Normal.same_self (h : Normal Named e) (hnan : e.Everywhere IsProper) : same e e = true := by
  induction h with
  | num | sym | const | atom => simp [same]
  | float x =>
      rw [same, Float.beq_self_iff]
      simpa using hnan [] _ .here x rfl
  | add _ _ ih | mul _ _ ih => exact sameAll_self fun e he ↦ ih e he (hnan.of_mem_args he)
  | func _ _ _ ih => simp [same, sameAll_self fun e he ↦ ih e he (hnan.of_mem_args he)]
  | pow _ _ _ iha ihb | rel _ _ _ iha ihb =>
      have ha := iha (hnan.of_mem_args (by simp [args]))
      have hb := ihb (hnan.of_mem_args (by simp [args]))
      simp [same, ha, hb]
  | piecewise _ _ ihv ihc =>
      refine samePieces_self fun p hp ↦ ?_
      obtain ⟨hv, hc⟩ := hnan.of_mem_pieces hp
      exact ⟨ihv p hp hv, ihc p hp hc⟩

/-! ## Sums -/

/-- Whether no inexact number of a list is a NaN. -/
def NoNaN (es : List Expr) : Prop := ∀ x, .float x ∈ es → x.isNaN = false

/-- The number of a sum is apart from its other terms. -/
theorem exists_append_of_dropLast {ts : List Expr} (h : ∀ t ∈ ts.dropLast, t.isNumber = false) :
    ∃ body last, ts = body ++ last ∧ last.length ≤ 1 ∧ (∀ t ∈ body, t.isNumber = false) ∧
      ∀ t ∈ last, t.isNumber = true := by
  rcases List.eq_nil_or_concat ts with rfl | ⟨body, t, rfl⟩
  · exact ⟨[], [], rfl, by simp, by simp, by simp⟩
  · rw [List.concat_eq_append, List.dropLast_concat] at h
    cases ht : t.isNumber with
    | true => exact ⟨body, [t], by simp, by simp, h, by simpa using ht⟩
    | false =>
        refine ⟨body ++ [t], [], by simp, by simp, ?_, by simp⟩
        exact List.forall_mem_append.2 ⟨h, by simpa using ht⟩

/-- What is no number counts in neither of the sums and products of numbers. -/
theorem number?_of_isNumber (h : ∀ e ∈ es, e.isNumber = false) :
    es.filterMap number? = [] ∧ ∀ x, .float x ∉ es := by
  refine ⟨List.filterMap_eq_nil_iff.2 fun e he ↦ ?_, fun x hx ↦ ?_⟩
  · cases e with
    | num q => cases h _ he
    | _ => rfl
  · cases h _ hx

/-- The number at the end of a sum is kept when the sum is built anew. -/
theorem trailing_append {body last : List Expr} (hlength : last.length ≤ 1)
    (hbody : ∀ t ∈ body, t.isNumber = false)
    (hlast : ∀ t ∈ last, t.isNumber = true ∧ t.isZero = false) (hnan : NoNaN last) :
    trailing (inexactSum (body ++ last)) (exactSum (body ++ last)) = last := by
  obtain ⟨hnumbers, hfloats⟩ := number?_of_isNumber hbody
  have hexact : exactSum (body ++ last) = exactSum last := by
    rw [exactSum_eq_sum, exactSum_eq_sum, List.filterMap_append, hnumbers, List.nil_append]
  have hinexact : inexactSum (body ++ last) = inexactSum last := by
    have hnone := inexactSum_eq_none hfloats
    unfold inexactSum at hnone ⊢
    rw [List.foldl_append, hnone]
  rw [hexact, hinexact]
  cases last with
  | nil => rfl
  | cons t rest =>
      obtain rfl : rest = [] := by simpa using hlength
      obtain ⟨hnumber, hzero⟩ := hlast t List.mem_cons_self
      cases t with
      | num q =>
          have hq : ¬(0 + q == 0) = true := by simpa [isZero] using hzero
          change (if (0 + q == 0) = true then [] else [Expr.num (0 + q)]) = _
          rw [if_neg hq, zero_add]
      | float x =>
          have hsum := Numeral.zero_add_add (hnan x List.mem_cons_self) hzero
          change (if (0 + x + Numeral.nearest 0 == 0) = true then [] else
            [Expr.float (0 + x + Numeral.nearest 0)]) = _
          rw [hsum, if_neg (by rw [show (x == 0) = false from hzero]; exact Bool.false_ne_true)]
      | _ => cases hnumber

theorem flatMap_eq_self {f : Expr → List Expr} (h : ∀ e ∈ es, f e = [e]) : es.flatMap f = es := by
  induction es with
  | nil => rfl
  | cons e es ih =>
      obtain ⟨he, hes⟩ := List.forall_mem_cons.1 h
      rw [List.flatMap_cons, he, ih hes, List.singleton_append]

/-- A normal sum that is built anew is arranged. -/
theorem addOf_eq_add {ts : List Expr} (h : SumShape ts) (hnan : NoNaN ts) :
    addOf ts = .add (arranged ts) := by
  have hflat : ts.flatMap termsOf = ts := by
    refine flatMap_eq_self fun t ht ↦ ?_
    cases t with
    | add us => cases h.flat _ ht
    | _ => rfl
  have hsymbols : (sortNames (ts.filterMap symbolName?)).map (repeated (ts.filterMap symbolName?)) =
      (sortNames (ts.filterMap symbolName?)).map sym := by
    refine List.map_congr_left fun name hname ↦ ?_
    rw [repeated, List.count_eq_one_of_mem h.symbols (mem_sortNames.1 hname)]
    rfl
  have hrest : (ts.filter fun t ↦ !t.isNumber && t.symbolName?.isNone) ++
      trailing (inexactSum ts) (exactSum ts) = ts.filter fun t ↦ t.symbolName?.isNone := by
    obtain ⟨body, last, rfl, hlength, hbody, hlast⟩ := exists_append_of_dropLast h.number
    have hlast : ∀ t ∈ last, t.isNumber = true ∧ t.isZero = false := fun t ht ↦
      ⟨hlast t ht, h.nonzero t (List.mem_append_right body ht)⟩
    rw [trailing_append hlength hbody hlast fun x hx ↦ hnan x (List.mem_append_right body hx),
      List.filter_append, List.filter_append]
    have hother : (last.filter fun t ↦ !t.isNumber && t.symbolName?.isNone) = [] :=
      List.filter_eq_nil_iff.2 fun t ht ↦ by simp [(hlast t ht).1]
    have hnumber : (last.filter fun t ↦ t.symbolName?.isNone) = last := by
      refine List.filter_eq_self.2 fun t ht ↦ ?_
      cases t with
      | sym s => cases (hlast _ ht).1
      | _ => rfl
    rw [hother, hnumber, List.append_nil]
    congr 1
    exact List.filter_congr fun t ht ↦ by simp [hbody t ht]
  have htwo : 2 ≤ (arranged ts).length := by
    rw [(arranged_perm h.symbols).length_eq]
    exact h.two
  have harranged : (sortNames (ts.filterMap symbolName?)).map sym ++
      ts.filter (fun t ↦ t.symbolName?.isNone) = arranged ts := rfl
  unfold addOf
  simp only [hflat, hsymbols, List.append_assoc, hrest, harranged]
  split
  · rename_i hnil
    simp [hnil] at htwo
  · rename_i t hone
    simp [hone] at htwo
  · rfl

/-! ## Products -/

theorem inexactProduct_cons_float {others : List Expr} (h : ∀ f ∈ others, f.isNumber = false)
    (x : Float) : inexactProduct (.float x :: others) = some (1 * x) := by
  change others.foldl _ (some (1 * x)) = _
  induction others with
  | nil => rfl
  | cons f others ih =>
      obtain ⟨hf, hothers⟩ := List.forall_mem_cons.1 h
      cases f with
      | num q => cases hf
      | float y => cases hf
      | _ => exact ih hothers

/-- A number and other factors, or other factors alone, are built anew to a product. -/
theorem assembleProduct_eq_mul (lead : Option Expr) (two : 2 ≤ lead.toList.length + es.length) :
    assembleProduct lead es = .mul (lead.toList ++ sortByText es) := by
  have hlength := length_sortByText es
  unfold assembleProduct
  split
  · rename_i f hf
    rw [hf] at hlength
    simp at two hlength
    omega
  · rfl
  · rfl

/-- A product that is built anew from factors that need not ascend is ranked. -/
theorem mulOf_eq_mul {fs : List Expr} (two : 2 ≤ fs.length) (flat : ∀ f ∈ fs, f.isProduct = false)
    (number : ∀ f ∈ fs.tail, f.isNumber = false) (lead : ∀ f ∈ fs, f ≠ .num 0 ∧ f ≠ .num 1)
    (hnan : NoNaN fs) : mulOf fs = .mul (ranked fs) := by
  have hflat : fs.flatMap factorsOf = fs := by
    refine flatMap_eq_self fun f hf ↦ ?_
    cases f with
    | mul gs => cases flat _ hf
    | _ => rfl
  obtain ⟨f, others, rfl⟩ := List.exists_cons_of_length_pos (by omega : 0 < fs.length)
  have hnumber : ∀ f ∈ others, f.isNumber = false := number
  have hne : others.isEmpty = false := by
    cases others with
    | nil => simp at two
    | cons g others => rfl
  have hothers : (others.filter fun f ↦ !f.isNumber) = others :=
    List.filter_eq_self.2 fun f hf ↦ by simp [hnumber f hf]
  have hnone : (others.filter fun f ↦ f.isNumber) = [] :=
    List.filter_eq_nil_iff.2 fun f hf ↦ by simp [hnumber f hf]
  obtain ⟨hnumbers, hfloats⟩ := number?_of_isNumber hnumber
  have hexact : exactProduct others = 1 := by
    rw [exactProduct_eq_prod, hnumbers, List.prod_nil]
  have hinexact := inexactProduct_eq_none hfloats
  have hlength : 2 ≤ others.length + 1 := two
  unfold mulOf
  simp only [hflat]
  cases hf : f.isNumber with
  | true =>
      have hranked : ranked (f :: others) = f :: sortByText others := by
        simp [ranked, hf, hothers, hnone]
      have hfilter : ((f :: others).filter fun f ↦ !f.isNumber) = others := by simp [hf, hothers]
      have hassemble (c : Expr) : assembleProduct (some c) others = .mul (c :: sortByText others) :=
        assembleProduct_eq_mul (some c) (by simpa [Nat.add_comm] using hlength)
      rw [hranked, hfilter, hne]
      cases f with
      | num q =>
          obtain ⟨hzero, hone⟩ := lead (.num q) List.mem_cons_self
          have hq : exactProduct (.num q :: others) = q := by
            have hsome : number? (.num q) = some q := rfl
            rw [exactProduct_eq_prod, List.filterMap_cons_some hsome, hnumbers, List.prod_singleton]
          have hnone : inexactProduct (.num q :: others) = none := hinexact
          rw [hq, hnone, if_neg (by simpa using hzero)]
          simp only [Bool.false_eq_true, if_false]
          rw [if_neg (by simpa using hone), hassemble]
      | float x =>
          have hone : exactProduct (.float x :: others) = 1 := hexact
          rw [hone, inexactProduct_cons_float hnumber, if_neg (by simp)]
          simp only [Bool.false_eq_true, if_false]
          rw [hassemble, Numeral.one_mul_mul (hnan x List.mem_cons_self)]
      | _ => cases hf
  | false =>
      have hranked : ranked (f :: others) = sortByText (f :: others) := by
        simp [ranked, hf, hothers, hnone]
      have hfilter : ((f :: others).filter fun f ↦ !f.isNumber) = f :: others := by
        simp [hf, hothers]
      obtain ⟨hnumbers, hfloats⟩ :=
        number?_of_isNumber (List.forall_mem_cons.2 ⟨hf, hnumber⟩)
      have hexact : exactProduct (f :: others) = 1 := by
        rw [exactProduct_eq_prod, hnumbers, List.prod_nil]
      rw [hranked, hfilter, hexact, inexactProduct_eq_none hfloats]
      exact assembleProduct_eq_mul none (by simpa using two)

/-! ## Powers -/

/-- A normal power that is built anew is left as it is. -/
theorem powOf_eq_pow {b x : Expr} (h : PowerShape b x) : powOf b x = .pow b x := by
  fun_cases powOf b x with
  | case1 b q hq => exact absurd (congrArg num (beq_iff_eq.1 hq)) h.exponent.1
  | case2 b q _ hq => exact absurd (congrArg num (beq_iff_eq.1 hq)) h.exponent.2
  | case4 q _ _ p hp hneg =>
      obtain ⟨q', hq', hlt⟩ := h.zero (congrArg num (beq_iff_eq.1 hp))
      obtain rfl := Expr.num.inj hq'
      exact absurd hlt hneg
  | case5 q _ _ p _ hp => exact absurd (congrArg num (beq_iff_eq.1 hp)) h.base
  | case6 q _ _ p hp _ w hw =>
      refine absurd ?_ (h.exact p q rfl rfl (by simpa using hp))
      simpa [IsSmall, and_assoc] using hw
  | case8 q _ _ c y => exact absurd rfl (h.nested c y rfl q)
  | case10 =>
      obtain ⟨q, hq, -⟩ := h.zero (congrArg num (beq_iff_eq.1 (by assumption)))
      grind
  | case11 => exact absurd (congrArg num (beq_iff_eq.1 (by assumption))) h.base
  | case3 | case7 | case9 | case12 | case13 => rfl

/-- An application that no identity changes is left as it is. -/
theorem funcOf_eq_func {name : String} (h : ∀ a, es = [a] → identity? name a = .ok none) :
    funcOf name es = .ok (.func name es) := by
  unfold funcOf
  split
  · rename_i a
    rw [h a rfl]
    rfl
  · rfl

/-! ## Settled parts -/

theorem NoNaN.settled (h : NoNaN es) : NoNaN (es.map Expr.settled) := by
  intro x hx
  obtain ⟨e, he, hfloat⟩ := List.mem_map.1 hx
  rw [settled_eq_float_iff] at hfloat
  exact h x (hfloat ▸ he)

/-- Settling the terms keeps the shape of a sum. -/
theorem SumShape.settled {ts : List Expr} (h : SumShape ts) : SumShape (ts.map Expr.settled) where
  two := by simpa using h.two
  flat := by simpa using h.flat
  number := by simpa [← List.map_dropLast] using h.number
  nonzero := by simpa using h.nonzero
  symbols := by
    rw [filterMap_symbolName?_settled]
    exact h.symbols

/-- The sum of terms that are built anew is the sum that is built anew. -/
theorem addOf_settled {ts : List Expr} (shape : SumShape ts) (hnan : NoNaN ts) :
    addOf (ts.map settled) = settled (.add ts) := by
  rw [addOf_eq_add shape.settled hnan.settled, settled, settledAll_eq_map]

/-- Multiplying the settled factors of a product gives the settled product. -/
theorem mulOf_settled {fs : List Expr} (shape : ProductShape fs) (hnan : NoNaN fs) :
    mulOf (fs.map settled) = settled (.mul fs) := by
  rw [settled, settledAll_eq_map]
  refine mulOf_eq_mul ?_ ?_ ?_ ?_ hnan.settled
  · simpa using shape.two
  · simpa using shape.flat
  · simpa [← List.map_tail] using shape.number
  · simpa using shape.lead

theorem powOf_settled {b x : Expr} (shape : PowerShape b x) :
    powOf (settled b) (settled x) = settled (.pow b x) := by
  rw [settled]
  refine powOf_eq_pow ⟨?_, ?_, ?_, ?_, ?_⟩
  · simpa using shape.exponent
  · simpa using shape.base
  · simpa using shape.zero
  · intro c y hb q hx
    rw [settled_eq_num_iff] at hx
    cases b with
    | pow c' y' => exact shape.nested c' y' rfl q hx
    | _ => cases hb
  · simpa using shape.exact

/-- Building an argument anew brings about no identity. -/
theorem identity?_settled {name : String} {a : Expr} (h : identity? name a = .ok none) :
    identity? name (settled a) = .ok none := by
  cases a with
  | num q => exact h
  | func inner as =>
      simp only [settled, settledAll_eq_map, identity?] at h ⊢
      split_ifs at h ⊢ with hlog hexp
      · cases as with
        | nil => cases h
        | cons b bs => cases h
      · cases as with
        | nil => rfl
        | cons b bs =>
            cases bs with
            | nil => cases h
            | cons c cs => rfl
      · rfl
  | _ => simp only [settled, identity?]

/-- An application that is not simplified stays one when its arguments are settled. -/
theorem funcOf_settled {name : String} {as : List Expr}
    (kept : ∀ a, as = [a] → identity? name a = .ok none) :
    funcOf name (as.map settled) = .ok (settled (.func name as)) := by
  rw [settled, settledAll_eq_map]
  refine funcOf_eq_func fun b hb ↦ ?_
  obtain ⟨a, rfl⟩ : ∃ a, as = [a] := by
    rw [← List.length_eq_one_iff, ← List.length_map settled, hb]
    rfl
  obtain rfl : settled a = b := by simpa using hb
  exact identity?_settled (kept a rfl)

end ExprCompiler.Expr
