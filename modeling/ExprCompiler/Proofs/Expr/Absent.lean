import ExprCompiler.Proofs.Expr.Constructed
import ExprCompiler.Proofs.Expr.Settled

/-!
# Substitution for absent symbols

Substitution builds a tree anew also where there is nothing to put in. A sum that is built puts the
multiple of a repeated symbol in the place of the symbol; when it is built anew, the multiple is a
term like any other and goes behind the symbols. Main statement: substitution for a symbol that
does not occur changes the order of terms and factors at most, and nothing at all if and only if
the symbols of every sum stand in front (`Expr.Constructed.exists_subst_absent`).
-/

namespace ExprCompiler.Expr

variable {Named : String → Prop} {e : Expr} {name : String}

/-! ## Building anew through substitution -/

/-- Substitution that acts like a function on each expression acts like it on the list. -/
theorem substAll_eq_map {value : Expr} {f : Expr → Expr} {es : List Expr}
    (h : ∀ e ∈ es, subst name value e = .ok (f e)) : substAll name value es = .ok (es.map f) := by
  induction es with
  | nil => rfl
  | cons e es ih =>
      obtain ⟨he, hes⟩ := List.forall_mem_cons.1 h
      rw [substAll, he, ih hes]
      rfl

theorem substPieces_eq_map {value : Expr} {f : Expr → Expr} {ps : List (Expr × Expr)}
    (h : ∀ p ∈ ps, subst name value p.1 = .ok (f p.1) ∧ subst name value p.2 = .ok (f p.2)) :
    substPieces name value ps = .ok (ps.map fun p ↦ (f p.1, f p.2)) := by
  induction ps with
  | nil => rfl
  | cons p ps ih =>
      obtain ⟨⟨hv, hc⟩, hps⟩ := List.forall_mem_cons.1 h
      rw [substPieces, hv, hc, ih hps]
      rfl

theorem noNaN_args (h : e.Everywhere IsProper) : NoNaN e.args :=
  fun x hx ↦ h.of_mem_args hx [] _ .here x rfl

/-- Where a symbol does not occur, substitution builds the tree anew and does nothing else. -/
theorem subst_of_absent (h : Normal Named e) (hnan : e.Everywhere IsProper)
    (habsent : e.Everywhere (· ≠ .sym name)) (value : Expr) :
    subst name value e = .ok (settled e) := by
  induction h with
  | num | float | const | atom => rfl
  | @sym s _ =>
      have hs : s ≠ name := fun hs ↦ habsent [] _ .here (congrArg sym hs)
      rw [subst, if_neg (by simpa using hs)]
      rfl
  | add shape _ ih =>
      have hall := substAll_eq_map fun t ht ↦ ih t ht (hnan.of_mem_args ht) (habsent.of_mem_args ht)
      rw [subst, hall, ← addOf_settled shape.toSumShape (noNaN_args hnan)]
      rfl
  | mul shape _ ih =>
      have hall := substAll_eq_map fun t ht ↦ ih t ht (hnan.of_mem_args ht) (habsent.of_mem_args ht)
      rw [subst, hall, ← mulOf_settled shape (noNaN_args hnan)]
      rfl
  | @pow b x shape _ _ ihb ihx =>
      have hb : b ∈ (pow b x).args := List.mem_cons_self
      have hx : x ∈ (pow b x).args := List.mem_cons_of_mem b List.mem_cons_self
      rw [subst, ihb (hnan.of_mem_args hb) (habsent.of_mem_args hb),
        ihx (hnan.of_mem_args hx) (habsent.of_mem_args hx), ← powOf_settled shape]
      rfl
  | func _ kept _ ih =>
      have hall := substAll_eq_map fun t ht ↦ ih t ht (hnan.of_mem_args ht) (habsent.of_mem_args ht)
      rw [subst, hall]
      exact funcOf_settled kept
  | @rel op a b _ _ iha ihb =>
      have ha : a ∈ (rel op a b).args := List.mem_cons_self
      have hb : b ∈ (rel op a b).args := List.mem_cons_of_mem a List.mem_cons_self
      rw [subst, iha (hnan.of_mem_args ha) (habsent.of_mem_args ha),
        ihb (hnan.of_mem_args hb) (habsent.of_mem_args hb)]
      rfl
  | piecewise _ _ ihv ihc =>
      have hall := substPieces_eq_map fun p hp ↦
        ⟨ihv p hp (hnan.of_mem_pieces hp).1 (habsent.of_mem_pieces hp).1,
          ihc p hp (hnan.of_mem_pieces hp).2 (habsent.of_mem_pieces hp).2⟩
      rw [subst, hall, settled, settledPieces_eq_map]
      rfl

/-! ## What stands in a tree that was built anew -/

/-- The parts of a settled expression are the settled parts. -/
theorem exists_of_mem_args_settled {a : Expr} (ha : a ∈ (settled e).args) :
    ∃ b ∈ e.args, settled b = a := by
  cases e with
  | add ts =>
      rw [settled, args, mem_arranged, settledAll_eq_map] at ha
      exact List.mem_map.1 ha
  | mul fs =>
      rw [settled, args, mem_ranked, settledAll_eq_map] at ha
      exact List.mem_map.1 ha
  | func name as =>
      rw [settled, args, settledAll_eq_map] at ha
      exact List.mem_map.1 ha
  | pow b x | rel op b x | pair b x =>
      rcases List.mem_pair.1 ha with rfl | rfl
      · exact ⟨b, List.mem_cons_self, rfl⟩
      · exact ⟨x, List.mem_cons_of_mem b List.mem_cons_self, rfl⟩
  | piecewise ps =>
      rw [settled, args, settledPieces_eq_map, List.map_map] at ha
      obtain ⟨p, hp, rfl⟩ := List.mem_map.1 ha
      exact ⟨pair p.1 p.2, List.mem_map.2 ⟨p, hp, rfl⟩, by simp⟩
  | _ => cases ha

/-- What stands in a tree that was built anew was built anew. -/
theorem exists_at_of_settled {p : List Nat} {x : Expr} (h : (settled e).At p x) :
    ∃ q y, e.At q y ∧ settled y = x := by
  induction p generalizing e with
  | nil =>
      cases h
      exact ⟨[], e, .here, rfl⟩
  | cons i p ih =>
      cases h with
      | child get rest =>
          obtain ⟨b, hb, rfl⟩ := exists_of_mem_args_settled (List.mem_of_getElem? get)
          obtain ⟨q, y, hy, hx⟩ := ih rest
          obtain ⟨j, hj⟩ := hy.exists_of_mem_args hb
          exact ⟨j :: q, y, hj, hx⟩

/-- Settling keeps an expression proper. -/
theorem everywhere_isProper_settled (h : e.Everywhere IsProper) :
    (settled e).Everywhere IsProper := by
  intro p x hx
  obtain ⟨q, y, hy, rfl⟩ := exists_at_of_settled hx
  intro f hf
  exact h q y hy f (settled_eq_float_iff.1 hf)

/-! ## Trees in order -/

/-- Whether the symbols of a sum stand in front of its other terms. -/
def SymbolsFirst (ts : List Expr) : Prop :=
  ts.Pairwise fun s t ↦ t.symbolName?.isSome = true → s.symbolName?.isSome = true

/-- Whether an expression, if it is a sum, has its symbols in front. -/
def IsTidy (e : Expr) : Prop := ∀ ts, e = .add ts → SymbolsFirst ts

/-- What is true of a front part alone splits a list there. -/
theorem filter_append_filter_not {α : Type} {p : α → Bool} {as : List α}
    (h : as.Pairwise fun a b ↦ p b = true → p a = true) :
    (as.filter p ++ as.filter fun a ↦ !p a) = as := by
  induction h with
  | nil => rfl
  | @cons a as ha _ ih =>
      cases hp : p a with
      | true => simp [hp, ih]
      | false =>
          have hnone : ∀ b ∈ as, p b = false := by
            intro b hb
            cases hb' : p b with
            | false => rfl
            | true => exact (ha b hb hb').symm.trans hp
          have hfilter : as.filter p = [] :=
            List.filter_eq_nil_iff.2 fun b hb ↦ by simp [hnone b hb]
          have hrest : (as.filter fun a ↦ !p a) = as :=
            List.filter_eq_self.2 fun b hb ↦ by simp [hnone b hb]
          simp [hp, hfilter, hrest]

/-- Sorted names without repetition stay as they are. -/
theorem sortNames_eq_self {names : List String} (hsorted : names.Pairwise (· ≤ ·))
    (hnodup : names.Nodup) : sortNames names = names :=
  List.Perm.eq_of_pairwise (fun _ _ _ _ ↦ le_antisymm) (pairwise_sortNames names) hsorted
    ((List.perm_ext_iff_of_nodup (nodup_sortNames names) hnodup).2 fun _ ↦ mem_sortNames)

/-- A sum in order with its symbols first stays as it is. -/
theorem arranged_eq_self {ts : List Expr} (shape : OrderedSum ts) (h : SymbolsFirst ts) :
    arranged ts = ts := by
  rw [arranged, sortNames_eq_self shape.ascending shape.symbols, map_sym_filterMap]
  have hfront : ts.Pairwise fun s t ↦
      (!t.symbolName?.isNone) = true → (!s.symbolName?.isNone) = true := by
    simpa [SymbolsFirst] using h
  simpa using filter_append_filter_not hfront

/-- The factors of a product are ranked already. -/
theorem ranked_eq_self {fs : List Expr} (shape : ProductShape fs) : ranked fs = fs := by
  rw [ranked, sortByText_of_pairwise shape.ascending]
  apply filter_append_filter_not
  cases fs with
  | nil => exact .nil
  | cons f others =>
      have hnumber : ∀ g ∈ others, g.isNumber = false := shape.number
      refine .cons (fun g hg ↦ by simp [hnumber g hg]) ?_
      exact List.pairwise_of_forall_mem_list fun g _ h hh ↦ by simp [hnumber h hh]

/-- A tree in order is left as it is when it is built anew. -/
theorem settled_eq_self (h : Normal Named e) (htidy : e.Everywhere IsTidy) : settled e = e := by
  have hall {es : List Expr} (ih : ∀ e ∈ es, settled e = e) : settledAll es = es := by
    rw [settledAll_eq_map]
    exact (List.map_congr_left ih).trans (List.map_id es)
  induction h with
  | num | float | sym | const | atom => rfl
  | add shape _ ih =>
      rw [settled, hall fun t ht ↦ ih t ht (htidy.of_mem_args ht),
        arranged_eq_self shape (htidy [] _ .here _ rfl)]
  | mul shape _ ih =>
      rw [settled, hall fun t ht ↦ ih t ht (htidy.of_mem_args ht), ranked_eq_self shape]
  | func _ _ _ ih => rw [settled, hall fun t ht ↦ ih t ht (htidy.of_mem_args ht)]
  | pow _ _ _ iha ihb | rel _ _ _ iha ihb =>
      rw [settled, iha (htidy.of_mem_args List.mem_cons_self),
        ihb (htidy.of_mem_args (List.mem_cons_of_mem _ List.mem_cons_self))]
  | piecewise _ _ ihv ihc =>
      rw [settled, settledPieces_eq_map]
      refine congrArg piecewise ((List.map_congr_left fun p hp ↦ ?_).trans (List.map_id _))
      rw [ihv p hp (htidy.of_mem_pieces hp).1, ihc p hp (htidy.of_mem_pieces hp).2]
      rfl

/-- Arranging puts the symbols first. -/
theorem symbolsFirst_arranged (ts : List Expr) : SymbolsFirst (arranged ts) := by
  have hrest : ∀ t ∈ ts.filter fun t ↦ t.symbolName?.isNone, t.symbolName?.isSome = false := by
    intro t ht
    simpa using (List.mem_filter.1 ht).2
  refine List.pairwise_append.2 ⟨?_, ?_, ?_⟩
  · exact List.pairwise_map.2 (List.pairwise_of_forall_mem_list fun _ _ _ _ _ ↦ rfl)
  · exact List.pairwise_of_forall_mem_list fun s _ t ht ↦ by simp [hrest t ht]
  · exact fun s _ t ht ↦ by simp [hrest t ht]

/-- Settling tidies every sum. -/
theorem everywhere_isTidy_settled (e : Expr) : (settled e).Everywhere IsTidy := by
  intro p x hx
  obtain ⟨q, y, _, rfl⟩ := exists_at_of_settled hx
  intro ts hts
  cases y with
  | add us =>
      cases hts
      exact symbolsFirst_arranged (settledAll us)
  | _ => cases hts

/-! ## Equality and order -/

/-- Lists that are the same are so element by element. -/
theorem forall₂_of_sameAll {as bs : List Expr} (h : sameAll as bs = true) :
    List.Forall₂ (fun a b ↦ same a b = true) as bs := by
  induction as generalizing bs with
  | nil =>
      cases bs with
      | nil => exact .nil
      | cons => simp [sameAll] at h
  | cons a as ih =>
      cases bs with
      | nil => simp [sameAll] at h
      | cons b bs =>
          obtain ⟨hab, habs⟩ : same a b = true ∧ sameAll as bs = true := by simpa [sameAll] using h
          exact .cons hab (ih habs)

theorem forall₂_of_samePieces {ps qs : List (Expr × Expr)} (h : samePieces ps qs = true) :
    List.Forall₂ (fun p q ↦ same (.pair p.1 p.2) (.pair q.1 q.2) = true) ps qs := by
  induction ps generalizing qs with
  | nil =>
      cases qs with
      | nil => exact .nil
      | cons => simp [samePieces] at h
  | cons p ps ih =>
      cases qs with
      | nil => simp [samePieces] at h
      | cons q qs =>
          obtain ⟨hpq, hpqs⟩ : (same p.1 q.1 && same p.2 q.2) = true ∧ samePieces ps qs = true := by
            simpa [samePieces] using h
          exact .cons hpq (ih hpqs)

/-- Expressions that are the same have the same parts. -/
theorem same_args {a b : Expr} (h : same a b = true) :
    List.Forall₂ (fun x y ↦ same x y = true) a.args b.args := by
  revert h
  fun_cases same a b with
  | case1 | case2 | case3 | case8 | case12 => exact fun _ ↦ .nil
  | case4 | case5 => exact forall₂_of_sameAll
  | case7 f as g bs => exact fun h ↦ forall₂_of_sameAll (Bool.and_eq_true_iff.1 h).2
  | case6 a b c d | case11 a b c d =>
      intro h
      obtain ⟨hac, hbd⟩ := Bool.and_eq_true_iff.1 h
      exact .cons hac (.cons hbd .nil)
  | case9 r a b s c d =>
      intro h
      obtain ⟨hrs, hbd⟩ := Bool.and_eq_true_iff.1 h
      exact .cons (Bool.and_eq_true_iff.1 hrs).2 (.cons hbd .nil)
  | case10 ps qs =>
      intro h
      rw [args, args, List.forall₂_map_left_iff, List.forall₂_map_right_iff]
      exact forall₂_of_samePieces h
  | case13 =>
      intro h
      cases h

/-- Expressions that are the same are the same symbol or none. -/
theorem symbolName?_of_same {a b : Expr} (h : same a b = true) :
    a.symbolName? = b.symbolName? := by
  revert h
  fun_cases same a b with
  | case3 a b => exact fun h ↦ congrArg some (eq_of_beq h)
  | case13 =>
      intro h
      cases h
  | _ => exact fun _ ↦ rfl

/-- What stands inside an expression stands inside one that is the same. -/
theorem exists_at_of_same {a b y : Expr} {p : List Nat} (h : same a b = true) (hy : b.At p y) :
    ∃ x, a.At p x ∧ same x y = true := by
  induction hy generalizing a with
  | here => exact ⟨a, .here, h⟩
  | child get _ ih =>
      obtain ⟨hlength, hget⟩ := List.forall₂_iff_get.1 (same_args h)
      obtain ⟨hi, rfl⟩ := List.getElem?_eq_some_iff.1 get
      obtain ⟨x, hx, hsame⟩ := ih (hget _ (hlength ▸ hi) hi)
      exact ⟨x, .child (List.getElem?_eq_getElem (hlength ▸ hi)) hx, hsame⟩

/-- What is the same as a tidy sum is tidy. -/
theorem IsTidy.of_same {a b : Expr} (ha : a.IsTidy) (h : same a b = true) : b.IsTidy := by
  rintro ts rfl
  cases a with
  | add us =>
      have hnames : us.map symbolName? = ts.map symbolName? := by
        rw [← List.forall₂_eq_eq_eq, List.forall₂_map_left_iff, List.forall₂_map_right_iff]
        rw [same] at h
        exact (forall₂_of_sameAll h).imp fun _ _ ↦ symbolName?_of_same
      have hus : (us.map symbolName?).Pairwise fun s t ↦ t.isSome = true → s.isSome = true :=
        List.pairwise_map.2 (ha us rfl)
      rw [hnames] at hus
      exact List.pairwise_map.1 hus
  | _ => simp [same] at h

/-- A tree built anew is equal to what it was if and only if that was in order. -/
theorem same_settled_iff (h : Normal Named e) (hnan : e.Everywhere IsProper) :
    same (settled e) e = true ↔ e.Everywhere IsTidy := by
  constructor
  · -- What was built anew is in order, and equality keeps the places of the symbols.
    intro hsame p x hx
    obtain ⟨y, hy, hyx⟩ := exists_at_of_same hsame hx
    exact (everywhere_isTidy_settled e p y hy).of_same hyx
  · intro htidy
    rw [settled_eq_self h htidy]
    exact h.same_self hnan

/-! ## The theorem -/

theorem everywhere_ne_sym (h : ∀ p, ¬e.At p (.sym name)) : e.Everywhere (· ≠ .sym name) := by
  rintro p x hx rfl
  exact h p hx

/-- An expression is tidy if its sums have their symbols first. -/
theorem everywhere_isTidy_iff :
    e.Everywhere IsTidy ↔ ∀ p ts, e.At p (.add ts) → SymbolsFirst ts := by
  constructor
  · intro h p ts hts
    exact h p _ hts ts rfl
  · rintro h p _ hx ts rfl
    exact h p ts hx

/-- A proper expression stays normal when it is settled: settling is substitution for a symbol that
it lacks. -/
theorem Normal.settled (h : Normal Named e) (hnan : e.Everywhere IsProper)
    (habsent : e.Everywhere (· ≠ .sym name)) : Normal Named (settled e) :=
  normal_subst (.num 0) h (subst_of_absent h hnan habsent (.num 0))

/-- Substitution for a symbol that does not occur in a constructed expression gives the same terms
and factors at every level, possibly in another order. The result is equal to the expression if and
only if in each of its sums the symbols stand before the other terms, and it is equal to itself
after one more such substitution. -/
theorem Constructed.exists_subst_absent (h : Constructed e)
    (hnan : ∀ p x, e.At p (.float x) → x.isNaN = false) (habsent : ∀ p, ¬e.At p (.sym name))
    (value : Expr) :
    ∃ e', Expr.subst name value e = .ok e' ∧ Rearranged e e' ∧
      (same e' e = true ↔ ∀ p ts, e.At p (.add ts) → SymbolsFirst ts) ∧
      ∀ name' value', (∀ p, ¬e'.At p (.sym name')) →
        ∃ e'', Expr.subst name' value' e' = .ok e'' ∧ same e'' e' = true := by
  have hproper : e.Everywhere IsProper := by
    rintro p _ hx x rfl
    exact hnan p x hx
  have hsettled := h.normal.settled hproper (everywhere_ne_sym habsent)
  refine ⟨e.settled, subst_of_absent h.normal hproper (everywhere_ne_sym habsent) value,
    rearranged_settled h.normal, ?_, fun name' value' habsent' ↦ ?_⟩
  · rw [same_settled_iff h.normal hproper, everywhere_isTidy_iff]
  · have hproper' := everywhere_isProper_settled hproper
    refine ⟨e.settled.settled, ?_, ?_⟩
    · exact subst_of_absent hsettled hproper' (everywhere_ne_sym habsent') value'
    · exact (same_settled_iff hsettled hproper').2 (everywhere_isTidy_settled e)

/-- The sum of `a`, `a` and `b`, which collects the first two. -/
def collected : Expr := addOf [.sym "a", .sym "a", .sym "b"]

theorem collected_eq : collected = .add [.mul [.num 2, .sym "a"], .sym "b"] := by
  cbv

theorem constructed_collected : Constructed collected := by
  refine .addOf fun t ht ↦ ?_
  simp only [List.mem_cons, List.not_mem_nil, or_false] at ht
  rcases ht with rfl | rfl | rfl <;> exact .sym _

theorem everywhere_collected {P : Expr → Prop}
    (h : ∀ e ∈ [collected, .mul [.num 2, .sym "a"], .num 2, .sym "a", .sym "b"], P e) :
    collected.Everywhere P := by
  rw [collected_eq] at h ⊢
  simp only [List.forall_mem_cons, List.not_mem_nil, IsEmpty.forall_iff, implies_true,
    and_true] at h
  obtain ⟨hsum, hproduct, htwo, ha, hb⟩ := h
  have hmultiple : (Expr.mul [.num 2, .sym "a"]).Everywhere P := by
    refine everywhere_iff.2 ⟨hproduct, ?_⟩
    simp [args, everywhere_of_args_eq_nil rfl htwo, everywhere_of_args_eq_nil rfl ha]
  refine everywhere_iff.2 ⟨hsum, ?_⟩
  simp [args, hmultiple, everywhere_of_args_eq_nil rfl hb]

/-- A product stands before a symbol in the example. -/
theorem not_symbolsFirst_collected : ¬SymbolsFirst [.mul [.num 2, .sym "a"], .sym "b"] := by
  simp [SymbolsFirst, symbolName?]

/-- Below a relation, beside an inexact number. -/
theorem exists_subst_absent_rel :
    let e := Expr.rel .lt (.float 0.5) collected
    ∃ e', Expr.subst "z" (.sym "b") e = .ok e' ∧ Rearranged e e' ∧ same e' e = false := by
  intro e
  have hall {P : Expr → Prop} (he : P e) (hfloat : P (.float 0.5)) (h : collected.Everywhere P) :
      e.Everywhere P :=
    everywhere_iff.2 ⟨he, by simp [e, args, h, everywhere_of_args_eq_nil rfl hfloat]⟩
  have hproper : e.Everywhere fun x ↦ ∀ f, x = .float f → f.isNaN = false := by
    refine hall (by simp [e]) ?_ (everywhere_collected (by simp [collected_eq]))
    rintro f ⟨⟩
    decide +kernel
  have habsent : e.Everywhere (· ≠ .sym "z") :=
    hall (by simp [e]) (by simp) (everywhere_collected (by simp [collected_eq]))
  obtain ⟨e', hsubst, hrearranged, hsame, -⟩ :=
    Constructed.exists_subst_absent (.rel .lt (.float 0.5) constructed_collected)
      (fun p x hx ↦ hproper p _ hx x rfl) (fun p hp ↦ habsent p _ hp rfl) (.sym "b")
  refine ⟨e', hsubst, hrearranged, Bool.eq_false_of_not_eq_true fun h ↦ ?_⟩
  have hat : e.At [1] (.add [.mul [.num 2, .sym "a"], .sym "b"]) :=
    .child rfl (collected_eq ▸ .here)
  exact not_symbolsFirst_collected (hsame.1 h [1] _ hat)

/-- The multiple of the collected symbol goes behind the other symbol. -/
theorem subst_absent_reorders :
    Constructed collected ∧ (∀ p x, collected.At p (.float x) → x.isNaN = false) ∧
      (∀ p, ¬collected.At p (.sym "z")) ∧
      ∃ e', subst "z" (.num 1) collected = .ok e' ∧ same e' collected = false := by
  refine ⟨constructed_collected, fun p x hx ↦ ?_, fun p hp ↦ ?_, ?_⟩
  · have hexact : collected.Everywhere fun e ↦ ∀ x, e ≠ .float x :=
      everywhere_collected (by simp [collected_eq])
    exact absurd rfl (hexact p _ hx x)
  · have habsent : collected.Everywhere (· ≠ .sym "z") :=
      everywhere_collected (by simp [collected_eq])
    exact habsent p _ hp rfl
  · refine ⟨.add [.sym "b", .mul [.num 2, .sym "a"]], ?_, ?_⟩
    · cbv
    · cbv

end ExprCompiler.Expr
