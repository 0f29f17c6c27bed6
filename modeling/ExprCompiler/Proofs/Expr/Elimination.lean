import ExprCompiler.Proofs.Expr.Constructed
import ExprCompiler.Proofs.Expr.Faults

/-!
# Substitution and the symbols of an expression

Substitution goes into the branches of a choice, but not into a branch that stands alone. Main
statement: the symbols of a result are symbols of the expression or of what was put in, and the
symbol that was replaced is among them only if it stands in such a branch
(`Expr.subst_eliminates`).
-/

namespace ExprCompiler.Expr

/-! ## What stands in a built expression -/

/-- A property of nodes that is about symbols, leaves and applications only, and about these not by
what they are applied to. -/
structure Neutral (P : Expr → Prop) : Prop where
  num (q : Rat) : P (.num q)
  float (x : Float) : P (.float x)
  add (ts : List Expr) : P (.add ts)
  mul (fs : List Expr) : P (.mul fs)
  pow (b x : Expr) : P (.pow b x)
  rel (op : Relation) (a b : Expr) : P (.rel op a b)
  piecewise (ps : List (Expr × Expr)) : P (.piecewise ps)
  pair (a c : Expr) : P (.pair a c)
  func {name : String} {as bs : List Expr} (hlength : as.length = bs.length)
    (h : P (.func name as)) : P (.func name bs)

section Built

variable {P : Expr → Prop} {es : List Expr} {e : Expr}

/-- Numbers have every property that is neutral. -/
theorem Neutral.of_isNumber (h : Neutral P) (he : e.isNumber = true) : e.Everywhere P := by
  cases e with
  | num q => exact everywhere_of_args_eq_nil rfl (h.num q)
  | float x => exact everywhere_of_args_eq_nil rfl (h.float x)
  | _ => cases he

/-- Assembling a product keeps a neutral property. -/
theorem Neutral.assembleProduct (h : Neutral P) {lead : Option Expr}
    (hlead : ∀ c ∈ lead, c.isNumber = true) (hes : ∀ e ∈ es, e.Everywhere P) :
    (assembleProduct lead es).Everywhere P := by
  have hsorted : ∀ e ∈ sortByText es, e.Everywhere P := fun e he ↦ hes e (mem_sortByText.1 he)
  unfold Expr.assembleProduct
  split
  · rename_i e he
    exact hsorted e (by simp [he])
  · exact everywhere_iff.2 ⟨h.mul _, hsorted⟩
  · rename_i c
    exact everywhere_iff.2
      ⟨h.mul _, List.forall_mem_cons.2 ⟨h.of_isNumber (hlead c rfl), hsorted⟩⟩

theorem Neutral.mulOf (h : Neutral P) (hes : ∀ e ∈ es, e.Everywhere P) :
    (mulOf es).Everywhere P := by
  have hflat := forall_mem_factorsOf (fun _ hmul _ ↦ hmul.of_mem_args) hes
  have hothers : ∀ e ∈ (es.flatMap Expr.factorsOf).filter fun e ↦ !e.isNumber, e.Everywhere P :=
    fun e he ↦ hflat e (List.mem_of_mem_filter he)
  unfold Expr.mulOf
  dsimp only
  split
  · exact h.of_isNumber rfl
  · split
    · split
      · exact h.of_isNumber rfl
      · exact h.assembleProduct (by simp [isNumber]) hothers
    · split
      · exact h.of_isNumber rfl
      · split
        · exact h.assembleProduct (by simp) hothers
        · exact h.assembleProduct (by simp [isNumber]) hothers

/-- Counting a symbol keeps a neutral property. -/
theorem Neutral.repeated (h : Neutral P) {names : List String} {name : String}
    (hname : (sym name).Everywhere P) : (repeated names name).Everywhere P := by
  simp only [Expr.repeated]
  split
  · exact hname
  · refine h.mulOf fun f hf ↦ ?_
    rcases List.mem_pair.1 hf with rfl | rfl
    · exact h.of_isNumber rfl
    · exact hname

theorem Neutral.addOf (h : Neutral P) (hes : ∀ e ∈ es, e.Everywhere P) :
    (addOf es).Everywhere P := by
  have hflat := forall_mem_termsOf (fun _ hadd _ ↦ hadd.of_mem_args) hes
  have hsymbol {name : String} (hname : name ∈ (es.flatMap termsOf).filterMap symbolName?) :
      (sym name).Everywhere P := by
    obtain ⟨t, ht, hname⟩ := List.mem_filterMap.1 hname
    cases t with
    | sym s =>
        obtain rfl := Option.some.inj hname
        exact hflat _ ht
    | _ => cases hname
  have hparts {inexact : Option Float} {q : Rat} :
      ∀ e ∈ (sortNames ((es.flatMap termsOf).filterMap symbolName?)).map
          (Expr.repeated ((es.flatMap termsOf).filterMap symbolName?)) ++
        ((es.flatMap termsOf).filter fun e ↦ !e.isNumber && e.symbolName?.isNone) ++
        trailing inexact q, e.Everywhere P := by
    intro e he
    rcases List.mem_append.1 he with he | he
    · rcases List.mem_append.1 he with he | he
      · obtain ⟨name, hname, rfl⟩ := List.mem_map.1 he
        exact h.repeated (hsymbol (mem_sortNames.1 hname))
      · exact hflat e (List.mem_of_mem_filter he)
    · exact h.of_isNumber (mem_trailing he).1
  unfold Expr.addOf
  dsimp only
  split
  · split
    · exact h.of_isNumber rfl
    · exact h.of_isNumber rfl
  · rename_i e heq
    exact hparts e (by rw [heq]; exact List.mem_singleton_self e)
  · exact everywhere_iff.2 ⟨h.add _, hparts⟩

theorem Neutral.everywhere_pow (h : Neutral P) {b x : Expr} (hb : b.Everywhere P)
    (hx : x.Everywhere P) : (Expr.pow b x).Everywhere P :=
  everywhere_iff.2 ⟨h.pow b x, by simp [args, hb, hx]⟩

theorem Neutral.powOf (h : Neutral P) {b x : Expr} (hb : b.Everywhere P) (hx : x.Everywhere P) :
    (powOf b x).Everywhere P := by
  fun_induction Expr.powOf b x with
  | case2 => exact hb
  | case3 | case7 | case9 | case12 | case13 => exact h.everywhere_pow hb hx
  | case8 q hq hq' c y ih =>
      have hc : c.Everywhere P := hb.of_mem_args List.mem_cons_self
      have hy : y.Everywhere P := hb.of_mem_args (List.mem_cons_of_mem c List.mem_cons_self)
      refine ih hc (h.mulOf fun e he ↦ ?_)
      rcases List.mem_pair.1 he with rfl | rfl
      · exact hy
      · exact hx
  | _ => exact h.of_isNumber rfl

/-- Function application keeps a neutral property that the application itself has. -/
theorem Neutral.funcOf (h : Neutral P) {name : String} (hself : P (.func name es))
    (hes : ∀ e ∈ es, e.Everywhere P) (he : funcOf name es = .ok e) : e.Everywhere P := by
  have hkept : (Expr.func name es).Everywhere P := everywhere_iff.2 ⟨hself, hes⟩
  unfold Expr.funcOf at he
  split at he
  · rename_i a
    obtain ⟨found, hfound, he⟩ := Outcome.bind_eq_ok.1 he
    cases he
    cases found with
    | none => exact hkept
    | some e =>
        rcases isNumber_or_mem_of_identity? hfound with hnumber | ⟨inner, as, rfl, hmem⟩
        · exact h.of_isNumber hnumber
        · exact (hes _ List.mem_cons_self).of_mem_args hmem
  · cases he
    exact hkept

theorem Neutral.everywhere_piecewise (h : Neutral P) {ps : List (Expr × Expr)}
    (hps : ∀ p ∈ ps, p.1.Everywhere P ∧ p.2.Everywhere P) : (Expr.piecewise ps).Everywhere P := by
  refine everywhere_iff.2 ⟨h.piecewise ps, fun a ha ↦ ?_⟩
  obtain ⟨p, hp, rfl⟩ := List.mem_map.1 ha
  exact everywhere_iff.2 ⟨h.pair _ _, by simp [args, hps p hp]⟩

end Built

/-! ## Where substitution goes -/

/-- What substitution goes into: the children, with the two parts of each branch of a choice for
the branch, and nothing of a branch that stands alone. -/
def opened : Expr → List Expr
  | .piecewise ps => ps.flatMap fun p ↦ [p.1, p.2]
  | .pair _ _ => []
  | e => e.args

/-- What substitution comes to in an expression. -/
inductive Opens : Expr → Expr → Prop
  | here {e : Expr} : Opens e e
  | inside {e a x : Expr} (mem : a ∈ e.opened) (rest : Opens a x) : Opens e x

/-- Positions inside a part are positions inside the whole. -/
theorem At.append {e a x : Expr} {p q : List Nat} (ha : e.At p a) (hx : a.At q x) :
    e.At (p ++ q) x := by
  induction ha with
  | here => exact hx
  | child get _ ih => exact .child get (ih hx)

/-- Every part has a position. -/
theorem exists_at_of_mem_args {e a : Expr} (h : a ∈ e.args) : ∃ p, e.At p a := by
  obtain ⟨i, hi⟩ := At.here.exists_of_mem_args h
  exact ⟨[i], hi⟩

theorem exists_at_of_mem_opened {e a : Expr} (h : a ∈ e.opened) : ∃ p, e.At p a := by
  cases e with
  | piecewise ps =>
      obtain ⟨q, hq, ha⟩ := List.mem_flatMap.1 h
      obtain ⟨p, hp⟩ := exists_at_of_mem_args (e := .piecewise ps) (List.mem_map.2 ⟨q, hq, rfl⟩)
      obtain ⟨p', hp'⟩ := exists_at_of_mem_args (e := .pair q.1 q.2) ha
      exact ⟨p ++ p', hp.append hp'⟩
  | pair a c => cases h
  | _ => exact exists_at_of_mem_args h

/-- What substitution comes to has a position. -/
theorem Opens.exists_at {e x : Expr} (h : e.Opens x) : ∃ p, e.At p x := by
  induction h with
  | here => exact ⟨[], .here⟩
  | inside mem _ ih =>
      obtain ⟨p, hp⟩ := exists_at_of_mem_opened mem
      obtain ⟨q, hq⟩ := ih
      exact ⟨p ++ q, hp.append hq⟩

/-- Whether a property holds of all that stands in an expression, but for the occurrences of a
symbol that substitution replaces. -/
def HoldsBut (P : Expr → Prop) (name : String) (e : Expr) : Prop :=
  ∀ x, e.Opens x → (x ≠ .sym name → P x) ∧ ∀ a c, x = .pair a c → x.Everywhere P

section Substitution

variable {P : Expr → Prop} {name : String} {value : Expr}

/-- A property of all that substitution comes to is one inside every part. -/
theorem HoldsBut.of_mem {e a : Expr} (h : e.HoldsBut P name) (ha : a ∈ e.opened) :
    a.HoldsBut P name := fun x hx ↦ h x (.inside ha hx)

mutual

/-- Substitution keeps a property that is not about what it builds. -/
theorem everywhere_subst (hP : Neutral P) (hvalue : value.Everywhere P) :
    ∀ {e e' : Expr}, e.HoldsBut P name → subst name value e = .ok e' → e'.Everywhere P
  | .sym s, e', he, h => by
      rw [subst] at h
      cases h
      split
      · exact hvalue
      · rename_i hs
        refine everywhere_of_args_eq_nil rfl ((he _ .here).1 ?_)
        simpa using hs
  | .add ts, e', he, h => by
      obtain ⟨ts', hts, h⟩ := Outcome.bind_eq_ok.1 h
      cases h
      exact hP.addOf (everywhere_substAll hP hvalue (fun t ht ↦ he.of_mem ht) hts).2
  | .mul fs, e', he, h => by
      obtain ⟨fs', hfs, h⟩ := Outcome.bind_eq_ok.1 h
      cases h
      exact hP.mulOf (everywhere_substAll hP hvalue (fun t ht ↦ he.of_mem ht) hfs).2
  | .pow b x, e', he, h => by
      obtain ⟨b', hb, h⟩ := Outcome.bind_eq_ok.1 h
      obtain ⟨x', hx, h⟩ := Outcome.bind_eq_ok.1 h
      cases h
      exact hP.powOf (everywhere_subst hP hvalue (he.of_mem (by simp [opened, args])) hb)
        (everywhere_subst hP hvalue (he.of_mem (by simp [opened, args])) hx)
  | .func f as, e', he, h => by
      obtain ⟨as', has, h⟩ := Outcome.bind_eq_ok.1 h
      obtain ⟨hlength, has'⟩ := everywhere_substAll hP hvalue (fun t ht ↦ he.of_mem ht) has
      exact hP.funcOf (hP.func hlength ((he _ .here).1 (by simp))) has' h
  | .rel op a b, e', he, h => by
      obtain ⟨a', ha, h⟩ := Outcome.bind_eq_ok.1 h
      obtain ⟨b', hb, h⟩ := Outcome.bind_eq_ok.1 h
      cases h
      have ha' := everywhere_subst hP hvalue (he.of_mem (by simp [opened, args])) ha
      have hb' := everywhere_subst hP hvalue (he.of_mem (by simp [opened, args])) hb
      exact everywhere_iff.2 ⟨hP.rel op a' b', by simp [args, ha', hb']⟩
  | .piecewise ps, e', he, h => by
      obtain ⟨ps', hps, h⟩ := Outcome.bind_eq_ok.1 h
      cases h
      refine hP.everywhere_piecewise (everywhere_substPieces hP hvalue (fun p hp ↦ ?_) hps)
      exact ⟨he.of_mem (List.mem_flatMap.2 ⟨p, hp, by simp⟩),
        he.of_mem (List.mem_flatMap.2 ⟨p, hp, by simp⟩)⟩
  | .pair a c, e', he, h => by
      cases h
      exact (he _ .here).2 a c rfl
  | .num _, e', he, h | .float _, e', he, h | .const _, e', he, h | .atom _ _, e', he, h => by
      cases h
      exact everywhere_of_args_eq_nil rfl ((he _ .here).1 (by simp))

/-- Substitution into a list keeps a neutral property of what it comes to. -/
theorem everywhere_substAll (hP : Neutral P) (hvalue : value.Everywhere P) :
    ∀ {es es' : List Expr}, (∀ e ∈ es, e.HoldsBut P name) → substAll name value es = .ok es' →
      es.length = es'.length ∧ ∀ e ∈ es', e.Everywhere P
  | [], es', _, h => by
      cases h
      simp
  | e :: es, es', hes, h => by
      obtain ⟨e', he, h⟩ := Outcome.bind_eq_ok.1 h
      obtain ⟨es'', hrest, h⟩ := Outcome.bind_eq_ok.1 h
      cases h
      rw [List.forall_mem_cons] at hes
      obtain ⟨hlength, hall⟩ := everywhere_substAll hP hvalue hes.2 hrest
      exact ⟨congrArg Nat.succ hlength,
        List.forall_mem_cons.2 ⟨everywhere_subst hP hvalue hes.1 he, hall⟩⟩

theorem everywhere_substPieces (hP : Neutral P) (hvalue : value.Everywhere P) :
    ∀ {ps ps' : List (Expr × Expr)}, (∀ p ∈ ps, p.1.HoldsBut P name ∧ p.2.HoldsBut P name) →
      substPieces name value ps = .ok ps' → ∀ p ∈ ps', p.1.Everywhere P ∧ p.2.Everywhere P
  | [], ps', _, h => by
      cases h
      simp
  | (e, c) :: ps, ps', hps, h => by
      obtain ⟨e', he, h⟩ := Outcome.bind_eq_ok.1 h
      obtain ⟨c', hc, h⟩ := Outcome.bind_eq_ok.1 h
      obtain ⟨ps'', hrest, h⟩ := Outcome.bind_eq_ok.1 h
      cases h
      rw [List.forall_mem_cons] at hps
      exact List.forall_mem_cons.2
        ⟨⟨everywhere_subst hP hvalue hps.1.1 he, everywhere_subst hP hvalue hps.1.2 hc⟩,
          everywhere_substPieces hP hvalue hps.2 hrest⟩

end

/-! ## Faults -/

/-- Whether an exponential without arguments stands in an expression. -/
def HasBareExp (e : Expr) : Prop := ∃ p, e.At p (.func "exp" [])

theorem neutral_ne_bareExp : Neutral (· ≠ .func "exp" []) where
  num _ := by simp
  float _ := by simp
  add _ := by simp
  mul _ := by simp
  pow _ _ := by simp
  rel _ _ _ := by simp
  piecewise _ := by simp
  pair _ _ := by simp
  func {name as bs} hlength h := by
    rintro ⟨⟩
    exact h (by rw [List.length_eq_zero_iff.1 hlength])

/-- Without an exponential of nothing, no part is one. -/
theorem everywhere_ne_bareExp {e : Expr} (h : ¬e.HasBareExp) :
    e.Everywhere (· ≠ .func "exp" []) := by
  rintro p x hx rfl
  exact h ⟨p, hx⟩

/-- An exponential of nothing in a part is one in the whole. -/
theorem HasBareExp.of_mem_opened {e a : Expr} (ha : a ∈ e.opened) (h : a.HasBareExp) :
    e.HasBareExp := by
  obtain ⟨p, hp⟩ := exists_at_of_mem_opened ha
  obtain ⟨q, hq⟩ := h
  exact ⟨p ++ q, hp.append hq⟩

theorem holdsBut_of_everywhere {e : Expr} (h : e.Everywhere P) : e.HoldsBut P name := by
  intro x hx
  obtain ⟨p, hp⟩ := hx.exists_at
  refine ⟨fun _ ↦ h p x hp, fun a c hac q y hy ↦ h (p ++ q) y (hp.append hy)⟩

/-- Substitution makes no exponential without arguments. -/
theorem exists_hasBareExp_of_substAll {es es' : List Expr} (h : substAll name value es = .ok es')
    {x : Expr} (hx : x ∈ es') (hbare : x.HasBareExp) :
    ∃ e ∈ es, e.HasBareExp ∨ value.HasBareExp := by
  by_contra hnone
  simp only [not_exists, not_and, not_or] at hnone
  have hne : es ≠ [] := by
    rintro rfl
    cases h
    cases hx
  obtain ⟨e, he⟩ := List.exists_mem_of_ne_nil es hne
  obtain ⟨p, hp⟩ := hbare
  refine (everywhere_substAll neutral_ne_bareExp (everywhere_ne_bareExp (hnone e he).2)
    (fun e he ↦ holdsBut_of_everywhere (everywhere_ne_bareExp (hnone e he).1)) h).2 x hx p _ hp rfl

theorem bareExp_of_mem_opened {f : Fault} {e : Expr}
    (h : f = .index 0 0 ∧ ∃ a ∈ e.opened, a.HasBareExp ∨ value.HasBareExp) :
    f = .index 0 0 ∧ (e.HasBareExp ∨ value.HasBareExp) := by
  obtain ⟨hf, a, ha, hbare⟩ := h
  exact ⟨hf, hbare.imp_left (.of_mem_opened ha)⟩

mutual

/-- Substitution faults as the logarithm of an exponential without arguments does, and only if
there is such an exponential. -/
theorem bareExp_of_subst_error {f : Fault} :
    ∀ {e : Expr}, subst name value e = .error f →
      f = .index 0 0 ∧ (e.HasBareExp ∨ value.HasBareExp)
  | .add ts, h | .mul ts, h => by
      rcases Outcome.bind_eq_error.1 h with h | ⟨ts', -, h⟩
      · exact bareExp_of_mem_opened (bareExp_of_substAll_error h)
      · cases h
  | .func g as, h => by
      rcases Outcome.bind_eq_error.1 h with h | ⟨as', has, h⟩
      · exact bareExp_of_mem_opened (bareExp_of_substAll_error h)
      · obtain ⟨-, rfl, hf⟩ := funcOf_eq_error_iff.1 h
        exact bareExp_of_mem_opened
          ⟨hf, exists_hasBareExp_of_substAll has List.mem_cons_self ⟨[], .here⟩⟩
  | .pow a b, h | .rel _ a b, h => by
      refine bareExp_of_mem_opened ?_
      rcases Outcome.bind_eq_error.1 h with h | ⟨a', -, h⟩
      · obtain ⟨hf, hbare⟩ := bareExp_of_subst_error h
        exact ⟨hf, a, by simp [opened, args], hbare⟩
      · rcases Outcome.bind_eq_error.1 h with h | ⟨b', -, h⟩
        · obtain ⟨hf, hbare⟩ := bareExp_of_subst_error h
          exact ⟨hf, b, by simp [opened, args], hbare⟩
        · cases h
  | .piecewise ps, h => by
      rcases Outcome.bind_eq_error.1 h with h | ⟨ps', -, h⟩
      · exact bareExp_of_mem_opened (bareExp_of_substPieces_error h)
      · cases h
  | .sym _, h | .num _, h | .float _, h | .const _, h | .atom _ _, h | .pair _ _, h => by
      cases h

/-- Only an exponential of nothing makes substitution into a list fail. -/
theorem bareExp_of_substAll_error {f : Fault} :
    ∀ {es : List Expr}, substAll name value es = .error f →
      f = .index 0 0 ∧ ∃ e ∈ es, e.HasBareExp ∨ value.HasBareExp
  | [], h => by cases h
  | e :: es, h => by
      rcases Outcome.bind_eq_error.1 h with h | ⟨e', -, h⟩
      · obtain ⟨hf, hbare⟩ := bareExp_of_subst_error h
        exact ⟨hf, e, List.mem_cons_self, hbare⟩
      · rcases Outcome.bind_eq_error.1 h with h | ⟨es', -, h⟩
        · obtain ⟨hf, x, hx, hbare⟩ := bareExp_of_substAll_error h
          exact ⟨hf, x, List.mem_cons_of_mem e hx, hbare⟩
        · cases h

theorem bareExp_of_substPieces_error {f : Fault} :
    ∀ {ps : List (Expr × Expr)}, substPieces name value ps = .error f →
      f = .index 0 0 ∧ ∃ a ∈ ps.flatMap fun p ↦ [p.1, p.2], a.HasBareExp ∨ value.HasBareExp
  | [], h => by cases h
  | (e, c) :: ps, h => by
      rw [List.flatMap_cons]
      rcases Outcome.bind_eq_error.1 h with h | ⟨e', -, h⟩
      · obtain ⟨hf, hbare⟩ := bareExp_of_subst_error h
        exact ⟨hf, e, by simp, hbare⟩
      · rcases Outcome.bind_eq_error.1 h with h | ⟨c', -, h⟩
        · obtain ⟨hf, hbare⟩ := bareExp_of_subst_error h
          exact ⟨hf, c, by simp, hbare⟩
        · rcases Outcome.bind_eq_error.1 h with h | ⟨ps', -, h⟩
          · obtain ⟨hf, a, ha, hbare⟩ := bareExp_of_substPieces_error h
            exact ⟨hf, a, List.mem_append_right _ ha, hbare⟩
          · cases h

end

end Substitution

/-! ## Symbols -/

/-- Whether a symbol stands in an expression. -/
def Mentions (e : Expr) (s : String) : Prop := ∃ p, e.At p (.sym s)

theorem neutral_symbols (Q : String → Prop) : Neutral fun x ↦ ∀ s, x = .sym s → Q s where
  num _ := by simp
  float _ := by simp
  add _ := by simp
  mul _ := by simp
  pow _ _ := by simp
  rel _ _ _ := by simp
  piecewise _ := by simp
  pair _ _ := by simp
  func _ _ := by simp

/-- A property of all symbols is one of all names that are mentioned. -/
theorem everywhere_symbols_iff {Q : String → Prop} {e : Expr} :
    e.Everywhere (fun x ↦ ∀ s, x = .sym s → Q s) ↔ ∀ s, e.Mentions s → Q s := by
  constructor
  · rintro h s ⟨p, hp⟩
    exact h p _ hp s rfl
  · rintro h p _ hx s rfl
    exact h s ⟨p, hx⟩

/-- What stands where substitution comes to stands in the expression. -/
theorem Opens.mentions {e x : Expr} {s : String} (h : e.Opens x) (hx : x.Mentions s) :
    e.Mentions s := by
  obtain ⟨p, hp⟩ := h.exists_at
  obtain ⟨q, hq⟩ := hx
  exact ⟨p ++ q, hp.append hq⟩

/-- What substitution can leave of the symbols: those of what was put in, those of the expression
but for the one replaced, and that one if it stands in a branch that stands alone. -/
theorem mentions_of_subst {name s : String} {value e e' : Expr}
    (h : subst name value e = .ok e') (hs : e'.Mentions s) :
    value.Mentions s ∨ s ≠ name ∧ e.Mentions s ∨
      s = name ∧ ∃ a c, e.Opens (.pair a c) ∧ (pair a c).Mentions name := by
  revert s
  rw [← everywhere_symbols_iff]
  refine everywhere_subst (neutral_symbols _) (everywhere_symbols_iff.2 fun _ ↦ .inl) ?_ h
  intro x hx
  refine ⟨?_, ?_⟩
  · rintro hne t rfl
    exact .inr (.inl ⟨fun ht ↦ hne (congrArg sym ht), hx.mentions ⟨[], .here⟩⟩)
  · rintro a c rfl
    refine everywhere_symbols_iff.2 fun t ht ↦ ?_
    by_cases hname : t = name
    · subst hname
      exact .inr (.inr ⟨rfl, a, c, hx, ht⟩)
    · exact .inr (.inl ⟨hname, hx.mentions ht⟩)

/-- Substitution for a symbol that does not occur in what is put in has a result, unless an
exponential without arguments stands somewhere. The symbols of the result are those of the
expression and of what was put in; the symbol replaced is among them only if it stands in a branch
that stands alone, which is left as it is. -/
theorem subst_eliminates {name : String} {value : Expr} (hvalue : ¬value.Mentions name)
    (e : Expr) :
    (∃ e', subst name value e = .ok e' ∧
        (∀ s, e'.Mentions s → e.Mentions s ∨ value.Mentions s) ∧
        (e'.Mentions name → ∃ a c, e.Opens (.pair a c) ∧ (pair a c).Mentions name) ∧
        ∀ a c, e = .pair a c → e' = e) ∨
      subst name value e = .error (.index 0 0) ∧ (e.HasBareExp ∨ value.HasBareExp) := by
  cases h : subst name value e with
  | error f =>
      obtain ⟨rfl, hbare⟩ := bareExp_of_subst_error h
      exact .inr ⟨rfl, hbare⟩
  | ok e' =>
      refine .inl ⟨e', rfl, fun s hs ↦ ?_, fun hs ↦ ?_, ?_⟩
      · rcases mentions_of_subst h hs with hs | ⟨-, hs⟩ | ⟨rfl, a, c, hopens, hs⟩
        · exact .inr hs
        · exact .inl hs
        · exact .inl (hopens.mentions hs)
      · rcases mentions_of_subst h hs with hs | ⟨hne, -⟩ | ⟨-, hlone⟩
        · exact absurd hs hvalue
        · exact absurd rfl hne
        · exact hlone
      · rintro a c rfl
        exact (Except.ok.inj h).symm

/-- An expression without parts mentions a name only if it is the symbol. -/
theorem Mentions.eq_sym {e : Expr} {s : String} (h : e.Mentions s) (hargs : e.args = []) :
    e = .sym s := by
  obtain ⟨p, hp⟩ := h
  cases hp with
  | here => rfl
  | child get _ =>
      rw [hargs] at get
      cases get

theorem Opens.eq_of_opened_eq_nil {e x : Expr} (h : e.Opens x) (hnil : e.opened = []) :
    x = e := by
  cases h with
  | here => rfl
  | inside mem _ =>
      rw [hnil] at mem
      cases mem

/-- A choice is gone through, values and conditions. -/
theorem subst_eliminates_choice :
    let e := piecewise [(.sym "x", .rel .lt (.sym "x") (.num 1))]
    ¬(sym "y").Mentions "x" ∧ ∃ e', subst "x" (.sym "y") e = .ok e' ∧ ¬e'.Mentions "x" := by
  intro e
  have hvalue : ¬(sym "y").Mentions "x" := fun h ↦ by simpa using h.eq_sym rfl
  have hlone (a c : Expr) : ¬e.Opens (.pair a c) := by
    intro hopens
    subst e
    rcases hopens with _ | ⟨hmem, hrest⟩
    simp only [opened, List.flatMap_cons, List.flatMap_nil, List.append_nil, List.mem_cons,
      List.not_mem_nil, or_false] at hmem
    rcases hmem with rfl | rfl
    · cases hrest.eq_of_opened_eq_nil rfl
    · rcases hrest with _ | ⟨hmem, hrest⟩
      rcases List.mem_pair.1 hmem with rfl | rfl
      · cases hrest.eq_of_opened_eq_nil rfl
      · cases hrest.eq_of_opened_eq_nil rfl
  have hok : ∃ e', subst "x" (.sym "y") e = .ok e' := ⟨_, rfl⟩
  rcases subst_eliminates hvalue e with ⟨e', he', -, hname, -⟩ | ⟨herror, -⟩
  · refine ⟨hvalue, e', he', fun h ↦ ?_⟩
    obtain ⟨a, c, hopens, -⟩ := hname h
    exact hlone a c hopens
  · obtain ⟨e', he'⟩ := hok
    rw [he'] at herror
    cases herror

/-- A branch of a choice, taken by itself, keeps the symbol. -/
theorem subst_keeps_lone_branch :
    let choice := piecewise [(.sym "x", .const .true)]
    let branch := pair (.sym "x") (.const .true)
    Constructed choice ∧ branch ∈ choice.args ∧ ¬(num 1).Mentions "x" ∧
      ∃ e', subst "x" (.num 1) branch = .ok e' ∧ e'.Mentions "x" := by
  intro choice branch
  refine ⟨.piecewise ?_ ?_, List.mem_cons_self, fun h ↦ ?_, branch, rfl, [0], .child rfl .here⟩
  · simp [Constructed.sym]
  · simp [Constructed.const]
  · cases h.eq_sym rfl

end ExprCompiler.Expr
