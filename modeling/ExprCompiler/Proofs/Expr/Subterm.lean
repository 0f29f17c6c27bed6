import ExprCompiler.Expr.Basic
import Mathlib.Logic.Function.Iterate

/-!
# Subterms

What stands in an expression, by the path of positions that leads there, and what the search for
symbols finds of it. Main statement: a symbol that does not stand too deep is found
(`Expr.At.mem_symbolsAt`).
-/

namespace ExprCompiler.Expr

/-- What stands in an expression at the end of a path of positions. -/
inductive At : Expr → List Nat → Expr → Prop
  | here {e : Expr} : At e [] e
  | child {e a x : Expr} {i : Nat} {p : List Nat} (get : e.args[i]? = some a) (rest : At a p x) :
      At e (i :: p) x

/-- A position inside a part extends to one inside the whole. -/
theorem At.exists_of_mem_args {e a x : Expr} {p : List Nat} (ha : a ∈ e.args) (h : a.At p x) :
    ∃ i, e.At (i :: p) x := by
  obtain ⟨i, hi⟩ := List.mem_iff_getElem?.1 ha
  exact ⟨i, .child hi h⟩

/-- Whether a property holds of all that stands in an expression. -/
def Everywhere (P : Expr → Prop) (e : Expr) : Prop := ∀ p x, e.At p x → P x

/-- A property holds everywhere if it holds of the expression and everywhere in its parts. -/
theorem everywhere_iff {P : Expr → Prop} {e : Expr} :
    e.Everywhere P ↔ P e ∧ ∀ a ∈ e.args, a.Everywhere P := by
  constructor
  · intro h
    refine ⟨h [] e .here, fun a ha p x hx ↦ ?_⟩
    obtain ⟨i, hi⟩ := hx.exists_of_mem_args ha
    exact h (i :: p) x hi
  · rintro ⟨he, hargs⟩ p x hx
    cases hx with
    | here => exact he
    | child get rest => exact hargs _ (List.mem_of_getElem? get) _ x rest

theorem Everywhere.of_mem_args {P : Expr → Prop} {e a : Expr} (h : e.Everywhere P)
    (ha : a ∈ e.args) : a.Everywhere P := (everywhere_iff.1 h).2 a ha

theorem everywhere_of_args_eq_nil {P : Expr → Prop} {e : Expr} (hargs : e.args = []) (h : P e) :
    e.Everywhere P := everywhere_iff.2 ⟨h, by simp [hargs]⟩

/-- The two parts of a branch stand where the branch does. -/
theorem Everywhere.of_mem_pieces {P : Expr → Prop} {ps : List (Expr × Expr)} {q : Expr × Expr}
    (h : (piecewise ps).Everywhere P) (hq : q ∈ ps) :
    q.1.Everywhere P ∧ q.2.Everywhere P := by
  have hpair : (pair q.1 q.2).Everywhere P := h.of_mem_args (List.mem_map.2 ⟨q, hq, rfl⟩)
  exact ⟨hpair.of_mem_args (by simp [args]), hpair.of_mem_args (by simp [args])⟩

/-! ## Symbols -/

/-- The symbols of a list are those of its expressions in turn. -/
theorem symbolsList_eq_flatMap (depth : Nat) (es : List Expr) :
    symbolsList depth es = es.flatMap (symbolsAt depth) := by
  induction es with
  | nil => rfl
  | cons e es ih => rw [symbolsList, ih, List.flatMap_cons]

theorem symbolsPieces_eq_flatMap (depth : Nat) (ps : List (Expr × Expr)) :
    symbolsPieces depth ps = ps.flatMap fun p ↦ symbolsAt depth p.1 ++ symbolsAt depth p.2 := by
  induction ps with
  | nil => rfl
  | cons p ps ih => rw [symbolsPieces, ih, List.flatMap_cons]

/-- The search for symbols ends below the limit. -/
theorem symbolsAt_eq_nil {depth : Nat} (h : maxDepth < depth) (e : Expr) :
    symbolsAt depth e = [] := by
  cases e <;> simp [symbolsAt, h, Nat.le_of_lt h]

/-- The search goes down one level for each sine. -/
theorem symbolsAt_sines (k depth : Nat) (e : Expr) :
    symbolsAt depth ((fun e ↦ .func "sin" [e])^[k] e) = symbolsAt (depth + k) e := by
  induction k generalizing depth with
  | zero => rfl
  | succ k ih =>
      rw [Function.iterate_succ_apply', symbolsAt, symbolsList_eq_flatMap]
      split
      · rw [symbolsAt_eq_nil (by omega)]
      · simp [ih, Nat.add_right_comm, Nat.add_assoc]

/-- The search finds in an expression what it finds in a child one level further down. -/
theorem symbolsAt_subset_of_mem_args {depth : Nat} {e a : Expr} (ha : a ∈ e.args) :
    symbolsAt (depth + 1) a ⊆ symbolsAt depth e := by
  by_cases hlt : depth < maxDepth
  · have hle : ¬maxDepth < depth := by omega
    cases e with
    | add es | mul es | func name es =>
        intro s hs
        simp only [symbolsAt, hle, if_false, symbolsList_eq_flatMap]
        exact List.mem_flatMap.2 ⟨a, ha, hs⟩
    | pow b x | rel op b x | pair b x =>
        intro s hs
        simp only [symbolsAt, hle, if_false, List.mem_append]
        simp only [args, List.mem_cons, List.not_mem_nil, or_false] at ha
        rcases ha with rfl | rfl
        · exact .inl hs
        · exact .inr hs
    | piecewise ps =>
        intro s hs
        obtain ⟨p, hp, rfl⟩ := List.mem_map.1 ha
        simp only [symbolsAt, show ¬maxDepth < depth + 1 by omega, if_false] at hs
        simp only [symbolsAt, show ¬maxDepth ≤ depth by omega, if_false, symbolsPieces_eq_flatMap]
        exact List.mem_flatMap.2 ⟨p, hp, hs⟩
    | _ => cases ha
  · rw [symbolsAt_eq_nil (by omega) a]
    exact List.nil_subset _

/-- A symbol that does not stand too deep is found. -/
theorem At.mem_symbolsAt {e x : Expr} {p : List Nat} {s : String} {depth : Nat} (h : e.At p x)
    (hx : x = .sym s) (hdepth : depth + p.length ≤ maxDepth) : s ∈ symbolsAt depth e := by
  induction h generalizing depth with
  | here =>
      subst hx
      rw [symbolsAt, if_neg (by simpa using hdepth)]
      exact List.mem_singleton_self s
  | child get _ ih =>
      refine symbolsAt_subset_of_mem_args (List.mem_of_getElem? get) (ih hx ?_)
      rw [List.length_cons] at hdepth
      omega

/-- What has the tag of a symbol is one, or an application or an atom that says so. -/
theorem eq_of_tag_eq_symbol {x : Expr} (h : x.tag = "Symbol") :
    (∃ s, x = .sym s) ∨ (∃ as, x = .func "Symbol" as) ∨ ∃ name, x = .atom "Symbol" name := by
  cases x with
  | num q =>
      rw [tag] at h
      split at h <;> simp at h
  | sym s => exact .inl ⟨s, rfl⟩
  | func name as =>
      cases h
      exact .inr (.inl ⟨as, rfl⟩)
  | atom tag name =>
      cases h
      exact .inr (.inr ⟨name, rfl⟩)
  | const c => cases c <;> simp [tag, Constant.tag] at h
  | rel op a b => cases op <;> simp [tag, Relation.tag] at h
  | _ => simp [tag] at h

end ExprCompiler.Expr
