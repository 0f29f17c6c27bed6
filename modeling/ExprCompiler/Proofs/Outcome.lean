import ExprCompiler.Traced
import Mathlib.Data.List.Forall2

/-!
# Outcomes

Steps that may fail are chained in `Except`. These lemmas open such a chain: what a chain that
succeeded went through, and what a failure on the way leaves of it. For chains that also leave
events, `Traced.Ensures` says what holds of every result, and `Traced.Avoids` which errors there
are not.
-/

namespace ExprCompiler.Outcome

variable {ε ε' α β : Type}

@[simp] theorem ok_bind (a : α) (f : α → Except ε β) : (Except.ok a >>= f) = f a := rfl

@[simp] theorem error_bind (e : ε) (f : α → Except ε β) :
    ((Except.error e : Except ε α) >>= f) = .error e := rfl

@[simp] theorem pure_eq_ok (a : α) : (pure a : Except ε α) = .ok a := rfl

@[simp] theorem throw_eq_error (e : ε) : (throw e : Except ε α) = .error e := rfl

/-- A chain that succeeded went through its first step. -/
theorem bind_eq_ok {x : Except ε α} {f : α → Except ε β} {b : β} :
    (x >>= f) = .ok b ↔ ∃ a, x = .ok a ∧ f a = .ok b := by
  cases x with
  | error e => simp
  | ok a => simp

/-- A chain that failed did so at its first step or after it. -/
theorem bind_eq_error {x : Except ε α} {f : α → Except ε β} {e : ε} :
    (x >>= f) = .error e ↔ x = .error e ∨ ∃ a, x = .ok a ∧ f a = .error e := by
  cases x with
  | error e => simp
  | ok a => simp

/-- Renaming errors leaves results alone. -/
theorem mapError_eq_ok {x : Except ε α} {f : ε → ε'} {a : α} :
    x.mapError f = .ok a ↔ x = .ok a := by
  cases x with
  | error e => simp [Except.mapError]
  | ok b => simp [Except.mapError]

/-- A step through a list that succeeded succeeded at every element. -/
theorem forall₂_of_mapM {f : α → Except ε β} {as : List α} {bs : List β}
    (h : as.mapM f = .ok bs) : List.Forall₂ (fun a b ↦ f a = .ok b) as bs := by
  induction as generalizing bs with
  | nil =>
      cases h
      exact .nil
  | cons a as ih =>
      rw [List.mapM_cons] at h
      obtain ⟨b, hb, h⟩ := bind_eq_ok.mp h
      obtain ⟨bs', hbs, h⟩ := bind_eq_ok.mp h
      cases h
      exact .cons hb (ih hbs)

theorem exists_of_mem_of_forall₂ {R : α → β → Prop} {as : List α} {bs : List β}
    (h : List.Forall₂ R as bs) {a : α} (ha : a ∈ as) : ∃ b ∈ bs, R a b := by
  induction h with
  | nil => cases ha
  | cons hb _ ih =>
      rcases List.mem_cons.1 ha with rfl | ha
      · exact ⟨_, List.mem_cons_self, hb⟩
      · obtain ⟨b, hmem, hb⟩ := ih ha
        exact ⟨b, List.mem_cons_of_mem _ hmem, hb⟩

/-- Lists that are related element by element are the two sides of a list of related pairs. -/
theorem exists_pairs_of_forall₂ {R : α → β → Prop} {as : List α} {bs : List β}
    (h : List.Forall₂ R as bs) :
    ∃ ps : List (α × β), ps.map Prod.fst = as ∧ ps.map Prod.snd = bs ∧ ∀ p ∈ ps, R p.1 p.2 :=
  ⟨as.zip bs, List.map_fst_zip (Nat.le_of_eq h.length_eq),
    List.map_snd_zip (Nat.le_of_eq h.length_eq.symm), fun _ hp ↦ List.forall₂_zip h hp⟩

/-- Every element of a list that is mapped without errors has a result. -/
theorem exists_of_mem_of_mapM {f : α → Except ε β} {as : List α} {bs : List β}
    (h : as.mapM f = .ok bs) {a : α} (ha : a ∈ as) : ∃ b ∈ bs, f a = .ok b :=
  exists_of_mem_of_forall₂ (forall₂_of_mapM h) ha

/-- A step through a list that failed failed at an element, and at none before it. -/
theorem exists_of_mapM_error {f : α → Except ε β} {as : List α} {e : ε}
    (h : as.mapM f = .error e) :
    ∃ (i : Nat) (a : α), as[i]? = some a ∧ f a = .error e ∧
      ∀ j b, j < i → as[j]? = some b → ∃ c, f b = .ok c := by
  induction as with
  | nil => cases h
  | cons a as ih =>
      rw [List.mapM_cons] at h
      cases ha : f a with
      | error e' =>
          rw [ha] at h
          cases h
          exact ⟨0, a, rfl, ha, fun j b hj ↦ absurd hj (Nat.not_lt_zero j)⟩
      | ok c =>
          rw [ha, ok_bind] at h
          cases has : as.mapM f with
          | ok cs =>
              rw [has] at h
              cases h
          | error e' =>
              rw [has] at h
              cases h
              obtain ⟨i, a', hi, ha', hbefore⟩ := ih has
              refine ⟨i + 1, a', hi, ha', fun j b hj hb ↦ ?_⟩
              cases j with
              | zero =>
                  cases hb
                  exact ⟨c, ha⟩
              | succ j => exact hbefore j b (Nat.lt_of_succ_lt_succ hj) hb

/-- A step through a list fails if and only if it fails at an element, as that one does, and at none
before it. -/
theorem mapM_eq_error_iff {f : α → Except ε β} {as : List α} {e : ε} :
    as.mapM f = .error e ↔ ∃ before a after, as = before ++ a :: after ∧ f a = .error e ∧
      ∀ b ∈ before, ∃ c, f b = .ok c := by
  constructor
  · intro h
    obtain ⟨i, a, hi, ha, hbefore⟩ := exists_of_mapM_error h
    obtain ⟨hlt, rfl⟩ := List.getElem?_eq_some_iff.1 hi
    refine ⟨as.take i, as[i], as.drop (i + 1), by simp, ha, fun b hb ↦ ?_⟩
    obtain ⟨j, hj⟩ := List.mem_iff_getElem?.1 hb
    have hji : j < i := by
      obtain ⟨hjlt, -⟩ := List.getElem?_eq_some_iff.1 hj
      exact Nat.lt_of_lt_of_le hjlt (List.length_take_le i as)
    rw [List.getElem?_take_of_lt hji] at hj
    exact hbefore j b hji hj
  · rintro ⟨before, a, after, rfl, ha, hbefore⟩
    induction before with
    | nil => rw [List.nil_append, List.mapM_cons, ha, error_bind]
    | cons b before ih =>
        obtain ⟨⟨c, hc⟩, hbefore⟩ := List.forall_mem_cons.1 hbefore
        rw [List.cons_append, List.mapM_cons, hc, ok_bind, ih hbefore, error_bind]

/-- A step that succeeds at every element of a list gives the list of its results. -/
theorem mapM_eq_ok {f : α → Except ε β} {g : α → β} {as : List α}
    (h : ∀ a ∈ as, f a = .ok (g a)) : as.mapM f = .ok (as.map g) := by
  induction as with
  | nil => rfl
  | cons a as ih =>
      obtain ⟨ha, has⟩ := List.forall_mem_cons.1 h
      rw [List.mapM_cons, ha, ih has]
      rfl

/-- A step goes through a list if and only if it succeeds at every element. -/
theorem exists_mapM_iff {f : α → Except ε β} {as : List α} :
    (∃ bs, as.mapM f = .ok bs) ↔ ∀ a ∈ as, ∃ b, f a = .ok b := by
  induction as with
  | nil => exact iff_of_true ⟨[], rfl⟩ (by simp)
  | cons a as ih =>
      rw [List.forall_mem_cons, ← ih, List.mapM_cons]
      constructor
      · rintro ⟨bs, h⟩
        obtain ⟨b, hb, h⟩ := bind_eq_ok.1 h
        obtain ⟨bs', hbs, -⟩ := bind_eq_ok.1 h
        exact ⟨⟨b, hb⟩, bs', hbs⟩
      · rintro ⟨⟨b, hb⟩, bs, hbs⟩
        exact ⟨b :: bs, by rw [hb, hbs]; rfl⟩

/-- A step that succeeds wherever another does goes through the lists that the other goes
through. -/
theorem mapM_mono {f g : α → Except ε β} {as : List α} {bs : List β}
    (hfg : ∀ a ∈ as, ∀ b, f a = .ok b → g a = .ok b) (h : as.mapM f = .ok bs) :
    as.mapM g = .ok bs := by
  induction as generalizing bs with
  | nil => exact h
  | cons a as ih =>
      rw [List.mapM_cons] at h ⊢
      obtain ⟨b, hb, h⟩ := bind_eq_ok.mp h
      obtain ⟨bs', hbs, h⟩ := bind_eq_ok.mp h
      cases h
      rw [hfg a List.mem_cons_self b hb, ih (fun a ha ↦ hfg a (List.mem_cons_of_mem _ ha)) hbs]
      rfl

end ExprCompiler.Outcome

namespace ExprCompiler.Traced

variable {ω ε α β : Type}

/-- A computation in two parts comes to a result if both do. -/
theorem outcome_bind_eq_ok {x : Traced ω ε α} {f : α → Traced ω ε β} {b : β} :
    (x >>= f).outcome = .ok b ↔ ∃ a, x.outcome = .ok a ∧ (f a).outcome = .ok b := by
  cases hx : x.outcome with
  | error e => simp [bind_of_error hx]
  | ok a => simp [bind_of_ok hx]

/-- A computation in two parts fails in the first or in the second. -/
theorem outcome_bind_eq_error {x : Traced ω ε α} {f : α → Traced ω ε β} {e : ε} :
    (x >>= f).outcome = .error e ↔
      x.outcome = .error e ∨ ∃ a, x.outcome = .ok a ∧ (f a).outcome = .error e := by
  cases hx : x.outcome with
  | error e => simp [bind_of_error hx]
  | ok a => simp [bind_of_ok hx]

/-- Mapping acts on the outcome. -/
theorem outcome_map (f : α → β) (x : Traced ω ε α) : (f <$> x).outcome = x.outcome.map f := by
  show (x >>= pure ∘ f).outcome = _
  cases hx : x.outcome with
  | error e => rw [bind_of_error hx]; rfl
  | ok a => rw [bind_of_ok hx]; rfl

/-- What holds of the result of a computation that comes to one. -/
def Ensures (P : α → Prop) (x : Traced ω ε α) : Prop := ∀ a, x.outcome = .ok a → P a

theorem ensures_pure {P : α → Prop} {a : α} (h : P a) :
    Ensures P (pure a : Traced ω ε α) := by
  intro b hb
  cases hb
  exact h

/-- A failure ensures anything. -/
theorem ensures_fail (P : α → Prop) (e : ε) : Ensures P (fail e : Traced ω ε α) := by
  intro b hb
  cases hb

/-- A computation ensures what its last part ensures for every result of the first. -/
theorem ensures_bind {P : β → Prop} {x : Traced ω ε α} {f : α → Traced ω ε β}
    (h : ∀ a, x.outcome = .ok a → Ensures P (f a)) : Ensures P (x >>= f) := by
  intro b hb
  obtain ⟨a, hx, hb⟩ := outcome_bind_eq_ok.1 hb
  exact h a hx b hb

/-- A computation without errors of a kind. -/
def Avoids {κ : Type} (bad : κ → ε) (x : Traced ω ε α) : Prop := ∀ k, x.outcome ≠ .error (bad k)

theorem avoids_pure {κ : Type} {bad : κ → ε} (a : α) : Avoids bad (pure a : Traced ω ε α) :=
  fun _ h ↦ nomatch h

theorem avoids_emit {κ : Type} {bad : κ → ε} (e : ω) : Avoids bad (emit e : Traced ω ε Unit) :=
  fun _ h ↦ nomatch h

/-- A computation avoids the errors that its parts avoid. -/
theorem avoids_bind {κ : Type} {bad : κ → ε} {x : Traced ω ε α} {f : α → Traced ω ε β}
    (hx : Avoids bad x) (hf : ∀ a, x.outcome = .ok a → Avoids bad (f a)) :
    Avoids bad (x >>= f) := by
  intro k hk
  rcases outcome_bind_eq_error.1 hk with hk | ⟨a, ha, hk⟩
  · exact hx k hk
  · exact hf a ha k hk

end ExprCompiler.Traced
