import ExprCompiler.Proofs.Lowering.Parameters

/-!
# Symbols of foreign trees

A foreign tree that is compiled without parameters takes its symbols for parameters, in the order
in which a search from left to right first comes by them; the search does not go below a symbol.
Lowering may leave out more, since it does not go below numbers and constants either. Main
statement: the parameters are the symbols in that order and cover the variables of the compiled
expression, so that a variable without a value is always the report of a registered callable
(`Options.listsSymbols_params`).
-/

namespace ExprCompiler

/-! ## The search for symbols -/

namespace Node

/-- Whether the search for symbols goes on among these children: it does unless the node is a
symbol. -/
def Searches (n : Node) (ns : List Node) : Prop :=
  ∃ tag error, n.tag = .ok tag ∧ tag ≠ symbolTag ∧ n.children = .ok (ns, error)

/-- The nodes that the search comes by, with the path of positions that leads to them. -/
inductive Reaches : Node → List Nat → Node → Prop
  | here {n : Node} : Reaches n [] n
  | child {n c m : Node} {ns : List Node} {i : Nat} {p : List Nat} (searches : n.Searches ns)
      (get : ns[i]? = some c) (rest : Reaches c p m) : Reaches n (i :: p) m

/-- A symbol of this name stands at the path. -/
def SymbolAt (n : Node) (p : List Nat) (name : String) : Prop :=
  ∃ m, n.Reaches p m ∧ m.tag = .ok symbolTag ∧ m.text = .ok name

/-- The first symbol of this name stands at the path. -/
def FirstAt (n : Node) (p : List Nat) (name : String) : Prop :=
  n.SymbolAt p name ∧ ∀ q, n.SymbolAt q name → p ≤ q

/-- Names that list the symbols of a tree in the order of their first occurrences. -/
def ListsSymbols (n : Node) (names : List String) : Prop :=
  (∃ ps : List (List Nat), ps.Pairwise (· < ·) ∧ List.Forall₂ n.FirstAt ps names) ∧
    ∀ p name, n.SymbolAt p name → name ∈ names

variable {n : Node} {ns : List Node} {p : List Nat} {name : String}

/-- The parts that a search goes into are determined by the node. -/
theorem Searches.unique {ns' : List Node} (h : n.Searches ns) (h' : n.Searches ns') : ns = ns' := by
  obtain ⟨_, _, -, -, hc⟩ := h
  obtain ⟨_, _, -, -, hc'⟩ := h'
  rw [hc] at hc'
  cases hc'
  rfl

/-- A symbol node has its own symbol only. -/
theorem symbolAt_of_symbol (htag : n.tag = .ok symbolTag) :
    n.SymbolAt p name ↔ p = [] ∧ n.text = .ok name := by
  constructor
  · rintro ⟨m, hreaches, -, htext⟩
    cases hreaches with
    | here => exact ⟨rfl, htext⟩
    | child searches _ _ =>
        obtain ⟨tag, _, htag', hne, -⟩ := searches
        exact absurd (Except.ok.inj (htag'.symm.trans htag)) hne
  · rintro ⟨rfl, htext⟩
    exact ⟨n, .here, htag, htext⟩

/-- Symbols below a node are those of the parts that are searched. -/
theorem symbolAt_of_searches (h : n.Searches ns) :
    n.SymbolAt p name ↔ ∃ i c q, p = i :: q ∧ ns[i]? = some c ∧ c.SymbolAt q name := by
  constructor
  · rintro ⟨m, hreaches, htag, htext⟩
    cases hreaches with
    | here =>
        obtain ⟨tag, _, htag', hne, -⟩ := h
        exact absurd (Except.ok.inj (htag'.symm.trans htag)) hne
    | child searches get rest =>
        cases h.unique searches
        exact ⟨_, _, _, rfl, get, m, rest, htag, htext⟩
  · rintro ⟨i, c, q, rfl, hget, m, hreaches, hm⟩
    exact ⟨m, .child h hget hreaches, hm⟩

/-- What a search that succeeded went through. -/
theorem symbolsWithin_eq_ok {left : Nat} {names : List String}
    (h : symbolsWithin left n = .ok names) :
    ∃ left', left = left' + 1 ∧
      ((n.tag = .ok symbolTag ∧ ∃ name, n.text = .ok name ∧ names = [name]) ∨
        ∃ tag ns lists, n.tag = .ok tag ∧ tag ≠ symbolTag ∧ n.children = .ok (ns, none) ∧
          ns.mapM (symbolsWithin left') = .ok lists ∧ names = lists.flatten) := by
  cases left with
  | zero =>
      obtain ⟨tag, -, h⟩ := Outcome.bind_eq_ok.1 h
      cases h
  | succ left =>
      refine ⟨left, rfl, ?_⟩
      obtain ⟨tag, htag, h⟩ := Outcome.bind_eq_ok.1 h
      by_cases hsymbol : tag = symbolTag
      · subst hsymbol
        simp only [beq_self_eq_true, if_true] at h
        obtain ⟨name, hname, h⟩ := Outcome.bind_eq_ok.1 h
        cases h
        exact .inl ⟨htag, name, hname, rfl⟩
      · simp only [beq_iff_eq, hsymbol, if_false] at h
        obtain ⟨⟨ns, error⟩, hc, h⟩ := Outcome.bind_eq_ok.1 h
        cases error with
        | some text => cases h
        | none =>
            obtain ⟨lists, hlists, h⟩ := Outcome.bind_eq_ok.1 h
            cases h
            exact .inr ⟨tag, ns, lists, htag, hsymbol, hc, hlists, rfl⟩

/-! ## Occurrences -/

/-- A list of all that occurs somewhere, in the order of the paths. -/
structure Occurrences (At : List Nat → String → Prop) (occ : List (List Nat × String)) : Prop where
  ascending : occ.Pairwise fun a b ↦ a.1 < b.1
  mem_iff : ∀ p name, (p, name) ∈ occ ↔ At p name

/-- What occurs in neighbours occurs in the order of their positions. -/
theorem exists_occurrences_of_forall₂ {lists : List (List String)}
    (h : List.Forall₂
      (fun c names ↦ ∃ occ, Occurrences c.SymbolAt occ ∧ occ.map Prod.snd = names) ns lists)
    (k : Nat) :
    ∃ occ, Occurrences
        (fun p name ↦ ∃ i c q, p = (k + i) :: q ∧ ns[i]? = some c ∧ c.SymbolAt q name) occ ∧
      occ.map Prod.snd = lists.flatten := by
  induction h generalizing k with
  | nil => exact ⟨[], ⟨.nil, by simp⟩, rfl⟩
  | @cons c names ns lists hc _ ih =>
      -- The first neighbour stands at `k`, so the others are counted from the next position on.
      obtain ⟨occ, hocc, rfl⟩ := hc
      obtain ⟨occs, hoccs, hnames⟩ := ih (k + 1)
      refine ⟨occ.map (fun o ↦ (k :: o.1, o.2)) ++ occs, ⟨?_, ?_⟩, ?_⟩
      · refine List.pairwise_append.2 ⟨?_, hoccs.ascending, ?_⟩
        · refine List.pairwise_map.2 (hocc.ascending.imp fun hlt ↦ ?_)
          exact List.cons_lt_cons_iff.2 (.inr ⟨rfl, hlt⟩)
        · rintro a ha ⟨p, name⟩ hb
          obtain ⟨o, -, rfl⟩ := List.mem_map.1 ha
          obtain ⟨i, _, q, rfl, -, -⟩ := (hoccs.mem_iff p name).1 hb
          exact List.cons_lt_cons_iff.2 (.inl (by omega))
      · intro p name
        rw [List.mem_append, hoccs.mem_iff]
        constructor
        · rintro (h | ⟨i, d, q, rfl, hget, hq⟩)
          · obtain ⟨⟨q, s⟩, ho, heq⟩ := List.mem_map.1 h
            cases heq
            exact ⟨0, c, q, rfl, rfl, (hocc.mem_iff q s).1 ho⟩
          · exact ⟨i + 1, d, q, by rw [Nat.add_assoc, Nat.add_comm 1], hget, hq⟩
        · rintro ⟨i, d, q, rfl, hget, hq⟩
          cases i with
          | zero =>
              cases hget
              exact .inl (List.mem_map.2 ⟨(q, name), (hocc.mem_iff q name).2 hq, rfl⟩)
          | succ i =>
              exact .inr ⟨i, d, q, by rw [Nat.add_assoc, Nat.add_comm 1], hget, hq⟩
      · simp [hnames, List.map_map, Function.comp_def]

/-- The search lists the names of all symbols in the order of their paths. -/
theorem exists_occurrences {left : Nat} {names : List String}
    (h : symbolsWithin left n = .ok names) :
    ∃ occ, Occurrences n.SymbolAt occ ∧ occ.map Prod.snd = names := by
  induction left generalizing n names with
  | zero =>
      obtain ⟨_, h, -⟩ := symbolsWithin_eq_ok h
      cases h
  | succ left ih =>
      obtain ⟨left', hleft, h⟩ := symbolsWithin_eq_ok h
      cases hleft
      rcases h with ⟨htag, name, htext, rfl⟩ | ⟨tag, ns, lists, htag, hne, hc, hlists, rfl⟩
      · refine ⟨[([], name)], ⟨List.pairwise_singleton _ _, fun p s ↦ ?_⟩, rfl⟩
        rw [symbolAt_of_symbol htag, htext, List.mem_singleton, Prod.mk.injEq, Except.ok.injEq,
          eq_comm (a := s)]
      · have hall := (Outcome.forall₂_of_mapM hlists).imp fun _ _ ↦ ih
        obtain ⟨occ, hocc, hnames⟩ := exists_occurrences_of_forall₂ hall 0
        refine ⟨occ, ⟨hocc.ascending, fun p s ↦ ?_⟩, hnames⟩
        rw [hocc.mem_iff, symbolAt_of_searches ⟨tag, none, htag, hne, hc⟩]
        simp

end Node

/-! ## First occurrences -/

/-- A name is appended if it is new. -/
theorem Target.firstOccurrences_append (names : List String) (name : String) :
    firstOccurrences (names ++ [name]) =
      if name ∈ firstOccurrences names then firstOccurrences names
      else firstOccurrences names ++ [name] := by
  simp only [firstOccurrences, List.foldl_append, List.foldl_cons, List.foldl_nil,
    List.contains_iff_mem, List.mem_reverse]
  split
  · rfl
  · rw [List.reverse_cons]

namespace Node

variable {n : Node} {ns : List Node}

/-- The names that a pass through all occurrences keeps are those of first occurrences, in order.
The induction is on the last occurrence, which is the latest one. -/
theorem exists_first_of_ascending {occ : List (List Nat × String)}
    (h : occ.Pairwise fun a b ↦ a.1 < b.1) :
    ∃ kept : List (List Nat × String), kept.Sublist occ ∧
      kept.map Prod.snd = Target.firstOccurrences (occ.map Prod.snd) ∧
      ∀ o ∈ kept, ∀ q, (q, o.2) ∈ occ → o.1 ≤ q := by
  induction occ using List.reverseRecOn with
  | nil => exact ⟨[], .slnil, rfl, by simp⟩
  | append_singleton occ last ih =>
      obtain ⟨hocc, -, hlast⟩ := List.pairwise_append.1 h
      obtain ⟨kept, hsub, hnames, hfirst⟩ := ih hocc
      have hfirst' : ∀ o ∈ kept, ∀ q, (q, o.2) ∈ occ ++ [last] → o.1 ≤ q := by
        intro o ho q hq
        rcases List.mem_append.1 hq with hq | hq
        · exact hfirst o ho q hq
        · exact le_of_lt (hlast o (hsub.subset ho) _ hq)
      rw [List.map_append, List.map_cons, List.map_nil, Target.firstOccurrences_append]
      split
      · exact ⟨kept, hsub.trans (List.sublist_append_left _ _), hnames, hfirst'⟩
      · rename_i hnew
        refine ⟨kept ++ [last], hsub.append (List.Sublist.refl _), by simp [hnames], ?_⟩
        intro o ho q hq
        rcases List.mem_append.1 ho with ho | ho
        · exact hfirst' o ho q hq
        · obtain rfl := List.mem_singleton.1 ho
          rcases List.mem_append.1 hq with hq | hq
          · exact absurd (Target.mem_firstOccurrences.2 (List.mem_map.2 ⟨_, hq, rfl⟩)) hnew
          · exact le_of_eq (congrArg Prod.fst (List.mem_singleton.1 hq)).symm

/-- The distinct names that a search finds list the symbols of the tree. -/
theorem listsSymbols_of_symbolsWithin {left : Nat} {names : List String}
    (h : symbolsWithin left n = .ok names) : n.ListsSymbols (Target.firstOccurrences names) := by
  obtain ⟨occ, hocc, rfl⟩ := exists_occurrences h
  obtain ⟨kept, hsub, hnames, hfirst⟩ := exists_first_of_ascending hocc.ascending
  constructor
  · refine ⟨kept.map Prod.fst, List.pairwise_map.2 (hocc.ascending.sublist hsub), ?_⟩
    rw [← hnames, List.forall₂_map_left_iff, List.forall₂_map_right_iff, List.forall₂_same]
    rintro ⟨p, name⟩ ho
    refine ⟨(hocc.mem_iff p name).1 (hsub.subset ho), fun q hq ↦ ?_⟩
    exact hfirst (p, name) ho q ((hocc.mem_iff q name).2 hq)
  · intro p name hp
    rw [Target.mem_firstOccurrences, List.mem_map]
    exact ⟨(p, name), (hocc.mem_iff p name).2 hp, rfl⟩

end Node

/-! ## Symbols and variables -/

namespace Lowering

open ExprCompiler.Node (symbolsWithin symbolsWithin_eq_ok symbolTag)

variable {r : Rules} {n : Node} {ns : List Node}

/-- Whether no node that settles what it stands for has children. -/
def Rules.Barren (r : Rules) (n : Node) : Prop :=
  ∀ p m tag ns error, n.Reaches p m → m.tag = .ok tag → ¬r.Applies tag →
    m.children = .ok (ns, error) → ns = []

theorem Rules.Barren.of_mem {c : Node} (h : r.Barren n) (hn : n.Searches ns) (hc : c ∈ ns) :
    r.Barren c := by
  obtain ⟨i, hi⟩ := List.mem_iff_getElem?.1 hc
  intro p m tag ms error hreaches
  exact h (i :: p) m tag ms error (.child hn hi hreaches)

theorem exists_text {tag : String} (h : n.tag = .ok tag) : ∃ text, n.text = .ok text := by
  cases n with
  | absent => cases h
  | symbolic e =>
      cases e with
      | none => cases h
      | some e => exact ⟨_, rfl⟩
  | _ => exact ⟨_, rfl⟩

/-- The variables of a node that settles what it stands for. -/
theorem vars_of_not_applies {tag : String} {left : Nat} {t : Target} (htag : n.tag = .ok tag)
    (happ : ¬r.Applies tag) (ht : lowerWithin r (left + 1) n = .ok t) :
    (tag ≠ symbolTag → t.vars = []) ∧ ∀ name, tag = symbolTag → n.text = .ok name →
      t.vars = [name] := by
  rcases lowerWithin_settles_or_fails (r := r) htag (fun h ↦ happ (Rules.applies_iff.2 h))
    (exists_text htag) left with ⟨t', ht', hsettles⟩ | ⟨e, he, -⟩
  · cases ht'.symm.trans ht
    constructor
    · intro hne
      refine List.eq_nil_iff_forall_not_mem.2 fun v hv ↦ hne ?_
      exact Except.ok.inj (htag.symm.trans (hsettles.vars_subset hv).1)
    · rintro name rfl htext
      cases hsettles with
      | symbol _ htext' => rw [Target.vars, Except.ok.inj (htext'.symm.trans htext)]
      | constant htag' noLeaf _ =>
          cases htag'.symm.trans htag
          exact absurd (by decide) noLeaf
      | _ htag' => exact absurd (Except.ok.inj (htag'.symm.trans htag)) (by decide)
  · cases he.symm.trans ht

theorem varsAll_sublist {ts : List Target} {lists : List (List String)}
    (h : List.Forall₂ (fun t names ↦ t.vars.Sublist names) ts lists) :
    (Target.varsAll ts).Sublist lists.flatten := by
  induction h with
  | nil => exact .slnil
  | cons head _ ih => exact head.append ih

theorem varsAll_eq_flatten {ts : List Target} {lists : List (List String)}
    (h : List.Forall₂ (fun t names ↦ t.vars = names) ts lists) :
    Target.varsAll ts = lists.flatten := by
  induction h with
  | nil => rfl
  | cons head _ ih => rw [Target.varsAll, List.flatten_cons, head, ih]

/-- Two lists that are related to a third element by element are related to each other. -/
theorem forall₂_of_common {α β γ : Type} {R : α → β → Prop} {S : α → γ → Prop} {T : β → γ → Prop}
    {as : List α} {bs : List β} {cs : List γ} (hbs : List.Forall₂ R as bs)
    (hcs : List.Forall₂ S as cs) (h : ∀ a ∈ as, ∀ b c, R a b → S a c → T b c) :
    List.Forall₂ T bs cs := by
  induction hbs generalizing cs with
  | nil =>
      cases hcs
      exact .nil
  | cons hab _ ih =>
      cases hcs with
      | cons hac hcs =>
          refine .cons (h _ List.mem_cons_self _ _ hab hac) (ih hcs fun a ha ↦ ?_)
          exact h a (List.mem_cons_of_mem _ ha)

/-- The variables of a lowered tree are among its symbols, in order, and are all of them if
nothing stands below a node that settles what it stands for. -/
theorem vars_sublist_symbols {left : Nat} {t : Target} {names : List String}
    (ht : lowerWithin r left n = .ok t) (hs : symbolsWithin left n = .ok names) :
    t.vars.Sublist names ∧ (r.Barren n → t.vars = names) := by
  induction left generalizing n t names with
  | zero =>
      obtain ⟨_, h, -⟩ := symbolsWithin_eq_ok hs
      cases h
  | succ left ih =>
      obtain ⟨left', hleft, h⟩ := symbolsWithin_eq_ok hs
      cases hleft
      rcases h with ⟨htag, name, htext, rfl⟩ | ⟨tag, ns, lists, htag, hne, hc, hlists, rfl⟩
      · have happ : ¬r.Applies symbolTag := fun h ↦ h.1 (by decide)
        have hvars := (vars_of_not_applies htag happ ht).2 name rfl htext
        exact ⟨hvars ▸ .refl _, fun _ ↦ hvars⟩
      · by_cases happ : r.Applies tag
        · obtain ⟨_, ts, hc', -, hts, rfl⟩ :=
            (lowerWithin_application htag (Rules.applies_iff.1 happ)).1 ht
          cases hc.symm.trans hc'
          have hts := Outcome.forall₂_of_mapM hts
          have hlists := Outcome.forall₂_of_mapM hlists
          constructor
          · exact varsAll_sublist (forall₂_of_common hts hlists fun _ _ _ _ ht hs ↦ (ih ht hs).1)
          · intro hbarren
            refine varsAll_eq_flatten (forall₂_of_common hts hlists fun c hmem _ _ ht hs ↦ ?_)
            exact (ih ht hs).2 (hbarren.of_mem ⟨tag, none, htag, hne, hc⟩ hmem)
        · -- Lowering stops here, and the search went on below.
          have hvars := (vars_of_not_applies htag happ ht).1 hne
          rw [hvars]
          refine ⟨List.nil_sublist _, fun hbarren ↦ ?_⟩
          obtain rfl := hbarren [] n tag ns none .here htag happ hc
          cases hlists
          rfl

end Lowering

/-! ## Variables without a value -/

namespace Target

mutual

/-- The applications in an expression, each before those in its arguments. -/
def calls : Target → List (String × List Target)
  | .call callable args => (callable, args) :: callsAll args
  | _ => []

def callsAll : List Target → List (String × List Target)
  | [] => []
  | t :: ts => calls t ++ callsAll ts

end

/-- Whether a name is reported to have no value: by one of the variables, which is bound to
nothing, or by a callable of the registry that one of the applications called. -/
inductive Reported (r : Registry) (ρ : Table Value) (vars : List String)
    (calls : List (String × List Target)) (name : String) : Prop
  | unbound (mem : name ∈ vars) (lacking : ρ.get? name = none) : Reported r ρ vars calls name
  | called {callable : String} {args : List Target} {vs : List Value} {g : Callable}
      (mem : (callable, args) ∈ calls) (hargs : values r ρ args = .ok vs)
      (registered : r.find? callable = some g) (report : g vs = .error (.unbound name)) :
      Reported r ρ vars calls name

variable {r : Registry} {ρ : Table Value} {name : String}

/-- More variables and more calls report at least as much. -/
theorem Reported.mono {vars vars' : List String} {calls calls' : List (String × List Target)}
    (h : Reported r ρ vars calls name) (hvars : vars ⊆ vars') (hcalls : calls ⊆ calls') :
    Reported r ρ vars' calls' name := by
  cases h with
  | unbound mem lacking => exact .unbound (hvars mem) lacking
  | called mem hargs registered report => exact .called (hcalls mem) hargs registered report

/-- An unbound name comes out of a call only from the callable itself. -/
theorem apply_eq_unbound {callable : String} {g : Callable} {vs : List Value}
    (h : Callable.apply callable g vs = .error (.unbound name)) :
    g vs = .error (.unbound name) := by
  rcases Outcome.bind_eq_error.1 h with h | ⟨v, -, h⟩
  · exact h
  · split at h <;> cases h

mutual

/-- A name that evaluation finds without a value is reported by a variable or by a callable. -/
theorem reported_of_value : (t : Target) → value r ρ t = .error (.unbound name) →
    Reported r ρ t.vars t.calls name
  | .var s, h => by
      rw [value, Value.lookup] at h
      split at h
      · cases h
      · cases h
        exact .unbound List.mem_cons_self ‹_›
  | .call callable args, h => by
      rw [value] at h
      split at h
      · exact (reported_of_firstBranch args h).mono (List.Subset.refl _)
          (List.subset_cons_of_subset _ (List.Subset.refl _))
      · split at h
        · cases h
        · rename_i g hg
          rcases Outcome.bind_eq_error.1 h with h | ⟨vs, hvs, h⟩
          · exact (reported_of_values args h).mono (List.Subset.refl _)
              (List.subset_cons_of_subset _ (List.Subset.refl _))
          · exact .called List.mem_cons_self hvs hg (apply_eq_unbound h)
  | .lit _, h | .foreign _ _, h | .absent, h => by cases h

/-- An unbound name among values is reported by one of the targets. -/
theorem reported_of_values : (ts : List Target) → values r ρ ts = .error (.unbound name) →
    Reported r ρ (varsAll ts) (callsAll ts) name
  | [], h => by cases h
  | t :: ts, h => by
      rcases Outcome.bind_eq_error.1 h with h | ⟨v, -, h⟩
      · exact (reported_of_value t h).mono (List.subset_append_left _ _)
          (List.subset_append_left _ _)
      · rcases Outcome.bind_eq_error.1 h with h | ⟨vs, -, h⟩
        · exact (reported_of_values ts h).mono (List.subset_append_right _ _)
            (List.subset_append_right _ _)
        · cases h

theorem reported_of_firstBranch : (ts : List Target) →
    firstBranch r ρ ts = .error (.unbound name) → Reported r ρ (varsAll ts) (callsAll ts) name
  | [], h => by cases h
  | .call callable [v, c] :: ts, h => by
      rw [firstBranch] at h
      split at h
      · rcases Outcome.bind_eq_error.1 h with h | ⟨w, -, h⟩
        · refine (reported_of_value c h).mono ?_ ?_
          · intro s hs
            simp [varsAll, vars, hs]
          · intro a ha
            simp [callsAll, calls, ha]
        · split at h
          · refine (reported_of_value v h).mono ?_ ?_
            · intro s hs
              simp [varsAll, vars, hs]
            · intro a ha
              simp [callsAll, calls, ha]
          · exact (reported_of_firstBranch ts h).mono (List.subset_append_right _ _)
              (List.subset_append_right _ _)
      · cases h
  | .var _ :: _, h | .lit _ :: _, h | .foreign _ _ :: _, h | .absent :: _, h
  | .call _ [] :: _, h | .call _ [_] :: _, h | .call _ (_ :: _ :: _ :: _) :: _, h => by cases h

end

end Target

/-! ## Parameters -/

/-- A foreign tree that is compiled without parameters takes its symbols for parameters, each once
and in the order of their first occurrences. They cover the variables of the compiled expression,
and are these in the same order if no number and no constant has children. Evaluation for as many
valid arguments reports a variable without a value only if a registered callable did so for the
values of its arguments. -/
theorem Options.listsSymbols_params (o : Options) (ho : o.params = none) (label : Label)
    (ns : List Node) (f : Function) (h : o.compile (.foreign label ns) = .ok f) :
    f.params.Nodup ∧ (Node.foreign label ns).ListsSymbols f.params ∧
      (∀ name ∈ f.expr.freeVars, name ∈ f.params) ∧
      (o.rules.Barren (.foreign label ns) → f.params = f.expr.freeVars) ∧
      (o.backend = Interpreter.backend → ∀ args : List Value, args.length = f.params.length →
        (∀ v ∈ args, v.isValid = true) → ∀ name, f.eval args = .error (.unbound name) →
          ∃ callable ts vs g, (callable, ts) ∈ f.expr.calls ∧
            Target.values o.registry (f.params.zip args) ts = .ok vs ∧
            o.registry.find? callable = some g ∧ g vs = .error (.unbound name)) := by
  obtain ⟨params, t, hparams, ht, hf⟩ := compile_eq_ok h
  obtain ⟨-, hnodup, -⟩ := Function.compile_eq_ok_iff.1 hf
  obtain ⟨rfl, rfl⟩ := Function.compile_eq_ok hf
  rw [ho] at hparams
  obtain ⟨names, hnames, hfirst⟩ := Outcome.bind_eq_ok.1 hparams
  have hparams : f.params = Target.firstOccurrences names := (Except.ok.inj hfirst).symm
  obtain ⟨hsublist, hall⟩ := Lowering.vars_sublist_symbols ht hnames
  have hcovered : ∀ name ∈ f.expr.freeVars, name ∈ f.params := by
    intro name hname
    rw [hparams, Target.mem_firstOccurrences]
    exact hsublist.subset (Target.mem_firstOccurrences.1 hname)
  refine ⟨hnodup, hparams ▸ Node.listsSymbols_of_symbolsWithin hnames, hcovered, ?_, ?_⟩
  · intro hbarren
    rw [hparams, Target.freeVars, hall hbarren]
  · intro hbackend args hlen hvalid name herror
    rw [compileTarget, hbackend] at hf
    rw [(Function.eval_of_compile hf).2 args hlen hvalid] at herror
    cases Target.reported_of_value _ herror with
    | unbound mem lacking =>
        have hparam := hcovered name (Target.mem_firstOccurrences.2 mem)
        obtain ⟨a, ha⟩ := Table.exists_get?_zip hlen hparam
        cases lacking.symm.trans ha
    | called mem hargs registered report => exact ⟨_, _, _, _, mem, hargs, registered, report⟩

/-- A symbol below a number is a parameter but no variable, one below a symbol is neither. -/
theorem Options.listsSymbols_params_sum :
    let leaf (tag text : String) (ns : List Node) : Node := .foreign { tag, text } ns
    let ns : List Node :=
      [leaf "Symbol" "y" [leaf "Symbol" "q" []], leaf "Pi" "pi" [leaf "Symbol" "z" []],
        leaf "probe" "probe" [leaf "Symbol" "x" [], leaf "Symbol" "y" []]]
    let o : Options := Options.withRegistry {} [("probe", some fun _ ↦ .error (.unbound "w"))]
    ∃ f, o.compile (.foreign { tag := "Add", text := "sum" } ns) = .ok f ∧
      f.params = ["y", "z", "x"] ∧ f.expr.freeVars = ["y", "x"] ∧
      (Node.foreign { tag := "Add", text := "sum" } ns).ListsSymbols ["y", "z", "x"] ∧
      f.eval [.int 1, .int 2, .int 3] = .error (.unbound "w") ∧
      ∃ callable ts vs g, (callable, ts) ∈ f.expr.calls ∧
        Target.values o.registry (f.params.zip [.int 1, .int 2, .int 3]) ts = .ok vs ∧
        o.registry.find? callable = some g ∧ g vs = .error (.unbound "w") := by
  intro leaf ns o
  have hcompile : ∃ f, o.compile (.foreign { tag := "Add", text := "sum" } ns) = .ok f ∧
      f.params = ["y", "z", "x"] ∧ f.expr.freeVars = ["y", "x"] ∧
      f.eval [.int 1, .int 2, .int 3] = .error (.unbound "w") := ⟨_, rfl, rfl, rfl, rfl⟩
  obtain ⟨f, hf, hparams, hvars, heval⟩ := hcompile
  obtain ⟨-, hlists, -, -, hreport⟩ := listsSymbols_params o rfl _ ns f hf
  have hvalid : ∀ v ∈ [Value.int 1, .int 2, .int 3], v.isValid = true := by
    simp [Value.int, Value.isValid]
  refine ⟨f, hf, hparams, hvars, hparams ▸ hlists, heval, ?_⟩
  exact hreport rfl _ (by rw [hparams]; rfl) hvalid "w" heval

end ExprCompiler
