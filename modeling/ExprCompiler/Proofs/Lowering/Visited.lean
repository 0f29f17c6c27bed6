import ExprCompiler.Proofs.Semantics.Node
import Mathlib.Data.List.Lex

/-!
# What lowering visits

Lowering enters the children of a node only if the tag of the node settles nothing. The nodes that
it comes by are told apart by their paths, and the order of the paths is the order of the visits.
Main statement: a tree is lowered if and only if every visited node is acceptable and none stands
too deep; the outcome is then the image of what was visited and stays the same under every larger
limit, and otherwise it is the failure of the first visited node that offends. That is an error with
the tag of the node, unless the node is an integer that answers with nothing: then it is a fault
(`Lowering.lower_eq_ok_iff_visited`).
-/

namespace ExprCompiler

/-! ## Trees whose accessors answer -/

namespace Node

/-- A finite tree in which nothing is absent and no accessor gives up. -/
inductive Grounded : Node → Prop
  | intro {n : Node} {tag text : String} {ns : List Node} {error : Option String}
      (hasTag : n.tag = .ok tag) (hasText : n.text = .ok text)
      (hasChildren : n.children = .ok (ns, error)) (all : ∀ c ∈ ns, Grounded c) : Grounded n

theorem weight_le_weights {n : Node} {ns : List Node} (h : n ∈ ns) : weight n ≤ weights ns := by
  induction ns with
  | nil => cases h
  | cons m ms ih =>
      rw [weights]
      rcases List.mem_cons.1 h with rfl | h
      · omega
      · have := ih h
        omega

/-- Every symbolic expression is such a tree. -/
theorem grounded_symbolic (e : Expr) : Grounded (.symbolic (some e)) := by
  suffices h : ∀ k e, weight (.symbolic (some e)) < k → Grounded (.symbolic (some e)) from
    h _ e (Nat.lt_succ_self _)
  intro k
  induction k with
  | zero => intro e h; omega
  | succ k ih =>
      intro e h
      refine .intro rfl rfl rfl fun c hc ↦ ?_
      have hlt := weights_parts_lt (.symbolic (some e))
      have hle : weight c ≤ weights (parts (.symbolic (some e))) := weight_le_weights hc
      obtain ⟨a, -, rfl⟩ := List.mem_map.1 hc
      exact ih a (by omega)

theorem grounded_foreign {label : Label} {ns : List Node} (hup : label.givesUp = none)
    (h : ∀ c ∈ ns, Grounded c) : Grounded (.foreign label ns) :=
  .intro rfl rfl (by rw [children, hup]) h

end Node

namespace Lowering

variable {r : Rules} {n : Node}

/-! ## Acceptable nodes -/

/-- The tags with a meaning of their own. -/
def leafTags : List String := ["Symbol", "Integer", "Float", "Rational"]

/-- Whether a tag makes its node an application, by saying nothing itself. -/
def Rules.Applies (r : Rules) (tag : String) : Prop :=
  tag ∉ leafTags ∧ r.constants.get? tag = none

/-- What a node stands for if its tag settles that, whatever its children. -/
inductive Rules.Settles (r : Rules) (n : Node) : Target → Prop
  | symbol {name : String} (tag : n.tag = .ok "Symbol") (text : n.text = .ok name) :
      Settles r n (.var name)
  | integer {i : Int} (tag : n.tag = .ok "Integer") (payload : n.integer = .value (some i)) :
      Settles r n (.lit (.int i))
  | integerAsFloat {x : Float} (tag : n.tag = .ok "Integer") (lacking : n.integer = .lacking)
      (payload : n.float = .value x) : Settles r n (.lit (.float x))
  | float {x : Float} (tag : n.tag = .ok "Float") (payload : n.float = .value x) :
      Settles r n (.lit (.float x))
  | rational {p q : Int} (tag : n.tag = .ok "Rational")
      (payload : n.ratio = .value (some p, some q)) (wordNum : Numeral.isWord p = true)
      (wordDen : Numeral.isWord q = true) (ne : q ≠ 0) :
      Settles r n (.lit (.rational (p / q)))
  | constant {tag : String} {v : Value} (hasTag : n.tag = .ok tag) (noLeaf : tag ∉ leafTags)
      (entry : r.constants.get? tag = some v) : Settles r n (.lit v)

/-- A node that lowering can do something with: its tag settles what it stands for, or it is an
application with children that can be read. -/
inductive Rules.Acceptable (r : Rules) (n : Node) : Prop
  | settled {t : Target} (settles : r.Settles n t) : Acceptable r n
  | application {tag : String} {ns : List Node} (hasTag : n.tag = .ok tag)
      (applies : r.Applies tag) (hasChildren : n.children = .ok (ns, none)) (ne : ns ≠ []) :
      Acceptable r n

/-- What is wrong with a node that lowering can do nothing with. -/
inductive Rules.Flaw (r : Rules) (n : Node) : Unlowered → Prop
  | badInteger {text : String} (tag : n.tag = .ok "Integer") (payload : n.integer = .error text) :
      Flaw r n (.badInteger text)
  | badIntegerAsFloat {text : String} (tag : n.tag = .ok "Integer")
      (lacking : n.integer = .lacking) (payload : n.float = .error text) :
      Flaw r n (.badInteger text)
  | noInteger (tag : n.tag = .ok "Integer") (lacking : n.integer = .lacking)
      (lackingFloat : n.float = .lacking) : Flaw r n .noInteger
  | badFloat {text : String} (tag : n.tag = .ok "Float") (payload : n.float = .error text) :
      Flaw r n (.badFloat text)
  | noFloat (tag : n.tag = .ok "Float") (lacking : n.float = .lacking) : Flaw r n .noFloat
  | badRational {text : String} (tag : n.tag = .ok "Rational") (payload : n.ratio = .error text) :
      Flaw r n (.badRational text)
  | noRational (tag : n.tag = .ok "Rational") (lacking : n.ratio = .lacking) :
      Flaw r n .noRational
  | notNative {p q : Option Int} (tag : n.tag = .ok "Rational") (payload : n.ratio = .value (p, q))
      (none : ¬(p.any Numeral.isWord = true ∧ q.any Numeral.isWord = true)) : Flaw r n .notNative
  | zeroDenominator {p : Int} (tag : n.tag = .ok "Rational")
      (payload : n.ratio = .value (some p, some 0)) (word : Numeral.isWord p = true) :
      Flaw r n .zeroDenominator
  | badChildren {tag text : String} {ns : List Node} (hasTag : n.tag = .ok tag)
      (applies : r.Applies tag) (hasChildren : n.children = .ok (ns, some text)) :
      Flaw r n (.badChildren text)
  | noLeafRule {tag : String} (hasTag : n.tag = .ok tag) (applies : r.Applies tag)
      (hasChildren : n.children = .ok ([], none)) : Flaw r n .noLeafRule

/-- What comes of a node that lowering can do nothing with: an error about what is wrong with it, or
a fault if it is an integer and answers with nothing. -/
inductive Rules.Fails (r : Rules) (n : Node) : Failure → Prop
  | flaw {tag : String} {why : Unlowered} (hasTag : n.tag = .ok tag) (flaw : r.Flaw n why) :
      Fails r n (.lowering tag why)
  | absentInteger (tag : n.tag = .ok "Integer") (payload : n.integer = .value none) :
      Fails r n (.fault .absent)

theorem Rules.applies_iff {tag : String} : r.Applies tag ↔ r.form tag = .application := by
  unfold Rules.Applies
  by_cases h : tag ∈ leafTags
  · simp only [leafTags, List.mem_cons, List.not_mem_nil, or_false] at h
    rcases h with rfl | rfl | rfl | rfl <;> simp [leafTags, Rules.form]
  · have hform : r.form tag = (r.constants.get? tag).elim .application .constant := by
      simp only [leafTags, List.mem_cons, List.not_mem_nil, or_false, not_or] at h
      exact Rules.form_of_ne h.1 h.2.1 h.2.2.1 h.2.2.2
    rw [hform]
    cases r.constants.get? tag <;> simp [h]

/-- Nothing is wrong with an acceptable node. -/
theorem Rules.Flaw.not_acceptable {why : Unlowered} (h : r.Flaw n why) : ¬r.Acceptable n := by
  intro hacc
  cases hacc with
  | settled hs => cases hs <;> cases h <;> simp_all [Rules.Applies, leafTags]
  | application htag happ hc hne => cases h <;> simp_all [Rules.Applies, leafTags]

/-- A node that fails is not acceptable. -/
theorem Rules.Fails.not_acceptable {e : Failure} (h : r.Fails n e) : ¬r.Acceptable n := by
  cases h with
  | flaw _ hflaw => exact hflaw.not_acceptable
  | absentInteger htag hpayload =>
      intro hacc
      cases hacc with
      | settled hs => cases hs <;> simp_all [leafTags]
      | application htag' happ hc hne => simp_all [Rules.Applies, leafTags]

/-! ## Single nodes -/

/-- A node with the tag of an integer is settled, or fails. -/
theorem integer_settles_or_fails (htag : n.tag = .ok "Integer") :
    (∃ t, integer n "Integer" = .ok t ∧ r.Settles n t) ∨
      ∃ e, integer n "Integer" = .error e ∧ r.Fails n e := by
  rw [integer]
  cases hi : n.integer with
  | value i =>
      cases i with
      | some i => exact .inl ⟨_, rfl, .integer htag hi⟩
      | none => exact .inr ⟨_, rfl, .absentInteger htag hi⟩
  | error text => exact .inr ⟨_, rfl, .flaw htag (.badInteger htag hi)⟩
  | lacking =>
      cases hf : n.float with
      | value x => exact .inl ⟨_, rfl, .integerAsFloat htag hi hf⟩
      | error text => exact .inr ⟨_, rfl, .flaw htag (.badIntegerAsFloat htag hi hf)⟩
      | lacking => exact .inr ⟨_, rfl, .flaw htag (.noInteger htag hi hf)⟩

/-- A node with the tag of a float is settled, or something is wrong with it. -/
theorem float_settles_or_flaw (htag : n.tag = .ok "Float") :
    (∃ t, float n "Float" = .ok t ∧ r.Settles n t) ∨
      ∃ why, float n "Float" = .error (.lowering "Float" why) ∧ r.Flaw n why := by
  rw [float]
  cases hf : n.float with
  | value x => exact .inl ⟨_, rfl, .float htag hf⟩
  | error text => exact .inr ⟨_, rfl, .badFloat htag hf⟩
  | lacking => exact .inr ⟨_, rfl, .noFloat htag hf⟩

/-- A node with the tag of a rational is settled, or something is wrong with it. -/
theorem rational_settles_or_flaw (htag : n.tag = .ok "Rational") :
    (∃ t, rational n "Rational" = .ok t ∧ r.Settles n t) ∨
      ∃ why, rational n "Rational" = .error (.lowering "Rational" why) ∧ r.Flaw n why := by
  rw [rational]
  cases hr : n.ratio with
  | error text => exact .inr ⟨_, rfl, .badRational htag hr⟩
  | lacking => exact .inr ⟨_, rfl, .noRational htag hr⟩
  | value pq =>
      obtain ⟨p, q⟩ := pq
      cases p with
      | none => exact .inr ⟨_, rfl, .notNative htag hr (by simp)⟩
      | some p =>
          cases q with
          | none => exact .inr ⟨_, rfl, .notNative htag hr (by simp)⟩
          | some q =>
              by_cases hw : Numeral.isWord p = true ∧ Numeral.isWord q = true
              · by_cases hq : q = 0
                · subst hq
                  exact .inr ⟨_, by simp [hw], .zeroDenominator htag hr hw.1⟩
                · refine .inl ⟨_, ?_, .rational htag hr hw.1 hw.2 hq⟩
                  simp [hw, hq, Rat.divInt_eq_div]
              · refine .inr ⟨_, ?_, .notNative htag hr (by simpa using hw)⟩
                exact if_pos (by simpa [-not_and, not_and_or] using hw)

/-- A node whose tag makes it no application is settled, or fails. -/
theorem lowerWithin_settles_or_fails {tag : String} (htag : n.tag = .ok tag)
    (hform : r.form tag ≠ .application) (htext : ∃ text, n.text = .ok text) (left : Nat) :
    (∃ t, lowerWithin r (left + 1) n = .ok t ∧ r.Settles n t) ∨
      ∃ e, lowerWithin r (left + 1) n = .error e ∧ r.Fails n e := by
  rw [lowerWithin, htag, Outcome.ok_bind]
  by_cases hleaf : tag ∈ leafTags
  · simp only [leafTags, List.mem_cons, List.not_mem_nil, or_false] at hleaf
    rcases hleaf with rfl | rfl | rfl | rfl
    · obtain ⟨name, hname⟩ := htext
      exact .inl ⟨.var name, by rw [hname]; rfl, .symbol htag hname⟩
    · exact integer_settles_or_fails htag
    · refine (float_settles_or_flaw htag).imp_right ?_
      rintro ⟨why, hwhy, hflaw⟩
      exact ⟨_, hwhy, .flaw htag hflaw⟩
    · refine (rational_settles_or_flaw htag).imp_right ?_
      rintro ⟨why, hwhy, hflaw⟩
      exact ⟨_, hwhy, .flaw htag hflaw⟩
  · cases hc : r.constants.get? tag with
    | none => exact absurd (Rules.applies_iff.1 ⟨hleaf, hc⟩) hform
    | some v =>
        refine .inl ⟨.lit v, ?_, .constant htag hleaf hc⟩
        simp only [leafTags, List.mem_cons, List.not_mem_nil, or_false, not_or] at hleaf
        rw [Rules.form_of_ne hleaf.1 hleaf.2.1 hleaf.2.2.1 hleaf.2.2.2, hc]
        rfl

/-! ## Visits -/

/-- Whether a node is taken for an application, of which these are the children. -/
def Rules.Enters (r : Rules) (n : Node) (ns : List Node) : Prop :=
  ∃ tag error, n.tag = .ok tag ∧ r.Applies tag ∧ n.children = .ok (ns, error)

/-- The nodes that lowering comes by, with the path of positions that leads to them: the root, and
every child of a visited application. -/
inductive Rules.Visited (r : Rules) (n : Node) : List Nat → Node → Prop
  | root : Visited r n [] n
  | child {p : List Nat} {m c : Node} {ns : List Node} {i : Nat} (visited : Visited r n p m)
      (enters : r.Enters m ns) (get : ns[i]? = some c) : Visited r n (p ++ [i]) c

variable {p : List Nat} {m : Node}

theorem Rules.Visited.cons {c : Node} {ns : List Node} {i : Nat} (henters : r.Enters n ns)
    (hget : ns[i]? = some c) (h : r.Visited c p m) : r.Visited n (i :: p) m := by
  induction h with
  | root => exact .child (p := []) .root henters hget
  | child _ henters' hget' ih => exact .child ih henters' hget'

/-- What is visited is the root, or is visited from a child of the root. -/
theorem Rules.visited_iff :
    r.Visited n p m ↔ (p = [] ∧ m = n) ∨
      ∃ i q ns c, p = i :: q ∧ r.Enters n ns ∧ ns[i]? = some c ∧ r.Visited c q m := by
  constructor
  · intro h
    induction h with
    | root => exact .inl ⟨rfl, rfl⟩
    | child _ henters hget ih =>
        rcases ih with ⟨rfl, rfl⟩ | ⟨i, q, ns, c, rfl, hn, hc, hv⟩
        · exact .inr ⟨_, [], _, _, rfl, henters, hget, .root⟩
        · exact .inr ⟨i, _, ns, c, rfl, hn, hc, hv.child henters hget⟩
  · rintro (⟨rfl, rfl⟩ | ⟨i, q, ns, c, rfl, hn, hc, hv⟩)
    · exact .root
    · exact hv.cons hn hc

theorem Rules.Enters.unique {ns ns' : List Node} (h : r.Enters n ns) (h' : r.Enters n ns') :
    ns = ns' := by
  obtain ⟨_, _, -, -, hc⟩ := h
  obtain ⟨_, _, -, -, hc'⟩ := h'
  rw [hc] at hc'
  cases hc'
  rfl

mutual

/-- The target expression that a tree stands for, node by node, children in order. -/
inductive Rules.Image (r : Rules) : Node → Target → Prop
  | settled {n : Node} {t : Target} (settles : r.Settles n t) : Image r n t
  | application {n : Node} {tag : String} {ns : List Node} {ts : List Target}
      (hasTag : n.tag = .ok tag) (applies : r.Applies tag)
      (hasChildren : n.children = .ok (ns, none)) (ne : ns ≠ []) (images : Images r ns ts) :
      Image r n (.call (r.operators.resolve tag) ts)

inductive Rules.Images (r : Rules) : List Node → List Target → Prop
  | nil : Images r [] []
  | cons {n : Node} {t : Target} {ns : List Node} {ts : List Target} (head : Image r n t)
      (tail : Images r ns ts) : Images r (n :: ns) (t :: ts)

end

/-! ## Whole trees -/

/-- How lowering went through a tree in which `left` levels may be entered, if it succeeded. -/
structure Rules.Lowered (r : Rules) (left : Nat) (n : Node) (t : Target) : Prop where
  result : lowerWithin r left n = .ok t
  image : r.Image n t
  visited {p : List Nat} {m : Node} (h : r.Visited n p m) : p.length < left ∧ r.Acceptable m

/-- How it went if it failed: because of a visited node, and of none before it. -/
structure Rules.Refused (r : Rules) (left : Nat) (n : Node) (p : List Nat) (m : Node)
    (e : Failure) : Prop where
  result : lowerWithin r left n = .error e
  visited : r.Visited n p m
  offends : left ≤ p.length ∧ (∃ tag, m.tag = .ok tag ∧ e = .lowering tag .tooDeep) ∨
    p.length < left ∧ r.Fails m e
  first {q : List Nat} {x : Node} (h : r.Visited n q x) (lt : q < p) :
    q.length < left ∧ r.Acceptable x

/-- Nothing is visited before the root. -/
theorem Rules.refused_root {left : Nat} {e : Failure} (hresult : lowerWithin r left n = .error e)
    (h : left ≤ 0 ∧ (∃ tag, n.tag = .ok tag ∧ e = .lowering tag .tooDeep) ∨
      0 < left ∧ r.Fails n e) : r.Refused left n [] n e where
  result := hresult
  visited := .root
  offends := h
  first _ hlt := absurd hlt (List.not_lt_nil _)

/-- Of a node that is no application only the node itself is visited. -/
theorem Rules.visited_of_not_applies {tag : String} (htag : n.tag = .ok tag)
    (happ : ¬r.Applies tag) (h : r.Visited n p m) : p = [] ∧ m = n := by
  rcases Rules.visited_iff.1 h with h | ⟨i, q, ns, c, -, ⟨tag', _, htag', happ', -⟩, -, -⟩
  · exact h
  · rw [htag] at htag'
    cases htag'
    exact absurd happ' happ

theorem Rules.lowered_settled {left : Nat} {tag : String} {t : Target}
    (hresult : lowerWithin r (left + 1) n = .ok t) (hs : r.Settles n t) (htag : n.tag = .ok tag)
    (happ : ¬r.Applies tag) : r.Lowered (left + 1) n t where
  result := hresult
  image := .settled hs
  visited h := by
    obtain ⟨rfl, rfl⟩ := Rules.visited_of_not_applies htag happ h
    exact ⟨Nat.succ_pos left, .settled hs⟩

theorem Rules.images_of_forall₂ {ns : List Node} {ts : List Target}
    (h : List.Forall₂ r.Image ns ts) : r.Images ns ts := by
  induction h with
  | nil => exact .nil
  | cons h _ ih => exact .cons h ih

section Application

variable {left : Nat} {tag : String} {ns : List Node}

/-- An application is lowered if its children are. -/
theorem Rules.lowered_application {ts : List Target} (htag : n.tag = .ok tag)
    (happ : r.Applies tag) (hc : n.children = .ok (ns, none)) (hne : ns ≠ [])
    (hts : ns.mapM (lowerWithin r left) = .ok ts)
    (hall : ∀ c ∈ ns, ∀ t, lowerWithin r left c = .ok t → r.Lowered left c t) :
    r.Lowered (left + 1) n (.call (r.operators.resolve tag) ts) where
  result := (lowerWithin_application htag (Rules.applies_iff.1 happ)).2 ⟨ns, ts, hc, hne, hts, rfl⟩
  image := by
    refine .application htag happ hc hne (Rules.images_of_forall₂ ?_)
    have hmem := (List.forall₂_and_left ns ts).2 ⟨fun c ↦ id, Outcome.forall₂_of_mapM hts⟩
    exact hmem.imp fun c t h ↦ (hall c h.1 t h.2).image
  visited h := by
    rcases Rules.visited_iff.1 h with ⟨rfl, rfl⟩ | ⟨i, q, ns', c, rfl, henters, hget, hv⟩
    · exact ⟨Nat.succ_pos left, .application htag happ hc hne⟩
    · obtain rfl := henters.unique ⟨tag, none, htag, happ, hc⟩
      have hmem := List.mem_of_getElem? hget
      obtain ⟨t, -, ht⟩ := Outcome.exists_of_mem_of_mapM hts hmem
      have hvisited := (hall c hmem t ht).visited hv
      exact ⟨Nat.succ_lt_succ hvisited.1, hvisited.2⟩

/-- An application is refused where its first child that is refused is refused. -/
theorem Rules.refused_application {e : Failure} (htag : n.tag = .ok tag) (happ : r.Applies tag)
    (hc : n.children = .ok (ns, none)) (hne : ns ≠ [])
    (he : ns.mapM (lowerWithin r left) = .error e)
    (hall : ∀ c ∈ ns, (∃ t, r.Lowered left c t) ∨ ∃ p m e, r.Refused left c p m e) :
    ∃ p m e, r.Refused (left + 1) n p m e := by
  have henters : r.Enters n ns := ⟨tag, none, htag, happ, hc⟩
  obtain ⟨i, c, hget, hce, hbefore⟩ := Outcome.exists_of_mapM_error he
  rcases hall c (List.mem_of_getElem? hget) with ⟨t, hlow⟩ | ⟨p, m, e', href⟩
  · rw [hlow.result] at hce
    cases hce
  · have hresult : lowerWithin r (left + 1) n = .error e' := by
      rw [href.result] at hce
      cases hce
      rw [lowerWithin, htag, Outcome.ok_bind, Rules.applies_iff.1 happ]
      simp [hc, hne, he]
    refine ⟨i :: p, m, e', hresult, href.visited.cons henters hget, ?_, ?_⟩
    · simpa using href.offends
    · intro q x hv hlt
      rcases Rules.visited_iff.1 hv with ⟨rfl, rfl⟩ | ⟨j, q, ns', c', rfl, henters', hget', hv⟩
      · exact ⟨Nat.succ_pos left, .application htag happ hc hne⟩
      · obtain rfl := henters'.unique henters
        -- Either an earlier child, which was lowered, or earlier in the child that was refused.
        suffices h : q.length < left ∧ r.Acceptable x from ⟨Nat.succ_lt_succ h.1, h.2⟩
        rcases List.cons_lt_cons_iff.1 hlt with hji | ⟨rfl, hqp⟩
        · obtain ⟨t, ht⟩ := hbefore j c' hji hget'
          rcases hall c' (List.mem_of_getElem? hget') with ⟨t', hlow⟩ | ⟨p', m', e'', href'⟩
          · exact hlow.visited hv
          · rw [href'.result] at ht
            cases ht
        · rw [hget] at hget'
          cases hget'
          exact href.first hv hqp

end Application

/-- Every tree is lowered or refused. -/
theorem Rules.lowered_or_refused (hn : n.Grounded) (left : Nat) :
    (∃ t, r.Lowered left n t) ∨ ∃ p m e, r.Refused left n p m e := by
  induction hn generalizing left with
  | @intro n tag text ns error htag htext hc _ ih =>
      cases left with
      | zero =>
          refine .inr ⟨[], n, _, Rules.refused_root ?_ (.inl ⟨le_rfl, tag, htag, rfl⟩)⟩
          simp [lowerWithin, htag]
      | succ left =>
          by_cases happ : r.Applies tag
          · have hform := Rules.applies_iff.1 happ
            have refuse {why : Unlowered}
                (h : lowerWithin r (left + 1) n = .error (.lowering tag why))
                (hflaw : r.Flaw n why) : ∃ p m e, r.Refused (left + 1) n p m e :=
              ⟨[], n, _, Rules.refused_root h (.inr ⟨Nat.succ_pos left, .flaw htag hflaw⟩)⟩
            cases error with
            | some words =>
                refine .inr (refuse ?_ (.badChildren htag happ hc))
                simp [lowerWithin, htag, hform, hc]
            | none =>
                by_cases hne : ns = []
                · subst hne
                  refine .inr (refuse ?_ (.noLeafRule htag happ hc))
                  simp [lowerWithin, htag, hform, hc]
                · cases hts : ns.mapM (lowerWithin r left) with
                  | error e =>
                      exact .inr (Rules.refused_application htag happ hc hne hts fun c hmem ↦
                        ih c hmem left)
                  | ok ts =>
                      refine .inl ⟨_, Rules.lowered_application htag happ hc hne hts ?_⟩
                      intro c hmem t ht
                      rcases ih c hmem left with ⟨t', h⟩ | ⟨_, _, _, h⟩
                      · have hresult := h.result
                        rw [ht] at hresult
                        cases hresult
                        exact h
                      · rw [h.result] at ht
                        cases ht
          · have hform : r.form tag ≠ .application := fun h ↦ happ (Rules.applies_iff.2 h)
            rcases lowerWithin_settles_or_fails htag hform ⟨text, htext⟩ left with
              ⟨t, ht, hs⟩ | ⟨e, he, hfails⟩
            · exact .inl ⟨t, Rules.lowered_settled ht hs htag happ⟩
            · exact .inr ⟨[], n, e, Rules.refused_root he (.inr ⟨Nat.succ_pos left, hfails⟩)⟩

/-- More levels change nothing about a tree that is lowered. -/
theorem lowerWithin_mono {left left' : Nat} (hle : left ≤ left') {t : Target}
    (h : lowerWithin r left n = .ok t) : lowerWithin r left' n = .ok t := by
  induction left generalizing left' n t with
  | zero =>
      rw [lowerWithin] at h
      obtain ⟨tag, -, h⟩ := Outcome.bind_eq_ok.1 h
      cases h
  | succ left ih =>
      obtain ⟨left', rfl⟩ := Nat.exists_eq_succ_of_ne_zero (show left' ≠ 0 by omega)
      rw [lowerWithin] at h ⊢
      obtain ⟨tag, htag, h'⟩ := Outcome.bind_eq_ok.1 h
      rw [htag, Outcome.ok_bind]
      by_cases happ : r.form tag = .application
      · obtain ⟨ns, ts, hc, hne, hts, rfl⟩ := (lowerWithin_application htag happ).1 h
        have hts' := Outcome.mapM_mono (g := lowerWithin r left')
          (fun c _ t ht ↦ ih (Nat.le_of_succ_le_succ hle) ht) hts
        have := (lowerWithin_application htag happ).2 ⟨ns, ts, hc, hne, hts', rfl⟩
        rwa [lowerWithin, htag, Outcome.ok_bind] at this
      · cases hform : r.form tag with
        | application => exact absurd hform happ
        | _ => simpa only [hform] using h'

/-- For every finite tree whose accessors answer, and every limit: the tree is lowered if and only
if every visited node stands within the limit and is acceptable. What it is lowered to is its
image, under every larger limit too. Otherwise the failure is that of the first visited node, in
the order of the paths, that stands too deep or fails; it is an error with the tag of the node,
unless the node answers for an integer with nothing, which is a fault. -/
theorem lower_eq_ok_iff_visited (r : Rules) (limit : Nat) {n : Node} (hn : n.Grounded) :
    ((∃ t, lower r limit n = .ok t) ↔
        ∀ p m, r.Visited n p m → p.length ≤ limit ∧ r.Acceptable m) ∧
      (∀ t, lower r limit n = .ok t →
        r.Image n t ∧ ∀ limit', limit ≤ limit' → lower r limit' n = .ok t) ∧
      ∀ e, lower r limit n = .error e →
        ∃ p m, r.Visited n p m ∧
          (limit < p.length ∧ (∃ tag, m.tag = .ok tag ∧ e = .lowering tag .tooDeep) ∨
            p.length ≤ limit ∧ r.Fails m e) ∧
          ∀ q x, r.Visited n q x → q < p → q.length ≤ limit ∧ r.Acceptable x := by
  rcases Rules.lowered_or_refused (r := r) hn (limit + 1) with ⟨t, h⟩ | ⟨p, m, e, h⟩
  · refine ⟨⟨fun _ p m hv ↦ ?_, fun _ ↦ ⟨t, h.result⟩⟩, fun t' ht' ↦ ?_, fun e he ↦ ?_⟩
    · obtain ⟨hlen, hacc⟩ := h.visited hv
      exact ⟨Nat.le_of_lt_succ hlen, hacc⟩
    · obtain rfl := Except.ok.inj (h.result.symm.trans ht')
      exact ⟨h.image, fun limit' hle ↦ lowerWithin_mono (Nat.succ_le_succ hle) ht'⟩
    · cases h.result.symm.trans he
  · refine ⟨⟨fun ⟨t, ht⟩ ↦ ?_, fun hall ↦ ?_⟩, fun t ht ↦ ?_, fun e' he ↦ ?_⟩
    · cases h.result.symm.trans ht
    · obtain ⟨hlen, hacc⟩ := hall p m h.visited
      rcases h.offends with ⟨hdeep, -⟩ | ⟨-, hfails⟩
      · omega
      · exact absurd hacc hfails.not_acceptable
    · cases h.result.symm.trans ht
    · obtain rfl := Except.error.inj (h.result.symm.trans he)
      refine ⟨p, m, h.visited, ?_, fun q x hv hlt ↦ ?_⟩
      · simpa only [Nat.lt_succ_iff, Nat.succ_le_iff] using h.offends
      · obtain ⟨hlen, hacc⟩ := h.first hv hlt
        exact ⟨Nat.le_of_lt_succ hlen, hacc⟩

/-- Of two nodes that offend the one in front counts, though it stands deeper. -/
theorem lower_eq_ok_iff_visited_sum :
    let x : Node := .foreign { tag := "Symbol", text := "x" } []
    let set : Node := .foreign { tag := "EmptySet", text := "EmptySet" } []
    let pole : Node :=
      .foreign { tag := "Rational", text := "1/0", payload := { ratio := some (some 1, some 0) } } []
    let product : Node := .foreign { tag := "Mul", text := "x*EmptySet" } [x, set]
    let n : Node := .foreign { tag := "Add", text := "x*EmptySet + 1/0" } [product, pole]
    n.Grounded ∧ Rules.builtin.Visited n [1] pole ∧ Rules.builtin.Flaw pole .zeroDenominator ∧
      lower .builtin 2 n = .error (.lowering "EmptySet" .noLeafRule) ∧
      ∃ p m, Rules.builtin.Visited n p m ∧
        (2 < p.length ∧ (∃ tag, m.tag = .ok tag ∧
            Failure.lowering "EmptySet" .noLeafRule = .lowering tag .tooDeep) ∨
          p.length ≤ 2 ∧ Rules.builtin.Fails m (.lowering "EmptySet" .noLeafRule)) ∧
        ∀ q x, Rules.builtin.Visited n q x → q < p → q.length ≤ 2 ∧ Rules.builtin.Acceptable x := by
  intro x set pole product n
  have leaf {label : Label} (h : label.givesUp = none) : Node.Grounded (.foreign label []) :=
    Node.grounded_foreign h (by simp)
  have hproduct : product.Grounded :=
    Node.grounded_foreign rfl (by simp [x, set, leaf])
  have hn : n.Grounded := Node.grounded_foreign rfl (by simp [hproduct, pole, leaf])
  have happ : Rules.builtin.Applies "Add" := Rules.applies_iff.2 rfl
  have hfail : lower .builtin 2 n = .error (.lowering "EmptySet" .noLeafRule) := by rfl
  refine ⟨hn, ?_, .zeroDenominator rfl rfl (by decide), hfail, ?_⟩
  · exact .child (p := []) .root ⟨"Add", none, rfl, happ, rfl⟩ rfl
  · exact (lower_eq_ok_iff_visited .builtin 2 hn).2.2 _ hfail

/-- An integer that answers with nothing is a fault, while a rational that does is an error. -/
theorem exists_lower_fault :
    let integer : Node :=
      .foreign { tag := "Integer", text := "n", payload := { integer := some none } } []
    let rational : Node :=
      .foreign { tag := "Rational", text := "n", payload := { ratio := some (none, none) } } []
    integer.Grounded ∧ lower .builtin 0 integer = .error (.fault .absent) ∧
      rational.Grounded ∧ lower .builtin 0 rational = .error (.lowering "Rational" .notNative) :=
  ⟨Node.grounded_foreign rfl (by simp), rfl, Node.grounded_foreign rfl (by simp), rfl⟩

end Lowering

end ExprCompiler
