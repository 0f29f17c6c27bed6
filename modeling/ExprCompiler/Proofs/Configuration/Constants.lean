import ExprCompiler.Configuration.TablesFile
import ExprCompiler.Proofs.Expr.Folding
import ExprCompiler.Proofs.Lowering.Visited
import ExprCompiler.Proofs.Numeral.Digits

/-!
# The constants of a table file

A constant that is a whole number or the text of one or of a fraction keeps its value on the way
from the file to the tree that is compiled, with one exception: whole numbers from `2^63` up to
`2^64` come out less by `2^64`. Nodes with the tags of leaves are not looked up among the constants.
That holds for any entries without a name that is there twice (`TablesFile.lower_of_ofSections`), and
the entries of a file are such (`TablesFile.lower_of_parse`).
-/

namespace ExprCompiler

/-! ## Names that are there once -/

namespace Table

variable {α : Type}

/-- What is overlaid last counts. -/
theorem get?_overlay_of_not_mem {base upper : Table α} {name : String}
    (h : name ∉ upper.map Prod.fst) : (overlay base upper).get? name = base.get? name := by
  induction upper generalizing base with
  | nil => rfl
  | cons e upper ih =>
      rw [List.map_cons, List.mem_cons, not_or] at h
      change (overlay (base.insert e.1 e.2) upper).get? name = _
      rw [ih h.2, get?_insert, if_neg (Ne.symm h.1)]

/-- An entry that is overlaid is found, if its name is overlaid once. -/
theorem get?_overlay_of_mem {base upper : Table α} (h : (upper.map Prod.fst).Nodup)
    {name : String} {a : α} (ha : (name, a) ∈ upper) :
    (overlay base upper).get? name = some a := by
  induction upper generalizing base with
  | nil => cases ha
  | cons e upper ih =>
      rw [List.map_cons, List.nodup_cons] at h
      change (overlay (base.insert e.1 e.2) upper).get? name = _
      rcases List.mem_cons.1 ha with rfl | ha
      · rw [get?_overlay_of_not_mem h.1, get?_insert, if_pos rfl]
      · exact ih h.2 ha

end Table

namespace Yaml

/-- Setting an entry keeps the order of the names, with a new name at the end. -/
theorem map_fst_set (name : String) (v : Yaml) (entries : List (String × Yaml)) :
    (set name v entries).map Prod.fst =
      if name ∈ entries.map Prod.fst then entries.map Prod.fst
      else entries.map Prod.fst ++ [name] := by
  induction entries with
  | nil => rfl
  | cons e entries ih =>
      rw [set]
      by_cases he : e.1 = name
      · simp [he]
      · have he' : name ≠ e.1 := Ne.symm he
        simp only [beq_iff_eq, he, if_false, List.map_cons, ih, List.mem_cons, he', false_or]
        split <;> rfl

theorem nodup_set {name : String} {v : Yaml} {entries : List (String × Yaml)}
    (h : (entries.map Prod.fst).Nodup) : ((set name v entries).map Prod.fst).Nodup := by
  rw [map_fst_set]
  split
  · exact h
  · rename_i hname
    refine List.nodup_append.2 ⟨h, by simp, ?_⟩
    rintro name' hmem _ hname' rfl
    exact hname (List.mem_singleton.1 hname' ▸ hmem)

theorem nodup_foldl_set {entries : List (String × Yaml)} (more : List (String × Yaml))
    (h : (entries.map Prod.fst).Nodup) :
    ((more.foldl (fun es e ↦ set e.1 e.2 es) entries).map Prod.fst).Nodup := by
  induction more generalizing entries with
  | nil => exact h
  | cons e more ih => exact ih (nodup_set h)

/-- No name is twice in a section. -/
theorem Node.nodup_sectionOf? {fuel : Nat} {known known' : Anchors} {names : List String}
    {before after : List (String × Yaml)} {entries : List (Node × Node)}
    (hbefore : (before.map Prod.fst).Nodup)
    (h : sectionOf? fuel known names before entries = some (after, known')) :
    (after.map Prod.fst).Nodup := by
  induction fuel generalizing known names before entries with
  | zero => simp [sectionOf?] at h
  | succ fuel ih =>
      cases entries with
      | nil =>
          simp only [sectionOf?, Option.some.injEq, Prod.mk.injEq] at h
          exact h.1 ▸ hbefore
      | cons e entries =>
          obtain ⟨name, n⟩ := e
          rw [sectionOf?] at h
          split at h
          · split at h
            · split at h
              · split at h
                · -- Merged entries are set one by one, so it does not matter what they are.
                  exact ih (nodup_foldl_set _ hbefore) h
                · cases h
              · cases h
            · cases h
          · split at h
            · split at h
              · split at h
                · cases h
                · exact ih (nodup_set hbefore) h
              · cases h
            · cases h

end Yaml

namespace Configuration.TablesFile

/-- A section has every name once. -/
theorem nodup_sectionOf? {fuel : Nat} {known known' : Yaml.Node.Anchors}
    {fields : List (String × Yaml.Node)} {name : String} {entries : List (String × Yaml)}
    (h : sectionOf? fuel known fields name = some (entries, known')) :
    (entries.map Prod.fst).Nodup := by
  unfold sectionOf? at h
  dsimp only at h
  split at h
  all_goals
    split at h
    · cases h
      exact List.nodup_nil
    · split at h
      · obtain ⟨nodes, -, h⟩ := Option.bind_eq_some_iff.1 h
        exact Yaml.Node.nodup_sectionOf? (by simp) h
      · cases h

/-- The constants of a file have every name once. -/
theorem nodup_sections? {s : String} {entries : List (String × Yaml)} {operators : Operators}
    (h : sections? s = some (entries, operators)) : (entries.map Prod.fst).Nodup := by
  simp only [sections?, Option.bind_eq_bind, Option.bind_eq_some_iff] at h
  obtain ⟨nodes, -, ⟨values, known⟩, -, h⟩ := h
  dsimp only at h
  split at h
  · cases h
    exact List.nodup_nil
  · simp only [Option.bind_eq_some_iff, Option.pure_def, Option.some.injEq, Prod.mk.injEq] at h
    obtain ⟨_, -, _, -, ⟨constants, _⟩, hconstants, _, -, _, -, rfl, -⟩ := h
    exact nodup_sectionOf? hconstants

end Configuration.TablesFile

/-! ## Whole numbers and fractions as they are written -/

namespace Yaml

/-- The number that a whole number or a text stands for. -/
def numeral? : Yaml → Option Rat
  | .word n => some n
  | .int n => some n
  | .string s => Numeral.readRat? s
  | _ => none

/-- Whole numbers and texts. -/
inductive IsNumeral : Yaml → Prop
  | word (n : Nat) : IsNumeral (.word n)
  | int (n : Int) : IsNumeral (.int n)
  | text (s : String) : IsNumeral (.string s)

/-- What has a numeric value is a numeral. -/
theorem isNumeral_of_numeral? {y : Yaml} {q : Rat} (h : y.numeral? = some q) : y.IsNumeral := by
  cases y with
  | word n => exact .word n
  | int n => exact .int n
  | string s => exact .text s
  | _ => cases h

/-- Words without a sign that are no words with one. -/
inductive Overflows : Yaml → Prop
  | word {n : Nat} (h : Numeral.signedBound ≤ n) : Overflows (.word n)

/-- The characters of whole numbers and fractions. -/
def isPlain (c : Char) : Bool := c.isDigit || c == '-' || c == '/'

/-- What is written with them is none of the words. -/
theorem resolve_eq {s : String} (h : s.toList.all isPlain = true) :
    resolve s = (number? s).getD (.string s) := by
  have hwords : ∀ w ∈ nullWords ++ trueWords ++ falseWords ++ infinityWords ++
      infinityWords.map ("-" ++ ·) ++ nanWords, w.toList.all isPlain = false := by
    decide
  have hnot : s ∉ nullWords ++ trueWords ++ falseWords ++ infinityWords ++
      infinityWords.map ("-" ++ ·) ++ nanWords := by
    intro hs
    have hfalse := hwords s hs
    rw [h] at hfalse
    cases hfalse
  simp only [List.mem_append, not_or] at hnot
  obtain ⟨⟨⟨⟨⟨hnull, htrue⟩, hno⟩, hinf⟩, hneg⟩, hnan⟩ := hnot
  simp only [resolve, List.contains_eq_mem, hnull, htrue, hno, hinf, hneg, hnan, decide_false,
    Bool.false_eq_true, if_false]

/-- The digits of a number are read as the number. -/
theorem digits?_toDigits (n : Nat) : digits? 10 (Nat.toDigits 10 n) = some n := by
  have hfold (ds : List Char) (hds : ∀ c ∈ ds, c.isDigit = true) (m : Nat) :
      ds.foldlM (fun n c ↦ (Numeral.digitBelow? 10 c).map (10 * n + ·)) m =
        some (Nat.ofDigitChars 10 ds m) := by
    induction ds generalizing m with
    | nil => rfl
    | cons c ds ih =>
        obtain ⟨hc, hds⟩ := List.forall_mem_cons.1 hds
        rw [List.foldlM_cons, Numeral.digitBelow?_of_isDigit hc, Nat.ofDigitChars_cons]
        exact ih hds _
  rw [digits?, if_neg (by simp [Nat.toDigits_ne_nil]), hfold _ (Numeral.isDigit_toDigits n),
    Nat.ofDigitChars_ten_toDigits]

/-- The text of an integer is read as a word behind its sign. -/
theorem number?_toString (z : Int) :
    number? (toString z) = word? (decide (z < 0)) 10 (Nat.toDigits 10 z.natAbs) := by
  have hdigits := Numeral.isDigit_toDigits z.natAbs
  have hlone : ∀ c rest, Nat.toDigits 10 z.natAbs ≠ '0' :: c :: rest := by
    intro c rest h
    rcases Nat.eq_zero_or_pos z.natAbs with hz | hz
    · rw [hz] at h
      cases h
    · exact Numeral.head_toDigits_ne_zero hz _ h
  rw [number?, Numeral.toList_toString_int]
  generalize Nat.toDigits 10 z.natAbs = ds at hdigits hlone ⊢
  have hhead (c : Char) (hc : c.isDigit = false) : (ds.head? == some c) = false := by
    cases ds with
    | nil => rfl
    | cons d ds => simpa using Numeral.ne_of_isDigit (hdigits d List.mem_cons_self) hc
  have hfilter : ds.filter (· != '_') = ds := by
    refine List.filter_eq_self.2 fun c hc ↦ ?_
    simpa using Numeral.ne_of_isDigit (hdigits c hc) rfl
  have hcount : ds.count '.' = 0 :=
    List.count_eq_zero.2 fun hc ↦ absurd (hdigits _ hc) (by decide)
  -- The sign is taken off, and no leading zero marks a base.
  by_cases hz : z < 0
  on_goal 1 =>
    simp only [hz, if_true, List.cons_append, List.nil_append, List.head?_cons,
      Option.some_beq_some, Char.reduceBEq, ne_eq, Char.reduceEq, not_false_eq_true,
      List.count_cons_of_ne, hcount, Nat.not_lt_zero, decide_false, Bool.or_self,
      Bool.false_eq_true, if_false, List.drop_succ_cons, List.drop_zero, hfilter,
      Nat.reduceBEq, decide_true]
  on_goal 2 =>
    simp only [hz, if_false, List.nil_append, Char.reduceIsDigit, hhead, hcount, Nat.not_lt_zero,
      decide_false, Bool.or_self, Bool.false_eq_true, hfilter, Nat.reduceBEq]
  all_goals
    split
    · exact absurd rfl (hlone _ _)
    · exact absurd rfl (hlone _ _)
    · exact absurd rfl (hlone _ _)
    · split
      · exact absurd rfl (hlone _ _)
      · rfl

theorem all_isPlain_toDigits (n : Nat) : (Nat.toDigits 10 n).all isPlain = true :=
  List.all_eq_true.2 fun c hc ↦ by simp [isPlain, Numeral.isDigit_toDigits n c hc]

theorem all_isPlain_toString (z : Int) : (toString z).toList.all isPlain = true := by
  rw [Numeral.toList_toString_int, List.all_append, all_isPlain_toDigits]
  split <;> rfl

/-- A whole number in decimal is a word, with a sign if it is negative, or a text if it is none. -/
theorem resolve_toString (z : Int) : resolve (toString z) =
    if -(Numeral.signedBound : Int) ≤ z ∧ z < 0 then .int z
    else if 0 ≤ z ∧ z < Numeral.wordCount then .word z.toNat
    else .string (toString z) := by
  rw [resolve_eq (all_isPlain_toString z), number?_toString, word?, digits?_toDigits]
  by_cases hz : z < 0
  · by_cases hlow : -(Numeral.signedBound : Int) ≤ z
    · have habs : z.natAbs ≤ Numeral.signedBound := by omega
      simp [hz, hlow, habs, abs_of_neg hz]
    · have habs : ¬z.natAbs ≤ Numeral.signedBound := by omega
      simp [hz, hlow, habs, Int.not_le.2 hz]
  · by_cases hhigh : z < Numeral.wordCount
    · have hnat : z.natAbs = z.toNat := by omega
      simp [hz, hhigh, hnat, Int.not_lt.1 hz]
    · have habs : ¬z.natAbs < Numeral.wordCount := by omega
      simp [hz, hhigh, habs]

/-- The text of an integer resolves to that integer. -/
theorem numeral?_resolve_toString (z : Int) : (resolve (toString z)).numeral? = some (z : Rat) := by
  rw [resolve_toString]
  split_ifs with hint hword
  · rfl
  · have hnat : ((z.toNat : Int) : Rat) = z := by rw [Int.toNat_of_nonneg hword.1]
    exact congrArg some hnat
  · have htext : Numeral.ratText (z : Rat) = toString z := by simp [Numeral.ratText]
    rw [numeral?, ← htext, Numeral.readRat?_ratText]

/-- A word overflows from the bound of signed words on. -/
theorem overflows_word {n : Nat} : (word n).Overflows ↔ Numeral.signedBound ≤ n := by
  constructor
  · rintro ⟨h⟩
    exact h
  · exact .word

/-- The text of an integer overflows if only an unsigned word holds the integer. -/
theorem overflows_resolve_toString (z : Int) :
    (resolve (toString z)).Overflows ↔ (Numeral.signedBound : Int) ≤ z ∧ z < Numeral.wordCount := by
  have hbound : 0 < (Numeral.signedBound : Int) := by decide
  rw [resolve_toString]
  split_ifs with hint hword
  · refine iff_of_false (by rintro ⟨⟩) (by omega)
  · rw [overflows_word]
    omega
  · refine iff_of_false (by rintro ⟨⟩) (by omega)

/-- A stroke is a digit of no base. -/
theorem word?_of_stroke {negative : Bool} {base : Nat} {cs : List Char} (h : '/' ∈ cs) :
    word? negative base cs = none := by
  have hfold (m : Nat) :
      cs.foldlM (fun n c ↦ (Numeral.digitBelow? base c).map (base * n + ·)) m = none := by
    induction cs generalizing m with
    | nil => cases h
    | cons c cs ih =>
        rw [List.foldlM_cons]
        rcases List.mem_cons.1 h with rfl | h
        · rfl
        · cases Numeral.digitBelow? base c with
          | none => rfl
          | some d => exact ih h _
  rw [word?, digits?, hfold, ite_self]

/-- A fraction is no number of its own; it stays a text. -/
theorem number?_of_stroke {s : String} (hstroke : '/' ∈ s.toList) (hpoint : '.' ∉ s.toList) :
    number? s = none := by
  have hdrop {c : Char} (hc : c ≠ '/') {cs : List Char} (hcs : '/' ∈ cs) :
      '/' ∈ if cs.head? == some c then cs.drop 1 else cs := by
    cases cs with
    | nil => cases hcs
    | cons d cs =>
        split
        · rename_i hd
          obtain rfl : d = c := by simpa using hd
          exact (List.mem_cons.1 hcs).resolve_left (Ne.symm hc)
        · exact hcs
  have hunsigned := hdrop (c := '-') (by decide) (hdrop (c := '+') (by decide) hstroke)
  have hplain := List.mem_filter (p := (· != '_')).2 ⟨hunsigned, by decide⟩
  have hcount : s.toList.count '.' = 0 := List.count_eq_zero.2 hpoint
  rw [number?]
  dsimp only
  generalize List.filter _ _ = plain at hplain ⊢
  simp only [hcount]
  split
  · rfl
  · split
    · exact word?_of_stroke (by simpa using hplain)
    · exact word?_of_stroke (by simpa using hplain)
    · exact word?_of_stroke (by simpa using hplain)
    · rw [if_neg (by decide)]
      split
      · exact word?_of_stroke (by simpa using hplain)
      · exact word?_of_stroke hplain

/-- A fraction is a text. -/
theorem resolve_fraction (z : Int) (d : Nat) : resolve (toString z ++ "/" ++ toString d) =
    .string (toString z ++ "/" ++ toString d) := by
  have hplain : (toString z ++ "/" ++ toString d).toList.all isPlain = true := by
    have hden : (toString d).toList.all isPlain = true := by
      rw [Nat.toString_eq_repr, Nat.toList_repr, all_isPlain_toDigits]
    rw [String.toList_append, String.toList_append, List.all_append, List.all_append,
      all_isPlain_toString, hden]
    rfl
  rw [resolve_eq hplain, number?_of_stroke]
  · rfl
  · simp
  · intro hpoint
    exact absurd (List.all_eq_true.1 hplain '.' hpoint) (by decide)

end Yaml

/-! ## Nodes with the tag of a constant -/

namespace Lowering

/-- A tag that is no leaf and names a constant is lowered to the constant. -/
theorem lower_of_get? {r : Rules} {n : Node} {tag : String} {v : Value} (hn : n.tag = .ok tag)
    (htag : tag ∉ leafTags) (hv : r.constants.get? tag = some v) (maxDepth : Nat) :
    lower r maxDepth n = .ok (.lit v) := by
  simp only [leafTags, List.mem_cons, List.not_mem_nil, or_false, not_or] at htag
  have hform : r.form tag = .constant v := by simp [Rules.form, htag, hv]
  simp [lower, lowerWithin, hn, hform]

/-- A leaf that is lowered by what it carries does not look at the tables. -/
theorem lower_of_mem_leafTags {n : Node} {tag : String} (hn : n.tag = .ok tag)
    (htag : tag ∈ leafTags) (r r' : Rules) (maxDepth : Nat) :
    lower r maxDepth n = lower r' maxDepth n := by
  simp only [leafTags, List.mem_cons, List.not_mem_nil, or_false] at htag
  rcases htag with rfl | rfl | rfl | rfl <;> simp [lower, lowerWithin, hn, Rules.form]

end Lowering

namespace Configuration.TablesFile

variable {entries : List (String × Yaml)} {operators : Operators} {t : TablesFile}

/-- Every entry of a decoded section is taken as a constant. -/
theorem mapM_constant_of_ofSections (h : ofSections entries operators = .ok t) :
    entries.mapM (fun e ↦ do return (e.1, ← constant e.1 e.2)) = .ok t.constants := by
  obtain ⟨constants, hconstants, h⟩ := Outcome.bind_eq_ok.1 h
  split at h
  · cases h
  · cases h
    exact hconstants

/-- Constants have the names of their entries. -/
theorem map_fst_of_mapM_constant {constants : Constants}
    (h : entries.mapM (fun e ↦ do return (e.1, ← constant e.1 e.2)) = .ok constants) :
    constants.map Prod.fst = entries.map Prod.fst := by
  have hall := Outcome.forall₂_of_mapM h
  clear h
  induction hall with
  | nil => rfl
  | cons he _ ih =>
      obtain ⟨v, -, hv⟩ := Outcome.bind_eq_ok.1 he
      cases hv
      rw [List.map_cons, List.map_cons, ih]

/-- Each entry is the constant of its tag, in the tables and over the defaults. -/
theorem get?_of_ofSections (hnames : (entries.map Prod.fst).Nodup)
    (ht : ofSections entries operators = .ok t) {tag : String} {y : Yaml}
    (hy : (tag, y) ∈ entries) : ∃ v, constant tag y = .ok v ∧ t.constants.get? tag = some v ∧
      (optionsWith t.overrides).rules.constants.get? tag = some v := by
  have hconstants := mapM_constant_of_ofSections ht
  have hnodup : (t.constants.map Prod.fst).Nodup := by
    rw [map_fst_of_mapM_constant hconstants]
    exact hnames
  obtain ⟨e, he, h⟩ := Outcome.exists_of_mem_of_mapM hconstants hy
  obtain ⟨v, hv, h⟩ := Outcome.bind_eq_ok.1 h
  cases h
  exact ⟨v, hv, Table.get?_of_mem hnodup he, Table.get?_overlay_of_mem hnodup he⟩

/-- A file that can be read has sections, and no name twice among the constants. -/
theorem exists_sections_of_parse {s : String} (h : parse s = .ok t) :
    ∃ entries operators, sections? s = some (entries, operators) ∧
      (entries.map Prod.fst).Nodup ∧ ofSections entries operators = .ok t := by
  unfold parse at h
  split at h
  · cases h
  · rename_i entries operators hsections
    exact ⟨entries, operators, hsections, nodup_sections? hsections, h⟩

/-- The low bits of a number are the number below the bound of signed words. -/
theorem lowBits_eq_self_iff {n : Nat} :
    Numeral.lowBits n = n ↔ n < Numeral.signedBound := by
  constructor
  · intro h
    have hlt : Numeral.lowBits n < (Numeral.wordCount + 1) / 2 := Int.bmod_lt (by decide)
    have hhalf : ((Numeral.wordCount : ℤ) + 1) / 2 = Numeral.signedBound := by decide
    omega
  · intro h
    have hlow : -(Numeral.signedBound : ℤ) ≤ n := by omega
    exact Numeral.lowBits_of_isWord (Numeral.isWord_iff.2 ⟨hlow, by omega⟩)

/-- What becomes of a whole number or a text. -/
theorem constant_of_isNumeral {tag : String} {y : Yaml} {v : Value} (hy : y.IsNumeral)
    (h : constant tag y = .ok v) :
    ∃ q q', y.numeral? = some q ∧ v = .rational q' ∧ (q' = q ↔ ¬y.Overflows) ∧
      ∀ n, y = .word n → q' = (n : ℤ).bmod Numeral.wordCount := by
  cases hy with
  | word n =>
      cases h
      refine ⟨n, _, rfl, rfl, ?_, fun m hm ↦ ?_⟩
      · rw [Yaml.overflows_word, Nat.not_le, ← lowBits_eq_self_iff]
        norm_cast
      · cases hm
        rfl
  | int n =>
      cases h
      exact ⟨n, n, rfl, rfl, iff_of_true rfl (by rintro ⟨⟩), by rintro _ ⟨⟩⟩
  | text s =>
      rw [constant] at h
      cases hs : Numeral.readRat? s with
      | none => simp [hs] at h
      | some q =>
          obtain rfl : Value.rational q = v := by simpa [hs] using h
          exact ⟨q, q, hs, rfl, iff_of_true rfl (by rintro ⟨⟩), by rintro _ ⟨⟩⟩

/-- A constant that is a whole number or the text of a number keeps its value, unless it is an
unsigned word past the signed ones; then it is the signed word of the same bits. A node with its tag
is lowered to that number, unless the tag is that of a leaf. -/
theorem lower_of_ofSections (hnames : (entries.map Prod.fst).Nodup)
    (ht : ofSections entries operators = .ok t) {tag : String} {y : Yaml}
    (hy : (tag, y) ∈ entries) (hnumeral : y.IsNumeral) : ∃ q q' : Rat,
      y.numeral? = some q ∧ t.constants.get? tag = some (.rational q') ∧
      (q' = q ↔ ¬y.Overflows) ∧
      (∀ n, y = .word n → q' = (n : ℤ).bmod Numeral.wordCount) ∧
      (∀ z : ℤ, y = Yaml.resolve (toString z) → q = z ∧
        (y.Overflows ↔ (Numeral.signedBound : ℤ) ≤ z ∧ z < Numeral.wordCount)) ∧
      (∀ (z : ℤ) (d : ℕ), d ≠ 0 → y = Yaml.resolve (toString z ++ "/" ++ toString d) →
        q' = mkRat z d) ∧
      ∀ n maxDepth, n.tag = .ok tag →
        Lowering.lower (optionsWith t.overrides).rules maxDepth n =
          if tag ∈ Lowering.leafTags then Lowering.lower .builtin maxDepth n
          else .ok (.lit (.rational q')) := by
  obtain ⟨v, hv, hget, hrules⟩ := get?_of_ofSections hnames ht hy
  obtain ⟨q, q', hq, rfl, hexact, hword⟩ := constant_of_isNumeral hnumeral hv
  refine ⟨q, q', hq, hget, hexact, hword, ?_, ?_, fun n maxDepth hn ↦ ?_⟩
  · rintro z rfl
    rw [Yaml.numeral?_resolve_toString] at hq
    exact ⟨(Option.some.inj hq).symm, Yaml.overflows_resolve_toString z⟩
  · rintro z d hd rfl
    rw [Yaml.resolve_fraction] at hq hexact
    rw [hexact.2 (by rintro ⟨⟩)]
    exact Option.some.inj (hq.symm.trans (Numeral.readRat?_fraction z hd))
  · split
    · rename_i htag
      exact Lowering.lower_of_mem_leafTags hn htag _ _ maxDepth
    · rename_i htag
      exact Lowering.lower_of_get? hn htag hrules maxDepth

/-- So it is with the constants in the sections of a table file. -/
theorem lower_of_parse {s : String} {t : TablesFile} (ht : parse s = .ok t) :
    ∃ entries operators, sections? s = some (entries, operators) ∧
      ∀ tag y, (tag, y) ∈ entries → y.IsNumeral → ∃ q q' : Rat,
        y.numeral? = some q ∧ t.constants.get? tag = some (.rational q') ∧
        (q' = q ↔ ¬y.Overflows) ∧
        (∀ n, y = .word n → q' = (n : ℤ).bmod Numeral.wordCount) ∧
        (∀ z : ℤ, y = Yaml.resolve (toString z) → q = z ∧
          (y.Overflows ↔ (Numeral.signedBound : ℤ) ≤ z ∧ z < Numeral.wordCount)) ∧
        (∀ (z : ℤ) (d : ℕ), d ≠ 0 → y = Yaml.resolve (toString z ++ "/" ++ toString d) →
          q' = mkRat z d) ∧
        ∀ n maxDepth, n.tag = .ok tag →
          Lowering.lower (optionsWith t.overrides).rules maxDepth n =
            if tag ∈ Lowering.leafTags then Lowering.lower .builtin maxDepth n
            else .ok (.lit (.rational q')) := by
  obtain ⟨entries, operators, hsections, hnames, ht⟩ := exists_sections_of_parse ht
  exact ⟨entries, operators, hsections, fun tag y ↦ lower_of_ofSections hnames ht⟩

/-- A table file with the largest word for a constant. -/
def largestWord : String := "constants:\n  Big: 18446744073709551615\n"

/-- The file holds the largest unsigned word. -/
theorem sections?_largestWord : ∃ entries operators y,
    sections? largestWord = some (entries, operators) ∧ ("Big", y) ∈ entries ∧
      y.numeral? = some 18446744073709551615 := by
  have hnumeral : ((sections? largestWord).bind fun r ↦
      (Table.get? r.1 "Big").bind Yaml.numeral?) = some 18446744073709551615 := by
    decide +kernel
  obtain ⟨⟨entries, operators⟩, hsections, h⟩ := Option.bind_eq_some_iff.1 hnumeral
  obtain ⟨y, hy, hq⟩ := Option.bind_eq_some_iff.1 h
  exact ⟨entries, operators, y, hsections, Table.mem_of_get? hy, hq⟩

/-- The largest unsigned word comes out as minus one. -/
theorem parse_largestWord : ∃ t, parse largestWord = .ok t ∧
    (t.constants.get? "Big").bind Value.rat? = some (-1) := by
  have hvalue : ((parse largestWord).toOption.bind fun t ↦
      (t.constants.get? "Big").bind Value.rat?) = some (-1) := by
    decide +kernel
  obtain ⟨t, ht, h⟩ := Option.bind_eq_some_iff.1 hvalue
  cases hparse : parse largestWord with
  | error e => simp [hparse, Except.toOption] at ht
  | ok t' =>
      obtain rfl : t' = t := by simpa [hparse, Except.toOption] using ht
      exact ⟨t', rfl, h⟩

theorem lower_of_parse_largestWord : ∃ t q', parse largestWord = .ok t ∧
    t.constants.get? "Big" = some (.rational q') ∧
    Lowering.lower (optionsWith t.overrides).rules 5
      (.foreign ⟨"Big", "", {}, none, none⟩ []) = .ok (.lit (.rational q')) := by
  obtain ⟨t, ht, -⟩ := parse_largestWord
  obtain ⟨entries, operators, y, hsections, hy, hq⟩ := sections?_largestWord
  obtain ⟨entries', operators', hsections', hall⟩ := lower_of_parse ht
  obtain ⟨rfl, rfl⟩ := Prod.mk.inj (Option.some.inj (hsections.symm.trans hsections'))
  obtain ⟨_, q', -, hget, -, -, -, -, hlower⟩ := hall "Big" y hy (Yaml.isNumeral_of_numeral? hq)
  exact ⟨t, q', ht, hget, hlower _ 5 rfl⟩

/-- The largest word comes out as minus one. -/
theorem exists_constant_ne : ∃ t entries operators y, parse largestWord = .ok t ∧
    sections? largestWord = some (entries, operators) ∧ ("Big", y) ∈ entries ∧
    y.numeral? = some 18446744073709551615 ∧ t.constants.get? "Big" = some (.rational (-1)) := by
  obtain ⟨t, ht, h⟩ := parse_largestWord
  obtain ⟨entries, operators, y, hsections, hy, hq⟩ := sections?_largestWord
  obtain ⟨entries', operators', hsections', hnames, ht'⟩ := exists_sections_of_parse ht
  obtain ⟨rfl, rfl⟩ := Prod.mk.inj (Option.some.inj (hsections.symm.trans hsections'))
  obtain ⟨v, hv, hget, -⟩ := get?_of_ofSections hnames ht' hy
  obtain ⟨_, q', -, rfl, -⟩ := constant_of_isNumeral (Yaml.isNumeral_of_numeral? hq) hv
  rw [hget] at h
  obtain rfl : q' = -1 := Option.some.inj h
  exact ⟨t, entries, operators, y, ht, hsections, hy, hq, hget⟩

end Configuration.TablesFile

end ExprCompiler
