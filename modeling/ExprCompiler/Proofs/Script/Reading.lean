import ExprCompiler.Proofs.Script.Tokens
import ExprCompiler.Script.Emit
import ExprCompiler.Script.Reader
import Mathlib.Data.List.Forall2

/-!
# Reading scripts back

An operand of a script is read as a term if, wherever an operand may stand, the reader comes from
its text to the term, whatever waits for the term and whatever follows. Groups, chains, calls and
choices of operands are operands again. Main statement: a script with an operand for its body is
read as the term of the operand (`Script.read?_source`).
-/

namespace ExprCompiler.Script

variable {formals : List String} {mode : Mode} {fs : List Frame} {rest : List Char}

/-! ## Reading characters -/

/-- Reads an expression from its characters. -/
def readText? (formals : List String) (mode : Mode) (fs : List Frame) (cs : List Char) :
    Option (Term × List Token) :=
  (tokens? cs).bind (readBody? formals mode fs)

/-- Where a token is cut off a text, the text is read on after it. -/
theorem readText?_of_step {token : Token} (next : Mode) (fs' : List Frame) {cs : List Char}
    (hcut : tokens? cs = (tokens? rest).map (token :: ·)) (hfinish : finish? mode fs token = none)
    (hstep : step formals mode fs token = some (next, fs')) :
    readText? formals mode fs cs = readText? formals next fs' rest := by
  rw [readText?, readText?, hcut]
  cases tokens? rest with
  | none => rfl
  | some ts =>
      rw [Option.map_some, Option.bind_some, readBody?, hfinish, hstep]
      rfl

theorem readText?_blank {c : Char} (h : isBlank c = true) (rest : List Char) :
    readText? formals mode fs (c :: rest) = readText? formals mode fs rest := by
  rw [readText?, tokens?_blank h, readText?]

theorem readText?_bracket {c : Char} (next : Mode) (fs' : List Frame) (h : isBracket c = true)
    (hfinish : finish? mode fs (.bracket c) = none)
    (hstep : step formals mode fs (.bracket c) = some (next, fs')) (rest : List Char) :
    readText? formals mode fs (c :: rest) = readText? formals next fs' rest :=
  readText?_of_step next fs' (tokens?_bracket h rest) hfinish hstep

/-! ## Operands -/

/-- The text is read as the term wherever an operand is due. -/
def Reads (formals : List String) (s : String) (t : Term) : Prop :=
  ∀ fs rest, Ends rest →
    readText? formals .operand fs (s.toList ++ rest) = readText? formals (.operator t) fs rest

theorem ends_cons {c : Char} (h : c = ' ' ∨ c = ')' ∨ c = ',' ∨ c = ';') (rest : List Char) :
    Ends (c :: rest) := by
  rintro d ⟨⟩
  exact h

theorem Ends.not_word (h : Ends rest) : ∀ c ∈ rest.head?, isWordChar c = false := by
  intro c hc
  rcases h c hc with rfl | rfl | rfl | rfl
  all_goals rfl

theorem Ends.not_sign (h : Ends rest) : ∀ c ∈ rest.head?, isSign c = false := by
  intro c hc
  rcases h c hc with rfl | rfl | rfl | rfl
  all_goals rfl

/-- A name is read as the operand that it stands for. -/
theorem Reads.name {s : String} {t : Term} (hname : isName s = true)
    (h : modeOfName? formals s = some (.operator t)) : Reads formals s t := by
  intro fs rest hrest
  refine readText?_of_step _ _ (tokens?_name hname hrest.not_word) rfl ?_
  rw [step, stepOperand, h]
  rfl

/-- A numeral is read as its double. -/
theorem Reads.numeral {c : Char} {cs : List Char} (hdigit : c.isDigit = true)
    (h : Json.isNumberText (c :: cs) = true) :
    Reads formals (String.ofList (c :: cs)) (.number (Numeral.decimal (c :: cs))) := by
  intro fs rest hrest
  rw [String.toList_ofList]
  exact readText?_of_step _ _ (tokens?_numeral hdigit h hrest) rfl rfl

theorem toList_grouped_append (s : String) (rest : List Char) :
    (grouped s).toList ++ rest = '(' :: (s.toList ++ ')' :: rest) := by
  simp [grouped]

/-- A group stands for what is in it. -/
theorem Reads.grouped {s : String} {t : Term} (h : Reads formals s t) :
    Reads formals (grouped s) t := by
  intro fs rest _
  rw [toList_grouped_append,
    readText?_bracket .operand (.group :: fs) rfl rfl rfl,
    h _ _ (ends_cons (by simp) _)]
  exact readText?_bracket _ _ rfl rfl rfl rest

/-! ## Signs before an operand -/

/-- A frame that binds at least as tightly is completed. -/
theorem reduce_cons {level : Nat} {f : Frame} (h : level ≤ f.level) (fs : List Frame) (t : Term) :
    reduce level (f :: fs) t = reduce level fs (f.complete t) := if_pos h

/-- Binary operators bind tighter than a choice and looser than a sign. -/
theorem Operator.level_bounds (op : Operator) : 2 ≤ op.level ∧ op.level ≤ 7 := by
  cases op with
  | chain op => cases op <;> decide
  | _ => decide

/-- A sign before an operand binds it more strongly than anything behind it. -/
theorem readText?_signed {f : Frame} (hf : f.level = 8) (t : Term) (fs : List Frame)
    (rest : List Char) :
    readText? formals (.operator t) (f :: fs) rest =
      readText? formals (.operator (f.complete t)) fs rest := by
  have hone : reduce 1 (f :: fs) t = reduce 1 fs (f.complete t) := reduce_cons (by omega) fs t
  have htwo : reduce 2 (f :: fs) t = reduce 2 fs (f.complete t) := reduce_cons (by omega) fs t
  have hop (op : Operator) : reduce op.level (f :: fs) t = reduce op.level fs (f.complete t) := by
    have := op.level_bounds
    exact reduce_cons (by omega) fs t
  have hstep (token : Token) :
      stepOperator (f :: fs) t token = stepOperator fs (f.complete t) token := by
    unfold stepOperator
    simp only [hone, htwo, hop]
  have hfinish (token : Token) :
      finish? (.operator t) (f :: fs) token = finish? (.operator (f.complete t)) fs token := by
    simp only [finish?, hone]
  rw [readText?, readText?]
  congr 1
  funext ts
  cases ts with
  | nil => rfl
  | cons token ts => rw [readBody?, readBody?, hfinish, step, step, hstep]

theorem head?_append_not_sign {s : List Char} (hlead : ∀ c ∈ s.head?, isSign c = false)
    (hrest : Ends rest) : ∀ c ∈ (s ++ rest).head?, isSign c = false := by
  cases s with
  | nil => exact hrest.not_sign
  | cons c s => exact hlead

/-- A sign before an operand that does not begin with a sign itself. -/
theorem Reads.behind {sign s : String} {token : Token} {f : Frame} {t : Term}
    (hsigns : isSigns sign = true) (htoken : tokenOfSigns? sign = some token) (hf : f.level = 8)
    (hstep : ∀ fs, step formals .operand fs token = some (.operand, f :: fs))
    (hlead : ∀ c ∈ s.toList.head?, isSign c = false) (h : Reads formals s t) :
    Reads formals (sign ++ s) (f.complete t) := by
  intro fs rest hrest
  have hcut := tokens?_signs hsigns htoken (head?_append_not_sign hlead hrest)
  rw [String.toList_append, List.append_assoc,
    readText?_of_step .operand (f :: fs) hcut rfl (hstep fs), h _ _ hrest]
  exact readText?_signed hf t fs rest

theorem Reads.neg {s : String} {t : Term} (hlead : ∀ c ∈ s.toList.head?, isSign c = false)
    (h : Reads formals s t) : Reads formals ("-" ++ s) (.neg t) :=
  .behind (f := .neg) rfl rfl rfl (fun _ ↦ rfl) hlead h

theorem Reads.not {s : String} {t : Term} (hlead : ∀ c ∈ s.toList.head?, isSign c = false)
    (h : Reads formals s t) : Reads formals ("!" ++ s) (.not t) :=
  .behind (f := .not) rfl rfl rfl (fun _ ↦ rfl) hlead h

/-- A number with a sign of its own. -/
def Term.signed (negative : Bool) (x : Float) : Term :=
  if negative then .neg (.number x) else .number x

/-- A spelling is read as a number behind its sign. -/
theorem Reads.signed (negative : Bool) (s : Numeral.Spelling) (width : Nat) :
    Reads formals (Numeral.signed negative (s.chars width))
      (.signed negative (Numeral.decimal (s.chars width))) := by
  obtain ⟨c, cs, hchars, hc⟩ := s.exists_chars_eq width
  have htext := s.isNumberText_signed width false
  rw [Numeral.signed, String.toList_ofList, if_neg Bool.false_ne_true, hchars] at htext
  have hnumeral : Reads formals _ _ := .numeral hc htext
  rw [hchars]
  cases negative with
  | false => exact hnumeral
  | true =>
      have hlead : ∀ d ∈ (String.ofList (c :: cs)).toList.head?, isSign d = false := by
        rw [String.toList_ofList]
        rintro d ⟨⟩
        obtain ⟨d, hd, rfl⟩ := Numeral.exists_digitChar hc
        interval_cases d <;> rfl
      have htext : Numeral.signed true (c :: cs) = "-" ++ String.ofList (c :: cs) := by
        rw [Numeral.signed, if_pos rfl, ← String.toList_inj]
        simp
      rw [htext]
      exact hnumeral.neg hlead

theorem Reads.int (z : Int) :
    Reads formals (toString z) (.signed (z < 0) (Numeral.nearestQuotient z.natAbs 1)) := by
  have htext : toString z =
      Numeral.signed (z < 0) ((Numeral.Spelling.ofNat z.natAbs).chars 0) := by
    rw [← String.toList_inj, Numeral.toList_toString_int, Numeral.signed, String.toList_ofList,
      Numeral.Spelling.chars_ofNat]
    by_cases hz : z < 0 <;> simp [hz]
  rw [htext, ← Numeral.decimal_toDigits, ← Numeral.Spelling.chars_ofNat _ 0]
  exact .signed _ _ _

theorem Reads.nat (n : Nat) :
    Reads formals (toString n) (.number (Numeral.nearestQuotient n 1)) := by
  have htext : toString n = Numeral.signed false ((Numeral.Spelling.ofNat n).chars 0) := by
    rw [← String.toList_inj, Numeral.signed, String.toList_ofList, Numeral.Spelling.chars_ofNat]
    simp
  rw [htext, ← Numeral.decimal_toDigits, ← Numeral.Spelling.chars_ofNat _ 0]
  exact .signed false _ _

/-! ## Chains -/

/-- Texts with a separator before each of them. -/
def separated (sep : String) (ss : List String) : List Char :=
  ss.flatMap fun s ↦ sep.toList ++ s.toList

theorem toList_intercalate_cons (sep s : String) (ss : List String) :
    (sep.intercalate (s :: ss)).toList = s.toList ++ separated sep ss := by
  induction ss generalizing s with
  | nil => simp [separated]
  | cons s' ss ih =>
      rw [String.intercalate_cons_cons, String.toList_append, String.toList_append, ih]
      simp [separated]

/-- Behind an operand there is a separator or the end of the group. -/
theorem ends_separated {sep : String} (hsep : ∃ c cs, sep.toList = c :: cs ∧ (c = ' ' ∨ c = ','))
    (ss : List String) (rest : List Char) : Ends (separated sep ss ++ ')' :: rest) := by
  obtain ⟨c, cs, hsep, hc⟩ := hsep
  cases ss with
  | nil => exact ends_cons (by simp) rest
  | cons s ss =>
      rw [separated, List.flatMap_cons, hsep]
      exact ends_cons (by tauto) _

theorem ends_operands (op : Operator) (ss : List String) (rest : List Char) :
    Ends (separated (" " ++ op.symbol ++ " ") ss ++ ')' :: rest) :=
  ends_separated ⟨' ', (op.symbol ++ " ").toList, by simp, .inl rfl⟩ ss rest

theorem ends_arguments (ss : List String) (rest : List Char) :
    Ends (separated ", " ss ++ ')' :: rest) :=
  ends_separated ⟨',', [' '], rfl, .inr rfl⟩ ss rest

/-- A group is not completed by operators. -/
theorem reduce_group {level : Nat} (h : 1 ≤ level) (fs : List Frame) (t : Term) :
    reduce level (.group :: fs) t = (.group :: fs, t) := by
  rw [reduce, if_neg]
  exact Nat.not_le_of_gt h

/-- An operator between two operands, with blanks around it. -/
theorem readText?_operator (op : Operator) (t : Term) (fs : List Frame) (rest : List Char) :
    readText? formals (.operator t) fs ((" " ++ op.symbol ++ " ").toList ++ rest) =
      readText? formals .operand (.binary op (reduce op.level fs t).2 :: (reduce op.level fs t).1)
        rest := by
  have hcut : tokens? (op.symbol.toList ++ ' ' :: rest) =
      (tokens? (' ' :: rest)).map (.operator op :: ·) :=
    tokens?_operator op (by rintro c ⟨⟩; rfl)
  have hchars : (" " ++ op.symbol ++ " ").toList ++ rest =
      ' ' :: (op.symbol.toList ++ ' ' :: rest) := by simp
  rw [hchars, readText?_blank rfl, readText?_of_step _ _ hcut rfl rfl, readText?_blank rfl]

/-- Operands behind an operand in a group are taken in from the left. -/
theorem readText?_chain (op : Operator) {ss : List String} {ts : List Term}
    (h : List.Forall₂ (Reads formals) ss ts) {fs' : List Frame} {acc t : Term}
    (hop : reduce op.level fs' t = (.group :: fs, acc))
    (hclose : reduce 1 fs' t = (.group :: fs, acc)) (rest : List Char) :
    readText? formals (.operator t) fs'
        (separated (" " ++ op.symbol ++ " ") ss ++ ')' :: rest) =
      readText? formals (.operator (ts.foldl (.binary op) acc)) fs rest := by
  induction h generalizing acc t fs' with
  | nil =>
      refine readText?_bracket _ _ rfl rfl ?_ rest
      simp [step, stepOperator, hclose]
  | @cons s u ss ts hs h ih =>
      have hlevel := op.level_bounds
      have hreduce {level : Nat} (hle : level ≤ op.level) (hpos : 1 ≤ level) :
          reduce level (.binary op acc :: .group :: fs) u =
            (.group :: fs, .binary op acc u) := by
        rw [reduce_cons (by exact hle)]
        exact reduce_group hpos fs _
      rw [separated, List.flatMap_cons, ← separated, List.append_assoc, List.append_assoc,
        readText?_operator, hop, hs _ _ (ends_operands op ss rest)]
      exact ih (hreduce le_rfl (by omega)) (hreduce (by omega) le_rfl)

/-- A chain of operands is taken in from the left. -/
theorem Reads.chained (op : Operator) {s : String} {t : Term} {ss : List String} {ts : List Term}
    (h : Reads formals s t) (hs : List.Forall₂ (Reads formals) ss ts) :
    Reads formals (chained op (s :: ss)) (ts.foldl (.binary op) t) := by
  intro fs rest _
  have hlevel := op.level_bounds
  rw [Script.chained, toList_grouped_append, toList_intercalate_cons, List.append_assoc,
    readText?_bracket .operand (.group :: fs) rfl rfl rfl,
    h _ _ (ends_operands op ss rest)]
  exact readText?_chain op hs (reduce_group (by omega) fs t) (reduce_group le_rfl fs t) rest

/-! ## Calls -/

/-- Where a comma leads on, the next argument is read before what is behind it. -/
theorem readText?_comma (fs' : List Frame) {s : String} {t : Term} (hs : Reads formals s t)
    (hfinish : finish? mode fs (.bracket ',') = none)
    (hstep : step formals mode fs (.bracket ',') = some (.operand, fs')) (ss : List String)
    (rest : List Char) :
    readText? formals mode fs (separated ", " (s :: ss) ++ ')' :: rest) =
      readText? formals (.operator t) fs' (separated ", " ss ++ ')' :: rest) := by
  have hchars : separated ", " (s :: ss) ++ ')' :: rest =
      ',' :: ' ' :: (s.toList ++ (separated ", " ss ++ ')' :: rest)) := by
    simp [separated]
  rw [hchars, readText?_bracket .operand fs' rfl hfinish hstep, readText?_blank rfl,
    hs _ _ (ends_arguments ss rest)]

/-- Arguments behind an argument are taken in up to the end of the call. -/
theorem readText?_arguments (f : Callee) {ss : List String} {ts : List Term}
    (h : List.Forall₂ (Reads formals) ss ts) (t : Term) (acc : List Term) (fs : List Frame)
    (rest : List Char) :
    readText? formals (.operator t) (.call f acc :: fs) (separated ", " ss ++ ')' :: rest) =
      readText? formals (.operator (.call f (acc.reverse ++ t :: ts))) fs rest := by
  induction h generalizing acc t with
  | nil =>
      refine readText?_bracket _ _ rfl rfl ?_ rest
      simp [step, stepOperator, reduce, Frame.level]
  | @cons s u ss ts hs h ih =>
      rw [readText?_comma (.call f (t :: acc) :: fs) hs rfl rfl ss rest, ih]
      simp

/-- A call of what a name stands for. -/
theorem Reads.applied {f : String} {g : Callee} (hname : isName f = true)
    (hf : modeOfName? formals f = some (.arguments g)) {ss : List String} {ts : List Term}
    (h : List.Forall₂ (Reads formals) ss ts) : Reads formals (applied f ss) (.call g ts) := by
  intro fs rest _
  have hopen (cs : List Char) : readText? formals .operand fs (f.toList ++ '(' :: cs) =
      readText? formals .operand (.call g [] :: fs) cs := by
    have hstep : step formals .operand fs (.name f) = some (.arguments g, fs) := by
      rw [step, stepOperand, hf]
      rfl
    rw [readText?_of_step _ _ (tokens?_name hname (by rintro c ⟨⟩; rfl)) rfl hstep]
    exact readText?_bracket _ _ rfl rfl rfl cs
  rw [Script.applied, String.toList_append, List.append_assoc, toList_grouped_append, hopen]
  cases h with
  | nil => exact readText?_bracket _ _ rfl rfl rfl rest
  | @cons s t ss ts hs h =>
      rw [toList_intercalate_cons, List.append_assoc, hs _ _ (ends_arguments ss rest)]
      exact readText?_arguments g h t [] fs rest

/-- A call of what its first argument names. -/
theorem Reads.named {f : String} {g : String → Callee} (hname : isName f = true)
    (hf : modeOfName? formals f = some (.naming g)) (name : String) {ss : List String}
    {ts : List Term} (h : List.Forall₂ (Reads formals) ss ts) :
    Reads formals (Script.applied f (Text.quoteAscii name :: ss))
      (.call (g (Text.reread name)) ts) := by
  intro fs rest _
  have hstep : step formals .operand fs (.name f) = some (.naming g, fs) := by
    rw [step, stepOperand, hf]
    rfl
  rw [Script.applied, String.toList_append, List.append_assoc, toList_grouped_append,
    readText?_of_step _ _ (tokens?_name hname (by rintro c ⟨⟩; rfl)) rfl hstep,
    readText?_bracket (.name g) fs rfl rfl rfl, toList_intercalate_cons,
    List.append_assoc,
    readText?_of_step .named (.call (g (Text.reread name)) [] :: fs)
      (tokens?_quoteAscii name _) rfl rfl]
  cases h with
  | nil => exact readText?_bracket _ _ rfl rfl rfl rest
  | @cons s t ss ts hs h =>
      rw [readText?_comma (.call (g (Text.reread name)) [] :: fs) hs rfl rfl ss rest]
      exact readText?_arguments _ h t [] fs rest

/-! ## Choices -/

/-- The term of a condition. -/
def Term.truth (t : Term) : Term := .binary .different (.call .toNumber [t]) (.number 0)

section Choice

variable (hnumber : modeOfName? formals "Number" = some (.arguments .toNumber))

include hnumber

theorem Reads.toNumber {s : String} {t : Term} (h : Reads formals s t) :
    Reads formals (Script.applied "Number" [s]) (.call .toNumber [t]) :=
  .applied rfl hnumber (.cons h .nil)

/-- A truth test is read as a comparison with zero. -/
theorem Reads.truth {s : String} {t : Term} (h : Reads formals s t) :
    Reads formals (truthText s) t.truth := by
  have hzero : Reads formals "0" (.number 0) := .nat 0
  exact .chained .different (h.toNumber hnumber) (.cons hzero .nil)

/-- A choice between two operands. -/
theorem Reads.branch {v c w : String} {tv tc tw : Term} (hv : Reads formals v tv)
    (hc : Reads formals c tc) (hw : Reads formals w tw) :
    Reads formals (branchText v c w) (.choice tc.truth tv tw) := by
  intro fs rest _
  have hchars : (truthText c ++ " ? " ++ v ++ " : " ++ w).toList ++ ')' :: rest =
      (truthText c).toList ++ ' ' :: '?' :: ' ' :: (v.toList ++ ' ' :: ':' :: ' ' ::
        (w.toList ++ ')' :: rest)) := by
    simp
  have hsign (c : Char) (hc : c = '?' ∨ c = ':') (cs : List Char) :
      tokens? (c :: ' ' :: cs) = (tokens? (' ' :: cs)).map (.sign c :: ·) := by
    rcases hc with rfl | rfl
    · exact tokens?_signs (s := "?") rfl rfl (by rintro c ⟨⟩; rfl)
    · exact tokens?_signs (s := ":") rfl rfl (by rintro c ⟨⟩; rfl)
  rw [branchText, toList_grouped_append, hchars,
    readText?_bracket .operand (.group :: fs) rfl rfl rfl,
    hc.truth hnumber _ _ (ends_cons (by simp) _), readText?_blank rfl,
    readText?_of_step .operand (.test tc.truth :: .group :: fs)
      (hsign '?' (by simp) _) rfl rfl,
    readText?_blank rfl, hv _ _ (ends_cons (by simp) _), readText?_blank rfl,
    readText?_of_step .operand (.choice tc.truth tv :: .group :: fs)
      (hsign ':' (by simp) _) rfl rfl,
    readText?_blank rfl, hw _ _ (ends_cons (by simp) _)]
  exact readText?_bracket _ _ rfl rfl rfl rest

end Choice

/-! ## Names of scripts -/

/-- The names of so many parameters. -/
def formalNames (count : Nat) : List String := (List.range count).map parameterName

theorem toList_parameterName (i : Nat) :
    (parameterName i).toList = 'p' :: Nat.toDigits 10 i := by
  simp [parameterName]

theorem isName_parameterName (i : Nat) : isName (parameterName i) = true := by
  have hdigits : (Nat.toDigits 10 i).all isWordChar = true := by
    rw [List.all_eq_true]
    intro c hc
    simp [isWordChar, Numeral.isDigit_toDigits i c hc]
  rw [isName, isRun, toList_parameterName]
  simp [hdigits, isWordStart]

/-- Parameters have different names. -/
theorem parameterName_inj {i j : Nat} (h : parameterName i = parameterName j) : i = j := by
  have hdigits := congrArg String.toList h
  rw [toList_parameterName, toList_parameterName] at hdigits
  have hvalue := congrArg (Nat.ofDigitChars 10 · 0) (List.cons.inj hdigits).2
  simpa [Nat.ofDigitChars_ten_toDigits] using hvalue

/-- A parameter of a script is read as its position. -/
theorem Reads.param {count i : Nat} (h : i < count) :
    Reads (formalNames count) (parameterName i) (.param i) := by
  refine .name (isName_parameterName i) ?_
  have hindex : (formalNames count).idxOf? (parameterName i) = some i := by
    rw [List.idxOf?_eq_some_iff]
    refine ⟨by simpa [formalNames] using h, by simp [formalNames], ?_⟩
    intro j hj
    simp only [formalNames, List.getElem_map, List.getElem_range]
    intro heq
    exact absurd (parameterName_inj heq) (by omega)
  rw [modeOfName?, hindex]

/-- Names that do not begin like those of parameters are those of the engine. -/
theorem modeOfName?_formalNames (count : Nat) {s : String} (h : s.toList.head? ≠ some 'p') :
    modeOfName? (formalNames count) s = globalMode? s := by
  have hindex : (formalNames count).idxOf? s = none := by
    rw [List.idxOf?_eq_none_iff, formalNames, List.mem_map]
    rintro ⟨i, -, rfl⟩
    rw [toList_parameterName] at h
    exact h rfl
  rw [modeOfName?, hindex]

/-! ## Emitted operands -/

/-- The text is read as the term wherever an operand is due, and begins with no sign. -/
structure Operand (formals : List String) (s : String) (t : Term) : Prop where
  reads : Reads formals s t
  lead : ∀ c ∈ s.toList.head?, isSign c = false

theorem Operand.grouped {s : String} {t : Term} (h : Reads formals (grouped s) t) :
    Operand formals (Script.grouped s) t := by
  refine ⟨h, ?_⟩
  have hchars := toList_grouped_append s []
  rw [List.append_nil] at hchars
  rw [hchars]
  rintro c ⟨⟩
  rfl

theorem lead_append_of_isName {f : String} (hname : isName f = true) (s : String) :
    ∀ c ∈ (f ++ s).toList.head?, isSign c = false := by
  obtain ⟨c, cs, hf, hc, -⟩ := exists_of_isRun hname
  rw [String.toList_append, hf]
  rintro d ⟨⟩
  exact isSign_of_isWordStart hc

theorem Operand.name {s : String} {t : Term} (hname : isName s = true) (h : Reads formals s t) :
    Operand formals s t := by
  refine ⟨h, ?_⟩
  have hlead := lead_append_of_isName hname ""
  rwa [String.append_empty] at hlead

theorem Operand.applied {f : String} (hname : isName f = true) {ss : List String} {t : Term}
    (h : Reads formals (applied f ss) t) : Operand formals (Script.applied f ss) t :=
  ⟨h, lead_append_of_isName hname _⟩

/-! ## Scripts -/

/-- The tokens of the names of parameters, up to the bracket behind them. -/
def formalTokens : List String → List Token
  | [] => [.bracket ')']
  | [s] => [.name s, .bracket ')']
  | s :: s' :: ss => .name s :: .bracket ',' :: formalTokens (s' :: ss)

/-- The tokens of formal parameters are read back. -/
theorem readFormals?_formalTokens (ss : List String) (ts : List Token) :
    readFormals? (formalTokens ss ++ ts) = some (ss, ts) := by
  induction ss using formalTokens.induct with
  | case1 => rfl
  | case2 s => rfl
  | case3 s s' ss ih =>
      rw [formalTokens, List.cons_append, List.cons_append, readFormals?, ih]
      rfl

/-- Formal parameters are split into names and commas. -/
theorem tokens?_formals {ss : List String} (h : ∀ s ∈ ss, isName s = true) (rest : List Char) :
    tokens? ((", ".intercalate ss).toList ++ ')' :: rest) =
      (tokens? rest).map (formalTokens ss ++ ·) := by
  induction ss using formalTokens.induct with
  | case1 => exact tokens?_bracket rfl rest
  | case2 s =>
      have hs := h s (by simp)
      rw [String.intercalate_singleton, tokens?_name hs (by rintro c ⟨⟩; rfl), tokens?_bracket rfl,
        Option.map_map]
      rfl
  | case3 s s' ss ih =>
      obtain ⟨hs, hss⟩ := List.forall_mem_cons.1 h
      have hchars : (", ".intercalate (s :: s' :: ss)).toList ++ ')' :: rest =
          s.toList ++ ',' :: ' ' :: ((", ".intercalate (s' :: ss)).toList ++ ')' :: rest) := by
        rw [String.intercalate_cons_cons]
        simp
      rw [hchars, tokens?_name hs (by rintro c ⟨⟩; rfl), tokens?_bracket rfl, tokens?_blank rfl,
        ih hss, Option.map_map, Option.map_map]
      rfl

/-- A script is read as the term of its body. -/
theorem read?_source {count : Nat} {body : String} {t : Term}
    (h : Reads (formalNames count) body t) : read? (source count body) = some t := by
  have hformals : ∀ s ∈ formalNames count, isName s = true := by
    simp [formalNames, isName_parameterName]
  have hbody : (tokens? (body.toList ++ [';', '\n', '\x7d', ')'])).bind
      (readBody? (formalNames count) .operand []) =
        some (t, [.bracket '\x7d', .bracket ')']) := h [] _ (ends_cons (by simp) _)
  obtain ⟨ts, hts, hread⟩ := Option.bind_eq_some_iff.1 hbody
  have hquoted : Text.quoteAscii "use strict" = "\"use strict\"" := by decide
  have hreread : Text.reread "use strict" = "use strict" := by decide
  have hchars : (source count body).toList =
      '(' :: ("function".toList ++ '(' :: ((", ".intercalate (formalNames count)).toList ++
        ')' :: ' ' :: '\x7b' :: '\n' :: '\t' :: ((Text.quoteAscii "use strict").toList ++
          ';' :: '\n' :: '\t' :: ("return".toList ++ ' ' ::
            (body.toList ++ [';', '\n', '\x7d', ')']))))) := by
    rw [hquoted]
    simp [source, formalNames]
  have hname (s : String) (c : Char) (cs : List Char) (hs : isName s = true)
      (hc : isWordChar c = false) :
      tokens? (s.toList ++ c :: cs) = (tokens? (c :: cs)).map (.name s :: ·) :=
    tokens?_name hs (by rintro d ⟨⟩; exact hc)
  rw [read?, hchars, tokens?_bracket rfl, hname _ _ _ rfl rfl, tokens?_bracket rfl,
    tokens?_formals hformals, tokens?_blank rfl, tokens?_bracket rfl, tokens?_blank rfl,
    tokens?_blank rfl, tokens?_quoteAscii, tokens?_bracket rfl, tokens?_blank rfl,
    tokens?_blank rfl, hname _ _ _ rfl rfl, tokens?_blank rfl, hts, hreread]
  simp only [Option.map_some, Option.bind_some, readFunction?, readFormals?_formalTokens]
  simp [hread]

end ExprCompiler.Script
