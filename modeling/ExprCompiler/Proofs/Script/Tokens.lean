import ExprCompiler.Proofs.Numeral.Spelling
import ExprCompiler.Proofs.Text.Quoted
import ExprCompiler.Script.Token

/-!
# Cutting scripts into tokens

A token of a script is cut off its text as soon as the next character does not belong to it. Main
statements: names, operators, numerals and quoted literals are cut off as the tokens that they
were written for (`Script.tokens?_name`, `Script.tokens?_operator`, `Script.tokens?_numeral`,
`Script.tokens?_quoteAscii`).
-/

namespace ExprCompiler.Script

namespace Pending

/-- The token with more characters, if all of them belong to it. -/
def after? (p : Pending) (cs : List Char) : Option Pending := cs.foldlM next? p

theorem after?_cons {p q : Pending} {c : Char} (h : p.next? c = some q) (cs : List Char) :
    p.after? (c :: cs) = q.after? cs := by
  rw [after?, List.foldlM_cons, h]
  rfl

/-- A token is continued from where it stands. -/
theorem after?_append {p q : Pending} {cs : List Char} (h : p.after? cs = some q)
    (ds : List Char) : p.after? (cs ++ ds) = q.after? ds := by
  rw [after?, List.foldlM_append, ← after?, h]
  rfl

/-- A token that collects characters of one kind goes on with all of them. -/
theorem after?_collect {f : List Char → Pending} {P : Char → Prop}
    (hnext : ∀ acc c, P c → (f acc).next? c = some (f (c :: acc))) {cs : List Char}
    (h : ∀ c ∈ cs, P c) (acc : List Char) : (f acc).after? cs = some (f (cs.reverse ++ acc)) := by
  induction cs generalizing acc with
  | nil => rfl
  | cons c cs ih =>
      obtain ⟨hc, hcs⟩ := List.forall_mem_cons.1 h
      rw [after?_cons (hnext acc c hc), ih hcs, List.reverse_cons, List.append_assoc]
      rfl

/-- Characters that belong to a token are read into it. -/
theorem tokens?_append {p q : Pending} {cs : List Char} (h : p.after? cs = some q)
    (rest : List Char) : p.tokens? (cs ++ rest) = q.tokens? rest := by
  induction cs generalizing p with
  | nil =>
      cases h
      rfl
  | cons c cs ih =>
      obtain ⟨p', hnext, h⟩ := Option.bind_eq_some_iff.1 h
      rw [List.cons_append, tokens?, hnext]
      exact ih h

/-- Where nothing more belongs to a token, the text goes on as if it began there. -/
theorem tokens?_of_finish? {p : Pending} {ts : List Token} (hfinish : p.finish? = some ts)
    {rest : List Char} (hend : ∀ c ∈ rest.head?, p.next? c = none) :
    p.tokens? rest = (Script.tokens? rest).map (ts ++ ·) := by
  cases rest with
  | nil =>
      rw [tokens?, hfinish]
      simp [Script.tokens?, tokens?, finish?]
  | cons c rest =>
      rw [tokens?, hend c rfl, hfinish, Script.tokens?, tokens?]
      cases first? c with
      | none => rfl
      | some q => cases hq : q.tokens? rest <;> simp [next?, finish?, hq]

end Pending

open Pending

/-- The characters of a token are cut off the text. -/
theorem tokens?_of_after? {p q : Pending} {c : Char} {cs : List Char} {ts : List Token}
    (hfirst : first? c = some p) (hafter : p.after? cs = some q) (hfinish : q.finish? = some ts)
    {rest : List Char} (hend : ∀ d ∈ rest.head?, q.next? d = none) :
    tokens? (c :: (cs ++ rest)) = (tokens? rest).map (ts ++ ·) := by
  have hcut : tokens? (c :: (cs ++ rest)) = p.tokens? (cs ++ rest) := by
    rw [tokens?, Pending.tokens?, hfirst]
    cases hp : p.tokens? (cs ++ rest) <;> simp [next?, finish?, hp]
  rw [hcut, tokens?_append hafter, tokens?_of_finish? hfinish hend]

/-- A token of one character ends where the next does not continue it. -/
theorem tokens?_of_first? {p : Pending} {c : Char} {ts : List Token} (hfirst : first? c = some p)
    (hfinish : p.finish? = some ts) {rest : List Char}
    (hend : ∀ d ∈ rest.head?, p.next? d = none) :
    tokens? (c :: rest) = (tokens? rest).map (ts ++ ·) := by
  have hafter : p.after? [] = some p := rfl
  exact tokens?_of_after? hfirst hafter hfinish hend

/-! ## Blanks and brackets -/

theorem tokens?_blank {c : Char} (h : isBlank c = true) (rest : List Char) :
    tokens? (c :: rest) = tokens? rest := by
  have hfirst : first? c = some .nothing := by simp [first?, h]
  rw [tokens?_of_first? hfirst rfl fun _ _ ↦ rfl]
  cases tokens? rest <;> rfl

theorem tokens?_bracket {c : Char} (h : isBracket c = true) (rest : List Char) :
    tokens? (c :: rest) = (tokens? rest).map (.bracket c :: ·) := by
  have hblank : isBlank c = false := by
    simp only [isBracket, Bool.or_eq_true, beq_iff_eq] at h
    rcases h with ((((rfl | rfl) | rfl) | rfl) | rfl) | rfl
    all_goals rfl
  have hfirst : first? c = some (.bracket c) := by simp [first?, h, hblank]
  exact tokens?_of_first? hfirst rfl fun _ _ ↦ rfl

/-! ## Runs of characters -/

/-- Whether a text begins with a character of one kind and goes on with characters of another. -/
def isRun (start more : Char → Bool) (s : String) : Bool :=
  match s.toList with
  | [] => false
  | c :: cs => start c && cs.all more

/-- Whether a text is a run of signs. -/
def isSigns (s : String) : Bool := isRun isSign isSign s

/-- Whether a text is a name with the members that it selects. -/
def isName (s : String) : Bool := isRun isWordStart isWordChar s

/-- A run begins with a starting character and goes on with continuing ones. -/
theorem exists_of_isRun {start more : Char → Bool} {s : String} (h : isRun start more s = true) :
    ∃ c cs, s.toList = c :: cs ∧ start c = true ∧ ∀ d ∈ cs, more d = true := by
  rw [isRun] at h
  split at h
  · cases h
  · rename_i c cs hs
    simp only [Bool.and_eq_true, List.all_eq_true] at h
    exact ⟨c, cs, hs, h⟩

/-- A run is cut off where it does not go on, if its characters are collected in one token. -/
theorem tokens?_of_isRun {start more : Char → Bool} {f : List Char → Pending} {s : String}
    {t : Token} (h : isRun start more s = true)
    (hfirst : ∀ c, start c = true → first? c = some (f [c]))
    (hmore : ∀ acc c, more c = true → (f acc).next? c = some (f (c :: acc)))
    (hstop : ∀ acc c, more c = false → (f acc).next? c = none)
    (hfinish : (f s.toList.reverse).finish? = some [t]) {rest : List Char}
    (hend : ∀ c ∈ rest.head?, more c = false) :
    tokens? (s.toList ++ rest) = (tokens? rest).map (t :: ·) := by
  obtain ⟨c, cs, hchars, hc, hcs⟩ := exists_of_isRun h
  have hafter := after?_collect hmore hcs [c]
  rw [hchars, List.reverse_cons] at hfinish
  rw [hchars]
  refine tokens?_of_after? (hfirst c hc) hafter hfinish ?_
  intro d hd
  exact hstop _ d (hend d hd)

theorem first?_of_isSign {c : Char} (h : isSign c = true) : first? c = some (.signs [c]) := by
  simp only [isSign, List.contains_eq_mem, List.mem_cons, List.not_mem_nil, or_false,
    decide_eq_true_eq] at h
  rcases h with rfl | rfl | rfl | rfl | rfl | rfl | rfl | rfl | rfl | rfl | rfl | rfl
  all_goals rfl

theorem first?_of_isWordStart {c : Char} (h : isWordStart c = true) :
    first? c = some (.word [c]) := by
  have hblank : isBlank c = false := by
    rw [← Bool.not_eq_true]
    simp only [isBlank, Bool.or_eq_true, beq_iff_eq]
    rintro ((rfl | rfl) | rfl)
    all_goals cases h
  have hbracket : isBracket c = false := by
    rw [← Bool.not_eq_true]
    simp only [isBracket, Bool.or_eq_true, beq_iff_eq]
    rintro (((((rfl | rfl) | rfl) | rfl) | rfl) | rfl)
    all_goals cases h
  simp [first?, hblank, hbracket, h]

/-- No character begins both a name and a run of signs. -/
theorem isSign_of_isWordStart {c : Char} (h : isWordStart c = true) : isSign c = false := by
  rw [← Bool.not_eq_true]
  intro hsign
  have hfirst := (first?_of_isSign hsign).symm.trans (first?_of_isWordStart h)
  cases hfirst

/-- Signs are cut off where no further sign follows. -/
theorem tokens?_signs {s : String} {t : Token} (hs : isSigns s = true)
    (ht : tokenOfSigns? s = some t) {rest : List Char}
    (hend : ∀ c ∈ rest.head?, isSign c = false) :
    tokens? (s.toList ++ rest) = (tokens? rest).map (t :: ·) := by
  refine tokens?_of_isRun (f := .signs) hs (fun _ ↦ first?_of_isSign) ?_ ?_ ?_ hend
  · simp +contextual [next?]
  · simp +contextual [next?]
  · simp [finish?, ht]

/-- An operator is cut off as the operator. -/
theorem tokens?_operator (op : Operator) {rest : List Char}
    (hend : ∀ c ∈ rest.head?, isSign c = false) :
    tokens? (op.symbol.toList ++ rest) = (tokens? rest).map (.operator op :: ·) := by
  have hop : isSigns op.symbol = true ∧ tokenOfSigns? op.symbol = some (.operator op) := by
    cases op with
    | chain op => cases op <;> exact ⟨rfl, rfl⟩
    | _ => exact ⟨rfl, rfl⟩
  exact tokens?_signs hop.1 hop.2 hend

/-- A name is cut off where it does not go on. -/
theorem tokens?_name {s : String} (h : isName s = true) {rest : List Char}
    (hend : ∀ c ∈ rest.head?, isWordChar c = false) :
    tokens? (s.toList ++ rest) = (tokens? rest).map (.name s :: ·) := by
  refine tokens?_of_isRun (f := .word) h (fun _ ↦ first?_of_isWordStart) ?_ ?_ ?_ hend
  · simp +contextual [next?]
  · simp +contextual [next?]
  · simp [finish?]

/-! ## Numerals -/

open Json (NumberPart isNumberText)

/-- The lexer takes a numeral part by part as the number grammar does. -/
theorem after?_numeral {p q : NumberPart} {cs : List Char} (h : p.after? cs = some q)
    (acc : List Char) :
    Pending.after? (.numeral p acc) cs = some (.numeral q (cs.reverse ++ acc)) := by
  induction cs generalizing p acc with
  | nil =>
      cases h
      rfl
  | cons c cs ih =>
      obtain ⟨p', hnext, h⟩ := Option.bind_eq_some_iff.1 h
      have hnext : Pending.next? (.numeral p acc) c = some (.numeral p' (c :: acc)) := by
        simp [next?, hnext]
      rw [after?_cons hnext, ih h, List.reverse_cons, List.append_assoc]
      rfl

/-- What may follow an operand, so that its last token ends there. -/
def Ends (rest : List Char) : Prop := ∀ c ∈ rest.head?, c = ' ' ∨ c = ')' ∨ c = ',' ∨ c = ';'

/-- A numeral without a sign is cut off where an operand ends. -/
theorem tokens?_numeral {c : Char} {cs : List Char} (hdigit : c.isDigit = true)
    (h : isNumberText (c :: cs) = true) {rest : List Char} (hend : Ends rest) :
    tokens? (c :: (cs ++ rest)) = (tokens? rest).map (.number (Numeral.decimal (c :: cs)) :: ·) := by
  obtain ⟨p, hp, haccepts⟩ := Json.isNumberText_cons.1 h
  obtain ⟨q, hq, hfinal⟩ := (Option.any_eq_true _ _).1 haccepts
  have hfirst : Pending.first? c = some (.numeral p [c]) := by
    obtain ⟨d, hd, rfl⟩ := Numeral.exists_digitChar hdigit
    interval_cases d <;> (cases hp; rfl)
  have hfinish : Pending.finish? (.numeral q (cs.reverse ++ [c])) =
      some [.number (Numeral.decimal (c :: cs))] := by
    simp [finish?, hfinal]
  refine tokens?_of_after? hfirst (after?_numeral hq [c]) hfinish ?_
  intro d hd
  rcases hend d hd with rfl | rfl | rfl | rfl
  all_goals cases q <;> rfl

/-! ## Quoted literals -/

/-- Characters other than quotes and backslashes are taken as they are. -/
theorem after?_quoted {cs : List Char} (h : ∀ c ∈ cs, c ≠ '"' ∧ c ≠ '\\') (acc : List Char) :
    Pending.after? (.quoted false acc) cs = some (.quoted false (cs.reverse ++ acc)) :=
  after?_collect (f := .quoted false) (fun acc c hc ↦ by simp [next?, hc]) h acc

/-- Quoted characters leave a literal open. -/
theorem after?_escapeChars (cs acc : List Char) :
    Pending.after? (.quoted false acc) (cs.flatMap (Text.escapeChar Text.isPlain)) =
      some (.quoted false ((cs.flatMap (Text.escapeChar Text.isPlain)).reverse ++ acc)) := by
  induction cs generalizing acc with
  | nil => rfl
  | cons c cs ih =>
      have hchar : Pending.after? (.quoted false acc) (Text.escapeChar Text.isPlain c) =
          some (.quoted false ((Text.escapeChar Text.isPlain c).reverse ++ acc)) := by
        rcases Text.escapeChar_cases Text.isPlain c with ⟨h, hc⟩ | ⟨d, ds, h, hds⟩
        · rw [h]
          exact after?_quoted (List.forall_mem_singleton.2 hc) acc
        · -- The character behind the backslash is taken whatever it is.
          rw [h, after?_cons (q := .quoted true ('\\' :: acc)) rfl,
            after?_cons (q := .quoted false (d :: '\\' :: acc)) rfl, after?_quoted hds]
          simp
      rw [List.flatMap_cons, after?_append hchar, ih, List.reverse_append, List.append_assoc]

/-- A literal that was quoted in ASCII is cut off whatever follows. -/
theorem tokens?_quoteAscii (name : String) (rest : List Char) :
    tokens? ((Text.quoteAscii name).toList ++ rest) =
      (tokens? rest).map (.literal (Text.reread name) :: ·) := by
  obtain ⟨body, hbody⟩ : ∃ body, body = name.toList.flatMap (Text.escapeChar Text.isPlain) :=
    ⟨_, rfl⟩
  have hchars : (Text.quoteAscii name).toList = '"' :: (body ++ ['"']) := by
    rw [Text.toList_quoteAscii, hbody]
  have hafter : Pending.after? (.quoted false ['"']) (body ++ ['"']) =
      some (.unquoted ('"' :: (body.reverse ++ ['"']))) := by
    rw [hbody, after?_append (after?_escapeChars name.toList ['"'])]
    rfl
  have hfinish : Pending.finish? (.unquoted ('"' :: (body.reverse ++ ['"']))) =
      some [.literal (Text.reread name)] := by
    have hliteral : ('"' :: (body.reverse ++ ['"'])).reverse = (Text.quoteAscii name).toList := by
      simp [hchars]
    rw [finish?, hliteral, String.ofList_toList, Text.readScript?_quoteAscii]
    rfl
  rw [hchars]
  exact tokens?_of_after? rfl hafter hfinish fun _ _ ↦ rfl

end ExprCompiler.Script
