import ExprCompiler.Proofs.Json.Reading

/-!
# What the reader has seen

Wherever the reader stands, the text behind it is the beginning of a document in the sense of the
grammar. Main statement: what the reader takes for the first document of a text is a text of that
document, nested no deeper than the reader goes, and every such text is read
(`readFirst_eq_complete_iff`).
-/

namespace ExprCompiler.Json

/-! ## Containers grow at their end -/

theorem SpellsItem.append_blank {j : Json} {cs ds : List Char} (h : SpellsItem j cs)
    (hds : Blank ds) : SpellsItem j (cs ++ ds) := by
  obtain ⟨hbefore, h, hafter⟩ := h
  simpa only [List.append_assoc] using SpellsItem.mk hbefore h (blank_append hafter hds)

theorem SpellsField.append_blank {f : String × Json} {cs ds : List Char} (h : SpellsField f cs)
    (hds : Blank ds) : SpellsField f (cs ++ ds) := by
  obtain ⟨hbefore, hname, hafter, h⟩ := h
  simpa using SpellsField.mk hbefore hname hafter (h.append_blank hds)

section Separated

variable {α : Type} {P : α → List Char → Prop} {as : List α} {cs ds : List Char}

/-- Blanks behind the last thing belong to its text. -/
theorem Separated.append_blank (h : Separated P as cs) (hds : Blank ds)
    (hP : ∀ {a cs}, P a cs → P a (cs ++ ds)) : Separated P as (cs ++ ds) := by
  induction h with
  | none hcs => exact .none (blank_append hcs hds)
  | one h => exact .one (hP h)
  | more h _ ih =>
      rw [List.append_assoc]
      exact .more h ih

/-- One more element is separated by a comma. -/
theorem Separated.concat (h : Separated P as cs) (hne : as ≠ []) {a : α} (ha : P a ds) :
    Separated P (as ++ [a]) (cs ++ ',' :: ds) := by
  induction h with
  | none => exact absurd rfl hne
  | one h => exact .more h (.one ha)
  | more h _ ih =>
      rw [List.append_assoc]
      exact .more h (ih (by simp))

/-- The text before the next of some things that commas separate. -/
inductive Leads (P : α → List Char → Prop) : List α → List Char → Prop
  | first : Leads P [] []
  | next {as : List α} {cs : List Char} (hne : as ≠ []) (h : Separated P as cs) :
      Leads P as (cs ++ [','])

/-- What leads to an element makes a separated list with it. -/
theorem Leads.separated (h : Leads P as cs) {a : α} (ha : P a ds) :
    Separated P (as ++ [a]) (cs ++ ds) := by
  obtain _ | ⟨hne, h⟩ := h
  · exact .one ha
  · simpa using h.concat hne ha

end Separated

theorem SpellsUnits.concat {units : List Nat} {unit : Nat} {cs ds : List Char}
    (h : SpellsUnits units cs) (hunit : SpellsUnit unit ds) :
    SpellsUnits (units ++ [unit]) (cs ++ ds) := by
  induction h with
  | nil => simpa using SpellsUnits.cons hunit .nil
  | cons h _ ih =>
      rw [List.append_assoc]
      exact .cons h ih

/-! ## Where the reader stands -/

/-- The text before a place where a value may begin, or a field's name, with the containers that
are open there and how many they are. What those hold already is not too deep for where it is. -/
inductive Before : Bool → List Frame → Nat → List Char → Prop
  | document {blanks : List Char} (hblanks : Blank blanks) : Before false [] 0 blanks
  | item {stack : List Frame} {d : Nat} {text cs blanks : List Char} {done : List Json}
      (h : Before false stack d text) (hdone : Leads SpellsItem done.reverse cs) (hblanks : Blank blanks)
      (hd : d + 1 + depthOfItems done.reverse ≤ maxDepth) :
      Before false (.items done :: stack) (d + 1) (text ++ '[' :: (cs ++ blanks))
  | name {stack : List Frame} {d : Nat} {text cs blanks : List Char} {done : List (String × Json)}
      {old : String} (h : Before false stack d text) (hdone : Leads SpellsField done.reverse cs)
      (hblanks : Blank blanks) (hd : d + 1 + depthOfFields done.reverse ≤ maxDepth) :
      Before true (.fields done old :: stack) (d + 1) (text ++ '\x7b' :: (cs ++ blanks))
  | field {stack : List Frame} {d : Nat} {text cs after blanks : List Char}
      {done : List (String × Json)} {old name : String}
      (h : Before true (.fields done old :: stack) d text) (hname : SpellsString name cs)
      (hafter : Blank after) (hblanks : Blank blanks) :
      Before false (.fields done name :: stack) d
        (text ++ '"' :: (cs ++ '"' :: (after ++ ':' :: blanks)))

/-- Whether the characters lead to a part of a number. -/
def NumberPart.Reached (p : NumberPart) : List Char → Prop
  | [] => False
  | c :: cs => (first? c).bind (after? · cs) = some p

/-- The text behind the machine. -/
inductive Stands : Machine → List Char → Prop
  | value {stack : List Frame} {d : Nat} {text : List Char} {closable : Bool}
      (h : Before false stack d text)
      (hclosable : closable = true → stack.head? = some (.items [])) :
      Stands ⟨stack, .value closable, d⟩ text
  | name {stack : List Frame} {d : Nat} {text : List Char} {closable : Bool}
      {done : List (String × Json)} {old : String}
      (h : Before true (.fields done old :: stack) d text)
      (hclosable : closable = true → done = []) :
      Stands ⟨.fields done old :: stack, .name closable, d⟩ text
  | colon {stack : List Frame} {d : Nat} {text cs blanks : List Char}
      {done : List (String × Json)} {old name : String}
      (h : Before true (.fields done old :: stack) d text) (hname : SpellsString name cs)
      (hblanks : Blank blanks) :
      Stands ⟨.fields done name :: stack, .colon, d⟩ (text ++ '"' :: (cs ++ '"' :: blanks))
  | afterItem {stack : List Frame} {d : Nat} {text cs : List Char} {done : List Json}
      (h : Before false stack d text) (hne : done ≠ []) (hdone : Separated SpellsItem done.reverse cs)
      (hd : d + 1 + depthOfItems done.reverse ≤ maxDepth) :
      Stands ⟨.items done :: stack, .after, d + 1⟩ (text ++ '[' :: cs)
  | afterField {stack : List Frame} {d : Nat} {text cs : List Char} {done : List (String × Json)}
      {old : String} (h : Before false stack d text) (hne : done ≠ [])
      (hdone : Separated SpellsField done.reverse cs)
      (hd : d + 1 + depthOfFields done.reverse ≤ maxDepth) :
      Stands ⟨.fields done old :: stack, .after, d + 1⟩ (text ++ '\x7b' :: cs)
  | text {stack : List Frame} {d : Nat} {text cs : List Char} {isName : Bool} {units : List Nat}
      (h : Before isName stack d text) (hunits : SpellsUnits units.reverse cs) :
      Stands ⟨stack, .text isName units, d⟩ (text ++ '"' :: cs)
  | escape {stack : List Frame} {d : Nat} {text cs : List Char} {isName : Bool} {units : List Nat}
      (h : Before isName stack d text) (hunits : SpellsUnits units.reverse cs) :
      Stands ⟨stack, .escape isName units, d⟩ (text ++ '"' :: (cs ++ ['\\']))
  | unit {stack : List Frame} {d n : Nat} {text cs ds : List Char} {isName : Bool}
      {units : List Nat} (h : Before isName stack d text)
      (hunits : SpellsUnits units.reverse cs) (hlength : ds.length < 4)
      (hdigits : hexValue? 0 ds = some n) :
      Stands ⟨stack, .unit isName units ds.length n, d⟩
        (text ++ '"' :: (cs ++ '\\' :: 'u' :: ds))
  | number {stack : List Frame} {d : Nat} {text digits : List Char} {p : NumberPart}
      (h : Before false stack d text) (hp : p.Reached digits.reverse) :
      Stands ⟨stack, .number p digits, d⟩ (text ++ digits.reverse)
  | word {stack : List Frame} {d : Nat} {text cs rest : List Char} {meaning : Json}
      (h : Before false stack d text) (hmeaning : Spells meaning (cs ++ rest))
      (hdepth : meaning.depth = 0) :
      Stands ⟨stack, .word rest meaning, d⟩ (text ++ cs)

/-- The texts that are read as a document: blanks and then the document's text, nested no deeper
than the reader goes. -/
inductive Readable : Json → List Char → Prop
  | mk {j : Json} {blanks cs : List Char} (hblanks : Blank blanks) (h : Spells j cs)
      (hd : j.depth ≤ maxDepth) : Readable j (blanks ++ cs)

/-- What one character brings about is told by the text behind it. -/
inductive Step.Justified (text : List Char) (c : Char) : Step → Prop
  | next {m : Machine} (h : Stands m (text ++ [c])) : Justified text c (.next m)
  | closed {j : Json} (h : Readable j (text ++ [c])) : Justified text c (.closed j)
  | ended {j : Json} (h : Readable j text) : Justified text c (.ended j)
  | fail : Justified text c .fail

variable {stack : List Frame} {d : Nat} {text : List Char} {c : Char}

/-- A machine that stands after the next character justifies the step. -/
theorem Stands.justified {m : Machine} {text' : List Char} (h : Stands m text')
    (htext : text ++ [c] = text') : (Step.next m).Justified text c :=
  .next (htext ▸ h)

/-- Blanks between tokens change nothing. -/
theorem Before.append_blank {isName : Bool} (h : Before isName stack d text)
    (hc : isBlank c = true) : Before isName stack d (text ++ [c]) := by
  have hc := blank_singleton hc
  cases h with
  | document hblanks => exact .document (blank_append hblanks hc)
  | item h hdone hblanks hd => simpa using Before.item h hdone (blank_append hblanks hc) hd
  | name h hdone hblanks hd => simpa using Before.name h hdone (blank_append hblanks hc) hd
  | field h hname hafter hblanks =>
      simpa using Before.field h hname hafter (blank_append hblanks hc)

/-- Nesting stays within the limit. -/
theorem Before.depth_le {isName : Bool} (h : Before isName stack d text) : d ≤ maxDepth := by
  induction h with
  | document => exact Nat.zero_le _
  | item _ _ _ hd => exact Nat.le_trans (Nat.le_add_right _ _) hd
  | name _ _ _ hd => exact Nat.le_trans (Nat.le_add_right _ _) hd
  | field _ _ _ _ ih => exact ih

/-- A value goes into the innermost open container, or is the document. -/
theorem Before.accept {j : Json} {cs : List Char} (h : Before false stack d text) (mode : Mode)
    (hj : Spells j cs) (hd : d + j.depth ≤ maxDepth) :
    (∃ stack', Machine.accept ⟨stack, mode, d⟩ j = .inl ⟨stack', .after, d⟩ ∧
      Stands ⟨stack', .after, d⟩ (text ++ cs)) ∨
    Machine.accept ⟨stack, mode, d⟩ j = .inr j ∧ Readable j (text ++ cs) := by
  cases h with
  | document hblanks => exact .inr ⟨rfl, .mk hblanks hj (by omega)⟩
  | @item _ d _ _ _ done h hdone hblanks hd' =>
      refine .inl ⟨_, rfl, ?_⟩
      have hitems := hdone.separated (SpellsItem.mk hblanks hj blank_nil)
      rw [← List.reverse_cons] at hitems
      have hdepth : d + 1 + depthOfItems (j :: done).reverse ≤ maxDepth := by
        rw [List.reverse_cons, depthOfItems_append, depthOfItems, depthOfItems]
        omega
      simpa using Stands.afterItem h (by simp) hitems hdepth
  | @field stack _ _ _ _ _ done _ name h hname hafter hblanks =>
      refine .inl ⟨_, rfl, ?_⟩
      -- The field's text begins with the blanks before its name, which the outer place ends with.
      cases h with
      | @name _ d _ _ _ _ _ h hdone hblanks' hd' =>
          have hfields := hdone.separated
            (SpellsField.mk hblanks' hname hafter (SpellsItem.mk hblanks hj blank_nil))
          rw [← List.reverse_cons] at hfields
          have hdepth : d + 1 + depthOfFields ((name, j) :: done).reverse ≤ maxDepth := by
            rw [List.reverse_cons, depthOfFields_append, depthOfFields, depthOfFields]
            omega
          simpa using Stands.afterField h (by simp) hfields hdepth

/-- Closing a value is justified if the value is spelled before it. -/
theorem Before.justified_closedBy {mode : Mode} {j : Json} {before cs : List Char}
    (h : Before false stack d before) (hj : Spells j cs) (hd : d + j.depth ≤ maxDepth)
    (htext : text ++ [c] = before ++ cs) : (closedBy ⟨stack, mode, d⟩ j).Justified text c := by
  rw [closedBy]
  obtain ⟨stack', haccept, hstands⟩ | ⟨haccept, hreadable⟩ := h.accept mode hj hd
  · rw [haccept]
    exact .next (htext ▸ hstands)
  · rw [haccept]
    exact .closed (htext ▸ hreadable)

/-- Closing an array gives the array of what was read inside it. -/
theorem justified_closeTop_items {mode : Mode} {done : List Json} {cs : List Char}
    (h : Before false stack d text) (hdone : Separated SpellsItem done.reverse cs)
    (hd : d + 1 + depthOfItems done.reverse ≤ maxDepth) :
    (closeTop ⟨.items done :: stack, mode, d + 1⟩ ']').Justified (text ++ '[' :: cs) ']' :=
  h.justified_closedBy (.array hdone) (by rw [depth]; omega) (by simp)

theorem justified_closeTop_fields {mode : Mode} {done : List (String × Json)} {old : String}
    {cs : List Char} (h : Before false stack d text) (hdone : Separated SpellsField done.reverse cs)
    (hd : d + 1 + depthOfFields done.reverse ≤ maxDepth) :
    (closeTop ⟨.fields done old :: stack, mode, d + 1⟩ '\x7d').Justified
      (text ++ '\x7b' :: cs) '\x7d' :=
  h.justified_closedBy (.object hdone) (by rw [depth]; omega) (by simp)

/-! ## One character -/

theorem Before.justified_opened_items {mode : Mode} (h : Before false stack d text) :
    (opened ⟨stack, mode, d⟩ (.items []) (.value true)).Justified text '[' := by
  rw [opened]
  split
  · rename_i hd
    have hlead : Leads SpellsItem ([] : List Json).reverse [] := .first
    exact .next (.value (.item h hlead blank_nil hd) fun _ ↦ rfl)
  · exact .fail

theorem Before.justified_opened_fields {mode : Mode} (h : Before false stack d text) :
    (opened ⟨stack, mode, d⟩ (.fields [] "") (.name true)).Justified text '\x7b' := by
  rw [opened]
  split
  · rename_i hd
    have hlead : Leads SpellsField ([] : List (String × Json)).reverse [] := .first
    exact .next (.name (.name h hlead blank_nil hd) fun _ ↦ rfl)
  · exact .fail

theorem Before.justified_first {p : NumberPart} (h : Before false stack d text)
    (hp : NumberPart.first? c = some p) :
    Step.Justified text c (.next ⟨stack, .number p [c], d⟩) := by
  refine .next (.number h ?_)
  simp [NumberPart.Reached, hp, NumberPart.after?]

theorem Before.justified_word {meaning : Json} {rest : List Char} (h : Before false stack d text)
    (hmeaning : Spells meaning (c :: rest)) (hdepth : meaning.depth = 0) :
    Step.Justified text c (.next ⟨stack, .word rest meaning, d⟩) :=
  .next (@Stands.word _ _ _ [c] _ _ h hmeaning hdepth)

/-- A step before a value is justified. -/
theorem Before.justified_stepValue {closable : Bool} (h : Before false stack d text)
    (hclosable : closable = true → stack.head? = some (.items [])) :
    (stepValue ⟨stack, .value closable, d⟩ closable c).Justified text c := by
  unfold stepValue
  split
  · rename_i hc
    exact .next (.value (h.append_blank hc) hclosable)
  · split
    · exact h.justified_opened_fields
    · exact h.justified_opened_items
    · exact .next (.text h .nil)
    · exact h.justified_first rfl
    · exact h.justified_first rfl
    · exact h.justified_word .yes rfl
    · exact h.justified_word .no rfl
    · exact h.justified_word .null rfl
    · split
      · rename_i htrue
        have hstack := hclosable htrue
        cases h with
        | document => cases hstack
        | item h hdone hblanks hd =>
            cases hstack
            -- A bracket may close the array only while it is empty, not behind a comma.
            obtain _ | ⟨hne, -⟩ := hdone
            · exact justified_closeTop_items h (.none hblanks) hd
            · exact absurd rfl hne
        | field => cases hstack
      · exact .fail
    · rename_i hminus hzero _ _ _ _
      split
      · rename_i hdigit
        refine h.justified_first ?_
        simp [NumberPart.first?, hdigit, show c ≠ '-' from hminus, show c ≠ '0' from hzero]
      · exact .fail

theorem Before.justified_stepName {closable : Bool} {done : List (String × Json)} {old : String}
    (h : Before true (.fields done old :: stack) d text) (hclosable : closable = true → done = []) :
    (stepName ⟨.fields done old :: stack, .name closable, d⟩ closable c).Justified text c := by
  unfold stepName
  split
  · rename_i hc
    exact .next (.name (h.append_blank hc) hclosable)
  · split
    · rename_i hc
      obtain rfl := beq_iff_eq.1 hc
      exact .next (.text h .nil)
    · split
      · rename_i hc
        obtain ⟨hc, htrue⟩ := Bool.and_eq_true_iff.1 hc
        obtain rfl := beq_iff_eq.1 hc
        obtain rfl := hclosable htrue
        cases h with
        | name h hdone hblanks hd =>
            obtain _ | ⟨hne, -⟩ := hdone
            · exact justified_closeTop_fields h (.none hblanks) hd
            · exact absurd rfl hne
      · exact .fail

theorem Stands.justified_stepAfter (h : Stands ⟨stack, .after, d⟩ text) :
    (stepAfter ⟨stack, .after, d⟩ c).Justified text c := by
  unfold stepAfter
  split
  · rename_i hc
    have hc := blank_singleton hc
    cases h with
    | afterItem h hne hdone hd =>
        have hdone := hdone.append_blank hc (·.append_blank hc)
        exact (Stands.afterItem h hne hdone hd).justified (by simp)
    | afterField h hne hdone hd =>
        have hdone := hdone.append_blank hc (·.append_blank hc)
        exact (Stands.afterField h hne hdone hd).justified (by simp)
  · split
    · rename_i hc
      obtain rfl := beq_iff_eq.1 hc
      cases h with
      | afterItem h hne hdone hd =>
          have hlead := Leads.next (by simpa using hne) hdone
          exact (Stands.value (.item h hlead blank_nil hd) (by simp)).justified (by simp)
      | afterField h hne hdone hd =>
          have hlead := Leads.next (by simpa using hne) hdone
          exact (Stands.name (.name h hlead blank_nil hd) (by simp)).justified (by simp)
    · split
      · rename_i hc
        simp only [Bool.or_eq_true, beq_iff_eq] at hc
        cases h with
        | afterItem h hne hdone hd =>
            rcases hc with rfl | rfl
            · exact justified_closeTop_items h hdone hd
            · exact .fail
        | afterField h hne hdone hd =>
            rcases hc with rfl | rfl
            · exact .fail
            · exact justified_closeTop_fields h hdone hd
      · exact .fail

/-- Another code unit of a string. -/
theorem Before.justified_unit {isName : Bool} {units : List Nat} {unit : Nat}
    {before cs ds : List Char} (h : Before isName stack d before)
    (hunits : SpellsUnits units.reverse cs) (hunit : SpellsUnit unit ds)
    (htext : text ++ [c] = before ++ '"' :: (cs ++ ds)) :
    Step.Justified text c (.next ⟨stack, .text isName (unit :: units), d⟩) := by
  have hunits := hunits.concat hunit
  rw [← List.reverse_cons] at hunits
  exact (Stands.text h hunits).justified htext

theorem Before.justified_stepText {isName : Bool} {units : List Nat} {cs : List Char}
    (h : Before isName stack d text) (hunits : SpellsUnits units.reverse cs) :
    (stepText ⟨stack, .text isName units, d⟩ isName units c).Justified (text ++ '"' :: cs) c := by
  unfold stepText
  split
  · rename_i hc
    obtain rfl := beq_iff_eq.1 hc
    exact (Stands.escape h hunits).justified (by simp)
  · rename_i hslash
    split
    · exact .fail
    · rename_i hcontrol
      split
      · rename_i hc
        obtain rfl := beq_iff_eq.1 hc
        have hstring := SpellsString.mk hunits
        cases isName with
        | false =>
            exact h.justified_closedBy (.string hstring) h.depth_le (by simp)
        | true =>
            cases h with
            | @name _ _ _ _ _ _ old h hdone hblanks hd =>
                have hname := @Before.name _ _ _ _ _ _ old h hdone hblanks hd
                exact (Stands.colon hname hstring blank_nil).justified (by simp)
      · rename_i hquote
        exact h.justified_unit hunits
          (.plain (by simpa using hquote) (by simpa using hslash) (Nat.not_lt.1 hcontrol)) (by simp)

theorem Before.justified_stepEscape {isName : Bool} {units : List Nat} {cs : List Char}
    (h : Before isName stack d text) (hunits : SpellsUnits units.reverse cs) :
    (stepEscape ⟨stack, .escape isName units, d⟩ isName units c).Justified
      (text ++ '"' :: (cs ++ ['\\'])) c := by
  unfold stepEscape
  have hshort {c : Char} {unit : Nat} (hc : (c, unit) ∈ shortEscapes) :
      Step.Justified (text ++ '"' :: (cs ++ ['\\'])) c
        (.next ⟨stack, .text isName (unit :: units), d⟩) :=
    h.justified_unit hunits (.short hc) (by simp)
  dsimp only
  split
  · exact hshort (by decide)
  · exact hshort (by decide)
  · exact hshort (by decide)
  · exact hshort (by decide)
  · exact hshort (by decide)
  · exact hshort (by decide)
  · exact hshort (by decide)
  · exact hshort (by decide)
  · exact (@Stands.unit _ _ _ _ _ [] _ _ h hunits (by decide) rfl).justified (by simp)
  · exact .fail

/-- Hexadecimal digits are read from left to right. -/
theorem hexValue?_append {n : Nat} {cs ds : List Char} :
    hexValue? n (cs ++ ds) = (hexValue? n cs).bind (hexValue? · ds) := by
  induction cs generalizing n with
  | nil => rfl
  | cons c cs ih =>
      rw [List.cons_append, hexValue?, hexValue?, Option.bind_assoc]
      exact congrArg _ (funext fun _ ↦ ih)

theorem Before.justified_stepUnit {isName : Bool} {units : List Nat} {n : Nat} {cs ds : List Char}
    (h : Before isName stack d text) (hunits : SpellsUnits units.reverse cs)
    (hlength : ds.length < 4) (hdigits : hexValue? 0 ds = some n) :
    (stepUnit ⟨stack, .unit isName units ds.length n, d⟩ isName units ds.length n c).Justified
      (text ++ '"' :: (cs ++ '\\' :: 'u' :: ds)) c := by
  unfold stepUnit
  cases hdigit : Numeral.digitBelow? 16 c with
  | none => exact .fail
  | some digit =>
      have hdigits : hexValue? 0 (ds ++ [c]) = some (n * 16 + digit) := by
        simp [hexValue?_append, hdigits, hexValue?, hdigit]
      dsimp only
      split
      · rename_i hlast
        refine h.justified_unit hunits (.long ?_ hdigits) (by simp)
        simpa using hlast
      · rename_i hlast
        have hlength : (ds ++ [c]).length < 4 := by
          have hlast : ds.length ≠ 3 := by simpa using hlast
          rw [List.length_append, List.length_singleton]
          omega
        have hunit := Stands.unit h hunits hlength hdigits
        rw [List.length_append, List.length_singleton] at hunit
        exact hunit.justified (by simp)

theorem NumberPart.Reached.next {p q : NumberPart} {cs : List Char} (h : p.Reached cs)
    (hq : p.next? c = some q) : q.Reached (cs ++ [c]) := by
  have hafter (p₀ : NumberPart) (cs : List Char) (h : p₀.after? cs = some p) :
      p₀.after? (cs ++ [c]) = some q := by
    induction cs generalizing p₀ with
    | nil =>
        obtain rfl := Option.some.inj h
        simp [after?, hq]
    | cons c' cs ih =>
        obtain ⟨p₁, hp₁, h⟩ := Option.bind_eq_some_iff.1 h
        simp [after?, hp₁, ih p₁ h]
  cases cs with
  | nil => exact h.elim
  | cons c' cs =>
      obtain ⟨p₀, hp₀, h⟩ := Option.bind_eq_some_iff.1 h
      simp [Reached, hp₀, hafter p₀ cs h]

/-- A number that may end is one of the grammar. -/
theorem NumberPart.Reached.spells {p : NumberPart} {digits : List Char}
    (h : p.Reached digits.reverse) (hp : p.final = true) :
    Spells (numberOf digits) digits.reverse := by
  refine .number (isNumberText_iff.1 ?_)
  cases hcs : digits.reverse with
  | nil =>
      rw [hcs] at h
      exact h.elim
  | cons c cs =>
      rw [hcs] at h
      simp [isNumberText, show _ = some p from h, hp]

theorem Before.justified_stepNumber {p : NumberPart} {digits : List Char}
    (h : Before false stack d text) (hp : p.Reached digits.reverse) :
    (stepNumber ⟨stack, .number p digits, d⟩ p digits c).Justified (text ++ digits.reverse) c := by
  unfold stepNumber
  split
  · rename_i q hq
    have hreached := hp.next hq
    rw [← List.reverse_cons] at hreached
    exact (Stands.number h hreached).justified (by simp)
  · split
    · exact .fail
    · rename_i hfinal
      have hspells := hp.spells (by simpa using hfinal)
      obtain ⟨stack', haccept, hstands⟩ | ⟨haccept, hreadable⟩ :=
        h.accept (.number p digits) hspells h.depth_le
      · rw [haccept]
        exact hstands.justified_stepAfter
      · rw [haccept]
        exact .ended hreadable

theorem Before.justified_stepWord {meaning : Json} {cs rest : List Char}
    (h : Before false stack d text) (hmeaning : Spells meaning (cs ++ rest))
    (hdepth : meaning.depth = 0) :
    (stepWord ⟨stack, .word rest meaning, d⟩ rest meaning c).Justified (text ++ cs) c := by
  unfold stepWord
  split
  · split
    · rename_i hc
      obtain rfl := beq_iff_eq.1 hc
      exact h.justified_closedBy hmeaning (by rw [hdepth]; exact h.depth_le) (by simp)
    · exact .fail
  · split
    · rename_i hc
      obtain rfl := beq_iff_eq.1 hc
      exact (@Stands.word _ _ _ (cs ++ [c]) _ _ h (by simpa using hmeaning) hdepth).justified
        (by simp)
    · exact .fail
  · exact .fail

/-- The text behind the machine grows by the character it sees. -/
theorem Stands.justified_step {m : Machine} (h : Stands m text) :
    (m.step c).Justified text c := by
  cases h with
  | value h hclosable => exact h.justified_stepValue hclosable
  | name h hclosable => exact h.justified_stepName hclosable
  | colon h hname hblanks =>
      unfold Machine.step
      dsimp only
      split
      · rename_i hc
        have hblanks := blank_append hblanks (blank_singleton hc)
        exact (Stands.colon h hname hblanks).justified (by simp)
      · split
        · rename_i hc
          obtain rfl := beq_iff_eq.1 hc
          exact (Stands.value (.field h hname hblanks blank_nil) (by simp)).justified (by simp)
        · exact .fail
  | afterItem h hne hdone hd => exact (Stands.afterItem h hne hdone hd).justified_stepAfter
  | afterField h hne hdone hd => exact (Stands.afterField h hne hdone hd).justified_stepAfter
  | text h hunits => exact h.justified_stepText hunits
  | escape h hunits => exact h.justified_stepEscape hunits
  | unit h hunits hlength hdigits => exact h.justified_stepUnit hunits hlength hdigits
  | number h hp => exact h.justified_stepNumber hp
  | word h hmeaning hdepth => exact h.justified_stepWord hmeaning hdepth

/-! ## Whole texts -/

/-- Only a number ends with its text. -/
theorem Stands.readable_of_finish? {m : Machine} {j : Json} (h : Stands m text)
    (hfinish : m.finish? = some j) : Readable j text := by
  unfold Machine.finish? at hfinish
  split at hfinish
  · rename_i hmode hstack
    split at hfinish
    · rename_i hfinal
      cases hfinish
      cases h with
      | number h hp =>
          cases hmode
          cases hstack
          cases h with
          | document hblanks => exact .mk hblanks (hp.spells hfinal) (Nat.zero_le _)
      | _ => cases hmode
    · cases hfinish
  · cases hfinish

/-- What the machine takes for a document is the text behind it and some of the text before it. -/
theorem Stands.readable_of_run {m : Machine} (h : Stands m text) {cs rest : List Char} {j : Json}
    (hrun : m.run cs = .complete j rest) :
    ∃ document, text ++ cs = document ++ rest ∧ Readable j document := by
  -- With each character the text before the machine becomes shorter and the one behind it longer.
  induction cs generalizing m text with
  | nil =>
      rw [Machine.run] at hrun
      cases hfinish : m.finish? with
      | none =>
          rw [hfinish] at hrun
          cases hrun
      | some j' =>
          rw [hfinish] at hrun
          cases hrun
          exact ⟨text, rfl, h.readable_of_finish? hfinish⟩
  | cons c cs ih =>
      have hstep := h.justified_step (c := c)
      rw [Machine.run] at hrun
      generalize m.step c = step at hstep hrun
      cases hstep with
      | next h =>
          obtain ⟨document, htext, hdocument⟩ := ih h hrun
          exact ⟨document, by simpa using htext, hdocument⟩
      | closed h =>
          cases hrun
          exact ⟨_, by simp, h⟩
      | ended h =>
          cases hrun
          exact ⟨_, rfl, h⟩
      | fail => cases hrun

/-- The text of a document that is no number is read completely, whatever follows it. -/
theorem Readable.readFirst_eq {j : Json} {cs : List Char} (h : Readable j cs)
    (hj : ∀ text, j ≠ .number text) (rest : List Char) :
    readFirst (cs ++ rest) = .complete j rest := by
  obtain @⟨blanks, cs, hblanks, h, hd⟩ := h
  have hrun : readFirst (blanks ++ cs) = .complete j [] := by
    rw [readFirst, Machine.skips_value.run_append hblanks, ← List.append_nil cs,
      Machine.reads j h false (Nat.zero_le _) (by simp [Ends]), if_pos (by rwa [Nat.zero_add])]
    rfl
  exact Machine.run_append hrun hj rest

/-- The first document of a text is what the grammar says it is. A number is left out, because it
goes on for as long as it can. -/
theorem readFirst_eq_complete_iff {j : Json} {cs rest : List Char} (hj : ∀ text, j ≠ .number text) :
    readFirst cs = .complete j rest ↔ ∃ document, cs = document ++ rest ∧ Readable j document := by
  constructor
  · intro h
    exact Stands.readable_of_run (.value (.document blank_nil) (by simp)) h
  · rintro ⟨document, rfl, h⟩
    exact h.readFirst_eq hj rest

end ExprCompiler.Json
