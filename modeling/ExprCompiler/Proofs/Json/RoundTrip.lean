import ExprCompiler.Json.Writer
import ExprCompiler.Proofs.Json.Reading

/-!
# Documents survive being written and read

What the writer writes is a text of the document in the sense of the grammar. Main statement: a
document whose numbers are numbers is read back as it was if it is nested no deeper than the reader
goes, and is refused otherwise (`Json.read?_write`).
-/

namespace ExprCompiler.Json

/-! ## The text as characters -/

def quotedChars (s : String) : List Char := '"' :: (s.toList.flatMap escapeChar ++ ['"'])

mutual

/-- The characters of a document's text. -/
def chars : Json → List Char
  | .null => ['n', 'u', 'l', 'l']
  | .bool true => ['t', 'r', 'u', 'e']
  | .bool false => ['f', 'a', 'l', 's', 'e']
  | .number text => text.toList
  | .string s => quotedChars s
  | .array items => '[' :: (charsOfItems true items ++ [']'])
  | .object fields => '\x7b' :: (charsOfFields true fields ++ ['\x7d'])

def charsOfItems (first : Bool) : List Json → List Char
  | [] => []
  | j :: js => (if first then [] else [',']) ++ chars j ++ charsOfItems false js

def charsOfFields (first : Bool) : List (String × Json) → List Char
  | [] => []
  | (name, j) :: fs =>
    (if first then [] else [',']) ++ quotedChars name ++ ':' :: chars j ++ charsOfFields false fs

end

theorem toList_foldl_push (cs : List Char) (acc : String) :
    (cs.foldl String.push acc).toList = acc.toList ++ cs := by
  induction cs generalizing acc with
  | nil => simp
  | cons c cs ih => rw [List.foldl_cons, ih, String.toList_push, List.append_assoc]; rfl

theorem toList_quoted (s : String) : (quoted s).toList = quotedChars s := by
  have hfold (cs : List Char) (acc : String) :
      (cs.foldl (fun acc c ↦ (escapeChar c).foldl String.push acc) acc).toList =
        acc.toList ++ cs.flatMap escapeChar := by
    induction cs generalizing acc with
    | nil => simp
    | cons c cs ih =>
        rw [List.foldl_cons, ih, toList_foldl_push, List.flatMap_cons, List.append_assoc]
  rw [quoted, String.foldl_eq_foldl_toList, String.toList_append, hfold]
  rfl

mutual

/-- Writing appends the text of the document. -/
theorem toList_writeTo : ∀ (j : Json) (acc : String),
    (writeTo acc j).toList = acc.toList ++ chars j
  | .null, acc => by simp [writeTo, chars]
  | .bool true, acc => by simp [writeTo, chars]
  | .bool false, acc => by simp [writeTo, chars]
  | .number text, acc => by simp [writeTo, chars]
  | .string s, acc => by simp [writeTo, chars, toList_quoted]
  | .array items, acc => by
      rw [writeTo, String.toList_append, toList_writeItems items]
      simp [chars]
  | .object fields, acc => by
      rw [writeTo, String.toList_append, toList_writeFields fields]
      simp [chars]

theorem toList_writeItems : ∀ (js : List Json) (first : Bool) (acc : String),
    (writeItems acc first js).toList = acc.toList ++ charsOfItems first js
  | [], first, acc => by simp [writeItems, charsOfItems]
  | j :: js, first, acc => by
      rw [writeItems, toList_writeItems js, toList_writeTo j, charsOfItems]
      cases first <;> simp

theorem toList_writeFields : ∀ (fs : List (String × Json)) (first : Bool) (acc : String),
    (writeFields acc first fs).toList = acc.toList ++ charsOfFields first fs
  | [], first, acc => by simp [writeFields, charsOfFields]
  | (name, j) :: fs, first, acc => by
      rw [writeFields, toList_writeFields fs, toList_writeTo j, charsOfFields]
      cases first <;> simp [toList_quoted]

end

theorem toList_write (j : Json) : (write j).toList = chars j := by
  rw [write, toList_writeTo]
  rfl

/-! ## The text is one of the grammar -/

/-- The characters below the blank and those that are written as escapes have four digits. -/
theorem spellsUnit_hex {n : Nat} (h : n ∈ List.range 0x20 ++ [0x26, 0x3c, 0x3e, 0x2028, 0x2029]) :
    SpellsUnit n ('\\' :: 'u' :: Text.hex 4 n) := by
  have hall : ∀ n ∈ List.range 0x20 ++ [0x26, 0x3c, 0x3e, 0x2028, 0x2029],
      (Text.hex 4 n).length = 4 ∧ hexValue? 0 (Text.hex 4 n) = some n := by
    decide
  exact .long (hall n h).1 (hall n h).2

/-- A written character is a text of its code. -/
theorem spellsUnit_escapeChar (c : Char) : SpellsUnit c.toNat (escapeChar c) := by
  unfold escapeChar
  split
  · exact .short (by decide)
  · exact .short (by decide)
  · exact .short (by decide)
  · exact .short (by decide)
  · rename_i hquote hslash _ _
    dsimp only
    split
    · rename_i hreturn
      rw [beq_iff_eq.1 hreturn]
      exact .short (by decide)
    · split
      · rename_i hescaped
        refine spellsUnit_hex ?_
        simp only [Bool.or_eq_true, decide_eq_true_eq, beq_iff_eq] at hescaped
        rcases hescaped with ((((h | rfl) | rfl) | rfl) | h) | h
        · exact List.mem_append_left _ (List.mem_range.2 h)
        · decide
        · decide
        · decide
        · rw [h]
          decide
        · rw [h]
          decide
      · rename_i hplain
        simp only [Bool.or_eq_true, decide_eq_true_eq, not_or, Nat.not_lt] at hplain
        exact .plain hquote hslash hplain.1.1.1.1.1

/-- Escaping characters spells their units. -/
theorem spellsUnits_escaped (cs : List Char) :
    SpellsUnits (cs.map Char.toNat) (cs.flatMap escapeChar) := by
  induction cs with
  | nil => exact .nil
  | cons c cs ih => exact .cons (spellsUnit_escapeChar c) ih

/-- No character is half of a surrogate pair. -/
theorem not_surrogate (c : Char) : ¬(0xd800 ≤ c.toNat ∧ c.toNat < 0xe000) := by
  have h := c.valid
  rw [UInt32.isValidChar, Nat.isValidChar] at h
  change ¬(0xd800 ≤ c.val.toNat ∧ c.val.toNat < 0xe000)
  omega

/-- Units of characters decode to the characters. -/
theorem decodeUnits_map_toNat (cs : List Char) : decodeUnits (cs.map Char.toNat) = cs := by
  induction cs with
  | nil => rfl
  | cons c cs ih =>
      have hc := not_surrogate c
      cases cs with
      | nil => simp [decodeUnits, hc]
      | cons d ds =>
          have hpair : ¬(((0xd800 ≤ c.toNat ∧ c.toNat < 0xdc00) ∧ 0xdc00 ≤ d.toNat) ∧
              d.toNat < 0xe000) := by
            omega
          rw [List.map_cons, List.map_cons, decodeUnits]
          rw [List.map_cons] at ih
          simp [hc, hpair, ih]

/-- A quoted string spells the string. -/
theorem spellsString_escaped (s : String) : SpellsString s (s.toList.flatMap escapeChar) := by
  have h := SpellsString.mk (spellsUnits_escaped s.toList)
  rwa [decodeUnits_map_toNat, String.ofList_toList] at h

mutual

/-- Whether the numbers of a document are written as such. -/
def numeric : Json → Bool
  | .number text => isNumberText text.toList
  | .array items => numericItems items
  | .object fields => numericFields fields
  | _ => true

def numericItems : List Json → Bool
  | [] => true
  | j :: js => numeric j && numericItems js

def numericFields : List (String × Json) → Bool
  | [] => true
  | (_, j) :: fs => numeric j && numericFields fs

end

mutual

/-- What is written is a text of the document. -/
theorem spells_chars : ∀ j : Json, j.numeric = true → Spells j (chars j)
  | .null, _ => .null
  | .bool true, _ => .yes
  | .bool false, _ => .no
  | .number text, hj => by
      have h := Spells.number (isNumberText_iff.1 hj)
      rwa [String.ofList_toList] at h
  | .string s, _ => .string (spellsString_escaped s)
  | .array items, hj => .array (separated_charsOfItems items hj)
  | .object fields, hj => .object (separated_charsOfFields fields hj)

/-- The text of an array spells its items. -/
theorem separated_charsOfItems : ∀ js : List Json, numericItems js = true →
    Separated SpellsItem js (charsOfItems true js)
  | [], _ => .none blank_nil
  | j :: js, hjs => by
      obtain ⟨hj, hjs⟩ := Bool.and_eq_true_iff.1 hjs
      have hitem := SpellsItem.mk blank_nil (spells_chars j hj) blank_nil
      have hitems := separated_charsOfItems js hjs
      cases js with
      | nil => simpa [charsOfItems] using Separated.one hitem
      | cons j' js => simpa [charsOfItems] using Separated.more hitem hitems

theorem separated_charsOfFields : ∀ fs : List (String × Json), numericFields fs = true →
    Separated SpellsField fs (charsOfFields true fs)
  | [], _ => .none blank_nil
  | (name, j) :: fs, hfs => by
      obtain ⟨hj, hfs⟩ := Bool.and_eq_true_iff.1 hfs
      have hitem := SpellsItem.mk blank_nil (spells_chars j hj) blank_nil
      have hfield := SpellsField.mk blank_nil (spellsString_escaped name) blank_nil hitem
      have hfields := separated_charsOfFields fs hfs
      cases fs with
      | nil => simpa [charsOfFields, quotedChars] using Separated.one hfield
      | cons f fs => simpa [charsOfFields, quotedChars] using Separated.more hfield hfields

end

/-! ## Reading it -/

/-- A document whose numbers are written as such is read back if it is not nested too deep, and is
refused otherwise. -/
theorem read?_write {j : Json} (hj : j.numeric = true) :
    read? j.write = if j.depth ≤ maxDepth then some j else none := by
  have hrun : readFirst (chars j ++ []) = _ :=
    Machine.reads j (spells_chars j hj) false (Nat.zero_le _) (by simp [Ends])
  rw [List.append_nil, Nat.zero_add] at hrun
  rw [read?, toList_write, hrun]
  split_ifs <;> rfl

/-- Blanks behind a document that is no number are passed over. -/
theorem read?_append {s t : String} {j : Json} (h : read? s = some j)
    (hj : ∀ text, j ≠ .number text) (ht : t.toList.all isBlank = true) :
    read? (s ++ t) = some j := by
  unfold read? at h ⊢
  split at h
  · rename_i j' rest hfirst
    obtain ⟨hrest, rfl⟩ : rest.all isBlank = true ∧ j' = j := by simpa using h
    have hall : (rest ++ t.toList).all isBlank = true := by rw [List.all_append, hrest, ht]; rfl
    rw [String.toList_append, readFirst, Machine.run_append hfirst hj]
    exact if_pos hall
  · cases h

end ExprCompiler.Json
