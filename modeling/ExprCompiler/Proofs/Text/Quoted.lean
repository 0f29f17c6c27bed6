import ExprCompiler.Text.Quoted
import Mathlib.Data.List.Basic
import Mathlib.Tactic.IntervalCases

/-!
# Reading quoted text

A script engine reads most escapes back as the characters that they were written for, but it has
neither the escape for a bell nor the eight-digit one. Main statements: what it reads in a literal
that was quoted in ASCII (`Text.readScript?_quoteAscii`), and that this is the quoted text if and
only if no character of it is a bell or lies beyond the basic plane (`Text.reread_eq_self`).
-/

namespace ExprCompiler.Text

/-! ## Hexadecimal digits -/

theorem hexValue?_append_digit {cs : List Char} {n d : Nat} (h : hexValue? cs = some n)
    (hd : d < 16) : hexValue? (cs ++ [d.digitChar]) = some (n * 16 + d) := by
  unfold hexValue? at h ⊢
  rw [List.foldl_append, h]
  interval_cases d <;> rfl

theorem hexValue?_toDigits (n : Nat) : hexValue? (Nat.toDigits 16 n) = some n := by
  induction n using Nat.strongRecOn with
  | ind n ih =>
      rw [Nat.toDigits_eq_if (by decide)]
      split
      · rename_i hlt
        have hempty : hexValue? [] = some 0 := rfl
        simpa using hexValue?_append_digit hempty hlt
      · rename_i hge
        rw [hexValue?_append_digit (ih (n / 16) (by omega)) (Nat.mod_lt n (by decide))]
        rw [Nat.div_add_mod']

theorem hexValue?_zeros (k : Nat) (cs : List Char) :
    hexValue? (List.replicate k '0' ++ cs) = hexValue? cs := by
  induction k with
  | zero => rfl
  | succ k ih =>
      rw [List.replicate_succ, List.cons_append, ← ih]
      rfl

/-- A padded hexadecimal number is read as the number. -/
theorem hexValue?_hex (width n : Nat) : hexValue? (hex width n) = some n :=
  (hexValue?_zeros _ _).trans (hexValue?_toDigits n)

/-- A number that fits is padded to the width. -/
theorem length_hex {width n : Nat} (hwidth : 0 < width) (h : n < 16 ^ width) :
    (hex width n).length = width := by
  have hle := (Nat.length_toDigits_le_iff (by decide) hwidth).2 h
  simp only [hex, List.length_append, List.length_replicate]
  omega

theorem exists_digitChar_of_mem_toDigits {n : Nat} {c : Char} (h : c ∈ Nat.toDigits 16 n) :
    ∃ d < 16, c = d.digitChar := by
  induction n using Nat.strongRecOn with
  | ind n ih =>
      rw [Nat.toDigits_eq_if (by decide)] at h
      split at h
      · rename_i hlt
        exact ⟨n, hlt, List.mem_singleton.1 h⟩
      · rename_i hge
        rcases List.mem_append.1 h with h | h
        · exact ih (n / 16) (by omega) h
        · exact ⟨n % 16, Nat.mod_lt n (by decide), List.mem_singleton.1 h⟩

/-- Digits are neither quotes nor backslashes. -/
theorem plain_of_mem_hex {width n : Nat} {c : Char} (h : c ∈ hex width n) :
    c ≠ '"' ∧ c ≠ '\\' := by
  rcases List.mem_append.1 h with h | h
  · rw [List.eq_of_mem_replicate h]
    decide
  · obtain ⟨d, hd, rfl⟩ := exists_digitChar_of_mem_toDigits h
    interval_cases d <;> decide

/-! ## Characters -/

/-- The characters that stand for themselves in a literal of a script. -/
def isPlain (c : Char) : Bool := c.toNat < 0x80 && isPrintable c

/-- Plain characters are the printable ASCII ones. -/
theorem isPlain_iff {c : Char} : isPlain c = true ↔ 0x20 ≤ c.toNat ∧ c.toNat < 0x7f := by
  unfold isPlain isPrintable
  by_cases h : c.toNat < 0x80
  · simp [h]
  · simp [h]
    omega

/-- What a script engine reads for a character that was quoted in ASCII. It takes the letter of an
escape that it does not have for itself, and the digits behind it for themselves. -/
def rereadChar (c : Char) : List Char :=
  if c.toNat = 0x07 then ['a'] else if c.toNat < 0x10000 then [c] else 'U' :: hex 8 c.toNat

theorem readScriptBody_plain {c : Char} (hquote : c ≠ '"') (hslash : c ≠ '\\')
    (rest : List Char) : readScriptBody (c :: rest) = (c :: ·) <$> readScriptBody rest := by
  rw [readScriptBody] <;> simp [hquote, hslash]

theorem readScriptBody_plains {cs : List Char} (h : ∀ c ∈ cs, c ≠ '"' ∧ c ≠ '\\')
    (rest : List Char) : readScriptBody (cs ++ rest) = (cs ++ ·) <$> readScriptBody rest := by
  induction cs with
  | nil => simp
  | cons c cs ih =>
      obtain ⟨hc, hcs⟩ := List.forall_mem_cons.1 h
      rw [List.cons_append, readScriptBody_plain hc.1 hc.2, ih hcs, ← comp_map]
      rfl

/-- A two-digit escape is read as its character. -/
theorem readScriptBody_hexTwo {n : Nat} (h : n < 0x100) (rest : List Char) :
    readScriptBody ('\\' :: 'x' :: (hex 2 n ++ rest)) =
      (Char.ofNat n :: ·) <$> readScriptBody rest := by
  obtain ⟨a, b, hab⟩ := List.length_eq_two.1 (length_hex (n := n) (by decide) h)
  have hvalue : hexValue? [a, b] = some n := by rw [← hab, hexValue?_hex]
  rw [hab]
  change (do let n ← hexValue? [a, b]; (Char.ofNat n :: ·) <$> readScriptBody rest) = _
  rw [hvalue]
  rfl

theorem readScriptBody_hexFour {n : Nat} (h : n < 0x10000) (rest : List Char) :
    readScriptBody ('\\' :: 'u' :: (hex 4 n ++ rest)) =
      (Char.ofNat n :: ·) <$> readScriptBody rest := by
  obtain ⟨a, b, c, d, hdigits⟩ := List.length_eq_four.1 (length_hex (n := n) (by decide) h)
  have hvalue : hexValue? [a, b, c, d] = some n := by rw [← hdigits, hexValue?_hex]
  rw [hdigits]
  change (do let n ← hexValue? [a, b, c, d]; (Char.ofNat n :: ·) <$> readScriptBody rest) = _
  rw [hvalue]
  rfl

/-- Of the one-letter escapes a script engine lacks only that of the bell. -/
theorem readScriptBody_escapeLetter {c l : Char} (h : escapeLetter? c = some l)
    (rest : List Char) :
    readScriptBody ('\\' :: l :: rest) = (rereadChar c ++ ·) <$> readScriptBody rest := by
  have hc {n : Nat} (hn : c.toNat = n) : c = Char.ofNat n := by rw [← hn, Char.ofNat_toNat]
  unfold escapeLetter? at h
  split at h
  case h_8 => cases h
  all_goals
    rename_i hn
    obtain rfl := hc hn
    cases h
    rfl

/-- One quoted character is read as one character, but for a bell and beyond the basic plane. -/
theorem readScriptBody_escapeChar (c : Char) (rest : List Char) :
    readScriptBody (escapeChar isPlain c ++ rest) =
      (rereadChar c ++ ·) <$> readScriptBody rest := by
  unfold escapeChar
  split
  · rename_i h
    simp only [Bool.or_eq_true, beq_iff_eq] at h
    rcases h with rfl | rfl <;> rfl
  · rename_i hc
    simp only [Bool.or_eq_true, beq_iff_eq, not_or] at hc
    split
    · rename_i hplain
      obtain ⟨hlow, hhigh⟩ := isPlain_iff.1 hplain
      rw [List.singleton_append, readScriptBody_plain hc.1 hc.2, rereadChar, if_neg (by omega),
        if_pos (by omega)]
      rfl
    · split
      · rename_i l hl
        exact readScriptBody_escapeLetter hl rest
      · rename_i hl
        have hbell : c.toNat ≠ 0x07 := by
          intro h
          simp [escapeLetter?, h] at hl
        rw [rereadChar, if_neg hbell]
        dsimp only
        split
        · rename_i hn
          have hn : c.toNat < 0x100 := by
            simp only [Bool.or_eq_true, decide_eq_true_eq, beq_iff_eq] at hn
            omega
          rw [if_pos (by omega)]
          have hread := readScriptBody_hexTwo hn rest
          rw [Char.ofNat_toNat] at hread
          exact hread
        · split
          · rename_i hn
            have hread := readScriptBody_hexFour hn rest
            rw [Char.ofNat_toNat] at hread
            exact hread
          · have hdigits : ∀ d ∈ 'U' :: hex 8 c.toNat, d ≠ '"' ∧ d ≠ '\\' := by
              rw [List.forall_mem_cons]
              exact ⟨by decide, fun d ↦ plain_of_mem_hex⟩
            -- The engine drops the backslash and reads on at the letter.
            exact readScriptBody_plains hdigits rest

/-- A quoted character stands for itself, or is a backslash, one character and hexadecimal digits. -/
theorem escapeChar_cases (plain : Char → Bool) (c : Char) :
    (escapeChar plain c = [c] ∧ c ≠ '"' ∧ c ≠ '\\') ∨
      ∃ d ds, escapeChar plain c = '\\' :: d :: ds ∧ ∀ e ∈ ds, e ≠ '"' ∧ e ≠ '\\' := by
  unfold escapeChar
  split
  · exact .inr ⟨c, [], rfl, by simp⟩
  · rename_i hc
    simp only [Bool.or_eq_true, beq_iff_eq, not_or] at hc
    split
    · exact .inl ⟨rfl, hc⟩
    · split
      · exact .inr ⟨_, [], rfl, by simp⟩
      · dsimp only
        split_ifs
        all_goals exact .inr ⟨_, _, rfl, fun e ↦ plain_of_mem_hex⟩

/-! ## Texts -/

/-- What a script engine reads in a literal of a text that was quoted in ASCII. -/
def reread (s : String) : String := String.ofList (s.toList.flatMap rereadChar)

/-- Whether no character of a text is a bell or lies beyond the basic plane. -/
def IsRereadable (s : String) : Prop := ∀ c ∈ s.toList, c.toNat ≠ 0x07 ∧ c.toNat < 0x10000

-- Named, so that the search does not decide it for all characters instead of those of the text.
instance (s : String) : Decidable (IsRereadable s) := List.decidableBAll _ s.toList

/-- A quoted text is read as the characters that the script rereads. -/
theorem readScriptBody_quoted (cs : List Char) :
    readScriptBody (cs.flatMap (escapeChar isPlain) ++ ['"']) = some (cs.flatMap rereadChar) := by
  induction cs with
  | nil => rfl
  | cons c cs ih =>
      rw [List.flatMap_cons, List.append_assoc, readScriptBody_escapeChar, ih, List.flatMap_cons]
      rfl

theorem toList_quoteAscii (s : String) :
    (quoteAscii s).toList = '"' :: (s.toList.flatMap (escapeChar isPlain) ++ ['"']) :=
  String.toList_ofList

/-- Every quoted text can be read, but not always as itself. -/
theorem readScript?_quoteAscii (s : String) : readScript? (quoteAscii s) = some (reread s) := by
  rw [readScript?, toList_quoteAscii]
  simp only [readScriptBody_quoted]
  rfl

/-- Rereading does not shorten a text. -/
theorem length_le_flatMap_rereadChar (cs : List Char) :
    cs.length ≤ (cs.flatMap rereadChar).length := by
  induction cs with
  | nil => exact Nat.le_refl 0
  | cons c cs ih =>
      have hone : 1 ≤ (rereadChar c).length := by
        unfold rereadChar
        split
        · decide
        · split
          · exact Nat.le_refl 1
          · exact Nat.le_add_left 1 _
      rw [List.flatMap_cons, List.length_append, List.length_cons]
      omega

/-- A text is reread as itself if it has no bell and no character beyond the basic plane. -/
theorem flatMap_rereadChar_eq_self {cs : List Char} :
    cs.flatMap rereadChar = cs ↔ ∀ c ∈ cs, c.toNat ≠ 0x07 ∧ c.toNat < 0x10000 := by
  induction cs with
  | nil => simp
  | cons c cs ih =>
      rw [List.flatMap_cons, List.forall_mem_cons, ← ih, rereadChar]
      split
      · rename_i hbell
        constructor
        · intro h
          obtain rfl : 'a' = c := (List.cons.inj h).1
          cases hbell
        · intro h
          exact absurd hbell h.1.1
      · rename_i hbell
        split
        · rename_i hbasic
          simp [hbell, hbasic]
        · rename_i hbeyond
          constructor
          · -- Several characters for one leave the whole longer than it was.
            intro h
            have hlength := congrArg List.length h
            have hhex : 0 < (hex 8 c.toNat).length := by
              have hdigits := List.length_pos_iff.2 (Nat.toDigits_ne_nil (n := c.toNat) (b := 16))
              rw [hex, List.length_append]
              omega
            have hle := length_le_flatMap_rereadChar cs
            simp only [List.length_append, List.length_cons] at hlength
            omega
          · intro h
            exact absurd h.1.2 hbeyond

/-- Rereading keeps exactly the rereadable texts. -/
theorem reread_eq_self {s : String} : reread s = s ↔ IsRereadable s := by
  rw [IsRereadable, ← flatMap_rereadChar_eq_self, reread]
  constructor
  · intro h
    have hlist := congrArg String.toList h
    rwa [String.toList_ofList] at hlist
  · intro h
    rw [h, String.ofList_toList]

end ExprCompiler.Text
