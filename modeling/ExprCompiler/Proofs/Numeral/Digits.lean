import ExprCompiler.Numeral.Reader
import Mathlib.Data.List.TakeDrop
import Mathlib.Data.Rat.Lemmas
import Mathlib.Tactic.IntervalCases

/-!
# Reading decimal digits

The readers of numbers take decimal digits for what they spell. Main statement: the text of a
rational is read as that rational (`Numeral.readRat?_ratText`).
-/

namespace ExprCompiler.Numeral

/-! ## Digits -/

/-- A decimal digit is the character of a number below ten. -/
theorem exists_digitChar {c : Char} (h : c.isDigit = true) : ∃ d < 10, c = Nat.digitChar d := by
  obtain ⟨hlow, hhigh⟩ := Char.isDigit_iff_toNat.1 h
  rw [← Char.ofNat_toNat c]
  generalize c.toNat = n at hlow hhigh
  have hlow : 48 ≤ n := hlow
  have hhigh : n ≤ 57 := hhigh
  refine ⟨n - 48, by omega, ?_⟩
  interval_cases n <;> rfl

theorem digitBelow?_of_isDigit {c : Char} (h : c.isDigit = true) :
    digitBelow? 10 c = some (c.toNat - '0'.toNat) := by
  obtain ⟨d, hd, rfl⟩ := exists_digitChar h
  interval_cases d <;> decide

theorem ne_of_isDigit {c d : Char} (h : c.isDigit = true) (hd : d.isDigit = false) : c ≠ d := by
  rintro rfl
  rw [h] at hd
  cases hd

/-- Decimal texts of numbers are made of digits. -/
theorem isDigit_toDigits (n : Nat) : ∀ c ∈ Nat.toDigits 10 n, c.isDigit = true :=
  fun _ ↦ Nat.isDigit_of_mem_toDigits (by decide) (by decide)

/-- Only the numeral of zero begins with a zero. -/
theorem head_toDigits_ne_zero {n : Nat} (h : 0 < n) (rest : List Char) :
    Nat.toDigits 10 n ≠ '0' :: rest := by
  induction n using Nat.strongRecOn generalizing rest with
  | ind n ih =>
      rw [Nat.toDigits_eq_if (by decide)]
      split
      · rename_i hlt
        interval_cases n <;> simp [Nat.digitChar]
      · rename_i hge
        intro heq
        cases hdigits : Nat.toDigits 10 (n / 10) with
        | nil => exact Nat.toDigits_ne_nil hdigits
        | cons c cs =>
            rw [hdigits] at heq
            obtain rfl : c = '0' := (List.cons.inj heq).1
            exact ih (n / 10) (by omega) (by omega) cs hdigits

/-! ## Mantissas -/

/-- What a mantissa becomes when digits are read. -/
def Mantissa.extend (m : Mantissa) (ds : List Char) : Mantissa where
  value := Nat.ofDigitChars 10 ds m.value
  places := if m.point then m.places + ds.length else m.places
  point := m.point
  seen := m.seen || !ds.isEmpty

/-- Digits are read into the mantissa, and the rest is read on. -/
theorem readMantissa_digits (m : Mantissa) {ds : List Char} (hds : ∀ c ∈ ds, c.isDigit = true)
    (rest : List Char) :
    readMantissa 10 m (ds ++ rest) = readMantissa 10 (m.extend ds) rest := by
  induction ds generalizing m with
  | nil => simp [Mantissa.extend]
  | cons c ds ih =>
      obtain ⟨hc, hds⟩ := List.forall_mem_cons.1 hds
      have hunderscore : c ≠ '_' := ne_of_isDigit hc rfl
      have hpoint : c ≠ '.' := ne_of_isDigit hc rfl
      rw [List.cons_append, readMantissa]
      simp only [beq_iff_eq, hunderscore, if_false, Bool.false_and, beq_eq_false_iff_ne.2 hpoint,
        Bool.false_eq_true, digitBelow?_of_isDigit hc]
      rw [ih _ hds]
      congr 1
      cases hp : m.point <;>
        simp [Mantissa.extend, hp, Nat.ofDigitChars_cons, Nat.mul_comm, Nat.add_assoc, Nat.add_comm 1]

/-- Digits end where a character is none. -/
theorem readMantissa_end (m : Mantissa) {rest : List Char}
    (h : ∀ c ∈ rest.head?, c ≠ '_' ∧ (c = '.' → m.point = true) ∧ digitBelow? 10 c = none) :
    readMantissa 10 m rest = (m, rest) := by
  cases rest with
  | nil => rfl
  | cons c rest =>
      obtain ⟨hunderscore, hpoint, hdigit⟩ := h c rfl
      have hpoint : ¬(c = '.' ∧ m.point = false) := by
        rintro ⟨hc, hfalse⟩
        rw [hpoint hc] at hfalse
        cases hfalse
      simp [readMantissa, hunderscore, hpoint, hdigit]

/-! ## Rationals -/

theorem Scan.run_digits (pointOk : Bool) {ds : List Char} (hds : ∀ c ∈ ds, c.isDigit = true)
    (s : Scan) (hs : s.point = false) (hne : ds ≠ [] ∨ s.before = .digit) :
    Scan.run 10 pointOk s ds =
      ({ s with value := Nat.ofDigitChars 10 ds s.value, count := s.count + ds.length,
                before := .digit }, []) := by
  induction ds generalizing s with
  | nil =>
      have hbefore : s.before = .digit := hne.resolve_left fun h ↦ h rfl
      simp [Scan.run, hbefore]
  | cons c ds ih =>
      obtain ⟨hc, hds⟩ := List.forall_mem_cons.1 hds
      have hunderscore : c ≠ '_' := ne_of_isDigit hc rfl
      have hpoint : c ≠ '.' := ne_of_isDigit hc rfl
      rw [Scan.run]
      simp only [beq_iff_eq, hunderscore, if_false, Bool.false_and, beq_eq_false_iff_ne.2 hpoint,
        Bool.false_eq_true, digitBelow?_of_isDigit hc]
      rw [ih hds ⟨s.value * 10 + (c.toNat - '0'.toNat), s.count + 1, _, s.point, .digit, s.valid⟩ hs
        (.inr rfl)]
      simp [hs, Nat.ofDigitChars_cons, Nat.mul_comm, Nat.add_assoc, Nat.add_comm 1]

theorem takeSign_toDigits (n : Nat) :
    takeSign (Nat.toDigits 10 n) = (false, Nat.toDigits 10 n) := by
  cases hdigits : Nat.toDigits 10 n with
  | nil => rfl
  | cons c cs =>
      have hc := isDigit_toDigits n c (by simp [hdigits])
      unfold takeSign
      split
      · rename_i h
        cases h
        cases hc
      · rename_i h
        cases h
        cases hc
      · rfl

/-- A numeral is a number of base ten, whether a point may stand in it or not. -/
theorem scanNumber?_toDigits (pointOk : Bool) (n : Nat) :
    ∃ s : Scan, scanNumber? pointOk (Nat.toDigits 10 n) = some (s, 10, []) ∧
      s.value = n ∧ s.places = 0 := by
  have hrun := Scan.run_digits pointOk (isDigit_toDigits n) {} rfl (.inl Nat.toDigits_ne_nil)
  rw [Nat.ofDigitChars_ten_toDigits] at hrun
  have hlone : ∀ c rest, Nat.toDigits 10 n ≠ '0' :: c :: rest := by
    intro c rest h
    rcases Nat.eq_zero_or_pos n with rfl | hn
    · cases h
    · exact head_toDigits_ne_zero hn _ h
  refine ⟨{ value := n, count := 0 + (Nat.toDigits 10 n).length, before := .digit }, ?_, rfl, rfl⟩
  unfold scanNumber?
  split
  · rename_i c rest h
    exact absurd h (hlone c rest)
  · simp [hrun]

/-- The text of an integer is its digits behind its sign. -/
theorem toList_toString_int (z : Int) : (toString z).toList =
    (if z < 0 then ['-'] else []) ++ Nat.toDigits 10 z.natAbs := by
  rw [Int.toString_eq_repr, Int.repr_eq_if]
  split
  · rename_i h
    rw [Nat.toList_repr, if_neg (by omega), show z.toNat = z.natAbs by omega, List.nil_append]
  · rename_i h
    rw [String.toList_append, Nat.toList_repr, if_pos (by omega),
      show (-z).toNat = z.natAbs by omega]
    rfl

/-- The text of an integer is its sign and the digits of its magnitude. -/
theorem takeSign_toString_int (z : Int) :
    takeSign (toString z).toList = (decide (z < 0), Nat.toDigits 10 z.natAbs) := by
  rw [toList_toString_int]
  by_cases h : z < 0
  · simp [takeSign, h]
  · rw [if_neg h, List.nil_append, takeSign_toDigits, decide_eq_false h]

/-- The text of an integer goes on up to the stroke of a fraction. -/
theorem span_toString_int (z : Int) (rest : List Char) (hrest : ∀ c ∈ rest.head?, c = '/') :
    ((toString z).toList ++ rest).span (· != '/') = ((toString z).toList, rest) := by
  have hz : ∀ c ∈ (toString z).toList, (c != '/') = true := by
    intro c hc
    rw [toList_toString_int, List.mem_append] at hc
    rcases hc with hc | hc
    · split at hc
      · obtain rfl := List.mem_singleton.1 hc
        decide
      · cases hc
    · simpa using ne_of_isDigit (isDigit_toDigits _ c hc) rfl
  rw [List.span_eq_takeWhile_dropWhile, List.takeWhile_append_of_pos hz,
    List.dropWhile_append_of_pos hz]
  cases rest with
  | nil => simp
  | cons c rest =>
      obtain rfl := hrest c rfl
      simp

theorem signedRat_mkRat (z : Int) (d : Nat) :
    signedRat (decide (z < 0)) (mkRat z.natAbs d) = mkRat z d := by
  by_cases h : z < 0
  · rw [signedRat, if_pos (decide_eq_true h), Rat.neg_mkRat, show -(z.natAbs : Int) = z by omega]
  · rw [signedRat, if_neg (by simpa using h), show (z.natAbs : Int) = z by omega]

theorem scaleRat_zero (q : Rat) (b : Nat) : scaleRat q b 0 = q := by
  have hone : mkRat 1 1 = 1 := rfl
  simp [scaleRat, hone]

/-- The text of an integer is read as the integer. -/
theorem readScaled?_toString_int (z : Int) : readScaled? (toString z).toList = some (mkRat z 1) := by
  obtain ⟨s, hs, hvalue, hplaces⟩ := scanNumber?_toDigits true z.natAbs
  simp only [readScaled?, takeSign_toString_int, hs, Option.bind_eq_bind, Option.bind_some,
    scanScale?, hvalue, hplaces]
  by_cases hz : z = 0
  · subst hz
    rfl
  · simp only [beq_iff_eq, Int.natAbs_eq_zero, hz, if_false, if_true, Nat.cast_zero, neg_zero,
      add_zero, zero_mul, scaleRat_zero, signedRat_mkRat]
    rfl

/-- The text of a fraction is read as the fraction. -/
theorem readFraction?_toString (z : Int) {d : Nat} (hd : d ≠ 0) :
    readFraction? (toString z).toList (toString d).toList = some (mkRat z d) := by
  obtain ⟨s, hs, hvalue, -⟩ := scanNumber?_toDigits false z.natAbs
  obtain ⟨t, ht, hden, -⟩ := scanNumber?_toDigits false d
  simp only [readFraction?, takeSign_toString_int, hs, Option.bind_eq_bind, Option.bind_some,
    Nat.toString_eq_repr, Nat.toList_repr, ht, hvalue, hden, beq_iff_eq, hd, if_false,
    signedRat_mkRat]

/-- A fraction in decimal is read as its value, in lowest terms or not. -/
theorem readRat?_fraction (z : Int) {d : Nat} (hd : d ≠ 0) :
    readRat? (toString z ++ "/" ++ toString d) = some (mkRat z d) := by
  have hspan := span_toString_int z ('/' :: (toString d).toList) (by simp)
  have hlist : (toString z ++ "/" ++ toString d).toList =
      (toString z).toList ++ '/' :: (toString d).toList := by
    simp
  simp only [readRat?, hlist, hspan, readFraction?_toString z hd]

/-- The text of a rational is read as the rational. -/
theorem readRat?_ratText (q : Rat) : readRat? (ratText q) = some q := by
  have hmk : mkRat q.num q.den = q := Rat.mkRat_self q
  unfold ratText
  split
  · rename_i hden
    rw [beq_iff_eq.1 hden] at hmk
    have hspan := span_toString_int q.num [] (by simp)
    rw [List.append_nil] at hspan
    simp only [readRat?, hspan, readScaled?_toString_int, hmk]
  · rw [readRat?_fraction q.num q.den_nz, hmk]

end ExprCompiler.Numeral
