import ExprCompiler.Numeral.Binary

/-!
# Reading numbers

Three grammars: integers with an optional base mark (`readInt`), decimal or hexadecimal doubles
(`readFloat`), and exact rationals as fractions or scaled decimals (`readRat?`). An underscore may
stand between two digits or right after a base mark.
-/

namespace ExprCompiler.Numeral

/-- Why a number could not be read. -/
inductive ReadError where
  | malformed
  | outOfRange
deriving DecidableEq, Repr

/-- The value of a digit or letter, in either case. -/
def digitValue? (c : Char) : Option Nat :=
  if '0' ≤ c && c ≤ '9' then some (c.toNat - '0'.toNat)
  else if 'a' ≤ c && c ≤ 'z' then some (c.toNat - 'a'.toNat + 10)
  else if 'A' ≤ c && c ≤ 'Z' then some (c.toNat - 'A'.toNat + 10)
  else none

def digitBelow? (base : Nat) (c : Char) : Option Nat :=
  (digitValue? c).filter (· < base)

/-- The base that a letter after a leading zero marks. -/
def markedBase? (c : Char) : Option Nat :=
  match c.toLower with
  | 'b' => some 2
  | 'o' => some 8
  | 'x' => some 16
  | _ => none

/-- Takes off an optional sign; the flag says whether it was a minus. -/
def takeSign : List Char → Bool × List Char
  | '-' :: cs => (true, cs)
  | '+' :: cs => (false, cs)
  | cs => (false, cs)

/-! ## Underscores -/

/-- What stood before the character at hand, as far as an underscore cares. -/
inductive Before where
  | digit
  | underscore
  | other
deriving DecidableEq, Repr

/-- Whether every underscore follows a digit and is followed by one. -/
def separatorsOk (isDigit : Char → Bool) : Before → List Char → Bool
  | before, [] => before != .underscore
  | before, c :: cs =>
    if isDigit c then separatorsOk isDigit .digit cs
    else if c == '_' then before == .digit && separatorsOk isDigit .underscore cs
    else before != .underscore && separatorsOk isDigit .other cs

/-- `separatorsOk` after an optional sign; a base mark counts as a digit. -/
def underscoresOk (cs : List Char) : Bool :=
  let (_, cs) := takeSign cs
  match cs with
  | '0' :: c :: rest =>
    match markedBase? c with
    | some b => separatorsOk (fun c ↦ (digitBelow? (max b 10) c).isSome) .digit rest
    | none => separatorsOk Char.isDigit .other cs
  | _ => separatorsOk Char.isDigit .other cs

/-! ## Integers -/

/-- Splits off a base mark; a bare leading zero marks octal. -/
def splitBase : List Char → Nat × List Char
  | '0' :: c :: d :: rest =>
    match markedBase? c with
    | some b => (b, d :: rest)
    | none => (8, c :: d :: rest)
  | '0' :: rest => (8, rest)
  | cs => (10, cs)

/-- The digits of an unsigned word. Past the largest word nothing more is looked at. -/
def wordDigits (base : Nat) : Nat → List Char → Except ReadError Nat
  | n, [] => .ok n
  | n, c :: cs =>
    if c == '_' then wordDigits base n cs
    else
      match digitBelow? base c with
      | none => .error .malformed
      | some d =>
        let n := n * base + d
        if wordCount ≤ n then .error .outOfRange else wordDigits base n cs

/-- A signed 64-bit integer, in base ten or the base that its mark names. -/
def readInt (s : String) : Except ReadError Int := do
  let cs := s.toList
  let (negative, body) := takeSign cs
  if body.isEmpty then throw .malformed
  let (base, digits) := splitBase body
  let n ← wordDigits base 0 digits
  if cs.contains '_' && !underscoresOk cs then throw .malformed
  if negative then
    if signedBound < n then throw .outOfRange
    return -(n : Int)
  else
    if signedBound ≤ n then throw .outOfRange
    return n

/-! ## Doubles -/

/-- Digits of a mantissa: their value, how many stand after the point, and whether any was seen. -/
structure Mantissa where
  value : Nat := 0
  places : Nat := 0
  point : Bool := false
  seen : Bool := false
deriving DecidableEq, Repr

/-- Reads digits around at most one point, passing over underscores. -/
def readMantissa (base : Nat) : Mantissa → List Char → Mantissa × List Char
  | m, [] => (m, [])
  | m, c :: cs =>
    if c == '_' then readMantissa base m cs
    else if c == '.' && !m.point then readMantissa base { m with point := true } cs
    else
      match digitBelow? base c with
      | none => (m, c :: cs)
      | some d =>
        let places := if m.point then m.places + 1 else m.places
        readMantissa base { m with value := m.value * base + d, places, seen := true } cs

/-- The value of decimal digits, once it is past ten thousand left as it is. -/
def cappedExponent : Nat → List Char → Nat × List Char
  | e, [] => (e, [])
  | e, c :: cs =>
    if c == '_' then cappedExponent e cs
    else if c.isDigit then
      cappedExponent (if e < 10000 then e * 10 + (c.toNat - '0'.toNat) else e) cs
    else (e, c :: cs)

/-- A mark, an optional sign and digits; `none` if the mark has no digits after it. -/
def readExponent (mark : Char) : List Char → Option (Option Int × List Char)
  | [] => some (none, [])
  | c :: cs =>
    if c.toLower != mark then some (none, c :: cs)
    else
      let (negative, cs) := takeSign cs
      match cs with
      | d :: _ =>
        if d.isDigit then
          let (e, rest) := cappedExponent 0 cs
          some (some (if negative then -(e : Int) else e), rest)
        else none
      | [] => none

/-- The double nearest to `m · 10^e`; exponents far outside its range need no arithmetic. -/
def scaleTen (m : Nat) (e : Int) : Float :=
  let leading := e + (Nat.toDigits 10 m).length
  if m == 0 then 0.0
  else if 310 < leading then 1.0 / 0.0
  else if leading < -330 then 0.0
  else if 0 ≤ e then nearestQuotient (m * Nat.pow 10 e.toNat) 1
  else nearestQuotient m (Nat.pow 10 (-e).toNat)

/-- The double nearest to an unsigned decimal; past the largest it is an infinity. -/
def decimal (cs : List Char) : Float :=
  let (m, rest) := readMantissa 10 {} cs
  let e := ((readExponent 'e' rest).bind (·.1)).getD 0
  scaleTen m.value (e - m.places)

/-- The double nearest to `m · 2^e`. -/
def scaleTwo (m : Nat) (e : Int) : Float :=
  if 0 ≤ e then nearestQuotient (m * Nat.pow 2 e.toNat) 1
  else nearestQuotient m (Nat.pow 2 (-e).toNat)

def finite (x : Float) : Except ReadError Float :=
  if x.isInf then .error .outOfRange else .ok x

/-- The words for values that no digits spell. Only an infinity may have a sign. -/
def readWord? (cs : List Char) : Option Float :=
  let (negative, body) := takeSign cs
  let word := String.ofList (body.map Char.toLower)
  if word == "inf" || word == "infinity" then some (if negative then -1.0 / 0.0 else 1.0 / 0.0)
  else if String.ofList (cs.map Char.toLower) == "nan" then some (0.0 / 0.0)
  else none

/-- Whether a number without its sign is marked as hexadecimal. -/
def isHex : List Char → Bool
  | '0' :: c :: _ :: _ => c.toLower == 'x'
  | _ => false

/-- A double: a word, a decimal, or a hexadecimal, whose binary exponent is required. -/
def readFloat (s : String) : Except ReadError Float := do
  let cs := s.toList
  if let some x := readWord? cs then return x
  let (negative, body) := takeSign cs
  let negate (x : Float) := if negative then -x else x
  let hex := isHex body
  if cs.contains '_' && !(hex && underscoresOk cs) then throw .malformed
  let (m, rest) := readMantissa (if hex then 16 else 10) {} (if hex then body.drop 2 else body)
  if !m.seen then throw .malformed
  match readExponent (if hex then 'p' else 'e') rest with
  | some (e, []) =>
    if hex then
      match e with
      | none => throw .malformed
      | some e => return negate (← finite (scaleTwo m.value (e - 4 * m.places)))
    else return negate (← finite (scaleTen m.value (e.getD 0 - m.places)))
  | _ => throw .malformed

/-! ## Rationals -/

/-- Digits of one part of a rational. -/
structure Scan where
  value : Nat := 0
  count : Nat := 0
  places : Nat := 0
  point : Bool := false
  before : Before := .other
  valid : Bool := true
deriving DecidableEq, Repr

/-- Reads digits, underscores and, if allowed, one point, as far as they go. -/
def Scan.run (base : Nat) (pointOk : Bool) : Scan → List Char → Scan × List Char
  | s, [] => ({ s with valid := s.valid && s.before != .underscore }, [])
  | s, c :: cs =>
    if c == '.' && pointOk && !s.point then
      Scan.run base pointOk
        { s with point := true, valid := s.valid && s.before != .underscore, before := .other } cs
    else if c == '_' then
      Scan.run base pointOk
        { s with valid := s.valid && s.before == .digit, before := .underscore } cs
    else
      match digitBelow? base c with
      | none => ({ s with valid := s.valid && s.before != .underscore }, c :: cs)
      | some d =>
        Scan.run base pointOk
          { s with value := s.value * base + d, count := s.count + 1,
                   places := if s.point then s.places + 1 else s.places, before := .digit } cs

/-- One unsigned number with its base. A bare leading zero marks octal where no point may stand;
alone it is the number zero. -/
def scanNumber? (pointOk : Bool) (cs : List Char) : Option (Scan × Nat × List Char) :=
  let finish (base : Nat) (lone : Bool) (r : Scan × List Char) : Option (Scan × Nat × List Char) :=
    let (s, rest) := r
    if !s.valid then none
    else if s.count == 0 && !lone then none
    else some (s, base, rest)
  match cs with
  | '0' :: c :: rest =>
    match markedBase? c with
    | some b => finish b false (Scan.run b pointOk { before := .digit } rest)
    | none =>
      if pointOk then finish 10 false (Scan.run 10 true {} cs)
      else finish 8 true (Scan.run 8 false { before := .digit } (c :: rest))
  | _ => finish 10 false (Scan.run 10 pointOk {} cs)

/-- The base of a scale and its power, then what is left; `none` if it is broken. -/
def scanScale? : List Char → Option (Nat × Int × List Char)
  | [] => some (10, 0, [])
  | c :: cs =>
    let base? := match c.toLower with
      | 'e' => some 10
      | 'p' => some 2
      | _ => none
    match base? with
    | none => some (10, 0, c :: cs)
    | some base =>
      let (negative, cs) := takeSign cs
      let (s, rest) := Scan.run 10 false {} cs
      let e : Int := if negative then -(s.value : Int) else s.value
      if s.count == 0 || !s.valid || !isWord e then none else some (base, e, rest)

/-- The product `q · b^e`. -/
def scaleRat (q : Rat) (b : Nat) (e : Int) : Rat :=
  if 0 ≤ e then q * mkRat (Nat.pow b e.toNat) 1 else q * mkRat 1 (Nat.pow b (-e).toNat)

def signedRat (negative : Bool) (q : Rat) : Rat := if negative then -q else q

/-- A fraction of integers with a positive denominator. -/
def readFraction? (num den : List Char) : Option Rat := do
  let (negative, num) := takeSign num
  let (n, _, []) ← scanNumber? false num | none
  let (d, _, []) ← scanNumber? false den | none
  if d.value == 0 then none
  else some (signedRat negative (mkRat n.value d.value))

/-- A scaled decimal. The powers of five and of two that the scale stands for are bounded. -/
def readScaled? (cs : List Char) : Option Rat := do
  let (negative, cs) := takeSign cs
  let (m, base, rest) ← scanNumber? true cs
  let (scaleBase, e, []) ← scanScale? rest | none
  if m.value == 0 then return 0
  let places : Int := m.places
  let fives := (if base == 10 then -places else 0) + (if scaleBase == 10 then e else 0)
  let perDigit : Int := match base with
    | 8 => 3
    | 16 => 4
    | _ => 1
  let twos := -places * perDigit + e
  if 1000000 < fives.natAbs || 10000000 < twos.natAbs then none
  else some (signedRat negative (scaleRat (scaleRat (mkRat m.value 1) 5 fives) 2 twos))

/-- An exact rational: an integer fraction `p/q`, or a decimal with a power of ten or two. -/
def readRat? (s : String) : Option Rat :=
  let cs := s.toList
  let (num, rest) := cs.span (· != '/')
  match rest with
  | _ :: den => readFraction? num den
  | [] => readScaled? cs

/-- The usual text of a rational: an integer, or `p/q` in lowest terms. -/
def ratText (q : Rat) : String :=
  if q.den == 1 then toString q.num else toString q.num ++ "/" ++ toString q.den

/-- The text of a rational that always has a denominator. -/
def fractionText (q : Rat) : String := toString q.num ++ "/" ++ toString q.den

end ExprCompiler.Numeral
