import ExprCompiler.Text.Printable

/-!
# Quoted text

Names are quoted in messages (`quote`) and, with ASCII alone, in generated scripts (`quoteAscii`).
`readScript` reads such a literal the way a script engine does: it knows neither the escape for a
bell nor the eight-digit one, and takes the letter after their backslash for itself.
-/

namespace ExprCompiler.Text

/-- The lower-case hexadecimal digits of `n`, at least `width` of them. -/
def hex (width n : Nat) : List Char :=
  let ds := Nat.toDigits 16 n
  List.replicate (width - ds.length) '0' ++ ds

/-- The letter of a one-letter escape. -/
def escapeLetter? (c : Char) : Option Char :=
  match c.toNat with
  | 0x07 => some 'a'
  | 0x08 => some 'b'
  | 0x0c => some 'f'
  | 0x0a => some 'n'
  | 0x0d => some 'r'
  | 0x09 => some 't'
  | 0x0b => some 'v'
  | _ => none

/-- One character between quotes, where `plain` says which characters stand for themselves. -/
def escapeChar (plain : Char → Bool) (c : Char) : List Char :=
  if c == '"' || c == '\\' then ['\\', c]
  else if plain c then [c]
  else
    match escapeLetter? c with
    | some l => ['\\', l]
    | none =>
      let n := c.toNat
      if n < 0x20 || n == 0x7f then '\\' :: 'x' :: hex 2 n
      else if n < 0x10000 then '\\' :: 'u' :: hex 4 n
      else '\\' :: 'U' :: hex 8 n

def quoteWith (plain : Char → Bool) (s : String) : String :=
  String.ofList ('"' :: (s.toList.flatMap (escapeChar plain) ++ ['"']))

/-- The text in double quotes, with escapes for what cannot be printed. -/
def quote (s : String) : String := quoteWith isPrintable s

/-- The text in double quotes, written in ASCII alone. -/
def quoteAscii (s : String) : String :=
  quoteWith (fun c ↦ c.toNat < 0x80 && isPrintable c) s

/-! ## Reading a literal -/

def hexValue? (cs : List Char) : Option Nat :=
  cs.foldl (fun acc c ↦ do
    let n ← acc
    if '0' ≤ c && c ≤ '9' then some (n * 16 + (c.toNat - '0'.toNat))
    else if 'a' ≤ c && c ≤ 'f' then some (n * 16 + (c.toNat - 'a'.toNat + 10))
    else if 'A' ≤ c && c ≤ 'F' then some (n * 16 + (c.toNat - 'A'.toNat + 10))
    else none) (some 0)

/-- What a script's one-letter escape stands for; any other letter stands for itself. -/
def scriptEscape (c : Char) : Char :=
  match c with
  | 'b' => Char.ofNat 0x08
  | 'f' => Char.ofNat 0x0c
  | 'n' => '\n'
  | 'r' => Char.ofNat 0x0d
  | 't' => '\t'
  | 'v' => Char.ofNat 0x0b
  | c => c

/-- The characters of a script literal up to its closing quote; `none` if it has none, or if a
numeric escape lacks digits. -/
def readScriptBody : List Char → Option (List Char)
  | [] => none
  | '"' :: rest => if rest.isEmpty then some [] else none
  | '\\' :: 'x' :: a :: b :: rest => do
    let n ← hexValue? [a, b]
    (Char.ofNat n :: ·) <$> readScriptBody rest
  | '\\' :: 'u' :: a :: b :: c :: d :: rest => do
    let n ← hexValue? [a, b, c, d]
    (Char.ofNat n :: ·) <$> readScriptBody rest
  | '\\' :: c :: rest =>
    if c == 'x' || c == 'u' then none else (scriptEscape c :: ·) <$> readScriptBody rest
  | c :: rest => (c :: ·) <$> readScriptBody rest

/-- The text that a script engine reads from a double-quoted literal. -/
def readScript? (literal : String) : Option String :=
  match literal.toList with
  | '"' :: cs => String.ofList <$> readScriptBody cs
  | _ => none

end ExprCompiler.Text
