/-!
# Words

Machine words have 64 bits. Signed ones lie from `-2^63` up to, and without, `2^63`; unsigned ones
lie below `2^64`.
-/

namespace ExprCompiler.Numeral

/-- The least natural number that is no signed word, `2^63`. -/
def signedBound : Nat := 0x8000000000000000

/-- How many words there are, `2^64`. -/
def wordCount : Nat := 0x10000000000000000

/-- Whether an integer is a signed word. -/
def isWord (n : Int) : Bool := -(signedBound : Int) ≤ n && n < signedBound

/-- The signed word with the low bits of an integer. -/
def lowBits (n : Int) : Int := Int.bmod n wordCount

end ExprCompiler.Numeral
