/-! Bytes, 64-bit words and the little-endian correspondence between them. A number is written as
its low base-256 digits, low digit first; `numeral` reads a digit list back, and the two are inverse
up to the number of digits kept. -/
namespace ForeignCall

abbrev Byte := BitVec 8
abbrev Word := BitVec 64

/-- The low `n` base-256 digits of a number, low digit first. -/
def digits : Nat → Nat → List Byte
  | 0, _ => []
  | n + 1, value => BitVec.ofNat 8 value :: digits n (value / 256)

/-- The number that a digit list denotes, low digit first. -/
def numeral : List Byte → Nat
  | [] => 0
  | digit :: rest => digit.toNat + 256 * numeral rest

@[simp] theorem digits_length (n value : Nat) : (digits n value).length = n := by
  induction n generalizing value with
  | zero => rfl
  | succ n ih => simp [digits, ih]

def Word.bytes (word : Word) : List Byte := digits 8 word.toNat

/-- The word that up to eight bytes denote; missing high bytes are zero. -/
def Word.ofBytes (bytes : List Byte) : Word := BitVec.ofNat 64 (numeral bytes)

@[simp] theorem Word.bytes_length (word : Word) : word.bytes.length = 8 := digits_length ..

end ForeignCall
