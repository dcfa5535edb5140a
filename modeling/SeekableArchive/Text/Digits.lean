/-!
# Digits

Numbers written with a fixed number of digits: hexadecimal words for error
texts and dumps, decimal places for fractions.
-/

namespace SeekableArchive
namespace Text

/-- The low `width` digits of a number in a base of at most sixteen, the highest first. -/
def fixedDigits (base : Nat) : Nat → Nat → List Char
  | 0, _ => []
  | width + 1, n => fixedDigits base width (n / base) ++ [Nat.digitChar (n % base)]

@[simp] theorem length_fixedDigits (base width n : Nat) :
    (fixedDigits base width n).length = width := by
  induction width generalizing n with
  | zero => rfl
  | succ width ih => simp [fixedDigits, ih]

def hex (width n : Nat) : String :=
  String.ofList (fixedDigits 16 width n)

/-- A number with its base in front, in at least so many digits. -/
def hexLiteral (width n : Nat) : String :=
  "0x" ++ hex width n

/-- Two digits per byte. -/
def hexBytes (bytes : List UInt8) : String :=
  String.ofList (bytes.flatMap fun b => fixedDigits 16 2 b.toNat)

end Text
end SeekableArchive
