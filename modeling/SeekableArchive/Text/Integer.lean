/-!
# Reading integers

An integer is written in decimal digits, with a plus or a minus in front if one
likes; the minus only where negative numbers are among the admissible ones.  Of
several faults the leftmost is reported.
-/

namespace SeekableArchive
namespace Text

inductive IntegerFault
  | empty
  | invalidDigit
  | tooLarge
  | tooSmall
deriving DecidableEq

def IntegerFault.message : IntegerFault → String
  | empty => "cannot parse integer from empty string"
  | invalidDigit => "invalid digit found in string"
  | tooLarge => "number too large to fit in target type"
  | tooSmall => "number too small to fit in target type"

/-- The admissible integers, from the lowest to the highest. -/
structure IntegerRange where
  low : Int
  high : Int
deriving DecidableEq

namespace IntegerRange

def unsigned64 : IntegerRange := ⟨0, 0xFFFF_FFFF_FFFF_FFFF⟩

def signed64 : IntegerRange := ⟨-0x8000_0000_0000_0000, 0x7FFF_FFFF_FFFF_FFFF⟩

def Contains (r : IntegerRange) (n : Int) : Prop :=
  r.low ≤ n ∧ n ≤ r.high

instance (r : IntegerRange) (n : Int) : Decidable (r.Contains n) :=
  inferInstanceAs (Decidable (_ ∧ _))

end IntegerRange

/-- Reads digits behind those already read, as long as the number does not exceed `limit`. -/
def readDigits (limit : Nat) (excess : IntegerFault) :
    Nat → List Char → Except IntegerFault Nat
  | n, [] => .ok n
  | n, c :: cs =>
      if c.isDigit then
        let n := 10 * n + (c.toNat - '0'.toNat)
        if limit < n then .error excess else readDigits limit excess n cs
      else .error .invalidDigit

/-- Reads at least one digit. -/
def readNumeral (limit : Nat) (excess : IntegerFault) (digits : List Char) :
    Except IntegerFault Nat :=
  if digits = [] then .error .invalidDigit else readDigits limit excess 0 digits

def readInteger (range : IntegerRange) (text : String) : Except IntegerFault Int :=
  match text.toList with
  | [] => .error .empty
  | '+' :: digits => (readNumeral range.high.toNat .tooLarge digits).map (↑·)
  | '-' :: digits =>
      if range.low < 0 then
        (readNumeral (-range.low).toNat .tooSmall digits).map (-↑·)
      else .error .invalidDigit
  | digits => (readNumeral range.high.toNat .tooLarge digits).map (↑·)

end Text
end SeekableArchive
