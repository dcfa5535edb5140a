import SeekableArchive.Error

/-!
# Reserving memory

A reservation of more than `2 ^ 63 - 1` bytes exceeds what a buffer may ever
hold; one that reaches past the address space is refused by the allocator;
every other one is granted.
-/

namespace SeekableArchive

inductive ReservationFailure
  | capacityOverflow
  | outOfMemory
deriving DecidableEq

def ReservationFailure.message : ReservationFailure → String
  | .capacityOverflow =>
      "memory allocation failed because the computed capacity exceeded the collection's maximum"
  | .outOfMemory => "memory allocation failed because the memory allocator returned an error"

namespace Reservation

/-- The most bytes that one buffer may hold. -/
def maxCapacity : Nat := 0x7FFF_FFFF_FFFF_FFFF

/-- The bytes that can be addressed. -/
def addressSpace : Nat := 0x8000_0000_0000

def reserve (size : Nat) : Except ReservationFailure Unit :=
  if maxCapacity < size then .error .capacityOverflow
  else if addressSpace ≤ size then .error .outOfMemory
  else .ok ()

theorem reserve_eq_ok_iff {size : Nat} : reserve size = .ok () ↔ size < addressSpace := by
  by_cases hcap : maxCapacity < size
  · have hspace : ¬ size < addressSpace := by simp only [maxCapacity, addressSpace] at *; omega
    simp [reserve, hcap, hspace]
  · by_cases hspace : addressSpace ≤ size
    · simp [reserve, hcap, hspace]
    · simp [reserve, hcap, hspace, Nat.lt_of_not_ge hspace]

/-- Reserves a buffer of `size` bytes, named in the error if it fails. -/
def buffer (what : String) (size : Nat) : Except ArchiveError Unit :=
  match reserve size with
  | .ok () => .ok ()
  | .error failure =>
      .error (.allocation (what ++ " (" ++ toString size ++ " bytes): " ++ failure.message))

end Reservation

end SeekableArchive
