import SeekableArchive.SeekTable

/-!
# Reads that may stop

The readers of this library take prefixes and drop them, which is defined for every byte
string.  Here are the same reads by position, in numbers of 64 bits: a place outside of the
bytes, or a position that cannot be written down, ends the computation.  A reader that is
written with these and always gives an answer has looked at no byte that is not there.
-/

namespace SeekableArchive

open LittleEndian

/-- What ends a computation on positions. -/
inductive Trap
  | outOfBounds
  | overflow
deriving DecidableEq

namespace Checked

/-- The first number that is too large for a position. -/
def limit : Nat := 0x1_0000_0000_0000_0000

def add (m n : Nat) : Except Trap Nat :=
  if m + n < limit then .ok (m + n) else .error .overflow

def mul (m n : Nat) : Except Trap Nat :=
  if m * n < limit then .ok (m * n) else .error .overflow

def sub (m n : Nat) : Except Trap Nat :=
  if n ≤ m then .ok (m - n) else .error .overflow

def slice (bs : Bytes) (start stop : Nat) : Except Trap Bytes :=
  if start ≤ stop ∧ stop ≤ bs.length then .ok ((bs.drop start).take (stop - start))
  else .error .outOfBounds

def byteAt (bs : Bytes) (place : Nat) : Except Trap UInt8 :=
  match bs[place]? with
  | none => .error .outOfBounds
  | some b => .ok b

/-- The word in the four bytes from a place on. -/
def wordAt (bs : Bytes) (place : Nat) : Except Trap UInt32 := do
  let stop ← add place 4
  let bytes ← slice bs place stop
  return readWord bytes

variable {m n start stop : Nat} {bs : Bytes}

@[simp] theorem ok_bind {α β : Type} (a : α) (next : α → Except Trap β) :
    (Except.ok a >>= next) = next a :=
  rfl

theorem exists_of_bind_eq_ok {α β : Type} {first : Except Trap α} {next : α → Except Trap β}
    {b : β} (h : first >>= next = .ok b) : ∃ a, first = .ok a ∧ next a = .ok b := by
  cases first with
  | error trap => cases h
  | ok a => exact ⟨a, rfl, h⟩

theorem add_eq_ok (h : m + n < limit) : add m n = .ok (m + n) :=
  if_pos h

theorem eq_of_add_eq_ok {sum : Nat} (h : add m n = .ok sum) : sum = m + n := by
  rw [add] at h
  split at h
  · exact (Except.ok.inj h).symm
  · cases h

theorem mul_eq_ok (h : m * n < limit) : mul m n = .ok (m * n) :=
  if_pos h

theorem sub_eq_ok (h : n ≤ m) : sub m n = .ok (m - n) :=
  if_pos h

theorem slice_eq_ok (hstart : start ≤ stop) (hstop : stop ≤ bs.length) :
    slice bs start stop = .ok ((bs.drop start).take (stop - start)) :=
  if_pos ⟨hstart, hstop⟩

theorem slice_add_eq_ok (h : start + n ≤ bs.length) :
    slice bs start (start + n) = .ok ((bs.drop start).take n) := by
  rw [slice_eq_ok (Nat.le_add_right start n) h, Nat.add_sub_cancel_left]

theorem byteAt_eq_ok (bs : Bytes) (place : Nat) (h : place < bs.length) (other : UInt8) :
    byteAt bs place = .ok ((bs.drop place).headD other) := by
  rw [byteAt, List.getElem?_eq_getElem h, List.drop_eq_getElem_cons h, List.headD_cons]

/-- A word that lies within the bytes is the word in front once those before it are dropped. -/
theorem wordAt_eq_ok (bs : Bytes) (place : Nat) (hplace : place + 4 ≤ bs.length)
    (hlength : bs.length < limit) :
    wordAt bs place = .ok (readWord (bs.drop place)) := by
  rw [wordAt, add_eq_ok (by omega), ok_bind, slice_add_eq_ok hplace, ok_bind]
  simp only [readWord, List.take_take, Nat.min_self]
  rfl

end Checked
end SeekableArchive
