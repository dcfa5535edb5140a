import SeekableArchive.Xxh64

/-!
# Hashing in pieces

A hasher that has taken in a byte string in pieces, of any sizes, is the hasher that
has taken it in at once, and its digest is the hash of the whole.  The pieces meet in
the middle of a stripe: what the first left over is a prefix of the next stripe.
-/

namespace SeekableArchive
namespace Xxh64

namespace Lanes

theorem absorbStripes_add (lanes : Lanes) (count count' : Nat) (data : Bytes) :
    absorbStripes (count + count') lanes data =
      absorbStripes count' (absorbStripes count lanes data).1
        (absorbStripes count lanes data).2 := by
  induction count generalizing lanes data with
  | zero => simp [absorbStripes]
  | succ count ih =>
      rw [Nat.succ_add]
      simp only [absorbStripes]
      exact ih _ _

/-- Stripes that lie in the front are taken in whatever follows. -/
theorem absorbStripes_append (lanes : Lanes) {count : Nat} {front : Bytes}
    (h : 32 * count ≤ front.length) (back : Bytes) :
    absorbStripes count lanes (front ++ back) =
      ((absorbStripes count lanes front).1, (absorbStripes count lanes front).2 ++ back) := by
  induction count generalizing lanes front with
  | zero => rfl
  | succ count ih =>
      simp only [absorbStripes]
      rw [List.take_append_of_le_length (by omega), List.drop_append_of_le_length (by omega)]
      exact ih _ (by rw [List.length_drop]; omega)

theorem absorbStripes_snd (lanes : Lanes) (count : Nat) (data : Bytes) :
    (absorbStripes count lanes data).2 = data.drop (32 * count) := by
  induction count generalizing lanes data with
  | zero => rfl
  | succ count ih =>
      simp only [absorbStripes, ih, List.drop_drop]
      congr 1
      omega

theorem absorb_append (lanes : Lanes) (front back : Bytes) :
    lanes.absorb (front ++ back) =
      (lanes.absorb front).1.absorb ((lanes.absorb front).2 ++ back) := by
  have hleft : (lanes.absorb front).2.length = front.length % 32 := by
    rw [absorb, absorbStripes_snd, List.length_drop]
    omega
  have hcount : (front ++ back).length / 32 =
      front.length / 32 + ((lanes.absorb front).2 ++ back).length / 32 := by
    rw [List.length_append, List.length_append, hleft]
    omega
  calc
    lanes.absorb (front ++ back) =
        absorbStripes (((lanes.absorb front).2 ++ back).length / 32)
          (absorbStripes (front.length / 32) lanes (front ++ back)).1
          (absorbStripes (front.length / 32) lanes (front ++ back)).2 := by
      rw [absorb, hcount, absorbStripes_add]
    _ = (lanes.absorb front).1.absorb ((lanes.absorb front).2 ++ back) := by
      rw [absorbStripes_append lanes (by omega)]
      rfl

end Lanes

namespace Hasher

@[simp] theorem update_update (h : Hasher) (front back : Bytes) :
    (h.update front).update back = h.update (front ++ back) := by
  have habsorb := Lanes.absorb_append h.lanes (h.rest ++ front) back
  rw [List.append_assoc] at habsorb
  simp only [update, habsorb, List.length_append, Nat.add_assoc]

@[simp] theorem start_update_nil : start.update [] = start := rfl

@[simp] theorem checksum_start_update (data : Bytes) :
    (start.update data).checksum = Xxh64.checksum data := by
  simp [checksum, digest, update, start, Xxh64.checksum, hash]

end Hasher

end Xxh64
end SeekableArchive
