/-!
# Byte strings and little-endian words

A payload is a list of bytes.  A number of `width` bytes is written with its
low byte first; reading the written form gives the number back, also when more
bytes follow it.
-/

namespace SeekableArchive

abbrev Bytes := List UInt8

namespace LittleEndian

/-- The `width` low bytes of a number, the lowest first. -/
def ofNat : Nat → Nat → Bytes
  | 0, _ => []
  | width + 1, value => UInt8.ofNat value :: ofNat width (value / 256)

/-- The number whose bytes these are, the lowest first. -/
def toNat : Bytes → Nat
  | [] => 0
  | b :: bs => b.toNat + 256 * toNat bs

@[simp] theorem length_ofNat (width value : Nat) : (ofNat width value).length = width := by
  induction width generalizing value with
  | zero => rfl
  | succ width ih => simp [ofNat, ih]

theorem toNat_lt (bs : Bytes) : toNat bs < Nat.pow 256 bs.length := by
  induction bs with
  | nil => decide
  | cons b bs ih =>
      have hb := b.toNat_lt
      simp only [toNat, List.length_cons, Nat.pow_eq, Nat.pow_succ] at ih ⊢
      omega

theorem toNat_ofNat {width value : Nat} (h : value < Nat.pow 256 width) :
    toNat (ofNat width value) = value := by
  induction width generalizing value with
  | zero =>
      simp only [Nat.pow_eq, Nat.pow_zero] at h
      simp only [ofNat, toNat]
      omega
  | succ width ih =>
      have hdiv : value / 256 < Nat.pow 256 width := by
        rw [Nat.pow_eq, Nat.pow_succ, ← Nat.pow_eq] at h
        exact Nat.div_lt_of_lt_mul (by omega)
      simp only [ofNat, toNat, ih hdiv, UInt8.toNat_ofNat']
      omega

theorem ofNat_toNat (bs : Bytes) : ofNat bs.length (toNat bs) = bs := by
  induction bs with
  | nil => rfl
  | cons b bs ih =>
      have hb := b.toNat_lt
      have hlow : UInt8.ofNat (b.toNat + 256 * toNat bs) = b := by
        apply UInt8.toNat_inj.mp
        rw [UInt8.toNat_ofNat']
        omega
      have hhigh : (b.toNat + 256 * toNat bs) / 256 = toNat bs := by omega
      simp [toNat, ofNat, hlow, hhigh, ih]

/-- The four bytes of a word. -/
def word (w : UInt32) : Bytes :=
  ofNat 4 w.toNat

/-- The word in the first four bytes; bytes that are not there count as zero. -/
def readWord (bs : Bytes) : UInt32 :=
  UInt32.ofNat (toNat (bs.take 4))

@[simp] theorem length_word (w : UInt32) : (word w).length = 4 := by
  simp [word]

@[simp] theorem readWord_word_append (w : UInt32) (rest : Bytes) :
    readWord (word w ++ rest) = w := by
  have hw : w.toNat < Nat.pow 256 4 := w.toNat_lt
  simp [readWord, word, toNat_ofNat hw]

@[simp] theorem readWord_word (w : UInt32) : readWord (word w) = w := by
  simpa using readWord_word_append w []

theorem word_readWord {bs : Bytes} (h : 4 ≤ bs.length) : word (readWord bs) = bs.take 4 := by
  have hlen : (bs.take 4).length = 4 := by simp [h]
  have hlt : toNat (bs.take 4) < UInt32.size := by
    have := toNat_lt (bs.take 4)
    rwa [hlen] at this
  have hround := ofNat_toNat (bs.take 4)
  rw [hlen] at hround
  rw [word, readWord, UInt32.toNat_ofNat_of_lt' hlt, hround]

end LittleEndian

end SeekableArchive
