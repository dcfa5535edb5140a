import SeekableArchive.Proofs.StoredFrames

/-!
# Where frames end

A reader is local if what it reads comes from the bytes that it takes, whatever is behind
them.  `skipFrame` goes over a frame without decoding it and is local, so no complete frame
is the beginning of another one.
-/

namespace SeekableArchive
namespace Zstd

open LittleEndian

/-- If `read` leaves `rest` of these bytes, it would leave anything else in its place. -/
def LocalAt {ρ : Type} (read result : Bytes → ρ) (bs : Bytes) : Prop :=
  ∀ ⦃rest : Bytes⦄, read bs = result rest →
    ∃ front, bs = front ++ rest ∧ ∀ rest', read (front ++ rest') = result rest'

def Local {ρ : Type} (read result : Bytes → ρ) : Prop :=
  ∀ bs, LocalAt read result bs

theorem bind_eq_ok_iff {α β : Type} {first : Except DecodeError α}
    {next : α → Except DecodeError β} {b : β} :
    (first >>= next) = .ok b ↔ ∃ a, first = .ok a ∧ next a = .ok b := by
  cases first with
  | error e => simp [Bind.bind, Except.bind]
  | ok a => simp [Bind.bind, Except.bind]

theorem unless_eq_ok_iff {α β : Type} {p : Prop} [Decidable p] {e : DecodeError}
    {next : α → Except DecodeError β} {other : Except DecodeError β} {b : β} :
    (if p then throw e >>= next else other) = .ok b ↔ ¬ p ∧ other = .ok b := by
  by_cases hp : p
  · simp only [hp, if_true, not_true_eq_false, false_and, iff_false]
    intro h
    cases h
  · simp [hp]

section Rules

/-- A reader that goes on where a local one has ended. -/
theorem Local.step {ρ τ : Type} {read mid : Bytes → ρ} {whole next result : Bytes → τ}
    {bs between : Bytes} (hread : Local read mid) (hbs : read bs = mid between)
    (hwhole : ∀ ⦃bs between : Bytes⦄, read bs = mid between → whole bs = next between)
    (hnext : LocalAt next result between) : LocalAt whole result bs := by
  intro rest h
  obtain ⟨front, rfl, hfront⟩ := hread bs hbs
  rw [hwhole hbs] at h
  obtain ⟨back, rfl, hback⟩ := hnext h
  refine ⟨front ++ back, (List.append_assoc _ _ _).symm, ?_⟩
  intro rest'
  rw [List.append_assoc, hwhole (hfront (back ++ rest'))]
  exact hback rest'

variable {α β : Type} {value : Bytes → β}

theorem split_local (n : Nat) (taken : Bytes) :
    Local (split n) fun rest => .ok (taken, rest) := by
  intro bs rest h
  obtain ⟨rfl, hlength⟩ := split_eq_ok_iff.mp h
  exact ⟨taken, rfl, fun rest' => split_append hlength rest'⟩

theorem local_pure (a b : α) :
    Local (fun bs => (pure (a, bs) : Except DecodeError (α × Bytes))) fun rest => .ok (b, rest) := by
  intro bs rest h
  cases h
  exact ⟨[], rfl, fun _ => rfl⟩

theorem local_rest : Local (fun bs => (pure bs : Except DecodeError Bytes)) .ok := by
  intro bs rest h
  cases h
  exact ⟨[], rfl, fun _ => rfl⟩

theorem local_some : Local some (some : Bytes → Option Bytes) := by
  intro bs rest h
  cases h
  exact ⟨[], rfl, fun _ => rfl⟩

theorem local_throw (e : DecodeError) :
    Local (fun _ => (throw e : Except DecodeError β)) fun rest => .ok (value rest) := by
  intro bs rest h
  cases h

theorem Local.bind {read : Bytes → Except DecodeError (α × Bytes)}
    {next : α × Bytes → Except DecodeError β} (hread : ∀ a, Local read fun rest => .ok (a, rest))
    (hnext : ∀ a, Local (fun bs => next (a, bs)) fun rest => .ok (value rest)) :
    Local (fun bs => read bs >>= next) fun rest => .ok (value rest) := by
  intro bs
  cases hbs : read bs with
  | error e =>
      intro rest h
      simp only [hbs, Bind.bind, Except.bind] at h
      cases h
  | ok taken =>
      apply (hread taken.1).step hbs
      · intro bs between hbs
        rw [hbs]
      · exact hnext taken.1 taken.2

theorem Local.ite {p : Prop} [Decidable p] {read read' : Bytes → Except DecodeError β}
    (h : Local read fun rest => .ok (value rest)) (h' : Local read' fun rest => .ok (value rest)) :
    Local (fun bs => if p then read bs else read' bs) fun rest => .ok (value rest) := by
  by_cases hp : p
  · simp only [if_pos hp]
    exact h
  · simp only [if_neg hp]
    exact h'

end Rules

theorem readHeader_local (header : FrameHeader) :
    Local readHeader fun rest => .ok (header, rest) := by
  apply Local.bind (split_local 1)
  intro first
  apply Local.bind (split_local _)
  intro window
  apply Local.bind (split_local _)
  intro dictionary
  apply Local.bind (split_local _)
  intro size
  apply Local.ite
  · exact local_throw _
  apply Local.ite
  · exact local_throw _
  · exact local_pure _ _

/-! ## The blocks of a frame -/

theorem readBlockHeader_local (header : BlockHeader) :
    Local readBlockHeader fun rest => .ok (header, rest) := by
  intro bs
  cases hbs : split 3 bs with
  | error e =>
      intro rest h
      rw [readBlockHeader, hbs] at h
      cases h
  | ok taken =>
      apply (split_local 3 taken.1).step hbs
      · intro bs between hbs
        rw [readBlockHeader, hbs]
      · exact local_pure _ _ taken.2

/-- Goes over a block and says whether it is the last one of its frame. -/
def skipBlock (bs : Bytes) : Except DecodeError (Bool × Bytes) := do
  let (header, body) ← readBlockHeader bs
  match header.bodySize? with
  | none => throw .corrupted
  | some size =>
      let (_, rest) ← split size body
      return (header.isLast, rest)

theorem skipBlock_local (isLast : Bool) : Local skipBlock fun rest => .ok (isLast, rest) := by
  apply Local.bind readBlockHeader_local
  intro header
  cases hsize : header.bodySize? with
  | none =>
      simp only [hsize]
      exact local_throw _
  | some size =>
      simp only [hsize]
      apply Local.bind (split_local size)
      intro content
      exact local_pure _ _

theorem skipBlock_eq_ok_iff {bs rest : Bytes} {isLast : Bool} :
    skipBlock bs = .ok (isLast, rest) ↔ ∃ header body size content,
      readBlockHeader bs = .ok (header, body) ∧ header.bodySize? = some size ∧
        split size body = .ok (content, rest) ∧ header.isLast = isLast := by
  simp only [skipBlock, bind_eq_ok_iff]
  constructor
  · rintro ⟨⟨header, body⟩, hheader, h⟩
    cases hsize : header.bodySize? with
    | none =>
        simp only [hsize] at h
        cases h
    | some size =>
        simp only [hsize, bind_eq_ok_iff] at h
        obtain ⟨⟨content, after⟩, hbody, hlast⟩ := h
        cases hlast
        exact ⟨header, body, size, content, hheader, hsize, hbody, rfl⟩
  · rintro ⟨header, body, size, content, hheader, hsize, hbody, rfl⟩
    refine ⟨(header, body), hheader, ?_⟩
    simp only [hsize, bind_eq_ok_iff]
    exact ⟨(content, rest), hbody, rfl⟩

theorem skipBlocks?_eq (bs : Bytes) :
    skipBlocks? bs =
      match skipBlock bs with
      | .error _ => none
      | .ok (isLast, rest) => if isLast then some rest else skipBlocks? rest := by
  rw [skipBlocks?]
  split
  · rename_i hheader
    simp only [skipBlock, hheader, bind, Except.bind]
  · rename_i header body hheader
    split
    · rename_i hsize
      simp only [skipBlock, hheader, hsize, bind, Except.bind]
      rfl
    · rename_i size hsize
      split
      · rename_i hbody
        simp only [skipBlock, hheader, hsize, hbody, bind, Except.bind]
      · rename_i content rest hbody
        simp only [skipBlock, hheader, hsize, hbody, bind, Except.bind]
        rfl

theorem length_lt_of_skipBlock {bs rest : Bytes} {isLast : Bool}
    (h : skipBlock bs = .ok (isLast, rest)) : rest.length < bs.length := by
  obtain ⟨header, body, size, content, hheader, -, hbody, -⟩ := skipBlock_eq_ok_iff.mp h
  have hafter := length_of_readBlockHeader hheader
  have hrest := length_of_split hbody
  omega

theorem skipBlocks?_local : Local skipBlocks? some := by
  intro bs
  -- By the number of bytes: what a block leaves is shorter, but may begin anywhere.
  induction hlength : bs.length using Nat.strongRecOn generalizing bs with
  | ind length ih =>
      cases hblock : skipBlock bs with
      | error e =>
          intro rest h
          rw [skipBlocks?_eq, hblock] at h
          cases h
      | ok taken =>
          obtain ⟨isLast, after⟩ := taken
          have hshorter := length_lt_of_skipBlock hblock
          apply (skipBlock_local isLast).step hblock
          · intro bs between hbs
            rw [skipBlocks?_eq, hbs]
          · cases isLast with
            | true => exact local_some after
            | false => exact ih after.length (by omega) after rfl

theorem skipBlock_of_readBlock {limit : Option Nat} {bs rest : Bytes} {block : Block}
    (h : readBlock limit bs = .ok (block, rest)) :
    skipBlock bs = .ok (block.header.isLast, rest) := by
  rw [readBlock] at h
  cases hheader : readBlockHeader bs with
  | error e => simp [hheader] at h
  | ok taken =>
      obtain ⟨header, body⟩ := taken
      simp only [hheader] at h
      rw [skipBlock_eq_ok_iff]
      cases hkind : header.kind with
      | stored =>
          simp only [hkind] at h
          split at h
          · cases h
          · split at h
            · cases h
            · rename_i content after hbody
              cases h
              have hsize : header.bodySize? = some header.size := by
                simp only [BlockHeader.bodySize?, hkind]
              exact ⟨header, body, header.size, content, hheader, hsize, hbody, rfl⟩
      | repeated =>
          simp only [hkind] at h
          split at h
          · cases h
          · split at h
            · cases h
            · rename_i byte after hbody
              split at h
              · cases h
              · cases h
                have hsize : header.bodySize? = some 1 := by
                  simp only [BlockHeader.bodySize?, hkind]
                exact ⟨header, body, 1, byte, hheader, hsize, hbody, rfl⟩
      | compressed => simp [hkind] at h
      | reserved => simp [hkind] at h

theorem skipBlocks?_of_readBlocks {limit : Option Nat} {bs rest : Bytes}
    {earlier blocks : List Block} (h : readBlocks limit bs earlier = .ok (blocks, rest)) :
    skipBlocks? bs = some rest := by
  fun_induction readBlocks limit bs earlier with
  | case1 => cases h
  | case2 bs earlier block after hblock hlast =>
      simp only [Except.ok.injEq, Prod.mk.injEq] at h
      obtain ⟨-, rfl⟩ := h
      rw [skipBlocks?_eq, skipBlock_of_readBlock hblock]
      simp only [hlast, if_true]
  | case3 bs earlier block after hblock hlast _ ih =>
      rw [skipBlocks?_eq, skipBlock_of_readBlock hblock]
      simp only [hlast]
      exact ih h

/-! ## Frames -/

/-- Goes over the frame in front, compressed or to be skipped, if nothing of it is missing. -/
def skipFrame (bs : Bytes) : Except DecodeError Bytes := do
  let (word, bs) ← split 4 bs
  if toNat word = magic then
    let (header, bs) ← readHeader bs
    match frameEnd? header bs with
    | none => throw .incomplete
    | some rest => return rest
  else if IsSkippableMagic (toNat word) then
    let (_, rest) ← readSkippable bs
    return rest
  else throw .unknownFrame

/-- The bytes are those of one frame. -/
def IsComplete (frame : Bytes) : Prop :=
  skipFrame frame = .ok []

theorem local_splitEnd (n : Nat) :
    Local (fun bs => (split n bs).toOption.map fun taken => taken.2) some := by
  intro bs
  cases hbs : split n bs with
  | error e =>
      intro rest h
      simp only [hbs] at h
      cases h
  | ok taken =>
      apply (split_local n taken.1).step hbs
      · intro bs between hbs
        rw [hbs]
      · exact local_some taken.2

theorem frameEnd?_local (header : FrameHeader) : Local (frameEnd? header) some := by
  intro bs
  cases hbs : skipBlocks? bs with
  | none =>
      intro rest h
      simp [frameEnd?, hbs] at h
  | some between =>
      apply skipBlocks?_local.step hbs
      · intro bs between hbs
        rw [frameEnd?, hbs]
      · cases header.hasChecksum with
        | true => exact local_splitEnd 4 between
        | false => exact local_some between

theorem readSkippable_local (content : Bytes) :
    Local readSkippable fun rest => .ok (content, rest) := by
  apply Local.bind (split_local 4)
  intro size
  apply Local.bind (split_local _)
  intro payload
  exact local_pure _ _

theorem skipFrame_local : Local skipFrame .ok := by
  apply Local.bind (split_local 4)
  intro word
  apply Local.ite
  · apply Local.bind readHeader_local
    intro header bs
    cases hbs : frameEnd? header bs with
    | none =>
        intro rest h
        simp only [hbs] at h
        cases h
    | some between =>
        refine (frameEnd?_local header).step hbs ?_ (local_rest between)
        intro bs between hbs
        simp only [hbs]
  apply Local.ite
  · apply Local.bind readSkippable_local
    intro content
    exact local_rest
  · exact local_throw _

/-- No complete frame is the beginning of another one. -/
theorem IsComplete.eq_of_isPrefix {frame frame' : Bytes} (h : IsComplete frame)
    (h' : IsComplete frame') (hbegins : frame <+: frame') : frame = frame' := by
  obtain ⟨more, rfl⟩ := hbegins
  obtain ⟨front, hfront, hany⟩ := skipFrame_local frame h
  rw [List.append_nil] at hfront
  have hmore := hany more
  rw [← hfront, h'] at hmore
  cases hmore
  exact (List.append_nil frame).symm

end Zstd
end SeekableArchive
