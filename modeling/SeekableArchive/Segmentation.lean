import SeekableArchive.Bytes

/-!
# Writes and the contents of frames

A frame takes in writes until it holds at least `floor` bytes; the next write
begins a new frame, even if that write is empty.  `segments` lists the contents
of the frames that a sequence of writes fills.  Nothing is lost or reordered,
no frame is empty, and all but the last reach the floor.
-/

namespace SeekableArchive

/-- The contents of the frames, the first of which begins with `group`. -/
def segmentsFrom (floor : Nat) (group : Bytes) : List Bytes → List Bytes
  | [] => if group = [] then [] else [group]
  | data :: writes =>
      if floor ≤ group.length then group :: segmentsFrom floor data writes
      else segmentsFrom floor (group ++ data) writes

def segments (floor : Nat) (writes : List Bytes) : List Bytes :=
  segmentsFrom floor [] writes

theorem flatten_segmentsFrom (floor : Nat) (group : Bytes) (writes : List Bytes) :
    (segmentsFrom floor group writes).flatten = group ++ writes.flatten := by
  induction writes generalizing group with
  | nil =>
      by_cases h : group = []
      · simp [segmentsFrom, h]
      · simp [segmentsFrom, h]
  | cons data writes ih =>
      by_cases h : floor ≤ group.length
      · simp [segmentsFrom, h, ih]
      · simp [segmentsFrom, h, ih]

@[simp] theorem flatten_segments (floor : Nat) (writes : List Bytes) :
    (segments floor writes).flatten = writes.flatten :=
  flatten_segmentsFrom floor [] writes

theorem ne_nil_of_mem_segmentsFrom {floor : Nat} {group : Bytes} {writes : List Bytes}
    (hfloor : 0 < floor) {segment : Bytes} (h : segment ∈ segmentsFrom floor group writes) :
    segment ≠ [] := by
  induction writes generalizing group with
  | nil =>
      by_cases hgroup : group = []
      · simp [segmentsFrom, hgroup] at h
      · simp only [segmentsFrom, hgroup, if_false, List.mem_singleton] at h
        exact h ▸ hgroup
  | cons data writes ih =>
      by_cases hfull : floor ≤ group.length
      · simp only [segmentsFrom, hfull, if_true, List.mem_cons] at h
        rcases h with rfl | h
        · exact List.ne_nil_of_length_pos (Nat.lt_of_lt_of_le hfloor hfull)
        · exact ih h
      · simp only [segmentsFrom, hfull, if_false] at h
        exact ih h

theorem floor_le_of_mem_dropLast_segmentsFrom {floor : Nat} {group : Bytes}
    {writes : List Bytes} {segment : Bytes}
    (h : segment ∈ (segmentsFrom floor group writes).dropLast) : floor ≤ segment.length := by
  induction writes generalizing group with
  | nil =>
      by_cases hgroup : group = []
      · simp [segmentsFrom, hgroup] at h
      · simp [segmentsFrom, hgroup] at h
  | cons data writes ih =>
      by_cases hfull : floor ≤ group.length
      · simp only [segmentsFrom, hfull, if_true] at h
        cases hrest : segmentsFrom floor data writes with
        | nil => simp [hrest] at h
        | cons next rest =>
            rw [hrest, List.dropLast_cons_cons, List.mem_cons] at h
            rcases h with rfl | h
            · exact hfull
            · exact ih (hrest ▸ h)
      · simp only [segmentsFrom, hfull, if_false] at h
        exact ih h

theorem length_segmentsFrom_le {floor : Nat} (hfloor : 0 < floor) (group : Bytes)
    (writes : List Bytes) :
    (segmentsFrom floor group writes).length ≤
      writes.length + (if group = [] then 0 else 1) := by
  induction writes generalizing group with
  | nil =>
      rw [segmentsFrom]
      split <;> simp
  | cons data writes ih =>
      rw [segmentsFrom, List.length_cons]
      split
      · -- A full group is not empty.
        have hgroup : group ≠ [] := List.ne_nil_of_length_pos (by omega)
        have hrest := ih data
        rw [if_neg hgroup, List.length_cons]
        split at hrest <;> omega
      · have hrest := ih (group ++ data)
        split at hrest <;> omega

theorem length_segments_le {floor : Nat} (hfloor : 0 < floor) (writes : List Bytes) :
    (segments floor writes).length ≤ writes.length :=
  length_segmentsFrom_le hfloor [] writes

/-- A group that takes in one more write has not reached the floor. -/
theorem length_le_of_mem_segmentsFrom {floor bound : Nat} {group : Bytes} {writes : List Bytes}
    (hgroup : group.length ≤ bound) (hwrites : ∀ data ∈ writes, floor - 1 + data.length ≤ bound)
    {segment : Bytes} (h : segment ∈ segmentsFrom floor group writes) :
    segment.length ≤ bound := by
  induction writes generalizing group with
  | nil =>
      rw [segmentsFrom] at h
      split at h
      · cases h
      · rw [List.mem_singleton] at h
        exact h ▸ hgroup
  | cons data writes ih =>
      have hdata := hwrites data List.mem_cons_self
      have hrest : ∀ later ∈ writes, floor - 1 + later.length ≤ bound :=
        fun later hlater => hwrites later (List.mem_cons_of_mem _ hlater)
      rw [segmentsFrom] at h
      split at h
      · rcases List.mem_cons.mp h with rfl | h
        · exact hgroup
        · exact ih (by omega) hrest h
      · refine ih ?_ hrest h
        rw [List.length_append]
        omega

end SeekableArchive
