import SeekableArchive.Proofs.Accounting

/-!
# Poisoned writers

A write that fails poisons the writer.  A poisoned writer turns every write away and stays
as it is; closing it lets go of the sink and of the engine and asks nothing of them.  So of
the writes that take the lock of a writer one after the other, those that succeed come first.
-/

namespace SeekableArchive
namespace Writer

variable {ε σ : Type} [Engine ε] [Sink σ] {w w' : Writer ε σ}

theorem status_opened {config : Config} {engine : Except ArchiveError ε}
    {sink : Except SinkError σ} {limit : Nat}
    (h : openWith config engine sink limit = .ok w) : w.status = .usable := by
  obtain ⟨e, s, rfl, rfl⟩ := exists_of_opened h
  obtain ⟨-, e', j, -, -, -, rfl⟩ := openWith_eq_ok h
  rfl

/-- A usable writer stays usable, or it is poisoned by an error, or it hangs. -/
theorem write_of_usable (husable : w.status = .usable) (data : Bytes) :
    (∃ v, w.write data = (.ok (), v) ∧ v.status = .usable) ∨
      (∃ error v, w.write data = (.error (.failed error), v) ∧ v.status = .poisoned) ∨
      ∃ v, w.write data = (.error .unfinished, v) ∧ v.status = .hung := by
  simp only [Writer.write, husable]
  cases haccept : Action.accept data w with
  | ok u v => exact .inl ⟨v, rfl, (Action.status_accept .usable data).of_eq_ok husable haccept⟩
  | error halt v =>
      cases halt with
      | failed error => exact .inr (.inl ⟨error, _, rfl, rfl⟩)
      | unfinished => exact .inr (.inr ⟨_, rfl, rfl⟩)

/-! ## After a failure -/

theorem writeAll_of_poisoned (h : w.status = .poisoned) (writes : List Bytes) :
    w.writeAll writes = (List.replicate writes.length (.error (.failed .poisoned)), w) := by
  induction writes with
  | nil => rfl
  | cons data writes ih =>
      have hwrite : w.write data = (.error (.failed .poisoned), w) := by
        simp only [Writer.write, h]
      simp only [writeAll, hwrite, ih]
      rfl

theorem writeAll_of_hung (h : w.status = .hung) (writes : List Bytes) :
    w.writeAll writes = (List.replicate writes.length (.error .unfinished), w) := by
  induction writes with
  | nil => rfl
  | cons data writes ih =>
      have hwrite : w.write data = (.error .unfinished, w) := by
        simp only [Writer.write, h]
      simp only [writeAll, hwrite, ih]
      rfl

/-- Nothing but the status and the journal changes, and the journal notes no call. -/
theorem close_of_poisoned (h : w.status = .poisoned) :
    ∃ journal, w.close = (.error (.failed .poisoned), { w with journal, status := .closed }) ∧
      journal.events = w.journal.events ++
        [.logged .closingPoisoned, .sinkReleased, .engineReleased] := by
  refine ⟨_, by simp only [Writer.close, h]; rfl, ?_⟩
  simp only [note, Journal.events_note, List.append_assoc, List.cons_append, List.nil_append]

/-! ## The answers of a run -/

/-- What a sequence of writes is answered, and the status in which it leaves the writer.
After the first write that fails all are turned away; after the first one that does not come
to an end none does. -/
inductive Answered : List (Except Halt Unit) → Status → Prop
  | succeeded (count : Nat) : Answered (List.replicate count (.ok ())) .usable
  | failed (count : Nat) (error : ArchiveError) (later : Nat) :
      Answered (List.replicate count (.ok ()) ++ .error (.failed error) ::
        List.replicate later (.error (.failed .poisoned))) .poisoned
  | hung (count later : Nat) :
      Answered (List.replicate count (.ok ()) ++ .error .unfinished ::
        List.replicate later (.error .unfinished)) .hung

namespace Answered

variable {answers : List (Except Halt Unit)} {status : Status}

theorem cons (h : Answered answers status) : Answered (.ok () :: answers) status := by
  cases h with
  | succeeded count => exact .succeeded (count + 1)
  | failed count error later => exact .failed (count + 1) error later
  | hung count later => exact .hung (count + 1) later

theorem ne_closed (h : Answered answers status) : status ≠ .closed := by
  cases h <;> simp

/-- The successes come first. -/
theorem exists_replicate_append (h : Answered answers status) :
    ∃ count later, answers = List.replicate count (.ok ()) ++ later ∧ .ok () ∉ later := by
  cases h with
  | succeeded count => exact ⟨count, [], (List.append_nil _).symm, List.not_mem_nil⟩
  | failed count error later => exact ⟨count, _, rfl, by simp⟩
  | hung count later => exact ⟨count, _, rfl, by simp⟩

end Answered

theorem answered_of_usable {writes : List Bytes} {answers : List (Except Halt Unit)}
    (husable : w.status = .usable) (hrun : w.writeAll writes = (answers, w')) :
    Answered answers w'.status := by
  induction writes generalizing w answers with
  | nil =>
      cases hrun
      rw [husable]
      exact .succeeded 0
  | cons data writes ih =>
      rw [writeAll] at hrun
      rcases write_of_usable husable data with
        ⟨v, hwrite, hv⟩ | ⟨error, v, hwrite, hv⟩ | ⟨v, hwrite, hv⟩
      · rw [hwrite] at hrun
        cases hrun
        exact (ih hv rfl).cons
      · simp only [hwrite, writeAll_of_poisoned hv] at hrun
        cases hrun
        rw [hv]
        exact .failed 0 error _
      · simp only [hwrite, writeAll_of_hung hv] at hrun
        cases hrun
        rw [hv]
        exact .hung 0 _

theorem status_of_write_eq_failed {data : Bytes} {error : ArchiveError}
    (hopen : w.status ≠ .closed) (hrun : w.write data = (.error (.failed error), w')) :
    w'.status = .poisoned := by
  by_cases husable : w.status = .usable
  · rcases write_of_usable husable data with
      ⟨v, hwrite, -⟩ | ⟨error', v, hwrite, hv⟩ | ⟨v, hwrite, -⟩
    · cases hwrite.symm.trans hrun
    · cases hwrite.symm.trans hrun
      exact hv
    · cases hwrite.symm.trans hrun
  · cases hstatus : w.status with
    | usable => exact absurd hstatus husable
    | closed => exact absurd hstatus hopen
    | hung => simp [Writer.write, hstatus] at hrun
    | poisoned =>
        simp only [Writer.write, hstatus] at hrun
        cases hrun
        exact hstatus

/-! ## What a run keeps -/

/-- A write that succeeds keeps `P`, and one that fails or hangs leaves `E`. -/
structure Upheld (P E : Writer ε σ → Prop) : Prop where
  accept (data : Bytes) : Action.Ensures P (Action.accept data) (fun _ => P) E
  poison {w : Writer ε σ} (error : ArchiveError) (hw : E w) :
    E { w.note (.logged (.writeFailed error)) with status := .poisoned }
  hang {w : Writer ε σ} (hw : E w) : E { w with status := .hung }

namespace Upheld

variable {P E : Writer ε σ → Prop}

theorem write (h : Upheld P E) (husable : w.status = .usable) (hw : P w) (data : Bytes) :
    let w' := (w.write data).2
    w'.status = .usable ∧ P w' ∨ w'.status ≠ .usable ∧ E w' := by
  simp only [Writer.write, husable]
  cases haccept : Action.accept data w with
  | ok u v =>
      exact .inl ⟨(Action.status_accept .usable data).of_eq_ok husable haccept,
        (h.accept data).of_eq_ok hw haccept⟩
  | error halt v =>
      have hv := (h.accept data).of_eq_error hw haccept
      cases halt with
      | failed error => exact .inr ⟨by simp, h.poison error hv⟩
      | unfinished => exact .inr ⟨by simp, h.hang hv⟩

theorem writeAll (h : Upheld P E) (husable : w.status = .usable) (hw : P w)
    (writes : List Bytes) :
    let w' := (w.writeAll writes).2
    w'.status = .usable ∧ P w' ∨ w'.status ≠ .usable ∧ E w' := by
  induction writes generalizing w with
  | nil => exact .inl ⟨husable, hw⟩
  | cons data writes ih =>
      rcases h.write husable hw data with ⟨husable', hw'⟩ | ⟨hstopped, hw'⟩
      · exact ih husable' hw'
      · refine .inr ?_
        simp only [Writer.writeAll, writeAll_of_unusable hstopped]
        exact ⟨hstopped, hw'⟩

/-- What failures keep as well holds throughout. -/
theorem keeps (h : Upheld P P) (husable : w.status = .usable) (hw : P w)
    (writes : List Bytes) : P (w.writeAll writes).2 :=
  (h.writeAll husable hw writes).elim And.right And.right

theorem keeps_accepts {writes : List Bytes} (h : Upheld P P) (husable : w.status = .usable)
    (hw : P w) (hrun : w.Accepts writes w') : P w' := by
  have hkept := h.keeps husable hw writes
  have haccepts : w.writeAll writes = (_, w') := hrun
  rwa [haccepts] at hkept

end Upheld

theorem lasting_upheld {R : Journal → Prop} (h : Journal.Lasting R) :
    Upheld (fun w : Writer ε σ => R w.journal) fun w => R w.journal where
  accept _ := h.stable.accept fun _ hw => hw
  poison _ hw := h.logged _ hw
  hang hw := hw

/-- Poisoning is final: once a write has failed, whatever the error, every later write and the
close answer that the writer is poisoned.  The writes leave the writer as it is.  The close
changes its status and its journal alone, and what it notes there are no calls.  In whatever
order the writes of several callers take the lock, those that succeed come first. -/
theorem poisoning_is_final {config : Config} {engine : Except ArchiveError ε}
    {sink : Except SinkError σ} {limit : Nat} {opened found failed : Writer ε σ}
    {before : List Bytes} {answers : List (Except Halt Unit)} {data : Bytes}
    {error : ArchiveError} (hopen : openWith config engine sink limit = .ok opened)
    (hbefore : opened.writeAll before = (answers, found))
    (hfail : found.write data = (.error (.failed error), failed)) :
    (∀ after, failed.writeAll after =
      (List.replicate after.length (.error (.failed .poisoned)), failed)) ∧
    (∃ journal, failed.close =
        (.error (.failed .poisoned), { failed with journal, status := .closed }) ∧
      journal.events = failed.journal.events ++
        [.logged .closingPoisoned, .sinkReleased, .engineReleased]) ∧
    ∀ order, ∃ count later, (opened.writeAll order).1 =
      List.replicate count (.ok ()) ++ later ∧ .ok () ∉ later := by
  have husable := status_opened hopen
  have hfound := (answered_of_usable husable hbefore).ne_closed
  have hpoisoned := status_of_write_eq_failed hfound hfail
  refine ⟨writeAll_of_poisoned hpoisoned, close_of_poisoned hpoisoned, fun order => ?_⟩
  have hanswered : Answered (opened.writeAll order).1 (opened.writeAll order).2.status :=
    answered_of_usable husable rfl
  exact hanswered.exists_replicate_append

/-- The third write ends a frame, of which two bytes of five are accepted.  Of what is
written after it, before the writer is closed, nothing gets anywhere. -/
theorem poisoning_is_final_after_short_write :
    ∃ opened found failed : Writer EagerEngine (FaultySink MemorySink),
      openWith EagerEngine.config (.ok {}) (.ok EagerEngine.shortSink) 4 = .ok opened ∧
      opened.writeAll [[1, 2, 3], [4, 5, 6, 7]] = ([.ok (), .ok ()], found) ∧
      found.write [8] = (.error (.failed (.sink (.shortWrite 5 2))), failed) ∧
      failed.writeAll [[9], []] =
        ([.error (.failed .poisoned), .error (.failed .poisoned)], failed) ∧
      failed.close.1 = .error (.failed .poisoned) ∧
      failed.close.2.sink = failed.sink := by
  have hshort : ∃ opened : Writer EagerEngine (FaultySink MemorySink),
      openWith EagerEngine.config (.ok {}) (.ok EagerEngine.shortSink) 4 = .ok opened ∧
      (opened.writeAll [[1, 2, 3], [4, 5, 6, 7]]).1 = [.ok (), .ok ()] ∧
      ((opened.writeAll [[1, 2, 3], [4, 5, 6, 7]]).2.write [8]).1 =
        .error (.failed (.sink (.shortWrite 5 2))) :=
    ⟨_, rfl, by decide +kernel, by decide +kernel⟩
  obtain ⟨opened, hopen, hanswers, hanswer⟩ := hshort
  have hbefore : opened.writeAll [[1, 2, 3], [4, 5, 6, 7]] = (_, _) := Prod.ext hanswers rfl
  have hfail : (opened.writeAll [[1, 2, 3], [4, 5, 6, 7]]).2.write [8] = (_, _) :=
    Prod.ext hanswer rfl
  obtain ⟨hafter, ⟨journal, hclose, -⟩, -⟩ := poisoning_is_final hopen hbefore hfail
  refine ⟨opened, _, _, hopen, hbefore, hfail, hafter [[9], []], ?_, ?_⟩
  · rw [hclose]
  · rw [hclose]

end Writer
end SeekableArchive
