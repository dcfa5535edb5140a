import SeekableArchive.Proofs.Balance

/-!
# Clean runs

A clean run opens a writer, writes a sequence of payloads to it and closes it, and all of
this succeeds.  The writer is balanced after every write, and the archive is sealed.
-/

namespace SeekableArchive

variable {ε σ : Type} [Engine ε] [Sink σ]

namespace Writer

variable {w w' : Writer ε σ}

/-- All of these writes succeed and lead from the one writer to the other. -/
def Accepts (w : Writer ε σ) (writes : List Bytes) (w' : Writer ε σ) : Prop :=
  w.writeAll writes = (List.replicate writes.length (.ok ()), w')

theorem accepts_nil_iff : w.Accepts [] w' ↔ w' = w := by
  simp [Accepts, writeAll, eq_comm]

theorem accepts_cons_iff {data : Bytes} {writes : List Bytes} :
    w.Accepts (data :: writes) w' ↔ ∃ v, w.write data = (.ok (), v) ∧ v.Accepts writes w' := by
  simp only [Accepts, writeAll, List.length_cons, List.replicate_succ, Prod.mk.injEq,
    List.cons.injEq]
  constructor
  · rintro ⟨⟨hanswer, hanswers⟩, hw'⟩
    exact ⟨(w.write data).2, Prod.ext hanswer rfl, Prod.ext hanswers hw'⟩
  · rintro ⟨v, hwrite, hrest⟩
    rw [hwrite, hrest]
    exact ⟨⟨rfl, rfl⟩, rfl⟩

theorem accepts_append_iff {front back : List Bytes} :
    w.Accepts (front ++ back) w' ↔ ∃ v, w.Accepts front v ∧ v.Accepts back w' := by
  induction front generalizing w with
  | nil => simp [accepts_nil_iff]
  | cons data front ih =>
      simp only [List.cons_append, accepts_cons_iff, ih]
      constructor
      · rintro ⟨u, hwrite, v, hfront, hback⟩
        exact ⟨v, ⟨u, hwrite, hfront⟩, hback⟩
      · rintro ⟨v, ⟨u, hwrite, hfront⟩, hback⟩
        exact ⟨u, hwrite, v, hfront, hback⟩

theorem write_eq_ok {data : Bytes} (husable : w.status = .usable)
    (hrun : w.write data = (.ok (), w')) : Action.accept data w = .ok () w' := by
  simp only [write, husable] at hrun
  cases haccept : Action.accept data w with
  | error halt v => cases halt <;> simp [haccept] at hrun
  | ok u v =>
      simp only [haccept] at hrun
      cases hrun
      rfl

theorem write_of_accept {data : Bytes} (husable : w.status = .usable)
    (h : Action.accept data w = .ok () w') : w.write data = (.ok (), w') := by
  simp only [write, husable, h]

/-- A write that is turned away changes nothing. -/
theorem write_of_unusable (h : w.status ≠ .usable) (data : Bytes) :
    ∃ halt, w.write data = (.error halt, w) := by
  cases hstatus : w.status with
  | usable => exact absurd hstatus h
  | closed => exact ⟨.failed .closed, by simp only [Writer.write, hstatus]⟩
  | poisoned => exact ⟨.failed .poisoned, by simp only [Writer.write, hstatus]⟩
  | hung => exact ⟨.unfinished, by simp only [Writer.write, hstatus]⟩

/-- A writer that turns writes away stays as it is. -/
theorem writeAll_of_unusable (h : w.status ≠ .usable) (writes : List Bytes) :
    (w.writeAll writes).2 = w := by
  induction writes with
  | nil => rfl
  | cons data writes ih =>
      obtain ⟨halt, hturned⟩ := write_of_unusable h data
      simp only [Writer.writeAll, hturned]
      exact ih

theorem write_eq_ok_of_usable {data : Bytes} {answer : Except Halt Unit}
    (hrun : w.write data = (answer, w')) (husable : w'.status = .usable) :
    w.status = .usable ∧ answer = .ok () := by
  by_cases hstatus : w.status = .usable
  · simp only [Writer.write, hstatus] at hrun
    cases haccept : Action.accept data w with
    | ok u v =>
        simp only [haccept] at hrun
        cases hrun
        exact ⟨hstatus, rfl⟩
    | error halt v =>
        cases halt <;>
        · simp only [haccept] at hrun
          cases hrun
          cases husable
  · obtain ⟨halt, hturned⟩ := write_of_unusable hstatus data
    rw [hturned] at hrun
    cases hrun
    exact absurd husable hstatus

/-- A writer that is still usable has accepted everything. -/
theorem accepts_of_usable {writes : List Bytes} {answers : List (Except Halt Unit)}
    (hrun : w.writeAll writes = (answers, w')) (husable : w'.status = .usable) :
    w.status = .usable ∧ w.Accepts writes w' := by
  induction writes generalizing w answers with
  | nil =>
      cases hrun
      exact ⟨husable, rfl⟩
  | cons data writes ih =>
      rw [writeAll] at hrun
      cases hwrite : w.write data with
      | mk answer v =>
          cases hrest : v.writeAll writes with
          | mk rest u =>
              simp only [hwrite, hrest, Prod.mk.injEq] at hrun
              obtain ⟨-, rfl⟩ := hrun
              obtain ⟨hv, haccepts⟩ := ih hrest
              obtain ⟨hw, rfl⟩ := write_eq_ok_of_usable hwrite hv
              exact ⟨hw, accepts_cons_iff.mpr ⟨v, hwrite, haccepts⟩⟩

theorem Balanced.accepts {writes : List Bytes} (h : w.Balanced) (hrun : w.Accepts writes w') :
    w'.Balanced ∧ w'.minFrameSize = w.minFrameSize := by
  induction writes generalizing w with
  | nil =>
      cases accepts_nil_iff.mp hrun
      exact ⟨h, rfl⟩
  | cons data writes ih =>
      obtain ⟨v, hwrite, hrest⟩ := accepts_cons_iff.mp hrun
      obtain ⟨hv, hfloor, -, -⟩ := h.accept (write_eq_ok h.usable hwrite)
      obtain ⟨hw', hfloor'⟩ := ih hv hrest
      exact ⟨hw', hfloor'.trans hfloor⟩

end Writer

/-- A writer that is opened, written to and closed without any failure. -/
structure CleanRun (config : Config) (engine : ε) (sink : σ) (limit : Nat)
    (writes : List Bytes) where
  opened : Writer ε σ
  written : Writer ε σ
  closed : Writer ε σ
  summary : Summary
  opens : Writer.openWith config (.ok engine) (.ok sink) limit = .ok opened
  accepts : opened.Accepts writes written
  closes : written.close = (.ok summary, closed)

namespace CleanRun

variable {config : Config} {engine : ε} {sink : σ} {limit : Nat} {writes : List Bytes}

/-- The run over a writer of which all the answers are known. -/
def ofAnswers {opened : Writer ε σ} (summary : Summary)
    (opens : Writer.openWith config (.ok engine) (.ok sink) limit = .ok opened)
    (answers : (opened.writeAll writes).1 = List.replicate writes.length (.ok ()))
    (answer : (opened.writeAll writes).2.close.1 = .ok summary) :
    CleanRun config engine sink limit writes where
  opened := opened
  written := (opened.writeAll writes).2
  closed := (opened.writeAll writes).2.close.2
  summary := summary
  opens := opens
  accepts := Prod.ext answers rfl
  closes := Prod.ext answer rfl

/-- Closing succeeds only after all writes have. -/
def ofClosed {opened w closed : Writer ε σ} {answers : List (Except Halt Unit)}
    {summary : Summary}
    (opens : Writer.openWith config (.ok engine) (.ok sink) limit = .ok opened)
    (hrun : opened.writeAll writes = (answers, w)) (closes : w.close = (.ok summary, closed)) :
    CleanRun config engine sink limit writes where
  opened := opened
  written := w
  closed := closed
  summary := summary
  opens := opens
  accepts := (Writer.accepts_of_usable hrun (Writer.close_eq_ok closes).1).2
  closes := closes

variable (run : CleanRun config engine sink limit writes)

include run in
theorem valid : config.Valid :=
  (Writer.openWith_eq_ok run.opens).1

theorem balanced_opened : run.opened.Balanced := by
  obtain ⟨-, e, j, -, hflows, hstored, hfresh⟩ := Writer.openWith_eq_ok run.opens
  rw [hfresh]
  exact Writer.balanced_fresh hflows hstored

theorem flows_opened : run.opened.journal.flows = {} := by
  obtain ⟨-, e, j, -, hflows, -, hfresh⟩ := Writer.openWith_eq_ok run.opens
  rw [hfresh]
  exact hflows

theorem floor_opened : run.opened.minFrameSize = config.minFrameSize := by
  obtain ⟨-, e, j, -, -, -, hfresh⟩ := Writer.openWith_eq_ok run.opens
  rw [hfresh]
  rfl

/-- The writer between two parts of the run. -/
theorem balanced_between {front back : List Bytes} (hsplit : writes = front ++ back) :
    ∃ v, run.opened.Accepts front v ∧ v.Accepts back run.written ∧ v.Balanced ∧
      v.minFrameSize = config.minFrameSize := by
  subst hsplit
  obtain ⟨v, hfront, hback⟩ := Writer.accepts_append_iff.mp run.accepts
  obtain ⟨hv, hfloor⟩ := run.balanced_opened.accepts hfront
  exact ⟨v, hfront, hback, hv, hfloor.trans run.floor_opened⟩

theorem balanced_written :
    run.written.Balanced ∧ run.written.minFrameSize = config.minFrameSize := by
  obtain ⟨hw, hfloor⟩ := run.balanced_opened.accepts run.accepts
  exact ⟨hw, hfloor.trans run.floor_opened⟩

theorem sealed_closed : run.closed.Sealed :=
  (run.balanced_written.1.close run.closes).1

/-- Closing ends the open frame if it has taken in anything, and nothing else. -/
theorem flows_closed : ∃ last, run.closed.journal.flows =
    if 0 < run.written.pendingUncompressed then (run.written.journal.flows.fill [] last).finish
    else run.written.journal.flows := by
  obtain ⟨-, last, -, hflows⟩ := run.balanced_written.1.close run.closes
  exact ⟨last, hflows⟩

end CleanRun

end SeekableArchive
