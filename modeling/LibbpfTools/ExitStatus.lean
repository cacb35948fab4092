/-
LibbpfTools.ExitStatus — what the exit status of the two tools tells.

A tool should return 0 exactly when everything was set up, a signal ended the
loop and no poll failed, and should not read `err` before it was assigned.
Neither tool keeps to that. `err` still holds what the last poll returned when
the signal is seen, the number of records it consumed or the `-EINTR` with
which the signal interrupted it, and `err != 0` takes both for a failure.
`libbpfso` also reads `err` when no poll was made, or when the ring buffer
could not be created.

`exit_status_iff` says that this is all: in every other run of either tool the
status is as it should be.
-/
import LibbpfTools.So.Main
import LibbpfTools.Strace.Main

namespace LibbpfTools

open LibbpfTools.Lib

/-! ## The specification -/

/-- No poll failed before the signal was seen. -/
def StoppedBySignal (signalled : Bool) (polls : List Int) : Prop :=
  signalled = true ∧ ∀ r ∈ polls, ¬ PollFailed r

/-- All setup steps of the tracer succeed. -/
def Strace.Env.SetUp (env : Strace.Env) : Prop :=
  (∃ prog arg v, env.argv = [prog, arg] ∧
      (Strace.selectTarget arg env.waitSignal env.views).1 = .target v) ∧
    env.opened = true ∧ env.load = 0 ∧ env.attach = 0 ∧ env.ringBuffer = none

def So.Env.SetUp (env : So.Env) : Prop :=
  env.rlimit = true ∧ env.opened = true ∧ env.link = none ∧ env.ringBuffer = true

/-- The status is 0 exactly on success, and `err` was assigned before it was
read. -/
def TellsSuccess (outcome : Outcome) (setUp : Prop) (signalled : Bool) (polls : List Int) :
    Prop :=
  (outcome = .returned 0 ↔ setUp ∧ StoppedBySignal signalled polls) ∧ outcome ≠ .unassigned

/-! ## The tracer -/

namespace Strace

theorem loadAndPoll_of_setUp {env : Env} (h : env.SetUp) :
    loadAndPoll env = afterLoop (pollLoop env.signalled env.polls (some 0)) := by
  obtain ⟨-, -, hload, hattach, hrb⟩ := h
  simp [loadAndPoll, hload, hattach, hrb]

theorem loadAndPoll_of_failed {env : Env}
    (h : ¬ (env.load = 0 ∧ env.attach = 0 ∧ env.ringBuffer = none)) :
    loadAndPoll env = .returned 1 := by
  rw [loadAndPoll]
  by_cases hload : env.load = 0
  · by_cases hattach : env.attach = 0
    · cases hrb : env.ringBuffer with
      | none => exact absurd ⟨hload, hattach, hrb⟩ h
      | some errno => simp [hload, hattach, returnErr_errno]
    · simp [hload, hattach, returnErr]
  · simp [hload, returnErr]

theorem outcome_of_setUp {env : Env} (h : env.SetUp) :
    (main env).outcome = afterLoop (pollLoop env.signalled env.polls (some 0)) := by
  rw [← loadAndPoll_of_setUp h]
  obtain ⟨⟨prog, arg, v, hargv, hsel⟩, hopened, -⟩ := h
  simp only [main, hargv, hsel, hopened, if_true]

/-- A setup step that fails makes the status 1; without a target `main` may
also wait for ever. -/
theorem outcome_of_not_setUp {env : Env} (h : ¬ env.SetUp) :
    (main env).outcome = .returned 1 ∨ (main env).outcome = .running := by
  unfold main
  split
  · rename_i prog arg hargv
    simp only
    split
    · exact Or.inr rfl
    · exact Or.inl rfl
    · rename_i v hsel
      split
      · rename_i hopened
        refine Or.inl (loadAndPoll_of_failed fun hrest => ?_)
        exact h ⟨⟨prog, arg, v, hargv, hsel⟩, hopened, hrest⟩
      · exact Or.inl rfl
  · exact Or.inl rfl

/-- The tracer tells success unless the last poll before the signal did not
return 0. -/
theorem tellsSuccess_main_iff (env : Env) :
    TellsSuccess (main env).outcome env.SetUp env.signalled env.polls ↔
      ¬ (env.SetUp ∧ StoppedBySignal env.signalled env.polls ∧
        ∃ r, env.polls.getLast? = some r ∧ r ≠ 0) := by
  rw [TellsSuccess]
  by_cases hset : env.SetUp
  · rw [outcome_of_setUp hset, Ne, afterLoop_eq_zero_iff, afterLoop_eq_unassigned_iff]
    simp only [hset, true_and, StoppedBySignal]
    cases env.polls.getLast? with
    | none => simp
    | some r => simp
  · rcases outcome_of_not_setUp hset with h | h
    · simp [h, hset]
    · simp [h, hset]

end Strace

/-! ## `libbpfso` -/

namespace So

theorem main_of_setUp {env : Env} (h : env.SetUp) :
    main env = afterLoop (pollLoop env.signalled env.polls none) := by
  obtain ⟨hrlimit, hopened, hlink, hrb⟩ := h
  simp [main, hrlimit, hopened, hlink, hrb]

/-- A failure of the ring buffer is the one that leaves `err` unassigned. -/
theorem main_of_not_setUp {env : Env} (h : ¬ env.SetUp) :
    main env = if env.rlimit = true ∧ env.opened = true ∧ env.link = none then .unassigned
      else .returned 1 := by
  rw [main]
  cases hrlimit : env.rlimit with
  | false => simp
  | true =>
    cases hopened : env.opened with
    | false => simp
    | true =>
      cases hlink : env.link with
      | some errno => simp [returnErr_errno]
      | none =>
        cases hrb : env.ringBuffer with
        | false => simp [returnErr]
        | true => exact absurd ⟨hrlimit, hopened, hlink, hrb⟩ h

/-- `libbpfso` tells success unless `err` has no value, or the last poll
before the signal did not return 0. -/
theorem tellsSuccess_main_iff (env : Env) :
    TellsSuccess (main env) env.SetUp env.signalled env.polls ↔
      ¬ (env.rlimit = true ∧ env.opened = true ∧ env.link = none ∧
        (env.ringBuffer = false ∨
          (StoppedBySignal env.signalled env.polls ∧ env.polls.getLast? ≠ some 0))) := by
  rw [TellsSuccess]
  by_cases hset : env.SetUp
  · rw [main_of_setUp hset, Ne, afterLoop_eq_zero_iff, afterLoop_eq_unassigned_iff]
    obtain ⟨hrlimit, hopened, hlink, hrb⟩ := hset
    simp only [So.Env.SetUp, hrlimit, hopened, hlink, hrb, StoppedBySignal, Option.or_none,
      true_and, and_true, reduceCtorEq, false_or]
    constructor
    · rintro ⟨hzero, -⟩ ⟨hstop, hlast⟩
      exact hlast (hzero.mpr hstop).2.2
    · intro hok
      refine ⟨⟨fun h => ⟨h.1, h.2.1⟩, fun h => ⟨h.1, h.2, ?_⟩⟩, ?_⟩
      · by_contra hlast
        exact hok ⟨h, hlast⟩
      · -- a loop without a poll has no last poll either
        rintro ⟨hsig, hnil⟩
        refine hok ⟨⟨hsig, ?_⟩, ?_⟩
        · simp [hnil]
        · simp [hnil]
  · rw [main_of_not_setUp hset]
    by_cases hfirst : env.rlimit = true ∧ env.opened = true ∧ env.link = none
    · have hrb : env.ringBuffer = false := by
        by_contra hne
        exact hset ⟨hfirst.1, hfirst.2.1, hfirst.2.2, by simpa using hne⟩
      simp [hfirst, hrb]
    · rw [if_neg hfirst]
      simp only [hset, false_and, iff_false]
      exact ⟨fun _ h => hfirst ⟨h.1, h.2.1, h.2.2.1⟩, fun _ => ⟨by simp, by simp⟩⟩

end So

/-! ## Both tools -/

/-- **The exit status.** Exactly the runs in which the tools fall short: of
the tracer, those that a signal stopped after a last poll that did not return
0; of `libbpfso`, these, those without a poll, and those without a ring
buffer. -/
theorem exit_status_iff (strace : Strace.Env) (so : So.Env) :
    (TellsSuccess (Strace.main strace).outcome strace.SetUp strace.signalled strace.polls ↔
      ¬ (strace.SetUp ∧ StoppedBySignal strace.signalled strace.polls ∧
        ∃ r, strace.polls.getLast? = some r ∧ r ≠ 0)) ∧
    (TellsSuccess (So.main so) so.SetUp so.signalled so.polls ↔
      ¬ (so.rlimit = true ∧ so.opened = true ∧ so.link = none ∧
        (so.ringBuffer = false ∨
          (StoppedBySignal so.signalled so.polls ∧ so.polls.getLast? ≠ some 0)))) :=
  ⟨Strace.tellsSuccess_main_iff strace, So.tellsSuccess_main_iff so⟩

/-- `libbpfstrace 42`, stopped after a poll that consumed one record. -/
def stoppedAfterRecord : Strace.Env where
  argv := [.ofBuf (ascii "libbpfstrace"), .ofBuf (ascii "42")]
  views := []
  waitSignal := none
  opened := true
  load := 0
  attach := 0
  ringBuffer := none
  polls := [0, 1]
  signalled := true

/-- `libbpfso`, stopped before its first poll. -/
def stoppedBeforePoll : So.Env where
  rlimit := true
  opened := true
  link := none
  ringBuffer := true
  polls := []
  signalled := true

/-- The first is a success with status 1; the second reads `err` without a
value. -/
theorem stopped_not_success :
    ((Strace.main stoppedAfterRecord).outcome = .returned 1 ∧ stoppedAfterRecord.SetUp ∧
      StoppedBySignal stoppedAfterRecord.signalled stoppedAfterRecord.polls) ∧
    So.main stoppedBeforePoll = .unassigned ∧
    ¬ ((∀ env : Strace.Env,
        TellsSuccess (Strace.main env).outcome env.SetUp env.signalled env.polls) ∧
      (∀ env : So.Env, TellsSuccess (So.main env) env.SetUp env.signalled env.polls)) := by
  have hset : stoppedAfterRecord.SetUp :=
    ⟨⟨_, _, 42, rfl, by decide +kernel⟩, rfl, rfl, rfl, rfl⟩
  have hstop : StoppedBySignal stoppedAfterRecord.signalled stoppedAfterRecord.polls := by
    refine ⟨rfl, ?_⟩
    simp [stoppedAfterRecord, PollFailed]
  have hstatus : (Strace.main stoppedAfterRecord).outcome = .returned 1 := by decide +kernel
  refine ⟨⟨hstatus, hset, hstop⟩, by decide, ?_⟩
  rintro ⟨hall, -⟩
  have hzero := (hall stoppedAfterRecord).1.mpr ⟨hset, hstop⟩
  rw [hstatus] at hzero
  exact absurd hzero (by decide)

end LibbpfTools
