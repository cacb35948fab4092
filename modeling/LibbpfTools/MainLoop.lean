/-
LibbpfTools.MainLoop — the poll loop and the exit status, which `main` has in
the same words in `libbpfstrace.c` and `libbpfso.c`.

The loop polls the ring buffer until a signal handler has set `exiting` or a
poll fails. Its input is the list of poll results: with `signalled` the test
behind the last of them is the first to see the signal, without it the signal
has not arrived yet. So every arrival point is the length of a list.

One variable, `err`, takes what the setup steps and the polls return, and
`return err != 0` reads it. `none` is its value before the first assignment.
-/
import Mathlib

namespace LibbpfTools

/-- What libbpf leaves in `errno` when it returns a null pointer. -/
abbrev Errno := { e : Int // 0 < e }

def eintr : Int := 4

/-- How far the loop is. -/
inductive Loop where
  | left (err : Option Int)
  | polling

def pollLoop (signalled : Bool) : List Int → Option Int → Loop
  | [], err => if signalled then .left err else .polling
  | r :: polls, _ =>
      if r = -eintr then pollLoop signalled polls (some r)
      else if r < 0 then .left (some r)
      else pollLoop signalled polls (some r)

/-- How far `main` is. -/
inductive Outcome where
  | returned (status : Int)
  /-- `err` is read before it was assigned. -/
  | unassigned
  | running
deriving DecidableEq

/-- `return err != 0`. -/
def returnErr : Option Int → Outcome
  | none => .unassigned
  | some err => .returned (if err ≠ 0 then 1 else 0)

def afterLoop : Loop → Outcome
  | .left err => returnErr err
  | .polling => .running

/-- A poll result that is an error. -/
def PollFailed (r : Int) : Prop := r < 0 ∧ r ≠ -eintr

/-! ## What the loop leaves in `err` -/

theorem pollLoop_cons_of_ok {signalled : Bool} {r : Int} {polls : List Int}
    {err : Option Int} (h : ¬ PollFailed r) :
    pollLoop signalled (r :: polls) err = pollLoop signalled polls (some r) := by
  rw [pollLoop]
  split
  · rfl
  · rename_i hne
    rw [if_neg fun hneg => h ⟨hneg, hne⟩]

theorem pollLoop_cons_of_failed {signalled : Bool} {r : Int} {polls : List Int}
    {err : Option Int} (h : PollFailed r) :
    pollLoop signalled (r :: polls) err = .left (some r) := by
  rw [pollLoop, if_neg h.2, if_pos h.1]

/-- Without a failed poll the loop ends with the signal, and `err` is what the
last poll returned, or what it was before the loop. -/
theorem pollLoop_of_ok {signalled : Bool} {polls : List Int}
    (h : ∀ r ∈ polls, ¬ PollFailed r) (err : Option Int) :
    pollLoop signalled polls err
      = if signalled then .left (polls.getLast?.or err) else .polling := by
  induction polls generalizing err with
  | nil => rfl
  | cons r polls ih =>
    obtain ⟨hr, hpolls⟩ := List.forall_mem_cons.mp h
    rw [pollLoop_cons_of_ok hr, ih hpolls, List.getLast?_cons]
    cases polls.getLast? with
    | none => rfl
    | some last => rfl

/-- A failed poll ends the loop, whether or not a signal would have come. -/
theorem pollLoop_of_failed {polls : List Int} (h : ¬ ∀ r ∈ polls, ¬ PollFailed r)
    (signalled : Bool) (err : Option Int) :
    ∃ r, PollFailed r ∧ pollLoop signalled polls err = .left (some r) := by
  induction polls generalizing err with
  | nil => simp at h
  | cons r polls ih =>
    by_cases hr : PollFailed r
    · exact ⟨r, hr, pollLoop_cons_of_failed hr⟩
    · rw [pollLoop_cons_of_ok hr]
      exact ih (fun hpolls => h (List.forall_mem_cons.mpr ⟨hr, hpolls⟩)) (some r)

/-! ## The status -/

theorem returnErr_eq_zero_iff {err : Option Int} :
    returnErr err = .returned 0 ↔ err = some 0 := by
  cases err with
  | none => simp [returnErr]
  | some e => simp [returnErr]

theorem returnErr_eq_unassigned_iff {err : Option Int} :
    returnErr err = .unassigned ↔ err = none := by
  cases err with
  | none => simp [returnErr]
  | some e => simp [returnErr]

/-- `err = -errno` makes the status 1. -/
theorem returnErr_errno (errno : Errno) : returnErr (some (-errno.val)) = .returned 1 := by
  have hne : -errno.val ≠ 0 := by
    have := errno.property
    omega
  rw [returnErr, if_pos hne]

/-- `main` returns 0 from the loop when it was left by the signal and `err`
is 0 there. -/
theorem afterLoop_eq_zero_iff {signalled : Bool} {polls : List Int} {err : Option Int} :
    afterLoop (pollLoop signalled polls err) = .returned 0 ↔
      signalled = true ∧ (∀ r ∈ polls, ¬ PollFailed r) ∧ polls.getLast?.or err = some 0 := by
  by_cases hok : ∀ r ∈ polls, ¬ PollFailed r
  · rw [pollLoop_of_ok hok]
    cases signalled with
    | false => simp [afterLoop]
    | true =>
      simp only [if_true, afterLoop, returnErr_eq_zero_iff]
      exact ⟨fun h => ⟨trivial, hok, h⟩, fun h => h.2.2⟩
  · obtain ⟨r, hr, hloop⟩ := pollLoop_of_failed hok signalled err
    have hne : r ≠ 0 := by
      intro h0
      exact absurd hr.1 (by omega)
    rw [hloop, afterLoop, returnErr_eq_zero_iff, Option.some.injEq]
    exact ⟨fun h => absurd h hne, fun h => absurd h.2.1 hok⟩

/-- `err` has no value behind the loop when it had none before and there was
no poll. -/
theorem afterLoop_eq_unassigned_iff {signalled : Bool} {polls : List Int}
    {err : Option Int} :
    afterLoop (pollLoop signalled polls err) = .unassigned ↔
      signalled = true ∧ polls = [] ∧ err = none := by
  cases polls with
  | nil =>
    cases signalled with
    | false => simp [pollLoop, afterLoop]
    | true => simp [pollLoop, afterLoop, returnErr_eq_unassigned_iff]
  | cons r polls =>
    simp only [reduceCtorEq, false_and, and_false, iff_false]
    by_cases hok : ∀ x ∈ r :: polls, ¬ PollFailed x
    · rw [pollLoop_of_ok hok]
      cases signalled with
      | false => simp [afterLoop]
      | true => simp [afterLoop, returnErr_eq_unassigned_iff]
    · obtain ⟨x, -, hloop⟩ := pollLoop_of_failed hok signalled err
      simp [hloop, afterLoop, returnErr_eq_unassigned_iff]

end LibbpfTools
