/-
LibbpfTools.Strace.Main — `main` of `libbpfstrace.c`.

The target is selected, written into the read-only data of the BPF object and
the object is loaded and attached; then the loop polls until it is told to
stop. What the libbpf calls return is the environment of a run.

`target_resolution` is about the value that is loaded: it never says "every
process", and it is the process that was asked for.
-/
import LibbpfTools.MainLoop
import LibbpfTools.Strace.Target

namespace LibbpfTools.Strace

open LibbpfTools.Lib

/-- What a run of `main` is given: the arguments, what its scans of `/proc`
see, the first test of `exiting` before the BPF object is opened that sees a
signal, and what the calls behind it return. -/
structure Env where
  argv : List CString
  views : List ProcView
  waitSignal : Option Nat
  /-- `libbpfstrace_bpf__open` does not return a null pointer. -/
  opened : Bool
  load : Int
  attach : Int
  /-- The `errno` of a failed `ring_buffer__new`. -/
  ringBuffer : Option Errno
  polls : List Int
  signalled : Bool

/-- `target_tgid` when the object is loaded, if it is, the handles opened and
closed, and how `main` ends. -/
structure Run where
  targetTgid : Option Int
  ops : List FileOp
  outcome : Outcome

/-- `main` from `libbpfstrace_bpf__load` on. -/
def loadAndPoll (env : Env) : Outcome :=
  let err := env.load
  if err ≠ 0 then returnErr (some err)
  else
    let err := env.attach
    if err ≠ 0 then returnErr (some err)
    else
      match env.ringBuffer with
      | some errno => returnErr (some (-errno.val))
      | none => afterLoop (pollLoop env.signalled env.polls (some err))

def main (env : Env) : Run :=
  match env.argv with
  | [_, arg] =>
      let sel := selectTarget arg env.waitSignal env.views
      match sel.1 with
      | .waiting => ⟨none, sel.2, .running⟩
      | .interrupted => ⟨none, sel.2, .returned 1⟩
      | .target pid =>
          if env.opened then ⟨some pid, sel.2, loadAndPoll env⟩
          else ⟨none, sel.2, .returned 1⟩
  | _ => ⟨none, [], .returned 1⟩

/-! ## The target -/

/-- The object is loaded with the target that was selected. -/
theorem targetTgid_eq_some_iff {env : Env} {prog arg : CString} (hargv : env.argv = [prog, arg])
    (v : Int) : (main env).targetTgid = some v ↔
      (selectTarget arg env.waitSignal env.views).1 = .target v ∧ env.opened = true := by
  simp only [main, hargv]
  cases (selectTarget arg env.waitSignal env.views).1 with
  | waiting => simp
  | interrupted => simp
  | target pid =>
    cases env.opened with
    | false => simp
    | true => simp

theorem ops_main {env : Env} {prog arg : CString} (hargv : env.argv = [prog, arg]) :
    (main env).ops = (selectTarget arg env.waitSignal env.views).2 := by
  simp only [main, hargv]
  split
  · rfl
  · rfl
  · split
    · rfl
    · rfl

/-- **Target resolution.** If the object is loaded, `target_tgid` is a process
id, and it is the number the argument is a numeral of; or the argument is no
such numeral, and it is the first match of the first scan that had a match.
A scan fails exactly when it sees no match, and then leaves the process id as
it was. Whatever is opened on the way is closed. -/
theorem target_resolution (env : Env) (prog arg : CString) (hargv : env.argv = [prog, arg])
    (hlen : arg.bytes.length ≤ 510) :
    (∀ v, (main env).targetTgid = some v →
      (1 ≤ v ∧ v ≤ 2 ^ 31 - 1) ∧
        (IsNumeral arg v ∨
          ((∀ w, IsNumeral arg w → ¬ (1 ≤ w ∧ w ≤ 2 ^ 31 - 1)) ∧
            ∃ pre es post, env.views = pre ++ some es :: post ∧
              (∀ view ∈ pre, NoMatch arg view) ∧ FirstMatch arg es v))) ∧
    (∀ pid view, ((findPidByName arg pid view).ret ≠ 0 ↔ NoMatch arg view) ∧
      ((findPidByName arg pid view).ret ≠ 0 → (findPidByName arg pid view).pid = pid)) ∧
    (∀ pid view, Balanced (findPidByName arg pid view).ops) ∧
    Balanced (main env).ops := by
  refine ⟨?_, ?_, fun pid view => balanced_findPidByName arg pid view, ?_⟩
  · intro v hv
    obtain ⟨hsel, -⟩ := (targetTgid_eq_some_iff hargv v).mp hv
    rcases (selectTarget_eq_target_iff hlen env.waitSignal env.views v).mp hsel with
      ⟨hnum, hrange⟩ | ⟨hno, pre, es, post, hviews, hpre, hfirst, -⟩
    · exact ⟨hrange, Or.inl hnum⟩
    · exact ⟨pos_of_firstMatch hfirst,
        Or.inr ⟨fun w hw hrange => hno w ⟨hw, hrange⟩, pre, es, post, hviews, hpre, hfirst⟩⟩
  · intro pid view
    rcases findPidByName_spec hlen pid view with ⟨hret, hpid, hnone⟩ | ⟨hret, es, rfl, hfirst⟩
    · exact ⟨⟨fun _ => hnone, fun _ => by omega⟩, fun _ => hpid⟩
    · exact ⟨⟨fun h => absurd hret h, fun h => absurd h (not_noMatch_of_firstMatch hfirst)⟩,
        fun h => absurd hret h⟩
  · rw [ops_main hargv]
    exact balanced_selectTarget arg env.waitSignal env.views

/-- `libbpfstrace sh`, where the first scan sees the first process only and
the second one also a shell with a suffix to its name. -/
def waitForSh : Env where
  argv := [.ofBuf (ascii "libbpfstrace"), .ofBuf (ascii "sh")]
  views :=
    let init : ProcEntry :=
      ⟨.ofBuf (ascii "1"), some (ascii "/sbin/init\x00splash\x00"),
        some ⟨ascii "init\n", by decide +kernel⟩⟩
    let shell : ProcEntry :=
      ⟨.ofBuf (ascii "4242"), some [], some ⟨ascii "sh:0\n", by decide +kernel⟩⟩
    let net : ProcEntry := ⟨.ofBuf (ascii "net"), none, none⟩
    [some [net, init], some [net, init, shell]]
  waitSignal := none
  opened := true
  load := 0
  attach := 0
  ringBuffer := none
  polls := []
  signalled := true

theorem target_resolution_waitForSh :
    (main waitForSh).targetTgid = some 4242 ∧
      ∃ pre es post, waitForSh.views = pre ++ some es :: post ∧
        (∀ view ∈ pre, NoMatch (.ofBuf (ascii "sh")) view) ∧
          FirstMatch (.ofBuf (ascii "sh")) es 4242 := by
  have hload : (main waitForSh).targetTgid = some 4242 := by decide +kernel
  have h := target_resolution waitForSh (.ofBuf (ascii "libbpfstrace")) (.ofBuf (ascii "sh")) rfl
    (by decide +kernel)
  obtain ⟨-, hnum | ⟨-, hscan⟩⟩ := h.1 4242 hload
  · have hpid : pidOf (.ofBuf (ascii "sh")) = some 4242 :=
      (pidOf_eq_some_iff _ _).mpr ⟨hnum, by decide⟩
    exact absurd hpid (by decide +kernel)
  · exact ⟨hload, hscan⟩

end LibbpfTools.Strace
