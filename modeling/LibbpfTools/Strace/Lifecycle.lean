/-
LibbpfTools.Strace.Lifecycle — the threads whose system calls fire the
tracepoints, as far as the pairing of `libbpfstrace.bpf.c` depends on them.

The rules are the kernel's, and they are assumptions here:

* an invocation fires `sys_enter` when it starts and `sys_exit` when it
  returns, each under the id its task has at that moment;
* a call rejected before the tracepoint (seccomp) fires only `sys_exit`;
* a task may die inside an invocation, which then never fires `sys_exit`
  (`exit`, `exit_group`, a fatal signal, the `execve` of another thread);
* the id of a dead task may be given to a new one;
* a successful `execve` kills the other threads of the process and gives its
  caller the leader's id before its `sys_exit` fires.

No two live tasks have the same id, so the state of a task is a function of
its id. Invocations are numbered as they start, and the number travels with
the firings (`LibbpfTools.Strace.Handlers`). `trace` keeps the firings and
helper calls performed so far; `history` reads the past of an id off it.
-/
import LibbpfTools.Strace.Pairing

namespace LibbpfTools.Strace

open LibbpfTools.Lib LibbpfTools.Lib.Lts

/-- The task that owns an id. -/
inductive TaskState where
  | gone
  | user
  | inside (inv : Nat) (nr : BitVec 64)

structure Sys where
  bpf : State
  task : BitVec 64 → TaskState
  nextInv : Nat
  trace : List Action

def Sys.init : Sys where
  bpf := State.init
  task := fun _ => .gone
  nextInv := 0
  trace := []

inductive SysAction where
  /-- A new thread or process gets an id nobody has. -/
  | spawn (id : BitVec 64)
  /-- The task starts an invocation, `sys_enter` fires. -/
  | enter (id : BitVec 64) (ctx : SysEnter)
  /-- The task's invocation returns, `sys_exit` fires. -/
  | exit (id : BitVec 64) (ret : BitVec 64)
  /-- A call of the task is rejected before `sys_enter`; `sys_exit` fires. -/
  | reject (id : BitVec 64) (ret : BitVec 64)
  | die (id : BitVec 64)
  /-- The `execve` of the task succeeds; its `sys_exit` is still to come. -/
  | exec (id : BitVec 64)
  /-- A running handler makes its next helper call. -/
  | helper (a : Action)

/-- The id of the thread group leader. -/
def leaderOf (id : BitVec 64) : BitVec 64 := tgidOf id ++ tgidOf id

def Pc.isIdle : Pc → Bool
  | .idle => true
  | _ => false

def Action.isFiring : Action → Bool
  | .sysEnter .. => true
  | .sysExit .. => true
  | _ => false

def Sys.setTask (s : Sys) (id : BitVec 64) (t : TaskState) : Sys :=
  { s with task := Function.update s.task id t }

/-- Perform a firing or a helper call, keeping a note of it. -/
def Sys.perform (target : BitVec 32) (s : Sys) (a : Action) : Option Sys :=
  (step target s.bpf a).map fun b => { s with bpf := b, trace := s.trace ++ [a] }

/-- `execve` by `id`, inside invocation `inv`: the process is left with one
thread, which has the leader's id. -/
def Sys.takeOver (s : Sys) (id : BitVec 64) (inv : Nat) (nr : BitVec 64) : Sys :=
  { s with task := fun k =>
      if tgidOf k = tgidOf id then (if k = leaderOf id then .inside inv nr else .gone)
      else s.task k }

def sysStep (target : BitVec 32) (s : Sys) : SysAction → Option Sys
  | .spawn id =>
      match s.task id with
      | .gone => some (s.setTask id .user)
      | _ => none
  | .enter id ctx =>
      match s.task id with
      | .user =>
          Sys.perform target
            { s.setTask id (.inside s.nextInv ctx.nr) with nextInv := s.nextInv + 1 }
            (.sysEnter id s.nextInv ctx)
      | _ => none
  | .exit id ret =>
      match s.task id with
      | .inside inv _ => (s.setTask id .user).perform target (.sysExit id inv ret)
      | _ => none
  | .reject id ret =>
      match s.task id with
      | .user =>
          Sys.perform target { s with nextInv := s.nextInv + 1 } (.sysExit id s.nextInv ret)
      | _ => none
  | .die id =>
      match s.task id with
      | .gone => none
      | _ => if (s.bpf.pc id).isIdle then some (s.setTask id .gone) else none
  | .exec id =>
      match s.task id with
      | .inside inv nr =>
          if nr.setWidth 32 = nrExecve ∧ (s.bpf.pc id).isIdle ∧ (s.bpf.pc (leaderOf id)).isIdle
          then some (s.takeOver id inv nr)
          else none
      | _ => none
  | .helper a => if a.isFiring then none else s.perform target a

/-! ## What one step can do -/

/-- `SysStep target s a s'` lists the steps of the system. -/
inductive SysStep (target : BitVec 32) (s : Sys) : SysAction → Sys → Prop where
  | spawn {id} (ht : s.task id = .gone) :
      SysStep target s (.spawn id) (s.setTask id .user)
  | enter {id ctx b} (ht : s.task id = .user)
      (hb : step target s.bpf (.sysEnter id s.nextInv ctx) = some b) :
      SysStep target s (.enter id ctx)
        { bpf := b, task := Function.update s.task id (.inside s.nextInv ctx.nr),
          nextInv := s.nextInv + 1, trace := s.trace ++ [.sysEnter id s.nextInv ctx] }
  | exit {id ret inv nr b} (ht : s.task id = .inside inv nr)
      (hb : step target s.bpf (.sysExit id inv ret) = some b) :
      SysStep target s (.exit id ret)
        { bpf := b, task := Function.update s.task id .user,
          nextInv := s.nextInv, trace := s.trace ++ [.sysExit id inv ret] }
  | reject {id ret b} (ht : s.task id = .user)
      (hb : step target s.bpf (.sysExit id s.nextInv ret) = some b) :
      SysStep target s (.reject id ret)
        { bpf := b, task := s.task, nextInv := s.nextInv + 1,
          trace := s.trace ++ [.sysExit id s.nextInv ret] }
  | die {id} (ht : s.task id ≠ .gone) :
      SysStep target s (.die id) (s.setTask id .gone)
  | exec {id inv nr} (ht : s.task id = .inside inv nr) :
      SysStep target s (.exec id) (s.takeOver id inv nr)
  | helper {a b} (ha : a.isFiring = false) (hb : step target s.bpf a = some b) :
      SysStep target s (.helper a) { s with bpf := b, trace := s.trace ++ [a] }

theorem SysStep.of_step {target : BitVec 32} {s s' : Sys} {a : SysAction}
    (h : sysStep target s a = some s') : SysStep target s a s' := by
  cases a with
  | spawn id =>
    simp only [sysStep] at h
    split at h
    · rename_i ht; cases h; exact .spawn ht
    · cases h
  | enter id ctx =>
    simp only [sysStep] at h
    split at h
    · rename_i ht
      obtain ⟨b, hb, rfl⟩ := Option.map_eq_some_iff.mp h
      exact .enter ht hb
    · cases h
  | exit id ret =>
    simp only [sysStep] at h
    split at h
    · rename_i inv nr ht
      obtain ⟨b, hb, rfl⟩ := Option.map_eq_some_iff.mp h
      exact .exit ht hb
    · cases h
  | reject id ret =>
    simp only [sysStep] at h
    split at h
    · rename_i ht
      obtain ⟨b, hb, rfl⟩ := Option.map_eq_some_iff.mp h
      exact .reject ht hb
    · cases h
  | die id =>
    simp only [sysStep] at h
    split at h
    · cases h
    · rename_i ht
      split at h
      · cases h; exact .die ht
      · cases h
  | exec id =>
    simp only [sysStep] at h
    split at h
    · rename_i inv nr ht
      split at h
      · cases h; exact .exec ht
      · cases h
    · cases h
  | helper a =>
    simp only [sysStep] at h
    split at h
    · cases h
    · rename_i ha
      obtain ⟨b, hb, rfl⟩ := Option.map_eq_some_iff.mp h
      exact .helper (by simpa using ha) hb

/-- A step adds nothing to the trace, a firing, or the helper call it is. -/
theorem SysStep.trace {target : BitVec 32} {s s' : Sys} {act : SysAction}
    (h : SysStep target s act s') : s'.trace = s.trace ∨
      ∃ a, s'.trace = s.trace ++ [a] ∧ (a.isFiring = true ∨ act = .helper a) := by
  cases h with
  | spawn ht => exact Or.inl rfl
  | die ht => exact Or.inl rfl
  | exec ht => exact Or.inl rfl
  | enter ht hb => exact Or.inr ⟨_, rfl, Or.inl rfl⟩
  | exit ht hb => exact Or.inr ⟨_, rfl, Or.inl rfl⟩
  | reject ht hb => exact Or.inr ⟨_, rfl, Or.inl rfl⟩
  | helper ha hb => exact Or.inr ⟨_, rfl, Or.inr rfl⟩

/-- A helper call in the trace after a step was there before or is the step. -/
theorem SysStep.mem_trace {target : BitVec 32} {s s' : Sys} {act : SysAction} {a : Action}
    (h : SysStep target s act s') (ha : a ∈ s'.trace) (hfire : a.isFiring = false) :
    a ∈ s.trace ∨ act = .helper a := by
  rcases h.trace with heq | ⟨b, heq, hb⟩
  · exact Or.inl (heq ▸ ha)
  · rw [heq, List.mem_append, List.mem_singleton] at ha
    rcases ha with ha | rfl
    · exact Or.inl ha
    · exact Or.inr (hb.resolve_left (by simp [hfire]))

/-- What the system has done to the maps is a run of the handlers. -/
theorem run_trace {target : BitVec 32} {acts : List SysAction} {s : Sys}
    (hrun : run (sysStep target) Sys.init acts = some s) :
    run (step target) State.init s.trace = some s.bpf := by
  refine run_invariant (M := fun _ s =>
    run (step target) State.init s.trace = some s.bpf) rfl ?_ hrun
  intro _ s a s' hs hstep
  cases SysStep.of_step hstep with
  | enter ht hb => rw [run_append, hs]; simp [hb]
  | exit ht hb => rw [run_append, hs]; simp [hb]
  | reject ht hb => rw [run_append, hs]; simp [hb]
  | helper ha hb => rw [run_append, hs]; simp [hb]
  | _ => exact hs

/-! ## The past of an id -/

/-- A helper call adds no firing; it may only be the answer to the newest. -/
theorem history_helper (id : BitVec 64) (acts : List Action) {a : Action}
    (ha : a.isFiring = false) : history id (acts ++ [a]) = history id acts ∨
      history id (acts ++ [a]) = Firing.succeed (history id acts) := by
  rw [history_concat]
  by_cases hid : a.id = id
  · subst hid
    rw [historyStep_self]
    split
    · simp [Action.isFiring] at ha
    · simp [Action.isFiring] at ha
    · exact Or.inr rfl
    · exact Or.inr rfl
    · exact Or.inl rfl
  · exact Or.inl (historyStep_ne hid _)

theorem history_enter (id k : BitVec 64) (acts : List Action) (inv : Nat) (ctx : SysEnter) :
    history k (acts ++ [.sysEnter id inv ctx])
      = if k = id then .enter inv ctx false :: history k acts else history k acts := by
  rw [history_concat, historyStep]
  by_cases h : k = id
  · subst h
    simp [Action.id]
  · have hid : (Action.sysEnter id inv ctx).id ≠ k := fun h' => h h'.symm
    simp [hid, h]

theorem history_exit (id k : BitVec 64) (acts : List Action) (inv : Nat) (ret : BitVec 64) :
    history k (acts ++ [.sysExit id inv ret])
      = if k = id then .exit inv ret false :: history k acts else history k acts := by
  rw [history_concat, historyStep]
  by_cases h : k = id
  · subst h
    simp [Action.id]
  · have hid : (Action.sysExit id inv ret).id ≠ k := fun h' => h h'.symm
    simp [hid, h]

end LibbpfTools.Strace
