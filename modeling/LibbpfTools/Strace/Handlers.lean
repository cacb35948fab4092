/-
LibbpfTools.Strace.Handlers — `handle_sys_enter` and `handle_sys_exit` of
`libbpfstrace.bpf.c` as a transition system at the granularity of their
helper calls.

A handler runs in the context of the task that fired its tracepoint, so there
is at most one running handler for each `id = tgid << 32 | tid`; handlers of
different ids interleave freely between two helper calls. `Pc` is the next
helper call of the handler of an id, with the locals it still needs. `step`
performs one firing or one helper call:

* a firing starts the handler and runs it up to its first helper call; a
  filtered firing ends at once;
* `mapUpdate` and `ringbufReserve` carry the kernel's answer, since both may
  fail and the code cannot know when;
* between `reserve` and `submit` the handler reads the record THROUGH THE
  POINTER the lookup returned, so `fill` is a step of its own and reads the
  element memory as it is then.

Every firing also carries the number of the system call invocation that it
belongs to. The map value, the locals and the submitted event carry it along
and nothing ever branches on it: it is there to say where the parts of an
event come from.
-/
import LibbpfTools.Lib.HashTab
import LibbpfTools.Lib.Lts
import LibbpfTools.Strace.Capture

namespace LibbpfTools.Strace

open LibbpfTools.Lib

/-- A value of the `inflight` map, with the invocation it was recorded for. -/
structure Stored where
  inv : Nat
  state : EnterState

instance : Inhabited Stored := ⟨⟨0, EnterState.zero⟩⟩

/-- A submitted event, with the invocation its record was made for and the
invocation whose return value it carries. -/
structure Submitted where
  event : SyscallEvent
  enterInv : Nat
  exitInv : Nat

/-- The next helper call of the handler of an id. -/
inductive Pc where
  | idle
  | updating (inv : Nat) (s : EnterState)
  | lookingUp (inv : Nat) (ret : BitVec 64)
  | reserving (inv : Nat) (ret : BitVec 64) (s : Nat)
  | filling (inv : Nat) (ret : BitVec 64) (s : Nat)
  | submitting (e : Submitted)
  | deleting

structure State where
  inflight : HashTab (BitVec 64) Stored 16384
  pc : BitVec 64 → Pc
  /-- The ring buffer records submitted so far, in order. -/
  events : List Submitted

def State.init : State where
  inflight := HashTab.empty
  pc := fun _ => .idle
  events := []

def State.setPc (s : State) (id : BitVec 64) (pc : Pc) : State :=
  { s with pc := Function.update s.pc id pc }

inductive Action where
  /-- The `sys_enter` tracepoint fires. -/
  | sysEnter (id : BitVec 64) (inv : Nat) (ctx : SysEnter)
  /-- The `sys_exit` tracepoint fires. -/
  | sysExit (id : BitVec 64) (inv : Nat) (ret : BitVec 64)
  /-- `bpf_map_update_elem`: refused, or placed in the given element. -/
  | mapUpdate (id : BitVec 64) (r : Option Nat)
  | mapLookup (id : BitVec 64)
  /-- `bpf_ringbuf_reserve`: a record, or null. -/
  | ringbufReserve (id : BitVec 64) (ok : Bool)
  /-- The copy of the stored record into the reserved one. -/
  | fill (id : BitVec 64)
  | ringbufSubmit (id : BitVec 64)
  | mapDelete (id : BitVec 64)

/-- The id in whose context the action happens. -/
def Action.id : Action → BitVec 64
  | .sysEnter id _ _ => id
  | .sysExit id _ _ => id
  | .mapUpdate id _ => id
  | .mapLookup id => id
  | .ringbufReserve id _ => id
  | .fill id => id
  | .ringbufSubmit id => id
  | .mapDelete id => id

/-- `target_tgid != 0 && tgid != target_tgid`: the firing is ignored. -/
def filtered (target : BitVec 32) (id : BitVec 64) : Prop :=
  target ≠ 0 ∧ tgidOf id ≠ target

instance (target : BitVec 32) (id : BitVec 64) : Decidable (filtered target id) :=
  inferInstanceAs (Decidable (_ ∧ _))

/-- One firing or one helper call; `none` when it is not the next thing the
handler of that id does, or when the kernel cannot give that answer. -/
def step (target : BitVec 32) (s : State) : Action → Option State
  | .sysEnter id inv ctx =>
      match s.pc id with
      | .idle =>
          if filtered target id then some s
          else some (s.setPc id (.updating inv (enterStateOf ctx)))
      | _ => none
  | .mapUpdate id r =>
      match s.pc id with
      | .updating inv st =>
          -- the result of the update is ignored
          (s.inflight.update? .any id ⟨inv, st⟩ r).map fun t =>
            { s.setPc id .idle with inflight := t }
      | _ => none
  | .sysExit id inv ret =>
      match s.pc id with
      | .idle =>
          if filtered target id then some s
          else some (s.setPc id (.lookingUp inv ret))
      | _ => none
  | .mapLookup id =>
      match s.pc id with
      | .lookingUp inv ret =>
          match s.inflight.lookup id with
          | none => some (s.setPc id .idle)
          | some p => some (s.setPc id (.reserving inv ret p))
      | _ => none
  | .ringbufReserve id ok =>
      match s.pc id with
      | .reserving inv ret p =>
          -- a full ring buffer drops the event but still cleans up
          if ok then some (s.setPc id (.filling inv ret p))
          else some (s.setPc id .deleting)
      | _ => none
  | .fill id =>
      match s.pc id with
      | .filling inv ret p =>
          let v := s.inflight.elem p
          some (s.setPc id (.submitting ⟨fillEvent id ret v.state, v.inv, inv⟩))
      | _ => none
  | .ringbufSubmit id =>
      match s.pc id with
      | .submitting e => some { s.setPc id .deleting with events := s.events ++ [e] }
      | _ => none
  | .mapDelete id =>
      match s.pc id with
      | .deleting => some { s.setPc id .idle with inflight := s.inflight.delete id }
      | _ => none

/-! ## What one step can do -/

/-- `Step target s a s'` lists what a step can do: where the handler of the
action's id was, what the call answered and what changed. -/
inductive Step (target : BitVec 32) (s : State) : Action → State → Prop where
  | enterFiltered {id inv ctx} (hpc : s.pc id = .idle) (hf : filtered target id) :
      Step target s (.sysEnter id inv ctx) s
  | enter {id inv ctx} (hpc : s.pc id = .idle) (hf : ¬ filtered target id) :
      Step target s (.sysEnter id inv ctx) (s.setPc id (.updating inv (enterStateOf ctx)))
  | update {id r inv st t} (hpc : s.pc id = .updating inv st)
      (hup : s.inflight.update? .any id ⟨inv, st⟩ r = some t) :
      Step target s (.mapUpdate id r) { s.setPc id .idle with inflight := t }
  | exitFiltered {id inv ret} (hpc : s.pc id = .idle) (hf : filtered target id) :
      Step target s (.sysExit id inv ret) s
  | exit {id inv ret} (hpc : s.pc id = .idle) (hf : ¬ filtered target id) :
      Step target s (.sysExit id inv ret) (s.setPc id (.lookingUp inv ret))
  | lookupNull {id inv ret} (hpc : s.pc id = .lookingUp inv ret)
      (hl : s.inflight.lookup id = none) :
      Step target s (.mapLookup id) (s.setPc id .idle)
  | lookup {id inv ret p} (hpc : s.pc id = .lookingUp inv ret)
      (hl : s.inflight.lookup id = some p) :
      Step target s (.mapLookup id) (s.setPc id (.reserving inv ret p))
  | reserve {id inv ret p} (hpc : s.pc id = .reserving inv ret p) :
      Step target s (.ringbufReserve id true) (s.setPc id (.filling inv ret p))
  | reserveNull {id inv ret p} (hpc : s.pc id = .reserving inv ret p) :
      Step target s (.ringbufReserve id false) (s.setPc id .deleting)
  | fill {id inv ret p} (hpc : s.pc id = .filling inv ret p) :
      Step target s (.fill id) (s.setPc id (.submitting
        ⟨fillEvent id ret (s.inflight.elem p).state, (s.inflight.elem p).inv, inv⟩))
  | submit {id e} (hpc : s.pc id = .submitting e) :
      Step target s (.ringbufSubmit id) { s.setPc id .deleting with events := s.events ++ [e] }
  | delete {id} (hpc : s.pc id = .deleting) :
      Step target s (.mapDelete id)
        { s.setPc id .idle with inflight := s.inflight.delete id }

theorem Step.of_step {target : BitVec 32} {s s' : State} {a : Action}
    (h : step target s a = some s') : Step target s a s' := by
  cases a with
  | sysEnter id inv ctx =>
    simp only [step] at h
    split at h
    · rename_i hpc
      split at h
      · rename_i hf; cases h; exact .enterFiltered hpc hf
      · rename_i hf; cases h; exact .enter hpc hf
    · cases h
  | mapUpdate id r =>
    simp only [step] at h
    split at h
    · rename_i inv st hpc
      obtain ⟨t, ht, rfl⟩ := Option.map_eq_some_iff.mp h
      exact .update hpc ht
    · cases h
  | sysExit id inv ret =>
    simp only [step] at h
    split at h
    · rename_i hpc
      split at h
      · rename_i hf; cases h; exact .exitFiltered hpc hf
      · rename_i hf; cases h; exact .exit hpc hf
    · cases h
  | mapLookup id =>
    simp only [step] at h
    split at h
    · rename_i inv ret hpc
      split at h
      · rename_i hl; cases h; exact .lookupNull hpc hl
      · rename_i p hl; cases h; exact .lookup hpc hl
    · cases h
  | ringbufReserve id ok =>
    simp only [step] at h
    split at h
    · rename_i inv ret p hpc
      split at h
      · rename_i hok; subst hok; cases h; exact .reserve hpc
      · rename_i hok
        rw [Bool.not_eq_true] at hok
        subst hok; cases h; exact .reserveNull hpc
    · cases h
  | fill id =>
    simp only [step] at h
    split at h
    · rename_i inv ret p hpc; cases h; exact .fill hpc
    · cases h
  | ringbufSubmit id =>
    simp only [step] at h
    split at h
    · rename_i e hpc; cases h; exact .submit hpc
    · cases h
  | mapDelete id =>
    simp only [step] at h
    split at h
    · rename_i hpc; cases h; exact .delete hpc
    · cases h

/-! ## Frame: a step touches its own id only -/

@[simp] theorem setPc_pc_self (s : State) (id : BitVec 64) (pc : Pc) :
    (s.setPc id pc).pc id = pc := by
  simp [State.setPc]

theorem setPc_pc_ne (s : State) {id k : BitVec 64} (pc : Pc) (h : k ≠ id) :
    (s.setPc id pc).pc k = s.pc k := by
  simp [State.setPc, h]

@[simp] theorem setPc_inflight (s : State) (id : BitVec 64) (pc : Pc) :
    (s.setPc id pc).inflight = s.inflight := rfl

@[simp] theorem setPc_events (s : State) (id : BitVec 64) (pc : Pc) :
    (s.setPc id pc).events = s.events := rfl

theorem Step.pc_ne {target : BitVec 32} {s s' : State} {a : Action}
    (h : Step target s a s') {k : BitVec 64} (hk : k ≠ a.id) : s'.pc k = s.pc k := by
  cases h with
  | enterFiltered hpc hf => rfl
  | exitFiltered hpc hf => rfl
  | _ => exact setPc_pc_ne s _ hk

theorem Step.entry_ne {target : BitVec 32} {s s' : State} {a : Action}
    (h : Step target s a s') {k : BitVec 64} (hk : k ≠ a.id) :
    s'.inflight.entry k = s.inflight.entry k := by
  cases h with
  | update hpc hup => exact HashTab.entry_update?_ne hup hk
  | delete hpc => exact HashTab.entry_delete_ne _ hk
  | _ => rfl

end LibbpfTools.Strace
