/-
LibbpfTools.App.Execs — the `execs` map of `libbpfapp.bpf.c`.

The handler of `sys_enter_execve` uses a hash map as its scratch memory: it
inserts an empty event under its thread id with `BPF_NOEXIST`, looks it up,
fills it in through the pointer, prints from it and deletes it. The event is
there because it is too large for the stack, not to be kept, and a single
entry left behind would make every later run of that thread end at the update.

As in the tracer a run is a sequence of helper calls and accesses through the
pointer, `Pc` is the next one, and runs of different threads interleave
between any two. A thread runs the handler in its own system call, so two runs
of one thread follow each other. The lookup in `my_pid_map` and the lines that
print neither `comm` nor `args` do not touch `execs` and are left out.

`execs_entries`: the keys of the map are the threads between their insert and
their delete, whatever happened before.
-/
import LibbpfTools.Bpf.Helpers
import LibbpfTools.Lib.HashTab
import LibbpfTools.Lib.Lts

namespace LibbpfTools.App

open LibbpfTools.Lib LibbpfTools.Lib.Lts LibbpfTools.Bpf

/-- `struct event`. -/
structure Event where
  pid : BitVec 32
  ppid : BitVec 32
  uid : BitVec 32
  comm : Vector UInt8 16
  args : Vector UInt8 128

/-- `empty_event`. -/
def Event.empty : Event := ⟨0, 0, 0, Vector.replicate 16 0, Vector.replicate 128 0⟩

instance : Inhabited Event := ⟨Event.empty⟩

/-- What one run of the handler sees: the id and user of its task, its comm,
the `filename` argument of the `execve` and the memory it is read from. -/
structure Exec where
  id : BitVec 64
  uid : BitVec 32
  comm : Vector UInt8 16
  filename : BitVec 64
  mem : UserMem

/-- `(pid_t)id`, the key. -/
def Exec.tid (c : Exec) : BitVec 32 := c.id.setWidth 32

def Exec.tgid (c : Exec) : BitVec 32 := (c.id >>> 32).setWidth 32

/-- What the read of the file name leaves in `args`. -/
def Exec.readArgs (c : Exec) (args : Vector UInt8 128) : Vector UInt8 128 :=
  match bpfProbeReadUserStr c.mem 127 c.filename with
  | none => args
  | some s => strWrite args s

/-- The next helper call or access of the run of a thread. -/
inductive Pc where
  | idle
  | updating (c : Exec)
  | lookingUp (c : Exec)
  | storingIds (c : Exec) (event : Nat)
  | gettingComm (c : Exec) (event : Nat)
  | readingArgs (c : Exec) (event : Nat)
  | printing (c : Exec) (event : Nat)
  | deleting

/-- A line with `comm` and `args`, and the run that printed it. -/
structure Printed where
  run : Exec
  comm : Vector UInt8 16
  args : Vector UInt8 128

structure State where
  execs : HashTab (BitVec 32) Event 10240
  pc : BitVec 32 → Pc
  printed : List Printed

def State.init : State where
  execs := HashTab.empty
  pc := fun _ => .idle
  printed := []

def State.setPc (s : State) (tid : BitVec 32) (pc : Pc) : State :=
  { s with pc := Function.update s.pc tid pc }

inductive Action where
  /-- The tracepoint fires. -/
  | fire (c : Exec)
  /-- `bpf_map_update_elem`: refused, or placed in the given element. -/
  | mapUpdate (tid : BitVec 32) (r : Option Nat)
  | mapLookup (tid : BitVec 32)
  | storeIds (tid : BitVec 32)
  | getComm (tid : BitVec 32)
  | readArgs (tid : BitVec 32)
  | print (tid : BitVec 32)
  | mapDelete (tid : BitVec 32)

/-- The thread that acts. -/
def Action.tid : Action → BitVec 32
  | .fire c => c.tid
  | .mapUpdate tid _ => tid
  | .mapLookup tid => tid
  | .storeIds tid => tid
  | .getComm tid => tid
  | .readArgs tid => tid
  | .print tid => tid
  | .mapDelete tid => tid

def step (s : State) : Action → Option State
  | .fire c =>
      match s.pc c.tid with
      | .idle => some (s.setPc c.tid (.updating c))
      | _ => none
  | .mapUpdate tid r =>
      match s.pc tid with
      | .updating c =>
          (s.execs.update? .noexist tid Event.empty r).map fun t =>
            { s.setPc tid (if r.isNone then .idle else .lookingUp c) with execs := t }
      | _ => none
  | .mapLookup tid =>
      match s.pc tid with
      | .lookingUp c =>
          match s.execs.lookup tid with
          | none => some (s.setPc tid .idle)
          | some event => some (s.setPc tid (.storingIds c event))
      | _ => none
  | .storeIds tid =>
      match s.pc tid with
      | .storingIds c event =>
          some { s.setPc tid (.gettingComm c event) with
            execs := s.execs.store event fun e => { e with pid := c.tgid, uid := c.uid } }
      | _ => none
  | .getComm tid =>
      match s.pc tid with
      | .gettingComm c event =>
          some { s.setPc tid (.readingArgs c event) with
            execs := s.execs.store event fun e => { e with comm := c.comm } }
      | _ => none
  | .readArgs tid =>
      match s.pc tid with
      | .readingArgs c event =>
          some { s.setPc tid (.printing c event) with
            execs := s.execs.store event fun e => { e with args := c.readArgs e.args } }
      | _ => none
  | .print tid =>
      match s.pc tid with
      | .printing c event =>
          let e := s.execs.elem event
          some { s.setPc tid .deleting with printed := s.printed ++ [⟨c, e.comm, e.args⟩] }
      | _ => none
  | .mapDelete tid =>
      match s.pc tid with
      | .deleting => some { s.setPc tid .idle with execs := s.execs.delete tid }
      | _ => none

/-! ## What one step can do -/

/-- `Step s a s'` lists what a step can do. -/
inductive Step (s : State) : Action → State → Prop where
  | fire {c} (hpc : s.pc c.tid = .idle) :
      Step s (.fire c) (s.setPc c.tid (.updating c))
  | refused {tid c t} (hpc : s.pc tid = .updating c)
      (hup : s.execs.update? .noexist tid Event.empty none = some t) :
      Step s (.mapUpdate tid none) { s.setPc tid .idle with execs := t }
  | update {tid c a t} (hpc : s.pc tid = .updating c)
      (hup : s.execs.update? .noexist tid Event.empty (some a) = some t) :
      Step s (.mapUpdate tid (some a)) { s.setPc tid (.lookingUp c) with execs := t }
  | lookupNull {tid c} (hpc : s.pc tid = .lookingUp c) (hl : s.execs.lookup tid = none) :
      Step s (.mapLookup tid) (s.setPc tid .idle)
  | lookup {tid c event} (hpc : s.pc tid = .lookingUp c)
      (hl : s.execs.lookup tid = some event) :
      Step s (.mapLookup tid) (s.setPc tid (.storingIds c event))
  | storeIds {tid c event} (hpc : s.pc tid = .storingIds c event) :
      Step s (.storeIds tid) { s.setPc tid (.gettingComm c event) with
        execs := s.execs.store event fun e => { e with pid := c.tgid, uid := c.uid } }
  | getComm {tid c event} (hpc : s.pc tid = .gettingComm c event) :
      Step s (.getComm tid) { s.setPc tid (.readingArgs c event) with
        execs := s.execs.store event fun e => { e with comm := c.comm } }
  | readArgs {tid c event} (hpc : s.pc tid = .readingArgs c event) :
      Step s (.readArgs tid) { s.setPc tid (.printing c event) with
        execs := s.execs.store event fun e => { e with args := c.readArgs e.args } }
  | print {tid c event} (hpc : s.pc tid = .printing c event) :
      Step s (.print tid) { s.setPc tid .deleting with
        printed := s.printed ++ [⟨c, (s.execs.elem event).comm, (s.execs.elem event).args⟩] }
  | delete {tid} (hpc : s.pc tid = .deleting) :
      Step s (.mapDelete tid) { s.setPc tid .idle with execs := s.execs.delete tid }

theorem Step.of_step {s s' : State} {a : Action} (h : step s a = some s') : Step s a s' := by
  cases a with
  | fire c =>
    simp only [step] at h
    split at h
    · rename_i hpc; cases h; exact .fire hpc
    · cases h
  | mapUpdate tid r =>
    simp only [step] at h
    split at h
    · rename_i c hpc
      obtain ⟨t, ht, rfl⟩ := Option.map_eq_some_iff.mp h
      cases r with
      | none => exact .refused hpc ht
      | some a => exact .update hpc ht
    · cases h
  | mapLookup tid =>
    simp only [step] at h
    split at h
    · rename_i c hpc
      split at h
      · rename_i hl; cases h; exact .lookupNull hpc hl
      · rename_i event hl; cases h; exact .lookup hpc hl
    · cases h
  | storeIds tid =>
    simp only [step] at h
    split at h
    · rename_i c event hpc; cases h; exact .storeIds hpc
    · cases h
  | getComm tid =>
    simp only [step] at h
    split at h
    · rename_i c event hpc; cases h; exact .getComm hpc
    · cases h
  | readArgs tid =>
    simp only [step] at h
    split at h
    · rename_i c event hpc; cases h; exact .readArgs hpc
    · cases h
  | print tid =>
    simp only [step] at h
    split at h
    · rename_i c event hpc; cases h; exact .print hpc
    · cases h
  | mapDelete tid =>
    simp only [step] at h
    split at h
    · rename_i hpc; cases h; exact .delete hpc
    · cases h

@[simp] theorem setPc_pc_self (s : State) (tid : BitVec 32) (pc : Pc) :
    (s.setPc tid pc).pc tid = pc := by
  simp [State.setPc]

theorem setPc_pc_ne (s : State) {tid k : BitVec 32} (pc : Pc) (h : k ≠ tid) :
    (s.setPc tid pc).pc k = s.pc k := by
  simp [State.setPc, h]

theorem Step.pc_ne {s s' : State} {a : Action} (h : Step s a s') {k : BitVec 32}
    (hk : k ≠ a.tid) : s'.pc k = s.pc k := by
  cases h <;> exact setPc_pc_ne s _ hk

/-! ## The invariant -/

/-- The entry of a thread, by where its run is. -/
def AtPc (entry : Option (Nat × Event)) : Pc → Prop
  | .idle => entry = none
  | .updating _ => entry = none
  | .lookingUp _ => ∃ event, entry = some (event, Event.empty)
  | .storingIds _ event => entry = some (event, Event.empty)
  | .gettingComm c event =>
      entry = some (event, { Event.empty with pid := c.tgid, uid := c.uid })
  | .readingArgs c event =>
      entry = some (event, { Event.empty with pid := c.tgid, uid := c.uid, comm := c.comm })
  | .printing c event =>
      entry = some (event, { Event.empty with
        pid := c.tgid, uid := c.uid, comm := c.comm, args := c.readArgs Event.empty.args })
  | .deleting => entry ≠ none

/-- The line shows what its run read, from an empty event on. -/
def Printed.Own (p : Printed) : Prop :=
  p.comm = p.run.comm ∧ p.args = p.run.readArgs Event.empty.args

structure Inv (s : State) : Prop where
  entries : ∀ tid, AtPc (s.execs.entry tid) (s.pc tid)
  own : ∀ p ∈ s.printed, p.Own

theorem inv_init : Inv State.init where
  entries := fun _ => rfl
  own := by simp [State.init]

section OneStep

variable {s s' : State} {a : Action}

theorem Inv.at_pc (h : Inv s) {tid : BitVec 32} {pc : Pc} (hpc : s.pc tid = pc) :
    AtPc (s.execs.entry tid) pc := hpc ▸ h.entries tid

/-- A step of one thread leaves the entries of the others alone: the pointer
it writes through is the one of its own entry. -/
theorem entry_step_ne (h : Inv s) (hst : Step s a s') {k : BitVec 32} (hk : k ≠ a.tid) :
    s'.execs.entry k = s.execs.entry k := by
  cases hst with
  | refused hpc hup => exact HashTab.entry_update?_ne hup hk
  | update hpc hup => exact HashTab.entry_update?_ne hup hk
  | storeIds hpc => exact HashTab.entry_store_ne (h.at_pc hpc) hk
  | getComm hpc => exact HashTab.entry_store_ne (h.at_pc hpc) hk
  | readArgs hpc => exact HashTab.entry_store_ne (h.at_pc hpc) hk
  | delete hpc => exact HashTab.entry_delete_ne _ hk
  | fire hpc => rfl
  | lookupNull hpc hl => rfl
  | lookup hpc hl => rfl
  | print hpc => rfl

theorem atPc_step_self (h : Inv s) (hst : Step s a s') :
    AtPc (s'.execs.entry a.tid) (s'.pc a.tid) := by
  have hself : ∀ {tid : BitVec 32} {pc : Pc} {entry : Option (Nat × Event)},
      AtPc entry pc → AtPc entry ((s.setPc tid pc).pc tid) :=
    fun hat => by rwa [setPc_pc_self]
  cases hst with
  | fire hpc =>
    have hnone : s.execs.entry _ = none := h.at_pc hpc
    exact hself hnone
  | refused hpc hup =>
    obtain ⟨-, rfl⟩ := HashTab.update?_none_iff.mp hup
    have hnone : s.execs.entry _ = none := h.at_pc hpc
    exact hself hnone
  | update hpc hup => exact hself ⟨_, HashTab.entry_update?_self hup⟩
  | lookupNull hpc hl => exact hself (HashTab.entry_eq_none_iff.mpr hl)
  | lookup hpc hl =>
    obtain ⟨event, hent⟩ := h.at_pc hpc
    have heq := (HashTab.entry_eq_some_iff.mp hent).1.symm.trans hl
    obtain rfl := Option.some.inj heq
    exact hself hent
  | storeIds hpc => exact hself (HashTab.entry_store_self (h.at_pc hpc))
  | getComm hpc => exact hself (HashTab.entry_store_self (h.at_pc hpc))
  | readArgs hpc => exact hself (HashTab.entry_store_self (h.at_pc hpc))
  | print hpc =>
    have hent := h.at_pc hpc
    exact hself fun hnone => by cases hent.symm.trans hnone
  | delete hpc => exact hself (HashTab.entry_delete_self ..)

theorem own_step (h : Inv s) (hst : Step s a s') : ∀ p ∈ s'.printed, p.Own := by
  cases hst with
  | print hpc =>
    intro p hp
    rcases List.mem_append.mp hp with hp | hp
    · exact h.own p hp
    · rw [List.mem_singleton] at hp
      subst hp
      -- the pointer leads to the entry, and the entry is what the run has built
      have helem := (HashTab.entry_eq_some_iff.mp (h.at_pc hpc)).2
      exact ⟨by rw [helem], by rw [helem]⟩
  | _ => exact h.own

theorem inv_step (h : Inv s) (hst : Step s a s') : Inv s' where
  entries := by
    intro k
    by_cases hk : k = a.tid
    · subst hk
      exact atPc_step_self h hst
    · rw [entry_step_ne h hst hk, hst.pc_ne hk]
      exact h.entries k
  own := own_step h hst

end OneStep

theorem inv_run {acts : List Action} {s : State} (hrun : run step State.init acts = some s) :
    Inv s :=
  run_invariant (M := fun _ s => Inv s) inv_init
    (fun _ _ _ _ h hstep => inv_step h (Step.of_step hstep)) hrun

/-! ## The window -/

/-- The run is between its insert and its delete. -/
def Pc.InWindow : Pc → Prop
  | .idle => False
  | .updating _ => False
  | _ => True

theorem entry_ne_none_iff {entry : Option (Nat × Event)} {pc : Pc} (h : AtPc entry pc) :
    entry ≠ none ↔ pc.InWindow := by
  cases pc with
  | idle => exact iff_of_false (fun hne => hne h) id
  | updating c => exact iff_of_false (fun hne => hne h) id
  | deleting => exact iff_of_true h trivial
  | lookingUp c =>
    obtain ⟨event, h⟩ := h
    exact iff_of_true (by simp [h]) trivial
  | storingIds c event => exact iff_of_true (by rw [h]; simp) trivial
  | gettingComm c event => exact iff_of_true (by rw [h]; simp) trivial
  | readingArgs c event => exact iff_of_true (by rw [h]; simp) trivial
  | printing c event => exact iff_of_true (by rw [h]; simp) trivial

theorem mem_keys_iff {s : State} (h : Inv s) (tid : BitVec 32) :
    tid ∈ s.execs.keys ↔ (s.pc tid).InWindow := by
  rw [← entry_ne_none_iff (h.entries tid), ne_eq, HashTab.entry_eq_none_iff,
    HashTab.lookup_eq_none_iff, not_not]

/-- What holds of the map in every reachable state. -/
structure EntriesOfRuns (s : State) : Prop where
  /-- The keys are the threads between their insert and their delete. -/
  keys_iff : ∀ tid, tid ∈ s.execs.keys ↔ (s.pc tid).InWindow
  /-- An insert is refused only when 10240 runs are in that window at once. -/
  refused : ∀ tid c, s.pc tid = .updating c → s.execs.Refuses .noexist tid →
    Set.encard { k | (s.pc k).InWindow } = 10240
  /-- A run that inserted its entry finds it. -/
  found : ∀ tid c, s.pc tid = .lookingUp c → ∃ event, s.execs.lookup tid = some event
  /-- What is printed is what the run itself wrote. -/
  own : ∀ p ∈ s.printed, p.Own

/-- **Entries live exactly as long as one run of the handler**, in every
reachable state of any number of threads, however their runs interleave. -/
theorem execs_entries (acts : List Action) (s : State)
    (hrun : run step State.init acts = some s) : EntriesOfRuns s := by
  have h := inv_run hrun
  refine ⟨mem_keys_iff h, ?_, ?_, h.own⟩
  · intro tid c hpc href
    have hnew : tid ∉ s.execs.keys := by
      rw [mem_keys_iff h, hpc]
      exact id
    obtain ⟨-, hfull⟩ := href.resolve_left (fun hex => hnew hex.2)
    have hset : { k | (s.pc k).InWindow } = { k | k ∈ s.execs.keys } := by
      ext k
      exact (mem_keys_iff h k).symm
    rw [hset, HashTab.encard_keys, Nat.le_antisymm s.execs.size_le hfull]
    rfl
  · intro tid c hpc
    obtain ⟨event, hent⟩ := h.at_pc hpc
    exact ⟨event, (HashTab.entry_eq_some_iff.mp hent).1⟩

/-- A call with a file name that can be read. -/
def catExec : Exec where
  id := 0x2a0000002a
  uid := 1000
  comm := strWrite (Vector.replicate 16 0) (ascii "sh")
  filename := 1
  mem := memOf (ascii "\x00/bin/cat\x00")

/-- A call with one that cannot. -/
def badExec : Exec where
  id := 0x2b0000002b
  uid := 1000
  comm := strWrite (Vector.replicate 16 0) (ascii "sh")
  filename := 0x100
  mem := memOf (ascii "\x00/bin/cat\x00")

/-- The first to insert is the second to print. -/
def crossedExecs : List Action :=
  [.fire catExec, .fire badExec, .mapUpdate 0x2a (some 0), .mapUpdate 0x2b (some 1),
   .mapLookup 0x2b, .storeIds 0x2b, .getComm 0x2b, .mapLookup 0x2a, .storeIds 0x2a, .getComm 0x2a,
   .readArgs 0x2b, .print 0x2b, .readArgs 0x2a, .print 0x2a]

/-- The same, and the first thread goes on to another call, whose entry gets
the memory of its first one. -/
def crossedAgain : List Action :=
  crossedExecs ++ [.mapDelete 0x2a, .fire catExec, .mapUpdate 0x2a (some 0)]

theorem execs_entries_crossed :
    ∃ s, run step State.init crossedAgain = some s ∧
      s.printed.map (fun p => (p.run.tid, cstr p.args.toList))
        = [(0x2b, []), (0x2a, ascii "/bin/cat")] ∧
      s.execs.keys = [0x2a, 0x2b] ∧ EntriesOfRuns s := by
  have hread : (run step State.init crossedAgain).map
        (fun s => (s.printed.map fun p => (p.run.tid, cstr p.args.toList), s.execs.keys))
      = some ([(0x2b, []), (0x2a, ascii "/bin/cat")], [0x2a, 0x2b]) := by decide +kernel
  obtain ⟨s, hs, hread⟩ := Option.map_eq_some_iff.mp hread
  obtain ⟨hprinted, hkeys⟩ := Prod.mk.inj hread
  exact ⟨s, hs, hprinted, hkeys, execs_entries crossedAgain s hs⟩

end LibbpfTools.App
