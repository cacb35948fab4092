/-
LibbpfTools.Strace.Provenance — when the two halves of an event belong to the
same system call invocation.

An event joins the record that is under an id with the return value that
fires under that id. That is one invocation as long as no `sys_exit` fires
under an id whose last firing is the stored `sys_enter` of ANOTHER invocation,
and nothing in the handlers excludes that:

* a task that dies inside a call leaves its record behind, and the next task
  with its id may start with a call that fires only `sys_exit`;
* a thread whose `execve` succeeds returns under the leader's id, where the
  leader's own last call may still be on record.

`CleanExit` is the condition on a step that excludes exactly this, in terms of
the firings alone; `events_of_one_invocation` is the guarantee that it gives
over whole runs, and `exec_takes_over_leader_record` a run without it.
-/
import LibbpfTools.Strace.Lifecycle

namespace LibbpfTools.Strace

open LibbpfTools.Lib LibbpfTools.Lib.Lts

/-- No traced `sys_exit` fires under an id whose last firing is the
`sys_enter` of another invocation and is on record. -/
def CleanExit (target : BitVec 32) (s : Sys) : SysAction → Prop
  | .exit id _ => ¬ filtered target id → ∀ inv nr j ctx h, s.task id = .inside inv nr →
      history id s.trace = .enter j ctx true :: h → j = inv
  | .reject id _ => ¬ filtered target id → ∀ j ctx h,
      history id s.trace ≠ .enter j ctx true :: h
  | _ => True

/-- The event is made of the enter and of the return of one invocation. -/
def OfOneInvocation (s : Sys) (e : Submitted) : Prop :=
  ∃ id inv ctx ret updated reserved,
    .enter inv ctx updated ∈ history id s.trace ∧
    .exit inv ret reserved ∈ history id s.trace ∧
    e = ⟨pairedEvent id ret ctx, inv, inv⟩

/-! ## Pairs in a history -/

/-- Every event a history calls for is a traced exit right after an enter. -/
theorem mem_expected {target : BitVec 32} {id : BitVec 64} {h : List Firing} {e : Submitted}
    (he : e ∈ expected target id h) :
    ¬ filtered target id ∧ ∃ pre post inv inv' ret ctx,
      h = pre ++ .exit inv ret true :: .enter inv' ctx true :: post ∧
      e = ⟨pairedEvent id ret ctx, inv', inv⟩ := by
  fun_induction expected target id h with
  | case1 inv ret inv' ctx h ih =>
    rcases List.mem_append.mp he with he | he
    · obtain ⟨hf, pre, post, i, i', r, c, rfl, rfl⟩ := ih he
      exact ⟨hf, .exit inv ret true :: .enter inv' ctx true :: pre, post, i, i', r, c, rfl, rfl⟩
    · split at he
      · rename_i htraced
        rw [List.mem_singleton] at he
        exact ⟨not_filtered_iff.mpr htraced, [], h, inv, inv', ret, ctx, rfl, he⟩
      · simp at he
  | case2 f h hne ih =>
    obtain ⟨hf, pre, post, i, i', r, c, rfl, rfl⟩ := ih he
    exact ⟨hf, f :: pre, post, i, i', r, c, rfl, rfl⟩
  | case3 => simp at he

/-- An exit after a stored enter is of the same invocation. -/
def SameCall : Firing → Firing → Prop
  | .exit inv _ _, .enter inv' _ updated => updated = true → inv = inv'
  | _, _ => True

/-- In a clean history the events that are called for are not mixed. -/
theorem enterInv_eq_exitInv {target : BitVec 32} {id : BitVec 64} {h : List Firing}
    {e : Submitted} (hclean : h.IsChain SameCall) (he : e ∈ expected target id h) :
    ∃ inv ctx ret, .enter inv ctx true ∈ h ∧
      .exit inv ret true ∈ h ∧ e = ⟨pairedEvent id ret ctx, inv, inv⟩ := by
  obtain ⟨-, pre, post, inv, inv', ret, ctx, rfl, rfl⟩ := mem_expected he
  have hpair : SameCall (.exit inv ret true) (.enter inv' ctx true) :=
    (List.isChain_cons_cons.mp (List.isChain_append.mp hclean).2.1).1
  have heq : inv = inv' := hpair rfl
  subst heq
  exact ⟨inv, ctx, ret, by simp, by simp, rfl⟩

/-! ## Clean runs -/

/-- The history of every traced id is clean. -/
def CleanPast (target : BitVec 32) (s : Sys) : Prop :=
  ∀ id, ¬ filtered target id → (history id s.trace).IsChain SameCall

/-- A firing that goes with every other can be put on top of a history. -/
theorem isChain_cons_of_forall {R : Firing → Firing → Prop} {f : Firing} {h : List Firing}
    (hf : ∀ g, R f g) (hh : h.IsChain R) : (f :: h).IsChain R := by
  cases h with
  | nil => exact List.isChain_singleton _
  | cons g h => exact List.isChain_cons_cons.mpr ⟨hf g, hh⟩

/-- An exit keeps the history clean unless the enter of another call is on top. -/
theorem isChain_cons_exit {inv : Nat} {ret : BitVec 64} {reserved : Bool} {h : List Firing}
    (hh : h.IsChain SameCall)
    (htop : ∀ j ctx h', h = .enter j ctx true :: h' → j = inv) :
    (Firing.exit inv ret reserved :: h).IsChain SameCall := by
  cases h with
  | nil => exact List.isChain_singleton _
  | cons f h =>
    refine List.isChain_cons_cons.mpr ⟨?_, hh⟩
    cases f with
    | enter j ctx updated =>
      rintro rfl
      exact (htop j ctx h rfl).symm
    | exit j ret reserved => trivial

/-- An answer to the newest firing concerns no pair. -/
theorem isChain_succeed {h : List Firing} (hh : h.IsChain SameCall) :
    (Firing.succeed h).IsChain SameCall := by
  cases h with
  | nil => exact hh
  | cons f h =>
    cases f with
    | enter inv ctx updated => exact isChain_cons_of_forall (fun _ => trivial) hh.tail
    | exit inv ret reserved =>
      cases h with
      | nil => exact List.isChain_singleton _
      | cons g h =>
        obtain ⟨hfg, hrest⟩ := List.isChain_cons_cons.mp hh
        exact List.isChain_cons_cons.mpr ⟨by cases g <;> exact hfg, hrest⟩

theorem cleanPast_step {target : BitVec 32} {s s' : Sys} {a : SysAction}
    (hs : CleanPast target s) (ha : CleanExit target s a) (hst : SysStep target s a s') :
    CleanPast target s' := by
  intro k hk
  have hold := hs k hk
  cases hst with
  | spawn ht => exact hold
  | die ht => exact hold
  | exec ht => exact hold
  | enter ht hb =>
    rw [history_enter]
    split
    · exact isChain_cons_of_forall (fun _ => trivial) hold
    · exact hold
  | @exit id ret inv nr b ht hb =>
    rw [history_exit]
    split
    · rename_i hkid
      subst hkid
      exact isChain_cons_exit hold fun j ctx h hj => ha hk inv nr j ctx h ht hj
    · exact hold
  | reject ht hb =>
    rw [history_exit]
    split
    · rename_i hkid
      subst hkid
      exact isChain_cons_exit hold fun j ctx h hj => absurd hj (ha hk j ctx h)
    · exact hold
  | @helper act b hfire hb =>
    rcases history_helper k s.trace hfire with hsame | hsucc
    · rw [hsame]
      exact hold
    · rw [hsucc]
      exact isChain_succeed hold

theorem cleanPast_run {target : BitVec 32} {acts : List SysAction} {s : Sys}
    (halong : Along (sysStep target) (CleanExit target) Sys.init acts)
    (hrun : run (sysStep target) Sys.init acts = some s) : CleanPast target s :=
  run_induction (M := fun _ s => CleanPast target s) (fun _ _ => List.isChain_nil)
    (fun _ _ _ _ hs ha hstep => cleanPast_step hs ha (SysStep.of_step hstep)) halong hrun

/-- What the handler of an id has settled is part of its history. -/
theorem settled_suffix (h : List Firing) (pc : Pc) : settled h pc <:+ h := by
  cases pc with
  | filling => exact List.tail_suffix h
  | submitting => exact List.tail_suffix h
  | _ => exact List.suffix_refl h

/-- **No event mixes two invocations, as long as exits are clean.** In every
run of the system all of whose steps meet `CleanExit`, each submitted event
is made of the `sys_enter` and of the `sys_exit` of one invocation. -/
theorem events_of_one_invocation (target : BitVec 32) (acts : List SysAction) (s : Sys)
    (halong : Along (sysStep target) (CleanExit target) Sys.init acts)
    (hrun : run (sysStep target) Sys.init acts = some s) :
    ∀ e ∈ s.bpf.events, OfOneInvocation s e := by
  intro e he
  obtain ⟨id, hid⟩ := e.exists_of
  have hlink := linked_run (run_trace hrun) id
  have hmem : e ∈ expected target id (settled (history id s.trace) (s.bpf.pc id)) := by
    rw [← hlink.events]
    exact List.mem_filter.mpr ⟨he, by simpa using hid⟩
  have hsuffix := settled_suffix (history id s.trace) (s.bpf.pc id)
  have hclean := cleanPast_run halong hrun id (mem_expected hmem).1
  obtain ⟨inv, ctx, ret, henter, hexit, heq⟩ := enterInv_eq_exitInv
    (hclean.suffix hsuffix) hmem
  exact ⟨id, inv, ctx, ret, true, true, hsuffix.mem henter, hsuffix.mem hexit, heq⟩

/-- The helper calls of an exit that finds a record and gets a slot. -/
def exitHelpers (id : BitVec 64) : List SysAction :=
  [.helper (.mapLookup id), .helper (.ringbufReserve id true), .helper (.fill id),
   .helper (.ringbufSubmit id), .helper (.mapDelete id)]

def exitCall : SysEnter where
  nr := 93
  regs := #v[0, 0, 0, 0, 0, 0]
  comm := Vector.replicate 16 0
  mem := fun _ => none

def execveCall : SysEnter where
  nr := 221
  regs := #v[0x5000, 0x6000, 0x7000, 0, 0, 0]
  comm := Vector.replicate 16 0
  mem := fun _ => none

/-- A thread ends in `exit`. The next one gets its id and calls `read`, whose
record takes the place of the one left behind. A call of the leader is
rejected. Then the thread's `execve` succeeds and returns under the leader's
id, where nothing is on record. -/
def idsReused : List SysAction :=
  List.flatten
    [[.spawn 0x2a0000002a, .spawn 0x2a0000002b,
      .enter 0x2a0000002b exitCall, .helper (.mapUpdate 0x2a0000002b (some 0)),
      .die 0x2a0000002b, .spawn 0x2a0000002b,
      .enter 0x2a0000002b readCall, .helper (.mapUpdate 0x2a0000002b (some 1))],
     [.exit 0x2a0000002b 64], exitHelpers 0x2a0000002b,
     [.reject 0x2a0000002a (-38)],
     [.helper (.mapLookup 0x2a0000002a),
      .enter 0x2a0000002b execveCall, .helper (.mapUpdate 0x2a0000002b (some 0)),
      .exec 0x2a0000002b],
     [.exit 0x2a0000002a 0], [.helper (.mapLookup 0x2a0000002a)]]

theorem events_of_one_invocation_reused :
    ∃ s, run (sysStep 0x2a) Sys.init idsReused = some s ∧ s.bpf.events.length = 1 ∧
      ∀ e ∈ s.bpf.events, OfOneInvocation s e := by
  refine ⟨_, rfl, rfl, events_of_one_invocation 0x2a idsReused _ ?_ rfl⟩
  refine along_append (along_of_forall ?_) rfl ?_
  · simp [CleanExit]
  refine along_append (along_singleton ?_) rfl ?_
  · -- the last firing is the enter of the call that returns
    intro _ inv nr j ctx h htask htop
    cases htask
    cases htop
    rfl
  refine along_append (along_of_forall ?_) rfl ?_
  · simp [exitHelpers, CleanExit]
  refine along_append (along_singleton ?_) rfl ?_
  · intro _ j ctx h htop
    cases htop
  refine along_append (along_of_forall ?_) rfl ?_
  · simp [CleanExit]
  refine along_append (along_singleton ?_) rfl (along_append (along_of_forall ?_) rfl ?_)
  · -- the last firing under the leader's id is an exit
    intro _ inv nr j ctx h htask htop
    cases htop
  · simp [CleanExit]
  · exact along_of_forall (by simp)

/-- The leader ends in `exit`; another thread of the process then calls
`execve`, which succeeds and returns under the leader's id. -/
def execRun : List SysAction :=
  [.spawn 0x2a0000002a, .spawn 0x2a0000002b,
   .enter 0x2a0000002a exitCall, .helper (.mapUpdate 0x2a0000002a (some 0)),
   .die 0x2a0000002a,
   .enter 0x2a0000002b execveCall, .helper (.mapUpdate 0x2a0000002b (some 1)),
   .exec 0x2a0000002b, .exit 0x2a0000002a 0]
    ++ exitHelpers 0x2a0000002a

/-- The event says that `exit` returned 0: its record is the leader's `exit`,
which never returns, and its return value is that of the `execve`. -/
theorem exec_takes_over_leader_record :
    ∃ s e, run (sysStep 0x2a) Sys.init execRun = some s ∧ e ∈ s.bpf.events ∧
      e.event = pairedEvent 0x2a0000002a 0 exitCall ∧ e.enterInv = 0 ∧ e.exitInv = 1 ∧
      ¬ OfOneInvocation s e := by
  refine ⟨_, ⟨pairedEvent 0x2a0000002a 0 exitCall, 0, 1⟩, rfl, List.mem_singleton.mpr rfl,
    rfl, rfl, rfl, ?_⟩
  rintro ⟨id, inv, ctx, ret, u, r, -, -, heq⟩
  have h0 : 0 = inv := congrArg Submitted.enterInv heq
  have h1 : 1 = inv := congrArg Submitted.exitInv heq
  omega

end LibbpfTools.Strace
