/-
LibbpfTools.Strace.Pairing — every submitted event is one `sys_exit` paired
with the `sys_enter` right before it, and every such pair is submitted.

The specification never mentions the map. `history id acts` is the list of
firings under one id, newest first, each with the kernel's answer to the one
call that decides about it: whether the `inflight` update of an enter took
place, whether the reserve of an exit gave a record. `expected` reads the
events off that list: an exit with a record, directly after an enter whose
update took place, in a process that is traced. `pairedEvent` says what is in
such an event, field by field, from the two firings alone.

`Linked` is the invariant that ties the two together: the entry of an id in
`inflight` is the newest firing if that is a stored enter and is absent
otherwise, and the handler in progress holds a pointer to exactly that entry.
-/
import LibbpfTools.Strace.Handlers

namespace LibbpfTools.Strace

open LibbpfTools.Lib LibbpfTools.Lib.Lts

/-! ## The specification -/

/-- A firing and the kernel's answer to the call that decides about it. -/
inductive Firing where
  | enter (inv : Nat) (ctx : SysEnter) (updated : Bool)
  | exit (inv : Nat) (ret : BitVec 64) (reserved : Bool)

/-- Note a successful update or reserve on the newest firing. -/
def Firing.succeed : List Firing → List Firing
  | .enter inv ctx _ :: h => .enter inv ctx true :: h
  | .exit inv ret _ :: h => .exit inv ret true :: h
  | [] => []

/-- What one action adds to the history of an id. -/
def historyStep (id : BitVec 64) (h : List Firing) (a : Action) : List Firing :=
  if a.id ≠ id then h
  else
    match a with
    | .sysEnter _ inv ctx => .enter inv ctx false :: h
    | .sysExit _ inv ret => .exit inv ret false :: h
    | .mapUpdate _ (some _) => Firing.succeed h
    | .ringbufReserve _ true => Firing.succeed h
    | _ => h

/-- The firings under an id, newest first. -/
def history (id : BitVec 64) (acts : List Action) : List Firing :=
  acts.foldl (historyStep id) []

/-- The event of an exit and the enter before it. -/
def pairedEvent (id ret : BitVec 64) (ctx : SysEnter) : SyscallEvent where
  tgid := tgidOf id
  pid := tidOf id
  syscallId := ctx.nr.setWidth 32
  ret := ret
  args := ctx.regs
  comm := ctx.comm
  str := (enterStateOf ctx).str
  strLen := (enterStateOf ctx).strLen
  saFamily := (enterStateOf ctx).saFamily
  saPort := (enterStateOf ctx).saPort
  saAddr4 := (enterStateOf ctx).saAddr4
  saAddr6 := (enterStateOf ctx).saAddr6
  saScopeId := (enterStateOf ctx).saScopeId
  saValid := (enterStateOf ctx).saValid

/-- The events that the firings under one id call for, oldest first, each
with the invocations of its two firings. -/
def expected (target : BitVec 32) (id : BitVec 64) : List Firing → List Submitted
  | .exit inv ret true :: .enter inv' ctx true :: h =>
      expected target id h
        ++ if target = 0 ∨ tgidOf id = target then [⟨pairedEvent id ret ctx, inv', inv⟩] else []
  | _ :: h => expected target id h
  | [] => []

/-- The event was submitted under this id. -/
def Submitted.Of (id : BitVec 64) (e : Submitted) : Prop :=
  e.event.tgid = tgidOf id ∧ e.event.pid = tidOf id

instance (id : BitVec 64) : DecidablePred (Submitted.Of id) :=
  fun _ => inferInstanceAs (Decidable (_ ∧ _))

/-- The submitted events of one id, in order. -/
def eventsOf (id : BitVec 64) (events : List Submitted) : List Submitted :=
  events.filter (Submitted.Of id)

/-! ## Ids, events and histories -/

theorem id_ext {id k : BitVec 64} (h1 : tgidOf id = tgidOf k) (h2 : tidOf id = tidOf k) :
    id = k := by
  have hhi : id.toNat / 2 ^ 32 = k.toNat / 2 ^ 32 := by
    have := congrArg BitVec.toNat h1
    simp only [tgidOf, BitVec.toNat_setWidth, BitVec.toNat_ushiftRight,
      Nat.shiftRight_eq_div_pow] at this
    have := id.isLt
    have := k.isLt
    omega
  have hlo : id.toNat % 2 ^ 32 = k.toNat % 2 ^ 32 := by
    simpa only [tidOf, BitVec.toNat_setWidth] using congrArg BitVec.toNat h2
  apply BitVec.eq_of_toNat_eq
  omega

theorem toNat_append (hi lo : BitVec 32) :
    (hi ++ lo).toNat = hi.toNat * 2 ^ 32 + lo.toNat := by
  rw [BitVec.toNat_append, Nat.shiftLeft_eq, Nat.mul_comm, ← Nat.two_pow_add_eq_or_of_lt lo.isLt,
    Nat.mul_comm]

theorem tgidOf_append (hi lo : BitVec 32) : tgidOf (hi ++ lo) = hi := by
  apply BitVec.eq_of_toNat_eq
  have h1 := hi.isLt
  have h2 := lo.isLt
  simp only [tgidOf, BitVec.toNat_setWidth, BitVec.toNat_ushiftRight, toNat_append,
    Nat.shiftRight_eq_div_pow]
  omega

theorem tidOf_append (hi lo : BitVec 32) : tidOf (hi ++ lo) = lo := by
  apply BitVec.eq_of_toNat_eq
  have h2 := lo.isLt
  simp only [tidOf, BitVec.toNat_setWidth, toNat_append]
  omega

/-- Every event is of some id. -/
theorem Submitted.exists_of (e : Submitted) : ∃ id, e.Of id :=
  ⟨e.event.tgid ++ e.event.pid, (tgidOf_append ..).symm, (tidOf_append ..).symm⟩

theorem eventsOf_concat_of {id : BitVec 64} {e : Submitted} (h : e.Of id)
    (events : List Submitted) : eventsOf id (events ++ [e]) = eventsOf id events ++ [e] := by
  simp [eventsOf, h]

theorem eventsOf_concat_ne {id k : BitVec 64} {e : Submitted} (h : e.Of k) (hne : id ≠ k)
    (events : List Submitted) : eventsOf id (events ++ [e]) = eventsOf id events := by
  have hnot : ¬ e.Of id := fun h' => hne (id_ext (h'.1.symm.trans h.1) (h'.2.symm.trans h.2))
  simp [eventsOf, hnot]

theorem history_concat (id : BitVec 64) (acts : List Action) (a : Action) :
    history id (acts ++ [a]) = historyStep id (history id acts) a := by
  simp [history]

theorem historyStep_ne {id : BitVec 64} {a : Action} (h : a.id ≠ id) (hist : List Firing) :
    historyStep id hist a = hist := if_pos h

theorem history_concat_ne {id : BitVec 64} {a : Action} (h : a.id ≠ id) (acts : List Action) :
    history id (acts ++ [a]) = history id acts := by
  rw [history_concat, historyStep_ne h]

theorem historyStep_self (hist : List Firing) (a : Action) :
    historyStep a.id hist a =
      match a with
      | .sysEnter _ inv ctx => .enter inv ctx false :: hist
      | .sysExit _ inv ret => .exit inv ret false :: hist
      | .mapUpdate _ (some _) => Firing.succeed hist
      | .ringbufReserve _ true => Firing.succeed hist
      | _ => hist := by
  simp only [historyStep, ne_eq, not_true_eq_false, if_false]

theorem fillEvent_enterStateOf (id ret : BitVec 64) (ctx : SysEnter) :
    fillEvent id ret (enterStateOf ctx) = pairedEvent id ret ctx := by
  rw [enterStateOf_frame]
  simp only [fillEvent, pairedEvent, args_eta]

theorem args_fillEvent (id ret : BitVec 64) (ctx : SysEnter) :
    (fillEvent id ret (enterStateOf ctx)).args = ctx.regs := by
  rw [fillEvent_enterStateOf]
  rfl

theorem syscallId_fillEvent (id ret : BitVec 64) (ctx : SysEnter) :
    (fillEvent id ret (enterStateOf ctx)).syscallId = ctx.nr.setWidth 32 := by
  rw [fillEvent_enterStateOf]
  rfl

@[simp] theorem expected_enter (target : BitVec 32) (id : BitVec 64) (inv : Nat)
    (ctx : SysEnter) (updated : Bool) (h : List Firing) :
    expected target id (.enter inv ctx updated :: h) = expected target id h := by
  simp [expected]

@[simp] theorem expected_exit_false (target : BitVec 32) (id : BitVec 64) (inv : Nat)
    (ret : BitVec 64) (h : List Firing) :
    expected target id (.exit inv ret false :: h) = expected target id h := by
  simp [expected]

theorem not_filtered_iff {target : BitVec 32} {id : BitVec 64} :
    ¬ filtered target id ↔ target = 0 ∨ tgidOf id = target := by
  simp only [filtered, not_and_or, ne_eq, not_not]

theorem expected_pair {target : BitVec 32} {id : BitVec 64} (hf : ¬ filtered target id)
    (inv inv' : Nat) (ret : BitVec 64) (ctx : SysEnter) (h : List Firing) :
    expected target id (.exit inv ret true :: .enter inv' ctx true :: h)
      = expected target id h ++ [⟨pairedEvent id ret ctx, inv', inv⟩] := by
  rw [expected, if_pos (not_filtered_iff.mp hf)]

/-! ## The invariant -/

/-- The entry an id must have after these firings. -/
def EntryMatches (entry : Option (Nat × Stored)) : List Firing → Prop
  | .enter inv ctx true :: _ => ∃ p, entry = some (p, ⟨inv, enterStateOf ctx⟩)
  | _ => entry = none

/-- What the handler of an id knows, by where it is. -/
def AtPc (id : BitVec 64) (entry : Option (Nat × Stored)) (h : List Firing) : Pc → Prop
  | .idle => EntryMatches entry h
  | .updating inv st => ∃ ctx h', h = .enter inv ctx false :: h' ∧ st = enterStateOf ctx
  | .lookingUp inv ret => ∃ h', h = .exit inv ret false :: h' ∧ EntryMatches entry h'
  | .reserving inv ret p => ∃ inv' ctx h',
      h = .exit inv ret false :: .enter inv' ctx true :: h' ∧
      entry = some (p, ⟨inv', enterStateOf ctx⟩)
  | .filling inv ret p => ∃ inv' ctx h',
      h = .exit inv ret true :: .enter inv' ctx true :: h' ∧
      entry = some (p, ⟨inv', enterStateOf ctx⟩)
  | .submitting e => ∃ inv ret inv' ctx h',
      h = .exit inv ret true :: .enter inv' ctx true :: h' ∧
      e = ⟨fillEvent id ret (enterStateOf ctx), inv', inv⟩
  | .deleting => ∃ inv ret reserved inv' ctx h',
      h = .exit inv ret reserved :: .enter inv' ctx true :: h'

/-- The firings whose events are out: an exit between its reserve and its
submit is not yet among them. -/
def settled (h : List Firing) : Pc → List Firing
  | .filling .. => h.tail
  | .submitting .. => h.tail
  | _ => h

/-- The invariant of one id. -/
structure Linked (target : BitVec 32) (id : BitVec 64) (s : State) (h : List Firing) : Prop where
  ignored : filtered target id → s.pc id = .idle ∧ s.inflight.entry id = none
  handler : AtPc id (s.inflight.entry id) h (s.pc id)
  events : eventsOf id s.events = expected target id (settled h (s.pc id))

theorem linked_init (target : BitVec 32) (id : BitVec 64) :
    Linked target id State.init [] :=
  ⟨fun _ => ⟨rfl, rfl⟩, rfl, rfl⟩

/-! ## One step -/

variable {target : BitVec 32} {s s' : State} {a : Action}

/-- A step of one id adds no event of another. -/
theorem eventsOf_step_ne (hst : Step target s a s') {k : BitVec 64} (hk : k ≠ a.id)
    {h : List Firing} (hown : Linked target a.id s h) :
    eventsOf k s'.events = eventsOf k s.events := by
  cases hst with
  | submit hpc =>
    have hat := hown.handler
    rw [Action.id, hpc] at hat
    obtain ⟨inv, ret, inv', ctx, h', -, rfl⟩ := hat
    exact eventsOf_concat_ne ⟨rfl, rfl⟩ hk _
  | _ => rfl

theorem linked_step_ne (hst : Step target s a s') {k : BitVec 64} (hk : k ≠ a.id)
    {h hown : List Firing} (hl : Linked target k s h) (ho : Linked target a.id s hown) :
    Linked target k s' h where
  ignored := by
    rw [hst.pc_ne hk, hst.entry_ne hk]
    exact hl.ignored
  handler := by
    rw [hst.pc_ne hk, hst.entry_ne hk]
    exact hl.handler
  events := by
    rw [hst.pc_ne hk, eventsOf_step_ne hst hk ho]
    exact hl.events

/-- A handler that is running was not filtered. -/
theorem Linked.not_filtered {id : BitVec 64} {h : List Firing} {pc : Pc}
    (hl : Linked target id s h) (hpc : s.pc id = pc) (hrun : pc ≠ .idle) :
    ¬ filtered target id :=
  fun hf => hrun (hpc ▸ (hl.ignored hf).1)

/-- The invariant of a traced id, with its handler at a known place. -/
theorem Linked.of_pc {id : BitVec 64} {h : List Firing} {pc : Pc} (hf : ¬ filtered target id)
    (hpc : s.pc id = pc) (hat : AtPc id (s.inflight.entry id) h pc)
    (hev : eventsOf id s.events = expected target id (settled h pc)) : Linked target id s h where
  ignored := fun h => absurd h hf
  handler := by rw [hpc]; exact hat
  events := by rw [hpc]; exact hev

/-- The invariant at a known place, read back. -/
theorem Linked.at_pc {id : BitVec 64} {h : List Firing} {pc : Pc} (hl : Linked target id s h)
    (hpc : s.pc id = pc) : AtPc id (s.inflight.entry id) h pc ∧
      eventsOf id s.events = expected target id (settled h pc) :=
  ⟨hpc ▸ hl.handler, hpc ▸ hl.events⟩

/-- A filtered firing changes nothing and calls for nothing. -/
theorem Linked.ignore {id : BitVec 64} {h : List Firing} {f : Firing}
    (hl : Linked target id s h) (hf : filtered target id) (hnone : EntryMatches none (f :: h))
    (hsame : expected target id (f :: h) = expected target id h) :
    Linked target id s (f :: h) := by
  obtain ⟨hpc, hent⟩ := hl.ignored hf
  obtain ⟨-, hev⟩ := hl.at_pc hpc
  refine ⟨hl.ignored, ?_, ?_⟩
  · rw [hpc, hent]
    exact hnone
  · rw [hpc, show settled (f :: h) .idle = f :: h from rfl, hsame]
    exact hev

theorem linked_update {id : BitVec 64} {inv : Nat} {st : EnterState} {r : Option Nat}
    {t : HashTab (BitVec 64) Stored 16384} {h : List Firing} (hl : Linked target id s h)
    (hpc : s.pc id = .updating inv st)
    (hup : s.inflight.update? .any id ⟨inv, st⟩ r = some t) :
    Linked target id { s.setPc id .idle with inflight := t }
      (historyStep id h (.mapUpdate id r)) := by
  have hf := hl.not_filtered hpc (by simp)
  obtain ⟨⟨ctx, h', rfl, rfl⟩, hev⟩ := hl.at_pc hpc
  cases r with
  | none =>
    -- refused: the table is full and the id has no entry, now or before
    obtain ⟨href, rfl⟩ := HashTab.update?_none_iff.mp hup
    refine .of_pc hf (setPc_pc_self ..) ?_ ?_
    · simpa [historyStep, AtPc, EntryMatches, Action.id]
        using HashTab.entry_eq_none_of_refuses_any href
    · simpa [historyStep, settled, Action.id] using hev
  | some p =>
    refine .of_pc hf (setPc_pc_self ..) ?_ ?_
    · simpa [historyStep, AtPc, EntryMatches, Action.id, Firing.succeed]
        using ⟨p, HashTab.entry_update?_self hup⟩
    · simpa [historyStep, settled, Action.id, Firing.succeed] using hev

theorem linked_lookup {id : BitVec 64} {inv : Nat} {ret : BitVec 64} {p : Nat}
    {h : List Firing} (hl : Linked target id s h) (hpc : s.pc id = .lookingUp inv ret)
    (hlook : s.inflight.lookup id = some p) :
    Linked target id (s.setPc id (.reserving inv ret p)) h := by
  have hf := hl.not_filtered hpc (by simp)
  obtain ⟨⟨h', rfl, hmatch⟩, hev⟩ := hl.at_pc hpc
  refine .of_pc hf (setPc_pc_self ..) ?_ (by simpa [settled] using hev)
  -- the entry is there, so the firing before the exit is a stored enter
  unfold EntryMatches at hmatch
  split at hmatch
  · rename_i inv' ctx h''
    obtain ⟨q, hq⟩ := hmatch
    have hqp : q = p := by
      have := (HashTab.entry_eq_some_iff.mp hq).1
      exact Option.some.inj (this.symm.trans hlook)
    exact ⟨inv', ctx, h'', rfl, hqp ▸ hq⟩
  · rw [HashTab.entry_eq_none_iff, hlook] at hmatch
    simp at hmatch

theorem linked_submit {id : BitVec 64} {e : Submitted} {h : List Firing}
    (hl : Linked target id s h) (hpc : s.pc id = .submitting e) :
    Linked target id { s.setPc id .deleting with events := s.events ++ [e] } h := by
  have hf := hl.not_filtered hpc (by simp)
  obtain ⟨⟨inv, ret, inv', ctx, h', rfl, rfl⟩, hev⟩ := hl.at_pc hpc
  refine .of_pc hf (setPc_pc_self ..) ⟨_, _, _, _, _, _, rfl⟩ ?_
  simp only [settled, List.tail_cons, expected_enter] at hev
  rw [eventsOf_concat_of ⟨rfl, rfl⟩, fillEvent_enterStateOf, hev]
  exact (expected_pair hf ..).symm

theorem linked_step_self (hst : Step target s a s') {h : List Firing}
    (hl : Linked target a.id s h) : Linked target a.id s' (historyStep a.id h a) := by
  cases hst with
  | enterFiltered hpc hf =>
    rw [historyStep_self]
    exact hl.ignore hf rfl (expected_enter ..)
  | enter hpc hf =>
    obtain ⟨-, hev⟩ := hl.at_pc hpc
    rw [historyStep_self]
    exact .of_pc hf (setPc_pc_self ..) ⟨_, _, rfl, rfl⟩ (by simpa [settled] using hev)
  | update hpc hup => exact linked_update hl hpc hup
  | exitFiltered hpc hf =>
    rw [historyStep_self]
    exact hl.ignore hf rfl (expected_exit_false ..)
  | exit hpc hf =>
    obtain ⟨hat, hev⟩ := hl.at_pc hpc
    rw [historyStep_self]
    exact .of_pc hf (setPc_pc_self ..) ⟨_, rfl, hat⟩ (by simpa [settled] using hev)
  | lookupNull hpc hnull =>
    obtain ⟨⟨h', rfl, -⟩, hev⟩ := hl.at_pc hpc
    rw [historyStep_self]
    refine .of_pc (hl.not_filtered hpc (by simp)) (setPc_pc_self ..) ?_ hev
    exact HashTab.entry_eq_none_iff.mpr hnull
  | lookup hpc hlook =>
    rw [historyStep_self]
    exact linked_lookup hl hpc hlook
  | reserve hpc =>
    obtain ⟨⟨inv', ctx, h', rfl, hent⟩, hev⟩ := hl.at_pc hpc
    rw [historyStep_self]
    exact .of_pc (hl.not_filtered hpc (by simp)) (setPc_pc_self ..)
      ⟨inv', ctx, h', rfl, hent⟩ (by simpa [settled, Firing.succeed] using hev)
  | reserveNull hpc =>
    obtain ⟨⟨inv', ctx, h', rfl, -⟩, hev⟩ := hl.at_pc hpc
    rw [historyStep_self]
    exact .of_pc (hl.not_filtered hpc (by simp)) (setPc_pc_self ..)
      ⟨_, _, _, _, _, _, rfl⟩ (by simpa [settled] using hev)
  | fill hpc =>
    obtain ⟨⟨inv', ctx, h', rfl, hent⟩, hev⟩ := hl.at_pc hpc
    rw [historyStep_self]
    -- the pointer still leads to the entry, and the entry is the enter's record
    have helem := (HashTab.entry_eq_some_iff.mp hent).2
    exact .of_pc (hl.not_filtered hpc (by simp)) (setPc_pc_self ..)
      ⟨_, _, inv', ctx, h', rfl, by rw [helem]; rfl⟩ (by simpa [settled] using hev)
  | submit hpc =>
    rw [historyStep_self]
    exact linked_submit hl hpc
  | delete hpc =>
    obtain ⟨⟨inv, ret, b, inv', ctx, h', rfl⟩, hev⟩ := hl.at_pc hpc
    rw [historyStep_self]
    exact .of_pc (hl.not_filtered hpc (by simp)) (setPc_pc_self ..)
      (HashTab.entry_delete_self ..) hev

/-! ## Whole runs -/

theorem linked_step (hst : Step target s a s') {acts : List Action}
    (hl : ∀ id, Linked target id s (history id acts)) :
    ∀ id, Linked target id s' (history id (acts ++ [a])) := by
  intro id
  rw [history_concat]
  by_cases hid : a.id = id
  · subst hid
    exact linked_step_self hst (hl a.id)
  · rw [historyStep_ne hid]
    exact linked_step_ne hst (fun h => hid h.symm) (hl id) (hl a.id)

theorem linked_run {acts : List Action} (hrun : run (step target) State.init acts = some s) :
    ∀ id, Linked target id s (history id acts) :=
  run_invariant (M := fun acts s => ∀ id, Linked target id s (history id acts))
    (linked_init target) (fun _ _ _ _ hl hstep => linked_step (Step.of_step hstep) hl) hrun

/-- **Enter and exit are paired exactly.** Whatever fires, in whatever order
the helper calls of different ids interleave, and whichever updates and
reserves the kernel refuses: once the handler of an id has returned, the
events submitted for that id are the ones its firings call for, in order. -/
theorem pairing_exact (target : BitVec 32) (acts : List Action) (s : State)
    (hrun : run (step target) State.init acts = some s) (id : BitVec 64)
    (hidle : s.pc id = .idle) :
    eventsOf id s.events = expected target id (history id acts) := by
  obtain ⟨-, hev⟩ := (linked_run hrun id).at_pc hidle
  exact hev

/-- A `read` of a file, for the runs below. -/
def readCall : SysEnter where
  nr := 63
  regs := #v[3, 0x7000, 64, 0, 0, 0]
  comm := Vector.replicate 16 0
  mem := fun _ => none

/-- One traced `read`, with an exit of another thread in between. -/
def readRun : List Action :=
  [.sysEnter 0x2a0000002a 0 readCall, .sysExit 0x2a0000002b 1 5,
   .mapUpdate 0x2a0000002a (some 7), .sysExit 0x2a0000002a 0 64,
   .mapLookup 0x2a0000002b, .mapLookup 0x2a0000002a,
   .ringbufReserve 0x2a0000002a true, .fill 0x2a0000002a,
   .ringbufSubmit 0x2a0000002a, .mapDelete 0x2a0000002a]

theorem pairing_exact_read :
    ∃ s, run (step 0x2a) State.init readRun = some s ∧ s.pc 0x2a0000002a = .idle ∧
      eventsOf 0x2a0000002a s.events = [⟨pairedEvent 0x2a0000002a 64 readCall, 0, 0⟩] :=
  ⟨_, rfl, rfl, pairing_exact 0x2a readRun _ rfl 0x2a0000002a rfl⟩

end LibbpfTools.Strace
