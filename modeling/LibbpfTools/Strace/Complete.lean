/-
LibbpfTools.Strace.Complete — nothing that fires under a thread id is missing
from the output.

What the tracer does can be said without its maps and buffers: under a thread
id there is a call from an enter to the next exit, and each exit ends the call
that is open under its id. `Thread` is that, read off the firings alone. A
thread that is in a call when the tracing begins has an exit without an enter,
which ends nothing. A call that returns under another id than it was entered
under is none in this account: when `execve` succeeds in a thread that is not
the leader, its exit ends what is open under the leader's id, if anything is.
`Provenance` is about that.

The output can fall short of it only where the kernel refuses a helper call,
the update of a full map or the reserve of a full buffer. If it refuses none,
then once the handlers have returned and the buffer is empty the records under
every thread id of the target are the calls under it, all of them and in order,
and there are no others (`complete_output`).

The firings carry the kernel's answers, and the proof is about these:
`Answered` says that every one is what the thread's own calls ask for.
-/
import LibbpfTools.Strace.Output

namespace LibbpfTools.Strace

open LibbpfTools.Lib LibbpfTools.Lib.Lts

/-! ## The specification -/

/-- A thread id: the call that is open under it, and those completed. -/
structure Thread where
  inside : Option (Nat × SysEnter)
  done : List Submitted

def Thread.init : Thread := ⟨none, []⟩

/-- An exit ends the call that is open under its id. -/
def Thread.exit (id : BitVec 64) (t : Thread) (inv : Nat) (ret : BitVec 64) : Thread where
  inside := none
  done := t.done ++ (t.inside.map fun call => ⟨pairedEvent id ret call.2, call.1, inv⟩).toList

def threadStep (id : BitVec 64) (t : Thread) (a : Action) : Thread :=
  if a.id ≠ id then t
  else
    match a with
    | .sysEnter _ inv ctx => { t with inside := some (inv, ctx) }
    | .sysExit _ inv ret => t.exit id inv ret
    | _ => t

def threadOf (id : BitVec 64) (acts : List Action) : Thread :=
  acts.foldl (threadStep id) Thread.init

/-- The calls that were completed under a thread id. -/
def calls (id : BitVec 64) (acts : List Action) : List Submitted := (threadOf id acts).done

/-- The kernel has refused no update and no reserve. -/
def NothingRefused (acts : List Action) : Prop :=
  ∀ id, .mapUpdate id none ∉ acts ∧ .ringbufReserve id false ∉ acts

/-! ## The thread in its history -/

/-- The thread after the firings of a history, whatever the answers. -/
def threadAfter (id : BitVec 64) : List Firing → Thread
  | [] => Thread.init
  | .enter inv ctx _ :: h => { threadAfter id h with inside := some (inv, ctx) }
  | .exit inv ret _ :: h => (threadAfter id h).exit id inv ret

theorem threadAfter_succeed (id : BitVec 64) (h : List Firing) :
    threadAfter id (Firing.succeed h) = threadAfter id h := by
  cases h with
  | nil => rfl
  | cons f h =>
    cases f with
    | enter inv ctx updated => rfl
    | exit inv ret reserved => rfl

theorem threadOf_eq (id : BitVec 64) (acts : List Action) :
    threadOf id acts = threadAfter id (history id acts) := by
  induction acts using List.reverseRecOn with
  | nil => rfl
  | append_singleton acts a ih =>
    have hconcat : threadOf id (acts ++ [a]) = threadStep id (threadOf id acts) a := by
      simp [threadOf]
    rw [hconcat, ih, history_concat]
    by_cases hid : a.id = id
    · subst hid
      rw [historyStep_self]
      simp only [threadStep, ne_eq, not_true_eq_false, if_false]
      cases a with
      | sysEnter id inv ctx => rfl
      | sysExit id inv ret => rfl
      | mapUpdate id r =>
        cases r with
        | none => rfl
        | some p => exact (threadAfter_succeed _ _).symm
      | ringbufReserve id ok =>
        cases ok with
        | false => rfl
        | true => exact (threadAfter_succeed _ _).symm
      | _ => rfl
    · rw [historyStep_ne hid]
      exact if_pos hid

/-- A thread is in a call exactly if its newest firing is an enter. -/
theorem inside_isSome_iff (id : BitVec 64) (h : List Firing) :
    (threadAfter id h).inside.isSome ↔ ∃ inv ctx updated h', h = .enter inv ctx updated :: h' := by
  cases h with
  | nil => simp [threadAfter, Thread.init]
  | cons f h =>
    cases f with
    | enter inv ctx updated => simp [threadAfter]
    | exit inv ret reserved => simp [threadAfter, Thread.exit]

/-! ## The answers -/

/-- Every enter was stored, and a record was reserved for every exit of a call
and for no other exit. -/
def Answered (id : BitVec 64) : List Firing → Prop
  | [] => True
  | .enter _ _ updated :: h => updated = true ∧ Answered id h
  | .exit _ _ reserved :: h =>
      (reserved = true ↔ (threadAfter id h).inside.isSome) ∧ Answered id h

/-- With these answers, the events that the firings call for are the calls. -/
theorem expected_of_answered {target : BitVec 32} {id : BitVec 64} (hf : ¬ filtered target id)
    {h : List Firing} (hans : Answered id h) :
    expected target id h = (threadAfter id h).done := by
  induction h with
  | nil => rfl
  | cons f h ih =>
    cases f with
    | enter inv ctx updated =>
      rw [expected_enter]
      exact ih hans.2
    | exit inv ret reserved =>
      obtain ⟨hres, hrest⟩ := hans
      cases reserved with
      | false =>
        have hnone : (threadAfter id h).inside = none := by simpa using hres
        rw [expected_exit_false, ih hrest]
        simp [threadAfter, Thread.exit, hnone]
      | true =>
        obtain ⟨inv', ctx, updated, h', rfl⟩ := (inside_isSome_iff id h).mp (hres.mp rfl)
        obtain rfl : updated = true := hrest.1
        have ih := ih hrest
        rw [expected_enter] at ih
        rw [expected_pair hf, ih]
        rfl

/-- The answers so far: of the newest firing there is none yet while its update
or its reserve is to come. -/
def AnsweredAt (id : BitVec 64) (h : List Firing) : Pc → Prop
  | .updating .. => Answered id h.tail
  | .lookingUp .. => Answered id h.tail
  | .reserving .. => Answered id h.tail
  | _ => Answered id h

section OneStep

variable {target : BitVec 32} {acts : List Action} {s s' : State} {a : Action}

/-- What an action that is not refused says about itself. -/
def Granted : Action → Prop
  | .mapUpdate _ none => False
  | .ringbufReserve _ false => False
  | _ => True

theorem granted_of_nothingRefused (h : NothingRefused (acts ++ [a])) :
    NothingRefused acts ∧ Granted a := by
  refine ⟨fun id => ⟨fun hmem => (h id).1 (List.mem_append_left _ hmem),
    fun hmem => (h id).2 (List.mem_append_left _ hmem)⟩, ?_⟩
  unfold Granted
  split
  · rename_i id
    exact (h id).1 (by simp)
  · rename_i id
    exact (h id).2 (by simp)
  · trivial

/-- An exit that finds no entry ends no call. -/
theorem inside_of_entryMatches {id : BitVec 64} {h : List Firing} (hans : Answered id h)
    (hmatch : EntryMatches none h) : ¬ (threadAfter id h).inside.isSome := by
  rw [inside_isSome_iff]
  rintro ⟨inv, ctx, updated, h', rfl⟩
  obtain rfl : updated = true := hans.1
  obtain ⟨p, hp⟩ := hmatch
  cases hp

theorem answeredAt_step_self (hf : ¬ filtered target a.id) (hst : Step target s a s')
    (hgranted : Granted a) {h : List Firing} (hl : Linked target a.id s h)
    (hans : AnsweredAt a.id h (s.pc a.id)) :
    AnsweredAt a.id (historyStep a.id h a) (s'.pc a.id) := by
  rw [historyStep_self]
  have hat := hl.handler
  cases hst with
  | enterFiltered hpc hfil => exact absurd hfil hf
  | exitFiltered hpc hfil => exact absurd hfil hf
  | enter hpc hno =>
    rw [Action.id, hpc] at hans
    rw [Action.id, setPc_pc_self]
    exact hans
  | @update id r inv st t hpc hup =>
    rw [Action.id, hpc] at hat hans
    obtain ⟨ctx, h', rfl, -⟩ := hat
    cases r with
    | none => exact hgranted.elim
    | some p =>
      show AnsweredAt id _ ((s.setPc id .idle).pc id)
      rw [setPc_pc_self]
      exact ⟨rfl, hans⟩
  | exit hpc hno =>
    rw [Action.id, hpc] at hans
    rw [Action.id, setPc_pc_self]
    exact hans
  | lookupNull hpc hnull =>
    rw [Action.id, hpc] at hat hans
    rw [Action.id, setPc_pc_self]
    obtain ⟨h', rfl, hmatch⟩ := hat
    rw [HashTab.entry_eq_none_iff.mpr hnull] at hmatch
    refine ⟨?_, hans⟩
    simpa using inside_of_entryMatches hans hmatch
  | lookup hpc hsome =>
    rw [Action.id, hpc] at hans
    rw [Action.id, setPc_pc_self]
    exact hans
  | reserve hpc =>
    rw [Action.id, hpc] at hat hans
    rw [Action.id, setPc_pc_self]
    obtain ⟨inv', ctx, h', rfl, -⟩ := hat
    exact ⟨by simp [threadAfter], hans⟩
  | reserveNull hpc => exact hgranted.elim
  | fill hpc =>
    rw [Action.id, hpc] at hans
    rw [Action.id, setPc_pc_self]
    exact hans
  | @submit id e hpc =>
    rw [Action.id, hpc] at hans
    show AnsweredAt id _ ((s.setPc id .deleting).pc id)
    rw [setPc_pc_self]
    exact hans
  | @delete id hpc =>
    rw [Action.id, hpc] at hans
    show AnsweredAt id _ ((s.setPc id .idle).pc id)
    rw [setPc_pc_self]
    exact hans

end OneStep

theorem answeredAt_run {target : BitVec 32} {id : BitVec 64} (hf : ¬ filtered target id)
    {acts : List Action} {s : State} (hrun : run (step target) State.init acts = some s)
    (hok : NothingRefused acts) : AnsweredAt id (history id acts) (s.pc id) := by
  have hinv : (∀ k, Linked target k s (history k acts)) ∧
      (NothingRefused acts → AnsweredAt id (history id acts) (s.pc id)) := by
    refine run_invariant (M := fun acts (s : State) =>
      (∀ k, Linked target k s (history k acts)) ∧
        (NothingRefused acts → AnsweredAt id (history id acts) (s.pc id)))
      ⟨linked_init target, fun _ => trivial⟩ ?_ hrun
    rintro acts s a s' ⟨hl, hans⟩ hs
    have hst := Step.of_step hs
    refine ⟨linked_step hst hl, fun hok => ?_⟩
    obtain ⟨hpre, hgranted⟩ := granted_of_nothingRefused hok
    rw [history_concat]
    by_cases hid : a.id = id
    · subst hid
      exact answeredAt_step_self hf hst hgranted (hl a.id) (hans hpre)
    · rw [historyStep_ne hid, hst.pc_ne (Ne.symm hid)]
      exact hans hpre
  exact hinv.2 hok

/-! ## The output -/

theorem expected_of_filtered {target : BitVec 32} {id : BitVec 64} (hf : filtered target id)
    (h : List Firing) : expected target id h = [] := by
  refine List.eq_nil_iff_forall_not_mem.mpr fun x hx => ?_
  exact (mem_expected hx).1 hf

/-- **Nothing is missing.** If the kernel has refused no helper call, then with
the handlers returned and the buffer empty the records of a thread id are the
calls under it if it is traced, and none otherwise. -/
theorem complete_output (env : Env) (v : Int) (hload : (main env).targetTgid = some v)
    (acts : List PipeAction) (s : Pipe)
    (hrun : run (pipeStep (BitVec.ofInt 32 v)) Pipe.init acts = some s)
    (hidle : ∀ id, s.bpf.pc id = .idle) (hempty : s.ring.recs = [])
    (hok : NothingRefused (handlerActs acts)) (id : BitVec 64) :
    eventsOf id s.ring.taken =
      if (tgidOf id).toInt = v then calls id (handlerActs acts) else [] := by
  have hv := pidRange_of_loaded hload
  have hbpf := run_handlerActs hrun
  rw [(pipeInv_run hrun).fulfils.taken_eq hempty, (eventsOf_ordered hbpf).2 id]
  by_cases htgid : (tgidOf id).toInt = v
  · have hf : ¬ filtered (BitVec.ofInt 32 v) id := by
      refine not_filtered_iff.mpr (Or.inr (BitVec.eq_of_toInt_eq ?_))
      rw [htgid, toInt_ofInt_of_pidRange hv]
    have hans := answeredAt_run hf hbpf hok
    rw [hidle id] at hans
    rw [if_pos htgid, expected_of_answered hf hans, calls, threadOf_eq]
  · have hf : filtered (BitVec.ofInt 32 v) id := by
      by_contra hno
      refine htgid ?_
      rw [(not_filtered_iff.mp hno).resolve_left (ofInt_ne_zero_of_pidRange hv),
        toInt_ofInt_of_pidRange hv]
    rw [if_neg htgid]
    exact expected_of_filtered hf _

/-- `twoReads` to the end of its handlers. -/
def readsReturned : List PipeAction :=
  twoReads ++ [.handler (.mapDelete 0x2a0000002a), .handler (.mapDelete 0x2a0000002b)]

theorem pc_of_no_action {target : BitVec 32} {id : BitVec 64} {acts : List Action} {s : State}
    (hrun : run (step target) State.init acts = some s) (hno : ∀ a ∈ acts, a.id ≠ id) :
    s.pc id = .idle := by
  have hinv : (∀ a ∈ acts, a.id ≠ id) → s.pc id = .idle := by
    refine run_invariant (M := fun acts (s : State) => (∀ a ∈ acts, a.id ≠ id) → s.pc id = .idle)
      (fun _ => rfl) ?_ hrun
    intro acts s a s' h hs hno
    obtain ⟨hpre, ha⟩ := List.forall_mem_append.mp hno
    rw [(Step.of_step hs).pc_ne (Ne.symm (ha a (by simp)))]
    exact h hpre
  exact hinv hno

theorem ids_readsReturned : ∀ a ∈ handlerActs readsReturned,
    a.id = 0x2a0000002a ∨ a.id = 0x2a0000002b := by decide

theorem complete_output_twoReads :
    ∃ s, run (pipeStep 0x2a) Pipe.init readsReturned = some s ∧
      (calls 0x2a0000002b (handlerActs readsReturned)).map (·.event.ret) = [0] ∧
      eventsOf 0x2a0000002b s.ring.taken = calls 0x2a0000002b (handlerActs readsReturned) := by
  refine ⟨_, rfl, rfl, ?_⟩
  have hrun : run (pipeStep 0x2a) Pipe.init readsReturned = some _ := rfl
  refine complete_output traceFortyTwo 42 (by decide +kernel) readsReturned _ rfl
    (fun id => ?_) rfl ?_ 0x2a0000002b
  · by_cases hfirst : id = 0x2a0000002a
    · subst hfirst
      rfl
    by_cases hsecond : id = 0x2a0000002b
    · subst hsecond
      rfl
    · refine pc_of_no_action (run_handlerActs hrun) fun a ha heq => ?_
      rcases ids_readsReturned a ha with h | h
      · exact hfirst (heq.symm.trans h)
      · exact hsecond (heq.symm.trans h)
  · intro id
    simp [handlerActs, readsReturned, twoReads, PipeAction.action?]

end LibbpfTools.Strace
