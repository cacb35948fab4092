/-
LibbpfTools.Strace.Pipeline — from the tracepoints to the output of
`libbpfstrace`, through the `events` ring buffer.

The handlers of `LibbpfTools.Strace.Handlers` run as they do there; here their
`bpf_ringbuf_reserve` takes a record of the ring buffer, the copy writes to it
through the pointer `e`, and `bpf_ringbuf_submit` clears its busy bit. The
poll loop of the tool is the consumer: `consume` is one call of
`handle_event`, and it may happen between any two helper calls. A reserve may
be answered with null at any time, and has to be when the buffer is full.

The order of the output is not the order of the submits. `ordered` says what
it is from the firings alone: an exit has its place from the moment of its
reserve, whoever submits first.

* `delivered_in_order`: whatever the interleaving, what has been printed is
  the beginning of `ordered`, and the rest of it is in the buffer.
* `drains`: when the calls stop, every schedule of what is left to do ends,
  and then all of `ordered` has been printed.
-/
import LibbpfTools.Lib.RingBuf
import LibbpfTools.Strace.Format
import LibbpfTools.Strace.Provenance

namespace LibbpfTools.Strace

open LibbpfTools.Lib LibbpfTools.Lib.Lts LibbpfTools.Bpf

/-! ## The system -/

structure Pipe where
  bpf : State
  /-- The variable `e` of the `sys_exit` handler of an id. -/
  e : BitVec 64 → Nat
  ring : RingBuf Submitted (ringbufCap sizeofSyscallEvent)

def Pipe.init : Pipe := ⟨State.init, fun _ => 0, RingBuf.empty⟩

inductive PipeAction where
  /-- A firing, or a helper call other than a successful reserve. -/
  | handler (a : Action)
  /-- `bpf_ringbuf_reserve` returns a record, with what its memory holds. -/
  | reserve (id : BitVec 64) (stale : Submitted)
  /-- The poll loop takes a record and calls `handle_event`. -/
  | consume

/-- The action of the handlers in it. -/
def PipeAction.action? : PipeAction → Option Action
  | .handler a => some a
  | .reserve id _ => some (.ringbufReserve id true)
  | .consume => none

/-- What the handlers did. -/
def handlerActs (acts : List PipeAction) : List Action := acts.filterMap PipeAction.action?

/-- The ring buffer after a helper call that led the handlers to `b`. -/
def Pipe.ringAfter (s : Pipe) (b : State) :
    Action → RingBuf Submitted (ringbufCap sizeofSyscallEvent)
  | .fill id =>
      match b.pc id with
      | .submitting x => s.ring.store (s.e id) fun _ => x
      | _ => s.ring
  | .ringbufSubmit id => s.ring.submit (s.e id)
  | _ => s.ring

def pipeStep (target : BitVec 32) (s : Pipe) : PipeAction → Option Pipe
  | .handler a =>
      match a with
      | .ringbufReserve _ true => none
      | a => (step target s.bpf a).map fun b => { s with bpf := b, ring := s.ringAfter b a }
  | .reserve id stale =>
      (step target s.bpf (.ringbufReserve id true)).bind fun b =>
        (s.ring.reserve? stale).map fun ring =>
          { bpf := b, e := Function.update s.e id s.ring.next, ring := ring }
  | .consume => s.ring.consume?.map fun ring => { s with ring := ring }

/-- What `handle_event` has written to standard output; the messages of `main`
are in front of it. -/
def Pipe.stdout (libc : Libc) (s : Pipe) : Bytes :=
  s.ring.taken.flatMap fun x => handleEvent libc x.event sizeofSyscallEvent

/-! ## The order of the output -/

/-- The event of the newest exit, if it follows a stored enter. -/
def reservedEvent (id : BitVec 64) : List Firing → Option Submitted
  | .exit inv ret _ :: .enter inv' ctx true :: _ => some ⟨pairedEvent id ret ctx, inv', inv⟩
  | _ => none

/-- What an action adds to the order, after the actions `pre`. -/
def orderedBy (pre : List Action) : Action → List Submitted
  | .ringbufReserve id true => (reservedEvent id (history id pre)).toList
  | _ => []

/-- The events that the firings call for, by the time of their reserves. -/
def ordered (acts : List Action) : List Submitted := collect orderedBy acts

theorem ordered_concat (acts : List Action) (a : Action) :
    ordered (acts ++ [a]) = ordered acts ++ orderedBy acts a :=
  collect_concat orderedBy acts a

/-- Only a reserve that succeeds adds to the order. -/
theorem ordered_concat_of_ne (acts : List Action) {a : Action}
    (h : ∀ id, a ≠ .ringbufReserve id true) : ordered (acts ++ [a]) = ordered acts := by
  rw [ordered_concat]
  unfold orderedBy
  split
  · exact absurd rfl (h _)
  · exact List.append_nil _

theorem reservedEvent_of {id : BitVec 64} {inv inv' : Nat} {ret : BitVec 64} {ctx : SysEnter}
    {b : Bool} {h : List Firing} :
    reservedEvent id (.exit inv ret b :: .enter inv' ctx true :: h)
      = some ⟨pairedEvent id ret ctx, inv', inv⟩ := rfl

/-! ## What one step can do -/

/-- The helper calls that reach the record. -/
def Action.touchesRecord : Action → Bool
  | .ringbufReserve _ ok => ok
  | .fill _ => true
  | .ringbufSubmit _ => true
  | _ => false

/-- `PipeStep target s a s'` lists the steps of the whole. -/
inductive PipeStep (target : BitVec 32) (s : Pipe) : PipeAction → Pipe → Prop where
  | handler {a b} (ha : a.touchesRecord = false) (hb : step target s.bpf a = some b) :
      PipeStep target s (.handler a) { s with bpf := b }
  | fill {id inv ret p x b} (hpc : s.bpf.pc id = .filling inv ret p)
      (hb : step target s.bpf (.fill id) = some b) (hx : b.pc id = .submitting x) :
      PipeStep target s (.handler (.fill id))
        { s with bpf := b, ring := s.ring.store (s.e id) fun _ => x }
  | submit {id x b} (hpc : s.bpf.pc id = .submitting x)
      (hb : step target s.bpf (.ringbufSubmit id) = some b) :
      PipeStep target s (.handler (.ringbufSubmit id))
        { s with bpf := b, ring := s.ring.submit (s.e id) }
  | reserve {id stale b ring} (hb : step target s.bpf (.ringbufReserve id true) = some b)
      (hring : s.ring.reserve? stale = some ring) :
      PipeStep target s (.reserve id stale)
        { bpf := b, e := Function.update s.e id s.ring.next, ring := ring }
  | consume {ring} (hring : s.ring.consume? = some ring) :
      PipeStep target s .consume { s with ring := ring }

theorem PipeStep.of_step {target : BitVec 32} {s s' : Pipe} {a : PipeAction}
    (h : pipeStep target s a = some s') : PipeStep target s a s' := by
  cases a with
  | reserve id stale =>
    obtain ⟨b, hb, hrest⟩ := Option.bind_eq_some_iff.mp h
    obtain ⟨ring, hring, rfl⟩ := Option.map_eq_some_iff.mp hrest
    exact .reserve hb hring
  | consume =>
    obtain ⟨ring, hring, rfl⟩ := Option.map_eq_some_iff.mp h
    exact .consume hring
  | handler a =>
    simp only [pipeStep] at h
    split at h
    · cases h
    · rename_i hne
      obtain ⟨b, hb, rfl⟩ := Option.map_eq_some_iff.mp h
      cases Step.of_step hb with
      | reserve hpc => exact absurd rfl (hne _)
      | fill hpc =>
        simp only [Pipe.ringAfter, setPc_pc_self]
        exact .fill hpc hb (setPc_pc_self ..)
      | submit hpc => exact .submit hpc hb
      | _ => exact .handler rfl hb

/-- The handlers take their step in every step of the whole, or stay as they
are while a record is consumed. -/
theorem PipeStep.bpf {target : BitVec 32} {s s' : Pipe} {act : PipeAction}
    (h : PipeStep target s act s') :
    (∃ a, act.action? = some a ∧ step target s.bpf a = some s'.bpf) ∨
      (act.action? = none ∧ s'.bpf = s.bpf) := by
  cases h with
  | handler ha hb => exact Or.inl ⟨_, rfl, hb⟩
  | fill hpc hb hx => exact Or.inl ⟨_, rfl, hb⟩
  | submit hpc hb => exact Or.inl ⟨_, rfl, hb⟩
  | reserve hb hring => exact Or.inl ⟨_, rfl, hb⟩
  | consume hring => exact Or.inr ⟨rfl, rfl⟩

theorem handlerActs_concat (acts : List PipeAction) (act : PipeAction) :
    handlerActs (acts ++ [act]) = handlerActs acts ++ act.action?.toList := by
  cases h : act.action? with
  | none => simp [handlerActs, h]
  | some a => simp [handlerActs, h]

/-- What the whole does to the handlers is a run of theirs. -/
theorem run_handlerActs {target : BitVec 32} {acts : List PipeAction} {s : Pipe}
    (hrun : run (pipeStep target) Pipe.init acts = some s) :
    run (step target) State.init (handlerActs acts) = some s.bpf := by
  refine run_invariant (M := fun acts s =>
    run (step target) State.init (handlerActs acts) = some s.bpf) rfl ?_ hrun
  intro acts s act s' hs hstep
  rw [handlerActs_concat]
  rcases (PipeStep.of_step hstep).bpf with ⟨a, ha, hb⟩ | ⟨ha, hb⟩
  · rw [ha, Option.toList_some, run_append, hs]
    simp [hb]
  · rw [ha, Option.toList_none, List.append_nil, hb, hs]

/-! ## The invariant -/

/-- The handler has a record that it has not submitted. -/
def Pc.holdsRecord : Pc → Bool
  | .filling .. => true
  | .submitting _ => true
  | _ => false

/-- The record a handler has, with what belongs into it. -/
def owns (acts : List Action) (s : Pipe) (id : BitVec 64) : Option (Nat × Submitted) :=
  if (s.bpf.pc id).holdsRecord then (reservedEvent id (history id acts)).map (s.e id, ·)
  else none

structure PipeInv (target : BitVec 32) (acts : List Action) (s : Pipe) : Prop where
  linked : ∀ id, Linked target id s.bpf (history id acts)
  fulfils : Fulfils (owns acts s) s.ring.log (ordered acts)
  filled : ∀ id x, s.bpf.pc id = .submitting x → s.ring.log[s.e id]? = some ⟨true, x⟩

theorem owns_of_not_holdsRecord {acts : List Action} {s : Pipe} {id : BitVec 64}
    (h : (s.bpf.pc id).holdsRecord = false) : owns acts s id = none := by
  simp [owns, h]

theorem pipeInv_init (target : BitVec 32) : PipeInv target [] Pipe.init where
  linked := linked_init target
  fulfils := (Fulfils.nil fun _ => rfl).mpr rfl
  filled := fun id x h => by simp [Pipe.init, State.init] at h

section OneStep

variable {target : BitVec 32} {acts : List Action} {s s' : Pipe} {a : Action} {b : State}

/-- A step of another id leaves what an id has alone. -/
theorem owns_step_ne (hst : Step target s.bpf a b) (hb : s'.bpf = b) {k : BitVec 64}
    (hk : k ≠ a.id) (he : s'.e k = s.e k) : owns (acts ++ [a]) s' k = owns acts s k := by
  rw [owns, owns, hb, hst.pc_ne hk, history_concat_ne (fun h => hk h.symm), he]

theorem holdsRecord_step (hst : Step target s.bpf a b) (ha : a.touchesRecord = false) :
    (s.bpf.pc a.id).holdsRecord = false ∧ (b.pc a.id).holdsRecord = false := by
  cases hst with
  | enterFiltered hpc hf => simp [Action.id, hpc, Pc.holdsRecord]
  | exitFiltered hpc hf => simp [Action.id, hpc, Pc.holdsRecord]
  | enter hpc hf => simp [Action.id, hpc, Pc.holdsRecord]
  | update hpc hup => simp [Action.id, hpc, Pc.holdsRecord, State.setPc]
  | exit hpc hf => simp [Action.id, hpc, Pc.holdsRecord]
  | lookupNull hpc hl => simp [Action.id, hpc, Pc.holdsRecord]
  | lookup hpc hl => simp [Action.id, hpc, Pc.holdsRecord]
  | reserveNull hpc => simp [Action.id, hpc, Pc.holdsRecord]
  | delete hpc => simp [Action.id, hpc, Pc.holdsRecord, State.setPc]
  | reserve hpc => simp [Action.touchesRecord] at ha
  | fill hpc => simp [Action.touchesRecord] at ha
  | submit hpc => simp [Action.touchesRecord] at ha

/-- A call that does not reach a record changes nothing here. -/
theorem pipeInv_handler (h : PipeInv target acts s) (ha : a.touchesRecord = false)
    (hb : step target s.bpf a = some b) : PipeInv target (acts ++ [a]) { s with bpf := b } where
  linked := linked_step (Step.of_step hb) h.linked
  fulfils := by
    rw [ordered_concat_of_ne acts fun id heq => by simp [heq, Action.touchesRecord] at ha]
    refine h.fulfils.congr fun k => ?_
    by_cases hk : k = a.id
    · subst hk
      obtain ⟨hpre, hpost⟩ := holdsRecord_step (Step.of_step hb) ha
      rw [owns_of_not_holdsRecord hpre, owns_of_not_holdsRecord hpost]
    · exact owns_step_ne (Step.of_step hb) rfl hk rfl
  filled := by
    intro k x hx
    by_cases hk : k = a.id
    · subst hk
      have hpost := (holdsRecord_step (Step.of_step hb) ha).2
      simp only at hx
      simp [hx, Pc.holdsRecord] at hpost
    · rw [(Step.of_step hb).pc_ne hk] at hx
      exact h.filled k x hx

/-- What a handler with a record has to write. -/
theorem owns_eq_of_submitting {id : BitVec 64} {x : Submitted}
    (hl : Linked target id s.bpf (history id acts)) (hpc : s.bpf.pc id = .submitting x) :
    owns acts s id = some (s.e id, x) := by
  obtain ⟨⟨inv, ret, inv', ctx, h', hh, rfl⟩, -⟩ := hl.at_pc hpc
  rw [owns, hpc, hh, reservedEvent_of, fillEvent_enterStateOf]
  rfl

/-- Handlers that have records have different ones. -/
theorem e_ne_of_owns (h : PipeInv target acts s) {i k : BitVec 64} {x y : Submitted}
    (hi : owns acts s i = some (s.e i, x)) (hk : owns acts s k = some (s.e k, y))
    (hne : k ≠ i) : s.e i ≠ s.e k := by
  intro heq
  rw [heq] at hi
  exact hne (h.fulfils.inj k i (s.e k) y x hk hi)

theorem pipeInv_fill {id : BitVec 64} {inv p : Nat} {ret : BitVec 64} {x : Submitted}
    (h : PipeInv target acts s) (hpc : s.bpf.pc id = .filling inv ret p)
    (hb : step target s.bpf (.fill id) = some b) (hx : b.pc id = .submitting x) :
    PipeInv target (acts ++ [.fill id])
      { s with bpf := b, ring := s.ring.store (s.e id) fun _ => x } := by
  have hlinked := linked_step (Step.of_step hb) h.linked
  have hhist : history id (acts ++ [.fill id]) = history id acts := by
    rw [history_concat]
    exact historyStep_self (history id acts) (.fill id)
  -- the record is the one that was reserved for the event that is written now
  have hown : owns acts s id = some (s.e id, x) := by
    have hafter := owns_eq_of_submitting (s := { s with bpf := b }) (hlinked id) hx
    rw [owns, hhist] at hafter
    rw [owns, hpc]
    simpa [hx, Pc.holdsRecord] using hafter
  obtain ⟨⟨d, hd⟩, -⟩ := h.fulfils.busy _ _ _ hown
  have hother : ∀ k ≠ id, owns (acts ++ [.fill id])
      { s with bpf := b, ring := s.ring.store (s.e id) fun _ => x } k = owns acts s k :=
    fun k hk => owns_step_ne (Step.of_step hb) rfl hk rfl
  refine ⟨hlinked, ?_, ?_⟩
  · rw [RingBuf.log_store hd, ordered_concat_of_ne acts (by simp)]
    refine (h.fulfils.store ⟨d, hd⟩).congr fun k => ?_
    by_cases hk : k = id
    · subst hk
      rw [hown]
      exact owns_eq_of_submitting (s := { s with
        bpf := b, ring := s.ring.store (s.e k) fun _ => x }) (hlinked k) hx
    · exact hother k hk
  · intro k y hy
    have hlt := (List.getElem?_eq_some_iff.mp hd).1
    rw [RingBuf.log_store hd]
    by_cases hk : k = id
    · subst hk
      obtain rfl : x = y := by simpa [hx] using hy
      simp [hlt]
    · rw [(Step.of_step hb).pc_ne hk] at hy
      have hne := e_ne_of_owns h hown (owns_eq_of_submitting (h.linked k) hy) hk
      rw [List.getElem?_set_ne hne]
      exact h.filled k y hy

theorem pipeInv_submit {id : BitVec 64} {x : Submitted} (h : PipeInv target acts s)
    (hpc : s.bpf.pc id = .submitting x)
    (hb : step target s.bpf (.ringbufSubmit id) = some b) :
    PipeInv target (acts ++ [.ringbufSubmit id])
      { s with bpf := b, ring := s.ring.submit (s.e id) } := by
  have hown := owns_eq_of_submitting (h.linked id) hpc
  have hd := h.filled id x hpc
  have hdone : (b.pc id).holdsRecord = false := by
    cases Step.of_step hb with
    | submit hpc' => simp [State.setPc, Pc.holdsRecord]
  refine ⟨linked_step (Step.of_step hb) h.linked, ?_, ?_⟩
  · rw [RingBuf.log_submit hd, ordered_concat_of_ne acts (by simp)]
    exact h.fulfils.submit hown (owns_of_not_holdsRecord hdone)
      fun k hk => owns_step_ne (Step.of_step hb) rfl hk rfl
  · intro k y hy
    have hk : k ≠ id := by
      rintro rfl
      simp only at hy
      simp [hy, Pc.holdsRecord] at hdone
    rw [(Step.of_step hb).pc_ne hk] at hy
    rw [RingBuf.log_submit hd,
      List.getElem?_set_ne (e_ne_of_owns h hown (owns_eq_of_submitting (h.linked k) hy) hk)]
    exact h.filled k y hy

theorem pipeInv_reserve {id : BitVec 64} {stale : Submitted}
    {ring : RingBuf Submitted (ringbufCap sizeofSyscallEvent)} (h : PipeInv target acts s)
    (hb : step target s.bpf (.ringbufReserve id true) = some b)
    (hring : s.ring.reserve? stale = some ring) :
    PipeInv target (acts ++ [.ringbufReserve id true])
      { bpf := b, e := Function.update s.e id s.ring.next, ring := ring } := by
  have hst := Step.of_step hb
  have hlog := RingBuf.log_reserve hring
  have hother : ∀ k ≠ id, owns (acts ++ [.ringbufReserve id true])
      { bpf := b, e := Function.update s.e id s.ring.next, ring := ring } k = owns acts s k :=
    fun k hk => owns_step_ne hst rfl hk (Function.update_of_ne hk ..)
  refine ⟨linked_step hst h.linked, ?_, ?_⟩
  · cases hst with
    | reserve hpc =>
      -- an exit that found its enter: the event goes to the end of the order
      obtain ⟨⟨inv', ctx, h', hh, -⟩, -⟩ := (h.linked id).at_pc hpc
      have hhist : history id (acts ++ [.ringbufReserve id true])
          = Firing.succeed (history id acts) := by
        rw [history_concat]
        exact historyStep_self (history id acts) (.ringbufReserve id true)
      rw [hlog, ordered_concat, orderedBy, hh, reservedEvent_of, Option.toList_some]
      refine h.fulfils.reserve (owns_of_not_holdsRecord (by rw [hpc]; rfl)) ?_ hother
      rw [owns, hhist, hh, Firing.succeed, reservedEvent_of, RingBuf.length_log]
      simp [Pc.holdsRecord]
  · intro k y hy
    cases hst with
    | reserve hpc =>
      have hk : k ≠ id := by
        rintro rfl
        simp at hy
      simp only [setPc_pc_ne s.bpf _ hk] at hy
      have hlive := h.filled k y hy
      have hlt := (List.getElem?_eq_some_iff.mp hlive).1
      rw [hlog]
      simp only [Function.update_of_ne hk]
      rw [List.getElem?_append_left hlt]
      exact hlive

theorem pipeInv_consume {ring : RingBuf Submitted (ringbufCap sizeofSyscallEvent)}
    (h : PipeInv target acts s) (hring : s.ring.consume? = some ring) :
    PipeInv target acts { s with ring := ring } where
  linked := h.linked
  fulfils := by
    rw [RingBuf.log_consume hring]
    exact h.fulfils
  filled := by
    intro k x hx
    rw [RingBuf.log_consume hring]
    exact h.filled k x hx

theorem pipeInv_step {acts : List PipeAction} {act : PipeAction}
    (h : PipeInv target (handlerActs acts) s) (hst : PipeStep target s act s') :
    PipeInv target (handlerActs (acts ++ [act])) s' := by
  rw [handlerActs_concat]
  cases hst with
  | handler ha hb => exact pipeInv_handler h ha hb
  | fill hpc hb hx => exact pipeInv_fill h hpc hb hx
  | submit hpc hb => exact pipeInv_submit h hpc hb
  | reserve hb hring => exact pipeInv_reserve h hb hring
  | consume hring =>
    rw [show PipeAction.action? .consume = none from rfl, Option.toList_none, List.append_nil]
    exact pipeInv_consume h hring

end OneStep

theorem pipeInv_run {target : BitVec 32} {acts : List PipeAction} {s : Pipe}
    (hrun : run (pipeStep target) Pipe.init acts = some s) :
    PipeInv target (handlerActs acts) s :=
  run_invariant (M := fun acts s => PipeInv target (handlerActs acts) s) (pipeInv_init target)
    (fun _ _ _ _ h hstep => pipeInv_step h (PipeStep.of_step hstep)) hrun

/-! ## The order, id by id -/

theorem of_reservedEvent {id : BitVec 64} {h : List Firing} {x : Submitted}
    (hx : reservedEvent id h = some x) : x.Of id := by
  unfold reservedEvent at hx
  split at hx
  · cases hx
    exact ⟨rfl, rfl⟩
  · cases hx

theorem eventsOf_append (id : BitVec 64) (xs ys : List Submitted) :
    eventsOf id (xs ++ ys) = eventsOf id xs ++ eventsOf id ys := List.filter_append ..

theorem eventsOf_reserved_self (id : BitVec 64) (h : List Firing) :
    eventsOf id (reservedEvent id h).toList = (reservedEvent id h).toList := by
  cases hx : reservedEvent id h with
  | none => rfl
  | some x => exact eventsOf_concat_of (of_reservedEvent hx) []

theorem eventsOf_reserved_ne {id k : BitVec 64} (hne : id ≠ k) (h : List Firing) :
    eventsOf id (reservedEvent k h).toList = [] := by
  cases hx : reservedEvent k h with
  | none => rfl
  | some x => exact eventsOf_concat_ne (of_reservedEvent hx) hne []

/-- What the firings of an id call for grows by what the order grows by. -/
theorem expected_step {target : BitVec 32} {s s' : State} {a : Action} {acts : List Action}
    (hst : Step target s a s') (hl : Linked target a.id s (history a.id acts)) :
    expected target a.id (history a.id (acts ++ [a]))
      = expected target a.id (history a.id acts) ++ eventsOf a.id (orderedBy acts a) := by
  rw [history_concat, historyStep_self]
  cases hst with
  | enterFiltered hpc hf => simp [orderedBy, eventsOf]
  | enter hpc hf => simp [orderedBy, eventsOf]
  | exitFiltered hpc hf => simp [orderedBy, eventsOf]
  | exit hpc hf => simp [orderedBy, eventsOf]
  | lookupNull hpc hnull => simp [orderedBy, eventsOf]
  | lookup hpc hlook => simp [orderedBy, eventsOf]
  | reserveNull hpc => simp [orderedBy, eventsOf]
  | fill hpc => simp [orderedBy, eventsOf]
  | submit hpc => simp [orderedBy, eventsOf]
  | delete hpc => simp [orderedBy, eventsOf]
  | @update id r inv st t hpc hup =>
    -- the answer to an enter is noted and calls for nothing yet
    obtain ⟨⟨ctx, h', hh, -⟩, -⟩ := hl.at_pc hpc
    rw [hh]
    cases r with
    | none => simp [orderedBy, eventsOf]
    | some p => simp [orderedBy, eventsOf, Firing.succeed]
  | @reserve id inv ret p hpc =>
    simp only [Action.id] at hl ⊢
    obtain ⟨⟨inv', ctx, h', hh, -⟩, -⟩ := hl.at_pc hpc
    have hf := hl.not_filtered hpc (by simp)
    rw [orderedBy, eventsOf_reserved_self, hh, Firing.succeed, reservedEvent_of,
      expected_pair hf, expected_exit_false, expected_enter]
    rfl

theorem eventsOf_orderedBy_ne {id : BitVec 64} {a : Action} (h : a.id ≠ id)
    (acts : List Action) : eventsOf id (orderedBy acts a) = [] := by
  unfold orderedBy
  split
  · exact eventsOf_reserved_ne (fun heq => h heq.symm) _
  · rfl

/-- In the order, the events of an id are the ones its firings call for. -/
theorem eventsOf_ordered {target : BitVec 32} {acts : List Action} {s : State}
    (hrun : run (step target) State.init acts = some s) :
    (∀ id, Linked target id s (history id acts)) ∧
      ∀ id, eventsOf id (ordered acts) = expected target id (history id acts) := by
  refine run_invariant (M := fun acts s => (∀ id, Linked target id s (history id acts)) ∧
    ∀ id, eventsOf id (ordered acts) = expected target id (history id acts))
    ⟨linked_init target, fun _ => rfl⟩ ?_ hrun
  intro acts s a s' h hstep
  obtain ⟨hl, hev⟩ := h
  have hst := Step.of_step hstep
  refine ⟨linked_step hst hl, fun id => ?_⟩
  rw [ordered_concat, eventsOf_append, hev id]
  by_cases hid : a.id = id
  · subst hid
    exact (expected_step hst (hl a.id)).symm
  · rw [eventsOf_orderedBy_ne hid, List.append_nil, history_concat_ne hid]

/-! ## What is printed -/

/-- How the output stands to the firings. -/
structure Delivered (target : BitVec 32) (acts : List Action) (s : Pipe) : Prop where
  /-- What was printed is the beginning of the order, and what remains is in
  the buffer: one record each, and what has been submitted is right. -/
  rest : ∃ rest, ordered acts = s.ring.taken ++ rest ∧
    List.Forall₂ (fun x e => x.busy = false → x.data = e) s.ring.recs rest
  /-- The order has the events of each id as its firings call for them. -/
  ofId : ∀ id, eventsOf id (ordered acts) = expected target id (history id acts)
  /-- Nobody else's call is printed. -/
  traced : ∀ x ∈ s.ring.taken, target = 0 ∨ x.event.tgid = target

/-- **The output is in the order of the reserves, and complete.** For every
run of the handlers of any number of threads with the poll loop between them:
whichever submits come first, whatever the memory of a record held before and
whichever reserves fail. -/
theorem delivered_in_order (target : BitVec 32) (acts : List PipeAction) (s : Pipe)
    (hrun : run (pipeStep target) Pipe.init acts = some s) :
    Delivered target (handlerActs acts) s := by
  have hinv := pipeInv_run hrun
  obtain ⟨-, hof⟩ := eventsOf_ordered (run_handlerActs hrun)
  refine ⟨hinv.fulfils.exists_rest, hof, fun x hx => ?_⟩
  obtain ⟨id, hid⟩ := x.exists_of
  have hmem : x ∈ eventsOf id (ordered (handlerActs acts)) :=
    List.mem_filter.mpr ⟨hinv.fulfils.taken_isPrefix.subset hx, by simpa using hid⟩
  rw [hof] at hmem
  obtain ⟨hf, -⟩ := mem_expected hmem
  rw [hid.1]
  exact not_filtered_iff.mp hf

/-! ## When the calls stop -/

/-- The steps a handler has before it, and what its record will take. -/
def Pc.rank : Pc → Nat
  | .idle => 0
  | .updating .. => 1
  | .lookingUp .. => 6
  | .reserving .. => 5
  | .filling .. => 3
  | .submitting _ => 2
  | .deleting => 1

def ranks (s : State) : Nat := ∑ id, (s.pc id).rank

/-- What is left to do: at most six steps for a handler, one for a record. -/
def Pipe.work (s : Pipe) : Nat := ranks s.bpf + s.ring.recs.length

def PipeAction.isFiring : PipeAction → Bool
  | .handler a => a.isFiring
  | _ => false

theorem ranks_setPc (s : State) (id : BitVec 64) (pc : Pc) :
    ranks (s.setPc id pc) + (s.pc id).rank = ranks s + pc.rank :=
  sum_rank_update Pc.rank s.pc id pc

/-- The records that an action takes. -/
def Action.records : Action → Nat
  | .ringbufReserve _ true => 1
  | _ => 0

section Ends

variable {target : BitVec 32} {a : Action}

/-- A handler that goes on comes nearer to its end, a record included. -/
theorem ranks_step {s s' : State} (hst : Step target s a s') (ha : a.isFiring = false) :
    ranks s' + a.records < ranks s := by
  have hset : ∀ {id : BitVec 64} {pc pc' : Pc} {n : Nat}, s.pc id = pc →
      pc'.rank + n < pc.rank → ranks (s.setPc id pc') + n < ranks s := by
    intro id pc pc' n hpc hlt
    have hsum := ranks_setPc s id pc'
    rw [hpc] at hsum
    omega
  cases hst with
  | enterFiltered hpc hf => simp [Action.isFiring] at ha
  | enter hpc hf => simp [Action.isFiring] at ha
  | exitFiltered hpc hf => simp [Action.isFiring] at ha
  | exit hpc hf => simp [Action.isFiring] at ha
  | update hpc hup => exact hset hpc (by simp [Pc.rank, Action.records])
  | lookupNull hpc hl => exact hset hpc (by simp [Pc.rank, Action.records])
  | lookup hpc hl => exact hset hpc (by simp [Pc.rank, Action.records])
  | reserve hpc => exact hset hpc (by simp [Pc.rank, Action.records])
  | reserveNull hpc => exact hset hpc (by simp [Pc.rank, Action.records])
  | fill hpc => exact hset hpc (by simp [Pc.rank, Action.records])
  | submit hpc => exact hset hpc (by simp [Pc.rank, Action.records])
  | delete hpc => exact hset hpc (by simp [Pc.rank, Action.records])

theorem work_step {s s' : Pipe} {act : PipeAction} (hst : PipeStep target s act s')
    (hact : act.isFiring = false) : s'.work < s.work := by
  cases hst with
  | handler ha hb =>
    have := ranks_step (Step.of_step hb) hact
    simp only [Pipe.work]
    omega
  | fill hpc hb hx =>
    have := ranks_step (Step.of_step hb) hact
    simp only [Pipe.work, RingBuf.store, RingBuf.length_recs_modify]
    omega
  | submit hpc hb =>
    have := ranks_step (Step.of_step hb) hact
    simp only [Pipe.work, RingBuf.submit, RingBuf.length_recs_modify]
    omega
  | reserve hb hring =>
    have hlt := ranks_step (Step.of_step hb) rfl
    obtain ⟨-, -, hrecs⟩ := RingBuf.reserve?_eq_some_iff.mp hring
    simp only [Action.records] at hlt
    simp only [Pipe.work, hrecs, List.length_append, List.length_singleton]
    omega
  | consume hring =>
    obtain ⟨x, rest, hrecs, -, hrest⟩ := RingBuf.consume?_eq_some_iff.mp hring
    simp only [Pipe.work, hrecs, hrest, List.length_cons]
    omega

/-- A handler that is running can make its next helper call. -/
theorem exists_helper_step (target : BitVec 32) {s : State} {id : BitVec 64}
    (h : s.pc id ≠ .idle) :
    ∃ a s', a.isFiring = false ∧ (∀ k, a ≠ .ringbufReserve k true) ∧
      step target s a = some s' := by
  cases hpc : s.pc id with
  | idle => exact absurd hpc h
  | updating inv st =>
    obtain ⟨r, t, ht⟩ := s.inflight.exists_update? .any id ⟨inv, st⟩
    exact ⟨.mapUpdate id r, _, rfl, by simp, by
      simp only [step, hpc, ht, Option.map_some]; rfl⟩
  | lookingUp inv ret =>
    refine ⟨.mapLookup id, ?_⟩
    simp only [step, hpc]
    cases s.inflight.lookup id with
    | none => exact ⟨_, rfl, by simp, rfl⟩
    | some p => exact ⟨_, rfl, by simp, rfl⟩
  | reserving inv ret p =>
    exact ⟨.ringbufReserve id false, _, rfl, by simp, by simp only [step, hpc]; rfl⟩
  | filling inv ret p => exact ⟨.fill id, _, rfl, by simp, by simp only [step, hpc]; rfl⟩
  | submitting e => exact ⟨.ringbufSubmit id, _, rfl, by simp, by simp only [step, hpc]; rfl⟩
  | deleting => exact ⟨.mapDelete id, _, rfl, by simp, by simp only [step, hpc]; rfl⟩

theorem idle_of_stuck {s : Pipe}
    (hstuck : ∀ act : PipeAction, act.isFiring = false → pipeStep target s act = none)
    (id : BitVec 64) : s.bpf.pc id = .idle := by
  by_contra hpc
  obtain ⟨a, b, hfire, hne, hb⟩ := exists_helper_step target hpc
  have hnone := hstuck (.handler a) hfire
  simp only [pipeStep, hb] at hnone
  simp at hnone

end Ends

/-- Nothing is on its way, and all that was called for has been printed. -/
structure Drained (acts : List Action) (s : Pipe) : Prop where
  idle : ∀ id, s.bpf.pc id = .idle
  empty : s.ring.recs = []
  all : s.ring.taken = ordered acts

theorem drained_of_stuck {target : BitVec 32} {acts : List PipeAction} {s : Pipe}
    (hrun : run (pipeStep target) Pipe.init acts = some s)
    (hstuck : ∀ act : PipeAction, act.isFiring = false → pipeStep target s act = none) :
    Drained (handlerActs acts) s := by
  have hinv := pipeInv_run hrun
  have hidle := idle_of_stuck hstuck
  have hempty : s.ring.recs = [] := by
    refine hinv.fulfils.recs_eq_nil (fun id => ?_) ?_
    · exact owns_of_not_holdsRecord (by rw [hidle id]; rfl)
    · have hnone := hstuck .consume rfl
      simpa [pipeStep] using hnone
  exact ⟨hidle, hempty, hinv.fulfils.taken_eq hempty⟩

/-- **The pipeline drains.** From every state that can be reached, the steps
that are not new calls come to an end in every order in which they can be
taken, and where none of them can be taken everything is out: no record stays
busy, and none holds up the ones behind it for good. -/
theorem drains (target : BitVec 32) (acts : List PipeAction) (s : Pipe)
    (hrun : run (pipeStep target) Pipe.init acts = some s) :
    Drains (pipeStep target) (fun act => act.isFiring = false) Pipe.work
      (fun acts s => Drained (handlerActs acts) s) acts s := by
  refine drains_of ?_ (fun _ _ => drained_of_stuck) hrun
  intro s act s' hact hs
  exact work_step (PipeStep.of_step hs) hact

/-! ## Two threads that submit in the other order -/

def staleRecord : Submitted := ⟨pairedEvent 0 0 readCall, 9, 9⟩

/-- Two threads read at once. The first to reserve is the second to submit. -/
def twoReads : List PipeAction :=
  [.handler (.sysEnter 0x2a0000002a 0 readCall), .handler (.sysEnter 0x2a0000002b 1 readCall),
   .handler (.mapUpdate 0x2a0000002a (some 7)), .handler (.mapUpdate 0x2a0000002b (some 8)),
   .handler (.sysExit 0x2a0000002a 0 64), .handler (.sysExit 0x2a0000002b 1 0),
   .handler (.mapLookup 0x2a0000002a), .handler (.mapLookup 0x2a0000002b),
   .reserve 0x2a0000002a staleRecord, .reserve 0x2a0000002b staleRecord,
   .handler (.fill 0x2a0000002b), .handler (.ringbufSubmit 0x2a0000002b),
   .handler (.fill 0x2a0000002a), .handler (.ringbufSubmit 0x2a0000002a), .consume, .consume]

theorem delivered_in_order_twoReads :
    ∃ s, run (pipeStep 0x2a) Pipe.init twoReads = some s ∧
      s.bpf.events.map (·.event.pid) = [0x2b, 0x2a] ∧
      s.ring.taken.map (·.event.pid) = [0x2a, 0x2b] ∧
      Delivered 0x2a (handlerActs twoReads) s :=
  ⟨_, rfl, rfl, rfl, delivered_in_order 0x2a twoReads _ rfl⟩

theorem drains_twoReads :
    ∃ s, run (pipeStep 0x2a) Pipe.init (twoReads.take 12) = some s ∧ s.ring.taken = [] ∧
      Drains (pipeStep 0x2a) (fun act => act.isFiring = false) Pipe.work
        (fun acts s => Drained (handlerActs acts) s) (twoReads.take 12) s :=
  ⟨_, rfl, rfl, drains 0x2a (twoReads.take 12) _ rfl⟩

end LibbpfTools.Strace
