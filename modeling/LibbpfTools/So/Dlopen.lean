/-
LibbpfTools.So.Dlopen — `handle_andrid_dlopen_ext` of `libbpfso.bpf.c` and the
way of its events to the poll loop of `libbpfso.c`.

The uprobe fires when a task calls `android_dlopen_ext`. Its handler reserves
a record of the ring buffer and fills it in place, with one helper call or
copy after the other: process id, name, a cleared array, the file name out of
user memory, and over it `<failed>` if that could not be read. The memory of a
reserved record holds whatever was there before, so `reserve` carries it.

A task runs one handler at a time, and the handlers of different tasks
interleave between any two accesses, with the consumer among them.

* `dlopen_in_order`: the events that were taken are those of the calls, in the
  order of their reserves, and nothing in them is left of the stale memory.
* `dlopen_drains`: when the calls stop, every order of the remaining steps
  ends with all of them taken.
-/
import LibbpfTools.Bpf.Helpers
import LibbpfTools.Lib.Lts
import LibbpfTools.Lib.RingBuf

namespace LibbpfTools.So

open LibbpfTools.Lib LibbpfTools.Lib.Lts LibbpfTools.Bpf

/-- `struct event`. -/
structure Event where
  pid : BitVec 32
  comm : Vector UInt8 16
  filename : Vector UInt8 256

/-- `sizeof(struct event)`. -/
def sizeofEvent : Nat := 276

/-- What one run of the handler sees: the id and the name of its task, the
argument of the call, and the memory it is read from. -/
structure Call where
  id : BitVec 64
  comm : Vector UInt8 16
  /-- `bpf_get_current_comm` terminates the name or fills the array with zeroes. -/
  comm_nul : 0 ∈ comm.toList
  filename : BitVec 64
  mem : UserMem

/-- `id >> 32`. -/
def Call.tgid (c : Call) : BitVec 32 := (c.id >>> 32).setWidth 32

/-- What `bpf_probe_read_user_str` finds; none when it fails. -/
def Call.read (c : Call) : Option Bytes := bpfProbeReadUserStr c.mem 256 c.filename

/-- The next access to the record. -/
inductive Stage where
  | storePid
  | getComm
  | clear
  | readStr
  | markFailed
  | submit

/-- What an access does to the record. -/
def Call.access (c : Call) : Stage → Event → Event
  | .storePid, x => { x with pid := c.tgid }
  | .getComm, x => { x with comm := c.comm }
  | .clear, x => { x with filename := Vector.replicate 256 0 }
  | .readStr, x => { x with filename := c.read.elim x.filename (strWrite x.filename) }
  | .markFailed, x => { x with filename := memWrite x.filename (ascii "<failed>") }
  | .submit, x => x

/-- The access after it. -/
def Call.next (c : Call) : Stage → Option Stage
  | .storePid => some .getComm
  | .getComm => some .clear
  | .clear => some .readStr
  | .readStr => some (if c.read.isNone then .markFailed else .submit)
  | .markFailed => some .submit
  | .submit => none

inductive Pc where
  | idle
  | reserving (c : Call)
  /-- The handler has the record `e`. -/
  | holding (c : Call) (e : Nat) (stage : Stage)

structure State where
  pc : BitVec 64 → Pc
  ring : RingBuf Event (ringbufCap sizeofEvent)

def State.init : State := ⟨fun _ => .idle, RingBuf.empty⟩

def State.setPc (s : State) (id : BitVec 64) (pc : Pc) : State :=
  { s with pc := Function.update s.pc id pc }

inductive Action where
  /-- The uprobe fires. -/
  | fire (c : Call)
  /-- `bpf_ringbuf_reserve`: null, or a record and what its memory holds. -/
  | reserve (id : BitVec 64) (stale : Option Event)
  /-- The next access to the record. -/
  | access (id : BitVec 64)
  | submit (id : BitVec 64)
  /-- The poll loop takes a record and calls `handle_event`. -/
  | consume

def step (s : State) : Action → Option State
  | .fire c =>
      match s.pc c.id with
      | .idle => if c.filename = 0 then some s else some (s.setPc c.id (.reserving c))
      | _ => none
  | .reserve id none =>
      match s.pc id with
      | .reserving _ => some (s.setPc id .idle)
      | _ => none
  | .reserve id (some stale) =>
      match s.pc id with
      | .reserving c =>
          (s.ring.reserve? stale).map fun ring =>
            { s.setPc id (.holding c s.ring.next .storePid) with ring := ring }
      | _ => none
  | .access id =>
      match s.pc id with
      | .holding c e stage =>
          (c.next stage).map fun stage' =>
            { s.setPc id (.holding c e stage') with ring := s.ring.store e (c.access stage) }
      | _ => none
  | .submit id =>
      match s.pc id with
      | .holding _ e .submit => some { s.setPc id .idle with ring := s.ring.submit e }
      | _ => none
  | .consume => s.ring.consume?.map fun ring => { s with ring := ring }

/-! ## The specification -/

/-- The array of a file name that could not be read. -/
def failedName : Vector UInt8 256 := memWrite (Vector.replicate 256 0) (ascii "<failed>")

/-- The event of a call. -/
def Call.event (c : Call) : Event where
  pid := c.tgid
  comm := c.comm
  filename := c.read.elim failedName (strWrite (Vector.replicate 256 0))

/-- The newest call under an id. -/
def lastCall (id : BitVec 64) (acts : List Action) : Option Call :=
  acts.foldl (fun last a =>
    match a with
    | .fire c => if c.id = id then some c else last
    | _ => last) none

def orderedBy (pre : List Action) : Action → List Call
  | .reserve id (some _) => (lastCall id pre).toList
  | _ => []

/-- The calls that got a record, by the time of their reserves. -/
def ordered (acts : List Action) : List Call := collect orderedBy acts

theorem ordered_concat (acts : List Action) (a : Action) :
    ordered (acts ++ [a]) = ordered acts ++ orderedBy acts a :=
  collect_concat orderedBy acts a

theorem lastCall_fire (id : BitVec 64) (acts : List Action) (c : Call) :
    lastCall id (acts ++ [.fire c]) = if c.id = id then some c else lastCall id acts := by
  simp [lastCall]

theorem lastCall_of_not_fire (id : BitVec 64) (acts : List Action) {a : Action}
    (h : ∀ c, a ≠ .fire c) : lastCall id (acts ++ [a]) = lastCall id acts := by
  cases a with
  | fire c => exact absurd rfl (h c)
  | reserve id stale => simp [lastCall]
  | access id => simp [lastCall]
  | submit id => simp [lastCall]
  | consume => simp [lastCall]

/-! ## What one step can do -/

inductive Step (s : State) : Action → State → Prop where
  | fireNull {c} (hpc : s.pc c.id = .idle) (hnull : c.filename = 0) : Step s (.fire c) s
  | fire {c} (hpc : s.pc c.id = .idle) (hptr : c.filename ≠ 0) :
      Step s (.fire c) (s.setPc c.id (.reserving c))
  | reserveNull {id c} (hpc : s.pc id = .reserving c) :
      Step s (.reserve id none) (s.setPc id .idle)
  | reserve {id c stale ring} (hpc : s.pc id = .reserving c)
      (hring : s.ring.reserve? stale = some ring) :
      Step s (.reserve id (some stale))
        { s.setPc id (.holding c s.ring.next .storePid) with ring := ring }
  | access {id c e stage stage'} (hpc : s.pc id = .holding c e stage)
      (hnext : c.next stage = some stage') :
      Step s (.access id)
        { s.setPc id (.holding c e stage') with ring := s.ring.store e (c.access stage) }
  | submit {id c e} (hpc : s.pc id = .holding c e .submit) :
      Step s (.submit id) { s.setPc id .idle with ring := s.ring.submit e }
  | consume {ring} (hring : s.ring.consume? = some ring) :
      Step s .consume { s with ring := ring }

theorem Step.of_step {s s' : State} {a : Action} (h : step s a = some s') : Step s a s' := by
  cases a with
  | fire c =>
    simp only [step] at h
    split at h
    · rename_i hpc
      split at h
      · rename_i hnull; cases h; exact .fireNull hpc hnull
      · rename_i hptr; cases h; exact .fire hpc hptr
    · cases h
  | reserve id stale =>
    cases stale with
    | none =>
      simp only [step] at h
      split at h
      · rename_i c hpc; cases h; exact .reserveNull hpc
      · cases h
    | some stale =>
      simp only [step] at h
      split at h
      · rename_i c hpc
        obtain ⟨ring, hring, rfl⟩ := Option.map_eq_some_iff.mp h
        exact .reserve hpc hring
      · cases h
  | access id =>
    simp only [step] at h
    split at h
    · rename_i c e stage hpc
      obtain ⟨stage', hnext, rfl⟩ := Option.map_eq_some_iff.mp h
      exact .access hpc hnext
    · cases h
  | submit id =>
    simp only [step] at h
    split at h
    · rename_i c e hpc; cases h; exact .submit hpc
    · cases h
  | consume =>
    obtain ⟨ring, hring, rfl⟩ := Option.map_eq_some_iff.mp h
    exact .consume hring

@[simp] theorem setPc_pc_self (s : State) (id : BitVec 64) (pc : Pc) :
    (s.setPc id pc).pc id = pc := by
  simp [State.setPc]

theorem setPc_pc_ne (s : State) {id k : BitVec 64} (pc : Pc) (h : k ≠ id) :
    (s.setPc id pc).pc k = s.pc k := by
  simp [State.setPc, h]

/-! ## The invariant -/

def Pc.call? : Pc → Option Call
  | .idle => none
  | .reserving c => some c
  | .holding c _ _ => some c

/-- The record a handler has, with what belongs into it. -/
def Pc.owns : Pc → Option (Nat × Event)
  | .holding c e _ => some (e, c.event)
  | _ => none

/-- What the record has before an access: of the stale memory, less and less. -/
def Written (c : Call) (d : Event) : Stage → Prop
  | .storePid => True
  | .getComm => d.pid = c.tgid
  | .clear => d.pid = c.tgid ∧ d.comm = c.comm
  | .readStr => d = ⟨c.tgid, c.comm, Vector.replicate 256 0⟩
  | .markFailed => c.read = none ∧ d = ⟨c.tgid, c.comm, Vector.replicate 256 0⟩
  | .submit => d = c.event

/-- A step of the handler keeps what its record has. -/
theorem written_next {c : Call} {d : Event} {stage stage' : Stage} (h : Written c d stage)
    (hnext : c.next stage = some stage') : Written c (c.access stage d) stage' := by
  cases stage with
  | storePid =>
    obtain rfl := Option.some.inj hnext
    rfl
  | getComm =>
    obtain rfl := Option.some.inj hnext
    exact ⟨h, rfl⟩
  | clear =>
    obtain rfl := Option.some.inj hnext
    obtain ⟨hpid, hcomm⟩ := h
    show Event.mk d.pid d.comm _ = _
    rw [hpid, hcomm]
  | readStr =>
    obtain rfl := Option.some.inj hnext
    obtain rfl : d = _ := h
    -- a read that fails leaves the cleared array
    cases hread : c.read with
    | none => exact ⟨hread, by simp [Call.access, hread]⟩
    | some path => simp [Written, Call.access, Call.event, hread]
  | markFailed =>
    obtain rfl := Option.some.inj hnext
    obtain ⟨hread, rfl⟩ := h
    simp [Written, Call.access, Call.event, hread, failedName]
  | submit => cases hnext

structure Inv (acts : List Action) (s : State) : Prop where
  fulfils : Fulfils (fun id => (s.pc id).owns) s.ring.log ((ordered acts).map Call.event)
  written : ∀ id c e stage, s.pc id = .holding c e stage →
    ∃ d, s.ring.log[e]? = some ⟨true, d⟩ ∧ Written c d stage
  running : ∀ id c, (s.pc id).call? = some c → lastCall id acts = some c ∧ c.filename ≠ 0

theorem inv_init : Inv [] State.init where
  fulfils := (Fulfils.nil fun _ => rfl).mpr rfl
  written := fun id c e stage h => by simp [State.init] at h
  running := fun id c h => by simp [State.init, Pc.call?] at h

section OneStep

variable {acts : List Action} {s s' : State} {a : Action}

/-- Only a record that is granted adds to the order. -/
theorem ordered_concat_of_ne (acts : List Action) {a : Action}
    (h : ∀ id stale, a ≠ .reserve id (some stale)) : ordered (acts ++ [a]) = ordered acts := by
  rw [ordered_concat]
  unfold orderedBy
  split
  · exact absurd rfl (h _ _)
  · exact List.append_nil _

/-- A handler that moves without a record, before and after. -/
theorem inv_setPc (h : Inv acts s) {id : BitVec 64} {pc : Pc} (hfree : (s.pc id).owns = none)
    (hfree' : pc.owns = none) (hord : ordered (acts ++ [a]) = ordered acts)
    (hlast : ∀ k ≠ id, lastCall k (acts ++ [a]) = lastCall k acts)
    (hcall : ∀ c, pc.call? = some c →
      lastCall id (acts ++ [a]) = some c ∧ c.filename ≠ 0) :
    Inv (acts ++ [a]) (s.setPc id pc) where
  fulfils := by
    rw [hord]
    refine h.fulfils.congr fun k => ?_
    by_cases hk : k = id
    · subst hk
      rw [setPc_pc_self, hfree, hfree']
    · rw [setPc_pc_ne s pc hk]
  written := by
    intro k c e stage hpc
    by_cases hk : k = id
    · subst hk
      rw [setPc_pc_self] at hpc
      rw [hpc] at hfree'
      cases hfree'
    · rw [setPc_pc_ne s pc hk] at hpc
      exact h.written k c e stage hpc
  running := by
    intro k c hc
    by_cases hk : k = id
    · subst hk
      rw [setPc_pc_self] at hc
      exact hcall c hc
    · rw [setPc_pc_ne s pc hk] at hc
      rw [hlast k hk]
      exact h.running k c hc

theorem owns_of_holding {id : BitVec 64} {c : Call} {e : Nat} {stage : Stage}
    (hpc : s.pc id = .holding c e stage) : (s.pc id).owns = some (e, c.event) := by
  rw [hpc]
  rfl

/-- Handlers that have records have different ones. -/
theorem record_ne (h : Inv acts s) {id k : BitVec 64} {c c' : Call} {e e' : Nat}
    {stage stage' : Stage} (hpc : s.pc id = .holding c e stage)
    (hpc' : s.pc k = .holding c' e' stage') (hne : k ≠ id) : e ≠ e' := by
  rintro rfl
  exact hne (h.fulfils.inj k id e _ _ (owns_of_holding hpc') (owns_of_holding hpc))

theorem inv_reserve (h : Inv acts s) {id : BitVec 64} {c : Call} {stale : Event}
    {ring : RingBuf Event (ringbufCap sizeofEvent)} (hpc : s.pc id = .reserving c)
    (hring : s.ring.reserve? stale = some ring) :
    Inv (acts ++ [.reserve id (some stale)])
      { s.setPc id (.holding c s.ring.next .storePid) with ring := ring } := by
  have hlog := RingBuf.log_reserve hring
  obtain ⟨hlast, hptr⟩ := h.running id c (by rw [hpc]; rfl)
  refine ⟨?_, ?_, ?_⟩
  · rw [hlog, ordered_concat, orderedBy, hlast, Option.toList_some, List.map_append]
    refine h.fulfils.reserve (i := id) (a := c.event) (by rw [hpc]; rfl) ?_ fun k hk => ?_
    · simp [Pc.owns, RingBuf.length_log]
    · simp [setPc_pc_ne s _ hk]
  · intro k c' e stage hk
    rw [hlog]
    by_cases hkid : k = id
    · subst hkid
      rw [setPc_pc_self] at hk
      cases hk
      exact ⟨stale, by simp [← RingBuf.length_log], trivial⟩
    · simp only [setPc_pc_ne s _ hkid] at hk
      obtain ⟨d, hd, hw⟩ := h.written k c' e stage hk
      have hlt := (List.getElem?_eq_some_iff.mp hd).1
      exact ⟨d, by rwa [List.getElem?_append_left hlt], hw⟩
  · intro k c' hc
    rw [lastCall_of_not_fire k acts (by simp)]
    by_cases hkid : k = id
    · subst hkid
      rw [setPc_pc_self] at hc
      cases hc
      exact ⟨hlast, hptr⟩
    · simp only [setPc_pc_ne s _ hkid] at hc
      exact h.running k c' hc

theorem inv_access (h : Inv acts s) {id : BitVec 64} {c : Call} {e : Nat} {stage stage' : Stage}
    (hpc : s.pc id = .holding c e stage) (hnext : c.next stage = some stage') :
    Inv (acts ++ [.access id])
      { s.setPc id (.holding c e stage') with ring := s.ring.store e (c.access stage) } := by
  obtain ⟨d, hd, hw⟩ := h.written id c e stage hpc
  have hlt := (List.getElem?_eq_some_iff.mp hd).1
  refine ⟨?_, ?_, ?_⟩
  · rw [RingBuf.log_store hd, ordered_concat_of_ne acts (by simp)]
    refine (h.fulfils.store ⟨d, hd⟩).congr fun k => ?_
    by_cases hk : k = id
    · subst hk
      rw [setPc_pc_self, owns_of_holding hpc]
      rfl
    · simp only [setPc_pc_ne s _ hk]
  · intro k c' e' stage'' hk
    rw [RingBuf.log_store hd]
    by_cases hkid : k = id
    · subst hkid
      rw [setPc_pc_self] at hk
      cases hk
      exact ⟨c.access stage d, by simp [hlt], written_next hw hnext⟩
    · simp only [setPc_pc_ne s _ hkid] at hk
      obtain ⟨d', hd', hw'⟩ := h.written k c' e' stage'' hk
      exact ⟨d', by rwa [List.getElem?_set_ne (record_ne h hpc hk hkid)], hw'⟩
  · intro k c' hc
    rw [lastCall_of_not_fire k acts (by simp)]
    by_cases hkid : k = id
    · subst hkid
      rw [setPc_pc_self] at hc
      exact h.running k c' (by rw [hpc]; exact hc)
    · simp only [setPc_pc_ne s _ hkid] at hc
      exact h.running k c' hc

theorem inv_submit (h : Inv acts s) {id : BitVec 64} {c : Call} {e : Nat}
    (hpc : s.pc id = .holding c e .submit) :
    Inv (acts ++ [.submit id]) { s.setPc id .idle with ring := s.ring.submit e } := by
  obtain ⟨d, hd, hw⟩ := h.written id c e .submit hpc
  obtain rfl : d = c.event := hw
  refine ⟨?_, ?_, ?_⟩
  · rw [RingBuf.log_submit hd, ordered_concat_of_ne acts (by simp)]
    refine h.fulfils.submit (owns_of_holding hpc) (by simp [Pc.owns]) fun k hk => ?_
    simp only [setPc_pc_ne s _ hk]
  · intro k c' e' stage hk
    have hkid : k ≠ id := by
      rintro rfl
      simp at hk
    simp only [setPc_pc_ne s _ hkid] at hk
    obtain ⟨d', hd', hw'⟩ := h.written k c' e' stage hk
    exact ⟨d', by rwa [RingBuf.log_submit hd, List.getElem?_set_ne (record_ne h hpc hk hkid)],
      hw'⟩
  · intro k c' hc
    rw [lastCall_of_not_fire k acts (by simp)]
    have hkid : k ≠ id := by
      rintro rfl
      simp [Pc.call?] at hc
    simp only [setPc_pc_ne s _ hkid] at hc
    exact h.running k c' hc

theorem inv_consume (h : Inv acts s) {ring : RingBuf Event (ringbufCap sizeofEvent)}
    (hring : s.ring.consume? = some ring) : Inv (acts ++ [.consume]) { s with ring := ring } := by
  have hlog := RingBuf.log_consume hring
  refine ⟨?_, ?_, ?_⟩
  · rw [hlog, ordered_concat_of_ne acts (by simp)]
    exact h.fulfils
  · intro k c e stage hk
    rw [hlog]
    exact h.written k c e stage hk
  · intro k c hc
    rw [lastCall_of_not_fire k acts (by simp)]
    exact h.running k c hc

theorem inv_step (h : Inv acts s) (hst : Step s a s') : Inv (acts ++ [a]) s' := by
  have hother : ∀ {c : Call}, ∀ k ≠ c.id, lastCall k (acts ++ [.fire c]) = lastCall k acts := by
    intro c k hk
    rw [lastCall_fire, if_neg fun heq => hk heq.symm]
  cases hst with
  | @fireNull c hpc hnull =>
    have hs : s.setPc c.id .idle = s := by
      rw [State.setPc, ← hpc, Function.update_eq_self]
    have hset : Inv (acts ++ [.fire c]) (s.setPc c.id .idle) :=
      inv_setPc h (by rw [hpc]; rfl) rfl (ordered_concat_of_ne acts (by simp)) hother
        (by simp [Pc.call?])
    rwa [hs] at hset
  | @fire c hpc hptr =>
    refine inv_setPc h (by rw [hpc]; rfl) rfl (ordered_concat_of_ne acts (by simp)) hother ?_
    intro c' hc
    obtain rfl := Option.some.inj hc
    exact ⟨by rw [lastCall_fire, if_pos rfl], hptr⟩
  | reserveNull hpc =>
    exact inv_setPc h (by rw [hpc]; rfl) rfl (ordered_concat_of_ne acts (by simp))
      (fun k _ => lastCall_of_not_fire k acts (by simp)) (by simp [Pc.call?])
  | reserve hpc hring => exact inv_reserve h hpc hring
  | access hpc hnext => exact inv_access h hpc hnext
  | submit hpc => exact inv_submit h hpc
  | consume hring => exact inv_consume h hring

end OneStep

theorem inv_run {acts : List Action} {s : State} (hrun : run step State.init acts = some s) :
    Inv acts s :=
  run_invariant (M := Inv) inv_init (fun _ _ _ _ h hstep => inv_step h (Step.of_step hstep)) hrun

/-! ## The calls in the order -/

theorem fire_mem_of_lastCall {id : BitVec 64} {acts : List Action} {c : Call}
    (h : lastCall id acts = some c) : .fire c ∈ acts := by
  induction acts using List.reverseRecOn with
  | nil => simp [lastCall] at h
  | append_singleton acts a ih =>
    rw [List.mem_append, List.mem_singleton]
    by_cases hfire : ∃ c', a = .fire c'
    · obtain ⟨c', rfl⟩ := hfire
      rw [lastCall_fire] at h
      split at h
      · cases h
        exact Or.inr rfl
      · exact Or.inl (ih h)
    · rw [lastCall_of_not_fire _ acts fun c' heq => hfire ⟨c', heq⟩] at h
      exact Or.inl (ih h)

/-- A reserve that was answered with a record. -/
def Action.granted : Action → Bool
  | .reserve _ (some _) => true
  | _ => false

/-- The order has one call for each record, and it was made. -/
structure Called (acts : List Action) : Prop where
  made : ∀ c ∈ ordered acts, .fire c ∈ acts ∧ c.filename ≠ 0
  count : (ordered acts).length = acts.countP Action.granted

theorem called_step {acts : List Action} {s s' : State} {a : Action} (hinv : Inv acts s)
    (h : Called acts) (hst : Step s a s') : Called (acts ++ [a]) := by
  by_cases hgranted : a.granted
  · cases hst with
    | @reserve id c stale ring hpc hring =>
      obtain ⟨hlast, hptr⟩ := hinv.running id c (by rw [hpc]; rfl)
      have hord : ordered (acts ++ [.reserve id (some stale)]) = ordered acts ++ [c] := by
        rw [ordered_concat, orderedBy, hlast, Option.toList_some]
      refine ⟨?_, ?_⟩
      · rw [hord]
        intro c' hc
        rcases List.mem_append.mp hc with hc | hc
        · exact ⟨List.mem_append_left _ (h.made c' hc).1, (h.made c' hc).2⟩
        · obtain rfl := List.mem_singleton.mp hc
          exact ⟨List.mem_append_left _ (fire_mem_of_lastCall hlast), hptr⟩
      · rw [hord, List.countP_append, List.length_append, h.count]
        rfl
    | fireNull hpc hnull => cases hgranted
    | fire hpc hptr => cases hgranted
    | reserveNull hpc => cases hgranted
    | access hpc hnext => cases hgranted
    | submit hpc => cases hgranted
    | consume hring => cases hgranted
  · have hord : ordered (acts ++ [a]) = ordered acts :=
      ordered_concat_of_ne acts fun id stale heq => hgranted (by rw [heq]; rfl)
    refine ⟨?_, ?_⟩
    · rw [hord]
      intro c hc
      exact ⟨List.mem_append_left _ (h.made c hc).1, (h.made c hc).2⟩
    · rw [hord, List.countP_append, h.count]
      simp [hgranted]

/-! ## The calls of a task -/

/-- What an action is among the calls of a task that have a path. -/
def Action.mark (id : BitVec 64) : Action → Mark Call
  | .fire c => if c.id = id ∧ c.filename ≠ 0 then .begins c else .other
  | .reserve k none => if k = id then .refused else .other
  | _ => .other

/-- The calls of a task with a path, in order. -/
def fired (id : BitVec 64) (acts : List Action) : List Call :=
  acts.filterMap fun a => (a.mark id).begins?

/-- The same without those that the kernel refused a record. -/
def served (id : BitVec 64) (acts : List Action) : List Call := kept (Action.mark id) acts

theorem served_eq_fired {acts : List Action} (h : ∀ id, .reserve id none ∉ acts)
    (id : BitVec 64) : served id acts = fired id acts := by
  refine kept_eq_filterMap _ fun a ha hmark => ?_
  unfold Action.mark at hmark
  split at hmark
  · split at hmark
    · cases hmark
    · cases hmark
  · exact h _ ha
  · cases hmark

/-- The call that waits for its record. -/
def Pc.waiting : Pc → List Call
  | .reserving c => [c]
  | _ => []

theorem id_of_lastCall {id : BitVec 64} {acts : List Action} {c : Call}
    (h : lastCall id acts = some c) : c.id = id := by
  induction acts using List.reverseRecOn with
  | nil => simp [lastCall] at h
  | append_singleton acts a ih =>
    by_cases hfire : ∃ c', a = .fire c'
    · obtain ⟨c', rfl⟩ := hfire
      rw [lastCall_fire] at h
      split at h
      · rename_i hid
        exact Option.some.inj h ▸ hid
      · exact ih h
    · exact ih (lastCall_of_not_fire id acts (fun c' heq => hfire ⟨c', heq⟩) ▸ h)

/-- The calls of each task that got a record, and the one that waits for it. -/
def ServedInOrder (acts : List Action) (s : State) : Prop :=
  ∀ id, served id acts = (ordered acts).filter (fun c => c.id = id) ++ (s.pc id).waiting

theorem servedInOrder_step {acts : List Action} {s s' : State} {a : Action} (hinv : Inv acts s)
    (h : ServedInOrder acts s) (hst : Step s a s') : ServedInOrder (acts ++ [a]) s' := by
  intro k
  have hk := h k
  have hset : ∀ {id : BitVec 64} {pc : Pc} (pc' : Pc), s.pc id = pc → pc'.waiting = pc.waiting →
      ((s.setPc id pc').pc k).waiting = (s.pc k).waiting := by
    rintro id pc pc' rfl hwait
    by_cases hid : k = id
    · rw [hid, setPc_pc_self, hwait]
    · rw [setPc_pc_ne s _ hid]
  rw [served, kept_concat, keptStep, ← served]
  cases hst with
  | fireNull hpc hnull =>
    rw [ordered_concat_of_ne acts (by simp), Action.mark, if_neg fun hid => hid.2 hnull]
    exact hk
  | @fire c hpc hptr =>
    rw [ordered_concat_of_ne acts (by simp), Action.mark, hk]
    by_cases hid : c.id = k
    · subst hid
      rw [if_pos ⟨rfl, hptr⟩, hpc, setPc_pc_self]
      simp [Pc.waiting]
    · rw [if_neg fun h => hid h.1, setPc_pc_ne s _ (Ne.symm hid)]
  | @reserveNull id c hpc =>
    rw [ordered_concat_of_ne acts (by simp), Action.mark, hk]
    by_cases hid : id = k
    · subst hid
      rw [if_pos rfl, hpc, setPc_pc_self]
      simp [Pc.waiting]
    · rw [if_neg hid, setPc_pc_ne s _ (Ne.symm hid)]
  | @reserve id c stale ring hpc hring =>
    obtain ⟨hlast, -⟩ := hinv.running id c (by rw [hpc]; rfl)
    have hown := id_of_lastCall hlast
    rw [ordered_concat, orderedBy, hlast, Option.toList_some, hk, List.filter_append]
    by_cases hid : id = k
    · subst hid
      simp [Action.mark, hpc, Pc.waiting, hown]
    · simp [Action.mark, setPc_pc_ne s _ (Ne.symm hid), hown, hid]
  | @access id c e stage stage' hpc hnext =>
    rw [ordered_concat_of_ne acts (by simp)]
    exact hk.trans (congrArg _ (hset (.holding c e stage') hpc rfl).symm)
  | submit hpc =>
    rw [ordered_concat_of_ne acts (by simp)]
    exact hk.trans (congrArg _ (hset .idle hpc rfl).symm)
  | consume hring =>
    rw [ordered_concat_of_ne acts (by simp)]
    exact hk

theorem called_run {acts : List Action} {s : State} (hrun : run step State.init acts = some s) :
    Inv acts s ∧ Called acts ∧ ServedInOrder acts s := by
  refine run_invariant (M := fun acts s => Inv acts s ∧ Called acts ∧ ServedInOrder acts s)
    ⟨inv_init, ⟨by simp [ordered, collect, collectFrom], rfl⟩, fun _ => rfl⟩ ?_ hrun
  rintro acts s a s' ⟨hinv, hcalled, hserved⟩ hs
  have hst := Step.of_step hs
  exact ⟨inv_step hinv hst, called_step hinv hcalled hst, servedInOrder_step hinv hserved hst⟩

/-- How what was taken stands to the calls. -/
structure InOrder (acts : List Action) (s : State) : Prop where
  /-- What was taken is the events of the first calls, and for the others there
  is a record in the buffer, which has its event once it is submitted. -/
  rest : ∃ printed rest, ordered acts = printed ++ rest ∧
    s.ring.taken = printed.map Call.event ∧
    List.Forall₂ (fun x c => x.busy = false → x.data = c.event) s.ring.recs rest
  /-- The calls are those with a record, one for one. -/
  called : Called acts
  /-- In it are the calls of each task with a path, but for those that were
  refused a record. -/
  ofTask : ServedInOrder acts s
  /-- So it is all of them if none was refused. -/
  all : (∀ id, .reserve id none ∉ acts) → ∀ id,
    fired id acts = (ordered acts).filter (fun c => c.id = id) ++ (s.pc id).waiting

/-- **Each call that gets a record is reported once, in order.** For every run
of the handlers of any number of tasks with the poll loop between them,
whatever the memory of the records held before. -/
theorem dlopen_in_order (acts : List Action) (s : State)
    (hrun : run step State.init acts = some s) : InOrder acts s := by
  obtain ⟨hinv, hcalled, hserved⟩ := called_run hrun
  refine ⟨?_, hcalled, hserved, fun hnone id => served_eq_fired hnone id ▸ hserved id⟩
  obtain ⟨events, hevents, hrecs⟩ := hinv.fulfils.exists_rest
  obtain ⟨printed, rest, hord, htaken, hrest⟩ := List.map_eq_append_iff.mp hevents
  refine ⟨printed, rest, hord, htaken.symm, ?_⟩
  rw [← hrest, List.forall₂_map_right_iff] at hrecs
  exact hrecs

/-! ## When the calls stop -/

def Stage.rank : Stage → Nat
  | .storePid => 6
  | .getComm => 5
  | .clear => 4
  | .readStr => 3
  | .markFailed => 2
  | .submit => 1

/-- The steps a handler has before it, and what its record will take. -/
def Pc.rank : Pc → Nat
  | .idle => 0
  | .reserving _ => 8
  | .holding _ _ stage => stage.rank

/-- What is left to do. -/
def State.work (s : State) : Nat := ∑ id, (s.pc id).rank + s.ring.recs.length

def Action.isFiring : Action → Bool
  | .fire _ => true
  | _ => false

theorem rank_next {c : Call} {stage stage' : Stage} (h : c.next stage = some stage') :
    stage'.rank < stage.rank := by
  cases stage with
  | submit => cases h
  | readStr =>
    obtain rfl := Option.some.inj h
    split
    · decide
    · decide
  | _ =>
    obtain rfl := Option.some.inj h
    decide

theorem work_step {s s' : State} {a : Action} (hst : Step s a s') (ha : a.isFiring = false) :
    s'.work < s.work := by
  have hset : ∀ {id : BitVec 64} {pc : Pc} (pc' : Pc), s.pc id = pc →
      ∑ k, (Function.update s.pc id pc' k).rank + pc.rank = ∑ k, (s.pc k).rank + pc'.rank := by
    rintro id pc pc' rfl
    exact sum_rank_update Pc.rank s.pc id pc'
  cases hst with
  | fireNull hpc hnull => cases ha
  | fire hpc hptr => cases ha
  | reserveNull hpc =>
    have hsum := hset .idle hpc
    simp only [State.work, State.setPc, Pc.rank] at hsum ⊢
    omega
  | @reserve id c stale ring hpc hring =>
    have hsum := hset (.holding c s.ring.next .storePid) hpc
    obtain ⟨-, -, hrecs⟩ := RingBuf.reserve?_eq_some_iff.mp hring
    simp only [State.work, State.setPc, hrecs, List.length_append, List.length_singleton]
    simp only [Pc.rank, Stage.rank] at hsum ⊢
    omega
  | @access id c e stage stage' hpc hnext =>
    have hsum := hset (.holding c e stage') hpc
    have hlt := rank_next hnext
    simp only [State.work, State.setPc, RingBuf.store, RingBuf.length_recs_modify]
    simp only [Pc.rank] at hsum ⊢
    omega
  | submit hpc =>
    have hsum := hset .idle hpc
    simp only [State.work, State.setPc, RingBuf.submit, RingBuf.length_recs_modify]
    simp only [Pc.rank, Stage.rank] at hsum ⊢
    omega
  | consume hring =>
    obtain ⟨x, rest, hrecs, -, hrest⟩ := RingBuf.consume?_eq_some_iff.mp hring
    simp only [State.work, hrecs, hrest, List.length_cons]
    omega

/-- Nothing is on its way, and every call with a record has been taken. -/
structure Drained (acts : List Action) (s : State) : Prop where
  idle : ∀ id, s.pc id = .idle
  empty : s.ring.recs = []
  all : s.ring.taken = (ordered acts).map Call.event

theorem idle_of_stuck {s : State} (hstuck : ∀ a : Action, a.isFiring = false → step s a = none)
    (id : BitVec 64) : s.pc id = .idle := by
  cases hpc : s.pc id with
  | idle => rfl
  | reserving c =>
    have hnone := hstuck (.reserve id none) rfl
    simp [step, hpc] at hnone
  | holding c e stage =>
    cases hnext : c.next stage with
    | some stage' =>
      have hnone := hstuck (.access id) rfl
      simp [step, hpc, hnext] at hnone
    | none =>
      cases stage with
      | submit =>
        have hnone := hstuck (.submit id) rfl
        simp [step, hpc] at hnone
      | _ => cases hnext

theorem drained_of_stuck {acts : List Action} {s : State}
    (hrun : run step State.init acts = some s)
    (hstuck : ∀ a : Action, a.isFiring = false → step s a = none) : Drained acts s := by
  have hinv := inv_run hrun
  have hidle := idle_of_stuck hstuck
  have hempty : s.ring.recs = [] := by
    refine hinv.fulfils.recs_eq_nil (fun id => ?_) ?_
    · rw [hidle id]
      rfl
    · have hnone := hstuck .consume rfl
      simpa [step] using hnone
  exact ⟨hidle, hempty, hinv.fulfils.taken_eq hempty⟩

/-- **No record is left behind.** From every state that can be reached, the
steps that are not new calls come to an end in every order, and where none of
them can be taken every call with a record has been reported. -/
theorem dlopen_drains (acts : List Action) (s : State)
    (hrun : run step State.init acts = some s) :
    Drains step (fun a => a.isFiring = false) State.work Drained acts s := by
  refine drains_of ?_ (fun _ _ => drained_of_stuck) hrun
  intro s a s' ha hs
  exact work_step (Step.of_step hs) ha

/-! ## Two tasks -/

/-- The library path is at address 8, and nothing else is mapped. -/
def oneString : UserMem := fun p => (ascii "/a.so\x00")[(p - 8).toNat]?

/-- A call with a path that can be read. -/
def loadA : Call where
  id := 0x2a0000002a
  comm := strWrite (Vector.replicate 16 0) (ascii "zygote")
  comm_nul := nul_mem_strWrite _ (by decide)
  filename := 8
  mem := oneString

/-- A call with one that cannot. -/
def loadB : Call where
  id := 0x2b0000002b
  comm := strWrite (Vector.replicate 16 0) (ascii "app")
  comm_nul := nul_mem_strWrite _ (by decide)
  filename := 0x100
  mem := oneString

def staleEvent : Event := ⟨7, Vector.replicate 16 65, Vector.replicate 256 66⟩

/-- The first to reserve is the second to submit. -/
def twoLoads : List Action :=
  [.fire loadA, .fire loadB, .reserve loadA.id (some staleEvent),
   .reserve loadB.id (some staleEvent), .access loadB.id, .access loadB.id, .access loadB.id,
   .access loadB.id, .access loadB.id, .submit loadB.id, .access loadA.id, .access loadA.id,
   .access loadA.id, .access loadA.id, .submit loadA.id, .consume, .consume]

theorem dlopen_in_order_twoLoads :
    ∃ s, run step State.init twoLoads = some s ∧
      s.ring.taken.map (fun x => (x.pid, cstr x.filename.toList))
        = [(0x2a, ascii "/a.so"), (0x2b, ascii "<failed>")] ∧ InOrder twoLoads s := by
  have htaken : (run step State.init twoLoads).map
      (fun s => s.ring.taken.map fun x => (x.pid, cstr x.filename.toList))
        = some [(0x2a, ascii "/a.so"), (0x2b, ascii "<failed>")] := by decide +kernel
  obtain ⟨s, hs, htaken⟩ := Option.map_eq_some_iff.mp htaken
  exact ⟨s, hs, htaken, dlopen_in_order twoLoads s hs⟩

theorem dlopen_drains_twoLoads :
    ∃ s, run step State.init (twoLoads.take 4) = some s ∧ s.ring.taken = [] ∧
      Drains step (fun a => a.isFiring = false) State.work Drained (twoLoads.take 4) s :=
  ⟨_, rfl, rfl, dlopen_drains (twoLoads.take 4) _ rfl⟩

end LibbpfTools.So
