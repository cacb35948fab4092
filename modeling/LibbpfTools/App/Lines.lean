/-
LibbpfTools.App.Lines — the lines of `libbpfapp.bpf.c` with the name and the
file of an `execve` call.

The handler prints about ten lines, one of which shows `comm` and the file
name from its scratch entry; the others show ids, times and other numbers of
the moment and are not modelled. `Execs` says whose entry it is. Here is what
follows for the trace: in every run of any number of threads, each thread has
one such line for each of its calls, in the order of the calls, except those
whose insert was refused and the one that is under way (`execs_lines`), and
when the calls stop all of them are out (`execs_drain`). A call is refused only
while 10240 others are in the handler, so with fewer of them no call is
missing.

A line shows at most 126 bytes of the file name; a name that cannot be read is
shown as an empty one.
-/
import LibbpfTools.App.Execs
import LibbpfTools.Lib.Printf

namespace LibbpfTools.App

open LibbpfTools.Lib LibbpfTools.Lib.Lts LibbpfTools.Bpf

/-! ## The text of a line -/

/-- What the `bpf_printk` with `comm` and `args` writes. -/
def Printed.text (p : Printed) : Bytes :=
  -- `comm` and `args` are adjacent, so a comm without a NUL runs on
  format "BPF bpf_probe_read_user_str(): comm:%s, args:%s\n"
    [.str (cstr (p.comm.toList ++ p.args.toList)), .str (cstr p.args.toList)]

/-- The file name that is shown. -/
def Exec.path (c : Exec) : Bytes := (bpfProbeReadUserStr c.mem 127 c.filename).getD []

/-- The line of a call. -/
def Exec.line (c : Exec) : Bytes :=
  format "BPF bpf_probe_read_user_str(): comm:%s, args:%s\n"
    [.str (cstr c.comm.toList), .str c.path]

theorem cstr_readArgs (c : Exec) : cstr (c.readArgs Event.empty.args).toList = c.path := by
  rw [Exec.readArgs, Exec.path]
  cases h : bpfProbeReadUserStr c.mem 127 c.filename with
  | none => decide
  | some s =>
    have hlen := length_bpfProbeReadUserStr h
    exact cstr_strWrite _ (by omega) (nul_not_mem_bpfProbeReadUserStr h)

theorem text_of_own {p : Printed} (h : p.Own) (hcomm : 0 ∈ p.run.comm.toList) :
    p.text = p.run.line := by
  rw [Printed.text, h.1, h.2, cstr_append_of_mem hcomm, cstr_readArgs, Exec.line]

theorem path_of_holdsString {c : Exec} {path : Bytes} (h : HoldsString c.mem c.filename path) :
    c.path = path.take 126 := by
  rw [Exec.path, bpfProbeReadUserStr_holdsString h]
  rfl

/-! ## The calls of a thread -/

/-- What an action is among the calls of a thread. -/
def Action.mark (tid : BitVec 32) : Action → Mark Exec
  | .fire c => if c.tid = tid then .begins c else .other
  | .mapUpdate k none => if k = tid then .refused else .other
  | _ => .other

/-- The calls of a thread, in order. -/
def fired (tid : BitVec 32) (acts : List Action) : List Exec :=
  acts.filterMap fun a => (a.mark tid).begins?

/-- The same without those whose insert was refused. -/
def served (tid : BitVec 32) (acts : List Action) : List Exec := kept (Action.mark tid) acts

/-- No insert of the run was refused. -/
def NoneRefused (acts : List Action) : Prop := ∀ tid, .mapUpdate tid none ∉ acts

theorem served_eq_fired {acts : List Action} (h : NoneRefused acts) (tid : BitVec 32) :
    served tid acts = fired tid acts := by
  refine kept_eq_filterMap _ fun a ha hmark => ?_
  unfold Action.mark at hmark
  split at hmark
  · split at hmark
    · cases hmark
    · cases hmark
  · exact h _ ha
  · cases hmark

/-- The call of a thread that has no line yet. -/
def Pc.pending : Pc → List Exec
  | .idle => []
  | .updating c => [c]
  | .lookingUp c => [c]
  | .storingIds c _ => [c]
  | .gettingComm c _ => [c]
  | .readingArgs c _ => [c]
  | .printing c _ => [c]
  | .deleting => []

/-- The lines of a thread. -/
def State.linesOf (s : State) (tid : BitVec 32) : List Printed :=
  s.printed.filter fun p => p.run.tid = tid

/-! ## One line for each call -/

/-- The lines of the threads, against their calls. -/
structure LinesInv (acts : List Action) (s : State) : Prop where
  entries : Inv s
  /-- What a thread has under way is a call of its own. -/
  owner : ∀ tid, ∀ c ∈ (s.pc tid).pending, c.tid = tid
  lines : ∀ tid, served tid acts = (s.linesOf tid).map Printed.run ++ (s.pc tid).pending

theorem linesInv_init : LinesInv [] State.init :=
  ⟨inv_init, fun _ _ hc => by simp [State.init, Pc.pending] at hc, fun _ => rfl⟩

section OneStep

variable {acts : List Action} {s s' : State} {a : Action}

theorem mark_ne {tid : BitVec 32} (h : tid ≠ a.tid) : a.mark tid = .other := by
  cases a with
  | fire c => exact if_neg (Ne.symm h)
  | mapUpdate k r =>
    cases r with
    | none => exact if_neg (Ne.symm h)
    | some event => rfl
  | _ => rfl

/-- The step of one thread gives no line to another. -/
theorem linesOf_step_ne (h : LinesInv acts s) (hst : Step s a s') {tid : BitVec 32}
    (htid : tid ≠ a.tid) : s'.linesOf tid = s.linesOf tid := by
  cases hst with
  | @print k c event hpc =>
    have hown : c.tid = k := h.owner k c (by simp [hpc, Pc.pending])
    have hne : c.tid ≠ tid := fun heq => htid (heq.symm.trans hown)
    simp [State.linesOf, List.filter_append, hne]
  | _ => rfl

theorem lines_step_self (h : LinesInv acts s) (hst : Step s a s') :
    (∀ c ∈ (s'.pc a.tid).pending, c.tid = a.tid) ∧
      keptStep (Action.mark a.tid) (served a.tid acts) a
        = (s'.linesOf a.tid).map Printed.run ++ (s'.pc a.tid).pending := by
  -- most steps neither begin nor end a call and print nothing
  have hgoes : ∀ {tid : BitVec 32} {pc pc' : Pc}, s.pc tid = pc → pc'.pending = pc.pending →
      (∀ c ∈ ((s.setPc tid pc').pc tid).pending, c.tid = tid) ∧ served tid acts
        = (s.linesOf tid).map Printed.run ++ ((s.setPc tid pc').pc tid).pending := by
    rintro tid pc pc' rfl hpend
    rw [setPc_pc_self, hpend]
    exact ⟨h.owner tid, h.lines tid⟩
  cases hst with
  | @fire c hpc =>
    have hlines := h.lines c.tid
    rw [hpc, Pc.pending, List.append_nil] at hlines
    refine ⟨by simp [Action.tid, Pc.pending], ?_⟩
    simp only [Action.tid, keptStep, Action.mark, if_true, setPc_pc_self, Pc.pending]
    rw [hlines]
    rfl
  | @refused tid c t hpc hup =>
    have hlines := h.lines tid
    rw [hpc, Pc.pending] at hlines
    refine ⟨by simp [Action.tid, Pc.pending], ?_⟩
    simp only [Action.tid, keptStep, Action.mark, if_true, setPc_pc_self, Pc.pending]
    rw [hlines, List.dropLast_concat, List.append_nil]
    rfl
  | update hpc hup => exact hgoes hpc rfl
  | @lookupNull tid c hpc hl =>
    -- the entry that was just inserted is there
    obtain ⟨event, hent⟩ := h.entries.at_pc hpc
    rw [(HashTab.entry_eq_some_iff.mp hent).1] at hl
    cases hl
  | lookup hpc hl => exact hgoes hpc rfl
  | storeIds hpc => exact hgoes hpc rfl
  | getComm hpc => exact hgoes hpc rfl
  | readArgs hpc => exact hgoes hpc rfl
  | @print tid c event hpc =>
    have hlines := h.lines tid
    have hown : c.tid = tid := h.owner tid c (by simp [hpc, Pc.pending])
    rw [hpc, Pc.pending] at hlines
    refine ⟨by simp [Action.tid, Pc.pending], ?_⟩
    simp only [Action.tid, keptStep, Action.mark, setPc_pc_self, Pc.pending]
    rw [hlines]
    simp [State.linesOf, List.filter_append, hown]
  | delete hpc => exact hgoes hpc rfl

theorem linesInv_step (h : LinesInv acts s) (hst : Step s a s') : LinesInv (acts ++ [a]) s' := by
  refine ⟨inv_step h.entries hst, ?_, ?_⟩
  · intro tid
    by_cases htid : tid = a.tid
    · exact htid ▸ (lines_step_self h hst).1
    · rw [hst.pc_ne htid]
      exact h.owner tid
  · intro tid
    rw [served, kept_concat]
    by_cases htid : tid = a.tid
    · exact htid ▸ (lines_step_self h hst).2
    · rw [keptStep, mark_ne htid, linesOf_step_ne h hst htid, hst.pc_ne htid]
      exact h.lines tid

end OneStep

theorem linesInv_run {acts : List Action} {s : State}
    (hrun : run step State.init acts = some s) : LinesInv acts s :=
  run_invariant (M := LinesInv) linesInv_init
    (fun _ _ _ _ h hstep => linesInv_step h (Step.of_step hstep)) hrun

/-! ## No call is missing -/

/-- Fewer handlers than the map has room for are between their insert and
their delete. -/
def State.Room (s : State) : Prop := Set.encard { k | (s.pc k).InWindow } < 10240

/-- An insert is refused for want of room only: the key is not there. -/
theorem not_room_of_refused {s : State} (h : Inv s) {tid : BitVec 32} {c : Exec}
    (hpc : s.pc tid = .updating c) (href : s.execs.Refuses .noexist tid) : ¬ s.Room := by
  have hkeys : { k | (s.pc k).InWindow } = { k | k ∈ s.execs.keys } := by
    ext k
    exact (mem_keys_iff h k).symm
  have hnew : tid ∉ s.execs.keys := by
    rw [mem_keys_iff h, hpc]
    exact id
  obtain ⟨-, hfull⟩ := href.resolve_left fun hex => hnew hex.2
  rw [State.Room, hkeys, HashTab.encard_keys, not_lt]
  exact_mod_cast hfull

theorem noneRefused_of_room {acts : List Action} {s : State}
    (hrun : run step State.init acts = some s)
    (hroom : Throughout step State.Room State.init acts) : NoneRefused acts := by
  refine run_induction (P := fun s _ => s.Room) (M := fun acts s => Inv s ∧ NoneRefused acts)
    ⟨inv_init, fun _ h => by simp at h⟩ ?_ hroom.along hrun |>.2
  rintro acts s a s' ⟨hinv, hnone⟩ hroom hs
  refine ⟨inv_step hinv (Step.of_step hs), fun tid hmem => ?_⟩
  rcases List.mem_append.mp hmem with hmem | hmem
  · exact hnone tid hmem
  · obtain rfl := List.mem_singleton.mp hmem
    cases Step.of_step hs with
    | refused hpc hup =>
      exact not_room_of_refused hinv hpc (HashTab.update?_none_iff.mp hup).1 hroom

/-- How the lines stand to the calls. -/
structure LinesOf (acts : List Action) (s : State) : Prop where
  /-- Each thread has the lines of its calls, in their order, but for those
  that were refused and the one under way. -/
  lines : ∀ tid, served tid acts = (s.linesOf tid).map Printed.run ++ (s.pc tid).pending
  /-- With room in the map at all times none is refused. -/
  all : Throughout step State.Room State.init acts → ∀ tid,
    fired tid acts = (s.linesOf tid).map Printed.run ++ (s.pc tid).pending
  /-- A line shows the name and the file name of its own call. -/
  text : ∀ p ∈ s.printed, 0 ∈ p.run.comm.toList → p.text = p.run.line
  /-- A file name that is in memory is shown up to its 126th byte. -/
  path : ∀ p ∈ s.printed, ∀ path, HoldsString p.run.mem p.run.filename path →
    p.run.path = path.take 126

/-- **One line with name and file for each `execve`.** In every run of any
number of threads, however they interleave. -/
theorem execs_lines (acts : List Action) (s : State)
    (hrun : run step State.init acts = some s) : LinesOf acts s := by
  have h := linesInv_run hrun
  refine ⟨h.lines, fun hroom tid => ?_, fun p hp => ?_, fun p _ path => path_of_holdsString⟩
  · rw [← served_eq_fired (noneRefused_of_room hrun hroom)]
    exact h.lines tid
  · exact text_of_own (h.entries.own p hp)

theorem execs_lines_crossed :
    ∃ s, run step State.init crossedExecs = some s ∧
      s.printed.map Printed.text
        = [ascii "BPF bpf_probe_read_user_str(): comm:sh, args:\n",
           ascii "BPF bpf_probe_read_user_str(): comm:sh, args:/bin/cat\n"] ∧
      LinesOf crossedExecs s := by
  have htext : (run step State.init crossedExecs).map (fun s => s.printed.map Printed.text)
      = some [ascii "BPF bpf_probe_read_user_str(): comm:sh, args:\n",
          ascii "BPF bpf_probe_read_user_str(): comm:sh, args:/bin/cat\n"] := by decide +kernel
  obtain ⟨s, hs, htext⟩ := Option.map_eq_some_iff.mp htext
  exact ⟨s, hs, htext, execs_lines crossedExecs s hs⟩

/-! ## The calls come to an end -/

/-- The helper calls and accesses that are left. -/
def Pc.rank : Pc → Nat
  | .idle => 0
  | .updating _ => 7
  | .lookingUp _ => 6
  | .storingIds _ _ => 5
  | .gettingComm _ _ => 4
  | .readingArgs _ _ => 3
  | .printing _ _ => 2
  | .deleting => 1

def State.work (s : State) : Nat := ∑ tid, (s.pc tid).rank

def Action.isFiring : Action → Bool
  | .fire _ => true
  | _ => false

theorem work_step {s s' : State} {a : Action} (hst : Step s a s') (ha : a.isFiring = false) :
    s'.work < s.work := by
  have hset : ∀ {tid : BitVec 32} {pc pc' : Pc}, s.pc tid = pc → pc'.rank < pc.rank →
      ∑ k, ((s.setPc tid pc').pc k).rank < ∑ k, (s.pc k).rank := by
    rintro tid pc pc' rfl hlt
    have hsum := sum_rank_update Pc.rank s.pc tid pc'
    simp only [State.setPc]
    omega
  cases hst with
  | fire hpc => cases ha
  | refused hpc hup => exact hset hpc (by simp [Pc.rank])
  | update hpc hup => exact hset hpc (by simp [Pc.rank])
  | lookupNull hpc hl => exact hset hpc (by simp [Pc.rank])
  | lookup hpc hl => exact hset hpc (by simp [Pc.rank])
  | storeIds hpc => exact hset hpc (by simp [Pc.rank])
  | getComm hpc => exact hset hpc (by simp [Pc.rank])
  | readArgs hpc => exact hset hpc (by simp [Pc.rank])
  | print hpc => exact hset hpc (by simp [Pc.rank])
  | delete hpc => exact hset hpc (by simp [Pc.rank])

/-- No handler is running, the map is empty and every call that was not
refused has its line. -/
structure Drained (acts : List Action) (s : State) : Prop where
  idle : ∀ tid, s.pc tid = .idle
  empty : s.execs.keys = []
  all : ∀ tid, served tid acts = (s.linesOf tid).map Printed.run

theorem idle_of_stuck {s : State} (hstuck : ∀ a : Action, a.isFiring = false → step s a = none)
    (tid : BitVec 32) : s.pc tid = .idle := by
  cases hpc : s.pc tid with
  | idle => rfl
  | updating c =>
    obtain ⟨r, t, ht⟩ := s.execs.exists_update? .noexist tid Event.empty
    have hnone := hstuck (.mapUpdate tid r) rfl
    simp [step, hpc, ht] at hnone
  | lookingUp c =>
    have hnone := hstuck (.mapLookup tid) rfl
    simp only [step, hpc] at hnone
    split at hnone
    · cases hnone
    · cases hnone
  | storingIds c event =>
    have hnone := hstuck (.storeIds tid) rfl
    simp [step, hpc] at hnone
  | gettingComm c event =>
    have hnone := hstuck (.getComm tid) rfl
    simp [step, hpc] at hnone
  | readingArgs c event =>
    have hnone := hstuck (.readArgs tid) rfl
    simp [step, hpc] at hnone
  | printing c event =>
    have hnone := hstuck (.print tid) rfl
    simp [step, hpc] at hnone
  | deleting =>
    have hnone := hstuck (.mapDelete tid) rfl
    simp [step, hpc] at hnone

theorem drained_of_stuck {acts : List Action} {s : State}
    (hrun : run step State.init acts = some s)
    (hstuck : ∀ a : Action, a.isFiring = false → step s a = none) : Drained acts s := by
  have h := linesInv_run hrun
  have hidle := idle_of_stuck hstuck
  refine ⟨hidle, ?_, ?_⟩
  · refine List.eq_nil_iff_forall_not_mem.mpr fun tid hmem => ?_
    rw [mem_keys_iff h.entries, hidle tid] at hmem
    exact hmem
  · intro tid
    have hlines := h.lines tid
    rwa [hidle tid, Pc.pending, List.append_nil] at hlines

/-- **The handlers come to an end.** From every state that can be reached, in
whatever order they go on. -/
theorem execs_drain (acts : List Action) (s : State)
    (hrun : run step State.init acts = some s) :
    Drains step (fun a => a.isFiring = false) State.work Drained acts s := by
  refine drains_of ?_ (fun _ _ => drained_of_stuck) hrun
  intro s a s' ha hs
  exact work_step (Step.of_step hs) ha

theorem execs_drain_crossed :
    ∃ s, run step State.init (crossedExecs.take 6) = some s ∧ s.printed = [] ∧
      Drains step (fun a => a.isFiring = false) State.work Drained (crossedExecs.take 6) s :=
  ⟨_, rfl, rfl, execs_drain (crossedExecs.take 6) _ rfl⟩

end LibbpfTools.App
