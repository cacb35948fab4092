/-
LibbpfTools.Strace.Output — from the command line to standard output.

`main` selects a process and loads its id as `target_tgid`; the handlers
filter by it, pair the two halves of a call and hand the event over through
the ring buffer; `handle_event` prints it. Each of these parts is in a module
of its own. Here they are put together: whatever else runs on the machine,
what the tool prints behind its own messages is a sequence of records, and
every one of them joins a `sys_exit` under a thread id of the selected
process, the one that the last message names, with the `sys_enter` that fired
last under that id (`output_of_target`). The two are one call unless the id
went to another task in between; `Provenance` is about that.

The one assumption is what the documentation of `bpf_get_current_comm` says,
that the name it copies is terminated.
-/
import LibbpfTools.ExitStatus
import LibbpfTools.Strace.Pipeline
import LibbpfTools.Strace.Records

namespace LibbpfTools.Strace

open LibbpfTools.Lib LibbpfTools.Lib.Lts

/-! ## The target is a process id -/

/-- A number that `parse_pid` accepts. -/
def PidRange (v : Int) : Prop := 1 ≤ v ∧ v ≤ 2 ^ 31 - 1

theorem pidRange_of_pidOf {s : CString} {v : Int} (h : pidOf s = some v) : PidRange v :=
  ((pidOf_eq_some_iff s v).mp h).2

/-- A scan sets `*pid` to a process id or leaves it. -/
theorem pid_scanEntries (name : CString) (pid : Int) (es : List ProcEntry) :
    (scanEntries name pid es).pid = pid ∨ PidRange (scanEntries name pid es).pid := by
  induction es with
  | nil => exact Or.inl rfl
  | cons de es ih =>
    rw [scanEntries]
    cases hpid : pidOf de.name with
    | none => exact ih
    | some v =>
      have hv := pidRange_of_pidOf hpid
      simp only
      split
      · exact Or.inr hv
      split
      · exact Or.inr hv
      · exact ih

theorem pid_findPidByName (name : CString) (pid : Int) (view : ProcView) :
    (findPidByName name pid view).pid = pid ∨ PidRange (findPidByName name pid view).pid := by
  cases view with
  | none => exact Or.inl rfl
  | some es => exact pid_scanEntries name pid es

theorem pid_waitLoop {name : CString} {signal : Option Nat} {views : List ProcView} {test t : Nat}
    {pid v : Int} (h : (waitLoop name signal views test pid).1 = some (v, t)) :
    v = pid ∨ PidRange v := by
  induction views generalizing test pid with
  | nil =>
    rw [waitLoop] at h
    split at h
    · obtain ⟨rfl, -⟩ := Prod.mk.inj (Option.some.inj h)
      exact Or.inl rfl
    · cases h
  | cons view views ih =>
    rw [waitLoop] at h
    split at h
    · obtain ⟨rfl, -⟩ := Prod.mk.inj (Option.some.inj h)
      exact Or.inl rfl
    have hscan := pid_findPidByName name pid view
    simp only at h
    split at h
    · obtain ⟨rfl, -⟩ := Prod.mk.inj (Option.some.inj h)
      exact hscan
    · rcases ih h with rfl | hv
      · exact hscan
      · exact Or.inr hv

/-- Whatever the argument is, a target that is selected is a process id. -/
theorem pidRange_of_selectTarget {arg : CString} {signal : Option Nat} {views : List ProcView}
    {v : Int} (h : (selectTarget arg signal views).1 = .target v) : PidRange v := by
  cases hpid : pidOf arg with
  | some p =>
    simp only [selectTarget, parsePid, hpid, if_true, Selection.target.injEq] at h
    exact h ▸ pidRange_of_pidOf hpid
  | none =>
    simp only [selectTarget, parsePid, hpid] at h
    rw [if_neg (by decide)] at h
    split at h
    · cases h
    rename_i pid t hleft
    split at h
    · cases h
    rename_i htest
    obtain rfl := Selection.target.inj h
    rcases pid_waitLoop hleft with rfl | hv
    · simp at htest
    · exact hv

theorem exists_argv_of_loaded {env : Env} {v : Int} (h : (main env).targetTgid = some v) :
    ∃ prog arg, env.argv = [prog, arg] := by
  unfold main at h
  split at h
  · rename_i prog arg hargv
    exact ⟨prog, arg, hargv⟩
  · cases h

theorem pidRange_of_loaded {env : Env} {v : Int} (h : (main env).targetTgid = some v) :
    PidRange v := by
  obtain ⟨prog, arg, hargv⟩ := exists_argv_of_loaded h
  exact pidRange_of_selectTarget ((targetTgid_eq_some_iff hargv v).mp h).1

theorem toInt_ofInt_of_pidRange {v : Int} (h : PidRange v) : (BitVec.ofInt 32 v).toInt = v := by
  obtain ⟨h1, h2⟩ := h
  rw [BitVec.toInt_ofInt]
  exact castInt_eq h1 h2

/-- The filter is on: 0 would mean every process. -/
theorem ofInt_ne_zero_of_pidRange {v : Int} (h : PidRange v) : BitVec.ofInt 32 v ≠ 0 := by
  intro h0
  have hv := toInt_ofInt_of_pidRange h
  rw [h0] at hv
  have h1 := h.1
  rw [← hv] at h1
  exact absurd h1 (by decide)

/-! ## The messages of `main` -/

/-- What `main` writes to standard output before the loop. -/
def messages (env : Env) : Bytes :=
  match env.argv with
  | [_, arg] =>
      let isPid := (parsePid arg 0).1 = 0
      let waiting :=
        if isPid then [] else format "waiting for process name '%s' ...\n" [.str arg.bytes]
      match (selectTarget arg env.waitSignal env.views).1 with
      | .target pid =>
          let found :=
            if isPid then []
            else format "found process '%s' with pid=%d\n" [.str arg.bytes, .int (.ofInt 32 pid)]
          let started :=
            if env.opened = true ∧ env.load = 0 ∧ env.attach = 0 ∧ env.ringBuffer = none then
              if isPid then format "libbpfstrace started, tracing pid=%d\n" [.int (.ofInt 32 pid)]
              else format "libbpfstrace started, tracing process '%s' pid=%d\n"
                [.str arg.bytes, .int (.ofInt 32 pid)]
            else []
          waiting ++ (found ++ started)
      | _ => waiting
  | _ => []

theorem announced_of_setUp {env : Env} {v : Int} (hload : (main env).targetTgid = some v)
    (hset : env.SetUp) : ascii "pid=" ++ (signed v ++ [10]) <:+ messages env := by
  obtain ⟨prog, arg, hargv⟩ := exists_argv_of_loaded hload
  have hsel := ((targetTgid_eq_some_iff hargv v).mp hload).1
  have hsigned : signed v = signed (BitVec.ofInt 32 v).toInt := by
    rw [toInt_ofInt_of_pidRange (pidRange_of_selectTarget hsel)]
  obtain ⟨-, hrest⟩ := hset
  simp only [messages, hargv, hsel, hrest, and_self, if_true]
  refine List.suffix_append_of_suffix (List.suffix_append_of_suffix ?_)
  split
  · refine ⟨ascii "libbpfstrace started, tracing ", ?_⟩
    rw [hsigned]
    rfl
  · refine ⟨ascii "libbpfstrace started, tracing process '" ++ (arg.bytes ++ ascii "' "), ?_⟩
    rw [hsigned, List.append_assoc, List.append_assoc]
    rfl

/-! ## The firings behind an event -/

/-- The action that a firing in a history is of. -/
def Firing.action (id : BitVec 64) : Firing → Action
  | .enter inv ctx _ => .sysEnter id inv ctx
  | .exit inv ret _ => .sysExit id inv ret

/-- An answer to a firing leaves it the one it was. -/
theorem succeed_cons (id : BitVec 64) (f : Firing) (h : List Firing) :
    ∃ f', Firing.succeed (f :: h) = f' :: h ∧ f'.action id = f.action id := by
  cases f with
  | enter inv ctx updated => exact ⟨_, rfl, rfl⟩
  | exit inv ret reserved => exact ⟨_, rfl, rfl⟩

theorem exists_of_succeed (id : BitVec 64) {h pre post : List Firing} {f : Firing}
    (heq : Firing.succeed h = pre ++ f :: post) :
    ∃ pre' f', h = pre' ++ f' :: post ∧ f'.action id = f.action id ∧ (pre = [] → pre' = []) := by
  cases h with
  | nil => simp [Firing.succeed] at heq
  | cons g h =>
    obtain ⟨g', hg, hact⟩ := succeed_cons id g h
    rw [hg] at heq
    cases pre with
    | nil =>
      obtain ⟨rfl, rfl⟩ := List.cons.inj heq
      exact ⟨[], g, rfl, hact.symm, fun _ => rfl⟩
    | cons x pre =>
      obtain ⟨-, rfl⟩ := List.cons.inj heq
      exact ⟨g :: pre, f, rfl, rfl, fun h => by cases h⟩

/-- A firing goes on top of the history. -/
theorem history_firing (acts : List Action) {a : Action} (ha : a.isFiring = true) :
    ∃ f : Firing, f.action a.id = a ∧ history a.id (acts ++ [a]) = f :: history a.id acts := by
  rw [history_concat, historyStep_self]
  cases a with
  | sysEnter k inv ctx => exact ⟨.enter inv ctx false, rfl, rfl⟩
  | sysExit k inv ret => exact ⟨.exit inv ret false, rfl, rfl⟩
  | _ => cases ha

/-- The run has the firing `f` of an id, with `post` as the id's history before
it, and with nothing fired under the id since if it is the `last`. -/
def HasFiring (id : BitVec 64) (acts : List Action) (f : Action) (post : List Firing)
    (last : Prop) : Prop :=
  ∃ before after, acts = before ++ f :: after ∧ history id before = post ∧
    (last → ∀ a ∈ after, a.isFiring = true → a.id ≠ id)

theorem HasFiring.concat {id : BitVec 64} {acts : List Action} {f a : Action}
    {post : List Firing} {last last' : Prop} (h : HasFiring id acts f post last)
    (hlast : last' → last) (ha : last' → a.isFiring = true → a.id ≠ id) :
    HasFiring id (acts ++ [a]) f post last' := by
  obtain ⟨before, after, rfl, hbefore, hno⟩ := h
  refine ⟨before, after ++ [a], by simp, hbefore, fun hl b hb => ?_⟩
  rcases List.mem_append.mp hb with hb | hb
  · exact hno (hlast hl) b hb
  · exact List.mem_singleton.mp hb ▸ ha hl

theorem hasFiring_of_history {id : BitVec 64} {acts : List Action} {pre post : List Firing}
    {f : Firing} (h : history id acts = pre ++ f :: post) :
    HasFiring id acts (f.action id) post (pre = []) := by
  induction acts using List.reverseRecOn generalizing pre f with
  | nil => simp [history] at h
  | append_singleton acts a ih =>
    by_cases hid : a.id = id
    · subst hid
      cases hfire : a.isFiring with
      | false =>
        have hno : pre = [] → a.isFiring = true → a.id ≠ a.id := by simp [hfire]
        rcases history_helper a.id acts hfire with hsame | hsucc
        · exact (ih (hsame.symm.trans h)).concat (fun hnil => hnil) hno
        · obtain ⟨pre', f', hhist, hact, hpre⟩ := exists_of_succeed a.id (hsucc.symm.trans h)
          exact hact ▸ (ih hhist).concat hpre hno
      | true =>
        obtain ⟨g, hg, hhist⟩ := history_firing acts hfire
        rw [hhist] at h
        cases pre with
        | nil =>
          obtain ⟨rfl, rfl⟩ := List.cons.inj h
          exact ⟨acts, [], by rw [hg], rfl, fun _ b hb => by simp at hb⟩
        | cons x pre =>
          exact (ih (List.cons.inj h).2).concat (fun hnil => by cases hnil)
            (fun hnil => by cases hnil)
    · have hhist : history id acts = pre ++ f :: post := by
        rw [← h, history_concat, historyStep_ne hid]
      exact (ih hhist).concat (fun hnil => hnil) fun _ _ => hid

/-- Nothing fires under the id between an enter and an exit of it. -/
def NextFirings (acts : List Action) (id : BitVec 64) (inv : Nat) (ctx : SysEnter) (inv' : Nat)
    (ret : BitVec 64) : Prop :=
  ∃ before between after,
    acts = before ++ .sysEnter id inv ctx :: (between ++ .sysExit id inv' ret :: after) ∧
      ∀ a ∈ between, a.isFiring = true → a.id ≠ id

/-- The event joins an exit under a thread id of the process `v` with the enter
that fired last under that id. -/
structure PairOf (v : Int) (acts : List Action) (x : Submitted) (id ret : BitVec 64)
    (ctx : SysEnter) : Prop where
  tgid : (tgidOf id).toInt = v
  fired : NextFirings acts id x.enterInv ctx x.exitInv ret
  event : x.event = pairedEvent id ret ctx

theorem PairOf.entered {v : Int} {acts : List Action} {x : Submitted} {id ret : BitVec 64}
    {ctx : SysEnter} (h : PairOf v acts x id ret ctx) : .sysEnter id x.enterInv ctx ∈ acts := by
  obtain ⟨before, between, after, rfl, -⟩ := h.fired
  simp

/-- A pair in a history is a pair of firings of the run. -/
theorem nextFirings_of_history {id : BitVec 64} {acts : List Action} {pre post : List Firing}
    {inv inv' : Nat} {ret : BitVec 64} {ctx : SysEnter} {updated reserved : Bool}
    (h : history id acts = pre ++ .exit inv' ret reserved :: .enter inv ctx updated :: post) :
    NextFirings acts id inv ctx inv' ret := by
  obtain ⟨before, after, rfl, hbefore, -⟩ := hasFiring_of_history h
  have htop : history id before = [] ++ .enter inv ctx updated :: post := hbefore
  obtain ⟨before, between, rfl, -, hlast⟩ := hasFiring_of_history htop
  exact ⟨before, between, after, by simp [Firing.action], hlast rfl⟩

/-- What is printed was fired. -/
theorem pairOf_of_mem_taken {v : Int} (hv : PidRange v) {acts : List PipeAction} {s : Pipe}
    (hrun : run (pipeStep (BitVec.ofInt 32 v)) Pipe.init acts = some s) {x : Submitted}
    (hx : x ∈ s.ring.taken) : ∃ id ret ctx, PairOf v (handlerActs acts) x id ret ctx := by
  obtain ⟨id, hid⟩ := x.exists_of
  have hordered := (pipeInv_run hrun).fulfils.taken_isPrefix.subset hx
  have hmem : x ∈ eventsOf id (ordered (handlerActs acts)) :=
    List.mem_filter.mpr ⟨hordered, by simpa using hid⟩
  rw [(eventsOf_ordered (run_handlerActs hrun)).2] at hmem
  obtain ⟨hf, pre, post, inv, inv', ret, ctx, hhist, rfl⟩ := mem_expected hmem
  have htgid : tgidOf id = BitVec.ofInt 32 v :=
    (not_filtered_iff.mp hf).resolve_left (ofInt_ne_zero_of_pidRange hv)
  refine ⟨id, ret, ctx, ?_, nextFirings_of_history hhist, rfl⟩
  rw [htgid, toInt_ofInt_of_pidRange hv]

/-! ## The records -/

/-- The captured path ends in its array, whatever the call was. -/
theorem nul_mem_str (id ret : BitVec 64) (ctx : SysEnter) :
    0 ∈ (pairedEvent id ret ctx).str.toList := by
  rw [← fillEvent_enterStateOf, (fillEvent_string id ret ctx).1]
  cases h : userString ctx.mem (capturedPtr ctx) with
  | none => decide
  | some path =>
    have hlen := (length_userString_le h).1
    exact nul_mem_strWrite _ (by omega)

/-- What the tool has printed behind its messages, for a target `v`. -/
structure OutputOf (libc : Libc) (env : Env) (v : Int) (acts : List Action) (s : Pipe) :
    Prop where
  /-- The last message ends with the number of the process. -/
  announced : env.SetUp → ascii "pid=" ++ (signed v ++ [10]) <:+ messages env
  /-- A sequence of records. -/
  records : s.stdout libc = unlines (s.ring.taken.map fun x => record libc x.event)
  /-- Each is of an exit under a thread id of the process and of the last
  enter under that id before it. -/
  ofTarget : ∀ x ∈ s.ring.taken, ∃ id ret ctx, PairOf v acts x id ret ctx ∧
    record libc x.event = recordText (tgidOf id) (tidOf id)
      (middleText (cstr ctx.comm.toList) (callText libc x.event) (retText libc ret))
      (ctx.nr.setWidth 32)
  /-- So each begins with the number of the process. -/
  pid : ∀ x ∈ s.ring.taken, ascii "pid=" ++ (signed v ++ ascii " tid=") <+: record libc x.event
  /-- The lines are the records if no name or path has a newline. -/
  lines : (∀ x ∈ s.ring.taken, OneLine x.event) → (s.stdout libc).splitOn 10
    = s.ring.taken.map (fun x => record libc x.event) ++ [[]]

theorem recordText_isPrefix {v : Int} {tgid : BitVec 32} (h : tgid.toInt = v) (pid : BitVec 32)
    (middle : Bytes) (id : BitVec 32) :
    ascii "pid=" ++ (signed v ++ ascii " tid=") <+: recordText tgid pid middle id := by
  rw [recordText, h]
  refine (List.prefix_append_right_inj _).mpr ((List.prefix_append_right_inj _).mpr ?_)
  exact List.prefix_append _ _

/-- **The output is of the process that was asked for.** If `main` loads the
BPF object with the target `v`, then for every run of the machine from there
on, however the handlers and the poll loop interleave, what has been printed
is a sequence of records, each of an exit under a thread id of `v` and the
enter right before it. -/
theorem output_of_target (libc : Libc) (hline : libc.StrerrorOneLine) (env : Env) (v : Int)
    (hload : (main env).targetTgid = some v) (acts : List PipeAction) (s : Pipe)
    (hrun : run (pipeStep (BitVec.ofInt 32 v)) Pipe.init acts = some s)
    (hcomm : ∀ id inv ctx, .sysEnter id inv ctx ∈ handlerActs acts → 0 ∈ ctx.comm.toList) :
    OutputOf libc env v (handlerActs acts) s := by
  have hv := pidRange_of_loaded hload
  have hdelivery : ∀ x ∈ s.ring.taken, ∃ d : Delivery, d.event = x.event := by
    intro x hx
    obtain ⟨id, ret, ctx, hpair⟩ := pairOf_of_mem_taken hv hrun hx
    rw [hpair.event]
    exact ⟨⟨pairedEvent id ret ctx, sizeofSyscallEvent, le_refl _, hcomm id _ ctx hpair.entered,
      nul_mem_str id ret ctx⟩, rfl⟩
  have hofTarget : ∀ x ∈ s.ring.taken, ∃ id ret ctx,
      PairOf v (handlerActs acts) x id ret ctx ∧
        record libc x.event = recordText (tgidOf id) (tidOf id)
          (middleText (cstr ctx.comm.toList) (callText libc x.event) (retText libc ret))
          (ctx.nr.setWidth 32) := by
    intro x hx
    obtain ⟨id, ret, ctx, hpair⟩ := pairOf_of_mem_taken hv hrun hx
    refine ⟨id, ret, ctx, hpair, ?_⟩
    rw [record_eq, hpair.event]
    exact congrArg (fun comm => recordText _ _ (middleText comm _ _) _)
      (cstr_append_of_mem (hcomm id _ ctx hpair.entered) _)
  have hrecords : s.stdout libc = unlines (s.ring.taken.map fun x => record libc x.event) := by
    rw [Pipe.stdout, unlines, List.flatMap_map]
    congr 1
    funext x
    rw [handleEvent_eq libc (le_refl _), ← record_eq]
  refine ⟨announced_of_setUp hload, hrecords, hofTarget, fun x hx => ?_, fun honeLine => ?_⟩
  · obtain ⟨id, ret, ctx, hpair, hrecord⟩ := hofTarget x hx
    rw [hrecord]
    exact recordText_isPrefix hpair.tgid _ _ _
  · rw [hrecords]
    apply splitOn_unlines
    rw [List.forall_mem_map]
    intro x hx
    obtain ⟨d, hd⟩ := hdelivery x hx
    rw [← hd]
    exact (newline_not_mem_record_iff hline d).mpr (hd ▸ honeLine x hx)

/-- `libbpfstrace 42`, with the calls of `twoReads` while it runs. -/
def traceFortyTwo : Env where
  argv := [.ofBuf (ascii "libbpfstrace"), .ofBuf (ascii "42")]
  views := []
  waitSignal := none
  opened := true
  load := 0
  attach := 0
  ringBuffer := none
  polls := []
  signalled := false

theorem output_of_target_twoReads :
    ∃ s, run (pipeStep 0x2a) Pipe.init twoReads = some s ∧
      s.stdout .english = ascii
        ("pid=42 tid=42 comm= read(fd=3, buf=0x7000, count=64) = 64 [id=63]\n" ++
          "pid=42 tid=43 comm= read(fd=3, buf=0x7000, count=64) = 0 [id=63]\n") ∧
      messages traceFortyTwo = ascii "libbpfstrace started, tracing pid=42\n" ∧
      OutputOf .english traceFortyTwo 42 (handlerActs twoReads) s :=
  ⟨_, rfl, by decide +kernel, by decide +kernel, output_of_target .english
    (not_mem_english_strerror newline_not_number (by decide)) traceFortyTwo 42
    (by decide +kernel) twoReads _ rfl (by
      intro id inv ctx h
      obtain rfl : ctx = readCall := by
        simp only [twoReads, handlerActs, PipeAction.action?, List.filterMap_cons, List.mem_cons,
          List.filterMap_nil, List.not_mem_nil, Action.sysEnter.injEq, reduceCtorEq,
          or_false] at h
        rcases h with h | h
        · exact h.2.2
        · exact h.2.2
      decide)⟩

end LibbpfTools.Strace
