/-
LibbpfTools.Strace.Target — which process the tracer is told to trace.

The argument of `libbpfstrace` is a process id or a process name. A name is
looked for in `/proc` until a process has it or a signal ends the wait. The
id found goes into `target_tgid`, where 0 would mean every process, so what
counts is that it is a process id at all and that it is the right one.

`/proc` changes while it is read. A scan is therefore given by what it sees:
the directory entries in the order of `readdir`, each with what the two files
of that process hold when the scan comes to it. Two buffers stand between the
files and the comparison. The command line is cut to 511 bytes, which no
comparison with a name of at most 510 bytes can notice
(`nameMatches_take`); the line of `comm` fits into its 256 bytes.

`findPidByName_spec` is a scan, `selectTarget_eq_target_iff` the whole wait.
-/
import LibbpfTools.Lib.CString
import LibbpfTools.Lib.Lts

namespace LibbpfTools.Strace

open LibbpfTools.Lib

/-! ## Open directories and files -/

/-- The calls that open or close a handle, as far as they succeed. -/
inductive FileOp where
  | opendir
  | closedir
  | fopen
  | fclose

/-- How many directories and files are open. -/
structure Handles where
  dirs : Nat
  files : Nat
deriving DecidableEq

/-- Closing needs something open. -/
def Handles.step (h : Handles) : FileOp → Option Handles
  | .opendir => some { h with dirs := h.dirs + 1 }
  | .closedir => if h.dirs = 0 then none else some { h with dirs := h.dirs - 1 }
  | .fopen => some { h with files := h.files + 1 }
  | .fclose => if h.files = 0 then none else some { h with files := h.files - 1 }

/-- The calls leave open what was open before, and close nothing else. -/
def Balanced (ops : List FileOp) : Prop := ∀ h, Lts.run Handles.step h ops = some h

theorem balanced_nil : Balanced [] := fun _ => rfl

theorem balanced_append {as bs : List FileOp} (ha : Balanced as) (hb : Balanced bs) :
    Balanced (as ++ bs) := by
  intro h
  rw [Lts.run_append, ha h]
  exact hb h

theorem balanced_file : Balanced [.fopen, .fclose] := fun _ => rfl

/-- The calls close the directory that was opened before them, and nothing
else. -/
def ClosesDir (ops : List FileOp) : Prop := Balanced (.opendir :: ops)

theorem closesDir_closedir : ClosesDir [.closedir] := fun _ => rfl

/-- Balanced calls may come before the directory is closed. -/
theorem closesDir_append {as bs : List FileOp} (ha : Balanced as) (hb : ClosesDir bs) :
    ClosesDir (as ++ bs) := by
  intro h
  rw [← hb h, Lts.run_cons, Lts.run_cons]
  exact congrArg _ (funext fun h' => by rw [Lts.run_append, ha h', Option.bind_some])

/-! ## The command line argument and the directory entries as numbers -/

/-- The conversion of a `long` to `int`. -/
def castInt (v : Int) : Int := v.bmod (2 ^ 32)

/-- The test on a number in `parse_pid` and in `find_pid_by_name`, and the
process id if it passes. -/
def pidOf (s : CString) : Option Int :=
  let r := strtol s
  if r.erange || r.consumed = 0 || s.byteAt r.consumed ≠ 0 || r.value ≤ 0 ||
      r.value > 0x7fffffff then none
  else some (castInt r.value)

/-- The return value of `parse_pid` and what `*pid` is after it. -/
def parsePid (s : CString) (pid : Int) : Int × Int :=
  match pidOf s with
  | none => (-1, pid)
  | some v => (0, v)

/-! ## Scanning `/proc` -/

/-- `/proc/<pid>/comm`. The kernel writes the name of a task there, whose line
is far shorter than the buffer of the tracer. -/
structure CommFile where
  contents : Bytes
  line_le : (firstLine contents).length ≤ 255

/-- A directory entry, and what the files of its process are when the scan
comes to them; none for a file that cannot be opened. -/
structure ProcEntry where
  name : CString
  cmdline : Option Bytes
  comm : Option CommFile

/-- What one scan sees; none if `/proc` cannot be opened. -/
abbrev ProcView := Option (List ProcEntry)

/-- The string in the buffer, none if the function fails. -/
def readProcComm (file : Option CommFile) (bufSz : Nat) : Option CString × List FileOp :=
  match file with
  | none => (none, [])
  | some f =>
      match fgets f.contents bufSz with
      | none => (none, [.fopen, .fclose])
      | some line => (some (CString.ofBuf line).chomp, [.fopen, .fclose])

def readProcCmdline (file : Option Bytes) (bufSz : Nat) : Option CString × List FileOp :=
  match file with
  | none => (none, [])
  | some contents =>
      -- `fread`
      let buf := contents.take (bufSz - 1)
      if buf.length = 0 then (none, [.fopen, .fclose])
      else (some (CString.ofBuf buf), [.fopen, .fclose])

def processNameMatch (target name : CString) : Bool :=
  let len := target.strlen
  strcmp target name = 0 || (strncmp target name len = 0 && name.byteAt len = 58)

/-- The return value of a scan, what `*pid` is after it, and what it opened
and closed. -/
structure Scan where
  ret : Int
  pid : Int
  ops : List FileOp

/-- The loop over the entries and what follows it, with the directory open. -/
def scanEntries (name : CString) (pid : Int) : List ProcEntry → Scan
  | [] => ⟨-1, pid, [.closedir]⟩
  | de :: es =>
      match pidOf de.name with
      | none => scanEntries name pid es
      | some v =>
          let cmdline := readProcCmdline de.cmdline 512
          if cmdline.1.any (processNameMatch name) then ⟨0, v, cmdline.2 ++ [.closedir]⟩
          else
            let comm := readProcComm de.comm 256
            if comm.1.any (processNameMatch name) then
              ⟨0, v, cmdline.2 ++ comm.2 ++ [.closedir]⟩
            else
              let rest := scanEntries name pid es
              { rest with ops := cmdline.2 ++ comm.2 ++ rest.ops }

def findPidByName (name : CString) (pid : Int) : ProcView → Scan
  | none => ⟨-1, pid, []⟩
  | some es =>
      let s := scanEntries name pid es
      { s with ops := .opendir :: s.ops }

/-! ## Waiting for the process -/

/-- The value of `exiting` at its tests, which are numbered: the signal is
first seen by test number `signal`, or by none. -/
def exiting (signal : Option Nat) (test : Nat) : Bool := signal.any (· ≤ test)

/-- The loop in `main`, from test number `test` on: how it is left, if the
scans given do not run out before, with `target_pid` and the number of the
next test. -/
def waitLoop (name : CString) (signal : Option Nat) :
    List ProcView → Nat → Int → Option (Int × Nat) × List FileOp
  | [], test, pid =>
      if exiting signal test then (some (pid, test + 1), []) else (none, [])
  | view :: views, test, pid =>
      if exiting signal test then (some (pid, test + 1), [])
      else
        let s := findPidByName name pid view
        if s.ret = 0 then (some (s.pid, test + 1), s.ops)
        else
          let w := waitLoop name signal views (test + 1) s.pid
          (w.1, s.ops ++ w.2)

inductive Selection where
  | target (pid : Int)
  /-- `main` returns 1. -/
  | interrupted
  /-- No process had the name so far. -/
  | waiting
deriving DecidableEq

/-- The part of `main` that sets `target_pid`. -/
def selectTarget (arg : CString) (signal : Option Nat) (views : List ProcView) :
    Selection × List FileOp :=
  let p := parsePid arg 0
  if p.1 = 0 then (.target p.2, [])
  else
    let w := waitLoop arg signal views 0 p.2
    match w.1 with
    | none => (.waiting, w.2)
    | some (pid, test) =>
        if exiting signal test || pid ≤ 0 then (.interrupted, w.2) else (.target pid, w.2)

/-! ## The specification -/

/-- The string is a numeral of a process id. -/
def IsPid (s : CString) (v : Int) : Prop := IsNumeral s v ∧ 1 ≤ v ∧ v ≤ 2 ^ 31 - 1

/-- The full `argv[0]`: the first segment of the command line, up to its NUL
or, where the process has overwritten that, the end of the file. -/
def argv0 : Option Bytes → Option Bytes
  | none => none
  | some [] => none
  | some (b :: bs) => some (cstr (b :: bs))

/-- The line of `comm`; none for a file without one. -/
def commLine : Option CommFile → Option Bytes
  | none => none
  | some f => if f.contents = [] then none else some (firstLine f.contents)

/-- The name is the argument, or the argument and a suffix behind a colon. -/
def NameMatches (arg : CString) (name : Bytes) : Prop :=
  name = arg.bytes ∨ arg.bytes ++ [58] <+: name

namespace ProcEntry

/-- The process of the entry has the name. -/
def HasName (e : ProcEntry) (arg : CString) : Prop :=
  (∃ name, argv0 e.cmdline = some name ∧ NameMatches arg name) ∨
    (∃ name, commLine e.comm = some name ∧ NameMatches arg name)

/-- The entry is the process `v`, and has the name. -/
def Match (e : ProcEntry) (arg : CString) (v : Int) : Prop :=
  IsPid e.name v ∧ e.HasName arg

end ProcEntry

/-- The first entry that matches is the process `v`. -/
def FirstMatch (arg : CString) (es : List ProcEntry) (v : Int) : Prop :=
  ∃ pre e post, es = pre ++ e :: post ∧ e.Match arg v ∧ ∀ x ∈ pre, ∀ w, ¬ x.Match arg w

/-- No process the scan sees has the name. -/
def NoMatch (arg : CString) (view : ProcView) : Prop :=
  ∀ es, view = some es → ∀ e ∈ es, ∀ w, ¬ e.Match arg w

/-! ## Numbers -/

theorem castInt_eq {v : Int} (h1 : 1 ≤ v) (h2 : v ≤ 2 ^ 31 - 1) : castInt v = v := by
  rw [castInt, Int.bmod_def]
  have hmod : v % ((2 ^ 32 : Nat) : Int) = v := by omega
  rw [hmod]
  split <;> omega

/-- The test passes on the numerals of process ids. -/
theorem pidOf_eq_some_iff (s : CString) (v : Int) : pidOf s = some v ↔ IsPid s v := by
  have hspec := strtol_spec s
  generalize hr : strtol s = r at hspec
  simp only [pidOf, hr]
  constructor
  · intro h
    split at h
    · cases h
    rename_i htest
    simp only [Bool.or_eq_true, decide_eq_true_eq, not_or, ne_eq, not_not,
      Bool.not_eq_true] at htest
    obtain ⟨⟨⟨⟨hrange, hne⟩, hend⟩, hlo⟩, hhi⟩ := htest
    have hcast := castInt_eq (v := r.value) (by omega) (by omega)
    rw [hcast, Option.some.injEq] at h
    obtain ⟨hnum, -, -⟩ := (hspec v).mp ⟨hrange, hne, hend, h⟩
    exact ⟨hnum, by omega, by omega⟩
  · intro ⟨hnum, hlo, hhi⟩
    obtain ⟨hrange, hne, hend, rfl⟩ := (hspec v).mpr ⟨hnum, by omega, by omega⟩
    rw [if_neg, castInt_eq hlo hhi]
    simp only [hrange, hne, hend, Bool.or_eq_true, decide_eq_true_eq]
    simp only [Bool.false_eq_true, false_or, ne_eq, not_true_eq_false]
    omega

theorem pidOf_eq_none_iff (s : CString) : pidOf s = none ↔ ∀ w, ¬ IsPid s w := by
  simp only [← pidOf_eq_some_iff, Option.eq_none_iff_forall_ne_some, ne_eq]

theorem isPid_unique {s : CString} {v w : Int} (hv : IsPid s v) (hw : IsPid s w) : v = w := by
  have h1 := (pidOf_eq_some_iff s v).mpr hv
  have h2 := (pidOf_eq_some_iff s w).mpr hw
  exact Option.some.inj (h1.symm.trans h2)

/-! ## Names -/

/-- The comparison of names, with `name[len]` read only where a prefix of
that length was found. -/
theorem processNameMatch_iff (target name : CString) :
    processNameMatch target name = true ↔ NameMatches target name.bytes := by
  simp only [processNameMatch, Bool.or_eq_true, Bool.and_eq_true, decide_eq_true_eq]
  rw [strcmp_eq_zero_iff, strncmp_length_eq_zero_iff, NameMatches]
  refine or_congr Iff.rfl ⟨?_, ?_⟩
  · intro h
    obtain ⟨⟨t, ht⟩, hcolon⟩ := h
    rw [CString.byteAt, ← ht, CString.strlen] at hcolon
    cases t with
    | nil => simp at hcolon
    | cons c t =>
      have hc : c = 58 := by simpa using hcolon
      exact ⟨t, by rw [← ht, hc]; simp⟩
  · intro h
    obtain ⟨t, ht⟩ := h
    refine ⟨⟨58 :: t, by rw [← ht]; simp⟩, ?_⟩
    rw [CString.byteAt, ← ht, CString.strlen]
    simp

/-- Cutting a name behind the first byte that can matter changes nothing. -/
theorem nameMatches_take {arg : CString} {n : Nat} (h : arg.bytes.length < n) (name : Bytes) :
    NameMatches arg (name.take n) ↔ NameMatches arg name := by
  refine or_congr ⟨?_, ?_⟩ ?_
  · intro heq
    have hlen := congrArg List.length heq
    rw [List.length_take] at hlen
    rwa [List.take_of_length_le (by omega)] at heq
  · intro heq
    rw [heq, List.take_of_length_le (by omega)]
  · rw [List.prefix_take_iff]
    simp only [List.length_append, List.length_singleton]
    exact ⟨And.left, fun hp => ⟨hp, by omega⟩⟩

/-- A read of the command line succeeds if there is an `argv[0]`. -/
theorem readProcCmdline_any (file : Option Bytes) {arg : CString}
    (h : arg.bytes.length ≤ 510) :
    (readProcCmdline file 512).1.any (processNameMatch arg) = true ↔
      ∃ name, argv0 file = some name ∧ NameMatches arg name := by
  rcases file with _ | _ | ⟨b, bs⟩
  · simp [readProcCmdline, argv0]
  · simp [readProcCmdline, argv0]
  · have hbuf : (CString.ofBuf ((b :: bs).take 511)).bytes = (cstr (b :: bs)).take 511 :=
      cstr_take _ _
    have hmatch := processNameMatch_iff arg (CString.ofBuf ((b :: bs).take 511))
    rw [hbuf, nameMatches_take (by omega)] at hmatch
    simp only [readProcCmdline, argv0]
    rw [if_neg (by simp)]
    simpa using hmatch

theorem readProcComm_any (file : Option CommFile) (arg : CString) :
    (readProcComm file 256).1.any (processNameMatch arg) = true ↔
      ∃ name, commLine file = some name ∧ NameMatches arg name := by
  cases file with
  | none => simp [readProcComm, commLine]
  | some f =>
    simp only [readProcComm, commLine]
    cases hline : fgets f.contents 256 with
    | none =>
      rw [if_pos ((fgets_eq_none_iff (by omega)).mp hline)]
      simp
    | some line =>
      have hne : f.contents ≠ [] := fun h0 => by
        rw [(fgets_eq_none_iff (by omega)).mpr h0] at hline
        cases hline
      have hbytes := chomp_fgets hline
      rw [List.take_of_length_le f.line_le] at hbytes
      rw [if_neg hne]
      simpa [← hbytes] using processNameMatch_iff arg (CString.ofBuf line).chomp

/-! ## One scan -/

/-- What a scan over `es` returns and does to `*pid`. -/
def ScanResult (arg : CString) (pid : Int) (es : List ProcEntry) (ret pid' : Int) : Prop :=
  (ret = -1 ∧ pid' = pid ∧ ∀ e ∈ es, ∀ w, ¬ e.Match arg w) ∨
    (ret = 0 ∧ FirstMatch arg es pid')

theorem scanResult_head {arg : CString} {pid v : Int} {e : ProcEntry} (es : List ProcEntry)
    (h : e.Match arg v) : ScanResult arg pid (e :: es) 0 v :=
  Or.inr ⟨rfl, [], e, es, rfl, h, by simp⟩

/-- An entry that does not match is passed over. -/
theorem scanResult_cons {arg : CString} {pid ret pid' : Int} {e : ProcEntry}
    {es : List ProcEntry} (he : ∀ w, ¬ e.Match arg w) (h : ScanResult arg pid es ret pid') :
    ScanResult arg pid (e :: es) ret pid' := by
  rcases h with ⟨hret, hpid, hnone⟩ | ⟨hret, pre, x, post, rfl, hx, hpre⟩
  · exact Or.inl ⟨hret, hpid, List.forall_mem_cons.mpr ⟨he, hnone⟩⟩
  · exact Or.inr ⟨hret, e :: pre, x, post, rfl, hx, List.forall_mem_cons.mpr ⟨he, hpre⟩⟩

/-- The entries are tried in their order, `argv[0]` before `comm`. -/
theorem scanEntries_result {arg : CString} (h : arg.bytes.length ≤ 510) (pid : Int)
    (es : List ProcEntry) :
    ScanResult arg pid es (scanEntries arg pid es).ret (scanEntries arg pid es).pid := by
  induction es with
  | nil => exact Or.inl ⟨rfl, rfl, by simp⟩
  | cons de es ih =>
    rw [scanEntries]
    cases hpid : pidOf de.name with
    | none =>
      have hno := (pidOf_eq_none_iff de.name).mp hpid
      exact scanResult_cons (fun w hw => hno w hw.1) ih
    | some v =>
      have hv : IsPid de.name v := (pidOf_eq_some_iff de.name v).mp hpid
      have hcmd := readProcCmdline_any de.cmdline h
      have hcomm := readProcComm_any de.comm arg
      simp only
      split
      · rename_i htrue
        exact scanResult_head es ⟨hv, Or.inl (hcmd.mp htrue)⟩
      rename_i hfalse
      split
      · rename_i htrue
        exact scanResult_head es ⟨hv, Or.inr (hcomm.mp htrue)⟩
      rename_i hfalse'
      refine scanResult_cons (fun w hw => ?_) ih
      rcases hw.2 with hname | hname
      · exact hfalse (hcmd.mpr hname)
      · exact hfalse' (hcomm.mpr hname)

theorem balanced_readProcCmdline (file : Option Bytes) (n : Nat) :
    Balanced (readProcCmdline file n).2 := by
  cases file with
  | none => exact balanced_nil
  | some contents =>
    simp only [readProcCmdline]
    split
    · exact balanced_file
    · exact balanced_file

theorem balanced_readProcComm (file : Option CommFile) (n : Nat) :
    Balanced (readProcComm file n).2 := by
  cases file with
  | none => exact balanced_nil
  | some f =>
    simp only [readProcComm]
    split
    · exact balanced_file
    · exact balanced_file

/-- The loop closes the directory wherever it is left. -/
theorem closesDir_scanEntries (arg : CString) (pid : Int) (es : List ProcEntry) :
    ClosesDir (scanEntries arg pid es).ops := by
  induction es with
  | nil => exact closesDir_closedir
  | cons de es ih =>
    have hcmd := balanced_readProcCmdline de.cmdline 512
    have hboth := balanced_append hcmd (balanced_readProcComm de.comm 256)
    rw [scanEntries]
    cases pidOf de.name with
    | none => exact ih
    | some v =>
      simp only
      split
      · exact closesDir_append hcmd closesDir_closedir
      split
      · exact closesDir_append hboth closesDir_closedir
      · exact closesDir_append hboth ih

/-- Every path of a scan closes what it opened. -/
theorem balanced_findPidByName (arg : CString) (pid : Int) (view : ProcView) :
    Balanced (findPidByName arg pid view).ops := by
  cases view with
  | none => exact balanced_nil
  | some es => exact closesDir_scanEntries arg pid es

/-- **A scan.** It fails, and leaves `*pid` as it was, exactly when it sees no
match; otherwise `*pid` is the first match. -/
theorem findPidByName_spec {arg : CString} (h : arg.bytes.length ≤ 510) (pid : Int)
    (view : ProcView) :
    ((findPidByName arg pid view).ret = -1 ∧ (findPidByName arg pid view).pid = pid ∧
        NoMatch arg view) ∨
      ((findPidByName arg pid view).ret = 0 ∧
        ∃ es, view = some es ∧ FirstMatch arg es (findPidByName arg pid view).pid) := by
  cases view with
  | none => exact Or.inl ⟨rfl, rfl, by simp [NoMatch]⟩
  | some es =>
    rcases scanEntries_result h pid es with ⟨hret, hpid, hnone⟩ | ⟨hret, hfirst⟩
    · refine Or.inl ⟨hret, hpid, fun es' heq => ?_⟩
      obtain rfl := Option.some.inj heq
      exact hnone
    · exact Or.inr ⟨hret, es, rfl, hfirst⟩

/-- The two outcomes exclude each other. -/
theorem not_noMatch_of_firstMatch {arg : CString} {es : List ProcEntry} {v : Int}
    (h : FirstMatch arg es v) : ¬ NoMatch arg (some es) := by
  obtain ⟨pre, e, post, rfl, he, -⟩ := h
  exact fun hnone => hnone _ rfl e (by simp) v he

/-- There is one first match. -/
theorem firstMatch_unique {arg : CString} {es : List ProcEntry} {v w : Int}
    (hv : FirstMatch arg es v) (hw : FirstMatch arg es w) : v = w := by
  induction es with
  | nil =>
    obtain ⟨pre, e, post, h, -⟩ := hv
    simp at h
  | cons x es ih =>
    obtain ⟨pre, e, post, hes, he, hpre⟩ := hv
    obtain ⟨pre', e', post', hes', he', hpre'⟩ := hw
    cases pre with
    | nil =>
      obtain ⟨rfl, rfl⟩ := List.cons.inj hes
      cases pre' with
      | nil =>
        obtain ⟨rfl, rfl⟩ := List.cons.inj hes'
        exact isPid_unique he.1 he'.1
      | cons y pre' =>
        obtain ⟨rfl, -⟩ := List.cons.inj hes'
        exact absurd he (hpre' x (by simp) v)
    | cons y pre =>
      obtain ⟨rfl, hrest⟩ := List.cons.inj hes
      cases pre' with
      | nil =>
        obtain ⟨rfl, rfl⟩ := List.cons.inj hes'
        exact absurd he' (hpre x (by simp) w)
      | cons z pre' =>
        obtain ⟨rfl, hrest'⟩ := List.cons.inj hes'
        exact ih ⟨pre, e, post, hrest, he, fun y hy => hpre y (by simp [hy])⟩
          ⟨pre', e', post', hrest', he', fun y hy => hpre' y (by simp [hy])⟩

/-! ## The wait -/

theorem exiting_mono {signal : Option Nat} {i j : Nat} (hij : i ≤ j)
    (h : exiting signal i = true) : exiting signal j = true := by
  cases signal with
  | none => cases h
  | some k =>
    simp only [exiting, Option.any_some, decide_eq_true_eq] at h ⊢
    omega

/-- The process `v` is the first match of the first scan with a match, and no
signal has been seen up to the test behind that scan. -/
def WaitsFor (arg : CString) (signal : Option Nat) (views : List ProcView) (test : Nat)
    (v : Int) : Prop :=
  ∃ pre es post, views = pre ++ some es :: post ∧ (∀ view ∈ pre, NoMatch arg view) ∧
    FirstMatch arg es v ∧ exiting signal (test + pre.length + 1) = false

section Wait

variable {arg : CString} {signal : Option Nat} {views : List ProcView} {test : Nat} {v : Int}

/-- A signal that is seen before the first scan is seen behind every scan. -/
theorem not_waitsFor_of_exiting (hsig : exiting signal test = true) :
    ¬ WaitsFor arg signal views test v := by
  rintro ⟨pre, es, post, -, -, -, hexit⟩
  rw [exiting_mono (by omega) hsig] at hexit
  cases hexit

theorem waitsFor_cons_of_noMatch {view : ProcView} (hnone : NoMatch arg view) :
    WaitsFor arg signal (view :: views) test v ↔ WaitsFor arg signal views (test + 1) v := by
  constructor
  · rintro ⟨pre, es, post, hviews, hpre, hfirst, hexit⟩
    cases pre with
    | nil =>
      obtain ⟨rfl, -⟩ := List.cons.inj hviews
      exact absurd hnone (not_noMatch_of_firstMatch hfirst)
    | cons x pre =>
      obtain ⟨rfl, rfl⟩ := List.cons.inj hviews
      refine ⟨pre, es, post, rfl, (List.forall_mem_cons.mp hpre).2, hfirst, ?_⟩
      rwa [List.length_cons, ← Nat.add_assoc, Nat.add_right_comm test] at hexit
  · rintro ⟨pre, es, post, rfl, hpre, hfirst, hexit⟩
    refine ⟨view :: pre, es, post, rfl, List.forall_mem_cons.mpr ⟨hnone, hpre⟩, hfirst, ?_⟩
    rwa [List.length_cons, ← Nat.add_assoc, Nat.add_right_comm test]

theorem waitsFor_cons_of_firstMatch {es : List ProcEntry} {w : Int} (hfirst : FirstMatch arg es w) :
    WaitsFor arg signal (some es :: views) test v ↔ w = v ∧ exiting signal (test + 1) = false := by
  constructor
  · rintro ⟨pre, es', post, hviews, hpre, hfirst', hexit⟩
    cases pre with
    | nil =>
      obtain ⟨heq, -⟩ := List.cons.inj hviews
      obtain rfl := Option.some.inj heq
      exact ⟨firstMatch_unique hfirst hfirst', hexit⟩
    | cons x pre =>
      obtain ⟨rfl, -⟩ := List.cons.inj hviews
      exact absurd (hpre (some es) (by simp)) (not_noMatch_of_firstMatch hfirst)
  · rintro ⟨rfl, hexit⟩
    exact ⟨[], es, views, rfl, by simp, hfirst, hexit⟩

end Wait

/-- The loop is left with a process and without a signal exactly when it has
waited for that process. -/
theorem waitLoop_iff {arg : CString} (h : arg.bytes.length ≤ 510) (signal : Option Nat)
    (views : List ProcView) (test : Nat) (pid v : Int) :
    (∃ t, (waitLoop arg signal views test pid).1 = some (v, t) ∧ exiting signal t = false) ↔
      WaitsFor arg signal views test v := by
  induction views generalizing test pid with
  | nil =>
    rw [waitLoop]
    constructor
    · rintro ⟨t, ht, hexit⟩
      split at ht
      · rename_i hsig
        obtain ⟨-, rfl⟩ := Prod.mk.inj (Option.some.inj ht)
        rw [exiting_mono (Nat.le_succ test) hsig] at hexit
        cases hexit
      · cases ht
    · rintro ⟨pre, es, post, hviews, -⟩
      simp at hviews
  | cons view views ih =>
    rw [waitLoop]
    split
    · rename_i hsig
      refine iff_of_false ?_ (not_waitsFor_of_exiting hsig)
      rintro ⟨t, ht, hexit⟩
      obtain ⟨-, rfl⟩ := Prod.mk.inj (Option.some.inj ht)
      rw [exiting_mono (Nat.le_succ test) hsig] at hexit
      cases hexit
    simp only
    rcases findPidByName_spec h pid view with ⟨hret, hpid, hnone⟩ | ⟨hret, es, rfl, hfirst⟩
    · -- no match: the next scan starts with the same `target_pid`
      rw [if_neg (by omega), hpid, ih, waitsFor_cons_of_noMatch hnone]
    · rw [if_pos hret, waitsFor_cons_of_firstMatch hfirst]
      constructor
      · rintro ⟨t, ht, hexit⟩
        obtain ⟨hv, rfl⟩ := Prod.mk.inj (Option.some.inj ht)
        exact ⟨hv, hexit⟩
      · rintro ⟨hv, hexit⟩
        exact ⟨test + 1, by rw [hv], hexit⟩

theorem balanced_waitLoop (arg : CString) (signal : Option Nat) (views : List ProcView)
    (test : Nat) (pid : Int) : Balanced (waitLoop arg signal views test pid).2 := by
  induction views generalizing test pid with
  | nil =>
    rw [waitLoop]
    split
    · exact balanced_nil
    · exact balanced_nil
  | cons view views ih =>
    have hscan := balanced_findPidByName arg pid view
    rw [waitLoop]
    split
    · exact balanced_nil
    simp only
    split
    · exact hscan
    · exact balanced_append hscan (ih _ _)

theorem balanced_selectTarget (arg : CString) (signal : Option Nat) (views : List ProcView) :
    Balanced (selectTarget arg signal views).2 := by
  simp only [selectTarget]
  split
  · exact balanced_nil
  have hwait := balanced_waitLoop arg signal views 0 (parsePid arg 0).2
  split
  · exact hwait
  split
  · exact hwait
  · exact hwait

theorem pos_of_firstMatch {arg : CString} {es : List ProcEntry} {v : Int}
    (h : FirstMatch arg es v) : 1 ≤ v ∧ v ≤ 2 ^ 31 - 1 := by
  obtain ⟨pre, e, post, -, he, -⟩ := h
  exact he.1.2

/-- **The selection.** The target is the process id the argument is a numeral
of, or else the process the loop has waited for. -/
theorem selectTarget_eq_target_iff {arg : CString} (h : arg.bytes.length ≤ 510)
    (signal : Option Nat) (views : List ProcView) (v : Int) :
    (selectTarget arg signal views).1 = .target v ↔
      IsPid arg v ∨ ((∀ w, ¬ IsPid arg w) ∧ WaitsFor arg signal views 0 v) := by
  cases hpid : pidOf arg with
  | some p =>
    have hp : IsPid arg p := (pidOf_eq_some_iff arg p).mp hpid
    have hparse : parsePid arg 0 = (0, p) := by rw [parsePid, hpid]
    simp only [selectTarget, hparse, if_true, Selection.target.injEq]
    constructor
    · rintro rfl
      exact Or.inl hp
    · rintro (hv | ⟨hno, -⟩)
      · exact isPid_unique hp hv
      · exact absurd hp (hno p)
  | none =>
    have hno := (pidOf_eq_none_iff arg).mp hpid
    have hparse : parsePid arg 0 = (-1, 0) := by rw [parsePid, hpid]
    simp only [selectTarget, hparse]
    rw [if_neg (by simp)]
    have hwait := waitLoop_iff h signal views 0 0
    constructor
    · intro hsel
      split at hsel
      · cases hsel
      rename_i p t hleft
      split at hsel
      · cases hsel
      rename_i htest
      simp only [Bool.or_eq_true, decide_eq_true_eq, not_or, Bool.not_eq_true] at htest
      obtain rfl := Selection.target.inj hsel
      exact Or.inr ⟨hno, (hwait p).mp ⟨t, hleft, htest.1⟩⟩
    · rintro (hv | ⟨-, hw⟩)
      · exact absurd hv (hno v)
      obtain ⟨t, hleft, hexit⟩ := (hwait v).mpr hw
      obtain ⟨pre, es, post, -, -, hfirst, -⟩ := hw
      have hpos := pos_of_firstMatch hfirst
      simp only [hleft, hexit]
      rw [if_neg (by simp; omega)]

end LibbpfTools.Strace
