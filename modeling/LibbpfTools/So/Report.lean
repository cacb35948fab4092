/-
LibbpfTools.So.Report — what `libbpfso.c` prints, and what can be read back
from it.

`main` prints one line before its loop. Behind it every event becomes one
line,

    dlopen_ext called by pid 1234 (NAME), filename: PATH

with a NAME and a PATH that the process chooses; neither is quoted. So the
output of a run is the start line and the lines of its calls in the order of
their reserves (`dlopen_report`), but a line with `), filename: ` in it can be
cut in more than one place. A name has at most 15 bytes and the separator has 13, which
leaves few names that can be mistaken: those of at most two bytes, behind
which a longer name may hide, and those that have the separator in them
(`read_back_iff`).
-/
import LibbpfTools.Lib.Printf
import LibbpfTools.So.Dlopen

namespace LibbpfTools.So

open LibbpfTools.Lib LibbpfTools.Lib.Lts LibbpfTools.Bpf

/-- What `handle_event` writes to standard output. -/
def handleEvent (e : Event) : Bytes :=
  -- `comm` and `filename` are adjacent, so a comm without a NUL runs on
  format "dlopen_ext called by pid %d (%s), filename: %s\n"
    [.int e.pid, .str (cstr (e.comm.toList ++ e.filename.toList)),
     .str (cstr e.filename.toList)]

def libdlPath : Bytes := ascii "/system/lib64/libdl.so"

/-- What `main` writes to standard output before its loop. -/
def startMessage : Bytes :=
  format "Started uprobe on %s:android_dlopen_ext, Ctrl+C to exit\n" [.str libdlPath]

/-- What the tool has written to standard output, from its loop on. -/
def State.stdout (s : State) : Bytes := startMessage ++ s.ring.taken.flatMap handleEvent

/-! ## The line of a call -/

/-- The text between name and path. -/
def separator : Bytes := 41 :: ascii ", filename: "

def reportText (pid : BitVec 32) (name path : Bytes) : Bytes :=
  ascii "dlopen_ext called by pid " ++ (signed pid.toInt ++ 32 :: (40 :: (name ++
    (separator ++ path))))

/-- The name of the task. -/
def Call.name (c : Call) : Bytes := cstr c.comm.toList

/-- The path that is shown. -/
def Call.path (c : Call) : Bytes := c.read.getD (ascii "<failed>")

def Call.report (c : Call) : Bytes := reportText c.tgid c.name c.path

theorem read_spec {c : Call} {path : Bytes} (h : c.read = some path) :
    path.length ≤ 255 ∧ 0 ∉ path :=
  ⟨length_bpfProbeReadUserStr h, nul_not_mem_bpfProbeReadUserStr h⟩

/-- Whichever way the array was written, it holds the path that is shown. -/
theorem cstr_filename (c : Call) : cstr c.event.filename.toList = c.path := by
  cases h : c.read with
  | none =>
    have hname : c.event.filename = failedName := by simp [Call.event, h]
    rw [hname, Call.path, h]
    decide +kernel
  | some path =>
    have hname : c.event.filename = strWrite (Vector.replicate 256 0) path := by
      simp [Call.event, h]
    obtain ⟨hlen, h0⟩ := read_spec h
    rw [hname, cstr_strWrite _ (by omega) h0, Call.path, h]
    rfl

theorem handleEvent_event (c : Call) : handleEvent c.event = c.report ++ [10] := by
  have hcomm : cstr (c.event.comm.toList ++ c.event.filename.toList) = c.name :=
    cstr_append_of_mem c.comm_nul _
  rw [handleEvent, hcomm, cstr_filename]
  simp only [Call.report, reportText, separator, List.append_assoc, List.cons_append]
  rfl

/-- Of a path that is in memory, the first 255 bytes are shown. -/
theorem path_of_holdsString {c : Call} {path : Bytes} (h : HoldsString c.mem c.filename path) :
    c.path = path.take 255 := by
  rw [Call.path, Call.read, bpfProbeReadUserStr_holdsString h]
  rfl

/-! ## The output of a run -/

/-- The strings the process chose have no newline. -/
def Call.OneLine (c : Call) : Prop := 10 ∉ c.name ∧ 10 ∉ c.path

theorem newline_not_mem_report_iff (c : Call) : 10 ∉ c.report ↔ c.OneLine := by
  have hnum : ∀ v : Int, 10 ∉ signed v := not_mem_signed (by decide)
  have hlits : 10 ∉ ascii "dlopen_ext called by pid " ∧ 10 ∉ separator := by decide
  simp [Call.report, reportText, Call.OneLine, hnum, hlits]

def startLine : Bytes :=
  ascii "Started uprobe on /system/lib64/libdl.so:android_dlopen_ext, Ctrl+C to exit"

theorem startMessage_eq : startMessage = startLine ++ [10] := by decide +kernel

theorem newline_not_mem_startLine : 10 ∉ startLine := by decide +kernel

/-- What was printed for the calls `printed`. -/
structure Reported (s : State) (printed : List Call) : Prop where
  /-- The start line, and one line for each of them. -/
  stdout : s.stdout = unlines (startLine :: printed.map Call.report)
  /-- The lines can be counted if no name and no path has a newline, and only
  then. -/
  count : s.stdout.count 10 = 1 + printed.length ↔ ∀ c ∈ printed, c.OneLine
  /-- A path that is in memory is shown up to its 255th byte. -/
  path : ∀ c ∈ printed, ∀ path, HoldsString c.mem c.filename path → c.path = path.take 255

/-- **The output of `libbpfso` is the lines of the calls.** In every run, what
has been printed behind the start line is the lines of the first calls that
got a record. -/
theorem dlopen_report (acts : List Action) (s : State)
    (hrun : run step State.init acts = some s) :
    ∃ printed, printed <+: ordered acts ∧ Reported s printed := by
  have hinv := inv_run hrun
  obtain ⟨events, hevents, -⟩ := hinv.fulfils.exists_rest
  obtain ⟨printed, rest, hord, htaken, -⟩ := List.map_eq_append_iff.mp hevents
  have hlines : s.ring.taken.flatMap handleEvent = unlines (printed.map Call.report) := by
    rw [← htaken, unlines, List.flatMap_map, List.flatMap_map]
    congr 1
    funext c
    exact handleEvent_event c
  have hstdout : s.stdout = unlines (startLine :: printed.map Call.report) := by
    rw [State.stdout, hlines, startMessage_eq, unlines_cons]
    simp
  have hlen : 1 + printed.length = (startLine :: printed.map Call.report).length := by
    rw [List.length_cons, List.length_map, Nat.add_comm]
  refine ⟨printed, ⟨rest, hord.symm⟩, hstdout, ?_, fun c _ path h => path_of_holdsString h⟩
  rw [hstdout, hlen, count_unlines_iff, List.forall_mem_cons, List.forall_mem_map]
  refine (and_iff_right newline_not_mem_startLine).trans ?_
  exact forall₂_congr fun c _ => newline_not_mem_report_iff c

theorem dlopen_report_twoLoads :
    ∃ s, run step State.init twoLoads = some s ∧
      s.stdout = ascii ("Started uprobe on /system/lib64/libdl.so:android_dlopen_ext, " ++
        "Ctrl+C to exit\ndlopen_ext called by pid 42 (zygote), filename: /a.so\n" ++
        "dlopen_ext called by pid 43 (app), filename: <failed>\n") ∧
      ∃ printed, printed <+: ordered twoLoads ∧ Reported s printed := by
  have htext : (run step State.init twoLoads).map State.stdout
      = some (ascii ("Started uprobe on /system/lib64/libdl.so:android_dlopen_ext, " ++
        "Ctrl+C to exit\ndlopen_ext called by pid 42 (zygote), filename: /a.so\n" ++
        "dlopen_ext called by pid 43 (app), filename: <failed>\n")) := by decide +kernel
  obtain ⟨s, hs, htext⟩ := Option.map_eq_some_iff.mp htext
  exact ⟨s, hs, htext, dlopen_report twoLoads s hs⟩

/-! ## Reading a line back -/

/-- The line of a call whose task has this name is no line of another call.
The path is the one that was captured: its first 255 bytes, or `<failed>`. -/
def ReadBack (name : Bytes) : Prop :=
  ∀ c c' : Call, c.name = name → handleEvent c.event = handleEvent c'.event →
    c.tgid = c'.tgid ∧ c.name = c'.name ∧ c.path = c'.path

theorem length_name_le (c : Call) : c.name.length ≤ 15 :=
  Nat.le_of_lt_succ (length_cstr_lt c.comm_nul)

theorem length_separator : separator.length = 13 := by decide

theorem paren_not_mem_separator : 41 ∉ ascii ", filename: " := by decide

/-- The number can be told from what follows it. -/
theorem reportText_injective {pid pid' : BitVec 32} {name name' path path' : Bytes}
    (h : reportText pid name path = reportText pid' name' path') :
    pid = pid' ∧ name ++ (separator ++ path) = name' ++ (separator ++ path') := by
  have hspace : ∀ v : Int, 32 ∉ signed v := not_mem_signed (by decide)
  obtain ⟨hpid, h⟩ := append_cons_inj (hspace _) (hspace _) (List.append_cancel_left h)
  exact ⟨BitVec.eq_of_toInt_eq (signed_injective hpid), (List.cons.inj h).2⟩

theorem readBack_of {name : Bytes} (hlen : 3 ≤ name.length) (hsep : ¬ separator <:+: name) :
    ReadBack name := by
  rintro c c' rfl h
  rw [handleEvent_event, handleEvent_event] at h
  obtain ⟨hpid, h⟩ := reportText_injective (List.append_cancel_right h)
  rcases append_sep_cases paren_not_mem_separator h with
    ⟨hname, hpath⟩ | ⟨x, hx, -⟩ | ⟨x, hx, -⟩
  · exact ⟨hpid, hname, hpath⟩
  · -- a name that goes on behind this one and a separator has too many bytes
    have hlong : c'.name.length = c.name.length + (13 + x.length) := by
      rw [show c'.name = c.name ++ (separator ++ x) from hx, List.length_append,
        List.length_append, length_separator]
    have := length_name_le c'
    omega
  · exact absurd ⟨c'.name, x, by rw [hx, separator]; simp⟩ hsep

/-- A call with a given name and path. -/
def callWith (name path : Bytes) (hname : name.length ≤ 15) : Call where
  id := 0
  comm := strWrite (Vector.replicate 16 0) name
  comm_nul := nul_mem_strWrite _ (by omega)
  filename := 1
  mem := memOf ([0] ++ (path ++ 0 :: []))

theorem name_callWith {name : Bytes} (path : Bytes) (hname : name.length ≤ 15) (h0 : 0 ∉ name) :
    (callWith name path hname).name = name :=
  cstr_strWrite _ (by omega) h0

theorem path_callWith {name path : Bytes} (hname : name.length ≤ 15) (hpath : path.length ≤ 255)
    (h0 : 0 ∉ path) : (callWith name path hname).path = path := by
  have hmem : HoldsString (callWith name path hname).mem (callWith name path hname).filename path :=
    holdsString_memOf [0] [] h0 (by simp only [List.length_singleton]; omega)
  rw [path_of_holdsString hmem, List.take_of_length_le hpath]

/-- Two calls that give one line: the name of one ends where the other's has
a separator. -/
theorem not_readBack_of_longer {name x : Bytes} (h : (name ++ (separator ++ x)).length ≤ 15)
    (h0 : 0 ∉ name) (hx0 : 0 ∉ x) :
    ¬ ReadBack name ∧ ¬ ReadBack (name ++ (separator ++ x)) := by
  have hsep0 : 0 ∉ separator := by decide
  have hlen : name.length + (13 + x.length) ≤ 15 := by
    rwa [List.length_append, List.length_append, length_separator] at h
  have hlong0 : 0 ∉ name ++ (separator ++ x) := by simp [h0, hsep0, hx0]
  have hpath0 : 0 ∉ x ++ (separator ++ ascii "p") := by
    have : 0 ∉ ascii "p" := by decide
    simp [hx0, hsep0, this]
  have hpathLen : (x ++ (separator ++ ascii "p")).length ≤ 255 := by
    rw [List.length_append, List.length_append, length_separator]
    have : (ascii "p").length = 1 := by decide
    omega
  have hname := name_callWith (x ++ (separator ++ ascii "p")) (by omega) h0
  have hlong := name_callWith (ascii "p") h hlong0
  -- NAME), filename: X), filename: p
  have hline : handleEvent (callWith name (x ++ (separator ++ ascii "p")) (by omega)).event
      = handleEvent (callWith (name ++ (separator ++ x)) (ascii "p") h).event := by
    rw [handleEvent_event, handleEvent_event, Call.report, Call.report, hname, hlong,
      path_callWith _ hpathLen hpath0, path_callWith _ (by decide) (by decide)]
    simp only [reportText, List.append_assoc]
    rfl
  have hne : name ≠ name ++ (separator ++ x) := by
    intro heq
    have := congrArg List.length heq
    rw [List.length_append, List.length_append, length_separator] at this
    omega
  refine ⟨fun hread => hne ?_, fun hread => hne ?_⟩
  · have := (hread _ _ hname hline).2.1
    rwa [hname, hlong] at this
  · have := (hread _ _ hlong hline.symm).2.1
    rw [hname, hlong] at this
    exact this.symm

/-- **Which lines can be read back.** The line of a task can be mistaken for
the line of another call exactly if its name has at most two bytes or has the
separator in it. -/
theorem read_back_iff (name : Bytes) (hlen : name.length ≤ 15) (h0 : 0 ∉ name) :
    ReadBack name ↔ 3 ≤ name.length ∧ ¬ separator <:+: name := by
  refine ⟨fun hread => ⟨?_, ?_⟩, fun h => readBack_of h.1 h.2⟩
  · by_contra hshort
    have hfits : (name ++ (separator ++ [])).length ≤ 15 := by
      rw [List.length_append, List.append_nil, length_separator]
      omega
    exact (not_readBack_of_longer hfits h0 (by simp)).1 hread
  · rintro ⟨p, x, rfl⟩
    rw [List.append_assoc] at hread hlen h0
    simp only [List.mem_append, not_or] at h0
    exact (not_readBack_of_longer hlen h0.1 h0.2.2).2 hread

theorem read_back_iff_zygote :
    ReadBack (ascii "zygote") ∧ ¬ ReadBack (ascii "sh") ∧ ¬ ReadBack (ascii "a), filename: b") :=
  ⟨(read_back_iff (ascii "zygote") (by decide) (by decide)).mpr ⟨by decide, by decide⟩,
    fun h => absurd ((read_back_iff (ascii "sh") (by decide) (by decide)).mp h).1 (by decide),
    fun h => absurd ⟨ascii "a", ascii "b", rfl⟩
      ((read_back_iff (ascii "a), filename: b") (by decide) (by decide)).mp h).2⟩

end LibbpfTools.So
