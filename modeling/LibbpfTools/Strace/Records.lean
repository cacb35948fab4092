/-
LibbpfTools.Strace.Records — the lines of the output and the records of the
events.

`handle_event` ends every record with a newline and prints `comm` and a
captured path as they are; nothing in the program escapes a byte. Both are
chosen by the traced process and may have newlines in them. So the lines of
the output are the records of the events as long as no process puts a newline
into its name or into a path it passes, and only then (`records_intact_iff`).
-/
import LibbpfTools.Strace.Line
import LibbpfTools.Strace.StringArgs

namespace LibbpfTools.Strace

open LibbpfTools.Lib

/-! ## Deliveries -/

/-- An event as the ring buffer delivers it: large enough, and with strings that
end. -/
structure Delivery where
  event : SyscallEvent
  size : Nat
  size_le : sizeofSyscallEvent ≤ size
  comm_nul : 0 ∈ event.comm.toList
  str_nul : 0 ∈ event.str.toList

/-- The text written for a sequence of deliveries. -/
def stdout (libc : Libc) (ds : List Delivery) : Bytes :=
  ds.flatMap fun d => handleEvent libc d.event d.size

/-- The record of an event: its line without the newline at the end. -/
def record (libc : Libc) (e : SyscallEvent) : Bytes :=
  (handleEvent libc e sizeofSyscallEvent).dropLast

/-- The path that is printed for a call, if it has one. -/
def printedPath (e : SyscallEvent) : Option Bytes :=
  if e.syscallId = Uapi.nrOpenat ∨ e.syscallId = Uapi.nrOpenat2 ∨ e.syscallId = Uapi.nrExecve then
    (argString e).map fun v => cstr v.toList
  else none

/-- The strings the traced process chose have no newline. -/
def OneLine (e : SyscallEvent) : Prop :=
  10 ∉ cstr e.comm.toList ∧ ∀ s, printedPath e = some s → 10 ∉ s

/-- No text of `strerror` has a newline. -/
def Libc.StrerrorOneLine (libc : Libc) : Prop := ∀ err, 10 ∉ libc.strerror err

/-- The lines of the output are the records of the events, in order. -/
structure RecordsIntact (libc : Libc) (ds : List Delivery) : Prop where
  count : (stdout libc ds).count 10 = ds.length
  split : (stdout libc ds).splitOn 10 = ds.map (fun d => record libc d.event) ++ [[]]

/-! ## Where a newline can come from -/

theorem newline_not_number : ¬ IsNumberByte 10 := by decide

theorem newline_not_mem_futexOpName (op : BitVec 64) : 10 ∉ futexOpName op :=
  futexOpName_of_forall (P := fun name => 10 ∉ name) (by decide) (by decide) op

theorem newline_not_mem_formatOpenatFlags (flags : BitVec 64) :
    10 ∉ formatOpenatFlags flags 256 := by
  rw [formatOpenatFlags_eq]
  exact not_mem_flagText (by decide) flags

theorem newline_not_mem_formatSockaddr (libc : Libc) (e : SyscallEvent) :
    10 ∉ formatSockaddr libc e 192 := by
  have hnum : ∀ n, 10 ∉ numeral 10 n := not_mem_numeral newline_not_number (by omega) (by omega)
  have h4 : 10 ∉ libc.ntop4 e.saAddr4 := fun h => absurd (libc.ntop4_bytes _ _ h) (by decide)
  have h6 : 10 ∉ libc.ntop6 e.saAddr6 := fun h => absurd (libc.ntop6_bytes _ _ h) (by decide)
  apply formatSockaddr_of_texts (P := fun text => 10 ∉ text)
  · decide
  · simp only [inetText, List.mem_append, not_or]
    exact ⟨by decide, hnum _, by decide, h4, by decide⟩
  · simp only [inet6Text, List.mem_append, not_or]
    exact ⟨by decide, hnum _, by decide, h6, by decide, hnum _, by decide⟩
  · simp only [familyText, List.mem_append, not_or]
    exact ⟨by decide, hnum _, by decide⟩

/-- The format has no newline, and of its arguments only the path may have. -/
structure NewlineOnlyInPath (e : SyscallEvent) (f : String × List Arg) : Prop where
  lit : .lit 10 ∉ parseFormat f.1.toList
  str : ∀ s, .str s ∈ f.2 → 10 ∈ s → printedPath e = some s

theorem newlineOnlyInPath_of {e : SyscallEvent} {fmt : String} {args : List Arg}
    (hlit : .lit 10 ∉ parseFormat fmt.toList)
    (hstr : ∀ s, .str s ∈ args → 10 ∈ s → printedPath e = some s) :
    NewlineOnlyInPath e (fmt, args) := ⟨hlit, hstr⟩

theorem printedPath_eq {e : SyscallEvent} {v : Vector UInt8 256}
    (hid : e.syscallId = Uapi.nrOpenat ∨ e.syscallId = Uapi.nrOpenat2 ∨
      e.syscallId = Uapi.nrExecve) (hs : argString e = some v) :
    printedPath e = some (cstr v.toList) := by
  rw [printedPath, if_pos hid, hs]
  rfl

theorem newlineOnlyInPath_callFormat (libc : Libc) (e : SyscallEvent) :
    NewlineOnlyInPath e (callFormat libc e (printedName e.syscallId)) := by
  have hname : 10 ∉ printedName e.syscallId := not_mem_printedName (by decide) _
  unfold callFormat
  split
  · exact newlineOnlyInPath_of (by decide +kernel) (by simp [hname])
  split
  · exact newlineOnlyInPath_of (by decide +kernel) (by simp [hname])
  split
  · exact newlineOnlyInPath_of (by decide +kernel) (by simp [hname, newline_not_mem_futexOpName])
  split
  · rename_i hid
    split
    · rename_i v hs
      have hpath := printedPath_eq (Or.inl hid) hs
      exact newlineOnlyInPath_of (by decide +kernel)
        (by simp [hname, hpath, newline_not_mem_formatOpenatFlags])
    · exact newlineOnlyInPath_of (by decide +kernel)
        (by simp [hname, newline_not_mem_formatOpenatFlags])
  split
  · rename_i hid
    split
    · rename_i v hs
      have hpath := printedPath_eq (Or.inr (Or.inl hid)) hs
      exact newlineOnlyInPath_of (by decide +kernel) (by simp [hname, hpath])
    · exact newlineOnlyInPath_of (by decide +kernel) (by simp [hname])
  split
  · rename_i hid
    split
    · rename_i v hs
      have hpath := printedPath_eq (Or.inr (Or.inr hid)) hs
      exact newlineOnlyInPath_of (by decide +kernel) (by simp [hname, hpath])
    · exact newlineOnlyInPath_of (by decide +kernel) (by simp [hname])
  split
  · have haddr := newline_not_mem_formatSockaddr libc e
    split
    · exact newlineOnlyInPath_of (by decide +kernel) (by simp [hname, haddr])
    · exact newlineOnlyInPath_of (by decide +kernel) (by simp [hname, haddr])
  split
  · exact newlineOnlyInPath_of (by decide +kernel) (by simp [hname])
  · exact newlineOnlyInPath_of (by decide +kernel) (by simp [hname])

theorem mem_shownPath {e : SyscallEvent} {s : Bytes} (h : printedPath e = some s) (hs : 10 ∈ s)
    (ptr : BitVec 64) : 10 ∈ shownPath e ptr := by
  unfold printedPath at h
  split at h
  · obtain ⟨v, hv, rfl⟩ := Option.map_eq_some_iff.mp h
    rw [shownPath, hv]
    exact List.mem_append_right _ (List.mem_append_left _ hs)
  · cases h

theorem newline_mem_callText_iff (libc : Libc) (e : SyscallEvent) :
    10 ∈ callText libc e ↔ ∃ s, printedPath e = some s ∧ 10 ∈ s := by
  constructor
  · intro h
    have hformat := newlineOnlyInPath_callFormat libc e
    rw [callText_eq] at h
    rcases mem_joinPieces newline_not_number h with hlit | ⟨s, hs, hmem⟩
    · exact absurd hlit hformat.lit
    · exact ⟨s, hformat.str s hs hmem, hmem⟩
  · intro h
    obtain ⟨s, hpath, hs⟩ := h
    have hshown := mem_shownPath hpath hs
    unfold printedPath at hpath
    split at hpath
    · rename_i hid
      rcases hid with hid | hid | hid
      · rw [callText_openat hid]
        simp [openatText, hshown]
      · rw [callText_openat2 hid]
        simp [openat2Text, hshown]
      · rw [callText_execve hid]
        simp [execveText, hshown]
    · cases hpath

theorem newline_not_mem_errnoName (err : BitVec 32) : 10 ∉ errnoName err :=
  errnoName_of_forall (P := fun name => 10 ∉ name) (by decide) (by decide) err

theorem newline_not_mem_retText {libc : Libc} (hline : libc.StrerrorOneLine) (ret : BitVec 64) :
    10 ∉ retText libc ret := by
  unfold retText
  split
  · intro h
    refine not_mem_format newline_not_number (by decide) ?_ ((snprintf_isPrefix _ _ _).subset h)
    intro s hs
    simp only [List.mem_cons, Arg.str.injEq, List.not_mem_nil, or_false] at hs
    rcases hs with rfl | rfl
    · exact newline_not_mem_errnoName _
    · exact hline _
  · intro h
    exact not_mem_format newline_not_number (by decide) (by simp)
      ((snprintf_isPrefix _ _ _).subset h)

/-! ## Records -/

theorem record_eq (libc : Libc) (e : SyscallEvent) : record libc e
    = recordText e.tgid e.pid (middleText (cstr (e.comm.toList ++ e.str.toList))
        (callText libc e) (retText libc e.ret)) e.syscallId := by
  rw [record, handleEvent_eq libc (le_refl _), List.dropLast_concat]

/-- Every delivery writes its record and a newline. -/
theorem stdout_eq (libc : Libc) (ds : List Delivery) :
    stdout libc ds = unlines (ds.map fun d => record libc d.event) := by
  rw [stdout, unlines, List.flatMap_map]
  congr 1
  funext d
  rw [handleEvent_eq libc d.size_le, ← record_eq]

theorem newline_mem_recordText_iff {tgid pid id : BitVec 32} {middle : Bytes} :
    10 ∈ recordText tgid pid middle id ↔ 10 ∈ middle := by
  have hnum : ∀ v : Int, 10 ∉ signed v := not_mem_signed newline_not_number
  have hlits : 10 ∉ ascii "pid=" ∧ 10 ∉ ascii " tid=" ∧ 10 ∉ ascii " comm=" ∧
      10 ∉ ascii " [id=" ∧ 10 ∉ ascii "]" := by decide
  simp [recordText, hnum, hlits]

theorem newline_mem_middleText_iff {comm call ret : Bytes} :
    10 ∈ middleText comm call ret ↔ 10 ∈ comm ∨ 10 ∈ call ∨ 10 ∈ ret := by
  have hlit : 10 ∉ ascii " = " := by decide
  simp [middleText, hlit]

/-- A record is one line exactly if its event's strings are. -/
theorem newline_not_mem_record_iff {libc : Libc} (hline : libc.StrerrorOneLine) (d : Delivery) :
    10 ∉ record libc d.event ↔ OneLine d.event := by
  have hret := newline_not_mem_retText hline d.event.ret
  rw [record_eq, newline_mem_recordText_iff, newline_mem_middleText_iff,
    cstr_append_of_mem d.comm_nul, newline_mem_callText_iff]
  constructor
  · intro h
    refine ⟨fun hcomm => h (Or.inl hcomm), fun s hpath hs => ?_⟩
    exact h (Or.inr (Or.inl ⟨s, hpath, hs⟩))
  · rintro ⟨hcomm, hpath⟩ (h | ⟨s, hs, hmem⟩ | h)
    · exact hcomm h
    · exact hpath s hs hmem
    · exact hret h

/-- **When the lines of the output are the records of the events.** Exactly if
no event of the sequence has a newline in its `comm` or in the path that is
printed for it. -/
theorem records_intact_iff (libc : Libc) (hline : libc.StrerrorOneLine) (ds : List Delivery) :
    RecordsIntact libc ds ↔ ∀ d ∈ ds, OneLine d.event := by
  have hrecords : (∀ r ∈ ds.map fun d => record libc d.event, 10 ∉ r) ↔
      ∀ d ∈ ds, OneLine d.event := by
    rw [List.forall_mem_map]
    exact forall₂_congr fun d _ => newline_not_mem_record_iff hline d
  constructor
  · intro h
    have hcount := h.count
    rw [stdout_eq, ← List.length_map fun d : Delivery => record libc d.event] at hcount
    exact hrecords.mp (count_unlines_iff.mp hcount)
  · intro h
    have hnone := hrecords.mpr h
    refine ⟨?_, ?_⟩
    · rw [stdout_eq, count_unlines_iff.mpr hnone, List.length_map]
    · rw [stdout_eq, splitOn_unlines hnone]

/-! ## A path that forges a record -/

/-- An `execve` of the given path, by a shell. -/
def execveEvent (path : Bytes) : SyscallEvent where
  tgid := 10
  pid := 11
  syscallId := 221
  ret := 0
  args := #v[0x5000, 0, 0, 0, 0, 0]
  comm := strWrite (Vector.replicate 16 0) (ascii "sh")
  str := strWrite (Vector.replicate 256 0) path
  strLen := BitVec.ofNat 32 (path.length + 1)
  saFamily := 0
  saPort := 0
  saAddr4 := 0
  saAddr6 := Vector.replicate 16 0
  saScopeId := 0
  saValid := 0

def execveDelivery (path : Bytes) (h : path.length < 256) : Delivery where
  event := execveEvent path
  size := 384
  size_le := by decide
  comm_nul := nul_mem_strWrite _ (by decide)
  str_nul := nul_mem_strWrite _ h

theorem records_intact_iff_execve : RecordsIntact .english
    [execveDelivery (ascii "/bin/ls") (by decide), execveDelivery (ascii "/bin/id") (by decide)] :=
  (records_intact_iff .english
    (not_mem_english_strerror newline_not_number (by decide)) _).mpr (by
      have hls : printedPath (execveEvent (ascii "/bin/ls")) = some (ascii "/bin/ls") := by
        decide +kernel
      have hid : printedPath (execveEvent (ascii "/bin/id")) = some (ascii "/bin/id") := by
        decide +kernel
      rw [List.forall_mem_cons, List.forall_mem_singleton]
      refine ⟨⟨by decide +kernel, fun s hs => ?_⟩, ⟨by decide +kernel, fun s hs => ?_⟩⟩
      · obtain rfl := Option.some.inj (hls.symm.trans hs)
        decide
      · obtain rfl := Option.some.inj (hid.symm.trans hs)
        decide)

/-- A path made of the end of its own record and the start of another. -/
def forgingPath : Bytes :=
  ascii "/x\", argv=0, envp=0) = 0 [id=221]\npid=1 tid=1 comm=init execve(filename=\"/y"

def forgery : Delivery := execveDelivery forgingPath (by decide)

/-- One `execve`, and the output has two records, the second of a process that
did nothing. -/
theorem path_forges_record :
    stdout .plain [forgery]
        = ascii "pid=10 tid=11 comm=sh execve(filename=\"/x\", argv=0, envp=0) = 0 [id=221]\n" ++
          ascii "pid=1 tid=1 comm=init execve(filename=\"/y\", argv=0, envp=0) = 0 [id=221]\n" ∧
      ¬ ∀ ds, RecordsIntact .plain ds := by
  have htext : stdout .plain [forgery]
      = ascii "pid=10 tid=11 comm=sh execve(filename=\"/x\", argv=0, envp=0) = 0 [id=221]\n" ++
        ascii "pid=1 tid=1 comm=init execve(filename=\"/y\", argv=0, envp=0) = 0 [id=221]\n" := by
    decide +kernel
  refine ⟨htext, fun h => ?_⟩
  have hcount := (h [forgery]).count
  rw [htext] at hcount
  exact absurd hcount (by decide +kernel)

end LibbpfTools.Strace
