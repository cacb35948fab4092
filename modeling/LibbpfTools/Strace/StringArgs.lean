/-
LibbpfTools.Strace.StringArgs — the path a call is printed with is the string
the caller passed.

The string goes through an array and a length: the BPF side stores it with
its NUL and puts the number of bytes into `str_len`, where 0 says that there
is none; the formatter prints the array up to its NUL if `str_len` is between
1 and 256, and the pointer otherwise. Which calls have a string, and in which
argument, is written down on both sides. `string_shown_faithfully` is the two
sides together, for every system call number.

For the other calls no quoted path appears. That needs an argument for the
calls with a socket address, whose text has quotes of its own: what stands
before them is not a path (`key_suffix`).
-/
import LibbpfTools.Strace.CallText

namespace LibbpfTools.Strace

open LibbpfTools.Lib LibbpfTools.Bpf

/-! ## The specification -/

/-- The pointer argument that is a string. -/
def StringArgument (ctx : SysEnter) (p : BitVec 64) : Prop :=
  (ctx.nr.setWidth 32 = nrOpenat ∧ p = ctx.regs[1]!) ∨
    (ctx.nr.setWidth 32 = nrOpenat2 ∧ p = ctx.regs[1]!) ∨
    (ctx.nr.setWidth 32 = nrExecve ∧ p = ctx.regs[0]!)

/-- The string at `p`, cut to 255 bytes; none for a null pointer or a string
that cannot be read. -/
def userString (mem : UserMem) (p : BitVec 64) : Option Bytes :=
  if p = 0 then none else bpfProbeReadUserStr mem 256 p

/-- The text shows a quoted path. -/
def ShowsString (text : Bytes) : Prop :=
  ascii "pathname=\"" <:+: text ∨ ascii "filename=\"" <:+: text

def quoted (s : Bytes) : Bytes := ascii "\"" ++ (s ++ ascii "\"")

/-- The string in quotes, or the pointer. -/
def shownString (mem : UserMem) (p : BitVec 64) : Bytes :=
  match userString mem p with
  | some s => quoted s
  | none => altHex p

def openatText (dfd : BitVec 64) (path : Bytes) (flags mode : BitVec 64) : Bytes :=
  ascii "openat(dfd=" ++ (signed dfd.toInt ++ (ascii ", pathname=" ++ (path ++
    (ascii ", flags=" ++ (flagText flags ++ (ascii ", mode=" ++ (altOct mode ++ ascii ")")))))))

def openat2Text (dfd : BitVec 64) (path : Bytes) (how size : BitVec 64) : Bytes :=
  ascii "openat2(dfd=" ++ (signed dfd.toInt ++ (ascii ", pathname=" ++ (path ++
    (ascii ", how=" ++ (altHex how ++ (ascii ", size=" ++ (numeral 10 size.toNat ++ ascii ")")))))))

def execveText (path : Bytes) (argv envp : BitVec 64) : Bytes :=
  ascii "execve(filename=" ++ (path ++ (ascii ", argv=" ++ (altHex argv ++
    (ascii ", envp=" ++ (altHex envp ++ ascii ")")))))

/-! ## What is stored -/

/-- The pointer the capture settles on. -/
def capturedPtr (ctx : SysEnter) : BitVec 64 :=
  if ctx.nr.setWidth 32 = nrOpenat ∨ ctx.nr.setWidth 32 = nrOpenat2 then ctx.regs[1]!
  else if ctx.nr.setWidth 32 = nrExecve then ctx.regs[0]!
  else 0

theorem StringArgument.capturedPtr_eq {ctx : SysEnter} {p : BitVec 64}
    (h : StringArgument ctx p) : capturedPtr ctx = p := by
  rcases h with ⟨hnr, rfl⟩ | ⟨hnr, rfl⟩ | ⟨hnr, rfl⟩ <;>
    simp [capturedPtr, hnr, nrOpenat, nrOpenat2, nrExecve]

/-- The string fields of the event of a call. -/
theorem fillEvent_string (id ret : BitVec 64) (ctx : SysEnter) :
    (fillEvent id ret (enterStateOf ctx)).str =
        ((userString ctx.mem (capturedPtr ctx)).map (strWrite (Vector.replicate 256 0))).getD
          (Vector.replicate 256 0) ∧
      (fillEvent id ret (enterStateOf ctx)).strLen =
        ((userString ctx.mem (capturedPtr ctx)).map fun s => BitVec.ofNat 32 (s.length + 1)).getD
          0 := by
  simp only [fillEvent, enterStateOf, args_eta]
  rw [maybeCaptureSockaddr_frame]
  simp only [EnterState.withSa, maybeCaptureString]
  rw [show stringPtr { EnterState.zero with
    syscallId := ctx.nr.setWidth 32, args := ctx.regs, comm := ctx.comm }
      = capturedPtr ctx from rfl]
  unfold userString
  split
  · exact ⟨rfl, rfl⟩
  · cases bpfProbeReadUserStr ctx.mem 256 (capturedPtr ctx) <;> exact ⟨rfl, rfl⟩

theorem length_userString_le {mem : UserMem} {p : BitVec 64} {s : Bytes}
    (h : userString mem p = some s) : s.length ≤ 255 ∧ 0 ∉ s := by
  unfold userString at h
  split at h
  · cases h
  · exact ⟨length_bpfProbeReadUserStr h, nul_not_mem_bpfProbeReadUserStr h⟩

/-- What the formatter finds: the string in its array, or null. -/
theorem argString_captured (id ret : BitVec 64) (ctx : SysEnter) :
    argString (fillEvent id ret (enterStateOf ctx))
      = (userString ctx.mem (capturedPtr ctx)).map (strWrite (Vector.replicate 256 0)) := by
  obtain ⟨hstr, hlen⟩ := fillEvent_string id ret ctx
  rw [argString, hstr, hlen]
  cases h : userString ctx.mem (capturedPtr ctx) with
  | none => simp
  | some s =>
    obtain ⟨hle, -⟩ := length_userString_le h
    have hval : (BitVec.ofNat 32 (s.length + 1)).toNat = s.length + 1 := by
      rw [BitVec.toNat_ofNat]
      omega
    refine if_pos ⟨?_, ?_⟩
    · rw [Option.map_some, Option.getD_some, BitVec.lt_def, hval]
      exact Nat.succ_pos _
    · rw [Option.map_some, Option.getD_some, BitVec.le_def, hval]
      show s.length + 1 ≤ 256
      omega

/-! ## The three texts -/

theorem format_openat_quoted (dfd flags mode : BitVec 64) (s : Bytes) :
    format "%s(dfd=%lld, pathname=\"%s\", flags=%s, mode=%#llo)"
        [.str (ascii "openat"), .longLong dfd, .str s, .str (flagText flags), .longLong mode]
      = openatText dfd (quoted s) flags mode := by
  simp only [openatText, quoted, List.append_assoc]
  rfl

theorem format_openat_pointer (dfd ptr flags mode : BitVec 64) :
    format "%s(dfd=%lld, pathname=%#llx, flags=%s, mode=%#llo)"
        [.str (ascii "openat"), .longLong dfd, .longLong ptr, .str (flagText flags),
         .longLong mode]
      = openatText dfd (altHex ptr) flags mode := rfl

theorem format_openat2_quoted (dfd how size : BitVec 64) (s : Bytes) :
    format "%s(dfd=%lld, pathname=\"%s\", how=%#llx, size=%llu)"
        [.str (ascii "openat2"), .longLong dfd, .str s, .longLong how, .longLong size]
      = openat2Text dfd (quoted s) how size := by
  simp only [openat2Text, quoted, List.append_assoc]
  rfl

theorem format_openat2_pointer (dfd ptr how size : BitVec 64) :
    format "%s(dfd=%lld, pathname=%#llx, how=%#llx, size=%llu)"
        [.str (ascii "openat2"), .longLong dfd, .longLong ptr, .longLong how, .longLong size]
      = openat2Text dfd (altHex ptr) how size := rfl

theorem format_execve_quoted (argv envp : BitVec 64) (s : Bytes) :
    format "%s(filename=\"%s\", argv=%#llx, envp=%#llx)"
        [.str (ascii "execve"), .str s, .longLong argv, .longLong envp]
      = execveText (quoted s) argv envp := by
  simp only [execveText, quoted, List.append_assoc]
  rfl

theorem format_execve_pointer (ptr argv envp : BitVec 64) :
    format "%s(filename=%#llx, argv=%#llx, envp=%#llx)"
        [.str (ascii "execve"), .longLong ptr, .longLong argv, .longLong envp]
      = execveText (altHex ptr) argv envp := rfl

/-- The path as the formatter shows it, from the event. -/
def shownPath (e : SyscallEvent) (ptr : BitVec 64) : Bytes :=
  match argString e with
  | some v => quoted (cstr v.toList)
  | none => altHex ptr

section Texts

variable {libc : Libc} {e : SyscallEvent}

theorem callText_openat (hid : e.syscallId = Uapi.nrOpenat) :
    callText libc e = openatText e.args[0]! (shownPath e e.args[1]!) e.args[2]! e.args[3]! := by
  have hname : printedName Uapi.nrOpenat = ascii "openat" := by decide +kernel
  rw [callText_eq, shownPath]
  simp +decide only [callFormat, hid, hname, formatOpenatFlags_eq, if_true, if_false]
  cases argString e with
  | none => exact format_openat_pointer _ _ _ _
  | some v => exact format_openat_quoted _ _ _ _

theorem callText_openat2 (hid : e.syscallId = Uapi.nrOpenat2) :
    callText libc e = openat2Text e.args[0]! (shownPath e e.args[1]!) e.args[2]! e.args[3]! := by
  have hname : printedName Uapi.nrOpenat2 = ascii "openat2" := by decide +kernel
  rw [callText_eq, shownPath]
  simp +decide only [callFormat, hid, hname, if_true, if_false]
  cases argString e with
  | none => exact format_openat2_pointer _ _ _ _
  | some v => exact format_openat2_quoted _ _ _ _

theorem callText_execve (hid : e.syscallId = Uapi.nrExecve) :
    callText libc e = execveText (shownPath e e.args[0]!) e.args[1]! e.args[2]! := by
  have hname : printedName Uapi.nrExecve = ascii "execve" := by decide +kernel
  rw [callText_eq, shownPath]
  simp +decide only [callFormat, hid, hname, if_true, if_false]
  cases argString e with
  | none => exact format_execve_pointer _ _ _
  | some v => exact format_execve_quoted _ _ _

end Texts

/-! ## Quotes -/

theorem quote_not_number : ¬ IsNumberByte 34 := by decide

/-- A text without quotes shows no string. -/
theorem not_showsString_of_not_mem {text : Bytes} (h : 34 ∉ text) : ¬ ShowsString text := by
  rintro (hkey | hkey)
  · exact h (hkey.subset (by decide))
  · exact h (hkey.subset (by decide))

theorem not_showsString_of_isPrefix {text whole : Bytes} (hpre : text <+: whole)
    (h : ¬ ShowsString whole) : ¬ ShowsString text := by
  rintro (hkey | hkey)
  · exact h (Or.inl (hkey.trans hpre.isInfix))
  · exact h (Or.inr (hkey.trans hpre.isInfix))

/-- In a text with two quotes, what stands before a quote ends the text before
the first or the text between them. -/
theorem key_suffix {key x y z : Bytes} (hkey : 34 ∉ key) (hx : 34 ∉ x) (hy : 34 ∉ y)
    (hz : 34 ∉ z) (h : key ++ [34] <:+: x ++ 34 :: (y ++ 34 :: z)) : key <:+ x ∨ key <:+ y := by
  obtain ⟨pre, post, heq⟩ := h
  have heq : pre ++ key ++ 34 :: post = x ++ 34 :: (y ++ 34 :: z) := by simpa using heq
  by_cases hpre : 34 ∈ pre
  · obtain ⟨p, q, rfl, hp⟩ := List.eq_append_cons_of_mem hpre
    have heq : p ++ 34 :: (q ++ key ++ 34 :: post) = x ++ 34 :: (y ++ 34 :: z) := by
      simpa using heq
    obtain ⟨-, hrest⟩ := append_cons_inj hp hx heq
    by_cases hq : 34 ∈ q
    · obtain ⟨p', q', rfl, hp'⟩ := List.eq_append_cons_of_mem hq
      have hrest : p' ++ 34 :: (q' ++ key ++ 34 :: post) = y ++ 34 :: z := by
        simpa using hrest
      obtain ⟨-, rfl⟩ := append_cons_inj hp' hy hrest
      exact absurd (by simp) hz
    · obtain ⟨rfl, -⟩ := append_cons_inj (by simp [hq, hkey]) hy hrest
      exact Or.inr ⟨q, rfl⟩
  · obtain ⟨rfl, -⟩ := append_cons_inj (by simp [hpre, hkey]) hx heq
    exact Or.inl ⟨pre, rfl⟩

/-- Quotes around an IP address show no string. -/
theorem not_showsString_of_addr {x ip z : Bytes} (hx : 34 ∉ x) (hip : ∀ c ∈ ip, IsAddrByte c)
    (hz : 34 ∉ z) : ¬ ShowsString (x ++ ascii "addr=" ++ 34 :: (ip ++ 34 :: z)) := by
  have hx' : 34 ∉ x ++ ascii "addr=" := by
    simp only [List.mem_append, hx, false_or]
    decide
  have hip' : 34 ∉ ip := fun h => absurd (hip 34 h) (by decide)
  -- neither key ends in `addr=`, and an IP address has no equals sign
  have hnot : ∀ key : Bytes, 34 ∉ key → ¬ ascii "addr=" <:+ key → 61 ∈ key →
      (ascii "addr=").length ≤ key.length →
      ¬ key ++ [34] <:+: x ++ ascii "addr=" ++ 34 :: (ip ++ 34 :: z) := by
    intro key hkey haddr heq hlen h
    rcases key_suffix hkey hx' hip' hz h with h | h
    · exact haddr (List.suffix_of_suffix_length_le (List.suffix_append x _) h hlen)
    · exact absurd (hip 61 (h.subset heq)) (by decide)
  rintro (h | h)
  · exact hnot (ascii "pathname=") (by decide) (by decide) (by decide) (by decide) h
  · exact hnot (ascii "filename=") (by decide) (by decide) (by decide) (by decide) h

theorem quote_not_mem_altHex (v : BitVec 64) : 34 ∉ altHex v := not_mem_altHex quote_not_number v

theorem quote_not_mem_decimal (n : Nat) : 34 ∉ numeral 10 n :=
  not_mem_numeral quote_not_number (by omega) (by omega) n

theorem quote_not_mem_futexOpName (op : BitVec 64) : 34 ∉ futexOpName op :=
  futexOpName_of_forall (P := fun name => 34 ∉ name) (by decide) (by decide) op

/-- No quotes, or quotes around an IP address only. -/
def QuotesAddress (text : Bytes) : Prop :=
  34 ∉ text ∨ ∃ x ip z, 34 ∉ x ∧ (∀ c ∈ ip, IsAddrByte c) ∧ 34 ∉ z ∧
    text = x ++ ascii "addr=" ++ 34 :: (ip ++ 34 :: z)

theorem formatSockaddr_quotes (libc : Libc) (e : SyscallEvent) :
    QuotesAddress (formatSockaddr libc e 192) := by
  apply formatSockaddr_of_texts
  · exact Or.inl (by decide)
  · refine Or.inr ⟨ascii "\x7bsa_family=AF_INET, sin_port=" ++
      (numeral 10 (ntohs e.saPort).toNat ++ ascii ", sin_"), libc.ntop4 e.saAddr4,
      ascii "\x7d", ?_, libc.ntop4_bytes _, by decide, ?_⟩
    · simp only [List.mem_append, not_or]
      exact ⟨by decide, quote_not_mem_decimal _, by decide⟩
    · simp only [inetText, List.append_assoc]
      rfl
  · refine Or.inr ⟨ascii "\x7bsa_family=AF_INET6, sin6_port=" ++
      (numeral 10 (ntohs e.saPort).toNat ++ ascii ", sin6_"), libc.ntop6 e.saAddr6,
      ascii ", sin6_scope_id=" ++ (numeral 10 e.saScopeId.toNat ++ ascii "\x7d"), ?_,
      libc.ntop6_bytes _, ?_, ?_⟩
    · simp only [List.mem_append, not_or]
      exact ⟨by decide, quote_not_mem_decimal _, by decide⟩
    · simp only [List.mem_append, not_or]
      exact ⟨by decide, quote_not_mem_decimal _, by decide⟩
    · simp only [inet6Text, List.append_assoc]
      rfl
  · refine Or.inl ?_
    simp only [familyText, List.mem_append, not_or]
    exact ⟨by decide, quote_not_mem_decimal _, by decide⟩

/-- An address in a text without quotes of its own shows no string. -/
theorem not_showsString_around (libc : Libc) (e : SyscallEvent) {before after : Bytes}
    (hb : 34 ∉ before) (ha : 34 ∉ after) :
    ¬ ShowsString (before ++ (formatSockaddr libc e 192 ++ after)) := by
  rcases formatSockaddr_quotes libc e with h | ⟨x, ip, z, hx, hip, hz, htext⟩
  · exact not_showsString_of_not_mem (by simp [hb, h, ha])
  · have hshift : before ++ (formatSockaddr libc e 192 ++ after)
        = (before ++ x) ++ ascii "addr=" ++ 34 :: (ip ++ 34 :: (z ++ after)) := by
      rw [htext]
      simp only [List.append_assoc, List.cons_append]
    rw [hshift]
    exact not_showsString_of_addr (by simp [hb, hx]) hip (by simp [hz, ha])

/-! ## The other calls -/

theorem format_sendto (name addr : Bytes) (a0 a1 a2 a3 a5 : BitVec 64) :
    format "%s(sockfd=%llu, buf=%#llx, len=%llu, flags=%#llx, dest_addr=%s, addrlen=%llu)"
        [.str name, .longLong a0, .longLong a1, .longLong a2, .longLong a3, .str addr,
         .longLong a5]
      = (name ++ (ascii "(sockfd=" ++ (numeral 10 a0.toNat ++ (ascii ", buf=" ++ (altHex a1 ++
          (ascii ", len=" ++ (numeral 10 a2.toNat ++ (ascii ", flags=" ++ (altHex a3 ++
          ascii ", dest_addr=")))))))))
        ++ (addr ++ (ascii ", addrlen=" ++ (numeral 10 a5.toNat ++ ascii ")"))) := by
  simp only [List.append_assoc]
  rfl

theorem format_connect (name addr : Bytes) (a0 a2 : BitVec 64) :
    format "%s(sockfd=%llu, addr=%s, addrlen=%llu)"
        [.str name, .longLong a0, .str addr, .longLong a2]
      = (name ++ (ascii "(sockfd=" ++ (numeral 10 a0.toNat ++ ascii ", addr=")))
        ++ (addr ++ (ascii ", addrlen=" ++ (numeral 10 a2.toNat ++ ascii ")"))) := by
  simp only [List.append_assoc]
  rfl

/-- A text whose format and whose `%s` arguments have no quotes shows no string. -/
theorem not_showsString_snprintf {sz : Nat} {fmt : String} {args : List Arg}
    (hlit : .lit 34 ∉ parseFormat fmt.toList) (hstr : ∀ s, .str s ∈ args → 34 ∉ s) :
    ¬ ShowsString (snprintf sz (fmt, args).1 (fmt, args).2) :=
  not_showsString_of_isPrefix (snprintf_isPrefix sz fmt args)
    (not_showsString_of_not_mem (not_mem_format quote_not_number hlit hstr))

theorem not_showsString_other (libc : Libc) {e : SyscallEvent}
    (h1 : e.syscallId ≠ Uapi.nrOpenat) (h2 : e.syscallId ≠ Uapi.nrOpenat2)
    (h3 : e.syscallId ≠ Uapi.nrExecve) : ¬ ShowsString (callText libc e) := by
  have hname : 34 ∉ printedName e.syscallId := not_mem_printedName (by decide) _
  unfold callText formatSyscallArgs callFormat
  split
  · exact not_showsString_snprintf (by decide) (by simp [hname])
  split
  · exact not_showsString_snprintf (by decide) (by simp [hname])
  split
  · exact not_showsString_snprintf (by decide) (by simp [hname, quote_not_mem_futexOpName])
  -- the branches with a string are excluded
  split
  · split
    · refine not_showsString_of_isPrefix (snprintf_isPrefix _ _ _) ?_
      rw [format_sendto]
      refine not_showsString_around libc e ?_ ?_
      · simp only [List.mem_append, not_or]
        exact ⟨hname, by decide, quote_not_mem_decimal _, by decide, quote_not_mem_altHex _,
          by decide, quote_not_mem_decimal _, by decide, quote_not_mem_altHex _, by decide⟩
      · simp only [List.mem_append, not_or]
        exact ⟨by decide, quote_not_mem_decimal _, by decide⟩
    · refine not_showsString_of_isPrefix (snprintf_isPrefix _ _ _) ?_
      rw [format_connect]
      refine not_showsString_around libc e ?_ ?_
      · simp only [List.mem_append, not_or]
        exact ⟨hname, by decide, quote_not_mem_decimal _, by decide⟩
      · simp only [List.mem_append, not_or]
        exact ⟨by decide, quote_not_mem_decimal _, by decide⟩
  split
  · exact not_showsString_snprintf (by decide) (by simp [hname])
  · exact not_showsString_snprintf (by decide) (by simp [hname])

/-! ## Both sides together -/

theorem shownPath_captured (id ret : BitVec 64) {ctx : SysEnter} {p : BitVec 64}
    (h : StringArgument ctx p) :
    shownPath (fillEvent id ret (enterStateOf ctx)) p = shownString ctx.mem p := by
  rw [shownPath, shownString, argString_captured, h.capturedPtr_eq]
  cases hs : userString ctx.mem p with
  | none => rfl
  | some s =>
    obtain ⟨hlen, h0⟩ := length_userString_le hs
    simp only [Option.map_some]
    rw [cstr_strWrite _ (by omega) h0]

/-- A text with the path in it shows a string if and only if the path is quoted. -/
theorem showsString_iff_of_eq {text before after : Bytes} {mem : UserMem} {p : BitVec 64}
    {key : Bytes} (hkey : key = ascii "pathname=" ∨ key = ascii "filename=")
    (htext : text = before ++ (key ++ (shownString mem p ++ after)))
    (hb : 34 ∉ before) (ha : 34 ∉ after) :
    ShowsString text ↔ (userString mem p).isSome := by
  rw [htext, shownString]
  cases userString mem p with
  | none =>
    refine iff_of_false (not_showsString_of_not_mem ?_) (by simp)
    have hkey' : 34 ∉ key := by rcases hkey with rfl | rfl <;> decide
    simp [hb, hkey', quote_not_mem_altHex, ha]
  | some s =>
    refine iff_of_true ?_ rfl
    have hinfix : key ++ [34] <:+: before ++ (key ++ (quoted s ++ after)) := by
      refine ⟨before, s ++ (ascii "\"" ++ after), ?_⟩
      simp only [quoted, List.append_assoc]
      rfl
    rcases hkey with rfl | rfl
    · exact Or.inl hinfix
    · exact Or.inr hinfix

/-- The text depends on the string array up to its first NUL only. -/
theorem callText_str (libc : Libc) (e : SyscallEvent) {v : Vector UInt8 256}
    (hv : cstr v.toList = cstr e.str.toList) :
    callText libc { e with str := v } = callText libc e := by
  have harg : (argString { e with str := v }).map (fun v => cstr v.toList)
      = (argString e).map (fun v => cstr v.toList) := by
    unfold argString
    split
    · simp [hv]
    · rfl
  have hpath : ∀ p, shownPath { e with str := v } p = shownPath e p := by
    intro p
    unfold shownPath
    cases h : argString e with
    | none =>
      rw [h, Option.map_none, Option.map_eq_none_iff] at harg
      rw [harg]
    | some w =>
      rw [h, Option.map_some] at harg
      obtain ⟨u, hu, huw⟩ := Option.map_eq_some_iff.mp harg
      rw [hu]
      simp only [huw]
  by_cases h1 : e.syscallId = Uapi.nrOpenat
  · rw [callText_openat (e := { e with str := v }) h1, callText_openat h1, hpath]
  by_cases h2 : e.syscallId = Uapi.nrOpenat2
  · rw [callText_openat2 (e := { e with str := v }) h2, callText_openat2 h2, hpath]
  by_cases h3 : e.syscallId = Uapi.nrExecve
  · rw [callText_execve (e := { e with str := v }) h3, callText_execve h3, hpath]
  -- no other branch looks at the string
  simp only [callText, formatSyscallArgs, callFormat, if_neg h1, if_neg h2, if_neg h3]
  rfl

/-- What capture and text of a call have to do with the caller's string. -/
structure ShowsCallersString (libc : Libc) (ctx : SysEnter) (e : SyscallEvent) : Prop where
  shown_iff : ShowsString (callText libc e) ↔ ∃ p s, StringArgument ctx p ∧ p ≠ 0 ∧
    bpfProbeReadUserStr ctx.mem 256 p = some s
  openat : ctx.nr.setWidth 32 = nrOpenat → callText libc e
    = openatText ctx.regs[0]! (shownString ctx.mem ctx.regs[1]!) ctx.regs[2]! ctx.regs[3]!
  openat2 : ctx.nr.setWidth 32 = nrOpenat2 → callText libc e
    = openat2Text ctx.regs[0]! (shownString ctx.mem ctx.regs[1]!) ctx.regs[2]! ctx.regs[3]!
  execve : ctx.nr.setWidth 32 = nrExecve → callText libc e
    = execveText (shownString ctx.mem ctx.regs[0]!) ctx.regs[1]! ctx.regs[2]!
  /-- The string in quotes is the caller's, cut to 255 bytes. -/
  whole : ∀ p s, p ≠ 0 → HoldsString ctx.mem p s →
    shownString ctx.mem p = quoted (s.take 255)
  /-- It is in the array with a NUL behind it, and nothing is read behind that. -/
  terminated : ∀ p s, StringArgument ctx p → userString ctx.mem p = some s →
    ∃ rest, e.str.toList = s ++ 0 :: rest ∧ 0 ∉ s
  unread : ∀ v : Vector UInt8 256, cstr v.toList = cstr e.str.toList →
    callText libc { e with str := v } = callText libc e

theorem userString_isSome_iff {mem : UserMem} {p : BitVec 64} :
    (userString mem p).isSome ↔ p ≠ 0 ∧ ∃ s, bpfProbeReadUserStr mem 256 p = some s := by
  unfold userString
  split
  · rename_i h
    simp [h]
  · rename_i h
    rw [Option.isSome_iff_exists]
    exact ⟨fun hs => ⟨h, hs⟩, fun hs => hs.2⟩

theorem showsString_openatText (mem : UserMem) (dfd p flags mode : BitVec 64) :
    ShowsString (openatText dfd (shownString mem p) flags mode) ↔ (userString mem p).isSome := by
  refine showsString_iff_of_eq (Or.inl rfl)
    (show _ = (ascii "openat(dfd=" ++ (signed dfd.toInt ++ ascii ", ")) ++ (_ ++ (_ ++ _)) by
      simp only [openatText, List.append_assoc]; rfl) ?_ ?_
  · simp only [List.mem_append, not_or]
    exact ⟨by decide, not_mem_signed quote_not_number _, by decide⟩
  · simp only [List.mem_append, not_or]
    exact ⟨by decide, not_mem_flagText (by decide) _, by decide, not_mem_altOct quote_not_number _,
      by decide⟩

theorem showsString_openat2Text (mem : UserMem) (dfd p how size : BitVec 64) :
    ShowsString (openat2Text dfd (shownString mem p) how size) ↔ (userString mem p).isSome := by
  refine showsString_iff_of_eq (Or.inl rfl)
    (show _ = (ascii "openat2(dfd=" ++ (signed dfd.toInt ++ ascii ", ")) ++ (_ ++ (_ ++ _)) by
      simp only [openat2Text, List.append_assoc]; rfl) ?_ ?_
  · simp only [List.mem_append, not_or]
    exact ⟨by decide, not_mem_signed quote_not_number _, by decide⟩
  · simp only [List.mem_append, not_or]
    exact ⟨by decide, quote_not_mem_altHex _, by decide, quote_not_mem_decimal _, by decide⟩

theorem showsString_execveText (mem : UserMem) (p argv envp : BitVec 64) :
    ShowsString (execveText (shownString mem p) argv envp) ↔ (userString mem p).isSome := by
  refine showsString_iff_of_eq (Or.inr rfl)
    (show _ = ascii "execve(" ++ (_ ++ (_ ++ _)) from rfl) (by decide) ?_
  simp only [List.mem_append, not_or]
  exact ⟨by decide, quote_not_mem_altHex _, by decide, quote_not_mem_altHex _, by decide⟩

section Captured

variable (libc : Libc) (id ret : BitVec 64) {ctx : SysEnter}

theorem callText_captured_openat (h : ctx.nr.setWidth 32 = nrOpenat) :
    callText libc (fillEvent id ret (enterStateOf ctx))
      = openatText ctx.regs[0]! (shownString ctx.mem ctx.regs[1]!) ctx.regs[2]! ctx.regs[3]! := by
  rw [callText_openat ((syscallId_fillEvent id ret ctx).trans h),
    ← shownPath_captured id ret (Or.inl ⟨h, rfl⟩)]
  simp only [args_fillEvent]

theorem callText_captured_openat2 (h : ctx.nr.setWidth 32 = nrOpenat2) :
    callText libc (fillEvent id ret (enterStateOf ctx))
      = openat2Text ctx.regs[0]! (shownString ctx.mem ctx.regs[1]!) ctx.regs[2]! ctx.regs[3]! := by
  rw [callText_openat2 ((syscallId_fillEvent id ret ctx).trans h),
    ← shownPath_captured id ret (Or.inr (Or.inl ⟨h, rfl⟩))]
  simp only [args_fillEvent]

theorem callText_captured_execve (h : ctx.nr.setWidth 32 = nrExecve) :
    callText libc (fillEvent id ret (enterStateOf ctx))
      = execveText (shownString ctx.mem ctx.regs[0]!) ctx.regs[1]! ctx.regs[2]! := by
  rw [callText_execve ((syscallId_fillEvent id ret ctx).trans h),
    ← shownPath_captured id ret (Or.inr (Or.inr ⟨h, rfl⟩))]
  simp only [args_fillEvent]

/-- The text of a call with a string argument shows a string if there is one. -/
theorem showsString_captured_iff {p : BitVec 64} (h : StringArgument ctx p) :
    ShowsString (callText libc (fillEvent id ret (enterStateOf ctx)))
      ↔ (userString ctx.mem p).isSome := by
  rcases h with ⟨h, rfl⟩ | ⟨h, rfl⟩ | ⟨h, rfl⟩
  · rw [callText_captured_openat libc id ret h, showsString_openatText]
  · rw [callText_captured_openat2 libc id ret h, showsString_openat2Text]
  · rw [callText_captured_execve libc id ret h, showsString_execveText]

theorem not_showsString_of_no_argument (h : ∀ p, ¬ StringArgument ctx p) :
    ¬ ShowsString (callText libc (fillEvent id ret (enterStateOf ctx))) := by
  refine not_showsString_other libc ?_ ?_ ?_ <;> rw [syscallId_fillEvent]
  · exact fun hnr => h _ (Or.inl ⟨hnr, rfl⟩)
  · exact fun hnr => h _ (Or.inr (Or.inl ⟨hnr, rfl⟩))
  · exact fun hnr => h _ (Or.inr (Or.inr ⟨hnr, rfl⟩))

end Captured

/-- **The path a call is printed with is the string the caller passed.** For
every system call number, every six arguments and every memory. -/
theorem string_shown_faithfully (libc : Libc) (id ret : BitVec 64) (ctx : SysEnter) :
    ShowsCallersString libc ctx (fillEvent id ret (enterStateOf ctx)) := by
  refine ⟨⟨fun h => ?_, ?_⟩, callText_captured_openat libc id ret,
    callText_captured_openat2 libc id ret, callText_captured_execve libc id ret, ?_, ?_, ?_⟩
  · by_cases hex : ∃ p, StringArgument ctx p
    · obtain ⟨p, hp⟩ := hex
      have hsome := (showsString_captured_iff libc id ret hp).mp h
      obtain ⟨hnull, s, hs⟩ := userString_isSome_iff.mp hsome
      exact ⟨p, s, hp, hnull, hs⟩
    · exact absurd h (not_showsString_of_no_argument libc id ret (not_exists.mp hex))
  · intro h
    obtain ⟨p, s, hp, hnull, hs⟩ := h
    exact (showsString_captured_iff libc id ret hp).mpr (userString_isSome_iff.mpr ⟨hnull, s, hs⟩)
  · intro p s hp hs
    rw [shownString, userString, if_neg hp, bpfProbeReadUserStr_holdsString hs]
  · intro p s hp hs
    obtain ⟨hlen, h0⟩ := length_userString_le hs
    rw [(fillEvent_string id ret ctx).1, hp.capturedPtr_eq, hs]
    exact ⟨_, toList_strWrite _ (by omega), h0⟩
  · intro v hv
    exact callText_str libc _ hv

end LibbpfTools.Strace
