/-
LibbpfTools.Strace.CallText — the text of a call fits into its buffer.

`format_syscall_args` writes one `snprintf` into 512 bytes, after composing
the flags of an `openat` in 256 bytes and a socket address in 192. Nothing
checks what `snprintf` returns, so that a text that did not fit would lose its
end without a sign. `untruncated` says that none of the three ever does:
a buffer of any larger size would receive the same text.

The properties of the text depend on `callFormat` alone, the format and the
arguments of that one `snprintf`.
-/
import LibbpfTools.Strace.AddressText
import LibbpfTools.Strace.OpenFlags

namespace LibbpfTools.Strace

open LibbpfTools.Lib

/-! ## The default branch -/

/-- The calls that do not take the default branch. -/
def Dedicated (nr : BitVec 32) : Prop :=
  (nr = Uapi.nrRead ∨ nr = Uapi.nrWrite) ∨ nr = Uapi.nrIoctl ∨ nr = Uapi.nrFutex ∨
    nr = Uapi.nrOpenat ∨ nr = Uapi.nrOpenat2 ∨ nr = Uapi.nrExecve ∨
    (nr = Uapi.nrConnect ∨ nr = Uapi.nrBind ∨ nr = Uapi.nrSendto) ∨ nr = Uapi.nrEpollPwait

instance (nr : BitVec 32) : Decidable (Dedicated nr) := inferInstanceAs (Decidable (_ ∨ _))

theorem callFormat_of_not_dedicated (libc : Libc) {e : SyscallEvent}
    (h : ¬ Dedicated e.syscallId) (name : Bytes) :
    callFormat libc e name = ("%s(%#llx, %#llx, %#llx, %#llx, %#llx, %#llx)",
      [.str name, .longLong e.args[0]!, .longLong e.args[1]!, .longLong e.args[2]!,
       .longLong e.args[3]!, .longLong e.args[4]!, .longLong e.args[5]!]) := by
  simp only [Dedicated, not_or] at h
  obtain ⟨⟨h1, h2⟩, h3, h4, h5, h6, h7, ⟨h8, h9, h10⟩, h11⟩ := h
  simp only [callFormat, h1, h2, h3, h4, h5, h6, h7, h8, h9, h10, h11, or_self, if_false]

/-! ## Lengths -/

theorem length_futexOpName_le (op : BitVec 64) : (futexOpName op).length ≤ 21 :=
  futexOpName_of_forall (P := fun name => name.length ≤ 21) (by decide) (by decide) op

theorem length_cstr_le {n : Nat} (v : Vector UInt8 n) : (cstr v.toList).length ≤ n := by
  have := (List.takeWhile_sublist (fun c : UInt8 => decide (c ≠ 0)) (l := v.toList)).length_le
  rwa [Vector.length_toList] at this

theorem length_formatOpenatFlags_le (flags : BitVec 64) :
    (formatOpenatFlags flags 256).length ≤ 108 := by
  rw [formatOpenatFlags_eq]
  exact length_flagText_le flags

theorem length_formatSockaddr_le (libc : Libc) (e : SyscallEvent) :
    (formatSockaddr libc e 192).length ≤ 122 := by
  apply formatSockaddr_of_texts (P := fun text => text.length ≤ 122)
  · decide
  · exact le_trans (length_inetText_le _ (libc.length_ntop4_le _)) (by decide)
  · exact length_inet6Text_le _ (libc.length_ntop6_le _) _
  · exact le_trans (length_familyText_le _) (by decide)

/-- The format and its arguments leave room in 512 bytes, and a parenthesis
closes the format. -/
def Composes (f : String × List Arg) : Prop :=
  (parseFormat f.1.toList).length + widths f.2 < 512 ∧
    (parseFormat f.1.toList).getLast? = some (.lit 41)

theorem composes_of_le {fmt : String} {args : List Arg} (k : Nat)
    (hfmt : (parseFormat fmt.toList).length ≤ k ∧
      (parseFormat fmt.toList).getLast? = some (.lit 41))
    (h : k + widths args < 512) : Composes (fmt, args) :=
  ⟨lt_of_le_of_lt (Nat.add_le_add_right hfmt.1 _) h, hfmt.2⟩

theorem composes_callFormat (libc : Libc) (e : SyscallEvent) :
    Composes (callFormat libc e (printedName e.syscallId)) := by
  have hname := length_printedName_le e.syscallId
  unfold callFormat
  split
  · exact composes_of_le 40 (by decide +kernel) (by simp only [widths, Arg.width]; omega)
  split
  · exact composes_of_le 40 (by decide +kernel) (by simp only [widths, Arg.width]; omega)
  split
  · have hop := length_futexOpName_le e.args[1]!
    exact composes_of_le 70 (by decide +kernel) (by simp only [widths, Arg.width]; omega)
  split
  · -- the longest text: a path of 256 bytes with every flag
    have hflags := length_formatOpenatFlags_le e.args[2]!
    split
    · rename_i s hs
      have hstr := length_cstr_le s
      exact composes_of_le 40 (by decide +kernel) (by simp only [widths, Arg.width]; omega)
    · exact composes_of_le 40 (by decide +kernel) (by simp only [widths, Arg.width]; omega)
  split
  · split
    · rename_i s hs
      have hstr := length_cstr_le s
      exact composes_of_le 40 (by decide +kernel) (by simp only [widths, Arg.width]; omega)
    · exact composes_of_le 40 (by decide +kernel) (by simp only [widths, Arg.width]; omega)
  split
  · split
    · rename_i s hs
      have hstr := length_cstr_le s
      exact composes_of_le 40 (by decide +kernel) (by simp only [widths, Arg.width]; omega)
    · exact composes_of_le 40 (by decide +kernel) (by simp only [widths, Arg.width]; omega)
  split
  · have haddr := length_formatSockaddr_le libc e
    split
    · exact composes_of_le 70 (by decide +kernel) (by simp only [widths, Arg.width]; omega)
    · exact composes_of_le 40 (by decide +kernel) (by simp only [widths, Arg.width]; omega)
  split
  · exact composes_of_le 70 (by decide +kernel) (by simp only [widths, Arg.width]; omega)
  · exact composes_of_le 40 (by decide +kernel) (by simp only [widths, Arg.width]; omega)

/-! ## No text is cut off -/

/-- Which format an address is shown with does not depend on the buffer. -/
theorem exists_formatSockaddr (libc : Libc) (e : SyscallEvent) :
    ∃ fmt args, ∀ sz, formatSockaddr libc e sz = snprintf sz fmt args := by
  by_cases hv : e.saValid = 0
  · exact ⟨_, _, fun sz => if_pos hv⟩
  by_cases h4 : e.saFamily = 2
  · simp only [formatSockaddr, if_neg hv, if_pos h4]
    cases inetNtop (libc.ntop4 e.saAddr4) inetAddrstrlen <;> exact ⟨_, _, fun sz => rfl⟩
  by_cases h6 : e.saFamily = 10
  · simp only [formatSockaddr, if_neg hv, if_neg h4, if_pos h6]
    cases inetNtop (libc.ntop6 e.saAddr6) inet6Addrstrlen <;> exact ⟨_, _, fun sz => rfl⟩
  · simp only [formatSockaddr, if_neg hv, if_neg h4, if_neg h6]
    exact ⟨_, _, fun sz => rfl⟩

theorem enoughFor_sockaddr (libc : Libc) (e : SyscallEvent) :
    EnoughFor 192 (formatSockaddr libc e) := by
  obtain ⟨fmt, args, hfmt⟩ := exists_formatSockaddr libc e
  have hlen := length_formatSockaddr_le libc e
  rw [hfmt, snprintf, List.length_take] at hlen
  rw [funext hfmt]
  exact enoughFor_snprintf (by omega)

theorem enoughFor_flags (flags : BitVec 64) : EnoughFor 256 (formatOpenatFlags flags) := by
  have hlen := length_flagText_le flags
  exact enoughFor_of_eq (by omega) fun sz hsz => formatOpenatFlags_of_lt flags (by omega)

theorem length_callFormat_lt (libc : Libc) (e : SyscallEvent) :
    (format (callFormat libc e (printedName e.syscallId)).1
      (callFormat libc e (printedName e.syscallId)).2).length < 512 :=
  length_format_lt (composes_callFormat libc e).1

/-- The text of a call is its format, complete. -/
theorem callText_eq (libc : Libc) (e : SyscallEvent) :
    callText libc e = format (callFormat libc e (printedName e.syscallId)).1
      (callFormat libc e (printedName e.syscallId)).2 := by
  rw [callText, formatSyscallArgs, snprintf_eq_format (length_callFormat_lt libc e)]

/-- The three buffers are enough, and the text ends as its format does. -/
structure Untruncated (libc : Libc) (e : SyscallEvent) : Prop where
  flags : EnoughFor 256 (formatOpenatFlags e.args[2]!)
  address : EnoughFor 192 (formatSockaddr libc e)
  call : EnoughFor 512 (formatSyscallArgs libc e (printedName e.syscallId))
  closed : (callText libc e).getLast? = some 41

/-- **No rendered call is ever truncated.** For every event: any number, any
arguments, any string in the array, any address. -/
theorem untruncated (libc : Libc) (e : SyscallEvent) : Untruncated libc e where
  flags := enoughFor_flags e.args[2]!
  address := enoughFor_sockaddr libc e
  call := enoughFor_snprintf (length_callFormat_lt libc e)
  closed := by
    rw [callText_eq]
    exact getLast?_joinPieces (composes_callFormat libc e).2 _

end LibbpfTools.Strace
