/-
LibbpfTools.Strace.Line — what can be read back from a printed line.

A line is

    pid=1 tid=2 comm=NAME call(...) = ret [id=3]

with a `comm` that the traced process chooses and that is printed as it is. It
may have spaces, parentheses, equals signs or a whole call in it, so that the
line cannot be read from the left alone. It can be from both ends: pid and tid
from the left, the id after the last bracket, the return value after the last
` = `, the arguments after the last parenthesis before that, the name after
the last space before them; what remains is `comm`. For the calls without a
format of their own that gives back all of the event (`fallback_lossless`).
-/
import LibbpfTools.Strace.CallText
import LibbpfTools.Strace.RetText

namespace LibbpfTools.Strace

open LibbpfTools.Lib

/-! ## The two ends of the line -/

/-- A line around its middle, from `comm` to the return value, and without its
newline. -/
def recordText (tgid pid : BitVec 32) (middle : Bytes) (id : BitVec 32) : Bytes :=
  ascii "pid=" ++ (signed tgid.toInt ++ (ascii " tid=" ++ (signed pid.toInt ++
    (ascii " comm=" ++ (middle ++ (ascii " [id=" ++ (signed id.toInt ++ ascii "]")))))))

/-- The middle of the line of an event. -/
def middleText (comm call ret : Bytes) : Bytes := comm ++ 32 :: (call ++ (ascii " = " ++ ret))

theorem handleEvent_eq (libc : Libc) {e : SyscallEvent} {dataSz : Nat}
    (h : sizeofSyscallEvent ≤ dataSz) : handleEvent libc e dataSz = recordText e.tgid e.pid
      (middleText (cstr (e.comm.toList ++ e.str.toList)) (callText libc e) (retText libc e.ret))
      e.syscallId ++ [10] := by
  rw [handleEvent, if_neg (by omega)]
  simp only [recordText, middleText, List.append_assoc, List.cons_append]
  rfl

/-- Whatever the middle is, the two ends can be told from it. -/
theorem recordText_injective {tgid tgid' pid pid' id id' : BitVec 32} {middle middle' : Bytes}
    (h : recordText tgid pid middle id = recordText tgid' pid' middle' id') :
    tgid = tgid' ∧ pid = pid' ∧ middle = middle' ∧ id = id' := by
  have hspace : ∀ v : Int, 32 ∉ signed v := not_mem_signed (by decide)
  -- from the left, up to the spaces behind the two numbers
  obtain ⟨htgid, h⟩ := append_cons_inj (hspace _) (hspace _) (List.append_cancel_left h)
  obtain ⟨hpid, h⟩ := append_cons_inj (hspace _) (hspace _) (List.append_cancel_left h)
  have h := List.append_cancel_left (show ascii "comm=" ++ _ = ascii "comm=" ++ _ from h)
  -- from the right, back to the last bracket
  have hbracket : ∀ v : Int, 91 ∉ ascii "id=" ++ (signed v ++ ascii "]") := by
    intro v
    simp only [List.mem_append, not_or]
    exact ⟨by decide, not_mem_signed (by decide) v, by decide⟩
  have hshift : ∀ (middle : Bytes) (v : Int),
      middle ++ (ascii " [id=" ++ (signed v ++ ascii "]"))
        = (middle ++ [32]) ++ 91 :: (ascii "id=" ++ (signed v ++ ascii "]")) := by
    intro middle v
    rw [List.append_assoc]
    rfl
  rw [hshift, hshift] at h
  obtain ⟨hmiddle, hid⟩ := append_cons_inj_last (hbracket _) (hbracket _) h
  have hid := List.append_cancel_right (List.append_cancel_left hid)
  exact ⟨BitVec.eq_of_toInt_eq (signed_injective htgid),
    BitVec.eq_of_toInt_eq (signed_injective hpid), List.append_cancel_right hmiddle,
    BitVec.eq_of_toInt_eq (signed_injective hid)⟩

/-! ## The return value -/

/-- No text of `strerror` has an equals sign between spaces. -/
def Libc.StrerrorPlain (libc : Libc) : Prop := ∀ err, ¬ ascii " = " <:+: libc.strerror err

theorem equals_not_mem_errnoName (err : BitVec 32) : 61 ∉ errnoName err :=
  errnoName_of_forall (P := fun name => 61 ∉ name) (by decide) (by decide) err

/-- In what follows its first byte, ` = ` does not occur again. -/
def LastEquals (ret : Bytes) : Prop := ¬ ascii " = " <:+: ascii "= " ++ ret

theorem lastEquals_of_not_infix {ret : Bytes} (h : ¬ ascii " = " <:+: 32 :: ret) :
    LastEquals ret :=
  fun hin => h (infix_cons_of_ne (by decide) hin)

theorem lastEquals_signed (v : Int) : LastEquals (signed v) := by
  refine lastEquals_of_not_infix fun hin => ?_
  have hmem : (61 : UInt8) ∈ 32 :: signed v := hin.subset (by decide)
  rcases List.mem_cons.mp hmem with h | h
  · exact absurd h (by decide)
  · exact not_mem_signed (by decide) v h

/-- The parentheses keep the text of `strerror` from its surroundings, which
have no equals sign. -/
theorem lastEquals_errorText {libc : Libc} (hplain : libc.StrerrorPlain) (err : BitVec 32) :
    LastEquals (errorText libc err) := by
  refine lastEquals_of_not_infix fun hin => ?_
  have hshape : 32 :: errorText libc err = (ascii " -1 " ++ (errnoName err ++ ascii " ")) ++
      40 :: (libc.strerror err ++ 41 :: []) := by
    simp only [errorText, List.append_assoc]
    rfl
  rw [hshape] at hin
  rcases infix_of_append_cons (by decide) hin with hin | hin
  · have hmem := hin.subset (by decide : (61 : UInt8) ∈ ascii " = ")
    simp only [List.mem_append] at hmem
    rcases hmem with h | h | h
    · exact absurd h (by decide)
    · exact equals_not_mem_errnoName err h
    · exact absurd h (by decide)
  · rcases infix_of_append_cons (by decide) hin with hin | hin
    · exact hplain err hin
    · exact absurd hin (by decide)

theorem lastEquals_retText {libc : Libc} (hfit : libc.StrerrorFits) (hplain : libc.StrerrorPlain)
    (ret : BitVec 64) : LastEquals (retText libc ret) := by
  rcases lt_or_ge ret.toInt 0 with hneg | hnonneg
  · rw [retText_of_neg hfit hneg]
    exact lastEquals_errorText hplain _
  · rw [retText_of_nonneg libc hnonneg]
    exact lastEquals_signed _

theorem middleText_split {comm comm' call call' ret ret' : Bytes} (hret : LastEquals ret)
    (hret' : LastEquals ret')
    (h : middleText comm call ret = middleText comm' call' ret') :
    comm ++ 32 :: call = comm' ++ 32 :: call' ∧ ret = ret' := by
  have hshift : ∀ comm call ret : Bytes,
      middleText comm call ret = (comm ++ 32 :: call) ++ 32 :: (ascii "= " ++ ret) := by
    intro comm call ret
    rw [middleText, List.append_assoc]
    rfl
  rw [hshift, hshift] at h
  exact append_sep_inj_last hret hret' h

/-! ## The call -/

/-- The six arguments as the default branch shows them. -/
def rawArgs (args : Vector (BitVec 64) 6) : Bytes :=
  altHex args[0]! ++ (ascii ", " ++ (altHex args[1]! ++ (ascii ", " ++ (altHex args[2]! ++
    (ascii ", " ++ (altHex args[3]! ++ (ascii ", " ++ (altHex args[4]! ++ (ascii ", " ++
      (altHex args[5]! ++ ascii ")"))))))))))

theorem callText_of_not_dedicated (libc : Libc) {e : SyscallEvent}
    (h : ¬ Dedicated e.syscallId) :
    callText libc e = printedName e.syscallId ++ 40 :: rawArgs e.args := by
  rw [callText_eq]
  simp only [callFormat_of_not_dedicated libc h]
  rfl

theorem paren_not_mem_rawArgs (args : Vector (BitVec 64) 6) : 40 ∉ rawArgs args := by
  have hhex : ∀ v, 40 ∉ altHex v := not_mem_altHex (by decide)
  have hcomma : 40 ∉ ascii ", " := by decide
  have hclose : 40 ∉ ascii ")" := by decide
  simp only [rawArgs, List.mem_append, hhex, hcomma, hclose, or_self, not_false_eq_true]

theorem rawArgs_injective {args args' : Vector (BitVec 64) 6} (h : rawArgs args = rawArgs args') :
    args = args' := by
  have hcomma : ∀ v, 44 ∉ altHex v := not_mem_altHex (by decide)
  have hcut : ∀ {v v' : BitVec 64} {r r' : Bytes},
      altHex v ++ (ascii ", " ++ r) = altHex v' ++ (ascii ", " ++ r') → v = v' ∧ r = r' := by
    intro v v' r r' heq
    obtain ⟨hv, hr⟩ := append_cons_inj (hcomma v) (hcomma v') heq
    exact ⟨altHex_injective hv, (List.cons.inj hr).2⟩
  obtain ⟨h0, h⟩ := hcut h
  obtain ⟨h1, h⟩ := hcut h
  obtain ⟨h2, h⟩ := hcut h
  obtain ⟨h3, h⟩ := hcut h
  obtain ⟨h4, h⟩ := hcut h
  have h5 := altHex_injective (List.append_cancel_right h)
  rw [← args_eta args, ← args_eta args', h0, h1, h2, h3, h4, h5]

/-- `comm`, name and arguments, read from the right. -/
theorem call_split {comm comm' : Bytes} {nr nr' : BitVec 32} {args args' : Vector (BitVec 64) 6}
    (h : comm ++ 32 :: (printedName nr ++ 40 :: rawArgs args)
      = comm' ++ 32 :: (printedName nr' ++ 40 :: rawArgs args')) :
    comm = comm' ∧ args = args' := by
  have hspace : ∀ nr, 32 ∉ printedName nr := not_mem_printedName (by decide)
  have hshift : ∀ (comm : Bytes) (nr : BitVec 32) (args : Vector (BitVec 64) 6),
      comm ++ 32 :: (printedName nr ++ 40 :: rawArgs args)
        = (comm ++ 32 :: printedName nr) ++ 40 :: rawArgs args := by
    intro comm nr args
    rw [List.append_assoc, List.cons_append]
  rw [hshift, hshift] at h
  obtain ⟨hfront, hargs⟩ :=
    append_cons_inj_last (paren_not_mem_rawArgs _) (paren_not_mem_rawArgs _) h
  exact ⟨(append_cons_inj_last (hspace _) (hspace _) hfront).1, rawArgs_injective hargs⟩

/-! ## The whole line -/

/-- What two events have in common that print the same line. -/
structure SameEvent (e e' : SyscallEvent) : Prop where
  tgid : e.tgid = e'.tgid
  pid : e.pid = e'.pid
  syscallId : e.syscallId = e'.syscallId
  args : e.args = e'.args
  comm : cstr e.comm.toList = cstr e'.comm.toList
  ret : 0 ≤ e.ret.toInt ∨ 0 ≤ e'.ret.toInt → e.ret = e'.ret

theorem ret_eq_of_retText {libc : Libc} (hfit : libc.StrerrorFits) {ret ret' : BitVec 64}
    (h : retText libc ret = retText libc ret') (hnonneg : 0 ≤ ret.toInt ∨ 0 ≤ ret'.toInt) :
    ret = ret' := by
  by_contra hne
  rcases hnonneg with hret | hret
  · exact retText_distinct hfit hret (Ne.symm hne) h.symm
  · exact retText_distinct hfit hret hne h

/-- **The fallback rendering is lossless.** Two events of calls without a format
of their own that print the same line are the same but for what the line does
not show, whatever bytes their `comm` has. -/
theorem fallback_lossless (libc : Libc) (hfit : libc.StrerrorFits) (hplain : libc.StrerrorPlain)
    {e e' : SyscallEvent} {dataSz dataSz' : Nat} (hsz : sizeofSyscallEvent ≤ dataSz)
    (hsz' : sizeofSyscallEvent ≤ dataSz') (hcomm : 0 ∈ e.comm.toList)
    (hcomm' : 0 ∈ e'.comm.toList) (hded : ¬ Dedicated e.syscallId)
    (hded' : ¬ Dedicated e'.syscallId)
    (h : handleEvent libc e dataSz = handleEvent libc e' dataSz') : SameEvent e e' := by
  rw [handleEvent_eq libc hsz, handleEvent_eq libc hsz', cstr_append_of_mem hcomm,
    cstr_append_of_mem hcomm', callText_of_not_dedicated libc hded,
    callText_of_not_dedicated libc hded'] at h
  obtain ⟨htgid, hpid, hmiddle, hid⟩ := recordText_injective (List.append_cancel_right h)
  obtain ⟨hcall, hret⟩ := middleText_split (lastEquals_retText hfit hplain e.ret)
    (lastEquals_retText hfit hplain e'.ret) hmiddle
  obtain ⟨hcommEq, hargs⟩ := call_split hcall
  exact ⟨htgid, hpid, hid, hargs, hcommEq, ret_eq_of_retText hfit hret⟩

theorem not_mem_english_strerror {c : UInt8} (hnum : ¬ IsNumberByte c)
    (hlit : c ∉ ascii "Operation not permitted" ∧ c ∉ ascii "No such file or directory" ∧
      c ∉ ascii "Unknown error ") (err : BitVec 32) : c ∉ Libc.english.strerror err := by
  show c ∉ (if err = 1 then ascii "Operation not permitted"
    else if err = 2 then ascii "No such file or directory"
    else ascii "Unknown error " ++ signed err.toInt)
  split
  · exact hlit.1
  split
  · exact hlit.2.1
  · rw [List.mem_append, not_or]
    exact ⟨hlit.2.2, not_mem_signed hnum _⟩

theorem english_strerrorPlain : Libc.english.StrerrorPlain := fun err hin =>
  not_mem_english_strerror (c := 61) (by decide) (by decide) err (hin.subset (by decide))

/-- A failed `close` by a process that calls itself `x close(0) = 0`. -/
def closeEvent (strLen : BitVec 32) : SyscallEvent where
  tgid := 10
  pid := 11
  syscallId := 57
  ret := -9
  args := #v[7, 0, 0, 0, 0, 0]
  comm := strWrite (Vector.replicate 16 0) (ascii "x close(0) = 0")
  str := Vector.replicate 256 0
  strLen := strLen
  saFamily := 0
  saPort := 0
  saAddr4 := 0
  saAddr6 := Vector.replicate 16 0
  saScopeId := 0
  saValid := 0

theorem fallback_lossless_close :
    handleEvent .english (closeEvent 0) 384
        = ascii ("pid=10 tid=11 comm=x close(0) = 0 close(0x7, 0, 0, 0, 0, 0)" ++
            " = -1 EBADF (Unknown error 9) [id=57]\n") ∧
      SameEvent (closeEvent 0) (closeEvent 1) :=
  ⟨by decide +kernel,
    fallback_lossless .english english_strerrorFits english_strerrorPlain
      (show sizeofSyscallEvent ≤ 384 by decide) (show sizeofSyscallEvent ≤ 400 by decide)
      (by decide) (by decide) (by decide) (by decide) (by decide +kernel)⟩

end LibbpfTools.Strace
