/-
LibbpfTools.Strace.ArgLabels — which argument stands under which label.

`format_syscall_args` has a format of its own for eleven calls, with a label
for every value. Whether a label has the right value is decided by the
prototypes of the kernel (`prototype`): the parameter of that name has a
position, and the position is the register it is passed in. The formatter's
own choice is read off its formats (`callFields`).

The two agree but for one label: `val3` of `futex` is the sixth parameter and
is printed from the fifth argument (`labels_right_iff`). That is about the
values that are printed from the arguments. `addr` and `dest_addr` are not:
they show the address that was captured, and whether it was captured at the
right argument is settled in `Sockaddr` (`sendto_address_iff`).

`dfd` and `timeout` are parameters of type `int`, of which a register holds 32
bits. They are printed as 64-bit numbers, so that it depends on the upper half
of the register what number is shown (`int_shown_iff`).
-/
import LibbpfTools.Lib.Labels
import LibbpfTools.Strace.CallText
import LibbpfTools.Strace.StringArgs

namespace LibbpfTools.Strace

open LibbpfTools.Lib

/-! ## The prototypes -/

/-- How the value of a parameter is shown. -/
inductive Shown where
  | unsigned
  | hex
  | octal
  | signed
  | futexOp
  | openFlags
  | path
  | address

/-- The text of an argument `v`. A path is what was captured at entry, if
anything was, and an address only that: `v` does not come into it. -/
def Shown.text (libc : Libc) (e : SyscallEvent) (v : BitVec 64) : Shown → Bytes
  | .unsigned => numeral 10 v.toNat
  | .hex => altHex v
  | .octal => altOct v
  | .signed => Lib.signed v.toInt
  | .futexOp => futexOpName v ++ (ascii "(" ++ (altHex v ++ ascii ")"))
  | .openFlags => formatOpenatFlags v 256
  | .path => shownPath e v
  | .address => formatSockaddr libc e 192

/-- A label, with the position of the parameter it names. -/
structure Param where
  label : String
  pos : Nat
  shown : Shown

/-- The parameters that are shown, at the positions `linux/syscalls.h` gives
them. `pathname` is the parameter `filename` there, `timeout/uaddr2` the
parameter `utime`; the parameters of the socket calls have no names there. -/
def prototype (nr : BitVec 32) : List Param :=
  if nr = Uapi.nrRead ∨ nr = Uapi.nrWrite then
    -- (fd, buf, count)
    [⟨"fd", 0, .unsigned⟩, ⟨"buf", 1, .hex⟩, ⟨"count", 2, .unsigned⟩]
  else if nr = Uapi.nrIoctl then
    -- (fd, cmd, arg)
    [⟨"fd", 0, .unsigned⟩, ⟨"cmd", 1, .hex⟩, ⟨"arg", 2, .hex⟩]
  else if nr = Uapi.nrFutex then
    -- (uaddr, op, val, utime, uaddr2, val3)
    [⟨"uaddr", 0, .hex⟩, ⟨"op", 1, .futexOp⟩, ⟨"val", 2, .unsigned⟩,
     ⟨"timeout/uaddr2", 3, .hex⟩, ⟨"val3", 5, .hex⟩]
  else if nr = Uapi.nrOpenat then
    -- (dfd, filename, flags, mode)
    [⟨"dfd", 0, .signed⟩, ⟨"pathname", 1, .path⟩, ⟨"flags", 2, .openFlags⟩, ⟨"mode", 3, .octal⟩]
  else if nr = Uapi.nrOpenat2 then
    -- (dfd, filename, how, size)
    [⟨"dfd", 0, .signed⟩, ⟨"pathname", 1, .path⟩, ⟨"how", 2, .hex⟩, ⟨"size", 3, .unsigned⟩]
  else if nr = Uapi.nrExecve then
    -- (filename, argv, envp)
    [⟨"filename", 0, .path⟩, ⟨"argv", 1, .hex⟩, ⟨"envp", 2, .hex⟩]
  else if nr = Uapi.nrConnect ∨ nr = Uapi.nrBind ∨ nr = Uapi.nrSendto then
    if nr = Uapi.nrSendto then
      -- (int, void *, size_t, unsigned, struct sockaddr *, int)
      [⟨"sockfd", 0, .unsigned⟩, ⟨"buf", 1, .hex⟩, ⟨"len", 2, .unsigned⟩, ⟨"flags", 3, .hex⟩,
       ⟨"dest_addr", 4, .address⟩, ⟨"addrlen", 5, .unsigned⟩]
    else
      -- (int, struct sockaddr *, int)
      [⟨"sockfd", 0, .unsigned⟩, ⟨"addr", 1, .address⟩, ⟨"addrlen", 2, .unsigned⟩]
  else if nr = Uapi.nrEpollPwait then
    -- (epfd, events, maxevents, timeout, sigmask, sigsetsize)
    [⟨"epfd", 0, .unsigned⟩, ⟨"events", 1, .hex⟩, ⟨"maxevents", 2, .unsigned⟩,
     ⟨"timeout", 3, .signed⟩, ⟨"sigmask", 4, .hex⟩, ⟨"sigsetsize", 5, .unsigned⟩]
  else []

/-- Labels with the values of the arguments at the given positions. -/
def fieldsAt (libc : Libc) (e : SyscallEvent) (ps : List Param) : List (Bytes × Bytes) :=
  ps.map fun p => (ascii p.label, p.shown.text libc e e.args[p.pos]!)

/-- What the kernel's prototype says the labels should have. -/
def protoFields (libc : Libc) (e : SyscallEvent) : List (Bytes × Bytes) :=
  fieldsAt libc e (prototype e.syscallId)

/-! ## What is printed -/

/-- The tokens of the text of a call. -/
def callTokens (libc : Libc) (e : SyscallEvent) : List Token :=
  formatTokens (callFormat libc e (printedName e.syscallId)).1
    (callFormat libc e (printedName e.syscallId)).2

/-- The labels that are printed, with their values. -/
def callFields (libc : Libc) (e : SyscallEvent) : List (Bytes × Bytes) :=
  ((parseCall (callTokens libc e)).map Prod.snd).getD []

/-- The positions the formatter takes the values from. -/
def printedParams (nr : BitVec 32) : List Param :=
  if nr = Uapi.nrFutex then
    [⟨"uaddr", 0, .hex⟩, ⟨"op", 1, .futexOp⟩, ⟨"val", 2, .unsigned⟩,
     ⟨"timeout/uaddr2", 3, .hex⟩, ⟨"val3", 4, .hex⟩]
  else prototype nr

section Printed

variable (libc : Libc) (e : SyscallEvent)

/-- What the parser finds in the text of a call with a format of its own. -/
theorem parseCall_of_dedicated (h : Dedicated e.syscallId) : parseCall (callTokens libc e)
    = some (printedName e.syscallId, fieldsAt libc e (printedParams e.syscallId)) := by
  unfold callTokens
  rcases h with (h | h) | h | h | h | h | h | (h | h | h) | h <;>
    simp +decide only [callFormat, printedParams, prototype, h, if_true, if_false]
  case inr.inr.inr.inl | inr.inr.inr.inr.inl | inr.inr.inr.inr.inr.inl =>
    -- `openat`, `openat2` and `execve`: the path is quoted or a pointer
    cases hs : argString e with
    | none =>
      simp only [fieldsAt, List.map_cons, List.map_nil, Shown.text, shownPath, hs]
      rfl
    | some s =>
      simp only [fieldsAt, List.map_cons, List.map_nil, Shown.text, shownPath, hs]
      rfl
  all_goals rfl

theorem parseCall_of_not_dedicated (h : ¬ Dedicated e.syscallId) :
    parseCall (callTokens libc e) = none := by
  simp only [callTokens, callFormat_of_not_dedicated libc h]
  rfl

theorem printedParams_of_not_dedicated {nr : BitVec 32} (h : ¬ Dedicated nr) :
    printedParams nr = [] := by
  simp only [Dedicated, not_or] at h
  obtain ⟨⟨h1, h2⟩, h3, h4, h5, h6, h7, ⟨h8, h9, h10⟩, h11⟩ := h
  simp only [printedParams, prototype, h1, h2, h3, h4, h5, h6, h7, h8, h9, h10, h11, or_self,
    if_false]

theorem callFields_eq : callFields libc e = fieldsAt libc e (printedParams e.syscallId) := by
  by_cases h : Dedicated e.syscallId
  · rw [callFields, parseCall_of_dedicated libc e h]
    rfl
  · rw [callFields, parseCall_of_not_dedicated libc e h, printedParams_of_not_dedicated h]
    rfl

/-- Name, labels and values are the whole text. -/
theorem callText_labelled (h : Dedicated e.syscallId) :
    callText libc e = labelledText (printedName e.syscallId) (callFields libc e) := by
  rw [callText_eq, callFields_eq]
  exact format_of_parseCall (parseCall_of_dedicated libc e h)

end Printed

/-! ## Labels and positions -/

theorem printedParams_of_ne {nr : BitVec 32} (h : nr ≠ Uapi.nrFutex) :
    printedParams nr = prototype nr := if_neg h

/-- The parameters of `futex` whose labels are right. -/
def futexRight : List Param :=
  [⟨"uaddr", 0, .hex⟩, ⟨"op", 1, .futexOp⟩, ⟨"val", 2, .unsigned⟩, ⟨"timeout/uaddr2", 3, .hex⟩]

theorem printedParams_futex :
    printedParams Uapi.nrFutex = futexRight ++ [⟨"val3", 4, .hex⟩] := rfl

theorem prototype_futex : prototype Uapi.nrFutex = futexRight ++ [⟨"val3", 5, .hex⟩] := rfl

section Fields

variable {libc : Libc} {e : SyscallEvent}

theorem callFields_eq_iff : callFields libc e = protoFields libc e ↔
    (e.syscallId = Uapi.nrFutex → e.args[4]! = e.args[5]!) := by
  rw [callFields_eq, protoFields]
  by_cases h : e.syscallId = Uapi.nrFutex
  · rw [h, printedParams_futex, prototype_futex]
    simp only [fieldsAt, List.map_append, List.append_cancel_left_eq]
    constructor
    · intro heq hfutex
      exact altHex_injective (congrArg Prod.snd (List.cons.inj heq).1)
    · intro harg
      simp only [List.map_cons, List.map_nil, harg trivial]
  · rw [printedParams_of_ne h]
    exact ⟨fun _ hfutex => absurd hfutex h, fun _ => rfl⟩

/-- The event with another value for one argument. -/
def SyscallEvent.setArg (e : SyscallEvent) (i : Nat) (v : BitVec 64) : SyscallEvent :=
  { e with args := e.args.set! i v }

theorem getElem!_setArg_ne {i j : Nat} (v : BitVec 64) (h : j ≠ i) :
    (e.setArg i v).args[j]! = e.args[j]! := by
  show (e.args.set! i v)[j]! = e.args[j]!
  by_cases hj : j < 6
  · rw [getElem!_pos (e.args.set! i v) j hj, getElem!_pos e.args j hj,
      Vector.getElem_set!_ne hj (Ne.symm h)]
  · rw [getElem!_neg (e.args.set! i v) j hj, getElem!_neg e.args j hj]

theorem getElem!_setArg_self {i : Nat} (hi : i < 6) (v : BitVec 64) :
    (e.setArg i v).args[i]! = v := by
  show (e.args.set! i v)[i]! = v
  rw [getElem!_pos (e.args.set! i v) i hi, Vector.getElem_set!_self hi]

theorem setArg_self (i : Nat) : e.setArg i e.args[i]! = e := by
  have hargs : e.args.set! i e.args[i]! = e.args := by
    refine Vector.ext fun j hj => ?_
    by_cases h : i = j
    · subst h
      rw [Vector.getElem_set!_self hj, getElem!_pos e.args i hj]
    · rw [Vector.getElem_set!_ne hj h]
  rw [SyscallEvent.setArg, hargs]

theorem text_setArg (i : Nat) (v w : BitVec 64) (shown : Shown) :
    shown.text libc (e.setArg i v) w = shown.text libc e w := by
  cases shown <;> rfl

theorem syscallId_setArg (i : Nat) (v : BitVec 64) : (e.setArg i v).syscallId = e.syscallId := rfl

/-- A value that changes is that of an argument that changes. -/
theorem exists_param_of_changed {label : Bytes} {i : Nat} {v : BitVec 64}
    (h : valueUnder label (callFields libc (e.setArg i v))
      ≠ valueUnder label (callFields libc e)) :
    ∃ p ∈ printedParams e.syscallId, ascii p.label = label ∧ p.pos = i := by
  rw [callFields_eq, callFields_eq, syscallId_setArg] at h
  by_contra hnone
  refine h (valueUnder_congr fun p hp hlabel => ?_)
  have hpos : p.pos ≠ i := fun hpos => hnone ⟨p, hp, hlabel, hpos⟩
  rw [getElem!_setArg_ne v hpos, text_setArg]

/-- Another value for the argument at `i` changes what stands under the labels
of that position, and nothing else. -/
def ChangesOnlyItsLabel (libc : Libc) (e : SyscallEvent) (i : Nat) (v : BitVec 64) : Prop :=
  ∀ label, valueUnder label (callFields libc (e.setArg i v))
      ≠ valueUnder label (callFields libc e) →
    ∃ p ∈ prototype e.syscallId, ascii p.label = label ∧ p.pos = i

theorem changesOnlyItsLabel_of_ne (h : e.syscallId ≠ Uapi.nrFutex) (i : Nat) (v : BitVec 64) :
    ChangesOnlyItsLabel libc e i v := by
  intro label hne
  have hparam := exists_param_of_changed hne
  rwa [printedParams_of_ne h] at hparam

/-- At any position but the fifth the labels of `futex` are right. -/
theorem changesOnlyItsLabel_futex (h : e.syscallId = Uapi.nrFutex) {i : Nat} (hi : i ≠ 4)
    (v : BitVec 64) : ChangesOnlyItsLabel libc e i v := by
  intro label hne
  obtain ⟨p, hp, hlabel, hpos⟩ := exists_param_of_changed hne
  rw [h, printedParams_futex] at hp
  rcases List.mem_append.mp hp with hp | hp
  · refine ⟨p, ?_, hlabel, hpos⟩
    rw [h, prototype_futex]
    exact List.mem_append_left _ hp
  · obtain rfl := List.mem_singleton.mp hp
    exact absurd hpos.symm hi

theorem valueUnder_val3 (h : e.syscallId = Uapi.nrFutex) :
    valueUnder (ascii "val3") (callFields libc e) = some (altHex e.args[4]!) := by
  rw [callFields_eq, h]
  rfl

theorem changesOnlyItsLabel_iff (i : Nat) (v : BitVec 64) : ChangesOnlyItsLabel libc e i v ↔
    (e.syscallId = Uapi.nrFutex → i = 4 → v = e.args[4]!) := by
  constructor
  · rintro h hid rfl
    by_contra hv
    have hchanged : valueUnder (ascii "val3") (callFields libc (e.setArg 4 v))
        ≠ valueUnder (ascii "val3") (callFields libc e) := by
      rw [valueUnder_val3 (e := e.setArg 4 v) hid, valueUnder_val3 hid,
        getElem!_setArg_self (by omega)]
      exact fun heq => hv (altHex_injective (Option.some.inj heq))
    -- no parameter that is shown is at the fifth position
    have hnone : ∀ p ∈ prototype Uapi.nrFutex, p.pos ≠ 4 := by
      rw [prototype_futex]
      simp [futexRight]
    obtain ⟨p, hp, -, hpos⟩ := h (ascii "val3") hchanged
    exact hnone p (hid ▸ hp) hpos
  · intro h
    by_cases hid : e.syscallId = Uapi.nrFutex
    · by_cases hi : i = 4
      · subst hi
        rw [h hid rfl]
        intro label hne
        rw [setArg_self] at hne
        exact absurd rfl hne
      · exact changesOnlyItsLabel_futex hid hi v
    · exact changesOnlyItsLabel_of_ne hid i v

end Fields

/-- The values are those the prototype names, and the text is made of them. -/
structure LabelsRight (libc : Libc) (e : SyscallEvent) : Prop where
  fields : callFields libc e = protoFields libc e
  text : Dedicated e.syscallId →
    callText libc e = labelledText (printedName e.syscallId) (protoFields libc e)

/-- **When every value printed from the arguments is the argument its label
names.** For every event that is no `futex`. For a `futex` only if the fifth and
the sixth argument happen to be equal, and another value for the fifth changes
what stands under `val3`. The arguments are the registers of the call, in
order. An address under its label is the one that was captured. -/
theorem labels_right_iff (libc : Libc) (e : SyscallEvent) :
    (LabelsRight libc e ↔ (e.syscallId = Uapi.nrFutex → e.args[4]! = e.args[5]!)) ∧
      (∀ i v, ChangesOnlyItsLabel libc e i v ↔
        (e.syscallId = Uapi.nrFutex → i = 4 → v = e.args[4]!)) ∧
      ∀ id ret ctx, e = fillEvent id ret (enterStateOf ctx) → e.args = ctx.regs := by
  refine ⟨⟨fun h => callFields_eq_iff.mp h.fields, fun h => ?_⟩, changesOnlyItsLabel_iff, ?_⟩
  · have hfields : callFields libc e = protoFields libc e := callFields_eq_iff.mpr h
    refine ⟨hfields, fun hded => ?_⟩
    rw [callText_labelled libc e hded, hfields]
  · rintro id ret ctx rfl
    exact args_fillEvent id ret ctx

/-- A `FUTEX_WAIT_BITSET` with a second address. -/
def futexCall : SysEnter where
  nr := 98
  regs := #v[0x7f00, 9, 1, 0, 0x1000, 0xffffffff]
  comm := Vector.replicate 16 0
  mem := fun _ => none

theorem val3_shows_uaddr2 :
    callText .plain (fillEvent 0 0 (enterStateOf futexCall)) = ascii
        "futex(uaddr=0x7f00, op=FUTEX_WAIT_BITSET(0x9), val=1, timeout/uaddr2=0, val3=0x1000)" ∧
      futexCall.regs[5]! = 0xffffffff ∧ ¬ ∀ e, LabelsRight .plain e := by
  have htext : callText .plain (fillEvent 0 0 (enterStateOf futexCall)) = ascii
      "futex(uaddr=0x7f00, op=FUTEX_WAIT_BITSET(0x9), val=1, timeout/uaddr2=0, val3=0x1000)" := by
    decide +kernel
  refine ⟨htext, rfl, fun h => ?_⟩
  have hargs := callFields_eq_iff.mp (h (fillEvent 0 0 (enterStateOf futexCall))).fields
    (syscallId_fillEvent 0 0 futexCall)
  rw [args_fillEvent] at hargs
  exact absurd hargs (by decide)

/-! ## Parameters of type `int` -/

/-- The parameters that are cast to a signed type. -/
def SignedParam (nr : BitVec 32) (label : Bytes) (i : Nat) : Prop :=
  ((nr = Uapi.nrOpenat ∨ nr = Uapi.nrOpenat2) ∧ label = ascii "dfd" ∧ i = 0) ∨
    (nr = Uapi.nrEpollPwait ∧ label = ascii "timeout" ∧ i = 3)

/-- The number that is printed: all 64 bits. -/
theorem SignedParam.value {e : SyscallEvent} {label : Bytes} {i : Nat}
    (h : SignedParam e.syscallId label i) (libc : Libc) :
    valueUnder label (callFields libc e) = some (signed e.args[i]!.toInt) := by
  rw [callFields_eq]
  rcases h with ⟨hid | hid, rfl, rfl⟩ | ⟨hid, rfl, rfl⟩ <;> rw [hid] <;> rfl

theorem toInt_setWidth_eq_iff (v : BitVec 64) :
    (v.setWidth 32).toInt = v.toInt ↔ -2 ^ 31 ≤ v.toInt ∧ v.toInt < 2 ^ 31 := by
  constructor
  · intro h
    have hlo := BitVec.le_toInt (v.setWidth 32)
    have hhi := BitVec.toInt_lt (x := v.setWidth 32)
    omega
  · intro h
    have hwide := BitVec.toInt_eq_toNat_cond v
    have hlow := BitVec.toInt_eq_toNat_cond (v.setWidth 32)
    have hlt := v.isLt
    rw [BitVec.toNat_setWidth] at hlow
    split at hwide <;> split at hlow <;> omega

/-- **When a parameter of type `int` is shown as the kernel reads it.** Exactly
if the upper half of the register repeats the sign of the lower; and of two
calls with the same lower half the same number is shown only if the registers
are equal as a whole. -/
theorem int_shown_iff (libc : Libc) (id ret : BitVec 64) (ctx : SysEnter) {label : Bytes} {i : Nat}
    (h : SignedParam (ctx.nr.setWidth 32) label i) :
    (valueUnder label (callFields libc (fillEvent id ret (enterStateOf ctx)))
        = some (signed (ctx.regs[i]!.setWidth 32).toInt) ↔
      -2 ^ 31 ≤ ctx.regs[i]!.toInt ∧ ctx.regs[i]!.toInt < 2 ^ 31) ∧
    ∀ (id' ret' : BitVec 64) (ctx' : SysEnter), SignedParam (ctx'.nr.setWidth 32) label i →
      ctx'.regs[i]!.setWidth 32 = ctx.regs[i]!.setWidth 32 →
      (valueUnder label (callFields libc (fillEvent id' ret' (enterStateOf ctx')))
          = valueUnder label (callFields libc (fillEvent id ret (enterStateOf ctx))) ↔
        ctx'.regs[i]! = ctx.regs[i]!) := by
  have hvalue : ∀ (id ret : BitVec 64) (ctx : SysEnter),
      SignedParam (ctx.nr.setWidth 32) label i →
      valueUnder label (callFields libc (fillEvent id ret (enterStateOf ctx)))
        = some (signed ctx.regs[i]!.toInt) := by
    intro id ret ctx h
    rw [← syscallId_fillEvent id ret] at h
    rw [h.value, args_fillEvent]
  refine ⟨?_, fun id' ret' ctx' h' _ => ?_⟩
  · rw [hvalue id ret ctx h, ← toInt_setWidth_eq_iff]
    constructor
    · intro heq
      exact (signed_injective (Option.some.inj heq)).symm
    · intro heq
      rw [heq]
  · rw [hvalue id ret ctx h, hvalue id' ret' ctx' h']
    constructor
    · intro heq
      exact BitVec.eq_of_toInt_eq (signed_injective (Option.some.inj heq))
    · intro heq
      rw [heq]

/-- An `openat` with the given register for `dfd`. -/
def openatCall (dfd : BitVec 64) : SysEnter where
  nr := 56
  regs := #v[dfd, 0, 0, 0, 0, 0]
  comm := Vector.replicate 16 0
  mem := fun _ => none

/-- `AT_FDCWD` in a register that was sign-extended. -/
theorem int_shown_iff_cwd :
    valueUnder (ascii "dfd") (callFields .plain (fillEvent 0 0 (enterStateOf (openatCall (-100)))))
      = some (signed (-100)) :=
  (int_shown_iff .plain 0 0 (openatCall (-100)) (Or.inl ⟨Or.inl rfl, rfl, rfl⟩)).1.mpr (by decide)

/-- `AT_FDCWD` in a register that was not. -/
theorem cwd_shown_unsigned :
    callText .plain (fillEvent 0 0 (enterStateOf (openatCall 0x00000000ffffff9c)))
        = ascii "openat(dfd=4294967196, pathname=0, flags=O_RDONLY, mode=0)" ∧
      callText .plain (fillEvent 0 0 (enterStateOf (openatCall 0xffffffffffffff9c)))
        = ascii "openat(dfd=-100, pathname=0, flags=O_RDONLY, mode=0)" ∧
      ¬ ∀ (ctx : SysEnter) (label : Bytes) (i : Nat), SignedParam (ctx.nr.setWidth 32) label i →
        valueUnder label (callFields .plain (fillEvent 0 0 (enterStateOf ctx)))
          = some (signed (ctx.regs[i]!.setWidth 32).toInt) := by
  refine ⟨by decide +kernel, by decide +kernel, fun h => ?_⟩
  have hparam : SignedParam (fillEvent 0 0 (enterStateOf (openatCall 0x00000000ffffff9c))).syscallId
      (ascii "dfd") 0 := by
    rw [syscallId_fillEvent]
    exact Or.inl ⟨Or.inl rfl, rfl, rfl⟩
  have hvalue := h (openatCall 0x00000000ffffff9c) (ascii "dfd") 0
    (Or.inl ⟨Or.inl rfl, rfl, rfl⟩)
  rw [hparam.value, args_fillEvent] at hvalue
  exact absurd (signed_injective (Option.some.inj hvalue)) (by decide)

end LibbpfTools.Strace
