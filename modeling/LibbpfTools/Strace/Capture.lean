/-
LibbpfTools.Strace.Capture — the data of `libbpfstrace.bpf.c` and the code
that fills it: `struct enter_state`, `struct syscall_event`, the two
`maybe_capture_*` functions, the record `handle_sys_enter` stores and the
event `handle_sys_exit` copies it into. How the two handlers use the maps is
in `LibbpfTools.Strace.Handlers`.

Integers have the widths of the C declarations; `int` and `unsigned` are the
same bits, and what reads them decides on the sign. Fixed arrays are vectors
of their length. A sockaddr is loaded from the bytes the probe helper stored,
with the field offsets of `vmlinux.h` and in host byte order.

`captureSockaddrAt` is the part of `maybe_capture_sockaddr` behind its choice
of pointer and length, so that what is read and where it is read from can be
discussed apart.
-/
import LibbpfTools.Bpf.Helpers

namespace LibbpfTools.Strace

open LibbpfTools.Lib LibbpfTools.Bpf

/-! ## Constants of the BPF program -/

def nrOpenat : BitVec 32 := 56
def nrConnect : BitVec 32 := 203
def nrBind : BitVec 32 := 200
def nrSendto : BitVec 32 := 206
def nrExecve : BitVec 32 := 221
def nrOpenat2 : BitVec 32 := 437

def afInet : BitVec 16 := 2
def afInet6 : BitVec 16 := 10

/-! ## `struct enter_state` and `struct syscall_event` -/

/-- `struct enter_state`: what `sys_enter` leaves for `sys_exit`. -/
structure EnterState where
  syscallId : BitVec 32
  args : Vector (BitVec 64) 6
  comm : Vector UInt8 16
  str : Vector UInt8 256
  strLen : BitVec 32
  saFamily : BitVec 16
  saPort : BitVec 16
  saAddr4 : BitVec 32
  saAddr6 : Vector UInt8 16
  saScopeId : BitVec 32
  saValid : BitVec 8
deriving DecidableEq

/-- `struct enter_state s = {}`. -/
def EnterState.zero : EnterState where
  syscallId := 0
  args := Vector.replicate 6 0
  comm := Vector.replicate 16 0
  str := Vector.replicate 256 0
  strLen := 0
  saFamily := 0
  saPort := 0
  saAddr4 := 0
  saAddr6 := Vector.replicate 16 0
  saScopeId := 0
  saValid := 0

instance : Inhabited EnterState := ⟨EnterState.zero⟩

/-- `struct syscall_event`: one ring buffer record. -/
structure SyscallEvent where
  tgid : BitVec 32
  pid : BitVec 32
  syscallId : BitVec 32
  ret : BitVec 64
  args : Vector (BitVec 64) 6
  comm : Vector UInt8 16
  str : Vector UInt8 256
  strLen : BitVec 32
  saFamily : BitVec 16
  saPort : BitVec 16
  saAddr4 : BitVec 32
  saAddr6 : Vector UInt8 16
  saScopeId : BitVec 32
  saValid : BitVec 8
deriving DecidableEq

/-! ## Sockaddr layouts -/

/-- `struct sockaddr_in`, the fields that are read. -/
structure SockaddrIn where
  sinPort : BitVec 16
  sinAddr : BitVec 32

def SockaddrIn.load (b : Bytes) : SockaddrIn where
  sinPort := BitVec.ofNat 16 (leNat ((b.drop 2).take 2))
  sinAddr := BitVec.ofNat 32 (leNat ((b.drop 4).take 4))

/-- `struct sockaddr_in6`, the fields that are read. -/
structure SockaddrIn6 where
  sin6Port : BitVec 16
  sin6Addr : Vector UInt8 16
  sin6ScopeId : BitVec 32

def SockaddrIn6.load (b : Bytes) : SockaddrIn6 where
  sin6Port := BitVec.ofNat 16 (leNat ((b.drop 2).take 2))
  sin6Addr := Vector.ofFn fun i => b.getD (8 + i.val) 0
  sin6ScopeId := BitVec.ofNat 32 (leNat ((b.drop 24).take 4))

/-! ## `maybe_capture_string` -/

/-- The pointer `p` that `maybe_capture_string` settles on; null by default. -/
def stringPtr (s : EnterState) : BitVec 64 :=
  if s.syscallId = nrOpenat ∨ s.syscallId = nrOpenat2 then s.args[1]!
  else if s.syscallId = nrExecve then s.args[0]!
  else 0

def maybeCaptureString (mem : UserMem) (s : EnterState) : EnterState :=
  if stringPtr s = 0 then s
  else
    match bpfProbeReadUserStr mem 256 (stringPtr s) with
    | none => s
    | some str =>
        -- the helper's return value counts the NUL
        { s with str := strWrite s.str str, strLen := BitVec.ofNat 32 (str.length + 1) }

/-! ## `maybe_capture_sockaddr` -/

def captureSockaddrAt (mem : UserMem) (uaddr len : BitVec 64) (s : EnterState) : EnterState :=
  if len < 2 then s
  else
    match bpfProbeReadUser mem 2 uaddr with
    | none => s
    | some fam =>
        let family : BitVec 16 := BitVec.ofNat 16 (leNat fam)
        let s := { s with saFamily := family }
        if family = afInet ∧ 16 ≤ len then
          match bpfProbeReadUser mem 16 uaddr with
          | none => s
          | some b =>
              let in4 := SockaddrIn.load b
              { s with saPort := in4.sinPort, saAddr4 := in4.sinAddr, saValid := 1 }
        else if family = afInet6 ∧ 28 ≤ len then
          match bpfProbeReadUser mem 28 uaddr with
          | none => s
          | some b =>
              let in6 := SockaddrIn6.load b
              { s with saPort := in6.sin6Port, saAddr6 := in6.sin6Addr,
                       saScopeId := in6.sin6ScopeId, saValid := 1 }
        else s

def maybeCaptureSockaddr (mem : UserMem) (s : EnterState) : EnterState :=
  if s.syscallId ≠ nrConnect ∧ s.syscallId ≠ nrBind ∧ s.syscallId ≠ nrSendto then s
  else
    let uaddr := s.args[1]!
    if uaddr = 0 then s
    else
      let len := if s.syscallId = nrSendto then s.args[5]! else s.args[2]!
      captureSockaddrAt mem uaddr len s

/-! ## The record of one `sys_enter` and the event of one `sys_exit` -/

/-- What a `sys_enter` firing hands to its handler: the syscall number, the
argument registers `x0` to `x5`, the task's comm and its user memory. -/
structure SysEnter where
  nr : BitVec 64
  regs : Vector (BitVec 64) 6
  comm : Vector UInt8 16
  mem : UserMem

/-- The `enter_state` that `handle_sys_enter` puts into `inflight`. -/
def enterStateOf (ctx : SysEnter) : EnterState :=
  let s := { EnterState.zero with
    syscallId := ctx.nr.setWidth 32
    args := #v[ctx.regs[0]!, ctx.regs[1]!, ctx.regs[2]!, ctx.regs[3]!, ctx.regs[4]!, ctx.regs[5]!]
    comm := ctx.comm }
  maybeCaptureSockaddr ctx.mem (maybeCaptureString ctx.mem s)

/-- The high half of `bpf_get_current_pid_tgid()`. -/
def tgidOf (id : BitVec 64) : BitVec 32 := (id >>> 32).setWidth 32

/-- The low half of `bpf_get_current_pid_tgid()`, the thread's own number. -/
def tidOf (id : BitVec 64) : BitVec 32 := id.setWidth 32

/-- The event `handle_sys_exit` fills from the stored record. -/
def fillEvent (id ret : BitVec 64) (s : EnterState) : SyscallEvent where
  tgid := tgidOf id
  pid := tidOf id
  syscallId := s.syscallId
  ret := ret
  args := #v[s.args[0]!, s.args[1]!, s.args[2]!, s.args[3]!, s.args[4]!, s.args[5]!]
  comm := s.comm
  str := s.str
  strLen := s.strLen
  saFamily := s.saFamily
  saPort := s.saPort
  saAddr4 := s.saAddr4
  saAddr6 := s.saAddr6
  saScopeId := s.saScopeId
  saValid := s.saValid

/-! ## What the captures leave alone -/

/-- Everything but the two string fields survives `maybe_capture_string`. -/
theorem maybeCaptureString_frame (mem : UserMem) (s : EnterState) :
    maybeCaptureString mem s
      = { s with str := (maybeCaptureString mem s).str,
                 strLen := (maybeCaptureString mem s).strLen } := by
  simp only [maybeCaptureString]
  split
  · rfl
  · split <;> rfl

/-- The fields of a record that come from a sockaddr. -/
structure SaFields where
  family : BitVec 16
  port : BitVec 16
  addr4 : BitVec 32
  addr6 : Vector UInt8 16
  scopeId : BitVec 32
  valid : BitVec 8
deriving DecidableEq

def EnterState.sa (s : EnterState) : SaFields :=
  ⟨s.saFamily, s.saPort, s.saAddr4, s.saAddr6, s.saScopeId, s.saValid⟩

def EnterState.withSa (s : EnterState) (a : SaFields) : EnterState :=
  { s with saFamily := a.family, saPort := a.port, saAddr4 := a.addr4,
           saAddr6 := a.addr6, saScopeId := a.scopeId, saValid := a.valid }

theorem captureSockaddrAt_frame (mem : UserMem) (uaddr len : BitVec 64) (s : EnterState) :
    captureSockaddrAt mem uaddr len s = s.withSa (captureSockaddrAt mem uaddr len s).sa := by
  simp only [captureSockaddrAt]
  split
  · rfl
  · split
    · rfl
    · split
      · split <;> rfl
      · split
        · split <;> rfl
        · rfl

/-- Everything but the sockaddr fields survives `maybe_capture_sockaddr`. -/
theorem maybeCaptureSockaddr_frame (mem : UserMem) (s : EnterState) :
    maybeCaptureSockaddr mem s = s.withSa (maybeCaptureSockaddr mem s).sa := by
  simp only [maybeCaptureSockaddr]
  split
  · rfl
  · split
    · rfl
    · exact captureSockaddrAt_frame ..

/-- Copying the six arguments one by one copies the array. -/
theorem args_eta (v : Vector (BitVec 64) 6) : #v[v[0]!, v[1]!, v[2]!, v[3]!, v[4]!, v[5]!] = v := by
  ext i hi
  match i, hi with
  | 0, _ | 1, _ | 2, _ | 3, _ | 4, _ | 5, _ => rfl

/-- The record of an enter holds its number, registers and comm as fired. -/
theorem enterStateOf_frame (ctx : SysEnter) :
    enterStateOf ctx = { enterStateOf ctx with
      syscallId := ctx.nr.setWidth 32, args := ctx.regs, comm := ctx.comm } := by
  simp only [enterStateOf, args_eta]
  rw [maybeCaptureSockaddr_frame, maybeCaptureString_frame]
  rfl

end LibbpfTools.Strace
