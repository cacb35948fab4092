/-
LibbpfTools.Strace.Format — the text side of `libbpfstrace.c`: how
`handle_event` renders one ring buffer record.

Text is bytes. A `char` buffer is the C string that is left in it, `%s` of an
array prints its C string, and the formats stand as they do in the source.
What the C library decides (`inet_ntop`, `strerror`) is a parameter, `Libc`;
its fields say what `inet_ntop` is documented to do. `format_openat_flags`
appends piece by piece at a running offset, so `FlagBuf` is the buffer with
that offset.
-/
import LibbpfTools.Lib.InetText
import LibbpfTools.Lib.Printf
import LibbpfTools.Strace.Capture
import LibbpfTools.Strace.SyscallTable

namespace LibbpfTools.Strace

open LibbpfTools.Lib

/-! ## The C library -/

/-- The C library. An IPv4 address is its `s_addr`, an IPv6 address its
sixteen bytes. -/
structure Libc where
  /-- The text `inet_ntop(AF_INET, ..)` has for an address. -/
  ntop4 : BitVec 32 → Bytes
  /-- The text `inet_ntop(AF_INET6, ..)` has for an address. -/
  ntop6 : Vector UInt8 16 → Bytes
  strerror : BitVec 32 → Bytes
  ntop4_injective : Function.Injective ntop4
  ntop6_injective : Function.Injective ntop6
  length_ntop4_le : ∀ a, (ntop4 a).length ≤ 15
  length_ntop6_le : ∀ a, (ntop6 a).length ≤ 45
  ntop4_bytes : ∀ a, ∀ c ∈ ntop4 a, IsAddrByte c
  ntop6_bytes : ∀ a, ∀ c ∈ ntop6 a, IsAddrByte c

/-- A C library that never writes `::`. -/
def Libc.plain : Libc where
  ntop4 := dottedQuad
  ntop6 := colonHex
  strerror := fun _ => ascii "error"
  ntop4_injective := dottedQuad_injective
  ntop6_injective := colonHex_injective
  length_ntop4_le := length_dottedQuad_le
  length_ntop6_le := length_colonHex_le
  ntop4_bytes := fun _ _ => isAddrByte_of_mem_dottedQuad
  ntop6_bytes := fun _ _ => isAddrByte_of_mem_colonHex

/-- `inet_ntop` into a buffer of `sz` bytes: null when text and NUL do not fit. -/
def inetNtop (text : Bytes) (sz : Nat) : Option Bytes :=
  if text.length < sz then some text else none

def inetAddrstrlen : Nat := 16
def inet6Addrstrlen : Nat := 46

/-! ## `errno_name` and `futex_op_name` -/

def errnoTable : List (BitVec 32 × String) :=
  [(1, "EPERM"), (2, "ENOENT"), (3, "ESRCH"), (4, "EINTR"), (5, "EIO"), (6, "ENXIO"),
   (7, "E2BIG"), (8, "ENOEXEC"), (9, "EBADF"), (10, "ECHILD"), (11, "EAGAIN"), (12, "ENOMEM"),
   (13, "EACCES"), (14, "EFAULT"), (16, "EBUSY"), (17, "EEXIST"), (19, "ENODEV"),
   (20, "ENOTDIR"), (21, "EISDIR"), (22, "EINVAL"), (23, "ENFILE"), (24, "EMFILE"),
   (25, "ENOTTY"), (26, "ETXTBSY"), (27, "EFBIG"), (28, "ENOSPC"), (29, "ESPIPE"),
   (30, "EROFS"), (31, "EMLINK"), (32, "EPIPE"), (33, "EDOM"), (34, "ERANGE"),
   (38, "ENOSYS"), (111, "ECONNREFUSED"), (110, "ETIMEDOUT")]

def errnoName (err : BitVec 32) : Bytes :=
  match errnoTable.find? (fun entry => entry.1 = err) with
  | some entry => ascii entry.2
  | none => ascii "ERR"

/-- What holds of every name in the table, and of `ERR`, holds of `errno_name`. -/
theorem errnoName_of_forall {P : Bytes → Prop} (hdefault : P (ascii "ERR"))
    (htable : ∀ entry ∈ errnoTable, P (ascii entry.2)) (err : BitVec 32) : P (errnoName err) := by
  unfold errnoName
  split
  · rename_i entry hfind
    exact htable entry (List.mem_of_find?_eq_some hfind)
  · exact hdefault

def futexOps : List String :=
  ["FUTEX_WAIT", "FUTEX_WAKE", "FUTEX_FD", "FUTEX_REQUEUE", "FUTEX_CMP_REQUEUE",
   "FUTEX_WAKE_OP", "FUTEX_LOCK_PI", "FUTEX_UNLOCK_PI", "FUTEX_TRYLOCK_PI",
   "FUTEX_WAIT_BITSET", "FUTEX_WAKE_BITSET", "FUTEX_WAIT_REQUEUE_PI",
   "FUTEX_CMP_REQUEUE_PI", "FUTEX_LOCK_PI2"]

/-- The low seven bits choose the name: cases 0 to 13, else unknown. -/
def futexOpName (op : BitVec 64) : Bytes :=
  ascii (futexOps.getD (op &&& 0x7f).toNat "FUTEX_UNKNOWN")

theorem futexOpName_of_forall {P : Bytes → Prop} (hdefault : P (ascii "FUTEX_UNKNOWN"))
    (htable : ∀ name ∈ futexOps, P (ascii name)) (op : BitVec 64) : P (futexOpName op) := by
  rw [futexOpName, List.getD_eq_getElem?_getD]
  cases h : futexOps[(op &&& 0x7f).toNat]? with
  | none => exact hdefault
  | some name => exact htable name (List.mem_of_getElem? h)

/-! ## `format_sockaddr` -/

def formatSockaddr (libc : Libc) (e : SyscallEvent) (sz : Nat) : Bytes :=
  if e.saValid = 0 then snprintf sz "NULL" []
  else if e.saFamily = 2 then
    match inetNtop (libc.ntop4 e.saAddr4) inetAddrstrlen with
    | none =>
        snprintf sz "\x7bsa_family=AF_INET, sin_port=%u, sin_addr=?\x7d"
          [.int ((ntohs e.saPort).setWidth 32)]
    | some ip =>
        snprintf sz "\x7bsa_family=AF_INET, sin_port=%u, sin_addr=\"%s\"\x7d"
          [.int ((ntohs e.saPort).setWidth 32), .str ip]
  else if e.saFamily = 10 then
    match inetNtop (libc.ntop6 e.saAddr6) inet6Addrstrlen with
    | none =>
        snprintf sz "\x7bsa_family=AF_INET6, sin6_port=%u, sin6_addr=?\x7d"
          [.int ((ntohs e.saPort).setWidth 32)]
    | some ip =>
        snprintf sz
          "\x7bsa_family=AF_INET6, sin6_port=%u, sin6_addr=\"%s\", sin6_scope_id=%u\x7d"
          [.int ((ntohs e.saPort).setWidth 32), .str ip, .int e.saScopeId]
  else snprintf sz "\x7bsa_family=%u\x7d" [.int (e.saFamily.setWidth 32)]

/-! ## `format_openat_flags` -/

/-- The buffer of `format_openat_flags`: the string in it and `off`. -/
structure FlagBuf where
  text : Bytes
  off : Nat

/-- `off += snprintf(buf + off, sz - off, fmt, ...)`. As long as `off` stays
below `sz` the subtraction is exact. -/
def FlagBuf.append (sz : Nat) (fmt : String) (args : List Arg) (b : FlagBuf) : FlagBuf where
  text := b.text.take b.off ++ snprintf (sz - b.off) fmt args
  off := b.off + (format fmt args).length

/-- The flags of `APPEND_FLAG`, in order, with their arm64 values. -/
def openatFlags : List (BitVec 64 × String) :=
  [(0o100, "O_CREAT"), (0o200, "O_EXCL"), (0o400, "O_NOCTTY"), (0o1000, "O_TRUNC"),
   (0o2000, "O_APPEND"), (0o4000, "O_NONBLOCK"), (0o10000, "O_DSYNC"), (0o4010000, "O_SYNC"),
   (0o2000000, "O_CLOEXEC"), (0o40000, "O_DIRECTORY"), (0o100000, "O_NOFOLLOW")]

/-- `APPEND_FLAG(f)`. -/
def appendFlag (sz : Nat) (flags : BitVec 64) (b : FlagBuf) (f : BitVec 64 × String) : FlagBuf :=
  if flags &&& f.1 ≠ 0 then b.append sz "|%s" [.str (ascii f.2)] else b

/-- The access mode at the start of the buffer. -/
def accessMode (sz : Nat) (flags : BitVec 64) : FlagBuf :=
  let access := flags &&& 3
  let b : FlagBuf := ⟨[], 0⟩
  if access = 0 then b.append sz "O_RDONLY" []
  else if access = 1 then b.append sz "O_WRONLY" []
  else if access = 2 then b.append sz "O_RDWR" []
  else b.append sz "0x%llx" [.longLong access]

def formatOpenatFlags (flags : BitVec 64) (sz : Nat) : Bytes :=
  (openatFlags.foldl (appendFlag sz flags) (accessMode sz flags)).text

/-! ## `arg_string` and `format_syscall_args` -/

/-- The array the string is read from, or null. -/
def argString (e : SyscallEvent) : Option (Vector UInt8 256) :=
  if 0 < e.strLen ∧ e.strLen ≤ 256 then some e.str else none

/-- Every branch of `format_syscall_args` ends in one `snprintf`: its format
and its arguments. -/
def callFormat (libc : Libc) (e : SyscallEvent) (name : Bytes) : String × List Arg :=
  if e.syscallId = Uapi.nrRead ∨ e.syscallId = Uapi.nrWrite then
    ("%s(fd=%llu, buf=%#llx, count=%llu)",
      [.str name, .longLong e.args[0]!, .longLong e.args[1]!, .longLong e.args[2]!])
  else if e.syscallId = Uapi.nrIoctl then
    ("%s(fd=%llu, cmd=%#llx, arg=%#llx)",
      [.str name, .longLong e.args[0]!, .longLong e.args[1]!, .longLong e.args[2]!])
  else if e.syscallId = Uapi.nrFutex then
    ("%s(uaddr=%#llx, op=%s(%#llx), val=%llu, timeout/uaddr2=%#llx, val3=%#llx)",
      [.str name, .longLong e.args[0]!, .str (futexOpName e.args[1]!), .longLong e.args[1]!,
       .longLong e.args[2]!, .longLong e.args[3]!, .longLong e.args[4]!])
  else if e.syscallId = Uapi.nrOpenat then
    -- the flags are composed in `flagbuf`
    match argString e with
    | some s =>
        ("%s(dfd=%lld, pathname=\"%s\", flags=%s, mode=%#llo)",
          [.str name, .longLong e.args[0]!, .str (cstr s.toList),
           .str (formatOpenatFlags e.args[2]! 256), .longLong e.args[3]!])
    | none =>
        ("%s(dfd=%lld, pathname=%#llx, flags=%s, mode=%#llo)",
          [.str name, .longLong e.args[0]!, .longLong e.args[1]!,
           .str (formatOpenatFlags e.args[2]! 256), .longLong e.args[3]!])
  else if e.syscallId = Uapi.nrOpenat2 then
    match argString e with
    | some s =>
        ("%s(dfd=%lld, pathname=\"%s\", how=%#llx, size=%llu)",
          [.str name, .longLong e.args[0]!, .str (cstr s.toList), .longLong e.args[2]!,
           .longLong e.args[3]!])
    | none =>
        ("%s(dfd=%lld, pathname=%#llx, how=%#llx, size=%llu)",
          [.str name, .longLong e.args[0]!, .longLong e.args[1]!, .longLong e.args[2]!,
           .longLong e.args[3]!])
  else if e.syscallId = Uapi.nrExecve then
    match argString e with
    | some s =>
        ("%s(filename=\"%s\", argv=%#llx, envp=%#llx)",
          [.str name, .str (cstr s.toList), .longLong e.args[1]!, .longLong e.args[2]!])
    | none =>
        ("%s(filename=%#llx, argv=%#llx, envp=%#llx)",
          [.str name, .longLong e.args[0]!, .longLong e.args[1]!, .longLong e.args[2]!])
  else if e.syscallId = Uapi.nrConnect ∨ e.syscallId = Uapi.nrBind
      ∨ e.syscallId = Uapi.nrSendto then
    -- the address is composed in `addrbuf`
    if e.syscallId = Uapi.nrSendto then
      ("%s(sockfd=%llu, buf=%#llx, len=%llu, flags=%#llx, dest_addr=%s, addrlen=%llu)",
        [.str name, .longLong e.args[0]!, .longLong e.args[1]!, .longLong e.args[2]!,
         .longLong e.args[3]!, .str (formatSockaddr libc e 192), .longLong e.args[5]!])
    else
      ("%s(sockfd=%llu, addr=%s, addrlen=%llu)",
        [.str name, .longLong e.args[0]!, .str (formatSockaddr libc e 192),
         .longLong e.args[2]!])
  else if e.syscallId = Uapi.nrEpollPwait then
    ("%s(epfd=%llu, events=%#llx, maxevents=%llu, timeout=%lld, sigmask=%#llx, sigsetsize=%llu)",
      [.str name, .longLong e.args[0]!, .longLong e.args[1]!, .longLong e.args[2]!,
       .longLong e.args[3]!, .longLong e.args[4]!, .longLong e.args[5]!])
  else
    ("%s(%#llx, %#llx, %#llx, %#llx, %#llx, %#llx)",
      [.str name, .longLong e.args[0]!, .longLong e.args[1]!, .longLong e.args[2]!,
       .longLong e.args[3]!, .longLong e.args[4]!, .longLong e.args[5]!])

def formatSyscallArgs (libc : Libc) (e : SyscallEvent) (name : Bytes) (outSz : Nat) : Bytes :=
  snprintf outSz (callFormat libc e name).1 (callFormat libc e name).2

/-! ## `handle_event` -/

/-- The text of the call in `callbuf`. -/
def callText (libc : Libc) (e : SyscallEvent) : Bytes :=
  formatSyscallArgs libc e (printedName e.syscallId) 512

/-- The text of the return value in `retbuf`. -/
def retText (libc : Libc) (ret : BitVec 64) : Bytes :=
  if ret.toInt < 0 then
    let err : BitVec 32 := (-ret).setWidth 32
    snprintf 128 "-1 %s (%s)" [.str (errnoName err), .str (libc.strerror err)]
  else snprintf 128 "%lld" [.longLong ret]

/-- `sizeof(struct syscall_event)`, with its padding. -/
def sizeofSyscallEvent : Nat := 384

/-- What `handle_event` writes to standard output. -/
def handleEvent (libc : Libc) (e : SyscallEvent) (dataSz : Nat) : Bytes :=
  if dataSz < sizeofSyscallEvent then []
  else
    -- `comm` and `str` are adjacent, so a comm without a NUL runs on
    format "pid=%d tid=%d comm=%s %s = %s [id=%d]\n"
      [.int e.tgid, .int e.pid, .str (cstr (e.comm.toList ++ e.str.toList)),
       .str (callText libc e), .str (retText libc e.ret), .int e.syscallId]

end LibbpfTools.Strace
