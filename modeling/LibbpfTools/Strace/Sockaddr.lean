/-
LibbpfTools.Strace.Sockaddr — what the address fields of an event hold.

`decodeSockaddr mem p len` says what an address argument means: the fields of
the sockaddr at `p`, of which `len` bytes count. A null or unreadable address
has no family, and one that is too short or cut off by a fault has a family
and nothing else.

`enterStateOf_sa` is the whole of `maybe_capture_sockaddr` in these terms: the
fields stored for `connect`, `bind` and `sendto` are the decoding at `args[1]`.
For `connect` and `bind` that is the address argument. For `sendto` it is the
PAYLOAD: its address is `args[4]`, of which only the length, `args[5]`, is
used. `sendto_address_iff` says for which payloads nobody notices.
-/
import LibbpfTools.Strace.Format
import LibbpfTools.Strace.Pairing

namespace LibbpfTools.Strace

open LibbpfTools.Lib LibbpfTools.Bpf

/-! ## The meaning of an address argument -/

def SaFields.zero : SaFields := ⟨0, 0, 0, Vector.replicate 16 0, 0, 0⟩

/-- The family of the address at `p`; none when it cannot be read. -/
def familyAt (mem : UserMem) (p : BitVec 64) : Option (BitVec 16) :=
  if p = 0 then none else (bpfProbeReadUser mem 2 p).map fun b => BitVec.ofNat 16 (leNat b)

/-- A full `sockaddr_in` at `p`. -/
def inetAt (mem : UserMem) (p : BitVec 64) : Option SockaddrIn :=
  (bpfProbeReadUser mem 16 p).map SockaddrIn.load

/-- A full `sockaddr_in6` at `p`. -/
def inet6At (mem : UserMem) (p : BitVec 64) : Option SockaddrIn6 :=
  (bpfProbeReadUser mem 28 p).map SockaddrIn6.load

/-- The fields of the address at `p`, of which `len` bytes count. -/
def decodeSockaddr (mem : UserMem) (p len : BitVec 64) : SaFields :=
  if len < 2 then SaFields.zero
  else
    match familyAt mem p with
    | none => SaFields.zero
    | some family =>
        let only := { SaFields.zero with family }
        if family = afInet ∧ 16 ≤ len then
          match inetAt mem p with
          | none => only
          | some in4 => { only with port := in4.sinPort, addr4 := in4.sinAddr, valid := 1 }
        else if family = afInet6 ∧ 28 ≤ len then
          match inet6At mem p with
          | none => only
          | some in6 => { only with port := in6.sin6Port, addr6 := in6.sin6Addr,
                                    scopeId := in6.sin6ScopeId, valid := 1 }
        else only

/-- The fields of an address that shows no more than its family. -/
def SaFields.familyOnly (family : BitVec 16) : SaFields := { SaFields.zero with family }

/-- The fields of a full IPv4 address; none when it cannot be read. -/
def SaFields.ofInet : Option SockaddrIn → SaFields
  | none => .familyOnly afInet
  | some in4 => { SaFields.familyOnly afInet with
      port := in4.sinPort, addr4 := in4.sinAddr, valid := 1 }

def SaFields.ofInet6 : Option SockaddrIn6 → SaFields
  | none => .familyOnly afInet6
  | some in6 => { SaFields.familyOnly afInet6 with
      port := in6.sin6Port, addr6 := in6.sin6Addr, scopeId := in6.sin6ScopeId, valid := 1 }

section Cases

variable {mem : UserMem} {p q len : BitVec 64}

theorem decodeSockaddr_short (h : len < 2) : decodeSockaddr mem p len = SaFields.zero := by
  rw [decodeSockaddr, if_pos h]

theorem decodeSockaddr_inet (hf : familyAt mem p = some afInet) (hlen : 16 ≤ len) :
    decodeSockaddr mem p len = .ofInet (inetAt mem p) := by
  have h2 : ¬ len < 2 := by
    rw [BitVec.not_lt]
    exact BitVec.le_trans (by decide) hlen
  simp only [decodeSockaddr, if_neg h2, hf, hlen, and_self, if_true]
  cases inetAt mem p <;> rfl

theorem decodeSockaddr_inet6 (hf : familyAt mem p = some afInet6) (hlen : 28 ≤ len) :
    decodeSockaddr mem p len = .ofInet6 (inet6At mem p) := by
  have h2 : ¬ len < 2 := by
    rw [BitVec.not_lt]
    exact BitVec.le_trans (by decide) hlen
  have hne : ¬ (afInet6 = afInet ∧ 16 ≤ len) := fun h => absurd h.1 (by decide)
  simp only [decodeSockaddr, if_neg h2, hf, hlen, and_self, if_true, if_neg hne]
  cases inet6At mem p <;> rfl

/-- Anything else shows its family at most. -/
theorem decodeSockaddr_other (h2 : 2 ≤ len) (h4 : familyAt mem p = some afInet → ¬ 16 ≤ len)
    (h6 : familyAt mem p = some afInet6 → ¬ 28 ≤ len) :
    decodeSockaddr mem p len = .familyOnly ((familyAt mem p).getD 0) := by
  simp only [decodeSockaddr, if_neg (BitVec.not_lt.mpr h2)]
  cases hf : familyAt mem p with
  | none => rfl
  | some family =>
    have h4' : ¬ (family = afInet ∧ 16 ≤ len) := fun h => h4 (by rw [hf, h.1]) h.2
    have h6' : ¬ (family = afInet6 ∧ 28 ≤ len) := fun h => h6 (by rw [hf, h.1]) h.2
    simp only [if_neg h4', if_neg h6']
    rfl

theorem decodeSockaddr_family (h2 : 2 ≤ len) :
    (decodeSockaddr mem p len).family = (familyAt mem p).getD 0 := by
  by_cases h4 : familyAt mem p = some afInet ∧ 16 ≤ len
  · rw [decodeSockaddr_inet h4.1 h4.2, h4.1]
    cases inetAt mem p <;> rfl
  · by_cases h6 : familyAt mem p = some afInet6 ∧ 28 ≤ len
    · rw [decodeSockaddr_inet6 h6.1 h6.2, h6.1]
      cases inet6At mem p <;> rfl
    · rw [decodeSockaddr_other h2 (fun h h' => h4 ⟨h, h'⟩) (fun h h' => h6 ⟨h, h'⟩)]
      rfl

end Cases

theorem SaFields.ofInet_injective : Function.Injective SaFields.ofInet := by
  intro a b h
  cases a with
  | none =>
    cases b with
    | none => rfl
    | some b => exact absurd (congrArg SaFields.valid h) (by simp [ofInet, familyOnly, zero])
  | some a =>
    cases b with
    | none => exact absurd (congrArg SaFields.valid h) (by simp [ofInet, familyOnly, zero])
    | some b =>
      obtain ⟨pa, aa⟩ := a
      obtain ⟨pb, ab⟩ := b
      have hport : pa = pb := congrArg SaFields.port h
      have haddr : aa = ab := congrArg SaFields.addr4 h
      rw [hport, haddr]

theorem SaFields.ofInet6_injective : Function.Injective SaFields.ofInet6 := by
  intro a b h
  cases a with
  | none =>
    cases b with
    | none => rfl
    | some b => exact absurd (congrArg SaFields.valid h) (by simp [ofInet6, familyOnly, zero])
  | some a =>
    cases b with
    | none => exact absurd (congrArg SaFields.valid h) (by simp [ofInet6, familyOnly, zero])
    | some b =>
      obtain ⟨pa, aa, sa⟩ := a
      obtain ⟨pb, ab, sb⟩ := b
      have hport : pa = pb := congrArg SaFields.port h
      have haddr : aa = ab := congrArg SaFields.addr6 h
      have hscope : sa = sb := congrArg SaFields.scopeId h
      rw [hport, haddr, hscope]

/-! ## What is stored -/

/-- On a record without address fields the capture stores the decoding. -/
theorem captureSockaddrAt_sa (mem : UserMem) {p : BitVec 64} (hp : p ≠ 0) (len : BitVec 64)
    {s : EnterState} (hs : s.sa = SaFields.zero) :
    (captureSockaddrAt mem p len s).sa = decodeSockaddr mem p len := by
  simp only [EnterState.sa, SaFields.zero, SaFields.mk.injEq] at hs
  obtain ⟨h1, h2, h3, h4, h5, h6⟩ := hs
  simp only [captureSockaddrAt, decodeSockaddr, familyAt, inetAt, inet6At, if_neg hp]
  split
  · simp [EnterState.sa, SaFields.zero, *]
  · cases bpfProbeReadUser mem 2 p with
    | none => simp [EnterState.sa, SaFields.zero, *]
    | some fam =>
      simp only [Option.map_some]
      split
      · cases bpfProbeReadUser mem 16 p <;> simp [EnterState.sa, SaFields.zero, *]
      · split
        · cases bpfProbeReadUser mem 28 p <;> simp [EnterState.sa, SaFields.zero, *]
        · simp [EnterState.sa, SaFields.zero, *]

theorem decodeSockaddr_null (mem : UserMem) (len : BitVec 64) :
    decodeSockaddr mem 0 len = SaFields.zero := by
  simp [decodeSockaddr, familyAt]

/-- The calls with an address. -/
def HasAddress (ctx : SysEnter) : Prop :=
  ctx.nr.setWidth 32 = nrConnect ∨ ctx.nr.setWidth 32 = nrBind ∨ ctx.nr.setWidth 32 = nrSendto

/-- The length the capture goes by. -/
def capturedLen (ctx : SysEnter) : BitVec 64 :=
  if ctx.nr.setWidth 32 = nrSendto then ctx.regs[5]! else ctx.regs[2]!

/-- The stored fields are the decoding at `args[1]`. -/
theorem enterStateOf_sa {ctx : SysEnter} (hnr : HasAddress ctx) :
    (enterStateOf ctx).sa = decodeSockaddr ctx.mem ctx.regs[1]! (capturedLen ctx) := by
  simp only [enterStateOf, args_eta]
  rw [maybeCaptureString_frame]
  -- the string capture leaves number, arguments and address fields alone
  generalize (maybeCaptureString ctx.mem _).str = str
  generalize (maybeCaptureString ctx.mem _).strLen = strLen
  simp only [maybeCaptureSockaddr]
  rw [if_neg (by rcases hnr with h | h | h <;> simp [h])]
  split
  · rename_i hnull
    rw [hnull, decodeSockaddr_null]
    rfl
  · rename_i hp
    exact captureSockaddrAt_sa ctx.mem hp _ rfl

/-! ## The address fields of an event -/

def SyscallEvent.sa (e : SyscallEvent) : SaFields :=
  ⟨e.saFamily, e.saPort, e.saAddr4, e.saAddr6, e.saScopeId, e.saValid⟩

def SyscallEvent.withSa (e : SyscallEvent) (a : SaFields) : SyscallEvent :=
  { e with saFamily := a.family, saPort := a.port, saAddr4 := a.addr4,
           saAddr6 := a.addr6, saScopeId := a.scopeId, saValid := a.valid }

@[simp] theorem fillEvent_sa (id ret : BitVec 64) (s : EnterState) :
    (fillEvent id ret s).sa = s.sa := rfl

theorem SyscallEvent.withSa_sa (e : SyscallEvent) : e.withSa e.sa = e := rfl

/-! ## The destination of a `sendto` -/

/-- Two pointers show the same address, as far as `len` bytes of it count:
the same family (or none that can be read), and, where there is room for a
full IPv4 or IPv6 address, the same port and address behind it or none that
can be read. -/
def ShowSameAddress (mem : UserMem) (p q len : BitVec 64) : Prop :=
  2 ≤ len → (familyAt mem p).getD 0 = (familyAt mem q).getD 0 ∧
    (familyAt mem p = some afInet → 16 ≤ len → inetAt mem p = inetAt mem q) ∧
    (familyAt mem p = some afInet6 → 28 ≤ len → inet6At mem p = inet6At mem q)

/-- A family other than zero was read. -/
theorem familyAt_of_getD {mem : UserMem} {p : BitVec 64} {family : BitVec 16}
    (h : (familyAt mem p).getD 0 = family) (hne : family ≠ 0) : familyAt mem p = some family := by
  cases hf : familyAt mem p with
  | none =>
    rw [hf] at h
    exact absurd h.symm hne
  | some f =>
    rw [hf] at h
    exact congrArg some h

theorem decodeSockaddr_eq_iff (mem : UserMem) (p q len : BitVec 64) :
    decodeSockaddr mem p len = decodeSockaddr mem q len ↔ ShowSameAddress mem p q len := by
  by_cases h2 : len < 2
  · rw [decodeSockaddr_short h2, decodeSockaddr_short h2]
    simp only [ShowSameAddress, true_iff]
    exact fun h => absurd h2 (BitVec.not_lt.mpr h)
  rw [BitVec.not_lt] at h2
  constructor
  · intro h _
    have hfam : (familyAt mem p).getD 0 = (familyAt mem q).getD 0 := by
      rw [← decodeSockaddr_family h2, ← decodeSockaddr_family h2, h]
    refine ⟨hfam, fun hp hlen => ?_, fun hp hlen => ?_⟩
    · have hq : familyAt mem q = some afInet :=
        familyAt_of_getD (by rw [← hfam, hp]; rfl) (by decide)
      rw [decodeSockaddr_inet hp hlen, decodeSockaddr_inet hq hlen] at h
      exact SaFields.ofInet_injective h
    · have hq : familyAt mem q = some afInet6 :=
        familyAt_of_getD (by rw [← hfam, hp]; rfl) (by decide)
      rw [decodeSockaddr_inet6 hp hlen, decodeSockaddr_inet6 hq hlen] at h
      exact SaFields.ofInet6_injective h
  · intro h
    obtain ⟨hfam, h4, h6⟩ := h h2
    by_cases hp4 : familyAt mem p = some afInet ∧ 16 ≤ len
    · obtain ⟨hp, hlen⟩ := hp4
      have hq : familyAt mem q = some afInet :=
        familyAt_of_getD (by rw [← hfam, hp]; rfl) (by decide)
      rw [decodeSockaddr_inet hp hlen, decodeSockaddr_inet hq hlen, h4 hp hlen]
    by_cases hp6 : familyAt mem p = some afInet6 ∧ 28 ≤ len
    · obtain ⟨hp, hlen⟩ := hp6
      have hq : familyAt mem q = some afInet6 :=
        familyAt_of_getD (by rw [← hfam, hp]; rfl) (by decide)
      rw [decodeSockaddr_inet6 hp hlen, decodeSockaddr_inet6 hq hlen, h6 hp hlen]
    -- neither shows more than its family, since both have the same one
    have hback : ∀ {f}, f ≠ 0 → familyAt mem q = some f → familyAt mem p = some f :=
      fun hf hq => familyAt_of_getD (by rw [hfam, hq]; rfl) hf
    rw [decodeSockaddr_other h2 (fun h h' => hp4 ⟨h, h'⟩) (fun h h' => hp6 ⟨h, h'⟩),
      decodeSockaddr_other h2 (fun h h' => hp4 ⟨hback (by decide) h, h'⟩)
        (fun h h' => hp6 ⟨hback (by decide) h, h'⟩), hfam]

/-- The event of a `sendto` reports the address at `args[4]`, of which
`args[5]` bytes count: in its fields, and so in the text of the call. -/
def ReportsDestination (libc : Libc) (e : SyscallEvent) (mem : UserMem) : Prop :=
  e.sa = decodeSockaddr mem e.args[4]! e.args[5]! ∧
    callText libc e = callText libc (e.withSa (decodeSockaddr mem e.args[4]! e.args[5]!))

/-- **When the destination of a `sendto` is the one the caller passed.** The
address fields are read at the payload pointer `args[1]`, so they are right
exactly when the payload shows the same address as `args[4]` does. -/
theorem sendto_address_iff (libc : Libc) (id ret : BitVec 64) (ctx : SysEnter)
    (hnr : ctx.nr.setWidth 32 = nrSendto) :
    ReportsDestination libc (fillEvent id ret (enterStateOf ctx)) ctx.mem ↔
      ShowSameAddress ctx.mem ctx.regs[1]! ctx.regs[4]! ctx.regs[5]! := by
  have hsa : (fillEvent id ret (enterStateOf ctx)).sa
      = decodeSockaddr ctx.mem ctx.regs[1]! ctx.regs[5]! := by
    rw [fillEvent_sa, enterStateOf_sa (Or.inr (Or.inr hnr)), capturedLen, if_pos hnr]
  simp only [ReportsDestination, args_fillEvent]
  rw [← decodeSockaddr_eq_iff]
  constructor
  · intro h
    rw [← hsa]
    exact h.1
  · intro h
    rw [hsa]
    refine ⟨h, ?_⟩
    rw [← h, ← hsa, SyscallEvent.withSa_sa]

/-- Memory with the given bytes at an address and nothing around them. -/
def memAt (p : BitVec 64) (bs : Bytes) : UserMem := fun a => bs[(a - p).toNat]?

/-- A datagram for 127.0.0.1 port 80 whose payload is itself the image of a
socket address, 8.8.8.8 port 53. -/
def sendtoCall : SysEnter where
  nr := 206
  regs := #v[3, 0x1000, 16, 0, 0x2000, 16]
  comm := Vector.replicate 16 0
  mem := fun a => (memAt 0x1000 [2, 0, 0, 53, 8, 8, 8, 8, 0, 0, 0, 0, 0, 0, 0, 0] a).orElse
    fun _ => memAt 0x2000 [2, 0, 0, 80, 127, 0, 0, 1, 0, 0, 0, 0, 0, 0, 0, 0] a

theorem sendto_address_iff_connected :
    ReportsDestination .plain
      (fillEvent 0x2a0000002a 16 (enterStateOf { sendtoCall with
        regs := #v[3, 0x2000, 16, 0, 0x2000, 16] })) sendtoCall.mem :=
  (sendto_address_iff .plain 0x2a0000002a 16
    { sendtoCall with regs := #v[3, 0x2000, 16, 0, 0x2000, 16] } rfl).mpr
    fun _ => ⟨rfl, fun _ _ => rfl, fun _ _ => rfl⟩

/-- The event says 8.8.8.8. -/
theorem sendto_reports_payload :
    sendtoCall.nr.setWidth 32 = nrSendto ∧
      ¬ ReportsDestination .plain (fillEvent 0x2a0000002a 16 (enterStateOf sendtoCall))
        sendtoCall.mem := by
  refine ⟨rfl, fun h => ?_⟩
  have haddr := congrArg SaFields.addr4 h.1
  revert haddr
  decide

end LibbpfTools.Strace
