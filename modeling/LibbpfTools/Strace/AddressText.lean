/-
LibbpfTools.Strace.AddressText — what the text of an address tells about the
memory it was read from.

An `Address` is a full IPv4 or IPv6 address as the caller wrote it: the port
in network order, the address bytes and, for IPv6, the scope id in host
order. `addressText` is its text, and it is injective, so the text decodes
back to the address (`address_text_decodes`).

Every other address is shown as `NULL` (`null_text_iff`). For one that could
not be captured that is what it should be. A readable address of another
family ends up there as well: its family is stored, the formatter has a text
for it, but the flag in between is only ever set for IPv4 and IPv6.
-/
import LibbpfTools.Strace.Sockaddr

namespace LibbpfTools.Strace

open LibbpfTools.Lib LibbpfTools.Bpf

/-! ## Texts -/

/-- A full address. -/
inductive Address where
  | inet (port : BitVec 16) (addr : Vector UInt8 4)
  | inet6 (port : BitVec 16) (addr : Vector UInt8 16) (scopeId : BitVec 32)

/-- The address is in memory at `p`, and `len` bytes are enough for it. -/
def Address.InMemory (mem : UserMem) (p len : BitVec 64) : Address → Prop
  | .inet port addr => 16 ≤ len ∧ ∃ bs, bpfProbeReadUser mem 16 p = some bs ∧
      leNat (bs.take 2) = 2 ∧ beNat ((bs.drop 2).take 2) = port.toNat ∧
      (bs.drop 4).take 4 = addr.toList
  | .inet6 port addr scopeId => 28 ≤ len ∧ ∃ bs, bpfProbeReadUser mem 28 p = some bs ∧
      leNat (bs.take 2) = 10 ∧ beNat ((bs.drop 2).take 2) = port.toNat ∧
      (bs.drop 8).take 16 = addr.toList ∧ leNat ((bs.drop 24).take 4) = scopeId.toNat

def inetText (port : Nat) (ip : Bytes) : Bytes :=
  ascii "\x7bsa_family=AF_INET, sin_port=" ++ (numeral 10 port ++
    (ascii ", sin_addr=\"" ++ (ip ++ ascii "\"\x7d")))

def inet6Text (port : Nat) (ip : Bytes) (scopeId : Nat) : Bytes :=
  ascii "\x7bsa_family=AF_INET6, sin6_port=" ++ (numeral 10 port ++
    (ascii ", sin6_addr=\"" ++ (ip ++
      (ascii "\", sin6_scope_id=" ++ (numeral 10 scopeId ++ ascii "\x7d")))))

def familyText (family : BitVec 16) : Bytes :=
  ascii "\x7bsa_family=" ++ (numeral 10 family.toNat ++ ascii "\x7d")

/-- The text of a full address. -/
def addressText (libc : Libc) : Address → Bytes
  | .inet port addr =>
      inetText port.toNat (libc.ntop4 (BitVec.ofNat 32 (leNat addr.toList)))
  | .inet6 port addr scopeId => inet6Text port.toNat (libc.ntop6 addr) scopeId.toNat

/-- A port or a family has at most five digits. -/
theorem length_port_le (port : BitVec 16) : (numeral 10 port.toNat).length ≤ 5 :=
  length_numeral_le (by omega) (by omega) (lt_trans port.isLt (by decide))

theorem length_scopeId_le (scopeId : BitVec 32) : (numeral 10 scopeId.toNat).length ≤ 10 :=
  length_numeral_le (by omega) (by omega) (lt_trans scopeId.isLt (by decide))

theorem length_inetText_le (port : BitVec 16) {ip : Bytes} (hip : ip.length ≤ 15) :
    (inetText port.toNat ip).length ≤ 63 := by
  have hport := length_port_le port
  simp only [inetText, List.length_append,
    show (ascii "\x7bsa_family=AF_INET, sin_port=").length = 29 from rfl,
    show (ascii ", sin_addr=\"").length = 12 from rfl, show (ascii "\"\x7d").length = 2 from rfl]
  omega

theorem length_inet6Text_le (port : BitVec 16) {ip : Bytes} (hip : ip.length ≤ 45)
    (scopeId : BitVec 32) : (inet6Text port.toNat ip scopeId.toNat).length ≤ 122 := by
  have hport := length_port_le port
  have hscope := length_scopeId_le scopeId
  simp only [inet6Text, List.length_append,
    show (ascii "\x7bsa_family=AF_INET6, sin6_port=").length = 31 from rfl,
    show (ascii ", sin6_addr=\"").length = 13 from rfl,
    show (ascii "\", sin6_scope_id=").length = 17 from rfl, show (ascii "\x7d").length = 1 from rfl]
  omega

theorem length_familyText_le (family : BitVec 16) : (familyText family).length ≤ 17 := by
  have hfamily := length_port_le family
  simp only [familyText, List.length_append,
    show (ascii "\x7bsa_family=").length = 11 from rfl, show (ascii "\x7d").length = 1 from rfl]
  omega

/-! ## What the formatter writes -/

/-- A sixteen-bit value as the `int` it is passed as. -/
theorem toNat_promoted (v : BitVec 16) : (v.setWidth 32).toNat = v.toNat := by
  have := v.isLt
  rw [BitVec.toNat_setWidth, Nat.mod_eq_of_lt (by omega)]

section Formatter

variable {libc : Libc} {e : SyscallEvent}

theorem formatSockaddr_null (hv : e.saValid = 0) :
    formatSockaddr libc e 192 = ascii "NULL" := by
  rw [formatSockaddr, if_pos hv]
  rfl

theorem formatSockaddr_inet (hv : e.saValid ≠ 0) (hf : e.saFamily = afInet) :
    formatSockaddr libc e 192 = inetText (ntohs e.saPort).toNat (libc.ntop4 e.saAddr4) := by
  have hip := libc.length_ntop4_le e.saAddr4
  have hntop : inetNtop (libc.ntop4 e.saAddr4) inetAddrstrlen = some (libc.ntop4 e.saAddr4) :=
    if_pos (by unfold inetAddrstrlen; omega)
  have htext : format "\x7bsa_family=AF_INET, sin_port=%u, sin_addr=\"%s\"\x7d"
      [.int ((ntohs e.saPort).setWidth 32), .str (libc.ntop4 e.saAddr4)]
      = inetText ((ntohs e.saPort).setWidth 32).toNat (libc.ntop4 e.saAddr4) := rfl
  rw [toNat_promoted] at htext
  have hlen := length_inetText_le (ntohs e.saPort) hip
  rw [formatSockaddr, if_neg hv, if_pos (show e.saFamily = 2 from hf)]
  simp only [hntop]
  rw [snprintf_eq_format (by rw [htext]; omega), htext]

theorem formatSockaddr_inet6 (hv : e.saValid ≠ 0) (hf : e.saFamily = afInet6) :
    formatSockaddr libc e 192
      = inet6Text (ntohs e.saPort).toNat (libc.ntop6 e.saAddr6) e.saScopeId.toNat := by
  have hip := libc.length_ntop6_le e.saAddr6
  have hntop : inetNtop (libc.ntop6 e.saAddr6) inet6Addrstrlen = some (libc.ntop6 e.saAddr6) :=
    if_pos (by unfold inet6Addrstrlen; omega)
  have htext :
      format "\x7bsa_family=AF_INET6, sin6_port=%u, sin6_addr=\"%s\", sin6_scope_id=%u\x7d"
        [.int ((ntohs e.saPort).setWidth 32), .str (libc.ntop6 e.saAddr6), .int e.saScopeId]
      = inet6Text ((ntohs e.saPort).setWidth 32).toNat (libc.ntop6 e.saAddr6)
        e.saScopeId.toNat := rfl
  rw [toNat_promoted] at htext
  have hlen := length_inet6Text_le (ntohs e.saPort) hip e.saScopeId
  have hne : ¬ e.saFamily = 2 := by rw [hf]; decide
  rw [formatSockaddr, if_neg hv, if_neg hne, if_pos (show e.saFamily = 10 from hf)]
  simp only [hntop]
  rw [snprintf_eq_format (by rw [htext]; omega), htext]

theorem formatSockaddr_other (hv : e.saValid ≠ 0) (h4 : e.saFamily ≠ afInet)
    (h6 : e.saFamily ≠ afInet6) : formatSockaddr libc e 192 = familyText e.saFamily := by
  have htext : format "\x7bsa_family=%u\x7d" [.int (e.saFamily.setWidth 32)]
      = ascii "\x7bsa_family=" ++ (numeral 10 (e.saFamily.setWidth 32).toNat ++ ascii "\x7d") := rfl
  rw [toNat_promoted] at htext
  have hlen := length_familyText_le e.saFamily
  rw [familyText] at hlen ⊢
  rw [formatSockaddr, if_neg hv, if_neg (show ¬ e.saFamily = 2 from h4),
    if_neg (show ¬ e.saFamily = 10 from h6), snprintf_eq_format (by rw [htext]; omega), htext]

/-- What holds of the four texts holds of the one that is written. -/
theorem formatSockaddr_of_texts {P : Bytes → Prop} (hnull : P (ascii "NULL"))
    (hinet : P (inetText (ntohs e.saPort).toNat (libc.ntop4 e.saAddr4)))
    (hinet6 : P (inet6Text (ntohs e.saPort).toNat (libc.ntop6 e.saAddr6) e.saScopeId.toNat))
    (hother : P (familyText e.saFamily)) : P (formatSockaddr libc e 192) := by
  by_cases hv : e.saValid = 0
  · rwa [formatSockaddr_null hv]
  by_cases h4 : e.saFamily = afInet
  · rwa [formatSockaddr_inet hv h4]
  by_cases h6 : e.saFamily = afInet6
  · rwa [formatSockaddr_inet6 hv h6]
  · rwa [formatSockaddr_other hv h4 h6]

theorem formatSockaddr_ofInet {in4 : SockaddrIn} (hsa : e.sa = .ofInet (some in4)) :
    formatSockaddr libc e 192 = inetText (ntohs in4.sinPort).toNat (libc.ntop4 in4.sinAddr) := by
  have hvalid : e.saValid = 1 := congrArg SaFields.valid hsa
  have hport : e.saPort = in4.sinPort := congrArg SaFields.port hsa
  have haddr : e.saAddr4 = in4.sinAddr := congrArg SaFields.addr4 hsa
  rw [formatSockaddr_inet (by rw [hvalid]; decide) (congrArg SaFields.family hsa), hport, haddr]

theorem formatSockaddr_ofInet6 {in6 : SockaddrIn6} (hsa : e.sa = .ofInet6 (some in6)) :
    formatSockaddr libc e 192 = inet6Text (ntohs in6.sin6Port).toNat (libc.ntop6 in6.sin6Addr)
      in6.sin6ScopeId.toNat := by
  have hvalid : e.saValid = 1 := congrArg SaFields.valid hsa
  have hport : e.saPort = in6.sin6Port := congrArg SaFields.port hsa
  have haddr : e.saAddr6 = in6.sin6Addr := congrArg SaFields.addr6 hsa
  have hscope : e.saScopeId = in6.sin6ScopeId := congrArg SaFields.scopeId hsa
  rw [formatSockaddr_inet6 (by rw [hvalid]; decide) (congrArg SaFields.family hsa), hport, haddr,
    hscope]

/-- Only an address without the flag is shown as `NULL`. -/
theorem formatSockaddr_eq_null_iff :
    formatSockaddr libc e 192 = ascii "NULL" ↔ e.saValid = 0 := by
  refine ⟨fun h => ?_, formatSockaddr_null⟩
  by_contra hv
  -- every other text starts with a brace
  have hbrace : (formatSockaddr libc e 192).head? = some 123 := by
    by_cases h4 : e.saFamily = afInet
    · rw [formatSockaddr_inet hv h4]
      rfl
    by_cases h6 : e.saFamily = afInet6
    · rw [formatSockaddr_inet6 hv h6]
      rfl
    rw [formatSockaddr_other hv h4 h6]
    rfl
  rw [h] at hbrace
  exact absurd hbrace (by decide)

end Formatter

/-! ## Texts are injective -/

theorem digit_ne_of_mem {n : Nat} {c d : UInt8} (hc : c ∈ numeral 10 n)
    (hd : d < 48 ∨ 57 < d) : d ≠ c := by
  rintro rfl
  obtain ⟨h1, h2⟩ := isDigit_of_mem_numeral hc
  rcases hd with hd | hd
  · exact absurd h1 (UInt8.not_le.mpr hd)
  · exact absurd h2 (UInt8.not_le.mpr hd)

theorem comma_not_mem_numeral (n : Nat) : 44 ∉ numeral 10 n :=
  fun h => digit_ne_of_mem h (Or.inl (by decide)) rfl

theorem inetText_injective {port port' : Nat} {ip ip' : Bytes}
    (h : inetText port ip = inetText port' ip') : port = port' ∧ ip = ip' := by
  have h1 := List.append_cancel_left h
  obtain ⟨hport, hrest⟩ := append_cons_inj (comma_not_mem_numeral port)
    (comma_not_mem_numeral port') h1
  have h2 : ip ++ ascii "\"\x7d" = ip' ++ ascii "\"\x7d" :=
    List.append_cancel_left (show ascii " sin_addr=\"" ++ _ = ascii " sin_addr=\"" ++ _ from hrest)
  exact ⟨numeral_injective (by omega) (by omega) hport, List.append_cancel_right h2⟩

theorem inet6Text_injective {port port' scopeId scopeId' : Nat} {ip ip' : Bytes}
    (h : inet6Text port ip scopeId = inet6Text port' ip' scopeId') :
    port = port' ∧ ip = ip' ∧ scopeId = scopeId' := by
  have h1 := List.append_cancel_left h
  obtain ⟨hport, hrest⟩ := append_cons_inj (comma_not_mem_numeral port)
    (comma_not_mem_numeral port') h1
  have h2 : ip ++ (ascii "\", sin6_scope_id=" ++ (numeral 10 scopeId ++ ascii "\x7d"))
      = ip' ++ (ascii "\", sin6_scope_id=" ++ (numeral 10 scopeId' ++ ascii "\x7d")) :=
    List.append_cancel_left
      (show ascii " sin6_addr=\"" ++ _ = ascii " sin6_addr=\"" ++ _ from hrest)
  -- the scope id is what follows the last equals sign
  have hsplit : ∀ (t : Bytes) (n : Nat),
      t ++ (ascii "\", sin6_scope_id=" ++ (numeral 10 n ++ ascii "\x7d"))
        = (t ++ ascii "\", sin6_scope_id") ++ 61 :: (numeral 10 n ++ ascii "\x7d") := by
    intro t n
    rw [List.append_assoc]
    rfl
  have hlast : ∀ n, 61 ∉ numeral 10 n ++ ascii "\x7d" := by
    intro n hmem
    rcases List.mem_append.mp hmem with hmem | hmem
    · exact digit_ne_of_mem hmem (Or.inr (by decide)) rfl
    · exact absurd hmem (by decide)
  rw [hsplit, hsplit] at h2
  obtain ⟨hip, hscope⟩ := append_cons_inj_last (hlast scopeId) (hlast scopeId') h2
  exact ⟨numeral_injective (by omega) (by omega) hport, List.append_cancel_right hip,
    numeral_injective (by omega) (by omega) (List.append_cancel_right hscope)⟩

/-- Distinct addresses have distinct texts. -/
theorem addressText_injective (libc : Libc) : Function.Injective (addressText libc) := by
  intro a b h
  cases a with
  | inet port addr =>
    cases b with
    | inet port' addr' =>
      obtain ⟨hport, hip⟩ := inetText_injective h
      have haddr : leNat addr.toList = leNat addr'.toList := by
        have hlt : ∀ v : Vector UInt8 4, leNat v.toList < 2 ^ 32 := fun v => by
          have := leNat_lt v.toList
          rw [Vector.length_toList] at this
          exact this
        have heq := congrArg BitVec.toNat (libc.ntop4_injective hip)
        rw [BitVec.toNat_ofNat, BitVec.toNat_ofNat, Nat.mod_eq_of_lt (hlt addr),
          Nat.mod_eq_of_lt (hlt addr')] at heq
        exact heq
      rw [BitVec.eq_of_toNat_eq hport,
        Vector.toList_inj.mp (leNat_injective (by simp) haddr)]
    | inet6 port' addr' scopeId' =>
      have hne : (some 44 : Option UInt8) = some 54 := congrArg (fun t => (t.drop 18).head?) h
      exact absurd hne (by decide)
  | inet6 port addr scopeId =>
    cases b with
    | inet port' addr' =>
      have hne : (some 54 : Option UInt8) = some 44 := congrArg (fun t => (t.drop 18).head?) h
      exact absurd hne (by decide)
    | inet6 port' addr' scopeId' =>
      obtain ⟨hport, hip, hscope⟩ := inet6Text_injective h
      rw [BitVec.eq_of_toNat_eq hport, libc.ntop6_injective hip, BitVec.eq_of_toNat_eq hscope]

/-! ## From memory to text -/

/-- The call passes this address. -/
structure PassesAddress (ctx : SysEnter) (a : Address) : Prop where
  call : ctx.nr.setWidth 32 = nrConnect ∨ ctx.nr.setWidth 32 = nrBind
  nonnull : ctx.regs[1]! ≠ 0
  inMemory : a.InMemory ctx.mem ctx.regs[1]! ctx.regs[2]!

theorem eventSa_connect {ctx : SysEnter}
    (hnr : ctx.nr.setWidth 32 = nrConnect ∨ ctx.nr.setWidth 32 = nrBind) (id ret : BitVec 64) :
    (fillEvent id ret (enterStateOf ctx)).sa
      = decodeSockaddr ctx.mem ctx.regs[1]! ctx.regs[2]! := by
  have hlen : capturedLen ctx = ctx.regs[2]! := by
    rw [capturedLen, if_neg (by rcases hnr with h | h <;> rw [h] <;> decide)]
  rw [fillEvent_sa, enterStateOf_sa (by rcases hnr with h | h <;> simp [HasAddress, h]), hlen]

/-- The family of an address whose first bytes were read. -/
theorem familyAt_of_read {mem : UserMem} {p : BitVec 64} {size : Nat} {bs : Bytes} (hp : p ≠ 0)
    (h2 : 2 ≤ size) (hread : bpfProbeReadUser mem size p = some bs) :
    familyAt mem p = some (BitVec.ofNat 16 (leNat (bs.take 2))) := by
  rw [familyAt, if_neg hp, bpfProbeReadUser_take h2 hread, Option.map_some]

theorem length_port {mem : UserMem} {p : BitVec 64} {size : Nat} {bs : Bytes}
    (hread : bpfProbeReadUser mem size p = some bs) (hsize : 4 ≤ size) :
    ((bs.drop 2).take 2).length = 2 := by
  rw [List.length_take, List.length_drop, length_bpfProbeReadUser hread]
  omega

theorem sin6Addr_load {bs : Bytes} {addr : Vector UInt8 16}
    (h : (bs.drop 8).take 16 = addr.toList) : (SockaddrIn6.load bs).sin6Addr = addr := by
  apply Vector.ext
  intro i hi
  have hget : bs[8 + i]? = some addr[i] := by
    have := congrArg (·[i]?) h
    simpa [List.getElem?_take, List.getElem?_drop, hi] using this
  simp [SockaddrIn6.load, List.getD, hget]

section Captured

variable {libc : Libc} {ctx : SysEnter} (id ret : BitVec 64)

/-- The event of a call with a full IPv4 address shows that address. -/
theorem text_of_inet {port : BitVec 16} {addr : Vector UInt8 4}
    (h : PassesAddress ctx (.inet port addr)) :
    formatSockaddr libc (fillEvent id ret (enterStateOf ctx)) 192
      = addressText libc (.inet port addr) := by
  obtain ⟨hlen, bs, hread, hfam, hport, haddr⟩ := h.inMemory
  have hsa := eventSa_connect h.call id ret
  have hfamily : familyAt ctx.mem ctx.regs[1]! = some afInet := by
    rw [familyAt_of_read h.nonnull (by omega) hread, hfam]
    rfl
  rw [decodeSockaddr_inet hfamily hlen, inetAt, hread] at hsa
  rw [formatSockaddr_ofInet hsa, addressText, ← hport, ← haddr,
    ← ntohs_ofLe_of_length (length_port hread (by omega))]
  rfl

/-- The event of a call with a full IPv6 address shows that address. -/
theorem text_of_inet6 {port : BitVec 16} {addr : Vector UInt8 16} {scopeId : BitVec 32}
    (h : PassesAddress ctx (.inet6 port addr scopeId)) :
    formatSockaddr libc (fillEvent id ret (enterStateOf ctx)) 192
      = addressText libc (.inet6 port addr scopeId) := by
  obtain ⟨hlen, bs, hread, hfam, hport, haddr, hscope⟩ := h.inMemory
  have hsa := eventSa_connect h.call id ret
  have hfamily : familyAt ctx.mem ctx.regs[1]! = some afInet6 := by
    rw [familyAt_of_read h.nonnull (by omega) hread, hfam]
    rfl
  rw [decodeSockaddr_inet6 hfamily hlen, inet6At, hread] at hsa
  have hid : (SockaddrIn6.load bs).sin6ScopeId = scopeId := by
    rw [SockaddrIn6.load, hscope, BitVec.ofNat_toNat, BitVec.setWidth_eq]
  rw [formatSockaddr_ofInet6 hsa, addressText, ← hport, sin6Addr_load haddr, hid,
    ← ntohs_ofLe_of_length (length_port hread (by omega))]
  rfl

end Captured

/-- The text of a full address is shorter than the buffer it is written to. -/
theorem length_addressText_lt (libc : Libc) (a : Address) : (addressText libc a).length < 192 := by
  cases a with
  | inet port addr =>
    have := length_inetText_le port (libc.length_ntop4_le (BitVec.ofNat 32 (leNat addr.toList)))
    rw [addressText]
    omega
  | inet6 port addr scopeId =>
    have := length_inet6Text_le port (libc.length_ntop6_le addr) scopeId
    rw [addressText]
    omega

/-- **The text of an IPv4 or IPv6 address loses nothing.** There is a decoder
that gives back family, port, address and scope id from the text of every
`connect` and `bind` that passes a full address, whatever else the call and
its memory are; and no such text is cut off by the buffer. So two memories
that differ in any of these have different texts. -/
theorem address_text_decodes (libc : Libc) : ∃ decode : Bytes → Option Address,
    ∀ (id ret : BitVec 64) (ctx : SysEnter) (a : Address), PassesAddress ctx a →
      formatSockaddr libc (fillEvent id ret (enterStateOf ctx)) 192 = addressText libc a ∧
      (addressText libc a).length < 192 ∧
      decode (formatSockaddr libc (fillEvent id ret (enterStateOf ctx)) 192) = some a := by
  classical
  refine ⟨Function.partialInv (addressText libc), ?_⟩
  intro id ret ctx a h
  have htext : formatSockaddr libc (fillEvent id ret (enterStateOf ctx)) 192
      = addressText libc a := by
    cases a with
    | inet port addr => exact text_of_inet id ret h
    | inet6 port addr scopeId => exact text_of_inet6 id ret h
  rw [htext]
  exact ⟨rfl, length_addressText_lt libc a,
    Function.partialInv_left (addressText_injective libc) a⟩

/-- A `connect` to `2001:db8:1:2:3:4:5:6` port 443 on link 2. -/
def connectCall : SysEnter where
  nr := 203
  regs := #v[3, 0x1000, 28, 0, 0, 0]
  comm := Vector.replicate 16 0
  mem := memAt 0x1000 [10, 0, 1, 187, 0, 0, 0, 0, 0x20, 1, 0xd, 0xb8, 0, 1, 0, 2, 0, 3, 0, 4,
    0, 5, 0, 6, 2, 0, 0, 0]

theorem address_text_decodes_connect :
    ∃ decode : Bytes → Option Address,
      decode (formatSockaddr .plain (fillEvent 0x2a0000002a 0 (enterStateOf connectCall)) 192)
        = some (.inet6 443 #v[0x20, 1, 0xd, 0xb8, 0, 1, 0, 2, 0, 3, 0, 4, 0, 5, 0, 6] 2) := by
  obtain ⟨decode, hdecode⟩ := address_text_decodes .plain
  refine ⟨decode, (hdecode 0x2a0000002a 0 connectCall _ ⟨Or.inl rfl, by decide, ?_⟩).2.2⟩
  exact ⟨by decide, _, rfl, by decide, by decide, by decide, by decide⟩

/-! ## `NULL` -/

section Null

variable (mem : UserMem) (p len : BitVec 64)

/-- No address could be captured: there is none, its family cannot be read, or
it is an IPv4 or IPv6 address that is too short or cannot be read to its end. -/
def NotCaptured : Prop :=
  p = 0 ∨ len < 2 ∨ bpfProbeReadUser mem 2 p = none ∨
    (familyAt mem p = some afInet ∧ (len < 16 ∨ bpfProbeReadUser mem 16 p = none)) ∨
    (familyAt mem p = some afInet6 ∧ (len < 28 ∨ bpfProbeReadUser mem 28 p = none))

/-- A readable address of a family other than IPv4 and IPv6. -/
def OtherFamily : Prop :=
  2 ≤ len ∧ ∃ family, familyAt mem p = some family ∧ family ≠ afInet ∧ family ≠ afInet6

/-- What the text of an address should be: `NULL` for one that could not be
captured and only then, the number for a family without a text of its own. -/
structure ShownFaithfully (text : Bytes) : Prop where
  null_iff : text = ascii "NULL" ↔ NotCaptured mem p len
  other : ∀ family, 2 ≤ len → familyAt mem p = some family → family ≠ afInet →
    family ≠ afInet6 → text = familyText family

variable {mem p len}

/-- The family was read, so the address is there. -/
theorem read_of_familyAt {family : BitVec 16} (h : familyAt mem p = some family) :
    p ≠ 0 ∧ bpfProbeReadUser mem 2 p ≠ none := by
  constructor
  · rintro rfl
    simp [familyAt] at h
  · intro hnone
    simp [familyAt, hnone] at h

/-- A full IPv4 or IPv6 address is captured and has the flag. -/
theorem captured_of_inet {in4 : SockaddrIn} (hf : familyAt mem p = some afInet)
    (hlen : 16 ≤ len) (hread : inetAt mem p = some in4) :
    ¬ NotCaptured mem p len ∧ (decodeSockaddr mem p len).valid = 1 := by
  refine ⟨?_, by rw [decodeSockaddr_inet hf hlen, hread]; rfl⟩
  obtain ⟨hp, hread2⟩ := read_of_familyAt hf
  rintro (h | h | h | ⟨-, h | h⟩ | ⟨h, -⟩)
  · exact hp h
  · exact BitVec.not_lt.mpr (BitVec.le_trans (by decide) hlen) h
  · exact hread2 h
  · exact BitVec.not_lt.mpr hlen h
  · simp [inetAt, h] at hread
  · exact absurd (Option.some.inj (hf.symm.trans h)) (by decide)

theorem captured_of_inet6 {in6 : SockaddrIn6} (hf : familyAt mem p = some afInet6)
    (hlen : 28 ≤ len) (hread : inet6At mem p = some in6) :
    ¬ NotCaptured mem p len ∧ (decodeSockaddr mem p len).valid = 1 := by
  refine ⟨?_, by rw [decodeSockaddr_inet6 hf hlen, hread]; rfl⟩
  obtain ⟨hp, hread2⟩ := read_of_familyAt hf
  rintro (h | h | h | ⟨h, -⟩ | ⟨-, h | h⟩)
  · exact hp h
  · exact BitVec.not_lt.mpr (BitVec.le_trans (by decide) hlen) h
  · exact hread2 h
  · exact absurd (Option.some.inj (hf.symm.trans h)) (by decide)
  · exact BitVec.not_lt.mpr hlen h
  · simp [inet6At, h] at hread

/-- An address of another family is captured and does not have it. -/
theorem captured_of_other (h : OtherFamily mem p len) :
    ¬ NotCaptured mem p len ∧ (decodeSockaddr mem p len).valid = 0 := by
  obtain ⟨hlen, family, hf, h4, h6⟩ := h
  have hne4 : familyAt mem p ≠ some afInet := fun h => h4 (Option.some.inj (hf.symm.trans h))
  have hne6 : familyAt mem p ≠ some afInet6 := fun h => h6 (Option.some.inj (hf.symm.trans h))
  constructor
  · obtain ⟨hp, hread2⟩ := read_of_familyAt hf
    rintro (h | h | h | ⟨h, -⟩ | ⟨h, -⟩)
    · exact hp h
    · exact BitVec.not_lt.mpr hlen h
    · exact hread2 h
    · exact hne4 h
    · exact hne6 h
  · rw [decodeSockaddr_other hlen (fun h => absurd h hne4) (fun h => absurd h hne6)]
    rfl

theorem valid_of_notCaptured (h : NotCaptured mem p len) :
    (decodeSockaddr mem p len).valid = 0 := by
  by_cases h2 : len < 2
  · rw [decodeSockaddr_short h2]
    rfl
  have hlen := BitVec.not_lt.mp h2
  by_cases h4 : familyAt mem p = some afInet ∧ 16 ≤ len
  · rw [decodeSockaddr_inet h4.1 h4.2]
    cases hread : inetAt mem p with
    | none => rfl
    | some in4 => exact absurd h (captured_of_inet h4.1 h4.2 hread).1
  by_cases h6 : familyAt mem p = some afInet6 ∧ 28 ≤ len
  · rw [decodeSockaddr_inet6 h6.1 h6.2]
    cases hread : inet6At mem p with
    | none => rfl
    | some in6 => exact absurd h (captured_of_inet6 h6.1 h6.2 hread).1
  rw [decodeSockaddr_other hlen (fun h h' => h4 ⟨h, h'⟩) (fun h h' => h6 ⟨h, h'⟩)]
  rfl

/-- An address that is captured without the flag is of another family. -/
theorem other_of_valid (hv : (decodeSockaddr mem p len).valid = 0)
    (hn : ¬ NotCaptured mem p len) : OtherFamily mem p len := by
  simp only [NotCaptured, not_or, not_and, BitVec.not_lt] at hn
  obtain ⟨hp, hlen, hread, hn4, hn6⟩ := hn
  obtain ⟨b, hb⟩ := Option.ne_none_iff_exists'.mp hread
  have hf : familyAt mem p = some (BitVec.ofNat 16 (leNat b)) := by
    rw [familyAt, if_neg hp, hb, Option.map_some]
  refine ⟨hlen, _, hf, fun h4 => ?_, fun h6 => ?_⟩
  · rw [h4] at hf
    obtain ⟨hlen4, hread4⟩ := hn4 hf
    obtain ⟨bs, hbs⟩ := Option.ne_none_iff_exists'.mp hread4
    have hread : inetAt mem p = some (SockaddrIn.load bs) := by rw [inetAt, hbs, Option.map_some]
    rw [(captured_of_inet hf hlen4 hread).2] at hv
    exact absurd hv (by decide)
  · rw [h6] at hf
    obtain ⟨hlen6, hread6⟩ := hn6 hf
    obtain ⟨bs, hbs⟩ := Option.ne_none_iff_exists'.mp hread6
    have hread : inet6At mem p = some (SockaddrIn6.load bs) := by
      rw [inet6At, hbs, Option.map_some]
    rw [(captured_of_inet6 hf hlen6 hread).2] at hv
    exact absurd hv (by decide)

end Null

/-- **When `NULL` means that no address could be captured.** The text of the
address of a `connect` or `bind` is what it should be exactly when the address
is not a readable one of another family. -/
theorem null_text_iff (libc : Libc) (id ret : BitVec 64) (ctx : SysEnter)
    (hnr : ctx.nr.setWidth 32 = nrConnect ∨ ctx.nr.setWidth 32 = nrBind) :
    ShownFaithfully ctx.mem ctx.regs[1]! ctx.regs[2]!
        (formatSockaddr libc (fillEvent id ret (enterStateOf ctx)) 192) ↔
      ¬ OtherFamily ctx.mem ctx.regs[1]! ctx.regs[2]! := by
  have hvalid : (fillEvent id ret (enterStateOf ctx)).saValid
      = (decodeSockaddr ctx.mem ctx.regs[1]! ctx.regs[2]!).valid :=
    congrArg SaFields.valid (eventSa_connect hnr id ret)
  constructor
  · intro h hother
    obtain ⟨hn, hv⟩ := captured_of_other hother
    exact hn (h.null_iff.mp (formatSockaddr_null (hvalid.trans hv)))
  · intro hother
    refine ⟨?_, fun family hlen hf h4 h6 => absurd ⟨hlen, family, hf, h4, h6⟩ hother⟩
    rw [formatSockaddr_eq_null_iff, hvalid]
    refine ⟨fun hv => ?_, valid_of_notCaptured⟩
    by_contra hn
    exact hother (other_of_valid hv hn)

theorem null_text_iff_connect :
    ShownFaithfully connectCall.mem 0x1000 28
      (formatSockaddr .plain (fillEvent 0x2a0000002a 0 (enterStateOf connectCall)) 192) := by
  refine (null_text_iff .plain 0x2a0000002a 0 connectCall (Or.inl rfl)).mpr ?_
  rintro ⟨-, family, hf, -, h6⟩
  exact h6 (Option.some.inj hf).symm

/-- A `connect` to the UNIX socket `/s`. -/
def connectUnix : SysEnter where
  nr := 203
  regs := #v[3, 0x1000, 5, 0, 0, 0]
  comm := Vector.replicate 16 0
  mem := memAt 0x1000 [1, 0, 47, 115, 0]

/-- Its address is readable and of family 1, and the text is `NULL`. -/
theorem unix_address_shown_null :
    (connectUnix.nr.setWidth 32 = nrConnect ∨ connectUnix.nr.setWidth 32 = nrBind) ∧
      familyAt connectUnix.mem 0x1000 = some 1 ∧
      formatSockaddr .plain (fillEvent 0x2a0000002a 0 (enterStateOf connectUnix)) 192
        = ascii "NULL" ∧
      ¬ ShownFaithfully connectUnix.mem connectUnix.regs[1]! connectUnix.regs[2]!
        (formatSockaddr .plain (fillEvent 0x2a0000002a 0 (enterStateOf connectUnix)) 192) := by
  have hnull : formatSockaddr .plain (fillEvent 0x2a0000002a 0 (enterStateOf connectUnix)) 192
      = ascii "NULL" := by
    decide
  refine ⟨Or.inl rfl, by decide, hnull, fun h => ?_⟩
  have htext := h.other 1 (by decide) (by decide) (by decide) (by decide)
  rw [hnull] at htext
  exact absurd htext (by decide)

end LibbpfTools.Strace
