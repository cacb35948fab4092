/-
LibbpfTools.Bpf.Helpers — the user-memory helpers the BPF programs call, by
their documentation in `bpf_helper_defs.h`.

User memory is a partial function from addresses to bytes: an address the
helper may not read gives `none`. A helper that returns a negative value is
`none`; one that succeeds is `some` of the bytes it stored.

`bpf_probe_read_user_str` reads up to and including the NUL, and never more
than the `size` it was given: "if the string length is larger than `size`,
just `size - 1` bytes are copied and the last byte is set to NUL". The bytes
of its result are the ones before that NUL, so its return value is one more
than their number.
-/
import LibbpfTools.Lib.Bytes

namespace LibbpfTools.Bpf

open LibbpfTools.Lib

/-- User memory as the probe helpers see it; `none` is a faulting address. -/
abbrev UserMem := BitVec 64 → Option UInt8

/-- `bpf_probe_read_user(dst, size, p)`. -/
def bpfProbeReadUser (mem : UserMem) : Nat → BitVec 64 → Option Bytes
  | 0, _ => some []
  | size + 1, p =>
      match mem p with
      | none => none
      | some b => (bpfProbeReadUser mem size (p + 1)).map (b :: ·)

/-- The bytes before the NUL, or the first `n` when no NUL is among them. -/
def readUntilNul (mem : UserMem) : Nat → BitVec 64 → Option Bytes
  | 0, _ => some []
  | n + 1, p =>
      match mem p with
      | none => none
      | some b => if b = 0 then some [] else (readUntilNul mem n (p + 1)).map (b :: ·)

/-- `bpf_probe_read_user_str(dst, size, p)`: the bytes it stores before the NUL. -/
def bpfProbeReadUserStr (mem : UserMem) (size : Nat) (p : BitVec 64) : Option Bytes :=
  (readUntilNul mem size p).map (·.take (size - 1))

/-- The NUL-terminated string `s` is in memory at `p`. -/
def HoldsString (mem : UserMem) : BitVec 64 → Bytes → Prop
  | p, [] => mem p = some 0
  | p, b :: s => b ≠ 0 ∧ mem p = some b ∧ HoldsString mem (p + 1) s

/-- The records of `size` bytes that a ring buffer of `1 << 24` bytes holds.
Each has a header of eight bytes, records are aligned to eight bytes, and the
producer never catches up with the consumer. -/
def ringbufCap (size : Nat) : Nat := (2 ^ 24 - 1) / (8 * ((size + 8 + 7) / 8))

/-! ## `bpf_probe_read_user` -/

theorem length_bpfProbeReadUser {mem : UserMem} :
    ∀ {size : Nat} {p : BitVec 64} {bs : Bytes},
      bpfProbeReadUser mem size p = some bs → bs.length = size
  | 0, p, bs, h => by
      simp only [bpfProbeReadUser, Option.some.injEq] at h
      simp [← h]
  | size + 1, p, bs, h => by
      simp only [bpfProbeReadUser] at h
      split at h
      · simp at h
      · obtain ⟨bs', hbs', rfl⟩ := Option.map_eq_some_iff.mp h
        simp [length_bpfProbeReadUser hbs']

/-- A longer read that succeeds starts with what the shorter one reads. -/
theorem bpfProbeReadUser_take {mem : UserMem} :
    ∀ {size m : Nat} {p : BitVec 64} {bs : Bytes}, m ≤ size →
      bpfProbeReadUser mem size p = some bs → bpfProbeReadUser mem m p = some (bs.take m)
  | _, 0, p, bs, _, _ => by simp [bpfProbeReadUser]
  | 0, m + 1, p, bs, hm, _ => by omega
  | size + 1, m + 1, p, bs, hm, h => by
      simp only [bpfProbeReadUser] at h ⊢
      split at h
      · simp at h
      · rename_i b hb
        obtain ⟨bs', hbs', rfl⟩ := Option.map_eq_some_iff.mp h
        rw [bpfProbeReadUser_take (by omega) hbs']
        simp

/-! ## `bpf_probe_read_user_str` -/

theorem nul_not_mem_readUntilNul {mem : UserMem} :
    ∀ {n : Nat} {p : BitVec 64} {s : Bytes}, readUntilNul mem n p = some s → 0 ∉ s
  | 0, p, s, h => by
      simp only [readUntilNul, Option.some.injEq] at h
      simp [← h]
  | n + 1, p, s, h => by
      simp only [readUntilNul] at h
      split at h
      · simp at h
      · split at h
        · simp only [Option.some.injEq] at h
          simp [← h]
        · rename_i b _ hb
          obtain ⟨s', hs', rfl⟩ := Option.map_eq_some_iff.mp h
          have ih := nul_not_mem_readUntilNul hs'
          simp only [List.mem_cons, not_or]
          exact ⟨fun h0 => hb h0.symm, ih⟩

theorem nul_not_mem_bpfProbeReadUserStr {mem : UserMem} {size : Nat} {p : BitVec 64}
    {s : Bytes} (h : bpfProbeReadUserStr mem size p = some s) : 0 ∉ s := by
  obtain ⟨s', hs', rfl⟩ := Option.map_eq_some_iff.mp h
  exact fun h0 => nul_not_mem_readUntilNul hs' (List.mem_of_mem_take h0)

theorem length_bpfProbeReadUserStr {mem : UserMem} {size : Nat} {p : BitVec 64}
    {s : Bytes} (h : bpfProbeReadUserStr mem size p = some s) : s.length ≤ size - 1 := by
  obtain ⟨s', -, rfl⟩ := Option.map_eq_some_iff.mp h
  rw [List.length_take]
  omega

theorem readUntilNul_holdsString {mem : UserMem} :
    ∀ {n : Nat} {p : BitVec 64} {s : Bytes}, HoldsString mem p s →
      readUntilNul mem n p = some (s.take n)
  | 0, p, s, _ => by simp [readUntilNul]
  | n + 1, p, [], h => by
      simp only [HoldsString] at h
      simp [readUntilNul, h]
  | n + 1, p, b :: s, h => by
      obtain ⟨hb, hp, hs⟩ := h
      simp only [readUntilNul, hp, if_neg hb, readUntilNul_holdsString hs]
      simp

/-- Of a string that is in memory the helper stores the first `size - 1` bytes. -/
theorem bpfProbeReadUserStr_holdsString {mem : UserMem} {size : Nat} {p : BitVec 64}
    {s : Bytes} (h : HoldsString mem p s) :
    bpfProbeReadUserStr mem size p = some (s.take (size - 1)) := by
  rw [bpfProbeReadUserStr, readUntilNul_holdsString h, Option.map_some, List.take_take,
    Nat.min_eq_left (by omega)]

/-- A memory that holds these bytes from address 0 on. -/
def memOf (bs : Bytes) : UserMem := fun p => bs[p.toNat]?

/-- A string in it is where it stands. -/
theorem holdsString_memOf (pre : Bytes) {s : Bytes} (rest : Bytes) (h0 : 0 ∉ s)
    (hlen : pre.length + s.length < 2 ^ 64) :
    HoldsString (memOf (pre ++ (s ++ 0 :: rest))) (BitVec.ofNat 64 pre.length) s := by
  have haddr : (BitVec.ofNat 64 pre.length).toNat = pre.length := by
    rw [BitVec.toNat_ofNat]
    omega
  induction s generalizing pre with
  | nil =>
    simp only [HoldsString, memOf, haddr]
    simp
  | cons b s ih =>
    rw [List.length_cons] at hlen
    refine ⟨fun hb => h0 (hb ▸ List.mem_cons_self), ?_, ?_⟩
    · simp only [memOf, haddr]
      simp
    · have hnext : BitVec.ofNat 64 pre.length + 1 = BitVec.ofNat 64 (pre ++ [b]).length := by
        rw [List.length_append, List.length_singleton, BitVec.ofNat_add]
        rfl
      have hshift : pre ++ (b :: s ++ 0 :: rest) = (pre ++ [b]) ++ (s ++ 0 :: rest) := by simp
      rw [hnext, hshift]
      refine ih (pre ++ [b]) (fun hmem => h0 (List.mem_cons_of_mem _ hmem)) ?_ ?_
      · rw [List.length_append, List.length_singleton]
        omega
      · rw [BitVec.toNat_ofNat, List.length_append, List.length_singleton]
        omega

end LibbpfTools.Bpf
