/-
LibbpfTools.Lib.InetText — IP addresses as text: the dotted quad of an IPv4
address and the colon-separated groups of an IPv6 address, without the `::`
that stands for a run of zero groups.

Both are numerals joined by a byte that is not a digit, so splitting the text
at that byte gives the numerals back (`List.splitOn_intercalate`) and the
address with them.
-/
import LibbpfTools.Lib.Numeral

namespace LibbpfTools.Lib

/-- The bytes of a textual IP address. -/
def IsAddrByte (c : UInt8) : Prop := IsHexDigit c ∨ c = 46 ∨ c = 58

instance (c : UInt8) : Decidable (IsAddrByte c) := inferInstanceAs (Decidable (_ ∨ _))

/-- Numerals in base `b`, joined by `sep`. -/
def joined (sep : UInt8) (b : Nat) (ns : List Nat) : Bytes :=
  [sep].intercalate (ns.map (numeral b))

/-- The dotted quad of an address whose four bytes a little-endian load read. -/
def dottedQuad (a : BitVec 32) : Bytes :=
  joined 46 10 ((leBytes 4 a.toNat).map UInt8.toNat)

/-- The eight groups of an IPv6 address. -/
def groups6 (a : Vector UInt8 16) : List Nat :=
  List.ofFn fun i : Fin 8 => 256 * a[2 * i.val].toNat + a[2 * i.val + 1].toNat

def colonHex (a : Vector UInt8 16) : Bytes := joined 58 16 (groups6 a)

example : dottedQuad 0x0100007f = ascii "127.0.0.1" := by decide

/-! ## Joined numerals -/

section Joined

variable {sep : UInt8} {b : Nat} (hb : 1 < b) (hb' : b ≤ 16) (hsep : ¬ IsHexDigit sep)
include hb hb' hsep

theorem joined_injective {ms ns : List Nat} (hm : ms ≠ []) (hn : ns ≠ [])
    (h : joined sep b ms = joined sep b ns) : ms = ns := by
  have hfree : ∀ ks : List Nat, ∀ l ∈ ks.map (numeral b), sep ∉ l := by
    intro ks l hl hmem
    obtain ⟨k, -, rfl⟩ := List.mem_map.mp hl
    exact hsep (isHexDigit_of_mem_numeral hb hb' hmem)
  have hmap : ms.map (numeral b) = ns.map (numeral b) := by
    rw [← List.splitOn_intercalate sep (hfree ms) (by simpa using hm),
      ← List.splitOn_intercalate sep (hfree ns) (by simpa using hn)]
    exact congrArg (List.splitOn sep) h
  exact List.map_injective_iff.mpr (fun _ _ => numeral_injective hb hb') hmap

end Joined

theorem mem_joined {sep : UInt8} {b : Nat} (hb : 1 < b) (hb' : b ≤ 16) {ns : List Nat}
    {c : UInt8} (hc : c ∈ joined sep b ns) : c = sep ∨ IsHexDigit c := by
  induction ns with
  | nil => simp [joined] at hc
  | cons n ns ih =>
    cases ns with
    | nil =>
      simp only [joined, List.map_cons, List.map_nil, List.intercalate_singleton] at hc
      exact Or.inr (isHexDigit_of_mem_numeral hb hb' hc)
    | cons m ns =>
      simp only [joined, List.map_cons, List.intercalate_cons_cons, List.mem_append,
        List.mem_singleton] at hc
      rcases hc with (hc | rfl) | hc
      · exact Or.inr (isHexDigit_of_mem_numeral hb hb' hc)
      · exact Or.inl rfl
      · exact ih hc

theorem length_joined_le {sep : UInt8} {b k : Nat} {ns : List Nat} (hne : ns ≠ [])
    (h : ∀ n ∈ ns, (numeral b n).length ≤ k) :
    (joined sep b ns).length + 1 ≤ ns.length * (k + 1) := by
  induction ns with
  | nil => exact absurd rfl hne
  | cons n ns ih =>
    have hn := h n (by simp)
    cases ns with
    | nil =>
      simp only [joined, List.map_cons, List.map_nil, List.intercalate_singleton,
        List.length_cons, List.length_nil]
      omega
    | cons m ns =>
      have := ih (by simp) fun x hx => h x (List.mem_cons_of_mem _ hx)
      simp only [joined, List.map_cons, List.intercalate_cons_cons, List.length_append,
        List.length_cons, List.length_nil] at this ⊢
      rw [Nat.succ_mul]
      omega

/-! ## Addresses -/

theorem leNat_leBytes : ∀ n v, v < 256 ^ n → leNat (leBytes n v) = v
  | 0, v, h => by
      rw [leBytes, leNat]
      omega
  | n + 1, v, h => by
      have hdiv : v / 256 < 256 ^ n := by
        rw [Nat.pow_succ] at h
        omega
      rw [leBytes, leNat, leNat_leBytes n _ hdiv, UInt8.toNat_ofNat']
      omega

theorem length_leBytes : ∀ n v, (leBytes n v).length = n
  | 0, _ => rfl
  | n + 1, v => by rw [leBytes, List.length_cons, length_leBytes]

theorem dottedQuad_injective : Function.Injective dottedQuad := by
  intro a b h
  have hbytes : leBytes 4 a.toNat = leBytes 4 b.toNat := by
    have hmap := joined_injective (by omega) (by omega) (by decide) (by simp [leBytes])
      (by simp [leBytes]) h
    exact List.map_injective_iff.mpr (fun _ _ => UInt8.toNat_inj.mp) hmap
  apply BitVec.eq_of_toNat_eq
  rw [← leNat_leBytes 4 a.toNat a.isLt, hbytes, leNat_leBytes 4 b.toNat b.isLt]

theorem length_dottedQuad_le (a : BitVec 32) : (dottedQuad a).length ≤ 15 := by
  have hbyte : ∀ n ∈ (leBytes 4 a.toNat).map UInt8.toNat, (numeral 10 n).length ≤ 3 := by
    intro n hn
    obtain ⟨c, -, rfl⟩ := List.mem_map.mp hn
    exact length_numeral_le (by omega) (by omega) (lt_trans c.toNat_lt (by decide))
  have hlen : (dottedQuad a).length + 1 ≤ _ := length_joined_le (by simp [leBytes]) hbyte
  rw [List.length_map, length_leBytes] at hlen
  omega

theorem length_groups6 (a : Vector UInt8 16) : (groups6 a).length = 8 := by
  simp [groups6]

theorem groups6_ne_nil (a : Vector UInt8 16) : groups6 a ≠ [] :=
  List.ne_nil_of_length_pos (by rw [length_groups6]; omega)

theorem groups6_lt {a : Vector UInt8 16} {n : Nat} (hn : n ∈ groups6 a) : n < 16 ^ 4 := by
  obtain ⟨i, rfl⟩ := List.mem_ofFn.mp hn
  have h1 := (a[2 * i.val]).toNat_lt
  have h2 := (a[2 * i.val + 1]).toNat_lt
  omega

theorem groups6_injective : Function.Injective groups6 := by
  intro a b h
  have hgroup := List.ofFn_injective h
  have hpair : ∀ i (hi : i < 8), a[2 * i] = b[2 * i] ∧ a[2 * i + 1] = b[2 * i + 1] := by
    intro i hi
    have heq : 256 * a[2 * i].toNat + a[2 * i + 1].toNat
        = 256 * b[2 * i].toNat + b[2 * i + 1].toNat := congrFun hgroup ⟨i, hi⟩
    have h1 := (a[2 * i + 1]).toNat_lt
    have h2 := (b[2 * i + 1]).toNat_lt
    exact ⟨UInt8.toNat_inj.mp (by omega), UInt8.toNat_inj.mp (by omega)⟩
  apply Vector.ext
  intro i hi
  obtain ⟨heven, hodd⟩ := hpair (i / 2) (by omega)
  rcases Nat.mod_two_eq_zero_or_one i with h0 | h1
  · have : 2 * (i / 2) = i := by omega
    simpa only [this] using heven
  · have : 2 * (i / 2) + 1 = i := by omega
    simpa only [this] using hodd

theorem colonHex_injective : Function.Injective colonHex := by
  intro a b h
  exact groups6_injective (joined_injective (by omega) (by omega) (by decide)
    (groups6_ne_nil a) (groups6_ne_nil b) h)

theorem length_colonHex_le (a : Vector UInt8 16) : (colonHex a).length ≤ 45 := by
  have hlen : (colonHex a).length + 1 ≤ (groups6 a).length * (4 + 1) :=
    length_joined_le (groups6_ne_nil a)
      fun n hn => length_numeral_le (by omega) (by omega) (groups6_lt hn)
  rw [length_groups6] at hlen
  omega

theorem isAddrByte_of_mem_dottedQuad {a : BitVec 32} {c : UInt8} (hc : c ∈ dottedQuad a) :
    IsAddrByte c := by
  rcases mem_joined (by omega) (by omega) hc with rfl | h
  · exact Or.inr (Or.inl rfl)
  · exact Or.inl h

theorem isAddrByte_of_mem_colonHex {a : Vector UInt8 16} {c : UInt8} (hc : c ∈ colonHex a) :
    IsAddrByte c := by
  rcases mem_joined (by omega) (by omega) hc with rfl | h
  · exact Or.inr (Or.inr rfl)
  · exact Or.inl h

end LibbpfTools.Lib
