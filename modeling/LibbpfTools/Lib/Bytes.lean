/-
LibbpfTools.Lib.Bytes — byte strings, C character arrays and byte order.

A C `char` is a byte, so text is a byte list throughout and `ascii` turns the
literals of a program into one. A C string is the bytes of an array before
its first NUL (`cstr`), which is where the length of an array and the length
of the string in it part company: `strWrite` writes a string and its NUL over
the front of a fixed array and keeps the rest.

Loads and stores are little-endian, `leNat` and `leBytes` inverting each
other (`leBytes_leNat`); `beNat` is the network byte order and `ntohs` the
swap between the two on a sixteen-bit value (`ntohs_ofLe`).
-/
import Mathlib

namespace LibbpfTools.Lib

abbrev Bytes := List UInt8

/-- The bytes of a string literal of a C program. -/
def ascii (s : String) : Bytes := s.toByteArray.data.toList

/-- A property of the bytes of a literal is checked byte by byte. -/
theorem forall_mem_of_all {P : UInt8 → Prop} [DecidablePred P] {s : Bytes}
    (h : s.all (fun c => P c) = true) : ∀ c ∈ s, P c := by
  intro c hc
  have := List.all_eq_true.mp h c hc
  simpa using this

/-! ## Text up to a separator -/

/-- Text up to the first separator, and the rest, can be told apart. -/
theorem append_cons_inj {sep : UInt8} {a b r r' : Bytes} (ha : sep ∉ a) (hb : sep ∉ b)
    (h : a ++ sep :: r = b ++ sep :: r') : a = b ∧ r = r' := by
  induction a generalizing b with
  | nil =>
    cases b with
    | nil => exact ⟨rfl, (List.cons.inj h).2⟩
    | cons c b => exact absurd (List.mem_cons.mpr (Or.inl (List.cons.inj h).1)) hb
  | cons c a ih =>
    cases b with
    | nil => exact absurd (List.mem_cons.mpr (Or.inl (List.cons.inj h).1.symm)) ha
    | cons d b =>
      obtain ⟨rfl, htail⟩ := List.cons.inj h
      obtain ⟨rfl, hr⟩ := ih (List.not_mem_of_not_mem_cons ha)
        (List.not_mem_of_not_mem_cons hb) htail
      exact ⟨rfl, hr⟩

/-- The same from the other end: text from the last separator on. -/
theorem append_cons_inj_last {sep : UInt8} {a b r r' : Bytes} (hr : sep ∉ r) (hr' : sep ∉ r')
    (h : a ++ sep :: r = b ++ sep :: r') : a = b ∧ r = r' := by
  have hrev : r.reverse ++ sep :: a.reverse = r'.reverse ++ sep :: b.reverse := by
    simpa using congrArg List.reverse h
  obtain ⟨h1, h2⟩ := append_cons_inj (by simpa using hr) (by simpa using hr') hrev
  exact ⟨List.reverse_inj.mp h2, List.reverse_inj.mp h1⟩

/-- The same for a separator of several bytes: it must not occur again in what
follows its first byte. -/
theorem append_sep_inj_last {s : UInt8} {t a b r r' : Bytes} (hr : ¬ s :: t <:+: t ++ r)
    (hr' : ¬ s :: t <:+: t ++ r') (h : a ++ s :: (t ++ r) = b ++ s :: (t ++ r')) :
    a = b ∧ r = r' := by
  rcases List.append_eq_append_iff.mp h with ⟨d, rfl, hd⟩ | ⟨d, rfl, hd⟩
  · cases d with
    | nil => exact ⟨by simp, List.append_cancel_left (List.cons.inj hd).2⟩
    | cons c d =>
      refine absurd ⟨d, r', ?_⟩ hr
      simpa using (List.cons.inj hd).2.symm
  · cases d with
    | nil => exact ⟨by simp, (List.append_cancel_left (List.cons.inj hd).2).symm⟩
    | cons c d =>
      refine absurd ⟨d, r, ?_⟩ hr'
      simpa using (List.cons.inj hd).2.symm

/-- Two ways to cut a text at a separator are the same cut, or one of them is
further to the right by a whole separator. -/
theorem append_sep_cases {s : UInt8} {t a b r r' : Bytes} (hs : s ∉ t)
    (h : a ++ s :: (t ++ r) = b ++ s :: (t ++ r')) :
    (a = b ∧ r = r') ∨
      (∃ x, b = a ++ s :: (t ++ x) ∧ r = x ++ s :: (t ++ r')) ∨
      ∃ x, a = b ++ s :: (t ++ x) ∧ r' = x ++ s :: (t ++ r) := by
  -- the longer front reaches over the separator, whose first byte it does not have again
  have hlonger : ∀ {d r r' : Bytes} {c : UInt8}, s :: (t ++ r) = c :: d ++ s :: (t ++ r') →
      ∃ x, c :: d = s :: (t ++ x) ∧ r = x ++ s :: (t ++ r') := by
    intro d r r' c heq
    obtain ⟨rfl, htail⟩ := List.cons.inj heq
    rcases List.append_eq_append_iff.mp htail with ⟨x, rfl, hx⟩ | ⟨x, rfl, hx⟩
    · exact ⟨x, rfl, hx⟩
    · cases x with
      | nil => exact ⟨[], by simp, hx.symm⟩
      | cons y x =>
        obtain ⟨rfl, -⟩ := List.cons.inj hx
        exact absurd (List.mem_append_right _ List.mem_cons_self) hs
  rcases List.append_eq_append_iff.mp h with ⟨d, rfl, hd⟩ | ⟨d, rfl, hd⟩
  · cases d with
    | nil => exact Or.inl ⟨by simp, List.append_cancel_left (List.cons.inj hd).2⟩
    | cons c d =>
      obtain ⟨x, hx, hr⟩ := hlonger hd
      exact Or.inr (Or.inl ⟨x, by rw [hx], hr⟩)
  · cases d with
    | nil => exact Or.inl ⟨by simp, (List.append_cancel_left (List.cons.inj hd).2).symm⟩
    | cons c d =>
      obtain ⟨x, hx, hr⟩ := hlonger hd
      exact Or.inr (Or.inr ⟨x, by rw [hx], hr⟩)

theorem infix_cons_of_ne {s c : UInt8} {t l : Bytes} (h : s ≠ c) (hin : s :: t <:+: c :: l) :
    s :: t <:+: l := by
  rcases List.infix_cons_iff.mp hin with hpre | hin
  · exact absurd (List.cons_prefix_cons.mp hpre).1 h
  · exact hin

/-- An occurrence does not reach across a byte that it does not have. -/
theorem infix_of_append_cons {c : UInt8} {sep x y : Bytes} (hc : c ∉ sep)
    (h : sep <:+: x ++ c :: y) : sep <:+: x ∨ sep <:+: y := by
  obtain ⟨p, q, hpq⟩ := h
  rcases List.append_eq_append_iff.mp hpq with ⟨d, rfl, hd⟩ | ⟨d, hd, hrest⟩
  · exact Or.inl ⟨p, d, rfl⟩
  cases d with
  | nil => exact Or.inl ⟨p, [], by simpa using hd⟩
  | cons c' d =>
    obtain ⟨rfl, rfl⟩ := List.cons.inj hrest
    -- the byte after `x` is before the occurrence or in it
    rcases List.append_eq_append_iff.mp hd with ⟨b, rfl, hb⟩ | ⟨b, rfl, hb⟩
    · rw [hb] at hc
      exact absurd (by simp) hc
    · cases b with
      | nil =>
        obtain rfl : c :: d = sep := hb
        exact absurd List.mem_cons_self hc
      | cons c' b =>
        obtain ⟨rfl, rfl⟩ := List.cons.inj hb
        exact Or.inr ⟨b, q, rfl⟩

/-! ## Lines -/

/-- Texts with a newline behind each. -/
def unlines (rs : List Bytes) : Bytes := rs.flatMap fun r => r ++ [10]

theorem unlines_cons (r : Bytes) (rs : List Bytes) : unlines (r :: rs) = r ++ 10 :: unlines rs := by
  simp [unlines]

/-- Texts without newlines are what splitting at newlines gives back; the last
newline has nothing behind it. -/
theorem splitOn_unlines {rs : List Bytes} (h : ∀ r ∈ rs, 10 ∉ r) :
    (unlines rs).splitOn 10 = rs ++ [[]] := by
  induction rs with
  | nil => rfl
  | cons r rs ih =>
    obtain ⟨hr, hrs⟩ := List.forall_mem_cons.mp h
    rw [unlines_cons, List.splitOn_append_cons_self, List.splitOn_eq_singleton hr, ih hrs]
    rfl

/-- There is one newline for each text exactly if they have none of their own. -/
theorem count_unlines_iff {rs : List Bytes} :
    (unlines rs).count 10 = rs.length ↔ ∀ r ∈ rs, 10 ∉ r := by
  have hle : ∀ rs : List Bytes, rs.length ≤ (unlines rs).count 10 := by
    intro rs
    induction rs with
    | nil => simp
    | cons r rs ih =>
      rw [unlines_cons, List.count_append, List.count_cons_self, List.length_cons]
      omega
  induction rs with
  | nil => simp [unlines]
  | cons r rs ih =>
    have hrest := hle rs
    rw [unlines_cons, List.count_append, List.count_cons_self, List.length_cons,
      List.forall_mem_cons, ← List.count_eq_zero]
    constructor
    · intro h
      exact ⟨by omega, ih.mp (by omega)⟩
    · intro h
      have := ih.mpr h.2
      omega

/-! ## C strings -/

/-- The C string in an array: the bytes before the first NUL. -/
def cstr (b : Bytes) : Bytes := b.takeWhile (· ≠ 0)

theorem cstr_append_nul {s : Bytes} (h : 0 ∉ s) (rest : Bytes) :
    cstr (s ++ 0 :: rest) = s := by
  rw [cstr, List.takeWhile_append_of_pos]
  · simp
  · intro b hb
    have : b ≠ 0 := fun h0 => h (h0 ▸ hb)
    simpa using this

theorem nul_not_mem_cstr (b : Bytes) : 0 ∉ cstr b := by
  intro h
  have := List.mem_takeWhile_imp h
  simp at this

/-- What stands behind an array with a NUL is not part of the string. -/
theorem cstr_append_of_mem {b : Bytes} (h : 0 ∈ b) (rest : Bytes) : cstr (b ++ rest) = cstr b := by
  obtain ⟨s, t, rfl, hs⟩ := List.eq_append_cons_of_mem h
  rw [List.append_assoc, List.cons_append, cstr_append_nul hs, cstr_append_nul hs]

/-- The NUL takes a byte of the array. -/
theorem length_cstr_lt {n : Nat} {v : Vector UInt8 n} (h : 0 ∈ v.toList) :
    (cstr v.toList).length < n := by
  obtain ⟨s, t, heq, hs⟩ := List.eq_append_cons_of_mem h
  have hlen : v.toList.length = n := Vector.length_toList
  rw [heq, cstr_append_nul hs]
  rw [heq, List.length_append, List.length_cons] at hlen
  omega

/-- Write `s` and a NUL over the front of the array, keeping the rest. -/
def strWrite {n : Nat} (dst : Vector UInt8 n) (s : Bytes) : Vector UInt8 n :=
  Vector.ofFn fun i => if h : i.val < s.length then s[i.val]
    else if i.val = s.length then 0 else dst[i.val]

theorem toList_strWrite {n : Nat} (dst : Vector UInt8 n) {s : Bytes} (h : s.length < n) :
    (strWrite dst s).toList = s ++ 0 :: dst.toList.drop (s.length + 1) := by
  have hlen : (strWrite dst s).toList.length
      = (s ++ 0 :: dst.toList.drop (s.length + 1)).length := by
    simp only [Vector.length_toList, List.length_append, List.length_cons, List.length_drop]
    omega
  refine List.ext_getElem hlen ?_
  intro i h1 h2
  simp only [Vector.getElem_toList, strWrite, Vector.getElem_ofFn]
  rcases Nat.lt_trichotomy i s.length with hlt | heq | hgt
  · simp [hlt, List.getElem_append_left hlt]
  · subst heq
    simp
  · have hnlt : ¬ i < s.length := by omega
    have hne : i ≠ s.length := by omega
    obtain ⟨j, hj⟩ : ∃ j, i - s.length = j + 1 := ⟨i - s.length - 1, by omega⟩
    have hi : s.length + 1 + j = i := by omega
    simp [hnlt, hne, List.getElem_append_right (by omega : s.length ≤ i), hj, hi]

theorem nul_mem_strWrite {n : Nat} (dst : Vector UInt8 n) {s : Bytes} (h : s.length < n) :
    0 ∈ (strWrite dst s).toList := by
  rw [toList_strWrite dst h]
  exact List.mem_append_right _ List.mem_cons_self

theorem cstr_strWrite {n : Nat} (dst : Vector UInt8 n) {s : Bytes} (h : s.length < n)
    (h0 : 0 ∉ s) : cstr (strWrite dst s).toList = s := by
  rw [toList_strWrite dst h]
  exact cstr_append_nul h0 _

/-- Copy `s` over the front of the array, keeping the rest. -/
def memWrite {n : Nat} (dst : Vector UInt8 n) (s : Bytes) : Vector UInt8 n :=
  Vector.ofFn fun i => if h : i.val < s.length then s[i.val] else dst[i.val]

/-! ## Byte order -/

/-- The number a little-endian load reads. -/
def leNat : Bytes → Nat
  | [] => 0
  | b :: bs => b.toNat + 256 * leNat bs

/-- The `n` bytes a little-endian store writes. -/
def leBytes : Nat → Nat → Bytes
  | 0, _ => []
  | n + 1, v => UInt8.ofNat (v % 256) :: leBytes n (v / 256)

/-- The number the bytes spell in network order. -/
def beNat (bs : Bytes) : Nat := leNat bs.reverse

theorem leNat_lt (bs : Bytes) : leNat bs < 256 ^ bs.length := by
  induction bs with
  | nil => simp [leNat]
  | cons b bs ih =>
    have hb : b.toNat < 256 := b.toNat_lt
    rw [leNat, List.length_cons, Nat.pow_succ]
    omega

/-- Storing what was loaded writes the same bytes. -/
theorem leBytes_leNat (bs : Bytes) : leBytes bs.length (leNat bs) = bs := by
  induction bs with
  | nil => rfl
  | cons b bs ih =>
    have hb : b.toNat < 256 := b.toNat_lt
    have hmod : (b.toNat + 256 * leNat bs) % 256 = b.toNat := by omega
    have hdiv : (b.toNat + 256 * leNat bs) / 256 = leNat bs := by omega
    rw [leNat, List.length_cons, leBytes, hmod, hdiv, ih, UInt8.ofNat_toNat]

/-- `ntohs` of a little-endian host. -/
def ntohs (x : BitVec 16) : BitVec 16 :=
  BitVec.ofNat 16 (x.toNat % 256 * 256 + x.toNat / 256)

/-- `ntohs` of a loaded port is the number its two bytes spell in network order. -/
theorem ntohs_ofLe (b₀ b₁ : UInt8) :
    (ntohs (BitVec.ofNat 16 (leNat [b₀, b₁]))).toNat = beNat [b₀, b₁] := by
  have h0 : b₀.toNat < 256 := b₀.toNat_lt
  have h1 : b₁.toNat < 256 := b₁.toNat_lt
  have hle : leNat [b₀, b₁] = b₀.toNat + 256 * b₁.toNat := by simp [leNat]
  have hbe : beNat [b₀, b₁] = b₁.toNat + 256 * b₀.toNat := by simp [beNat, leNat]
  have hload : (BitVec.ofNat 16 (leNat [b₀, b₁])).toNat = b₀.toNat + 256 * b₁.toNat := by
    rw [BitVec.toNat_ofNat, hle]
    omega
  have hmod : (b₀.toNat + 256 * b₁.toNat) % 256 = b₀.toNat := by omega
  have hdiv : (b₀.toNat + 256 * b₁.toNat) / 256 = b₁.toNat := by omega
  rw [ntohs, hload, hmod, hdiv, hbe, BitVec.toNat_ofNat]
  omega

theorem ntohs_ofLe_of_length {bs : Bytes} (h : bs.length = 2) :
    (ntohs (BitVec.ofNat 16 (leNat bs))).toNat = beNat bs := by
  obtain ⟨b₀, b₁, rfl⟩ := List.length_eq_two.mp h
  exact ntohs_ofLe b₀ b₁

theorem leNat_injective {bs bs' : Bytes} (hlen : bs.length = bs'.length)
    (h : leNat bs = leNat bs') : bs = bs' := by
  rw [← leBytes_leNat bs, ← leBytes_leNat bs', hlen, h]

end LibbpfTools.Lib
