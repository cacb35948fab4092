/-
LibbpfTools.Lib.Printf — `printf`, for the conversions `%s`, `%d`, `%u`,
`%lld`, `%llu`, `%llx` and the `#` flag of `%#llx` and `%#llo`.

A format string is parsed into pieces (`parseFormat`), so a caller keeps it
as it stands in the C source. `format` joins the pieces with the arguments;
an `int` or `long long` argument is its bits, and the conversion decides how
they are read. An argument that does not fit its conversion, which C leaves
undefined, prints nothing.

`snprintf` is the string that is left in a buffer of the given size: the text
without its end when it does not fit.
-/
import LibbpfTools.Lib.Numeral

namespace LibbpfTools.Lib

inductive Arg where
  | str (s : Bytes)
  | int (v : BitVec 32)
  | longLong (v : BitVec 64)

inductive Piece where
  | lit (c : UInt8)
  | s
  | d
  | u
  | lld
  | llu
  | llx
  | altLlx
  | altLlo
deriving DecidableEq

def parseFormat : List Char → List Piece
  | [] => []
  | '%' :: 's' :: cs => .s :: parseFormat cs
  | '%' :: 'd' :: cs => .d :: parseFormat cs
  | '%' :: 'u' :: cs => .u :: parseFormat cs
  | '%' :: 'l' :: 'l' :: 'd' :: cs => .lld :: parseFormat cs
  | '%' :: 'l' :: 'l' :: 'u' :: cs => .llu :: parseFormat cs
  | '%' :: 'l' :: 'l' :: 'x' :: cs => .llx :: parseFormat cs
  | '%' :: '#' :: 'l' :: 'l' :: 'x' :: cs => .altLlx :: parseFormat cs
  | '%' :: '#' :: 'l' :: 'l' :: 'o' :: cs => .altLlo :: parseFormat cs
  | c :: cs => .lit (UInt8.ofNat c.toNat) :: parseFormat cs

/-- A signed number in decimal. -/
def signed (v : Int) : Bytes :=
  if v < 0 then ascii "-" ++ numeral 10 v.natAbs else numeral 10 v.natAbs

/-- `%#llx`: zero has no `0x`. -/
def altHex (v : BitVec 64) : Bytes :=
  if v = 0 then numeral 16 0 else ascii "0x" ++ numeral 16 v.toNat

/-- `%#llo`: zero has no second `0`. -/
def altOct (v : BitVec 64) : Bytes :=
  if v = 0 then numeral 8 0 else ascii "0" ++ numeral 8 v.toNat

/-- What a conversion makes of its argument. -/
def Piece.convert : Piece → Arg → Bytes
  | .s, .str text => text
  | .d, .int v => signed v.toInt
  | .u, .int v => numeral 10 v.toNat
  | .lld, .longLong v => signed v.toInt
  | .llu, .longLong v => numeral 10 v.toNat
  | .llx, .longLong v => numeral 16 v.toNat
  | .altLlx, .longLong v => altHex v
  | .altLlo, .longLong v => altOct v
  | _, _ => []

def joinPieces : List Piece → List Arg → Bytes
  | [], _ => []
  | .lit c :: ps, args => c :: joinPieces ps args
  | p :: ps, a :: args => p.convert a ++ joinPieces ps args
  | _ :: ps, [] => joinPieces ps []

/-- The text that `printf` writes. -/
def format (fmt : String) (args : List Arg) : Bytes := joinPieces (parseFormat fmt.toList) args

/-- The string `snprintf(buf, sz, fmt, ...)` leaves in `buf`, for `0 < sz`. -/
def snprintf (sz : Nat) (fmt : String) (args : List Arg) : Bytes :=
  (format fmt args).take (sz - 1)

example : format "%s(fd=%llu, buf=%#llx)" [.str (ascii "read"), .longLong 3, .longLong 0x7f00]
    = ascii "read(fd=3, buf=0x7f00)" := by decide

/-! ## Lengths and bytes -/

theorem snprintf_eq_format {sz : Nat} {fmt : String} {args : List Arg}
    (h : (format fmt args).length < sz) : snprintf sz fmt args = format fmt args :=
  List.take_of_length_le (by omega)

theorem length_signed_le {v : Int} {k : Nat} (hk : 0 < k) (h : v.natAbs < 10 ^ k) :
    (signed v).length ≤ k + 1 := by
  have := length_numeral_le (by omega) hk h
  unfold signed
  split
  · rw [List.length_append, show (ascii "-").length = 1 from rfl]
    omega
  · omega

theorem length_lld_le (v : BitVec 64) : (signed v.toInt).length ≤ 20 := by
  have h1 := BitVec.toInt_lt (x := v)
  have h2 := BitVec.le_toInt v
  exact length_signed_le (k := 19) (by omega) (by omega)

theorem length_llu_le (v : BitVec 64) : (numeral 10 v.toNat).length ≤ 20 :=
  length_numeral_le (by omega) (by omega) (lt_trans v.isLt (by decide))

theorem length_altHex_le (v : BitVec 64) : (altHex v).length ≤ 18 := by
  have := length_numeral_le (b := 16) (by omega) (by omega : 0 < 16) v.isLt
  unfold altHex
  split
  · decide
  · rw [List.length_append, show (ascii "0x").length = 2 from rfl]
    omega

theorem length_altOct_le (v : BitVec 64) : (altOct v).length ≤ 23 := by
  have hlt : v.toNat < 8 ^ 22 := lt_trans v.isLt (by decide)
  have := length_numeral_le (by omega) (by omega) hlt
  unfold altOct
  split
  · decide
  · rw [List.length_append, show (ascii "0").length = 1 from rfl]
    omega

/-- The bytes an argument may take up under any conversion. -/
def Arg.width : Arg → Nat
  | .str s => s.length
  | .int _ => 11
  | .longLong _ => 23

def widths : List Arg → Nat
  | [] => 0
  | a :: args => a.width + widths args

theorem length_d_le (v : BitVec 32) : (signed v.toInt).length ≤ 11 := by
  have h1 := BitVec.toInt_lt (x := v)
  have h2 := BitVec.le_toInt v
  exact length_signed_le (k := 10) (by omega) (by omega)

theorem length_convert_le (p : Piece) (a : Arg) : (p.convert a).length ≤ a.width := by
  fun_cases Piece.convert p a with
  | case1 s => exact le_refl s.length
  | case2 v => exact length_d_le v
  | case3 v =>
    have hlt : v.toNat < 10 ^ 10 := lt_trans v.isLt (by decide)
    exact le_trans (length_numeral_le (by omega) (by omega) hlt) (by simp [Arg.width])
  | case4 v => exact le_trans (length_lld_le v) (by simp [Arg.width])
  | case5 v => exact le_trans (length_llu_le v) (by simp [Arg.width])
  | case6 v =>
    have hlt : v.toNat < 16 ^ 16 := v.isLt
    exact le_trans (length_numeral_le (by omega) (by omega) hlt) (by simp [Arg.width])
  | case7 v => exact le_trans (length_altHex_le v) (by simp [Arg.width])
  | case8 v => exact length_altOct_le v
  | case9 => simp_all

theorem length_joinPieces_le (ps : List Piece) (args : List Arg) :
    (joinPieces ps args).length ≤ ps.length + widths args := by
  fun_induction joinPieces ps args with
  | case1 => simp
  | case2 c ps args ih =>
    simp only [List.length_cons]
    omega
  | case3 p ps a args hp ih =>
    have := length_convert_le p a
    simp only [List.length_append, List.length_cons, widths]
    omega
  | case4 p ps hp ih =>
    simp only [List.length_cons]
    omega

/-- A text is as long as its format and its arguments at most. -/
theorem length_format_lt {fmt : String} {args : List Arg} {n : Nat}
    (h : (parseFormat fmt.toList).length + widths args < n) :
    (format fmt args).length < n :=
  lt_of_le_of_lt (length_joinPieces_le _ _) h

/-- A format that ends in a literal byte gives a text that ends in it. -/
theorem getLast?_joinPieces {ps : List Piece} {c : UInt8} (h : ps.getLast? = some (.lit c))
    (args : List Arg) : (joinPieces ps args).getLast? = some c := by
  obtain ⟨init, rfl⟩ := List.getLast?_eq_some_iff.mp h
  clear h
  fun_induction joinPieces init args with
  | case1 => rfl
  | case2 d ps args ih => rw [List.cons_append, joinPieces, List.getLast?_cons, ih]; rfl
  | case3 p ps a args hp ih =>
    rw [List.cons_append, joinPieces, List.getLast?_append, ih]
    · rfl
    · exact hp
  | case4 p ps hp ih =>
    rw [List.cons_append, joinPieces, ih]
    exact hp

/-- A buffer of `cap` bytes is enough for the text: it is the same text in any
larger one. -/
def EnoughFor (cap : Nat) (text : Nat → Bytes) : Prop :=
  ∀ sz, cap ≤ sz → (text sz).length < cap ∧ text sz = text cap

theorem enoughFor_of_eq {cap : Nat} {text : Nat → Bytes} {t : Bytes} (hlen : t.length < cap)
    (h : ∀ sz, cap ≤ sz → text sz = t) : EnoughFor cap text := by
  intro sz hsz
  rw [h sz hsz, h cap (le_refl cap)]
  exact ⟨hlen, rfl⟩

theorem enoughFor_snprintf {cap : Nat} {fmt : String} {args : List Arg}
    (h : (format fmt args).length < cap) : EnoughFor cap fun sz => snprintf sz fmt args :=
  enoughFor_of_eq h fun _ hsz => snprintf_eq_format (lt_of_lt_of_le h hsz)

/-- The bytes a number may be written with. -/
def IsNumberByte (c : UInt8) : Prop := IsHexDigit c ∨ c = 45 ∨ c = 120

instance (c : UInt8) : Decidable (IsNumberByte c) := inferInstanceAs (Decidable (_ ∨ _))

theorem isNumberByte_of_mem_numeral {b : Nat} (hb : 1 < b) (hb' : b ≤ 16) {n : Nat} {c : UInt8}
    (hc : c ∈ numeral b n) : IsNumberByte c :=
  Or.inl (isHexDigit_of_mem_numeral hb hb' hc)

theorem isNumberByte_of_mem_signed {v : Int} {c : UInt8} (hc : c ∈ signed v) :
    IsNumberByte c := by
  unfold signed at hc
  split at hc
  · rcases List.mem_append.mp hc with hc | hc
    · exact Or.inr (Or.inl (List.mem_singleton.mp hc))
    · exact isNumberByte_of_mem_numeral (by omega) (by omega) hc
  · exact isNumberByte_of_mem_numeral (by omega) (by omega) hc

theorem isNumberByte_of_mem_altHex {v : BitVec 64} {c : UInt8} (hc : c ∈ altHex v) :
    IsNumberByte c := by
  unfold altHex at hc
  split at hc
  · exact isNumberByte_of_mem_numeral (by omega) (by omega) hc
  · rcases List.mem_append.mp hc with hc | hc
    · exact forall_mem_of_all (s := ascii "0x") (by decide) c hc
    · exact isNumberByte_of_mem_numeral (by omega) (by omega) hc

theorem isNumberByte_of_mem_altOct {v : BitVec 64} {c : UInt8} (hc : c ∈ altOct v) :
    IsNumberByte c := by
  unfold altOct at hc
  split at hc
  · exact isNumberByte_of_mem_numeral (by omega) (by omega) hc
  · rcases List.mem_append.mp hc with hc | hc
    · exact forall_mem_of_all (s := ascii "0") (by decide) c hc
    · exact isNumberByte_of_mem_numeral (by omega) (by omega) hc

section NotNumber

variable {c : UInt8} (hc : ¬ IsNumberByte c)
include hc

theorem not_mem_numeral {b : Nat} (hb : 1 < b) (hb' : b ≤ 16) (n : Nat) : c ∉ numeral b n :=
  fun h => hc (isNumberByte_of_mem_numeral hb hb' h)

theorem not_mem_signed (v : Int) : c ∉ signed v := fun h => hc (isNumberByte_of_mem_signed h)

theorem not_mem_altHex (v : BitVec 64) : c ∉ altHex v :=
  fun h => hc (isNumberByte_of_mem_altHex h)

theorem not_mem_altOct (v : BitVec 64) : c ∉ altOct v :=
  fun h => hc (isNumberByte_of_mem_altOct h)

end NotNumber

/-- A byte that a number is never written with is the argument's own. -/
theorem mem_convert {p : Piece} {a : Arg} {c : UInt8} (hn : ¬ IsNumberByte c)
    (hc : c ∈ p.convert a) : ∃ s, a = .str s ∧ c ∈ s := by
  fun_cases Piece.convert p a with
  | case1 s => exact ⟨s, rfl, hc⟩
  | case2 v => exact absurd (isNumberByte_of_mem_signed hc) hn
  | case3 v => exact absurd (isNumberByte_of_mem_numeral (by omega) (by omega) hc) hn
  | case4 v => exact absurd (isNumberByte_of_mem_signed hc) hn
  | case5 v => exact absurd (isNumberByte_of_mem_numeral (by omega) (by omega) hc) hn
  | case6 v => exact absurd (isNumberByte_of_mem_numeral (by omega) (by omega) hc) hn
  | case7 v => exact absurd (isNumberByte_of_mem_altHex hc) hn
  | case8 v => exact absurd (isNumberByte_of_mem_altOct hc) hn
  | case9 => simp_all [Piece.convert]

/-- Where such a byte of the text comes from: the format or a `%s` argument. -/
theorem mem_joinPieces {ps : List Piece} {args : List Arg} {c : UInt8} (hn : ¬ IsNumberByte c)
    (hc : c ∈ joinPieces ps args) : .lit c ∈ ps ∨ ∃ s, .str s ∈ args ∧ c ∈ s := by
  fun_induction joinPieces ps args with
  | case1 => simp at hc
  | case2 d ps args ih =>
    rcases List.mem_cons.mp hc with rfl | hc
    · exact Or.inl (by simp)
    · rcases ih hc with h | h
      · exact Or.inl (List.mem_cons_of_mem _ h)
      · exact Or.inr h
  | case3 p ps a args hp ih =>
    rcases List.mem_append.mp hc with hc | hc
    · obtain ⟨s, rfl, hs⟩ := mem_convert hn hc
      exact Or.inr ⟨s, by simp, hs⟩
    · rcases ih hc with h | ⟨s, hs, hcs⟩
      · exact Or.inl (List.mem_cons_of_mem _ h)
      · exact Or.inr ⟨s, List.mem_cons_of_mem _ hs, hcs⟩
  | case4 p ps hp ih =>
    rcases ih hc with h | h
    · exact Or.inl (List.mem_cons_of_mem _ h)
    · exact Or.inr h

/-- A byte that is in no literal part and in no `%s` argument is not in the text. -/
theorem not_mem_format {fmt : String} {args : List Arg} {c : UInt8} (hn : ¬ IsNumberByte c)
    (hlit : .lit c ∉ parseFormat fmt.toList) (hstr : ∀ s, .str s ∈ args → c ∉ s) :
    c ∉ format fmt args := by
  intro hc
  rcases mem_joinPieces hn hc with h | ⟨s, hs, hcs⟩
  · exact hlit h
  · exact hstr s hs hcs

theorem snprintf_isPrefix (sz : Nat) (fmt : String) (args : List Arg) :
    snprintf sz fmt args <+: format fmt args :=
  List.take_prefix _ _

/-! ## Reading numbers back -/

theorem minus_not_mem_numeral (n : Nat) : 45 ∉ numeral 10 n := by
  intro h
  exact absurd (isDigit_of_mem_numeral h).1 (by decide)

/-- A sign tells negative numbers from the others. -/
theorem signed_of_neg {v : Int} (h : v < 0) : signed v = 45 :: numeral 10 v.natAbs := by
  rw [signed, if_pos h]
  rfl

theorem signed_of_nonneg {v : Int} (h : 0 ≤ v) : signed v = numeral 10 v.natAbs := by
  rw [signed, if_neg (by omega)]

theorem signed_injective {v w : Int} (h : signed v = signed w) : v = w := by
  rcases lt_or_ge v 0 with hv | hv
  · rw [signed_of_neg hv] at h
    rcases lt_or_ge w 0 with hw | hw
    · rw [signed_of_neg hw, List.cons.injEq] at h
      have := numeral_injective (by omega) (by omega) h.2
      omega
    · rw [signed_of_nonneg hw] at h
      exact absurd (h ▸ List.mem_cons_self) (minus_not_mem_numeral _)
  · rw [signed_of_nonneg hv] at h
    rcases lt_or_ge w 0 with hw | hw
    · rw [signed_of_neg hw] at h
      exact absurd (h ▸ List.mem_cons_self) (minus_not_mem_numeral _)
    · rw [signed_of_nonneg hw] at h
      have := numeral_injective (by omega) (by omega) h
      omega

/-- Only a number other than zero is written with an `x`. -/
theorem altHex_injective {v w : BitVec 64} (h : altHex v = altHex w) : v = w := by
  have hzero : 120 ∉ numeral 16 0 := by decide
  unfold altHex at h
  split at h
  · rename_i hv
    split at h
    · rename_i hw
      rw [hv, hw]
    · have hx : (120 : UInt8) ∈ ascii "0x" ++ numeral 16 w.toNat :=
        List.mem_append_left _ (by decide)
      exact absurd (h ▸ hx) hzero
  · split at h
    · have hx : (120 : UInt8) ∈ ascii "0x" ++ numeral 16 v.toNat :=
        List.mem_append_left _ (by decide)
      exact absurd (h ▸ hx) hzero
    · exact BitVec.eq_of_toNat_eq
        (numeral_injective (by omega) (by omega) (List.append_cancel_left h))

end LibbpfTools.Lib
