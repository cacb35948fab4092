/-
LibbpfTools.Strace.RetText — how `handle_event` shows a return value.

The kernel returns an error as a number between -4095 and -1 and anything
else as it is; a pointer with its top bit set is a result like any other, and
negative. `handle_event` takes every negative value for an error, negates it
and keeps 32 bits of that, so that a result below -4095 is shown as an error,
under an error number that has little to do with it. `rendered_iff` says that
below -4095 nothing is right and from there on everything is.
-/
import LibbpfTools.Strace.Format

namespace LibbpfTools.Strace

open LibbpfTools.Lib

/-! ## The two texts -/

/-- An error as it is shown. -/
def errorText (libc : Libc) (err : BitVec 32) : Bytes :=
  ascii "-1 " ++ (errnoName err ++ (ascii " (" ++ (libc.strerror err ++ ascii ")")))

/-- The texts of `strerror` fit into `retbuf`. -/
def Libc.StrerrorFits (libc : Libc) : Prop := ∀ err, (errorText libc err).length < 128

/-- The error number `handle_event` finds in a return value. -/
def retErrno (ret : BitVec 64) : BitVec 32 := (-ret).setWidth 32

theorem format_errorText (libc : Libc) (err : BitVec 32) :
    format "-1 %s (%s)" [.str (errnoName err), .str (libc.strerror err)] = errorText libc err :=
  rfl

theorem retText_of_neg {libc : Libc} (hfit : libc.StrerrorFits) {ret : BitVec 64}
    (h : ret.toInt < 0) : retText libc ret = errorText libc (retErrno ret) := by
  have hret : retText libc ret = snprintf 128 "-1 %s (%s)"
      [.str (errnoName (retErrno ret)), .str (libc.strerror (retErrno ret))] := if_pos h
  have hlen := hfit (retErrno ret)
  rw [← format_errorText] at hlen
  rw [hret, snprintf_eq_format hlen, format_errorText]

theorem retText_of_nonneg (libc : Libc) {ret : BitVec 64} (h : 0 ≤ ret.toInt) :
    retText libc ret = signed ret.toInt := by
  have htext : format "%lld" [.longLong ret] = signed ret.toInt ++ [] := rfl
  rw [List.append_nil] at htext
  have hlen := length_lld_le ret
  rw [retText, if_neg (by omega), snprintf_eq_format (by rw [htext]; omega), htext]

/-- No number is written with a space, and every error is. -/
theorem errorText_ne_signed (libc : Libc) (err : BitVec 32) (v : Int) :
    errorText libc err ≠ signed v := by
  intro h
  have hspace : (32 : UInt8) ∈ signed v := by
    rw [← h]
    exact List.mem_append_left _ (by decide)
  exact absurd (isNumberByte_of_mem_signed hspace) (by decide)

/-! ## The convention of the kernel -/

/-- The range `IS_ERR_VALUE` takes for an error. -/
def IsErrValue (ret : BitVec 64) : Prop := -4095 ≤ ret.toInt ∧ ret.toInt ≤ -1

/-- The return value is shown by the kernel's convention. -/
structure Rendered (libc : Libc) (ret : BitVec 64) : Prop where
  error_iff : retText libc ret = errorText libc (BitVec.ofInt 32 (-ret.toInt)) ↔ IsErrValue ret
  value : ¬ IsErrValue ret → retText libc ret = signed ret.toInt
  /-- Where the value is negated and narrowed, that is exact. -/
  exact : ret.toInt < 0 → (retErrno ret).toInt = -ret.toInt
  distinct : ¬ IsErrValue ret → ∀ ret', ret' ≠ ret → retText libc ret' ≠ retText libc ret

theorem toInt_retErrno {ret : BitVec 64} (h : IsErrValue ret) :
    (retErrno ret).toInt = -ret.toInt := by
  obtain ⟨hlo, hhi⟩ := h
  have hnat := BitVec.toInt_eq_toNat_cond ret
  have hlt := ret.isLt
  have hval : (retErrno ret).toNat = (-ret.toInt).toNat := by
    rw [retErrno, BitVec.toNat_setWidth, BitVec.toNat_neg]
    split at hnat <;> omega
  rw [BitVec.toInt_eq_toNat_cond, hval]
  split <;> omega

theorem retErrno_eq_ofInt {ret : BitVec 64} (h : IsErrValue ret) :
    retErrno ret = BitVec.ofInt 32 (-ret.toInt) := by
  rw [← toInt_retErrno h, BitVec.ofInt_toInt]

section Convention

variable {libc : Libc} (hfit : libc.StrerrorFits) {ret : BitVec 64}
include hfit

/-- A result that is not negative is told from every other. -/
theorem retText_distinct (h : 0 ≤ ret.toInt) {ret' : BitVec 64} (hne : ret' ≠ ret) :
    retText libc ret' ≠ retText libc ret := by
  rw [retText_of_nonneg libc h]
  rcases lt_or_ge ret'.toInt 0 with hneg | hnonneg
  · rw [retText_of_neg hfit hneg]
    exact errorText_ne_signed _ _ _
  · rw [retText_of_nonneg libc hnonneg]
    intro htext
    exact hne (BitVec.eq_of_toInt_eq (signed_injective htext))

theorem rendered_of_isErrValue (h : IsErrValue ret) : Rendered libc ret where
  error_iff := by
    rw [retText_of_neg hfit (by have := h.2; omega), retErrno_eq_ofInt h]
    exact ⟨fun _ => h, fun _ => rfl⟩
  value := fun hnot => absurd h hnot
  exact := fun _ => toInt_retErrno h
  distinct := fun hnot => absurd h hnot

theorem rendered_of_nonneg (h : 0 ≤ ret.toInt) : Rendered libc ret where
  error_iff := by
    rw [retText_of_nonneg libc h]
    constructor
    · intro htext
      exact absurd htext.symm (errorText_ne_signed _ _ _)
    · intro herr
      have := herr.2
      omega
  value := fun _ => retText_of_nonneg libc h
  exact := fun hneg => by omega
  distinct := fun _ _ hne => retText_distinct hfit h hne

end Convention

/-- **When a return value is shown by the kernel's convention.** Exactly from
-4095 on: a smaller one is shown as an error. -/
theorem rendered_iff (libc : Libc) (hfit : libc.StrerrorFits) (ret : BitVec 64) :
    Rendered libc ret ↔ -4095 ≤ ret.toInt := by
  constructor
  · intro h
    by_contra hlt
    have hnot : ¬ IsErrValue ret := fun herr => hlt herr.1
    have htext := h.value hnot
    rw [retText_of_neg hfit (by omega)] at htext
    exact absurd htext (errorText_ne_signed _ _ _)
  · intro h
    rcases lt_or_ge ret.toInt 0 with hneg | hnonneg
    · exact rendered_of_isErrValue hfit ⟨h, by omega⟩
    · exact rendered_of_nonneg hfit hnonneg

/-! ## A pointer-like result -/

/-- A C library with the texts of two errors. -/
def Libc.english : Libc :=
  { Libc.plain with
    strerror := fun err =>
      if err = 1 then ascii "Operation not permitted"
      else if err = 2 then ascii "No such file or directory"
      else ascii "Unknown error " ++ signed err.toInt }

theorem length_errnoName_le (err : BitVec 32) : (errnoName err).length ≤ 12 :=
  errnoName_of_forall (P := fun name => name.length ≤ 12) (by decide) (by decide) err

theorem english_strerrorFits : Libc.english.StrerrorFits := by
  intro err
  have hname := length_errnoName_le err
  have hnum : (signed err.toInt).length ≤ 11 := by
    have h1 := BitVec.toInt_lt (x := err)
    have h2 := BitVec.le_toInt err
    exact length_signed_le (k := 10) (by omega) (by omega)
  have hstr : (Libc.english.strerror err).length ≤ 25 := by
    show (if err = 1 then _ else if err = 2 then _ else _ : Bytes).length ≤ 25
    split
    · decide
    · split
      · decide
      · rw [List.length_append, show (ascii "Unknown error ").length = 14 from rfl]
        omega
  simp only [errorText, List.length_append, show (ascii "-1 ").length = 3 from rfl,
    show (ascii " (").length = 2 from rfl, show (ascii ")").length = 1 from rfl]
  omega

theorem rendered_iff_enoent : Rendered .english (-2) :=
  (rendered_iff .english english_strerrorFits (-2)).mpr (by decide)

/-- A result of `-2 ^ 32 - 2` is shown as `ENOENT`, as -2 is. -/
theorem pointer_shown_as_enoent :
    retText .english (-0x100000002) = ascii "-1 ENOENT (No such file or directory)" ∧
      retText .english (-0x100000002) = retText .english (-2) ∧
      ¬ ∀ ret, Rendered .english ret := by
  have htext : retText .english (-0x100000002)
      = ascii "-1 ENOENT (No such file or directory)" := by decide +kernel
  have hsame : retText .english (-0x100000002) = retText .english (-2) := by decide +kernel
  refine ⟨htext, hsame, fun h => ?_⟩
  have hnot : ¬ IsErrValue (-0x100000002) := fun herr => absurd herr.1 (by decide)
  exact (h (-0x100000002)).distinct hnot (-2) (by decide) hsame.symm

end LibbpfTools.Strace
