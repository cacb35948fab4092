/-
LibbpfTools.Lib.CString — C strings, and the library functions that compare
them, scan them for a number and read them from a file.

A `CString` carries the fact that it holds no NUL, so an index up to its
length is defined and the byte there ends the string. The functions below
follow the C standard on a machine whose `long` has 64 bits; each has one
lemma that says what it computes:

  `strcmp_eq_zero_iff`, `strncmp_length_eq_zero_iff`   equality and prefix
  `strtol_spec`                                        the numeral it reads
  `chomp_fgets`                                        a line in a buffer
-/
import LibbpfTools.Lib.Numeral

namespace LibbpfTools.Lib

/-- A C string: the bytes before its NUL. -/
structure CString where
  bytes : Bytes
  nul_not_mem : 0 ∉ bytes

namespace CString

/-- The string in a buffer. -/
def ofBuf (b : Bytes) : CString := ⟨cstr b, nul_not_mem_cstr b⟩

/-- `s[i]`, the NUL included. -/
def byteAt (s : CString) (i : Nat) : UInt8 := s.bytes.getD i 0

def strlen (s : CString) : Nat := s.bytes.length

end CString

/-! ## Comparison -/

/-- `strcmp`: the difference at the first place where the strings differ. -/
def strcmpBytes : Bytes → Bytes → Int
  | [], [] => 0
  | [], y :: _ => -(y.toNat : Int)
  | x :: _, [] => x.toNat
  | x :: a, y :: b => if x = y then strcmpBytes a b else (x.toNat : Int) - y.toNat

/-- `strncmp`: the same, over at most `n` bytes. -/
def strncmpBytes : Nat → Bytes → Bytes → Int
  | 0, _, _ => 0
  | n + 1, x :: a, y :: b =>
      if x = y then strncmpBytes n a b else (x.toNat : Int) - y.toNat
  | _ + 1, a, b => strcmpBytes a b

def strcmp (s t : CString) : Int := strcmpBytes s.bytes t.bytes

def strncmp (s t : CString) (n : Nat) : Int := strncmpBytes n s.bytes t.bytes

theorem toNat_ne_zero {x : UInt8} {a : Bytes} (h : 0 ∉ x :: a) : x.toNat ≠ 0 := by
  intro h0
  have hx : x = 0 := UInt8.toNat_inj.mp h0
  exact h (List.mem_cons.mpr (Or.inl hx.symm))

theorem toNat_sub_ne_zero {x y : UInt8} (h : x ≠ y) : (x.toNat : Int) - y.toNat ≠ 0 := by
  have : x.toNat ≠ y.toNat := fun h' => h (UInt8.toNat_inj.mp h')
  omega

theorem strcmpBytes_eq_zero_iff : ∀ {a b : Bytes}, 0 ∉ a → 0 ∉ b →
    (strcmpBytes a b = 0 ↔ a = b)
  | [], [], _, _ => by simp [strcmpBytes]
  | [], y :: b, _, hb => by
      have hy := toNat_ne_zero hb
      simp [strcmpBytes, hy]
  | x :: a, [], ha, _ => by
      have hx := toNat_ne_zero ha
      simp [strcmpBytes, hx]
  | x :: a, y :: b, ha, hb => by
      rw [strcmpBytes]
      split
      · rename_i hxy
        rw [strcmpBytes_eq_zero_iff (List.not_mem_of_not_mem_cons ha)
          (List.not_mem_of_not_mem_cons hb)]
        simp [hxy]
      · rename_i hxy
        simp [toNat_sub_ne_zero hxy, hxy]

/-- `strcmp` is 0 on equal strings only. -/
theorem strcmp_eq_zero_iff (s t : CString) : strcmp s t = 0 ↔ t.bytes = s.bytes := by
  rw [strcmp, strcmpBytes_eq_zero_iff s.nul_not_mem t.nul_not_mem, eq_comm]

theorem strncmpBytes_length_eq_zero_iff : ∀ {a b : Bytes}, 0 ∉ a → 0 ∉ b →
    (strncmpBytes a.length a b = 0 ↔ a <+: b)
  | [], b, _, _ => by simp [strncmpBytes]
  | x :: a, [], ha, _ => by
      have hx := toNat_ne_zero ha
      simp [strncmpBytes, strcmpBytes, hx]
  | x :: a, y :: b, ha, hb => by
      rw [List.length_cons, strncmpBytes]
      split
      · rename_i hxy
        rw [strncmpBytes_length_eq_zero_iff (List.not_mem_of_not_mem_cons ha)
          (List.not_mem_of_not_mem_cons hb), List.cons_prefix_cons]
        simp [hxy]
      · rename_i hxy
        simp [toNat_sub_ne_zero hxy, hxy, List.cons_prefix_cons]

/-- Over the length of the first string, `strncmp` looks for it in front. -/
theorem strncmp_length_eq_zero_iff (s t : CString) :
    strncmp s t s.strlen = 0 ↔ s.bytes <+: t.bytes :=
  strncmpBytes_length_eq_zero_iff s.nul_not_mem t.nul_not_mem

/-! ## Numbers -/

/-- `isspace` of the C locale. -/
def isspace (c : UInt8) : Bool := (9 ≤ c && c ≤ 13) || c == 32

def isdigit (c : UInt8) : Bool := 48 ≤ c && c ≤ 57

/-- What `strtol` returns and leaves behind: the value, how far the end
pointer is behind the start, and whether `errno` is `ERANGE`. -/
structure Strtol where
  value : Int
  consumed : Nat
  erange : Bool

/-- An optional sign and what follows it. -/
def takeSign : Bytes → Bool × Bytes
  | 45 :: t => (true, t)
  | 43 :: t => (false, t)
  | t => (false, t)

/-- The value of a numeral in a 64-bit `long`, saturating. -/
def strtolValue (neg : Bool) (m : Nat) : Int × Bool :=
  if neg then
    if m ≤ 2 ^ 63 then (-(m : Int), false) else (-2 ^ 63, true)
  else
    if m < 2 ^ 63 then ((m : Int), false) else (2 ^ 63 - 1, true)

/-- `strtol` in base 10. -/
def strtol (s : CString) : Strtol :=
  let (neg, t) := takeSign (s.bytes.dropWhile isspace)
  let ds := t.takeWhile isdigit
  if ds = [] then ⟨0, 0, false⟩
  else
    let (v, erange) := strtolValue neg (ofNumeral 10 ds)
    ⟨v, s.bytes.length - t.length + ds.length, erange⟩

/-- The string is, from start to end, what `strtol` takes for the number `v`:
white space, a sign and decimal digits. -/
def IsNumeral (s : CString) (v : Int) : Prop :=
  ∃ ws sign ds : Bytes, s.bytes = ws ++ (sign ++ ds) ∧
    (∀ c ∈ ws, isspace c = true) ∧ (∀ c ∈ ds, isdigit c = true) ∧ ds ≠ [] ∧
    ((sign = [45] ∧ v = -(ofNumeral 10 ds : Int)) ∨
      ((sign = [] ∨ sign = [43]) ∧ v = ofNumeral 10 ds))

namespace CString

/-- Only the end of a string holds a NUL. -/
theorem byteAt_eq_zero_iff (s : CString) (i : Nat) : s.byteAt i = 0 ↔ s.bytes.length ≤ i := by
  rw [byteAt]
  constructor
  · intro h
    by_contra hlt
    rw [List.getD_eq_getElem _ _ (by omega)] at h
    exact s.nul_not_mem (h ▸ List.getElem_mem _)
  · intro h
    rw [List.getD_eq_default _ _ h]

end CString

/-- The sign is in front of what is left. -/
theorem takeSign_spec (t : Bytes) : ∃ sign : Bytes, t = sign ++ (takeSign t).2 ∧
    ((sign = [45] ∧ (takeSign t).1 = true) ∨
      ((sign = [] ∨ sign = [43]) ∧ (takeSign t).1 = false)) := by
  unfold takeSign
  split
  · exact ⟨[45], rfl, Or.inl ⟨rfl, rfl⟩⟩
  · exact ⟨[43], rfl, Or.inr ⟨Or.inr rfl, rfl⟩⟩
  · exact ⟨[], rfl, Or.inr ⟨Or.inl rfl, rfl⟩⟩

/-- Digits have no sign of their own. -/
theorem takeSign_digits {ds : Bytes} (hne : ds ≠ []) (hds : ∀ c ∈ ds, isdigit c = true) :
    takeSign ds = (false, ds) := by
  unfold takeSign
  split
  · exact absurd (hds 45 (by simp)) (by decide)
  · exact absurd (hds 43 (by simp)) (by decide)
  · rfl

theorem takeWhile_eq_of_all {p : UInt8 → Bool} {ds : Bytes} (h : ∀ c ∈ ds, p c = true) :
    ds.takeWhile p = ds := List.takeWhile_eq_self_iff.mpr h

theorem not_isspace_of_isdigit {c : UInt8} (h : isdigit c = true) : isspace c = false := by
  simp only [isdigit, Bool.and_eq_true, decide_eq_true_eq, UInt8.le_iff_toNat_le,
    UInt8.toNat_ofNat] at h
  have h32 : c ≠ 32 := by
    rintro rfl
    exact absurd h.1 (by decide)
  simp only [isspace, Bool.or_eq_false_iff, Bool.and_eq_false_imp, decide_eq_true_eq,
    decide_eq_false_iff_not, UInt8.le_iff_toNat_le, UInt8.toNat_ofNat, beq_eq_false_iff_ne]
  exact ⟨fun _ => by omega, h32⟩

/-- Behind the white space of a numeral nothing more is skipped. -/
theorem dropWhile_isspace_numeral {ws sign ds : Bytes} (hws : ∀ c ∈ ws, isspace c = true)
    (hsign : sign = [45] ∨ sign = [] ∨ sign = [43]) (hne : ds ≠ [])
    (hds : ∀ c ∈ ds, isdigit c = true) :
    (ws ++ (sign ++ ds)).dropWhile isspace = sign ++ ds := by
  rw [List.dropWhile_append_of_pos hws]
  rcases hsign with rfl | rfl | rfl
  · rfl
  · cases ds with
    | nil => exact absurd rfl hne
    | cons d ds =>
      have hd := not_isspace_of_isdigit (hds d (by simp))
      simp [hd]
  · rfl

theorem strtolValue_eq_iff {neg : Bool} {m : Nat} {v : Int} :
    strtolValue neg m = (v, false) ↔
      v = (if neg then -(m : Int) else m) ∧ -2 ^ 63 ≤ v ∧ v < 2 ^ 63 := by
  unfold strtolValue
  cases neg with
  | true =>
    simp only [if_true]
    split <;> simp only [Prod.mk.injEq] <;> grind
  | false =>
    simp only [Bool.false_eq_true, if_false]
    split <;> simp only [Prod.mk.injEq] <;> grind

/-- A string that is read to its end is blanks, a sign and digits. -/
theorem isNumeral_of_strtol {s : CString} (hrange : (strtol s).erange = false)
    (hne : (strtol s).consumed ≠ 0) (hend : s.bytes.length ≤ (strtol s).consumed) :
    IsNumeral s (strtol s).value ∧ -2 ^ 63 ≤ (strtol s).value ∧ (strtol s).value < 2 ^ 63 := by
  obtain ⟨sign, hsplit, hsign⟩ := takeSign_spec (s.bytes.dropWhile isspace)
  unfold strtol at hrange hne hend ⊢
  generalize takeSign (s.bytes.dropWhile isspace) = st at *
  obtain ⟨neg, t⟩ := st
  simp only at hsplit hsign hrange hne hend ⊢
  have hbytes : s.bytes = s.bytes.takeWhile isspace ++ (sign ++ t) := by
    rw [← hsplit, List.takeWhile_append_dropWhile]
  split at hne
  · exact absurd rfl hne
  rename_i hds
  rw [if_neg hds] at hrange hend ⊢
  simp only at hrange hend ⊢
  -- the end pointer is at the NUL, so the digits are all of `t`
  have hlen : (t.takeWhile isdigit).length = t.length := by
    have h1 := congrArg List.length hbytes
    have h2 := (List.takeWhile_prefix isdigit (l := t)).length_le
    simp only [List.length_append] at h1
    omega
  have hall : t.takeWhile isdigit = t :=
    (List.takeWhile_prefix isdigit).eq_of_length hlen
  rw [hall] at hds hrange ⊢
  obtain ⟨hv, hlo, hhi⟩ := strtolValue_eq_iff.mp (Prod.ext rfl hrange)
  refine ⟨⟨_, sign, t, hbytes, fun c hc => List.mem_takeWhile_imp hc,
    List.takeWhile_eq_self_iff.mp hall, hds, ?_⟩, hlo, hhi⟩
  rcases hsign with ⟨rfl, rfl⟩ | ⟨h, rfl⟩
  · exact Or.inl ⟨rfl, by simpa using hv⟩
  · exact Or.inr ⟨h, by simpa using hv⟩

/-- A numeral is read to its end. -/
theorem strtol_of_isNumeral {s : CString} {v : Int} (h : IsNumeral s v) (hlo : -2 ^ 63 ≤ v)
    (hhi : v < 2 ^ 63) : strtol s = ⟨v, s.bytes.length, false⟩ ∧ s.bytes.length ≠ 0 := by
  obtain ⟨ws, sign, ds, hbytes, hws, hds, hne, hsign⟩ := h
  have hskip : s.bytes.dropWhile isspace = sign ++ ds := by
    rw [hbytes]
    exact dropWhile_isspace_numeral hws (by tauto) hne hds
  obtain ⟨neg, htake, hv⟩ : ∃ neg, takeSign (sign ++ ds) = (neg, ds) ∧
      v = (if neg then -(ofNumeral 10 ds : Int) else ofNumeral 10 ds) := by
    rcases hsign with ⟨rfl, hv⟩ | ⟨rfl | rfl, hv⟩
    · exact ⟨true, rfl, by simpa using hv⟩
    · exact ⟨false, takeSign_digits hne hds, by simpa using hv⟩
    · exact ⟨false, rfl, by simpa using hv⟩
  have hvalue := strtolValue_eq_iff.mpr ⟨hv, hlo, hhi⟩
  have hlen : ds.length ≤ s.bytes.length := by
    rw [hbytes]
    simp only [List.length_append]
    omega
  have hpos : 0 < ds.length := List.length_pos_iff.mpr hne
  refine ⟨?_, by omega⟩
  unfold strtol
  rw [hskip, htake]
  simp only [takeWhile_eq_of_all hds, if_neg hne, hvalue, Nat.sub_add_cancel hlen]

/-- **`strtol`.** It reads the whole string as the number `v`, without
overflow, exactly when the string is a numeral of `v` and a `long` holds it. -/
theorem strtol_spec (s : CString) (v : Int) :
    ((strtol s).erange = false ∧ (strtol s).consumed ≠ 0 ∧
        s.byteAt (strtol s).consumed = 0 ∧ (strtol s).value = v) ↔
      IsNumeral s v ∧ -2 ^ 63 ≤ v ∧ v < 2 ^ 63 := by
  rw [CString.byteAt_eq_zero_iff]
  constructor
  · rintro ⟨hrange, hne, hend, rfl⟩
    exact isNumeral_of_strtol hrange hne hend
  · rintro ⟨hnum, hlo, hhi⟩
    obtain ⟨heq, hpos⟩ := strtol_of_isNumeral hnum hlo hhi
    rw [heq]
    exact ⟨rfl, hpos, le_refl _, rfl⟩

/-! ## Reading a file -/

/-- A file up to its first newline, which is included. -/
def upToNewline : Bytes → Bytes
  | [] => []
  | c :: cs => if c = 10 then [c] else c :: upToNewline cs

/-- What `fgets` with a buffer of `n` bytes stores before its NUL; none at the
end of the file. -/
def fgets (contents : Bytes) (n : Nat) : Option Bytes :=
  let line := (upToNewline contents).take (n - 1)
  if line = [] then none else some line

/-- `s[strcspn(s, "\n")] = '\0'`. -/
def CString.chomp (s : CString) : CString where
  bytes := s.bytes.takeWhile (· ≠ 10)
  nul_not_mem := fun h => s.nul_not_mem ((List.takeWhile_prefix _).subset h)

/-- The first line of a file as a C string. -/
def firstLine (contents : Bytes) : Bytes := (cstr contents).takeWhile (· ≠ 10)

theorem cstr_take (b : Bytes) (n : Nat) : cstr (b.take n) = (cstr b).take n :=
  List.take_takeWhile.symm

theorem firstLine_upToNewline (contents : Bytes) :
    firstLine (upToNewline contents) = firstLine contents := by
  induction contents with
  | nil => rfl
  | cons c cs ih =>
    rw [upToNewline]
    split
    · rename_i h
      simp [firstLine, cstr, h]
    · rename_i h
      by_cases h0 : c = 0
      · simp [firstLine, cstr, h0]
      · simpa [firstLine, cstr, h, h0] using ih

/-- A buffer holds the line if the line is not longer than it. -/
theorem chomp_fgets {contents line : Bytes} {n : Nat} (h : fgets contents n = some line) :
    (CString.ofBuf line).chomp.bytes = (firstLine contents).take (n - 1) := by
  simp only [fgets] at h
  split at h
  · cases h
  · obtain rfl := Option.some.inj h
    rw [show (CString.ofBuf ((upToNewline contents).take (n - 1))).chomp.bytes
      = (cstr ((upToNewline contents).take (n - 1))).takeWhile (· ≠ 10) from rfl,
      cstr_take, ← List.take_takeWhile]
    exact congrArg (List.take (n - 1)) (firstLine_upToNewline contents)

theorem fgets_eq_none_iff {contents : Bytes} {n : Nat} (hn : 1 < n) :
    fgets contents n = none ↔ contents = [] := by
  cases contents with
  | nil => simp [fgets, upToNewline]
  | cons c cs =>
    obtain ⟨k, hk⟩ : ∃ k, n - 1 = k + 1 := ⟨n - 2, by omega⟩
    simp only [fgets, upToNewline, hk]
    split <;> simp

end LibbpfTools.Lib
