/-
LibbpfTools.Strace.OpenFlags — the text of `format_openat_flags`.

The function appends at a running offset, and every append but the first
passes `sz - off` as the room that is left. `foldl_appendFlag_eq` is the whole
of it as long as the room is there: the offset is the length of the text, and
the next piece goes to the end. With the caller's 256 bytes there always is
room (`formatOpenatFlags_eq`), so the text is the access mode and then the
names, none cut off.

A name is appended when the flags have ANY bit of its value. All values but
one are a single bit; `O_SYNC` is `O_DSYNC` and one more, so either of its
parts is shown as `O_SYNC`. `decodesFlags_iff` says that this is the only way
in which the text is wrong.
-/
import LibbpfTools.Strace.Format

namespace LibbpfTools.Strace

open LibbpfTools.Lib

/-! ## The text without a buffer -/

def accessText (flags : BitVec 64) : Bytes :=
  if flags &&& 3 = 0 then ascii "O_RDONLY"
  else if flags &&& 3 = 1 then ascii "O_WRONLY"
  else if flags &&& 3 = 2 then ascii "O_RDWR"
  else ascii "0x" ++ numeral 16 (flags &&& 3).toNat

/-- One name with its bar. -/
def barred (f : BitVec 64 × String) : Bytes := ascii "|" ++ ascii f.2

/-- The names of the flags that `APPEND_FLAG` finds set. -/
def flagNames (flags : BitVec 64) (fs : List (BitVec 64 × String)) : Bytes :=
  (fs.filter fun f => flags &&& f.1 ≠ 0).flatMap barred

def flagText (flags : BitVec 64) : Bytes := accessText flags ++ flagNames flags openatFlags

/-! ## Appending -/

/-- The offset is at the end of the text. -/
def FlagBuf.AtEnd (b : FlagBuf) : Prop := b.off = b.text.length

theorem FlagBuf.atEnd_mk (t : Bytes) : (⟨t, t.length⟩ : FlagBuf).AtEnd := rfl

/-- With room for it, a piece goes to the end of the text. -/
theorem FlagBuf.append_eq {sz : Nat} {fmt : String} {args : List Arg} {b : FlagBuf}
    (h : b.AtEnd) (hroom : b.text.length + (format fmt args).length < sz) :
    b.append sz fmt args
      = ⟨b.text ++ format fmt args, (b.text ++ format fmt args).length⟩ := by
  unfold FlagBuf.AtEnd at h
  rw [FlagBuf.append, h, List.take_length, snprintf_eq_format (by omega), List.length_append]

/-- The access mode has two bits. -/
theorem length_accessDigit_le (flags : BitVec 64) :
    (numeral 16 (flags &&& 3).toNat).length ≤ 1 := by
  have hlt : (flags &&& 3).toNat < 16 ^ 1 := by
    rw [BitVec.toNat_and]
    exact lt_of_le_of_lt Nat.and_le_right (by decide)
  exact length_numeral_le (by omega) (by omega) hlt

theorem accessMode_eq {sz : Nat} (hsz : 8 < sz) (flags : BitVec 64) :
    accessMode sz flags = ⟨accessText flags, (accessText flags).length⟩ := by
  have hempty : (⟨[], 0⟩ : FlagBuf).AtEnd := rfl
  simp only [accessMode, accessText]
  split
  · exact FlagBuf.append_eq hempty hsz
  · split
    · exact FlagBuf.append_eq hempty hsz
    · split
      · exact FlagBuf.append_eq hempty (lt_trans (by decide) hsz)
      · have htext : format "0x%llx" [.longLong (flags &&& 3)]
            = ascii "0x" ++ (numeral 16 (flags &&& 3).toNat ++ []) := rfl
        rw [List.append_nil] at htext
        have hlen := length_accessDigit_le flags
        rw [FlagBuf.append_eq hempty, htext]
        · rfl
        · rw [htext, List.length_append, show (ascii "0x").length = 2 from rfl]
          show 0 + _ < sz
          omega

/-- The room that a list of names may take up. -/
def totalLength (fs : List (BitVec 64 × String)) : Nat := (fs.map fun f => (barred f).length).sum

theorem flagNames_cons_set {flags : BitVec 64} {f : BitVec 64 × String} (h : flags &&& f.1 ≠ 0)
    (fs : List (BitVec 64 × String)) :
    flagNames flags (f :: fs) = barred f ++ flagNames flags fs := by
  rw [flagNames, List.filter_cons_of_pos (by simpa using h), List.flatMap_cons]
  rfl

theorem flagNames_cons_clear {flags : BitVec 64} {f : BitVec 64 × String} (h : flags &&& f.1 = 0)
    (fs : List (BitVec 64 × String)) : flagNames flags (f :: fs) = flagNames flags fs := by
  rw [flagNames, List.filter_cons_of_neg (by simpa using h)]
  rfl

theorem format_bar (f : BitVec 64 × String) : format "|%s" [.str (ascii f.2)] = barred f := by
  have htext : format "|%s" [.str (ascii f.2)] = ascii "|" ++ (ascii f.2 ++ []) := rfl
  rw [htext, List.append_nil, barred]

/-- A run of `APPEND_FLAG`s with enough room appends the names of the flags
that are set, and leaves the offset behind them. -/
theorem foldl_appendFlag_eq {sz : Nat} (flags : BitVec 64) (fs : List (BitVec 64 × String))
    {b : FlagBuf} (h : b.AtEnd) (hroom : b.text.length + totalLength fs < sz) :
    fs.foldl (appendFlag sz flags) b
      = ⟨b.text ++ flagNames flags fs, (b.text ++ flagNames flags fs).length⟩ := by
  induction fs generalizing b with
  | nil =>
    unfold FlagBuf.AtEnd at h
    simp [flagNames, ← h]
  | cons f fs ih =>
    have htotal : totalLength (f :: fs) = (barred f).length + totalLength fs := by
      simp [totalLength]
    rw [List.foldl_cons, appendFlag]
    split
    · rename_i hset
      rw [FlagBuf.append_eq h (by rw [format_bar]; omega), format_bar, ih (FlagBuf.atEnd_mk _)]
      · rw [flagNames_cons_set hset, List.append_assoc]
      · show (b.text ++ barred f).length + totalLength fs < sz
        rw [List.length_append]
        omega
    · rename_i hclear
      rw [ih h (by omega), flagNames_cons_clear (by simpa using hclear)]

/-! ## The caller's buffer -/

theorem length_accessText_le (flags : BitVec 64) : (accessText flags).length ≤ 8 := by
  unfold accessText
  split
  · decide
  · split
    · decide
    · split
      · decide
      · have hlen := length_accessDigit_le flags
        rw [List.length_append, show (ascii "0x").length = 2 from rfl]
        omega

theorem totalLength_openatFlags : totalLength openatFlags = 100 := by decide

/-- In 109 bytes the text is complete. -/
theorem formatOpenatFlags_of_lt (flags : BitVec 64) {sz : Nat} (hsz : 108 < sz) :
    formatOpenatFlags flags sz = flagText flags := by
  have hlen := length_accessText_le flags
  rw [formatOpenatFlags, accessMode_eq (by omega),
    foldl_appendFlag_eq flags openatFlags (FlagBuf.atEnd_mk _)]
  · rfl
  · rw [totalLength_openatFlags]
    show (accessText flags).length + 100 < sz
    omega

theorem formatOpenatFlags_eq (flags : BitVec 64) :
    formatOpenatFlags flags 256 = flagText flags :=
  formatOpenatFlags_of_lt flags (by omega)

theorem length_flagNames_le (flags : BitVec 64) (fs : List (BitVec 64 × String)) :
    (flagNames flags fs).length ≤ totalLength fs := by
  induction fs with
  | nil => simp [flagNames]
  | cons f fs ih =>
    have htotal : totalLength (f :: fs) = (barred f).length + totalLength fs := by
      simp [totalLength]
    by_cases hset : flags &&& f.1 = 0
    · rw [flagNames_cons_clear hset]
      omega
    · rw [flagNames_cons_set hset, List.length_append]
      omega

theorem length_flagText_le (flags : BitVec 64) : (flagText flags).length ≤ 108 := by
  have h1 := length_accessText_le flags
  have h2 := length_flagNames_le flags openatFlags
  rw [totalLength_openatFlags] at h2
  rw [flagText, List.length_append]
  omega

/-- The bytes of the flag text: letters, digits, `_`, `|` and `x`. -/
def IsFlagByte (c : UInt8) : Prop :=
  (65 ≤ c ∧ c ≤ 90) ∨ c = 95 ∨ c = 124 ∨ c = 120 ∨ IsHexDigit c

instance (c : UInt8) : Decidable (IsFlagByte c) := inferInstanceAs (Decidable (_ ∨ _))

theorem isFlagByte_of_mem_barred {f : BitVec 64 × String} (hf : f ∈ openatFlags) {c : UInt8}
    (hc : c ∈ barred f) : IsFlagByte c := by
  have hall : ∀ f ∈ openatFlags, (barred f).all (fun c => IsFlagByte c) = true := by decide
  exact forall_mem_of_all (hall f hf) c hc

theorem isFlagByte_of_mem_flagText {flags : BitVec 64} {c : UInt8} (hc : c ∈ flagText flags) :
    IsFlagByte c := by
  rcases List.mem_append.mp hc with hc | hc
  · unfold accessText at hc
    split at hc
    · exact forall_mem_of_all (s := ascii "O_RDONLY") (by decide) c hc
    · split at hc
      · exact forall_mem_of_all (s := ascii "O_WRONLY") (by decide) c hc
      · split at hc
        · exact forall_mem_of_all (s := ascii "O_RDWR") (by decide) c hc
        · rcases List.mem_append.mp hc with hc | hc
          · exact forall_mem_of_all (s := ascii "0x") (by decide) c hc
          · exact Or.inr (Or.inr (Or.inr (Or.inr
              (isHexDigit_of_mem_numeral (by omega) (by omega) hc))))
  · obtain ⟨f, hf, hc⟩ := List.mem_flatMap.mp hc
    exact isFlagByte_of_mem_barred (List.mem_filter.mp hf).1 hc

theorem not_mem_flagText {c : UInt8} (hc : ¬ IsFlagByte c) (flags : BitVec 64) :
    c ∉ flagText flags :=
  fun h => hc (isFlagByte_of_mem_flagText h)

/-! ## What the names should say -/

def oDsync : BitVec 64 := 0o10000

/-- `__O_SYNC`, the part of `O_SYNC` that is not `O_DSYNC`. -/
def oSyncPart : BitVec 64 := 0o4000000

/-- The flags all of whose bits are set. -/
def setFlags (flags : BitVec 64) (fs : List (BitVec 64 × String)) : List (BitVec 64 × String) :=
  fs.filter fun f => flags &&& f.1 = f.1

def exactFlagText (flags : BitVec 64) : Bytes :=
  accessText flags ++ (setFlags flags openatFlags).flatMap barred

/-- The values of the flags, put together. -/
def orFlags (fs : List (BitVec 64 × String)) : BitVec 64 := fs.foldr (fun f m => f.1 ||| m) 0

/-- The text of the flags is complete, names the flags that are set and no
others, and was written without an offset running past the buffer. -/
structure DecodesFlags (flags : BitVec 64) : Prop where
  text : formatOpenatFlags flags 256 = exactFlagText flags
  untruncated : (exactFlagText flags).length < 256
  recovers : ¬ (flags &&& oSyncPart ≠ 0 ∧ flags &&& oDsync = 0) →
    orFlags (setFlags flags openatFlags) = flags &&& orFlags openatFlags
  offset : ∀ pre post, openatFlags = pre ++ post →
    (pre.foldl (appendFlag 256 flags) (accessMode 256 flags)).off < 256

/-! ## Flags of one bit -/

def OneBit (m : BitVec 64) : Prop := ∃ k, k < 64 ∧ m = BitVec.twoPow 64 k

theorem OneBit.ne_zero {m : BitVec 64} (h : OneBit m) : m ≠ 0 := by
  obtain ⟨k, hk, rfl⟩ := h
  intro h0
  have hbit := congrArg (fun x : BitVec 64 => x.getLsbD k) h0
  simp [hk] at hbit

theorem OneBit.and_cases {m : BitVec 64} (h : OneBit m) (flags : BitVec 64) :
    flags &&& m = 0 ∨ flags &&& m = m := by
  obtain ⟨k, hk, rfl⟩ := h
  rw [BitVec.and_twoPow]
  split
  · exact Or.inr rfl
  · exact Or.inl rfl

/-- For one bit, "some bit is set" and "all bits are set" are the same. -/
theorem OneBit.set_iff {m : BitVec 64} (h : OneBit m) (flags : BitVec 64) :
    flags &&& m ≠ 0 ↔ flags &&& m = m := by
  constructor
  · intro hne
    exact (h.and_cases flags).resolve_left hne
  · intro heq
    rw [heq]
    exact h.ne_zero

theorem flagNames_of_oneBit {flags : BitVec 64} {fs : List (BitVec 64 × String)}
    (h : ∀ f ∈ fs, OneBit f.1) : flagNames flags fs = (setFlags flags fs).flatMap barred := by
  rw [flagNames, setFlags]
  congr 1
  refine List.filter_congr fun f hf => ?_
  rw [decide_eq_decide]
  exact (h f hf).set_iff flags

theorem orFlags_cons (f : BitVec 64 × String) (fs : List (BitVec 64 × String)) :
    orFlags (f :: fs) = f.1 ||| orFlags fs := rfl

theorem orFlags_append (fs gs : List (BitVec 64 × String)) :
    orFlags (fs ++ gs) = orFlags fs ||| orFlags gs := by
  induction fs with
  | nil => simp [orFlags]
  | cons f fs ih => rw [List.cons_append, orFlags_cons, orFlags_cons, ih, BitVec.or_assoc]

theorem orFlags_of_oneBit {flags : BitVec 64} {fs : List (BitVec 64 × String)}
    (h : ∀ f ∈ fs, OneBit f.1) : orFlags (setFlags flags fs) = flags &&& orFlags fs := by
  induction fs with
  | nil => simp [setFlags, orFlags]
  | cons f fs ih =>
    obtain ⟨hf, hfs⟩ := List.forall_mem_cons.mp h
    rw [orFlags_cons, BitVec.and_or_distrib_left, ← ih hfs]
    by_cases hset : flags &&& f.1 = f.1
    · rw [setFlags, List.filter_cons_of_pos (by simpa using hset), orFlags_cons, hset]
      rfl
    · rw [setFlags, List.filter_cons_of_neg (by simpa using hset),
        (hf.and_cases flags).resolve_right hset]
      exact BitVec.zero_or.symm

/-! ## `O_SYNC` -/

/-- The one flag with two bits. -/
def oSync : BitVec 64 × String := (0o4010000, "O_SYNC")

theorem openatFlags_eq :
    openatFlags = openatFlags.take 7 ++ oSync :: openatFlags.drop 8 := rfl

theorem oneBit_of_mem {f : BitVec 64 × String}
    (hf : f ∈ openatFlags.take 7 ++ openatFlags.drop 8) : OneBit f.1 := by
  have hbits : (openatFlags.take 7 ++ openatFlags.drop 8).map Prod.fst
      = [6, 7, 8, 9, 10, 11, 12, 19, 14, 15].map (BitVec.twoPow 64) := rfl
  have hmem := List.mem_map_of_mem (f := Prod.fst) hf
  rw [hbits] at hmem
  obtain ⟨k, hk, heq⟩ := List.mem_map.mp hmem
  have hlt : ∀ k ∈ [6, 7, 8, 9, 10, 11, 12, 19, 14, 15], k < 64 := by decide
  exact ⟨k, hlt k hk, heq.symm⟩

theorem and_oSync (flags : BitVec 64) :
    flags &&& oSync.1 = (flags &&& oDsync) ||| (flags &&& oSyncPart) := by
  rw [← BitVec.and_or_distrib_left]
  rfl

/-- The parts of `O_SYNC` are both set or both not set. -/
def SyncWhole (flags : BitVec 64) : Prop := flags &&& oDsync = 0 ↔ flags &&& oSyncPart = 0

theorem oneBit_oDsync : OneBit oDsync := ⟨12, by decide, rfl⟩

theorem oneBit_oSyncPart : OneBit oSyncPart := ⟨20, by decide, rfl⟩

/-- The test on `O_SYNC` finds a part of it. -/
theorem oSync_set_iff (flags : BitVec 64) :
    (flags &&& oSync.1 ≠ 0 ↔ flags &&& oSync.1 = oSync.1) ↔ SyncWhole flags := by
  rw [and_oSync, SyncWhole]
  rcases oneBit_oDsync.and_cases flags with h1 | h1 <;>
    rcases oneBit_oSyncPart.and_cases flags with h2 | h2 <;>
    rw [h1, h2] <;> decide

theorem flagNames_append (flags : BitVec 64) (fs gs : List (BitVec 64 × String)) :
    flagNames flags (fs ++ gs) = flagNames flags fs ++ flagNames flags gs := by
  simp [flagNames]

theorem setFlags_append (flags : BitVec 64) (fs gs : List (BitVec 64 × String)) :
    setFlags flags (fs ++ gs) = setFlags flags fs ++ setFlags flags gs := by
  simp [setFlags]

section Split

variable (flags : BitVec 64)

/-- The names before `O_SYNC`, and those behind it. -/
def namesBefore : Bytes := (setFlags flags (openatFlags.take 7)).flatMap barred
def namesAfter : Bytes := (setFlags flags (openatFlags.drop 8)).flatMap barred

theorem flagText_eq : flagText flags = accessText flags ++ (namesBefore flags ++
    ((if flags &&& oSync.1 ≠ 0 then barred oSync else []) ++ namesAfter flags)) := by
  have hpre : flagNames flags (openatFlags.take 7) = namesBefore flags :=
    flagNames_of_oneBit fun f hf => oneBit_of_mem (List.mem_append_left _ hf)
  have hpost : flagNames flags (openatFlags.drop 8) = namesAfter flags :=
    flagNames_of_oneBit fun f hf => oneBit_of_mem (List.mem_append_right _ hf)
  rw [flagText, openatFlags_eq, flagNames_append, hpre]
  split
  · rename_i hset
    rw [flagNames_cons_set hset, hpost]
  · rename_i hclear
    rw [flagNames_cons_clear (not_not.mp hclear), hpost, List.nil_append]

theorem exactFlagText_eq : exactFlagText flags = accessText flags ++ (namesBefore flags ++
    ((if flags &&& oSync.1 = oSync.1 then barred oSync else []) ++ namesAfter flags)) := by
  rw [exactFlagText, openatFlags_eq, setFlags_append, List.flatMap_append]
  split
  · rename_i hset
    rw [setFlags, setFlags, List.filter_cons_of_pos (by simpa using hset), List.flatMap_cons]
    rfl
  · rename_i hclear
    rw [setFlags, setFlags, List.filter_cons_of_neg (by simpa using hclear), List.nil_append]
    rfl

/-- A name is shown in two texts alike if both conditions for it agree. -/
theorem shown_iff {p q : Prop} [Decidable p] [Decidable q] {name : Bytes} (h : name ≠ []) :
    ((if p then name else []) = if q then name else []) ↔ (p ↔ q) := by
  by_cases hp : p
  · by_cases hq : q
    · simp [hp, hq]
    · simp [hp, hq, h]
  · by_cases hq : q
    · simp [hp, hq, h.symm]
    · simp [hp, hq]

/-- The names before and behind `O_SYNC` are right, so the text is right if
`O_SYNC` is named exactly when it is set. -/
theorem formatOpenatFlags_exact_iff :
    formatOpenatFlags flags 256 = exactFlagText flags ↔ SyncWhole flags := by
  rw [formatOpenatFlags_eq, flagText_eq, exactFlagText_eq, List.append_cancel_left_eq,
    List.append_cancel_left_eq, List.append_cancel_right_eq, ← oSync_set_iff]
  exact shown_iff (by decide)

/-- Without `__O_SYNC`, what is set of `O_SYNC` is `O_DSYNC`. -/
theorem and_oSync_of_partial (h : ¬ (flags &&& oSyncPart ≠ 0 ∧ flags &&& oDsync = 0))
    (hall : flags &&& oSync.1 ≠ oSync.1) : flags &&& oSync.1 = flags &&& oDsync := by
  have hpart : flags &&& oSyncPart = 0 := by
    by_contra hset
    have hdsync : flags &&& oDsync ≠ 0 := fun h0 => h ⟨hset, h0⟩
    refine hall ?_
    rw [and_oSync, (oneBit_oDsync.set_iff flags).mp hdsync,
      (oneBit_oSyncPart.set_iff flags).mp hset]
    rfl
  rw [and_oSync, hpart]
  exact BitVec.or_zero

/-- The values of the names put together, when `__O_SYNC` does not stand alone. -/
theorem orFlags_setFlags (h : ¬ (flags &&& oSyncPart ≠ 0 ∧ flags &&& oDsync = 0)) :
    orFlags (setFlags flags openatFlags) = flags &&& orFlags openatFlags := by
  have hpre : orFlags (setFlags flags (openatFlags.take 7))
      = flags &&& orFlags (openatFlags.take 7) :=
    orFlags_of_oneBit fun f hf => oneBit_of_mem (List.mem_append_left _ hf)
  have hpost : orFlags (setFlags flags (openatFlags.drop 8))
      = flags &&& orFlags (openatFlags.drop 8) :=
    orFlags_of_oneBit fun f hf => oneBit_of_mem (List.mem_append_right _ hf)
  rw [openatFlags_eq, setFlags_append, orFlags_append, orFlags_append, orFlags_cons, hpre,
    BitVec.and_or_distrib_left, BitVec.and_or_distrib_left]
  by_cases hall : flags &&& oSync.1 = oSync.1
  · rw [setFlags, List.filter_cons_of_pos (by simpa using hall), orFlags_cons, ← setFlags,
      hpost, hall]
  · -- what is set of `O_SYNC` then is `O_DSYNC`, one of the names before
    have hbefore : (flags &&& orFlags (openatFlags.take 7)) ||| (flags &&& oDsync)
        = flags &&& orFlags (openatFlags.take 7) := by
      rw [← BitVec.and_or_distrib_left]
      rfl
    rw [setFlags, List.filter_cons_of_neg (by simpa using hall), ← setFlags, hpost,
      and_oSync_of_partial flags h hall, ← BitVec.or_assoc, hbefore]

/-! ## The offset -/

theorem off_lt {pre post : List (BitVec 64 × String)} (h : openatFlags = pre ++ post) :
    (pre.foldl (appendFlag 256 flags) (accessMode 256 flags)).off < 256 := by
  have htotal : totalLength pre + totalLength post = 100 := by
    rw [← totalLength_openatFlags, h]
    simp [totalLength]
  have haccess := length_accessText_le flags
  have hnames := length_flagNames_le flags pre
  rw [accessMode_eq (by omega), foldl_appendFlag_eq flags pre (FlagBuf.atEnd_mk _)]
  · show (accessText flags ++ flagNames flags pre).length < 256
    rw [List.length_append]
    omega
  · show (accessText flags).length + totalLength pre < 256
    omega

theorem length_exactFlagText_lt : (exactFlagText flags).length < 256 := by
  have haccess := length_accessText_le flags
  have hsub : ((setFlags flags openatFlags).flatMap barred).length ≤ totalLength openatFlags := by
    rw [List.length_flatMap]
    exact (List.filter_sublist.map _).sum_le_sum fun _ _ => Nat.zero_le _
  rw [totalLength_openatFlags] at hsub
  rw [exactFlagText, List.length_append]
  omega

end Split

/-- **When the flags are decoded exactly.** All of it holds for every flags
value but one kind: those with one part of `O_SYNC` and not the other, which
the test for any bit takes for `O_SYNC`. -/
theorem decodesFlags_iff (flags : BitVec 64) :
    DecodesFlags flags ↔ (flags &&& oDsync = 0 ↔ flags &&& oSyncPart = 0) := by
  constructor
  · intro h
    exact (formatOpenatFlags_exact_iff flags).mp h.text
  · intro h
    exact ⟨(formatOpenatFlags_exact_iff flags).mpr h, length_exactFlagText_lt flags,
      orFlags_setFlags flags, fun _ _ => off_lt flags⟩

/-- `O_WRONLY | O_DSYNC`, shown with `O_SYNC`. -/
theorem dsync_shown_as_sync :
    formatOpenatFlags 0o10001 256 = ascii "O_WRONLY|O_DSYNC|O_SYNC" ∧
      exactFlagText 0o10001 = ascii "O_WRONLY|O_DSYNC" ∧ ¬ DecodesFlags 0o10001 := by
  have htext : formatOpenatFlags 0o10001 256 = ascii "O_WRONLY|O_DSYNC|O_SYNC" := by
    decide +kernel
  have hexact : exactFlagText 0o10001 = ascii "O_WRONLY|O_DSYNC" := by decide +kernel
  refine ⟨htext, hexact, fun h => ?_⟩
  have heq := h.text
  rw [htext, hexact] at heq
  exact absurd heq (by decide)

end LibbpfTools.Strace
