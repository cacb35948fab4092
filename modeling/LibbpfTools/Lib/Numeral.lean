/-
LibbpfTools.Lib.Numeral — numerals as a C library writes them.

`numeral b n` is `n` in base `b`, most significant digit first, in lower case
and without leading zeros; `ofNumeral` reads one back, so distinct numbers
have distinct numerals (`numeral_injective`). `mem_numeral` says which bytes
can occur in one and `length_numeral_le` how many there are: the two facts
that text layouts rest on.
-/
import LibbpfTools.Lib.Bytes

namespace LibbpfTools.Lib

/-- The byte of a digit, `0` to `9` and `a` to `f`. -/
def digitByte (d : Nat) : UInt8 := UInt8.ofNat (Nat.digitChar d).toNat

def numeral (b n : Nat) : Bytes := (Nat.toDigits b n).map fun c => UInt8.ofNat c.toNat

/-- The value of a digit byte. -/
def digitVal (c : UInt8) : Nat := if c.toNat < 58 then c.toNat - 48 else c.toNat - 87

def ofNumeral (b : Nat) (bs : Bytes) : Nat := bs.foldl (fun v c => b * v + digitVal c) 0

/-- A digit of a base up to sixteen. -/
def IsHexDigit (c : UInt8) : Prop := (48 ≤ c ∧ c ≤ 57) ∨ (97 ≤ c ∧ c ≤ 102)

instance (c : UInt8) : Decidable (IsHexDigit c) := inferInstanceAs (Decidable (_ ∨ _))

/-! ## Digits -/

theorem digitVal_digitByte : ∀ {d : Nat}, d < 16 → digitVal (digitByte d) = d := by
  decide

theorem isHexDigit_digitByte : ∀ {d : Nat}, d < 16 → IsHexDigit (digitByte d) := by
  decide

theorem isDigit_digitByte : ∀ {d : Nat}, d < 10 → 48 ≤ digitByte d ∧ digitByte d ≤ 57 := by
  decide

/-! ## Numerals -/

/-- The last digit comes off the end. -/
theorem numeral_eq {b : Nat} (hb : 1 < b) (n : Nat) :
    numeral b n = if n < b then [digitByte n] else numeral b (n / b) ++ [digitByte (n % b)] := by
  rw [numeral, Nat.toDigits_eq_if hb]
  split
  · rfl
  · simp [numeral, digitByte]

theorem length_numeral_pos {b : Nat} (hb : 1 < b) (n : Nat) : 0 < (numeral b n).length := by
  rw [numeral_eq hb]
  split
  · simp
  · simp

theorem length_numeral_le {b n k : Nat} (hb : 1 < b) (hk : 0 < k) (h : n < b ^ k) :
    (numeral b n).length ≤ k := by
  rw [numeral, List.length_map]
  exact (Nat.length_toDigits_le_iff hb hk).mpr h

/-- Every byte of a numeral is a digit of its base. -/
theorem mem_numeral {b : Nat} (hb : 1 < b) {n : Nat} {c : UInt8} (hc : c ∈ numeral b n) :
    ∃ d, d < b ∧ c = digitByte d := by
  induction n using Nat.strongRecOn with
  | ind n ih =>
    rw [numeral_eq hb] at hc
    split at hc
    · rename_i hlt
      exact ⟨n, hlt, List.mem_singleton.mp hc⟩
    · rename_i hge
      rcases List.mem_append.mp hc with hc | hc
      · exact ih (n / b) (Nat.div_lt_self (by omega) hb) hc
      · exact ⟨n % b, Nat.mod_lt n (by omega), List.mem_singleton.mp hc⟩

theorem isHexDigit_of_mem_numeral {b : Nat} (hb : 1 < b) (hb' : b ≤ 16) {n : Nat} {c : UInt8}
    (hc : c ∈ numeral b n) : IsHexDigit c := by
  obtain ⟨d, hd, rfl⟩ := mem_numeral hb hc
  exact isHexDigit_digitByte (by omega)

theorem isDigit_of_mem_numeral {n : Nat} {c : UInt8} (hc : c ∈ numeral 10 n) :
    48 ≤ c ∧ c ≤ 57 := by
  obtain ⟨d, hd, rfl⟩ := mem_numeral (by omega) hc
  exact isDigit_digitByte hd

theorem ofNumeral_numeral {b : Nat} (hb : 1 < b) (hb' : b ≤ 16) (n : Nat) :
    ofNumeral b (numeral b n) = n := by
  induction n using Nat.strongRecOn with
  | ind n ih =>
    rw [numeral_eq hb]
    split
    · rename_i hlt
      simp [ofNumeral, digitVal_digitByte (by omega : n < 16)]
    · rename_i hge
      have hmod : n % b < 16 := by
        have := Nat.mod_lt n (by omega : 0 < b)
        omega
      have hdiv : ofNumeral b (numeral b (n / b)) = n / b :=
        ih (n / b) (Nat.div_lt_self (by omega) hb)
      rw [ofNumeral, List.foldl_append, ← ofNumeral, hdiv, List.foldl_cons, List.foldl_nil,
        digitVal_digitByte hmod, Nat.div_add_mod]

theorem numeral_injective {b : Nat} (hb : 1 < b) (hb' : b ≤ 16) {m n : Nat}
    (h : numeral b m = numeral b n) : m = n := by
  rw [← ofNumeral_numeral hb hb' m, h, ofNumeral_numeral hb hb']

end LibbpfTools.Lib
