/-
LibbpfTools.Lib.Scan — reading a formatted text back.

A text that `printf` made can be read back from left to right when each
conversion is followed by a literal byte that its own text does not have:
that byte ends it. `holes` lists the conversions of a format with the bytes
that follow them, `Delimited` says that the arguments are so separated, and
`joinPieces_injective` that the text and what follows it then give back every
argument.

A `%s` with a text that may have any byte cannot be read so. If it is the only
one, and a byte behind it does not occur again, the format is read from both
ends (`joinPieces_around_injective`).
-/
import LibbpfTools.Lib.Printf

namespace LibbpfTools.Lib

/-- The conversion takes an argument of this kind. -/
inductive Piece.Takes : Piece → Arg → Prop where
  | s (t : Bytes) : Takes .s (.str t)
  | d (v : BitVec 32) : Takes .d (.int v)
  | u (v : BitVec 32) : Takes .u (.int v)
  | lld (v : BitVec 64) : Takes .lld (.longLong v)
  | llu (v : BitVec 64) : Takes .llu (.longLong v)
  | llx (v : BitVec 64) : Takes .llx (.longLong v)
  | altLlx (v : BitVec 64) : Takes .altLlx (.longLong v)
  | altLlo (v : BitVec 64) : Takes .altLlo (.longLong v)

/-- Only zero is written with one digit. -/
theorem altOct_injective {v w : BitVec 64} (h : altOct v = altOct w) : v = w := by
  have hlong : ∀ v : BitVec 64, (ascii "0" ++ numeral 8 v.toNat).length ≠ (numeral 8 0).length := by
    intro v
    have hpos := length_numeral_pos (b := 8) (by omega) v.toNat
    have hone : (ascii "0").length = 1 ∧ (numeral 8 0).length = 1 := by decide
    rw [List.length_append]
    omega
  unfold altOct at h
  split at h
  · rename_i hv
    split at h
    · rename_i hw
      rw [hv, hw]
    · exact absurd (congrArg List.length h).symm (hlong w)
  · split at h
    · exact absurd (congrArg List.length h) (hlong v)
    · exact BitVec.eq_of_toNat_eq
        (numeral_injective (by omega) (by omega) (List.append_cancel_left h))

/-- A conversion loses nothing. -/
theorem convert_injective {p : Piece} {a b : Arg} (ha : p.Takes a) (hb : p.Takes b)
    (h : p.convert a = p.convert b) : a = b := by
  cases ha with
  | s t =>
    cases hb
    exact congrArg Arg.str h
  | d v =>
    cases hb
    exact congrArg Arg.int (BitVec.eq_of_toInt_eq (signed_injective h))
  | u v =>
    cases hb
    exact congrArg Arg.int (BitVec.eq_of_toNat_eq (numeral_injective (by omega) (by omega) h))
  | lld v =>
    cases hb
    exact congrArg Arg.longLong (BitVec.eq_of_toInt_eq (signed_injective h))
  | llu v =>
    cases hb
    exact congrArg Arg.longLong (BitVec.eq_of_toNat_eq (numeral_injective (by omega) (by omega) h))
  | llx v =>
    cases hb
    exact congrArg Arg.longLong (BitVec.eq_of_toNat_eq (numeral_injective (by omega) (by omega) h))
  | altLlx v =>
    cases hb
    exact congrArg Arg.longLong (altHex_injective h)
  | altLlo v =>
    cases hb
    exact congrArg Arg.longLong (altOct_injective h)

/-- A number has a digit. -/
theorem length_convert_pos {p : Piece} {v : BitVec 64} (h : p.Takes (.longLong v)) :
    0 < (p.convert (.longLong v)).length := by
  have hsign : ∀ {b : Nat} (t : Bytes), 1 < b → ∀ n, 0 < (t ++ numeral b n).length := by
    intro b t hb n
    rw [List.length_append]
    exact Nat.add_pos_right _ (length_numeral_pos hb n)
  cases h with
  | lld v =>
    rw [Piece.convert, signed]
    split
    · exact hsign _ (by omega) _
    · exact length_numeral_pos (by omega) _
  | llu v => exact length_numeral_pos (by omega) _
  | llx v => exact length_numeral_pos (by omega) _
  | altLlx v =>
    rw [Piece.convert, altHex]
    split
    · exact length_numeral_pos (by omega) _
    · exact hsign _ (by omega) _
  | altLlo v =>
    rw [Piece.convert, altOct]
    split
    · exact length_numeral_pos (by omega) _
    · exact hsign _ (by omega) _

/-! ## From left to right -/

/-- The conversions of a format, each with the literal byte behind it. -/
def holes : List Piece → List (Piece × Option UInt8)
  | [] => []
  | .lit _ :: ps => holes ps
  | p :: .lit c :: ps => (p, some c) :: holes ps
  | p :: ps => (p, none) :: holes ps

/-- The argument ends at the byte behind its conversion. -/
def Ends (hole : Piece × Option UInt8) (a : Arg) : Prop :=
  hole.1.Takes a ∧ ∃ c, hole.2 = some c ∧ c ∉ hole.1.convert a

/-- Each argument ends at the byte behind its conversion. -/
def Delimited (ps : List Piece) (args : List Arg) : Prop := List.Forall₂ Ends (holes ps) args

theorem ends_str {c : UInt8} {t : Bytes} (h : c ∉ t) : Ends (.s, some c) (.str t) :=
  ⟨.s t, c, rfl, h⟩

theorem ends_longLong {p : Piece} {c : UInt8} {v : BitVec 64} (hp : p.Takes (.longLong v))
    (hc : ¬ IsNumberByte c) : Ends (p, some c) (.longLong v) := by
  refine ⟨hp, c, rfl, fun hmem => ?_⟩
  obtain ⟨s, hs, -⟩ := mem_convert hc hmem
  cases hs

theorem joinPieces_cons_lit {p : Piece} (hp : ∀ c, p ≠ .lit c) (c : UInt8) (ps : List Piece)
    (a : Arg) (as : List Arg) :
    joinPieces (p :: .lit c :: ps) (a :: as) = p.convert a ++ c :: joinPieces ps as := by
  cases p with
  | lit d => exact absurd rfl (hp d)
  | _ => rfl

/-- The text and what is behind it give back the arguments. -/
theorem joinPieces_injective {ps : List Piece} {as bs : List Arg} {r r' : Bytes}
    (ha : Delimited ps as) (hb : Delimited ps bs)
    (h : joinPieces ps as ++ r = joinPieces ps bs ++ r') : as = bs ∧ r = r' := by
  unfold Delimited at ha hb
  fun_induction holes ps generalizing as bs with
  | case1 =>
    cases ha
    cases hb
    exact ⟨rfl, h⟩
  | case2 c ps ih => exact ih ha hb (List.cons.inj h).2
  | case3 p c ps hp ih =>
    obtain ⟨a, as, ⟨htakes, c', hc', hca⟩, has, rfl⟩ := List.forall₂_cons_left_iff.mp ha
    obtain ⟨b, bs, ⟨htakes', c'', hc'', hcb⟩, hbs, rfl⟩ := List.forall₂_cons_left_iff.mp hb
    obtain rfl := Option.some.inj hc'
    obtain rfl := Option.some.inj hc''
    have hjoin := joinPieces_cons_lit fun c heq => hp c heq
    rw [hjoin, hjoin, List.append_assoc, List.append_assoc, List.cons_append,
      List.cons_append] at h
    obtain ⟨hconv, hrest⟩ := append_cons_inj hca hcb h
    obtain ⟨rfl, hr⟩ := ih has hbs hrest
    exact ⟨by rw [convert_injective htakes htakes' hconv], hr⟩
  | case4 p ps hp hlit ih =>
    obtain ⟨a, as, ⟨-, c, hc, -⟩, -⟩ := List.forall₂_cons_left_iff.mp ha
    cases hc

/-- Every literal and every number gives a byte. -/
theorem length_le_joinPieces {ps : List Piece} {vs : List (BitVec 64)}
    (h : Delimited ps (vs.map .longLong)) :
    ps.length ≤ (joinPieces ps (vs.map .longLong)).length := by
  unfold Delimited at h
  fun_induction holes ps generalizing vs with
  | case1 => simp
  | case2 c ps ih => exact Nat.succ_le_succ (ih h)
  | case3 p c ps hp ih =>
    cases vs with
    | nil => cases h
    | cons v vs =>
      obtain ⟨⟨htakes, -⟩, hrest⟩ := List.forall₂_cons.mp h
      have hlen := ih hrest
      have hpos : 0 < (p.convert (.longLong v)).length := length_convert_pos htakes
      rw [List.map_cons, joinPieces_cons_lit fun c heq => hp c heq]
      simp only [List.length_append, List.length_cons]
      omega
  | case4 p ps hp hlit ih =>
    cases vs with
    | nil => cases h
    | cons v vs =>
      obtain ⟨⟨-, c, hc, -⟩, -⟩ := List.forall₂_cons.mp h
      cases hc

/-- The conversions are `n` numbers, between commas and in front of the last
parenthesis. -/
def Numbers (ps : List Piece) (n : Nat) : Prop :=
  (holes ps).length = n ∧ ∀ h ∈ holes ps, h.1 ∈ [Piece.lld, .llu, .altLlx, .altLlo] ∧
    h.2 ∈ [some (44 : UInt8), some 41]

instance (ps : List Piece) (n : Nat) : Decidable (Numbers ps n) :=
  inferInstanceAs (Decidable (_ ∧ _))

theorem delimited_longLongs {ps : List Piece} {vs : List (BitVec 64)}
    (hnum : Numbers ps vs.length) : Delimited ps (vs.map .longLong) := by
  rw [Delimited, List.forall₂_map_right_iff, List.forall₂_iff_get]
  refine ⟨hnum.1, fun i hi hi' => ?_⟩
  obtain ⟨hpiece, hbyte⟩ := hnum.2 ((holes ps).get ⟨i, hi⟩) (List.get_mem _ _)
  generalize (holes ps).get ⟨i, hi⟩ = hole at hpiece hbyte
  obtain ⟨p, c⟩ := hole
  simp only [List.mem_cons, List.not_mem_nil, or_false] at hpiece hbyte
  have htakes : ∀ v, p.Takes (.longLong v) := by
    intro v
    rcases hpiece with rfl | rfl | rfl | rfl
    · exact .lld v
    · exact .llu v
    · exact .altLlx v
    · exact .altLlo v
  rcases hbyte with rfl | rfl
  · exact ends_longLong (htakes _) (by decide)
  · exact ends_longLong (htakes _) (by decide)

/-! ## From both ends -/

theorem joinPieces_append {ps : List Piece} {as : List Arg} (ha : Delimited ps as)
    (qs : List Piece) (bs : List Arg) :
    joinPieces (ps ++ qs) (as ++ bs) = joinPieces ps as ++ joinPieces qs bs := by
  unfold Delimited at ha
  fun_induction holes ps generalizing as with
  | case1 =>
    cases ha
    rfl
  | case2 c ps ih => exact congrArg (c :: ·) (ih ha)
  | case3 p c ps hp ih =>
    obtain ⟨a, as, -, has, rfl⟩ := List.forall₂_cons_left_iff.mp ha
    have hjoin := joinPieces_cons_lit fun c heq => hp c heq
    rw [List.cons_append, List.cons_append, List.cons_append, hjoin, hjoin, ih has,
      List.append_assoc, List.cons_append]
  | case4 p ps hp hlit ih =>
    obtain ⟨a, as, ⟨-, c, hc, -⟩, -⟩ := List.forall₂_cons_left_iff.mp ha
    cases hc

/-- A text that may have any byte, in front of one that does not occur again:
what is before it is read from the left, the rest from the right. -/
theorem joinPieces_around_injective {ps qs : List Piece} {c : UInt8} {as as' bs bs' : List Arg}
    {t t' : Bytes} (ha : Delimited ps as) (ha' : Delimited ps as') (hb : Delimited qs bs)
    (hb' : Delimited qs bs') (hc : c ∉ joinPieces qs bs) (hc' : c ∉ joinPieces qs bs')
    (h : joinPieces (ps ++ .s :: .lit c :: qs) (as ++ .str t :: bs)
      = joinPieces (ps ++ .s :: .lit c :: qs) (as' ++ .str t' :: bs')) :
    as = as' ∧ t = t' ∧ bs = bs' := by
  rw [joinPieces_append ha, joinPieces_append ha'] at h
  obtain ⟨has, h⟩ := joinPieces_injective ha ha' h
  obtain ⟨ht, h⟩ := append_cons_inj_last hc hc' (show t ++ c :: joinPieces qs bs
    = t' ++ c :: joinPieces qs bs' from h)
  have hbs := joinPieces_injective hb hb' (congrArg (· ++ []) h)
  exact ⟨has, ht, hbs.1⟩

end LibbpfTools.Lib
