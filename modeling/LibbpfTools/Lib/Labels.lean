/-
LibbpfTools.Lib.Labels — the labelled values of a formatted text.

A text such as `read(fd=3, count=16)` is printed with one format, and which
value stands under which label is decided there: the label and the commas are
literal bytes of the format, the value is what a conversion makes of an
argument. Looking for them in the text instead would be wrong, because a
value may have commas and equals signs of its own. So the text is kept as
`Token`s, literal bytes apart from the texts of arguments, and `parseCall`
reads name and fields off the tokens. What it reads is the whole text
(`format_of_parseCall`).
-/
import LibbpfTools.Lib.Printf

namespace LibbpfTools.Lib

/-! ## Tokens -/

/-- A literal byte of the format, or the text of an argument. -/
inductive Token where
  | lit (c : UInt8)
  | val (text : Bytes)
deriving DecidableEq

def Token.text : Token → Bytes
  | .lit c => [c]
  | .val text => text

def textOf : List Token → Bytes
  | [] => []
  | [t] => t.text
  | t :: ts => t.text ++ textOf ts

@[simp] theorem textOf_nil : textOf [] = [] := rfl

@[simp] theorem textOf_cons (t : Token) (ts : List Token) :
    textOf (t :: ts) = t.text ++ textOf ts := by
  cases ts with
  | nil => simp [textOf]
  | cons t' ts => rfl

theorem textOf_append (ts us : List Token) : textOf (ts ++ us) = textOf ts ++ textOf us := by
  induction ts with
  | nil => rfl
  | cons t ts ih => simp [ih]

/-- What `joinPieces` joins. -/
def tokens : List Piece → List Arg → List Token
  | [], _ => []
  | .lit c :: ps, args => .lit c :: tokens ps args
  | p :: ps, a :: args => .val (p.convert a) :: tokens ps args
  | _ :: ps, [] => tokens ps []

theorem textOf_tokens (ps : List Piece) (args : List Arg) :
    textOf (tokens ps args) = joinPieces ps args := by
  fun_induction tokens ps args with
  | case1 => rfl
  | case2 c ps args ih => simp [joinPieces, Token.text, ih]
  | case3 p ps a args hp ih => simp [joinPieces, Token.text, ih]
  | case4 p ps hp ih => simp [joinPieces, ih]

/-- The tokens of a formatted text. -/
def formatTokens (fmt : String) (args : List Arg) : List Token :=
  tokens (parseFormat fmt.toList) args

/-! ## Fields -/

/-- Put a token in front of the first part. -/
def consHead (t : Token) : List (List Token) → List (List Token)
  | [] => [[t]]
  | part :: parts => (t :: part) :: parts

/-- Cut at every literal `, `. -/
def cutAtCommas : List Token → List (List Token)
  | [] => [[]]
  | .lit 44 :: .lit 32 :: ts => [] :: cutAtCommas ts
  | t :: ts => consHead t (cutAtCommas ts)

/-- A label of literal bytes, a literal `=` and the value. -/
def field : List Token → Option (Bytes × Bytes)
  | .lit c :: ts =>
      if c = 61 then some ([], textOf ts) else (field ts).map fun f => (c :: f.1, f.2)
  | _ => none

/-- A name and, in parentheses, fields. -/
def parseCall : List Token → Option (Bytes × List (Bytes × Bytes))
  | .val name :: .lit 40 :: ts =>
      if ts.getLast? = some (.lit 41) then
        ((cutAtCommas ts.dropLast).mapM field).map fun fs => (name, fs)
      else none
  | _ => none

def fieldText (f : Bytes × Bytes) : Bytes := f.1 ++ 61 :: f.2

/-- The text with a name and fields. -/
def labelledText (name : Bytes) (fs : List (Bytes × Bytes)) : Bytes :=
  name ++ 40 :: ((ascii ", ").intercalate (fs.map fieldText) ++ [41])

theorem textOf_consHead (t : Token) {parts : List (List Token)} (h : parts ≠ []) :
    (ascii ", ").intercalate ((consHead t parts).map textOf)
      = t.text ++ (ascii ", ").intercalate (parts.map textOf) := by
  cases parts with
  | nil => exact absurd rfl h
  | cons part parts =>
    cases parts with
    | nil => simp [consHead]
    | cons part' parts => simp [consHead, List.intercalate_cons_cons]

theorem cutAtCommas_ne_nil (ts : List Token) : cutAtCommas ts ≠ [] := by
  fun_cases cutAtCommas ts with
  | case1 => exact List.cons_ne_nil _ _
  | case2 ts => exact List.cons_ne_nil _ _
  | case3 t ts => cases h : cutAtCommas ts <;> simp [consHead]

theorem textOf_cutAtCommas (ts : List Token) :
    (ascii ", ").intercalate ((cutAtCommas ts).map textOf) = textOf ts := by
  fun_induction cutAtCommas ts with
  | case1 => rfl
  | case2 ts ih =>
    have hne : (cutAtCommas ts).map textOf ≠ [] := by simp [cutAtCommas_ne_nil]
    rw [List.map_cons, List.intercalate_cons_of_ne_nil hne, ih, textOf_cons, textOf_cons]
    rfl
  | case3 t ts hcomma ih => rw [textOf_consHead t (cutAtCommas_ne_nil ts), ih, textOf_cons]

theorem fieldText_of_field {ts : List Token} {f : Bytes × Bytes} (h : field ts = some f) :
    fieldText f = textOf ts := by
  induction ts generalizing f with
  | nil => exact absurd h (by simp [field])
  | cons t ts ih =>
    cases t with
    | val text => exact absurd h (by simp [field])
    | lit c =>
      rw [field] at h
      split at h
      · rename_i hc
        obtain rfl := Option.some.inj h
        rw [hc, textOf_cons]
        rfl
      · obtain ⟨g, hg, rfl⟩ := Option.map_eq_some_iff.mp h
        rw [textOf_cons, ← ih hg]
        rfl

theorem fieldText_of_mapM {parts : List (List Token)} {fs : List (Bytes × Bytes)}
    (h : parts.mapM field = some fs) : fs.map fieldText = parts.map textOf := by
  induction parts generalizing fs with
  | nil =>
    obtain rfl : [] = fs := by simpa using h
    rfl
  | cons part parts ih =>
    rw [List.mapM_cons] at h
    obtain ⟨f, hf, hrest⟩ := Option.bind_eq_some_iff.mp h
    obtain ⟨gs, hgs, heq⟩ := Option.bind_eq_some_iff.mp hrest
    obtain rfl : f :: gs = fs := Option.some.inj heq
    rw [List.map_cons, List.map_cons, fieldText_of_field hf, ih hgs]

/-- **Name and fields are the whole text.** -/
theorem format_of_parseCall {fmt : String} {args : List Arg} {name : Bytes}
    {fs : List (Bytes × Bytes)} (h : parseCall (formatTokens fmt args) = some (name, fs)) :
    format fmt args = labelledText name fs := by
  rw [format, ← textOf_tokens, ← formatTokens]
  generalize formatTokens fmt args = ts at h
  fun_cases parseCall ts with
  | case1 name' ts hlast =>
    rw [parseCall, if_pos hlast] at h
    obtain ⟨fs', hfs, heq⟩ := Option.map_eq_some_iff.mp h
    obtain ⟨rfl, rfl⟩ := Prod.mk.inj heq
    have hsplit : ts = ts.dropLast ++ [.lit 41] :=
      (List.dropLast_append_getLast? _ hlast).symm
    rw [labelledText, fieldText_of_mapM hfs, textOf_cutAtCommas, textOf_cons, textOf_cons]
    conv_lhs => rw [hsplit, textOf_append]
    rfl
  | case2 name' ts hlast =>
    rw [parseCall, if_neg hlast] at h
    cases h
  | case3 => simp_all [parseCall]

example : parseCall (formatTokens "%s(fd=%llu, path=\"%s\")"
    [.str (ascii "open"), .longLong 3, .str (ascii "a, b=c")])
    = some (ascii "open", [(ascii "fd", ascii "3"), (ascii "path", ascii "\"a, b=c\"")]) := by
  decide +kernel

/-! ## Values -/

/-- The value under a label. -/
def valueUnder (label : Bytes) (fs : List (Bytes × Bytes)) : Option Bytes := fs.lookup label

/-- Under a label there is what the fields of that label have. -/
theorem valueUnder_congr {α : Type} {ps : List α} {label : Bytes} {key f g : α → Bytes}
    (h : ∀ p ∈ ps, key p = label → f p = g p) :
    valueUnder label (ps.map fun p => (key p, f p))
      = valueUnder label (ps.map fun p => (key p, g p)) := by
  unfold valueUnder
  induction ps with
  | nil => rfl
  | cons p ps ih =>
    rw [List.map_cons, List.map_cons, List.lookup_cons, List.lookup_cons]
    by_cases hkey : label = key p
    · rw [h p List.mem_cons_self hkey.symm, beq_iff_eq.mpr hkey]
    · rw [beq_false_of_ne hkey]
      exact ih fun q hq => h q (List.mem_cons_of_mem p hq)

end LibbpfTools.Lib
