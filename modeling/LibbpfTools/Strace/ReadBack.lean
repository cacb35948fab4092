/-
LibbpfTools.Strace.ReadBack — every printed line can be read back.

`Line` reads the lines of the calls without a format of their own. The others
are harder: an `openat` shows a path with any bytes in it, a `futex` the name
of its operation with a parenthesis behind, and both stand in the same line
with a `comm` that may look like a call. What saves the line is that `comm` has
at most fifteen bytes. If the line could be cut a second time, a further
`name(` would begin among the first bytes of the arguments (`Clear`), and no
format has one so early: the paths and operation names come behind literal
bytes enough (`Lead`).

With `comm` cut off, the arguments are read from the left, from the right, or
from both ends (`Lib.Scan`). `line_lossless` says that all of what
`format_syscall_args` hands to `snprintf` comes back, and `log_lossless` that
a whole output does, for strings without a newline.
-/
import LibbpfTools.Lib.Scan
import LibbpfTools.Strace.Records

namespace LibbpfTools.Strace

open LibbpfTools.Lib

/-! ## Where `comm` ends -/

/-- A second call of this name in the arguments begins behind what the fifteen
bytes of a `comm` can reach. -/
def Clear (name args : Bytes) : Prop :=
  ∀ x r, args = x ++ 32 :: (name ++ 40 :: r) → 14 ≤ x.length + name.length

theorem clear_of_not_mem {name args : Bytes} (h : 40 ∉ args) : Clear name args := by
  rintro x r rfl
  simp at h

/-- The first bytes of the arguments, with no parenthesis or no space. -/
def Lead (name lead : Bytes) : Prop :=
  (40 ∉ lead ∧ 15 ≤ lead.length) ∨ (32 ∉ lead ∧ 14 ≤ lead.length + name.length)

theorem mem_of_isPrefix {c : UInt8} {y lead rest r : Bytes} (h : lead ++ rest = y ++ c :: r)
    (hlen : y.length < lead.length) : c ∈ lead := by
  have hwhole : y ++ [c] <+: lead ++ rest := by
    rw [h]
    exact ⟨r, by simp⟩
  have hpre : y ++ [c] <+: lead := by
    refine List.prefix_of_prefix_length_le hwhole (List.prefix_append _ _) ?_
    rw [List.length_append, List.length_singleton]
    omega
  exact hpre.subset (by simp)

theorem clear_of_lead {name lead : Bytes} (h : Lead name lead) (rest : Bytes) :
    Clear name (lead ++ rest) := by
  intro x r heq
  by_contra hlt
  rcases h with ⟨hparen, hlen⟩ | ⟨hspace, hlen⟩
  · have heq : lead ++ rest = (x ++ 32 :: name) ++ 40 :: r := by
      rw [heq, List.append_assoc, List.cons_append]
    refine hparen (mem_of_isPrefix heq ?_)
    rw [List.length_append, List.length_cons]
    omega
  · exact hspace (mem_of_isPrefix heq (by omega))

theorem comm_split {comm comm' name args args' : Bytes} (hname : 32 ∉ name)
    (hlen : comm.length ≤ 15) (hlen' : comm'.length ≤ 15) (hargs : Clear name args)
    (hargs' : Clear name args')
    (h : comm ++ 32 :: (name ++ 40 :: args) = comm' ++ 32 :: (name ++ 40 :: args')) :
    comm = comm' ∧ args = args' := by
  have hshift : ∀ args : Bytes, name ++ 40 :: args = (name ++ [40]) ++ args := by
    intro args
    rw [List.append_assoc]
    rfl
  -- a longer `comm` has the name and two more bytes in it, and what is between
  have htoo : ∀ {comm comm' args args' x : Bytes}, comm'.length ≤ 15 → Clear name args →
      comm' = comm ++ 32 :: ((name ++ [40]) ++ x) →
      args = x ++ 32 :: ((name ++ [40]) ++ args') → False := by
    intro comm comm' args args' x hlen hclear hcomm hargs
    rw [← hshift] at hcomm hargs
    have hfar := hclear x args' hargs
    rw [hcomm] at hlen
    simp only [List.length_append, List.length_cons] at hlen
    omega
  rw [hshift args, hshift args'] at h
  have hs : 32 ∉ name ++ [40] := by simp [hname]
  rcases append_sep_cases hs h with heq | ⟨x, hcomm, hx⟩ | ⟨x, hcomm, hx⟩
  · exact heq
  · exact (htoo hlen' hargs hcomm hx).elim
  · exact (htoo hlen hargs' hcomm hx).elim

/-! ## Reading one call -/

/-- Behind any `comm`, the text of a call tells the two from each other: it
gives back `comm`, the format and its arguments. -/
def Reads (f f' : String × List Arg) : Prop :=
  ∀ comm comm' : Bytes, comm.length ≤ 15 → comm'.length ≤ 15 →
    comm ++ 32 :: format f.1 f.2 = comm' ++ 32 :: format f'.1 f'.2 → comm = comm' ∧ f = f'

/-- The format of a call: a name, a parenthesis and the pieces behind them. -/
def Opens (fmt : String) (ps : List Piece) : Prop := parseFormat fmt.toList = .s :: .lit 40 :: ps

instance (fmt : String) (ps : List Piece) : Decidable (Opens fmt ps) :=
  inferInstanceAs (Decidable (_ = _))

theorem Opens.format_eq {fmt : String} {ps : List Piece} (h : Opens fmt ps) (name : Bytes)
    (args : List Arg) : format fmt (.str name :: args) = name ++ 40 :: joinPieces ps args := by
  rw [format, h]
  rfl

theorem reads_of {fmt fmt' : String} {ps ps' : List Piece} {name : Bytes} {args args' : List Arg}
    (hopen : Opens fmt ps) (hopen' : Opens fmt' ps') (hname : 32 ∉ name)
    (hclear : Clear name (joinPieces ps args)) (hclear' : Clear name (joinPieces ps' args'))
    (h : joinPieces ps args = joinPieces ps' args' → fmt = fmt' ∧ args = args') :
    Reads (fmt, .str name :: args) (fmt', .str name :: args') := by
  intro comm comm' hlen hlen' heq
  simp only [hopen.format_eq, hopen'.format_eq] at heq
  obtain ⟨hcomm, hjoin⟩ := comm_split hname hlen hlen' hclear hclear' heq
  obtain ⟨rfl, rfl⟩ := h hjoin
  exact ⟨hcomm, rfl⟩

/-- A call whose arguments are read from the left. -/
theorem reads_of_delimited {fmt : String} {ps : List Piece} {name : Bytes} {args args' : List Arg}
    (hopen : Opens fmt ps) (hname : 32 ∉ name) (hclear : Clear name (joinPieces ps args))
    (hclear' : Clear name (joinPieces ps args')) (hd : Delimited ps args)
    (hd' : Delimited ps args') : Reads (fmt, .str name :: args) (fmt, .str name :: args') :=
  reads_of hopen hopen hname hclear hclear' fun h =>
    ⟨rfl, (joinPieces_injective hd hd' (congrArg (· ++ []) h)).1⟩

theorem not_mem_joinPieces_numbers {ps : List Piece} {c : UInt8} (hc : ¬ IsNumberByte c)
    (hlit : .lit c ∉ ps) (vs : List (BitVec 64)) : c ∉ joinPieces ps (vs.map .longLong) := by
  intro h
  rcases mem_joinPieces hc h with h | ⟨s, hs, -⟩
  · exact hlit h
  · simp at hs

/-- A format of `n` numbers behind a name, with no other parenthesis. -/
def NumberFormat (fmt rest : String) (n : Nat) : Prop :=
  Opens fmt (parseFormat rest.toList) ∧ .lit 40 ∉ parseFormat rest.toList ∧
    Numbers (parseFormat rest.toList) n

instance (fmt rest : String) (n : Nat) : Decidable (NumberFormat fmt rest n) :=
  inferInstanceAs (Decidable (_ ∧ _))

theorem reads_of_numbers {fmt : String} {name : Bytes} (rest : String) (n : Nat)
    (vs vs' : List (BitVec 64)) (hvs : vs.length = n) (hvs' : vs'.length = n)
    (hfmt : NumberFormat fmt rest n) (hname : 32 ∉ name) :
    Reads (fmt, .str name :: vs.map .longLong) (fmt, .str name :: vs'.map .longLong) := by
  obtain ⟨hopen, hparen, hnum⟩ := hfmt
  have hclear : ∀ vs : List (BitVec 64),
      Clear name (joinPieces (parseFormat rest.toList) (vs.map .longLong)) :=
    fun vs => clear_of_not_mem (not_mem_joinPieces_numbers (by decide) hparen vs)
  exact reads_of_delimited hopen hname (hclear _) (hclear _)
    (delimited_longLongs (by rwa [hvs])) (delimited_longLongs (by rwa [hvs']))

/-- Numbers behind literal bytes, as the arguments of a call begin. -/
theorem lead_of_numbers {ps : List Piece} {vs : List (BitVec 64)} (name : Bytes)
    (hparen : .lit 40 ∉ ps) (hnum : Numbers ps vs.length) (hlong : 15 ≤ ps.length) :
    Lead name (joinPieces ps (vs.map .longLong)) :=
  Or.inl ⟨not_mem_joinPieces_numbers (by decide) hparen vs,
    le_trans hlong (length_le_joinPieces (delimited_longLongs hnum))⟩

/-- A text of any bytes between two parts that are read from the two ends. -/
theorem reads_of_around {fmt : String} {ps qs : List Piece} {c : UInt8} {name t t' : Bytes}
    {as as' bs bs' : List Arg} (hopen : Opens fmt (ps ++ .s :: .lit c :: qs)) (hname : 32 ∉ name)
    (hlead : Lead name (joinPieces ps as)) (hlead' : Lead name (joinPieces ps as'))
    (ha : Delimited ps as) (ha' : Delimited ps as') (hb : Delimited qs bs)
    (hb' : Delimited qs bs') (hc : c ∉ joinPieces qs bs) (hc' : c ∉ joinPieces qs bs') :
    Reads (fmt, .str name :: (as ++ .str t :: bs)) (fmt, .str name :: (as' ++ .str t' :: bs')) := by
  refine reads_of hopen hopen hname ?_ ?_ fun h => ?_
  · rw [joinPieces_append ha]
    exact clear_of_lead hlead _
  · rw [joinPieces_append ha']
    exact clear_of_lead hlead' _
  · obtain ⟨rfl, rfl, rfl⟩ := joinPieces_around_injective ha ha' hb hb' hc hc' h
    exact ⟨rfl, rfl⟩

/-! ## The calls with a path -/

/-- The path of a call as the formatter has it: a string, or the pointer. -/
def pathOf (e : SyscallEvent) (ptr : BitVec 64) : Bytes ⊕ BitVec 64 :=
  match argString e with
  | some v => .inl (cstr v.toList)
  | none => .inr ptr

/-- One of two formats, after the path. -/
def pathFormat (quote pointer : String) (name : Bytes) (vs : List (BitVec 64))
    (path : Bytes ⊕ BitVec 64) (bs : List Arg) : String × List Arg :=
  match path with
  | .inl s => (quote, .str name :: (vs.map .longLong ++ .str s :: bs))
  | .inr p => (pointer, .str name :: (vs.map .longLong ++ .longLong p :: bs))

/-- The path and what is behind the comma. -/
def pathText (path : Bytes ⊕ BitVec 64) (rest : Bytes) : Bytes :=
  match path with
  | .inl s => 34 :: (s ++ 34 :: 44 :: rest)
  | .inr p => altHex p ++ 44 :: rest

/-- A quote tells a string from a pointer, and the last quote ends it. -/
theorem pathText_injective {path path' : Bytes ⊕ BitVec 64} {rest rest' : Bytes}
    (hrest : 34 ∉ rest) (hrest' : 34 ∉ rest') (h : pathText path rest = pathText path' rest') :
    path = path' ∧ rest = rest' := by
  have hlast : ∀ {rest : Bytes}, 34 ∉ rest → 34 ∉ 44 :: rest := by
    intro rest h
    simp [h]
  have hcomma : ∀ v, 44 ∉ altHex v := not_mem_altHex (by decide)
  -- a number does not begin with a quote
  have hmixed : ∀ {s rest rest' : Bytes} {p : BitVec 64},
      34 :: (s ++ 34 :: 44 :: rest) ≠ altHex p ++ 44 :: rest' := by
    intro s rest rest' p heq
    cases hp : altHex p with
    | nil =>
      rw [hp] at heq
      exact absurd (List.cons.inj heq).1 (by decide)
    | cons c t =>
      rw [hp] at heq
      refine quote_not_mem_altHex p ?_
      rw [hp, (List.cons.inj heq).1]
      exact List.mem_cons_self
  cases path with
  | inl s =>
    cases path' with
    | inl s' =>
      obtain ⟨rfl, hr⟩ := append_cons_inj_last (hlast hrest) (hlast hrest') (List.cons.inj h).2
      exact ⟨rfl, (List.cons.inj hr).2⟩
    | inr p' => exact absurd h hmixed
  | inr p =>
    cases path' with
    | inl s' => exact absurd h.symm hmixed
    | inr p' =>
      obtain ⟨hp, hr⟩ := append_cons_inj (hcomma p) (hcomma p') h
      exact ⟨by rw [altHex_injective hp], hr⟩

/-- The two formats of a call with a path differ only in how they show it. -/
structure PathFormats (quote pointer : String) (ps qs : List Piece) : Prop where
  quote_opens : Opens quote (ps ++ .lit 34 :: .s :: .lit 34 :: .lit 44 :: qs)
  pointer_opens : Opens pointer (ps ++ .altLlx :: .lit 44 :: qs)

theorem PathFormats.format_eq {quote pointer : String} {ps qs : List Piece}
    (h : PathFormats quote pointer ps qs) (name : Bytes) {vs : List (BitVec 64)}
    (hvs : Delimited ps (vs.map .longLong)) (path : Bytes ⊕ BitVec 64) (bs : List Arg) :
    format (pathFormat quote pointer name vs path bs).1 (pathFormat quote pointer name vs path bs).2
      = name ++ 40 :: (joinPieces ps (vs.map .longLong) ++ pathText path (joinPieces qs bs)) := by
  cases path with
  | inl s =>
    simp only [pathFormat]
    rw [h.quote_opens.format_eq, joinPieces_append hvs]
    rfl
  | inr p =>
    simp only [pathFormat]
    rw [h.pointer_opens.format_eq, joinPieces_append hvs]
    rfl

theorem reads_path {quote pointer : String} {ps qs : List Piece} {name : Bytes}
    {vs vs' : List (BitVec 64)} {path path' : Bytes ⊕ BitVec 64} {bs bs' : List Arg}
    (hfmt : PathFormats quote pointer ps qs) (hname : 32 ∉ name)
    (hlead : Lead name (joinPieces ps (vs.map .longLong)))
    (hlead' : Lead name (joinPieces ps (vs'.map .longLong)))
    (hvs : Delimited ps (vs.map .longLong)) (hvs' : Delimited ps (vs'.map .longLong))
    (hbs : Delimited qs bs) (hbs' : Delimited qs bs')
    (hquote : 34 ∉ joinPieces qs bs) (hquote' : 34 ∉ joinPieces qs bs') :
    Reads (pathFormat quote pointer name vs path bs)
      (pathFormat quote pointer name vs' path' bs') := by
  intro comm comm' hlen hlen' heq
  rw [hfmt.format_eq name hvs, hfmt.format_eq name hvs'] at heq
  obtain ⟨hcomm, hargs⟩ := comm_split hname hlen hlen' (clear_of_lead hlead _)
    (clear_of_lead hlead' _) heq
  obtain ⟨hv, hrest⟩ := joinPieces_injective hvs hvs' hargs
  obtain ⟨rfl, hb⟩ := pathText_injective hquote hquote' hrest
  obtain rfl := (joinPieces_injective hbs hbs' (congrArg (· ++ []) hb)).1
  refine ⟨hcomm, ?_⟩
  cases path with
  | inl s => simp only [pathFormat, hv]
  | inr p => simp only [pathFormat, hv]

/-! ## Every call -/

section Calls

variable {name : Bytes}

theorem delimited_dfd (v : BitVec 64) :
    Delimited (parseFormat "dfd=%lld, pathname=".toList) ([v].map .longLong) :=
  delimited_longLongs (show Numbers _ 1 by decide +kernel)

theorem lead_dfd (name : Bytes) (v : BitVec 64) :
    Lead name (joinPieces (parseFormat "dfd=%lld, pathname=".toList) ([v].map .longLong)) :=
  lead_of_numbers name (by decide +kernel) (show Numbers _ 1 by decide +kernel)
    (by decide +kernel)

theorem reads_openat (hname : 32 ∉ name) (dfd dfd' flags flags' mode mode' : BitVec 64)
    (path path' : Bytes ⊕ BitVec 64) :
    Reads
      (pathFormat "%s(dfd=%lld, pathname=\"%s\", flags=%s, mode=%#llo)"
        "%s(dfd=%lld, pathname=%#llx, flags=%s, mode=%#llo)" name [dfd] path
        [.str (formatOpenatFlags flags 256), .longLong mode])
      (pathFormat "%s(dfd=%lld, pathname=\"%s\", flags=%s, mode=%#llo)"
        "%s(dfd=%lld, pathname=%#llx, flags=%s, mode=%#llo)" name [dfd'] path'
        [.str (formatOpenatFlags flags' 256), .longLong mode']) := by
  have hback : ∀ flags mode : BitVec 64, Delimited (parseFormat " flags=%s, mode=%#llo)".toList)
      [.str (flagText flags), .longLong mode] := by
    intro flags mode
    exact .cons (ends_str (not_mem_flagText (by decide) flags))
      (.cons (ends_longLong (.altLlo mode) (by decide)) .nil)
  have hquote : ∀ flags mode : BitVec 64,
      34 ∉ joinPieces (parseFormat " flags=%s, mode=%#llo)".toList)
        [.str (flagText flags), .longLong mode] := by
    intro flags mode
    refine not_mem_format (by decide) (by decide +kernel) fun s hs => ?_
    simp only [List.mem_cons, Arg.str.injEq, reduceCtorEq, List.not_mem_nil, or_false] at hs
    rw [hs]
    exact not_mem_flagText (by decide) flags
  rw [formatOpenatFlags_eq, formatOpenatFlags_eq]
  exact reads_path ⟨by decide +kernel, by decide +kernel⟩ hname (lead_dfd name dfd)
    (lead_dfd name dfd') (delimited_dfd dfd) (delimited_dfd dfd') (hback _ _) (hback _ _)
    (hquote _ _) (hquote _ _)

theorem reads_openat2 (hname : 32 ∉ name) (dfd dfd' how how' size size' : BitVec 64)
    (path path' : Bytes ⊕ BitVec 64) :
    Reads
      (pathFormat "%s(dfd=%lld, pathname=\"%s\", how=%#llx, size=%llu)"
        "%s(dfd=%lld, pathname=%#llx, how=%#llx, size=%llu)" name [dfd] path
        [.longLong how, .longLong size])
      (pathFormat "%s(dfd=%lld, pathname=\"%s\", how=%#llx, size=%llu)"
        "%s(dfd=%lld, pathname=%#llx, how=%#llx, size=%llu)" name [dfd'] path'
        [.longLong how', .longLong size']) := by
  have hback : ∀ how size : BitVec 64, Delimited (parseFormat " how=%#llx, size=%llu)".toList)
      ([how, size].map .longLong) :=
    fun how size => delimited_longLongs (show Numbers _ 2 by decide +kernel)
  have hquote : ∀ how size : BitVec 64,
      34 ∉ joinPieces (parseFormat " how=%#llx, size=%llu)".toList) ([how, size].map .longLong) :=
    fun how size => not_mem_joinPieces_numbers quote_not_number (by decide +kernel) _
  exact reads_path ⟨by decide +kernel, by decide +kernel⟩ hname (lead_dfd name dfd)
    (lead_dfd name dfd') (delimited_dfd dfd) (delimited_dfd dfd') (hback _ _) (hback _ _)
    (hquote _ _) (hquote _ _)

/-- Nine bytes are in front of the path, and they have no space. -/
theorem reads_execve (hname : 32 ∉ name) (hlen : 5 ≤ name.length)
    (argv argv' envp envp' : BitVec 64) (path path' : Bytes ⊕ BitVec 64) :
    Reads
      (pathFormat "%s(filename=\"%s\", argv=%#llx, envp=%#llx)"
        "%s(filename=%#llx, argv=%#llx, envp=%#llx)" name [] path
        [.longLong argv, .longLong envp])
      (pathFormat "%s(filename=\"%s\", argv=%#llx, envp=%#llx)"
        "%s(filename=%#llx, argv=%#llx, envp=%#llx)" name [] path'
        [.longLong argv', .longLong envp']) := by
  have hfront : Delimited (parseFormat "filename=".toList) (List.map .longLong []) :=
    delimited_longLongs (show Numbers _ 0 by decide +kernel)
  have hlead : Lead name (joinPieces (parseFormat "filename=".toList) (List.map .longLong [])) := by
    have hnine : 32 ∉ joinPieces (parseFormat "filename=".toList) [] ∧
        (joinPieces (parseFormat "filename=".toList) []).length = 9 := by decide +kernel
    exact Or.inr ⟨hnine.1, by rw [List.map_nil, hnine.2]; omega⟩
  have hback : ∀ argv envp : BitVec 64, Delimited (parseFormat " argv=%#llx, envp=%#llx)".toList)
      ([argv, envp].map .longLong) :=
    fun argv envp => delimited_longLongs (show Numbers _ 2 by decide +kernel)
  have hquote : ∀ argv envp : BitVec 64,
      34 ∉ joinPieces (parseFormat " argv=%#llx, envp=%#llx)".toList)
        ([argv, envp].map .longLong) :=
    fun argv envp => not_mem_joinPieces_numbers quote_not_number (by decide +kernel) _
  exact reads_path ⟨by decide +kernel, by decide +kernel⟩ hname hlead hlead hfront hfront
    (hback _ _) (hback _ _) (hquote _ _) (hquote _ _)

/-- The name of the operation ends at a parenthesis, which is not among the
first bytes. -/
theorem reads_futex (hname : 32 ∉ name) (a a' op op' b b' c c' d d' : BitVec 64) :
    Reads
      ("%s(uaddr=%#llx, op=%s(%#llx), val=%llu, timeout/uaddr2=%#llx, val3=%#llx)",
        [.str name, .longLong a, .str (futexOpName op), .longLong op, .longLong b, .longLong c,
         .longLong d])
      ("%s(uaddr=%#llx, op=%s(%#llx), val=%llu, timeout/uaddr2=%#llx, val3=%#llx)",
        [.str name, .longLong a', .str (futexOpName op'), .longLong op', .longLong b',
         .longLong c', .longLong d']) := by
  have hparen : ∀ op, 40 ∉ futexOpName op :=
    futexOpName_of_forall (P := fun name => 40 ∉ name) (by decide) (by decide)
  have hlong : ∀ op, 8 ≤ (futexOpName op).length :=
    futexOpName_of_forall (P := fun name => 8 ≤ name.length) (by decide) (by decide)
  have hdel : ∀ a op b c d : BitVec 64,
      Delimited (parseFormat
        "uaddr=%#llx, op=%s(%#llx), val=%llu, timeout/uaddr2=%#llx, val3=%#llx)".toList)
        [.longLong a, .str (futexOpName op), .longLong op, .longLong b, .longLong c,
         .longLong d] := by
    intro a op b c d
    exact .cons (ends_longLong (.altLlx a) (by decide)) (.cons (ends_str (hparen op))
      (.cons (ends_longLong (.altLlx op) (by decide)) (.cons (ends_longLong (.llu b) (by decide))
        (.cons (ends_longLong (.altLlx c) (by decide))
          (.cons (ends_longLong (.altLlx d) (by decide)) .nil)))))
  have hclear : ∀ a op b c d : BitVec 64,
      Clear name (joinPieces (parseFormat
        "uaddr=%#llx, op=%s(%#llx), val=%llu, timeout/uaddr2=%#llx, val3=%#llx)".toList)
        [.longLong a, .str (futexOpName op), .longLong op, .longLong b, .longLong c,
         .longLong d]) := by
    intro a op b c d
    have hlead : Lead name (ascii "uaddr=" ++ (altHex a ++ (ascii ", op=" ++ futexOpName op))) := by
      refine Or.inl ⟨?_, ?_⟩
      · simp only [List.mem_append, not_or]
        exact ⟨by decide, not_mem_altHex (by decide) a, by decide, hparen op⟩
      · have hop := hlong op
        have hlit : (ascii "uaddr=").length = 6 ∧ (ascii ", op=").length = 5 := by decide
        simp only [List.length_append, hlit]
        omega
    have hshape := clear_of_lead hlead (40 :: joinPieces (parseFormat
      "%#llx), val=%llu, timeout/uaddr2=%#llx, val3=%#llx)".toList)
        [.longLong op, .longLong b, .longLong c, .longLong d])
    simp only [List.append_assoc] at hshape
    exact hshape
  exact reads_of_delimited (by decide +kernel) hname (hclear _ _ _ _ _) (hclear _ _ _ _ _)
    (hdel _ _ _ _ _) (hdel _ _ _ _ _)

/-- A format with `n` numbers in front of an address. -/
def AddressFormat (fmt front : String) (n : Nat) : Prop :=
  Opens fmt (parseFormat front.toList ++ .s :: .lit 44 :: parseFormat " addrlen=%llu)".toList) ∧
    .lit 40 ∉ parseFormat front.toList ∧ 15 ≤ (parseFormat front.toList).length ∧
    Numbers (parseFormat front.toList) n

instance (fmt front : String) (n : Nat) : Decidable (AddressFormat fmt front n) :=
  inferInstanceAs (Decidable (_ ∧ _))

/-- The address has commas of its own; the one behind it is the last. -/
theorem reads_address {fmt : String} (front : String) (n : Nat) (vs vs' : List (BitVec 64))
    (hvs : vs.length = n) (hvs' : vs'.length = n) (hfmt : AddressFormat fmt front n)
    (hname : 32 ∉ name) (addr addr' : Bytes) (len len' : BitVec 64) :
    Reads (fmt, .str name :: (vs.map .longLong ++ [.str addr, .longLong len]))
      (fmt, .str name :: (vs'.map .longLong ++ [.str addr', .longLong len'])) := by
  obtain ⟨hopen, hparen, hlong, hnum⟩ := hfmt
  have hback : ∀ len : BitVec 64, Delimited (parseFormat " addrlen=%llu)".toList)
      ([len].map .longLong) := fun len => delimited_longLongs (show Numbers _ 1 by decide +kernel)
  have hcomma : ∀ len : BitVec 64, 44 ∉ joinPieces (parseFormat " addrlen=%llu)".toList)
      ([len].map .longLong) :=
    fun len => not_mem_joinPieces_numbers (by decide) (by decide +kernel) _
  have hfront : ∀ vs : List (BitVec 64), vs.length = n →
      Lead name (joinPieces (parseFormat front.toList) (vs.map .longLong)) ∧
        Delimited (parseFormat front.toList) (vs.map .longLong) := by
    rintro vs rfl
    exact ⟨lead_of_numbers name hparen hnum hlong, delimited_longLongs hnum⟩
  exact reads_of_around hopen hname (hfront vs hvs).1 (hfront vs' hvs').1 (hfront vs hvs).2
    (hfront vs' hvs').2 (hback _) (hback _) (hcomma _) (hcomma _)

end Calls

section Paths

variable (libc : Libc) {e : SyscallEvent} (name : Bytes)

theorem callFormat_openat (hid : e.syscallId = Uapi.nrOpenat) :
    callFormat libc e name = pathFormat "%s(dfd=%lld, pathname=\"%s\", flags=%s, mode=%#llo)"
      "%s(dfd=%lld, pathname=%#llx, flags=%s, mode=%#llo)" name [e.args[0]!]
      (pathOf e e.args[1]!) [.str (formatOpenatFlags e.args[2]! 256), .longLong e.args[3]!] := by
  simp +decide only [callFormat, hid, pathOf, if_true, if_false]
  cases argString e with
  | none => rfl
  | some v => rfl

theorem callFormat_openat2 (hid : e.syscallId = Uapi.nrOpenat2) :
    callFormat libc e name = pathFormat "%s(dfd=%lld, pathname=\"%s\", how=%#llx, size=%llu)"
      "%s(dfd=%lld, pathname=%#llx, how=%#llx, size=%llu)" name [e.args[0]!]
      (pathOf e e.args[1]!) [.longLong e.args[2]!, .longLong e.args[3]!] := by
  simp +decide only [callFormat, hid, pathOf, if_true, if_false]
  cases argString e with
  | none => rfl
  | some v => rfl

theorem callFormat_execve (hid : e.syscallId = Uapi.nrExecve) :
    callFormat libc e name = pathFormat "%s(filename=\"%s\", argv=%#llx, envp=%#llx)"
      "%s(filename=%#llx, argv=%#llx, envp=%#llx)" name [] (pathOf e e.args[0]!)
      [.longLong e.args[1]!, .longLong e.args[2]!] := by
  simp +decide only [callFormat, hid, pathOf, if_true, if_false]
  cases argString e with
  | none => rfl
  | some v => rfl

end Paths

theorem reads_callFormat (libc : Libc) {e e' : SyscallEvent} (hid : e.syscallId = e'.syscallId) :
    Reads (callFormat libc e (printedName e.syscallId))
      (callFormat libc e' (printedName e'.syscallId)) := by
  rw [← hid]
  have hname : 32 ∉ printedName e.syscallId := not_mem_printedName (by decide) _
  by_cases hopenat : e.syscallId = Uapi.nrOpenat
  · rw [callFormat_openat libc _ hopenat, callFormat_openat libc _ (hid ▸ hopenat)]
    exact reads_openat hname _ _ _ _ _ _ _ _
  by_cases hopenat2 : e.syscallId = Uapi.nrOpenat2
  · rw [callFormat_openat2 libc _ hopenat2, callFormat_openat2 libc _ (hid ▸ hopenat2)]
    exact reads_openat2 hname _ _ _ _ _ _ _ _
  by_cases hexecve : e.syscallId = Uapi.nrExecve
  · have hlen : 5 ≤ (printedName Uapi.nrExecve).length := by decide +kernel
    rw [callFormat_execve libc _ hexecve, callFormat_execve libc _ (hid ▸ hexecve)]
    exact reads_execve hname (hexecve ▸ hlen) _ _ _ _ _ _
  simp only [callFormat, ← hid, if_neg hopenat, if_neg hopenat2, if_neg hexecve]
  split
  · exact reads_of_numbers "fd=%llu, buf=%#llx, count=%llu)" 3 [_, _, _] [_, _, _] rfl rfl
      (by decide +kernel) hname
  split
  · exact reads_of_numbers "fd=%llu, cmd=%#llx, arg=%#llx)" 3 [_, _, _] [_, _, _] rfl rfl
      (by decide +kernel) hname
  split
  · exact reads_futex hname _ _ _ _ _ _ _ _ _ _
  split
  · split
    · exact reads_address "sockfd=%llu, buf=%#llx, len=%llu, flags=%#llx, dest_addr=" 4
        [_, _, _, _] [_, _, _, _] rfl rfl (by decide +kernel) hname _ _ _ _
    · exact reads_address "sockfd=%llu, addr=" 1 [_] [_] rfl rfl (by decide +kernel) hname _ _ _ _
  split
  · exact reads_of_numbers
      "epfd=%llu, events=%#llx, maxevents=%llu, timeout=%lld, sigmask=%#llx, sigsetsize=%llu)" 6
      [_, _, _, _, _, _] [_, _, _, _, _, _] rfl rfl (by decide +kernel) hname
  · exact reads_of_numbers "%#llx, %#llx, %#llx, %#llx, %#llx, %#llx)" 6
      [_, _, _, _, _, _] [_, _, _, _, _, _] rfl rfl (by decide +kernel) hname

/-! ## The whole line, and the whole output -/

/-- What two events have in common that print the same line. -/
structure SameShown (libc : Libc) (e e' : SyscallEvent) : Prop where
  tgid : e.tgid = e'.tgid
  pid : e.pid = e'.pid
  syscallId : e.syscallId = e'.syscallId
  comm : cstr e.comm.toList = cstr e'.comm.toList
  /-- The format and each of its arguments. -/
  call : callFormat libc e (printedName e.syscallId) = callFormat libc e' (printedName e'.syscallId)
  ret : 0 ≤ e.ret.toInt ∨ 0 ≤ e'.ret.toInt → e.ret = e'.ret

theorem sameShown_of_record {libc : Libc} (hfit : libc.StrerrorFits) (hplain : libc.StrerrorPlain)
    (d d' : Delivery) (h : record libc d.event = record libc d'.event) :
    SameShown libc d.event d'.event := by
  rw [record_eq, record_eq, cstr_append_of_mem d.comm_nul, cstr_append_of_mem d'.comm_nul] at h
  obtain ⟨htgid, hpid, hmiddle, hid⟩ := recordText_injective h
  obtain ⟨hcall, hret⟩ := middleText_split (lastEquals_retText hfit hplain d.event.ret)
    (lastEquals_retText hfit hplain d'.event.ret) hmiddle
  rw [callText_eq, callText_eq] at hcall
  obtain ⟨hcomm, hfmt⟩ := reads_callFormat libc hid _ _
    (Nat.le_of_lt_succ (length_cstr_lt d.comm_nul))
    (Nat.le_of_lt_succ (length_cstr_lt d'.comm_nul)) hcall
  exact ⟨htgid, hpid, hid, hcomm, hfmt, ret_eq_of_retText hfit hret⟩

/-- **Every line can be read back.** Two events that print the same line have
the same process, thread, call and `comm`, and the same format with the same
arguments, whatever bytes the strings have that the traced process chose. -/
theorem line_lossless (libc : Libc) (hfit : libc.StrerrorFits) (hplain : libc.StrerrorPlain)
    (d d' : Delivery)
    (h : handleEvent libc d.event d.size = handleEvent libc d'.event d'.size) :
    SameShown libc d.event d'.event := by
  refine sameShown_of_record hfit hplain d d' ?_
  rw [handleEvent_eq libc d.size_le, handleEvent_eq libc d'.size_le, ← record_eq, ← record_eq] at h
  exact List.append_cancel_right h

/-- **The output can be read back.** If no `comm` and no printed path has a
newline, two sequences of events with the same output show the same, event by
event. -/
theorem log_lossless (libc : Libc) (hfit : libc.StrerrorFits) (hplain : libc.StrerrorPlain)
    (hline : libc.StrerrorOneLine) (ds ds' : List Delivery) (hds : ∀ d ∈ ds, OneLine d.event)
    (hds' : ∀ d ∈ ds', OneLine d.event) (h : stdout libc ds = stdout libc ds') :
    List.Forall₂ (fun d d' => SameShown libc d.event d'.event) ds ds' := by
  have hone : ∀ {ds : List Delivery}, (∀ d ∈ ds, OneLine d.event) →
      ∀ r ∈ ds.map fun d => record libc d.event, 10 ∉ r := by
    intro ds hds
    rw [List.forall_mem_map]
    exact fun d hd => (newline_not_mem_record_iff hline d).mpr (hds d hd)
  have hrecords : ds.map (fun d => record libc d.event)
      = ds'.map (fun d => record libc d.event) := by
    have hsplit := congrArg (List.splitOn 10) h
    rw [stdout_eq, stdout_eq, splitOn_unlines (hone hds), splitOn_unlines (hone hds')] at hsplit
    exact List.append_cancel_right hsplit
  rw [← List.forall₂_eq_eq_eq, List.forall₂_map_left_iff, List.forall₂_map_right_iff] at hrecords
  exact hrecords.imp fun d d' hrec => sameShown_of_record hfit hplain d d' hrec

/-- A process that calls itself `x openat(dfd=` opens a file whose name looks
like the end of a line. -/
def openatEvent (strLen : BitVec 32) : SyscallEvent where
  tgid := 10
  pid := 11
  syscallId := 56
  ret := 3
  args := #v[-100, 0x7f00, 0o100, 0o644, 0, 0]
  comm := strWrite (Vector.replicate 16 0) (ascii "x openat(dfd=")
  str := strWrite (Vector.replicate 256 0) (ascii "a\", flags=O_RDWR, mode=0) = 0")
  strLen := strLen
  saFamily := 0
  saPort := 0
  saAddr4 := 0
  saAddr6 := Vector.replicate 16 0
  saScopeId := 0
  saValid := 0

def openatDelivery (strLen : BitVec 32) : Delivery where
  event := openatEvent strLen
  size := sizeofSyscallEvent
  size_le := le_refl _
  comm_nul := nul_mem_strWrite _ (by decide)
  str_nul := nul_mem_strWrite _ (by decide)

theorem line_lossless_openat :
    handleEvent .english (openatEvent 32) 384
        = ascii ("pid=10 tid=11 comm=x openat(dfd= openat(dfd=-100, pathname=\"a\", flags=O_RDWR, " ++
            "mode=0) = 0\", flags=O_RDONLY|O_CREAT, mode=0644) = 3 [id=56]\n") ∧
      SameShown .english (openatEvent 32) (openatEvent 40) :=
  ⟨by decide +kernel,
    line_lossless .english english_strerrorFits english_strerrorPlain (openatDelivery 32)
      (openatDelivery 40) (by decide +kernel)⟩

theorem oneLine_of_path {e : SyscallEvent} {s : Bytes} (hcomm : 10 ∉ cstr e.comm.toList)
    (hpath : printedPath e = some s) (hs : 10 ∉ s) : OneLine e := by
  refine ⟨hcomm, fun t ht => ?_⟩
  obtain rfl := Option.some.inj (hpath.symm.trans ht)
  exact hs

theorem log_lossless_openat : List.Forall₂ (fun d d' => SameShown .english d.event d'.event)
    [openatDelivery 32, execveDelivery (ascii "/bin/ls") (by decide)]
    [openatDelivery 40, execveDelivery (ascii "/bin/ls") (by decide)] := by
  have hopenat : ∀ n ∈ [(32 : BitVec 32), 40], OneLine (openatEvent n) := by
    rw [List.forall_mem_cons, List.forall_mem_singleton]
    exact ⟨oneLine_of_path (s := ascii "a\", flags=O_RDWR, mode=0) = 0") (by decide +kernel)
        (by decide +kernel) (by decide),
      oneLine_of_path (s := ascii "a\", flags=O_RDWR, mode=0) = 0") (by decide +kernel)
        (by decide +kernel) (by decide)⟩
  have hexecve : OneLine (execveEvent (ascii "/bin/ls")) :=
    oneLine_of_path (s := ascii "/bin/ls") (by decide +kernel) (by decide +kernel) (by decide)
  refine log_lossless .english english_strerrorFits english_strerrorPlain
    (not_mem_english_strerror newline_not_number (by decide)) _ _ ?_ ?_ (by decide +kernel)
  · rw [List.forall_mem_cons, List.forall_mem_singleton]
    exact ⟨hopenat 32 (by decide), hexecve⟩
  · rw [List.forall_mem_cons, List.forall_mem_singleton]
    exact ⟨hopenat 40 (by decide), hexecve⟩

end LibbpfTools.Strace
