/-
LibbpfTools.Lib.RingBuf — a bounded ring buffer that many producers write and
one consumer reads, with records that are reserved first and submitted later.

`reserve` gives a producer a record whose busy bit is set, `store` writes to
it through its pointer and `submit` clears the bit. The consumer takes the
records in the order of their RESERVATION and stops at a busy one, so a record
that was submitted waits for those reserved before it. The memory of a record
is not cleared when it is reserved.

A pointer is the number of the record, counted from the first ever reserved.
`log` is every record so far, those the consumer has taken in front: to it a
reservation is an append, a write is a write at an index, and taking a record
changes nothing. So what a system with a ring buffer delivers is settled by
one relation on the log, `Fulfils own log want`: the records are on their way
to the list `want`, the busy ones in the hands of the producers `own` names.
The lemmas on it say what each operation does to the relation, and
`Fulfils.taken_isPrefix` what it is good for.
-/
import Mathlib

namespace LibbpfTools.Lib

/-- A record, busy until it is submitted. -/
structure Rec (α : Type) where
  busy : Bool
  data : α

structure RingBuf (α : Type) (cap : Nat) where
  /-- What the consumer has taken, oldest first. -/
  taken : List α
  /-- What is in the buffer, oldest first. -/
  recs : List (Rec α)
  fits : recs.length ≤ cap

namespace RingBuf

variable {α : Type} {cap : Nat}

def empty : RingBuf α cap := ⟨[], [], Nat.zero_le _⟩

/-- The pointer that the next reservation returns. -/
def next (r : RingBuf α cap) : Nat := r.taken.length + r.recs.length

/-- Reserve a record; `none` when it does not fit. `stale` is what the memory
happens to hold. -/
def reserve? (r : RingBuf α cap) (stale : α) : Option (RingBuf α cap) :=
  if h : r.recs.length < cap then
    some { r with recs := r.recs ++ [⟨true, stale⟩], fits := by simpa using h }
  else none

/-- Change the record at `p`, if it is still in the buffer. -/
def modify (r : RingBuf α cap) (p : Nat) (f : Rec α → Rec α) : RingBuf α cap :=
  if r.taken.length ≤ p then
    { r with recs := r.recs.modify (p - r.taken.length) f, fits := by simpa using r.fits }
  else r

/-- Write to the data of a record through its pointer. -/
def store (r : RingBuf α cap) (p : Nat) (f : α → α) : RingBuf α cap :=
  r.modify p fun x => { x with data := f x.data }

def submit (r : RingBuf α cap) (p : Nat) : RingBuf α cap :=
  r.modify p fun x => { x with busy := false }

/-- Take the oldest record; `none` when there is none or it is busy. -/
def consume? (r : RingBuf α cap) : Option (RingBuf α cap) :=
  match h : r.recs with
  | ⟨false, a⟩ :: rest =>
      some ⟨r.taken ++ [a], rest, by
        have := r.fits
        rw [h, List.length_cons] at this
        omega⟩
  | _ => none

/-! ## The log -/

def log (r : RingBuf α cap) : List (Rec α) := r.taken.map (⟨false, ·⟩) ++ r.recs

theorem length_log (r : RingBuf α cap) : r.log.length = r.next := by
  simp [log, next]

section Operations

variable {r r' : RingBuf α cap} {p : Nat}

theorem reserve?_eq_some_iff {stale : α} : r.reserve? stale = some r' ↔
    r.recs.length < cap ∧ r'.taken = r.taken ∧ r'.recs = r.recs ++ [⟨true, stale⟩] := by
  unfold reserve?
  split
  · rename_i hroom
    rw [Option.some.injEq]
    constructor
    · rintro rfl
      exact ⟨hroom, rfl, rfl⟩
    · rintro ⟨-, htaken, hrecs⟩
      cases r'
      simp_all
  · rename_i hfull
    simp [hfull]

theorem log_reserve {stale : α} (h : r.reserve? stale = some r') :
    r'.log = r.log ++ [⟨true, stale⟩] := by
  obtain ⟨-, htaken, hrecs⟩ := reserve?_eq_some_iff.mp h
  rw [log, htaken, hrecs, log, List.append_assoc]

@[simp] theorem taken_modify (r : RingBuf α cap) (p : Nat) (f : Rec α → Rec α) :
    (r.modify p f).taken = r.taken := by
  unfold modify
  split
  · rfl
  · rfl

@[simp] theorem length_recs_modify (r : RingBuf α cap) (p : Nat) (f : Rec α → Rec α) :
    (r.modify p f).recs.length = r.recs.length := by
  unfold modify
  split
  · simp
  · rfl

/-- A record that is busy has not been taken. -/
theorem le_of_busy {d : α} (h : r.log[p]? = some ⟨true, d⟩) : r.taken.length ≤ p := by
  by_contra hlt
  rw [log, List.getElem?_append_left (by simpa using hlt), List.getElem?_map] at h
  obtain ⟨a, -, ha⟩ := Option.map_eq_some_iff.mp h
  simp at ha

/-- What is done to a busy record is done to the log at its pointer. -/
theorem log_modify {d : α} (h : r.log[p]? = some ⟨true, d⟩) (f : Rec α → Rec α) :
    (r.modify p f).log = r.log.set p (f ⟨true, d⟩) := by
  have hle := le_of_busy h
  have hfront : (r.taken.map (Rec.mk false)).length = r.taken.length := List.length_map ..
  rw [log, List.getElem?_append_right (by simpa using hle), hfront] at h
  have hrecs : (r.modify p f).recs = r.recs.modify (p - r.taken.length) f := by
    rw [modify, if_pos hle]
  rw [log, log, taken_modify, hrecs, List.set_append_right _ _ (by simpa using hle), hfront,
    List.modify_eq_set_getElem?, h]
  rfl

theorem log_store {d : α} (h : r.log[p]? = some ⟨true, d⟩) (f : α → α) :
    (r.store p f).log = r.log.set p ⟨true, f d⟩ := log_modify h _

theorem log_submit {d : α} (h : r.log[p]? = some ⟨true, d⟩) :
    (r.submit p).log = r.log.set p ⟨false, d⟩ := log_modify h _

theorem consume?_eq_some_iff : r.consume? = some r' ↔
    ∃ a rest, r.recs = ⟨false, a⟩ :: rest ∧ r'.taken = r.taken ++ [a] ∧ r'.recs = rest := by
  unfold consume?
  split
  · rename_i a rest hrecs
    rw [Option.some.injEq]
    constructor
    · rintro rfl
      exact ⟨a, rest, hrecs, rfl, rfl⟩
    · rintro ⟨a', rest', heq, htaken, hrest⟩
      rw [hrecs] at heq
      cases r'
      simp_all
  · rename_i hnot
    simp only [reduceCtorEq, false_iff]
    rintro ⟨a, rest, hrecs, -⟩
    exact hnot a rest hrecs

/-- Taking a record leaves the log as it is. -/
theorem log_consume (h : r.consume? = some r') : r'.log = r.log := by
  obtain ⟨a, rest, hrecs, htaken, hrest⟩ := consume?_eq_some_iff.mp h
  simp [log, hrecs, htaken, hrest]

/-- The consumer is stopped by an empty buffer or by a busy record. -/
theorem consume?_eq_none_iff : r.consume? = none ↔
    r.recs = [] ∨ ∃ d, r.log[r.taken.length]? = some ⟨true, d⟩ := by
  have hhead : r.log[r.taken.length]? = r.recs.head? := by
    rw [log, List.getElem?_append_right (by simp)]
    simp [List.head?_eq_getElem?]
  rw [hhead, Option.eq_none_iff_forall_not_mem]
  constructor
  · intro h
    cases hrecs : r.recs with
    | nil => exact Or.inl rfl
    | cons x rest =>
      right
      cases hb : x.busy with
      | true => exact ⟨x.data, by rw [← hb]; rfl⟩
      | false =>
        have hx : r.recs = ⟨false, x.data⟩ :: rest := by rw [hrecs, ← hb]
        have hfit : rest.length ≤ cap := by
          have := r.fits
          rw [hrecs, List.length_cons] at this
          omega
        exact absurd (consume?_eq_some_iff.mpr ⟨x.data, rest, hx, rfl, rfl⟩)
          (h ⟨r.taken ++ [x.data], rest, hfit⟩)
  · rintro (hnil | ⟨d, hd⟩) r' hr'
    · obtain ⟨a, rest, hrecs, -⟩ := consume?_eq_some_iff.mp hr'
      simp [hnil] at hrecs
    · obtain ⟨a, rest, hrecs, -⟩ := consume?_eq_some_iff.mp hr'
      simp [hrecs] at hd

end Operations

end RingBuf

/-! ## Records on their way -/

/-- The log is on its way to `want`. What is submitted is what is wanted
there; a busy record belongs to exactly one producer, which `own` names with
its pointer and the value it still has to write. -/
structure Fulfils {ι α : Type} (own : ι → Option (Nat × α)) (log : List (Rec α))
    (want : List α) : Prop where
  length_eq : log.length = want.length
  ready : ∀ (p : Nat) a, log[p]? = some (Rec.mk false a) → want[p]? = some a
  busy : ∀ i (p : Nat) a, own i = some (p, a) →
    (∃ d, log[p]? = some (Rec.mk true d)) ∧ want[p]? = some a
  inj : ∀ i j p a b, own i = some (p, a) → own j = some (p, b) → i = j
  owned : ∀ (p : Nat) d, log[p]? = some (Rec.mk true d) → ∃ i a, own i = some (p, a)

namespace Fulfils

variable {ι α : Type} {own own' : ι → Option (Nat × α)} {log : List (Rec α)} {want : List α}

theorem nil (hown : ∀ i, own i = none) : Fulfils own [] want ↔ want = [] := by
  constructor
  · intro h
    exact List.length_eq_zero_iff.mp h.length_eq.symm
  · rintro rfl
    exact ⟨rfl, by simp, by simp [hown], by simp [hown], by simp⟩

/-- The relation depends on `own` only through its values. -/
theorem congr (h : Fulfils own log want) (heq : ∀ i, own' i = own i) :
    Fulfils own' log want := by
  rw [funext heq]
  exact h

/-- A producer without a record reserves one for the next wanted value. -/
theorem reserve {i : ι} {a d : α} (h : Fulfils own log want) (hfree : own i = none)
    (hi : own' i = some (log.length, a)) (hne : ∀ j, j ≠ i → own' j = own j) :
    Fulfils own' (log ++ [⟨true, d⟩]) (want ++ [a]) := by
  have hlt : ∀ {j p b}, own j = some (p, b) → p < log.length := by
    intro j p b hj
    obtain ⟨⟨e, he⟩, -⟩ := h.busy j p b hj
    exact (List.getElem?_eq_some_iff.mp he).1
  refine ⟨by simp [h.length_eq], ?_, ?_, ?_, ?_⟩
  · intro p b hp
    have hlen : p < log.length := by
      have hp' := (List.getElem?_eq_some_iff.mp hp).1
      rw [List.length_append, List.length_singleton] at hp'
      rcases Nat.lt_succ_iff_lt_or_eq.mp hp' with hlt | rfl
      · exact hlt
      · simp at hp
    rw [List.getElem?_append_left hlen] at hp
    rw [List.getElem?_append_left (h.length_eq ▸ hlen)]
    exact h.ready p b hp
  · intro j p b hj
    by_cases hji : j = i
    · subst hji
      obtain ⟨rfl, rfl⟩ := Prod.mk.inj (Option.some.inj (hi.symm.trans hj))
      exact ⟨⟨d, by simp⟩, by simp [h.length_eq]⟩
    · rw [hne j hji] at hj
      obtain ⟨⟨e, he⟩, hw⟩ := h.busy j p b hj
      have hp := hlt hj
      exact ⟨⟨e, by rwa [List.getElem?_append_left hp]⟩,
        by rwa [List.getElem?_append_left (h.length_eq ▸ hp)]⟩
  · -- the new pointer is behind all others
    intro j k p b c hj hk
    by_cases hji : j = i
    · by_cases hki : k = i
      · exact hji.trans hki.symm
      · rw [hji, hi] at hj
        rw [hne k hki] at hk
        have := hlt hk
        obtain ⟨rfl, -⟩ := Prod.mk.inj (Option.some.inj hj)
        omega
    · by_cases hki : k = i
      · rw [hki, hi] at hk
        rw [hne j hji] at hj
        have := hlt hj
        obtain ⟨rfl, -⟩ := Prod.mk.inj (Option.some.inj hk)
        omega
      · rw [hne j hji] at hj
        rw [hne k hki] at hk
        exact h.inj j k p b c hj hk
  · intro p e hp
    by_cases hlen : p < log.length
    · rw [List.getElem?_append_left hlen] at hp
      obtain ⟨j, b, hj⟩ := h.owned p e hp
      have hji : j ≠ i := by
        rintro rfl
        simp [hfree] at hj
      exact ⟨j, b, by rw [hne j hji, hj]⟩
    · have hp' := (List.getElem?_eq_some_iff.mp hp).1
      rw [List.length_append, List.length_singleton] at hp'
      obtain rfl : p = log.length := by omega
      exact ⟨i, a, hi⟩

/-- A write to a record that is still busy. -/
theorem store {p : Nat} {d : α} (h : Fulfils own log want)
    (hp : ∃ e, log[p]? = some ⟨true, e⟩) : Fulfils own (log.set p ⟨true, d⟩) want := by
  obtain ⟨e, he⟩ := hp
  have hlt := (List.getElem?_eq_some_iff.mp he).1
  refine ⟨by simp [h.length_eq], ?_, ?_, h.inj, ?_⟩
  · intro q a hq
    by_cases hqp : p = q
    · subst hqp
      simp [hlt] at hq
    · rw [List.getElem?_set_ne hqp] at hq
      exact h.ready q a hq
  · intro i q a hi
    obtain ⟨⟨x, hx⟩, hw⟩ := h.busy i q a hi
    by_cases hqp : p = q
    · subst hqp
      exact ⟨⟨d, by simp [hlt]⟩, hw⟩
    · exact ⟨⟨x, by rwa [List.getElem?_set_ne hqp]⟩, hw⟩
  · intro q x hq
    by_cases hqp : p = q
    · subst hqp
      exact h.owned p e he
    · rw [List.getElem?_set_ne hqp] at hq
      exact h.owned q x hq

/-- A producer that has written the wanted value submits it. -/
theorem submit {i : ι} {p : Nat} {a : α} (h : Fulfils own log want)
    (hi : own i = some (p, a)) (hfree : own' i = none)
    (hne : ∀ j, j ≠ i → own' j = own j) : Fulfils own' (log.set p ⟨false, a⟩) want := by
  obtain ⟨⟨e, he⟩, hw⟩ := h.busy i p a hi
  have hlt := (List.getElem?_eq_some_iff.mp he).1
  have hother : ∀ {j q b}, own' j = some (q, b) → own j = some (q, b) ∧ p ≠ q := by
    intro j q b hj
    have hji : j ≠ i := by
      rintro rfl
      simp [hfree] at hj
    rw [hne j hji] at hj
    refine ⟨hj, ?_⟩
    rintro rfl
    exact hji (h.inj j i p b a hj hi)
  refine ⟨by simp [h.length_eq], ?_, ?_, ?_, ?_⟩
  · intro q b hq
    by_cases hqp : p = q
    · subst hqp
      simp only [List.getElem?_set_self hlt, Option.some.injEq, Rec.mk.injEq, true_and] at hq
      exact hq ▸ hw
    · rw [List.getElem?_set_ne hqp] at hq
      exact h.ready q b hq
  · intro j q b hj
    obtain ⟨hj', hqp⟩ := hother hj
    obtain ⟨⟨x, hx⟩, hw'⟩ := h.busy j q b hj'
    exact ⟨⟨x, by rwa [List.getElem?_set_ne hqp]⟩, hw'⟩
  · intro j k q b c hj hk
    exact h.inj j k q b c (hother hj).1 (hother hk).1
  · intro q x hq
    by_cases hqp : p = q
    · subst hqp
      simp [hlt] at hq
    · rw [List.getElem?_set_ne hqp] at hq
      obtain ⟨j, b, hj⟩ := h.owned q x hq
      have hji : j ≠ i := by
        rintro rfl
        obtain ⟨rfl, -⟩ := Prod.mk.inj (Option.some.inj (hi.symm.trans hj))
        exact hqp rfl
      exact ⟨j, b, by rw [hne j hji, hj]⟩

variable {cap : Nat} {r : RingBuf α cap}

/-- **What was taken is the beginning of what was wanted.** -/
theorem taken_isPrefix (h : Fulfils own r.log want) : r.taken <+: want := by
  rw [List.prefix_iff_getElem?]
  intro p hp
  apply h.ready
  rw [RingBuf.log, List.getElem?_append_left (by simpa using hp)]
  simp [hp]

/-- The rest is in the buffer: one record for each wanted value, in order. -/
theorem exists_rest (h : Fulfils own r.log want) : ∃ rest, want = r.taken ++ rest ∧
    List.Forall₂ (fun x a => x.busy = false → x.data = a) r.recs rest := by
  obtain ⟨rest, hrest⟩ := h.taken_isPrefix
  refine ⟨rest, hrest.symm, List.forall₂_iff_get.mpr ⟨?_, ?_⟩⟩
  · have hlen := h.length_eq
    rw [← hrest, RingBuf.length_log, RingBuf.next, List.length_append] at hlen
    omega
  · intro i hi hi' hready
    have hrec : r.log[r.taken.length + i]? = some ⟨false, (r.recs.get ⟨i, hi⟩).data⟩ := by
      rw [RingBuf.log, List.getElem?_append_right (by simp), List.length_map,
        Nat.add_sub_cancel_left, List.getElem?_eq_getElem hi, ← hready]
      rfl
    have hwant := h.ready _ _ hrec
    rw [← hrest, List.getElem?_append_right (by omega), Nat.add_sub_cancel_left,
      List.getElem?_eq_getElem hi'] at hwant
    exact (Option.some.inj hwant).symm

/-- With an empty buffer all that was wanted has been taken. -/
theorem taken_eq (h : Fulfils own r.log want) (hrecs : r.recs = []) : r.taken = want := by
  obtain ⟨rest, hrest, hall⟩ := h.exists_rest
  rw [hrecs, List.forall₂_nil_left_iff] at hall
  rw [hrest, hall, List.append_nil]

/-- Without a producer in the middle of a record the consumer goes on until
the buffer is empty. -/
theorem recs_eq_nil (h : Fulfils own r.log want) (hidle : ∀ i, own i = none)
    (hstuck : r.consume? = none) : r.recs = [] := by
  rcases RingBuf.consume?_eq_none_iff.mp hstuck with hnil | ⟨d, hd⟩
  · exact hnil
  · obtain ⟨i, a, hi⟩ := h.owned _ d hd
    simp [hidle] at hi

end Fulfils

end LibbpfTools.Lib
