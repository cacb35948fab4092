/-
LibbpfTools.Lib.HashTab — a bounded hash table whose elements have addresses.

A kernel hash map hands out POINTERS to its elements: a lookup returns the
address of the element, and the caller reads and writes through it after the
call has returned. A deleted element goes back to the allocator at once and
may be handed out again under another key. A map modelled as a plain partial
function would hide all of that, so this one keeps the two levels apart:
`index` says which key owns which element, `elem` is the element memory.

* The structure carries its own well-formedness: no key is listed twice, no
  element is owned twice, and there are at most `cap` entries.
* `update?` takes the outcome of the call as an argument: `none` for a
  refused update, `some a` for one that placed the value in element `a`.
  It is `none` when that outcome is impossible in the current state.
* `entry` is what a key sees of the table: the address of its element and
  the contents there. What each operation does to the entry of its own key,
  and that it leaves the entry of every other key alone (so that pointers
  into it stay valid), is what users of this module cite.
-/
import Mathlib

namespace LibbpfTools.Lib

/-- The flag of an update: `any` inserts or replaces, `noexist` only inserts. -/
inductive UpdateFlag where
  | any
  | noexist
deriving DecidableEq, Repr

structure HashTab (κ ν : Type) (cap : Nat) where
  /-- Which key owns which element. -/
  index : List (κ × Nat)
  /-- The element memory; an element nobody owns keeps its last contents. -/
  elem : Nat → ν
  keys_nodup : (index.map Prod.fst).Nodup
  addrs_nodup : (index.map Prod.snd).Nodup
  size_le : index.length ≤ cap

namespace HashTab

variable {κ ν : Type} {cap : Nat}

def keys (t : HashTab κ ν cap) : List κ := t.index.map Prod.fst

def addrs (t : HashTab κ ν cap) : List Nat := t.index.map Prod.snd

def empty [Inhabited ν] : HashTab κ ν cap where
  index := []
  elem := fun _ => default
  keys_nodup := List.nodup_nil
  addrs_nodup := List.nodup_nil
  size_le := Nat.zero_le _

/-- Write through an element pointer. -/
def store (t : HashTab κ ν cap) (a : Nat) (f : ν → ν) : HashTab κ ν cap :=
  { t with elem := Function.update t.elem a (f (t.elem a)) }

variable [DecidableEq κ]

/-- The address of the element `k` owns; `none` is the null pointer. -/
def lookup (t : HashTab κ ν cap) (k : κ) : Option Nat :=
  (t.index.find? fun p => p.1 = k).map Prod.snd

def delete (t : HashTab κ ν cap) (k : κ) : HashTab κ ν cap where
  index := t.index.filter fun p => p.1 ≠ k
  elem := t.elem
  keys_nodup := t.keys_nodup.sublist (List.filter_sublist.map _)
  addrs_nodup := t.addrs_nodup.sublist (List.filter_sublist.map _)
  size_le := Nat.le_trans (List.length_filter_le _ _) t.size_le

/-- The update has to fail: the key is there and must not be, or it is not
there and the table is full. -/
def Refuses (t : HashTab κ ν cap) (flag : UpdateFlag) (k : κ) : Prop :=
  (flag = .noexist ∧ k ∈ t.keys) ∨ (k ∉ t.keys ∧ cap ≤ t.index.length)

instance (t : HashTab κ ν cap) (flag : UpdateFlag) (k : κ) :
    Decidable (t.Refuses flag k) :=
  inferInstanceAs (Decidable (_ ∨ _))

theorem length_filter_ne_lt {t : HashTab κ ν cap} {flag : UpdateFlag} {k : κ}
    (h : ¬ t.Refuses flag k) :
    (t.index.filter fun p => p.1 ≠ k).length < cap := by
  by_cases hk : k ∈ t.keys
  · obtain ⟨p, hp, rfl⟩ := List.mem_map.mp hk
    have hlt : (t.index.filter fun q => q.1 ≠ p.1).length < t.index.length := by
      rw [List.length_filter_lt_length_iff_exists]
      exact ⟨p, hp, by simp⟩
    exact Nat.lt_of_lt_of_le hlt t.size_le
  · have hroom : t.index.length < cap := by
      by_contra hfull
      exact h (Or.inr ⟨hk, Nat.not_lt.mp hfull⟩)
    exact Nat.lt_of_le_of_lt (List.length_filter_le _ _) hroom

/-- Give the key the fresh element `a`, with the value in it. An element the
key owned before is freed, not reused: the old one stays as it was until the
allocator hands it out again. -/
def put (t : HashTab κ ν cap) (flag : UpdateFlag) (k : κ) (v : ν) (a : Nat)
    (h : ¬ t.Refuses flag k ∧ a ∉ t.addrs) : HashTab κ ν cap where
  index := (k, a) :: t.index.filter fun p => p.1 ≠ k
  elem := Function.update t.elem a v
  keys_nodup := by
    rw [List.map_cons, List.nodup_cons]
    refine ⟨?_, t.keys_nodup.sublist (List.filter_sublist.map _)⟩
    simp
  addrs_nodup := by
    rw [List.map_cons, List.nodup_cons]
    refine ⟨fun ha => h.2 ?_, t.addrs_nodup.sublist (List.filter_sublist.map _)⟩
    exact (List.filter_sublist.map Prod.snd).mem ha
  size_le := length_filter_ne_lt h.1

/-- `update?` is the update call with its outcome given: `none` refused,
`some a` placed in element `a`. It is `none` when the call cannot end so. -/
def update? (t : HashTab κ ν cap) (flag : UpdateFlag) (k : κ) (v : ν) :
    Option Nat → Option (HashTab κ ν cap)
  | none => if t.Refuses flag k then some t else none
  | some a =>
      if h : ¬ t.Refuses flag k ∧ a ∉ t.addrs then some (t.put flag k v a h) else none

/-- What the key sees of the table: its element's address and contents. -/
def entry (t : HashTab κ ν cap) (k : κ) : Option (Nat × ν) :=
  (t.lookup k).map fun a => (a, t.elem a)

/-! ## Lookups -/

theorem lookup_eq_some_iff {t : HashTab κ ν cap} {k : κ} {a : Nat} :
    t.lookup k = some a ↔ (k, a) ∈ t.index := by
  constructor
  · intro h
    obtain ⟨p, hfind, rfl⟩ := Option.map_eq_some_iff.mp h
    have hp : p.1 = k := by simpa using List.find?_some hfind
    exact hp ▸ List.mem_of_find?_eq_some hfind
  · intro h
    cases hfind : t.index.find? (fun p => p.1 = k) with
    | none =>
      have := List.find?_eq_none.mp hfind (k, a) h
      simp at this
    | some p =>
      have hp : p.1 = k := by simpa using List.find?_some hfind
      have hmem := List.mem_of_find?_eq_some hfind
      have heq : p = (k, a) :=
        List.inj_on_of_nodup_map t.keys_nodup hmem h hp
      simp [lookup, hfind, heq]

theorem lookup_eq_none_iff {t : HashTab κ ν cap} {k : κ} :
    t.lookup k = none ↔ k ∉ t.keys := by
  rw [Option.eq_none_iff_forall_ne_some]
  simp only [ne_eq, lookup_eq_some_iff, keys, List.mem_map, Prod.exists,
    exists_and_right, exists_eq_right, not_exists]

theorem mem_addrs_of_lookup {t : HashTab κ ν cap} {k : κ} {a : Nat}
    (h : t.lookup k = some a) : a ∈ t.addrs :=
  List.mem_map.mpr ⟨(k, a), lookup_eq_some_iff.mp h, rfl⟩

/-- Two keys never own the same element. -/
theorem lookup_inj {t : HashTab κ ν cap} {k k' : κ} {a : Nat}
    (h : t.lookup k = some a) (h' : t.lookup k' = some a) : k = k' := by
  have heq : (k, a) = (k', a) :=
    List.inj_on_of_nodup_map t.addrs_nodup (lookup_eq_some_iff.mp h)
      (lookup_eq_some_iff.mp h') rfl
  exact congrArg Prod.fst heq

theorem entry_eq_some_iff {t : HashTab κ ν cap} {k : κ} {a : Nat} {v : ν} :
    t.entry k = some (a, v) ↔ t.lookup k = some a ∧ t.elem a = v := by
  rw [entry, Option.map_eq_some_iff]
  constructor
  · rintro ⟨b, hb, heq⟩
    obtain ⟨rfl, rfl⟩ := Prod.mk.inj heq
    exact ⟨hb, rfl⟩
  · rintro ⟨ha, hv⟩
    exact ⟨a, ha, by rw [hv]⟩

theorem entry_eq_none_iff {t : HashTab κ ν cap} {k : κ} :
    t.entry k = none ↔ t.lookup k = none := by
  simp [entry]

/-! ## Delete -/

@[simp] theorem lookup_delete_self (t : HashTab κ ν cap) (k : κ) :
    (t.delete k).lookup k = none := by
  rw [lookup_eq_none_iff]
  simp [keys, delete]

theorem lookup_delete_ne (t : HashTab κ ν cap) {k k' : κ} (h : k' ≠ k) :
    (t.delete k).lookup k' = t.lookup k' := by
  ext a
  rw [lookup_eq_some_iff, lookup_eq_some_iff]
  simp [delete, h]

@[simp] theorem entry_delete_self (t : HashTab κ ν cap) (k : κ) :
    (t.delete k).entry k = none := by
  simp [entry]

theorem entry_delete_ne (t : HashTab κ ν cap) {k k' : κ} (h : k' ≠ k) :
    (t.delete k).entry k' = t.entry k' := by
  rw [entry, entry, lookup_delete_ne t h]
  rfl

/-! ## Update -/

variable {t t' : HashTab κ ν cap} {flag : UpdateFlag} {k k' : κ} {v : ν} {a : Nat}

/-- A refused update leaves the table as it was. -/
theorem update?_none_iff :
    t.update? flag k v none = some t' ↔ t.Refuses flag k ∧ t' = t := by
  simp only [update?]
  split
  · rename_i h
    simp [h, eq_comm]
  · rename_i h
    simp [h]

theorem update?_some_iff :
    t.update? flag k v (some a) = some t' ↔
      ∃ h : ¬ t.Refuses flag k ∧ a ∉ t.addrs, t' = t.put flag k v a h := by
  simp only [update?]
  split
  · rename_i h
    simp [h, eq_comm]
  · rename_i h
    simp [h]

/-- An update always ends in one of the two ways. -/
theorem exists_update? (t : HashTab κ ν cap) (flag : UpdateFlag) (k : κ) (v : ν) :
    ∃ r t', t.update? flag k v r = some t' := by
  by_cases href : t.Refuses flag k
  · exact ⟨none, t, update?_none_iff.mpr ⟨href, rfl⟩⟩
  · obtain ⟨a, ha⟩ := Infinite.exists_notMem_finset t.addrs.toFinset
    have hfresh : a ∉ t.addrs := fun hmem => ha (List.mem_toFinset.mpr hmem)
    exact ⟨some a, _, update?_some_iff.mpr ⟨⟨href, hfresh⟩, rfl⟩⟩

theorem lookup_put_self (h : ¬ t.Refuses flag k ∧ a ∉ t.addrs) :
    (t.put flag k v a h).lookup k = some a := by
  rw [lookup_eq_some_iff]
  simp [put]

theorem lookup_put_ne (h : ¬ t.Refuses flag k ∧ a ∉ t.addrs) (hne : k' ≠ k) :
    (t.put flag k v a h).lookup k' = t.lookup k' := by
  ext b
  rw [lookup_eq_some_iff, lookup_eq_some_iff]
  simp [put, hne]

/-- There are as many keys as entries. -/
theorem encard_keys (t : HashTab κ ν cap) :
    Set.encard { k | k ∈ t.keys } = t.index.length := by
  have hset : { k | k ∈ t.keys } = (t.keys.toFinset : Set κ) := by
    ext k
    simp
  have hcard : t.keys.toFinset.card = t.index.length := by
    rw [keys, List.toFinset_card_of_nodup t.keys_nodup, List.length_map]
  rw [hset, Set.encard_coe_eq_coe_finsetCard, hcard]

/-- A full table has no room for one more: any set with the keys of the table
and a key that is not there is larger than the table. -/
theorem lt_encard_of_full {S : Set κ} (hnew : k ∉ t.keys) (hfull : cap ≤ t.index.length)
    (hkeys : ∀ x ∈ t.keys, x ∈ S) (hk : k ∈ S) : (cap : ℕ∞) < S.encard := by
  have hnodup : (k :: t.keys).Nodup := List.nodup_cons.mpr ⟨hnew, t.keys_nodup⟩
  have hcard : (k :: t.keys).toFinset.card = t.index.length + 1 := by
    rw [List.toFinset_card_of_nodup hnodup]
    simp [keys]
  have hsub : ((k :: t.keys).toFinset : Set κ) ⊆ S := by
    intro x hx
    rcases List.mem_cons.mp (List.mem_toFinset.mp (Finset.mem_coe.mp hx)) with rfl | hx
    · exact hk
    · exact hkeys x hx
  have hle := Set.encard_le_encard hsub
  rw [Set.encard_coe_eq_coe_finsetCard, hcard] at hle
  exact lt_of_lt_of_le (by exact_mod_cast Nat.lt_succ_of_le hfull) hle

/-- A key whose update was refused because the table was full has no entry. -/
theorem entry_eq_none_of_refuses_any (h : t.Refuses .any k) : t.entry k = none := by
  rcases h with ⟨hflag, -⟩ | ⟨hk, -⟩
  · simp at hflag
  · exact entry_eq_none_iff.mpr (lookup_eq_none_iff.mpr hk)

theorem entry_update?_self (h : t.update? flag k v (some a) = some t') :
    t'.entry k = some (a, v) := by
  obtain ⟨hok, rfl⟩ := update?_some_iff.mp h
  exact entry_eq_some_iff.mpr ⟨lookup_put_self hok, by simp [put]⟩

/-- The element handed out is fresh, so what every other key owns is intact. -/
theorem entry_put_ne (h : ¬ t.Refuses flag k ∧ a ∉ t.addrs) (hne : k' ≠ k) :
    (t.put flag k v a h).entry k' = t.entry k' := by
  simp only [entry, lookup_put_ne h hne]
  cases hl : t.lookup k' with
  | none => rfl
  | some b =>
    have hb : b ≠ a := fun hab => h.2 (hab ▸ mem_addrs_of_lookup hl)
    simp [put, hb]

/-- However an update ends, the entries of the other keys stay. -/
theorem entry_update?_ne {r : Option Nat} (h : t.update? flag k v r = some t')
    (hne : k' ≠ k) : t'.entry k' = t.entry k' := by
  cases r with
  | none =>
    obtain ⟨-, rfl⟩ := update?_none_iff.mp h
    rfl
  | some a =>
    obtain ⟨hok, rfl⟩ := update?_some_iff.mp h
    exact entry_put_ne hok hne

/-! ## Writes through a pointer -/

@[simp] theorem lookup_store (t : HashTab κ ν cap) (a : Nat) (f : ν → ν) (k : κ) :
    (t.store a f).lookup k = t.lookup k := rfl

/-- A write through the pointer of `k` is a write to the entry of `k`. -/
theorem entry_store_self {f : ν → ν} (h : t.entry k = some (a, v)) :
    (t.store a f).entry k = some (a, f v) := by
  obtain ⟨hl, rfl⟩ := entry_eq_some_iff.mp h
  exact entry_eq_some_iff.mpr ⟨hl, by simp [store]⟩

/-- … and to no other entry. -/
theorem entry_store_ne {f : ν → ν} (h : t.entry k = some (a, v)) (hne : k' ≠ k) :
    (t.store a f).entry k' = t.entry k' := by
  obtain ⟨hl, -⟩ := entry_eq_some_iff.mp h
  simp only [entry, lookup_store]
  cases hl' : t.lookup k' with
  | none => rfl
  | some b =>
    have hb : b ≠ a := fun hab => hne (lookup_inj (hab ▸ hl') hl)
    simp [store, hb]

end HashTab

end LibbpfTools.Lib
