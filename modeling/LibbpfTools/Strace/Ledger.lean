/-
LibbpfTools.Strace.Ledger — the book of firings: which invocation fired what,
and under which id.

A `Stamp` is a firing without the kernel's answers. `Ledger` says what holds
of the stamps in every run of the system: an invocation fires each tracepoint
at most once and under one id, a call that is still open has not fired
`sys_exit`, and when both firings of a call are under one id the exit comes
right after the enter. `execve` is the hard step: it moves an open call to
another id, where its enter is not.
-/
import LibbpfTools.Strace.Provenance

namespace LibbpfTools.Strace

open LibbpfTools.Lib LibbpfTools.Lib.Lts

/-! ## Stamps -/

/-- A firing without the kernel's answers: whose it is and which of the two. -/
inductive Stamp where
  | enter (inv : Nat)
  | exit (inv : Nat)
deriving DecidableEq

def Stamp.inv : Stamp → Nat
  | .enter inv => inv
  | .exit inv => inv

def Firing.stamp : Firing → Stamp
  | .enter inv _ _ => .enter inv
  | .exit inv _ _ => .exit inv

/-- The firings under an id so far, newest first. -/
def Sys.past (s : Sys) (id : BitVec 64) : List Stamp :=
  (history id s.trace).map Firing.stamp

theorem stamp_succeed (h : List Firing) :
    (Firing.succeed h).map Firing.stamp = h.map Firing.stamp := by
  cases h with
  | nil => rfl
  | cons f h => cases f <;> rfl

theorem past_helper (s : Sys) (id : BitVec 64) {a : Action} (ha : a.isFiring = false) :
    (history id (s.trace ++ [a])).map Firing.stamp = s.past id := by
  rcases history_helper id s.trace ha with hsame | hsucc
  · rw [hsame]
    rfl
  · rw [hsucc, stamp_succeed]
    rfl

theorem past_enter (s : Sys) (id k : BitVec 64) (inv : Nat) (ctx : SysEnter) :
    (history k (s.trace ++ [.sysEnter id inv ctx])).map Firing.stamp
      = if k = id then .enter inv :: s.past k else s.past k := by
  rw [history_enter]
  split <;> rfl

theorem past_exit (s : Sys) (id k : BitVec 64) (inv : Nat) (ret : BitVec 64) :
    (history k (s.trace ++ [.sysExit id inv ret])).map Firing.stamp
      = if k = id then .exit inv :: s.past k else s.past k := by
  rw [history_exit]
  split <;> rfl

/-! ## The ledger of firings -/

/-- Each invocation fires each tracepoint at most once, under one id. A task
inside a call has not returned from it; unless `execve` moved it, its enter is
the last thing that fired under its id. -/
structure Ledger (s : Sys) : Prop where
  fresh : ∀ id, ∀ f ∈ s.past id, f.inv < s.nextInv
  nodup : ∀ id, (s.past id).Nodup
  apart : ∀ id k f, f ∈ s.past id → f ∈ s.past k → id = k
  inside_lt : ∀ id inv nr, s.task id = .inside inv nr → inv < s.nextInv
  inside_open : ∀ id inv nr, s.task id = .inside inv nr → ∀ k, .exit inv ∉ s.past k
  inside_top : ∀ id inv nr, s.task id = .inside inv nr → .enter inv ∈ s.past id →
    (s.past id).head? = some (.enter inv)
  inside_own : ∀ id inv nr, s.task id = .inside inv nr → id ≠ leaderOf id →
    .enter inv ∈ s.past id
  single : ∀ id k inv nr nr', s.task id = .inside inv nr → s.task k = .inside inv nr' → id = k
  adjacent : ∀ id inv, .exit inv ∈ s.past id → .enter inv ∈ s.past id →
    [.exit inv, .enter inv] <:+: s.past id

theorem ledger_init : Ledger Sys.init where
  fresh := by intro id f hf; simp [Sys.past, Sys.init, history] at hf
  nodup := by intro id; simp [Sys.past, Sys.init, history]
  apart := by intro id k f hf; simp [Sys.past, Sys.init, history] at hf
  inside_lt := by intro id inv nr ht; simp [Sys.init] at ht
  inside_open := by intro id inv nr ht; simp [Sys.init] at ht
  inside_top := by intro id inv nr ht; simp [Sys.init] at ht
  inside_own := by intro id inv nr ht; simp [Sys.init] at ht
  single := by intro id k inv nr nr' ht; simp [Sys.init] at ht
  adjacent := by intro id inv hf; simp [Sys.past, Sys.init, history] at hf

/-- Tasks may disappear or go to user mode: the ledger only speaks about the
ones inside a call. -/
theorem Ledger.of_fewer {s s' : Sys} (h : Ledger s) (hnext : s'.nextInv = s.nextInv)
    (hpast : ∀ id, s'.past id = s.past id)
    (htask : ∀ id inv nr, s'.task id = .inside inv nr → s.task id = .inside inv nr) :
    Ledger s' where
  fresh := by intro id; rw [hpast, hnext]; exact h.fresh id
  nodup := by intro id; rw [hpast]; exact h.nodup id
  apart := by intro id k f; rw [hpast, hpast]; exact h.apart id k f
  inside_lt := by intro id inv nr ht; rw [hnext]; exact h.inside_lt id inv nr (htask _ _ _ ht)
  inside_open := by
    intro id inv nr ht k; rw [hpast]; exact h.inside_open id inv nr (htask _ _ _ ht) k
  inside_top := by
    intro id inv nr ht; rw [hpast]; exact h.inside_top id inv nr (htask _ _ _ ht)
  inside_own := by
    intro id inv nr ht; rw [hpast]; exact h.inside_own id inv nr (htask _ _ _ ht)
  single := by
    intro id k inv nr nr' ht hk
    exact h.single id k inv nr nr' (htask _ _ _ ht) (htask _ _ _ hk)
  adjacent := by intro id inv; rw [hpast]; exact h.adjacent id inv

theorem Ledger.fresh_enter {s : Sys} (h : Ledger s) (k : BitVec 64) :
    .enter s.nextInv ∉ s.past k := by
  intro hf
  have := h.fresh k _ hf
  simp [Stamp.inv] at this

theorem Ledger.fresh_exit {s : Sys} (h : Ledger s) (k : BitVec 64) :
    .exit s.nextInv ∉ s.past k := by
  intro hf
  have := h.fresh k _ hf
  simp [Stamp.inv] at this

/-- An infix stays one when a firing is added. -/
theorem infix_of_mem_cons {inv : Nat} {f : Stamp} {h : List Stamp} (hx : .exit inv ∈ f :: h)
    (hfx : f ≠ .exit inv) (he : .enter inv ∈ f :: h) (hfe : f ≠ .enter inv)
    (hadj : .exit inv ∈ h → .enter inv ∈ h → [.exit inv, .enter inv] <:+: h) :
    [.exit inv, .enter inv] <:+: f :: h := by
  have hx' := (List.mem_cons.mp hx).resolve_left hfx.symm
  have he' := (List.mem_cons.mp he).resolve_left hfe.symm
  exact List.infix_cons (hadj hx' he')

section Added

variable {past past' : BitVec 64 → List Stamp} {id : BitVec 64} {new : Stamp}
  (hpast : ∀ k, past' k = if k = id then new :: past k else past k)
include hpast

/-- A firing is the one that was added, or it was there before. -/
theorem mem_added {k : BitVec 64} {f : Stamp} (hf : f ∈ past' k) :
    (k = id ∧ f = new) ∨ f ∈ past k := by
  rw [hpast] at hf
  split at hf
  · rename_i hk
    rcases List.mem_cons.mp hf with hf | hf
    · exact Or.inl ⟨hk, hf⟩
    · exact Or.inr hf
  · exact Or.inr hf

theorem not_mem_added {k : BitVec 64} {f : Stamp} (hne : f ≠ new) (hf : f ∉ past k) :
    f ∉ past' k := by
  intro hmem
  rcases mem_added hpast hmem with ⟨-, hnew⟩ | hmem
  · exact hne hnew
  · exact hf hmem

theorem nodup_added (hnew : ∀ k, new ∉ past k) (h : ∀ k, (past k).Nodup) (k : BitVec 64) :
    (past' k).Nodup := by
  rw [hpast]
  split
  · exact List.nodup_cons.mpr ⟨hnew k, h k⟩
  · exact h k

/-- A firing that is nowhere yet may be added under any id. -/
theorem apart_added (hnew : ∀ k, new ∉ past k)
    (h : ∀ k k' f, f ∈ past k → f ∈ past k' → k = k') {k k' : BitVec 64} {f : Stamp}
    (hf : f ∈ past' k) (hf' : f ∈ past' k') : k = k' := by
  rcases mem_added hpast hf with ⟨rfl, rfl⟩ | hf
  · rcases mem_added hpast hf' with ⟨rfl, -⟩ | hf'
    · rfl
    · exact absurd hf' (hnew k')
  · rcases mem_added hpast hf' with ⟨-, rfl⟩ | hf'
    · exact absurd hf (hnew k)
    · exact h k k' f hf hf'

end Added

/-- A new invocation starts under `id`. -/
theorem Ledger.enter {s s' : Sys} (h : Ledger s) (id : BitVec 64) (nr : BitVec 64)
    (hnext : s'.nextInv = s.nextInv + 1)
    (hpast : ∀ k, s'.past k = if k = id then .enter s.nextInv :: s.past k else s.past k)
    (htask : s'.task = Function.update s.task id (.inside s.nextInv nr)) : Ledger s' where
  fresh := by
    intro k f hf
    rw [hnext]
    rcases mem_added hpast hf with ⟨-, rfl⟩ | hf
    · exact Nat.lt_succ_self s.nextInv
    · exact Nat.lt_succ_of_lt (h.fresh k f hf)
  nodup := nodup_added hpast h.fresh_enter h.nodup
  apart := fun _ _ _ => apart_added hpast h.fresh_enter h.apart
  inside_lt := by
    intro k inv nr' hk
    rw [htask, Function.update_apply] at hk
    rw [hnext]
    split at hk
    · cases hk; exact Nat.lt_succ_self _
    · exact Nat.lt_succ_of_lt (h.inside_lt k inv nr' hk)
  inside_open := by
    intro k inv nr' hk k'
    have hold : .exit inv ∉ s.past k' := by
      rw [htask, Function.update_apply] at hk
      split at hk
      · cases hk; exact h.fresh_exit k'
      · exact h.inside_open k inv nr' hk k'
    exact not_mem_added hpast (by simp) hold
  inside_top := by
    intro k inv nr' hk hmem
    rw [htask, Function.update_apply] at hk
    rw [hpast] at hmem ⊢
    split at hk
    · rename_i hkid
      cases hk
      rw [if_pos hkid]
      rfl
    · rename_i hkid
      rw [if_neg hkid] at hmem ⊢
      exact h.inside_top k inv nr' hk hmem
  inside_own := by
    intro k inv nr' hk hlead
    rw [htask, Function.update_apply] at hk
    rw [hpast]
    split at hk
    · rename_i hkid
      cases hk
      simp [hkid]
    · rename_i hkid
      rw [if_neg hkid]
      exact h.inside_own k inv nr' hk hlead
  single := by
    intro k k' inv n n' hk hk'
    rw [htask, Function.update_apply] at hk hk'
    split at hk <;> split at hk'
    · simp_all
    · cases hk
      exact absurd (h.inside_lt _ _ _ hk') (lt_irrefl _)
    · cases hk'
      exact absurd (h.inside_lt _ _ _ hk) (lt_irrefl _)
    · exact h.single k k' inv n n' hk hk'
  adjacent := by
    intro k inv hx he
    rw [hpast] at hx he ⊢
    split at hx
    · rename_i hkid
      rw [if_pos hkid] at he ⊢
      have hx' : .exit inv ∈ s.past k := by simpa using hx
      have hne : Stamp.enter s.nextInv ≠ .enter inv := by
        intro heq
        cases heq
        exact h.fresh_exit k hx'
      exact infix_of_mem_cons hx (by simp) he hne (h.adjacent k inv)
    · rename_i hkid
      rw [if_neg hkid] at he ⊢
      exact h.adjacent k inv hx he

/-- An exit fires under `id`: of the call the task was inside, or of a call
that never fired `sys_enter`. -/
theorem Ledger.exit {s s' : Sys} (h : Ledger s) (id : BitVec 64) (inv : Nat)
    (hlt : inv < s'.nextInv) (hnext : s.nextInv ≤ s'.nextInv)
    (hopen : ∀ k, .exit inv ∉ s.past k)
    (htop : .enter inv ∈ s.past id → (s.past id).head? = some (.enter inv))
    (hpast : ∀ k, s'.past k = if k = id then .exit inv :: s.past k else s.past k)
    (htask : ∀ k j nr, s'.task k = .inside j nr → s.task k = .inside j nr ∧ k ≠ id ∧ j ≠ inv) :
    Ledger s' where
  fresh := by
    intro k f hf
    rcases mem_added hpast hf with ⟨-, rfl⟩ | hf
    · exact hlt
    · exact lt_of_lt_of_le (h.fresh k f hf) hnext
  nodup := nodup_added hpast hopen h.nodup
  apart := fun _ _ _ => apart_added hpast hopen h.apart
  inside_lt := by
    intro k j nr hk
    exact lt_of_lt_of_le (h.inside_lt k j nr (htask k j nr hk).1) hnext
  inside_open := by
    intro k j nr hk k'
    obtain ⟨hk, -, hj⟩ := htask k j nr hk
    exact not_mem_added hpast (by simpa using hj) (h.inside_open k j nr hk k')
  inside_top := by
    intro k j nr hk hmem
    obtain ⟨hk, hkid, -⟩ := htask k j nr hk
    rw [hpast, if_neg hkid] at hmem ⊢
    exact h.inside_top k j nr hk hmem
  inside_own := by
    intro k j nr hk hlead
    obtain ⟨hk, hkid, -⟩ := htask k j nr hk
    rw [hpast, if_neg hkid]
    exact h.inside_own k j nr hk hlead
  single := by
    intro k k' j n n' hk hk'
    exact h.single k k' j n n' (htask _ _ _ hk).1 (htask _ _ _ hk').1
  adjacent := by
    intro k j hx he
    rw [hpast] at hx he ⊢
    split at hx
    · rename_i hkid
      subst hkid
      rw [if_pos rfl] at he ⊢
      by_cases hj : j = inv
      · subst hj
        -- the call that returns is the last thing that started under the id
        obtain ⟨rest, hrest⟩ := List.head?_eq_some_iff.mp (htop (by simpa using he))
        rw [hrest]
        exact ⟨[], rest, rfl⟩
      · exact infix_of_mem_cons hx (by simpa using fun h => hj h.symm) he (by simp)
          (h.adjacent k j)
    · rename_i hkid
      rw [if_neg hkid] at he ⊢
      exact h.adjacent k j hx he

theorem leaderOf_leaderOf (id : BitVec 64) : leaderOf (leaderOf id) = leaderOf id := by
  simp only [leaderOf, tgidOf_append]

/-- Whoever is inside a call after `execve` is the caller, now the leader, or
a task of another process. -/
theorem takeOver_inside {s : Sys} {id k : BitVec 64} {inv j : Nat} {nr n : BitVec 64}
    (hk : (s.takeOver id inv nr).task k = .inside j n) :
    (k = leaderOf id ∧ j = inv) ∨ (tgidOf k ≠ tgidOf id ∧ s.task k = .inside j n) := by
  simp only [Sys.takeOver] at hk
  split at hk
  · split at hk
    · rename_i hlead
      cases hk
      exact Or.inl ⟨hlead, rfl⟩
    · cases hk
  · rename_i htg
    exact Or.inr ⟨htg, hk⟩

theorem Ledger.takeOver {s : Sys} (h : Ledger s) {id : BitVec 64} {inv : Nat} {nr : BitVec 64}
    (ht : s.task id = .inside inv nr) : Ledger (s.takeOver id inv nr) where
  fresh := h.fresh
  nodup := h.nodup
  apart := h.apart
  inside_lt := by
    intro k j n hk
    rcases takeOver_inside hk with ⟨-, rfl⟩ | ⟨-, hk⟩
    · exact h.inside_lt id _ nr ht
    · exact h.inside_lt k j n hk
  inside_open := by
    intro k j n hk
    rcases takeOver_inside hk with ⟨-, rfl⟩ | ⟨-, hk⟩
    · exact h.inside_open id _ nr ht
    · exact h.inside_open k j n hk
  inside_top := by
    intro k j n hk hmem
    rcases takeOver_inside hk with ⟨rfl, rfl⟩ | ⟨-, hk⟩
    · -- the enter is under the old id, so the leader's id has it only if it is the same
      have hid : id = leaderOf id := by
        by_contra hne
        exact hne (h.apart _ _ _ (h.inside_own id _ nr ht hne) hmem)
      exact hid ▸ h.inside_top id _ nr ht (hid ▸ hmem)
    · exact h.inside_top k j n hk hmem
  inside_own := by
    intro k j n hk hne
    rcases takeOver_inside hk with ⟨rfl, -⟩ | ⟨-, hk⟩
    · exact absurd (leaderOf_leaderOf id).symm hne
    · exact h.inside_own k j n hk hne
  single := by
    intro k k' j n n' hk hk'
    rcases takeOver_inside hk with ⟨rfl, rfl⟩ | ⟨htg, hold⟩ <;>
      rcases takeOver_inside hk' with ⟨rfl, hj⟩ | ⟨htg', hold'⟩
    · rfl
    · exact absurd (congrArg tgidOf (h.single _ _ _ _ _ hold' ht)) htg'
    · subst hj
      exact absurd (congrArg tgidOf (h.single _ _ _ _ _ hold ht)) htg
    · exact h.single k k' j n n' hold hold'
  adjacent := h.adjacent

/-- Whoever is inside a call after another task left one was inside before. -/
theorem inside_update {task : BitVec 64 → TaskState} {id k : BitVec 64} {t : TaskState}
    {j : Nat} {n : BitVec 64} (ht : ∀ j n, t ≠ .inside j n)
    (hk : Function.update task id t k = .inside j n) : k ≠ id ∧ task k = .inside j n := by
  rw [Function.update_apply] at hk
  split at hk
  · exact absurd hk (ht j n)
  · rename_i hne
    exact ⟨hne, hk⟩

theorem ledger_step {target : BitVec 32} {s s' : Sys} {a : SysAction} (h : Ledger s)
    (hst : SysStep target s a s') : Ledger s' := by
  cases hst with
  | @spawn id ht =>
    exact h.of_fewer rfl (fun _ => rfl) fun k inv nr hk => (inside_update (by simp) hk).2
  | @die id ht =>
    exact h.of_fewer rfl (fun _ => rfl) fun k inv nr hk => (inside_update (by simp) hk).2
  | @enter id ctx b ht hb =>
    exact h.enter id ctx.nr rfl (fun k => past_enter s id k s.nextInv ctx) rfl
  | @exit id ret inv nr b ht hb =>
    refine h.exit id inv (h.inside_lt id inv nr ht) le_rfl (h.inside_open id inv nr ht)
      (h.inside_top id inv nr ht) (fun k => past_exit s id k inv ret) ?_
    intro k j n hk
    obtain ⟨hkid, hold⟩ := inside_update (by simp) hk
    refine ⟨hold, hkid, ?_⟩
    rintro rfl
    exact hkid (h.single k id _ _ _ hold ht)
  | @reject id ret b ht hb =>
    refine h.exit id s.nextInv (Nat.lt_succ_self _) (Nat.le_succ _) h.fresh_exit
      (fun he => absurd he (h.fresh_enter id)) (fun k => past_exit s id k s.nextInv ret) ?_
    intro k j n hk
    refine ⟨hk, ?_, ?_⟩
    · rintro rfl
      rw [ht] at hk
      cases hk
    · rintro rfl
      exact absurd (h.inside_lt k _ n hk) (lt_irrefl _)
  | exec ht => exact h.takeOver ht
  | helper ha hb => exact h.of_fewer rfl (fun k => past_helper s k ha) (fun _ _ _ hk => hk)

theorem ledger_run {target : BitVec 32} {acts : List SysAction} {s : Sys}
    (hrun : run (sysStep target) Sys.init acts = some s) : Ledger s :=
  run_invariant (M := fun _ s => Ledger s) ledger_init
    (fun _ _ _ _ hs hstep => ledger_step hs (SysStep.of_step hstep)) hrun

end LibbpfTools.Strace
