/-
LibbpfTools.Lib.Lts — labelled transition systems given by a partial step
function, and the one induction every run proof of the development uses.

`step s a = some s'` says that action `a` is enabled in `s` and leads to
`s'`; `none` says that it is not enabled. A run is the list of its actions.
`Along` states a condition on every step of a run, evaluated in the state
the step leaves, and `Throughout` a condition on every state it passes.
Both are stated over prefixes, so a condition on a run is a condition on
each of its prefixes (`along_of_append`).

`run_induction` is the invariant rule: the motive sees the trace as well as
the state, because most invariants here link a state to its history.
-/
import Mathlib

namespace LibbpfTools.Lib.Lts

variable {σ α : Type} (step : σ → α → Option σ)

/-- Perform the actions in order; `none` when one of them is not enabled. -/
def run : σ → List α → Option σ
  | s, [] => some s
  | s, a :: as => (step s a).bind fun s' => run s' as

/-- Every step of the run meets `P` in the state it is taken from. -/
def Along (P : σ → α → Prop) (s₀ : σ) (as : List α) : Prop :=
  ∀ pre a post s, as = pre ++ a :: post → run step s₀ pre = some s → P s a

/-- Every state the run passes through meets `Q`, both ends included. -/
def Throughout (Q : σ → Prop) (s₀ : σ) (as : List α) : Prop :=
  ∀ pre post s, as = pre ++ post → run step s₀ pre = some s → Q s

variable {step}

@[simp] theorem run_nil (s : σ) : run step s [] = some s := rfl

@[simp] theorem run_cons (s : σ) (a : α) (as : List α) :
    run step s (a :: as) = (step s a).bind fun s' => run step s' as := rfl

/-- Runs compose. -/
theorem run_append (s : σ) (as bs : List α) :
    run step s (as ++ bs) = (run step s as).bind fun s' => run step s' bs := by
  induction as generalizing s with
  | nil => rfl
  | cons a as ih =>
    rw [List.cons_append, run_cons, run_cons]
    cases step s a with
    | none => rfl
    | some s' => exact ih s'

/-- A run of `as ++ bs` passes through the end of a run of `as`. -/
theorem run_append_some {s s'' : σ} {as bs : List α}
    (h : run step s (as ++ bs) = some s'') :
    ∃ s', run step s as = some s' ∧ run step s' bs = some s'' := by
  rw [run_append] at h
  exact Option.bind_eq_some_iff.mp h

/-- The last step of a run. -/
theorem run_concat_some {s s'' : σ} {as : List α} {a : α}
    (h : run step s (as ++ [a]) = some s'') :
    ∃ s', run step s as = some s' ∧ step s' a = some s'' := by
  obtain ⟨s', h1, h2⟩ := run_append_some h
  exact ⟨s', h1, by simpa using h2⟩

theorem along_of_append {P : σ → α → Prop} {s₀ : σ} {as bs : List α}
    (h : Along step P s₀ (as ++ bs)) : Along step P s₀ as := by
  intro pre a post s has hrun
  exact h pre a (post ++ bs) s (by simp [has]) hrun

theorem along_of_forall {P : σ → α → Prop} {s₀ : σ} {as : List α}
    (h : ∀ a ∈ as, ∀ s, P s a) : Along step P s₀ as := by
  intro pre a post s has _
  exact h a (by simp [has]) s

theorem along_singleton {P : σ → α → Prop} {s : σ} {a : α} (h : P s a) :
    Along step P s [a] := by
  intro pre b post r has hrun
  obtain ⟨rfl, hb⟩ | ⟨-, hnil⟩ := List.append_eq_singleton_iff.mp has.symm
  · obtain ⟨rfl, -⟩ := List.cons.inj hb
    rw [run_nil, Option.some.injEq] at hrun
    exact hrun ▸ h
  · cases hnil

theorem along_append {P : σ → α → Prop} {s s' : σ} {as bs : List α}
    (h : Along step P s as) (hrun : run step s as = some s') (h' : Along step P s' bs) :
    Along step P s (as ++ bs) := by
  intro pre a post r has hr
  rcases List.append_eq_append_iff.mp has with ⟨cs, rfl, hbs⟩ | ⟨cs, rfl, hpost⟩
  · rw [run_append, hrun] at hr
    exact h' cs a post r hbs hr
  · cases cs with
    | nil =>
      rw [List.append_nil] at hrun
      obtain rfl := Option.some.inj (hrun.symm.trans hr)
      exact h' [] a post _ hpost.symm rfl
    | cons b cs =>
      obtain ⟨rfl, -⟩ := List.cons.inj hpost
      exact h pre _ cs r rfl hr

theorem throughout_nil {Q : σ → Prop} {s : σ} (hQ : Q s) : Throughout step Q s [] := by
  intro pre post r has hrun
  obtain ⟨rfl, -⟩ := List.nil_eq_append_iff.mp has
  rw [run_nil, Option.some.injEq] at hrun
  exact hrun ▸ hQ

theorem throughout_cons {Q : σ → Prop} {s s' : σ} {a : α} {as : List α}
    (hs : step s a = some s') (hQ : Q s) (h : Throughout step Q s' as) :
    Throughout step Q s (a :: as) := by
  intro pre post r has hrun
  cases pre with
  | nil =>
    rw [run_nil, Option.some.injEq] at hrun
    exact hrun ▸ hQ
  | cons b pre =>
    obtain ⟨rfl, rfl⟩ := List.cons.inj has
    rw [run_cons, hs] at hrun
    exact h pre post r rfl hrun

theorem throughout_append {Q : σ → Prop} {s s' : σ} {as bs : List α}
    (h : Throughout step Q s as) (hrun : run step s as = some s')
    (h' : Throughout step Q s' bs) : Throughout step Q s (as ++ bs) := by
  intro pre post r has hr
  rcases List.append_eq_append_iff.mp has with ⟨cs, rfl, rfl⟩ | ⟨cs, rfl, rfl⟩
  · rw [run_append, hrun] at hr
    exact h' cs post r rfl hr
  · exact h pre cs r rfl hr

/-- A condition on every state passed is one on the state before each step. -/
theorem Throughout.along {Q : σ → Prop} {s₀ : σ} {as : List α}
    (h : Throughout step Q s₀ as) : Along step (fun s _ => Q s) s₀ as :=
  fun pre a post s has hrun => h pre (a :: post) s has hrun

/-- **The invariant rule.** A property of trace and state that holds of the
empty run, and that every step meeting `P` keeps, holds at the end of every
run whose steps all meet `P`. -/
theorem run_induction {P : σ → α → Prop} {M : List α → σ → Prop} {s₀ : σ}
    (h0 : M [] s₀)
    (hstep : ∀ as s a s', M as s → P s a → step s a = some s' → M (as ++ [a]) s')
    {as : List α} {s : σ} (halong : Along step P s₀ as)
    (hrun : run step s₀ as = some s) : M as s := by
  induction as using List.reverseRecOn generalizing s with
  | nil =>
    rw [run_nil, Option.some.injEq] at hrun
    exact hrun ▸ h0
  | append_singleton as a ih =>
    obtain ⟨s', hpre, hlast⟩ := run_concat_some hrun
    have hP : P s' a := halong as a [] s' rfl hpre
    exact hstep as s' a s (ih (along_of_append halong) hpre) hP hlast

/-- The rule for runs under no condition. -/
theorem run_invariant {M : List α → σ → Prop} {s₀ : σ} (h0 : M [] s₀)
    (hstep : ∀ as s a s', M as s → step s a = some s' → M (as ++ [a]) s')
    {as : List α} {s : σ} (hrun : run step s₀ as = some s) : M as s :=
  run_induction (P := fun _ _ => True) h0
    (fun as s a s' hM _ hs => hstep as s a s' hM hs)
    (fun _ _ _ _ _ _ => trivial) hrun

/-! ## What a run adds up to -/

section Collect

variable {β : Type} (f : List α → α → List β)

def collectFrom (pre : List α) : List α → List β
  | [] => []
  | a :: as => f pre a ++ collectFrom (pre ++ [a]) as

/-- What the actions give, each in view of those before it, in order. -/
def collect (as : List α) : List β := collectFrom f [] as

theorem collectFrom_concat (pre as : List α) (a : α) :
    collectFrom f pre (as ++ [a]) = collectFrom f pre as ++ f (pre ++ as) a := by
  induction as generalizing pre with
  | nil => simp [collectFrom]
  | cons b as ih =>
    simp only [List.cons_append, collectFrom, ih, List.append_assoc, List.nil_append]

theorem collect_concat (as : List α) (a : α) :
    collect f (as ++ [a]) = collect f as ++ f as a :=
  collectFrom_concat f [] as a

end Collect

/-- What an action is in the list of calls of one process: a new one, the
refusal of the newest, or nothing. -/
inductive Mark (β : Type) where
  | begins (b : β)
  | refused
  | other

def Mark.begins? {β : Type} : Mark β → Option β
  | .begins b => some b
  | _ => none

section Kept

variable {β : Type} (mark : α → Mark β)

def keptStep (bs : List β) (a : α) : List β :=
  match mark a with
  | .begins b => bs ++ [b]
  | .refused => bs.dropLast
  | .other => bs

/-- The calls that were begun and not refused, in order. -/
def kept (as : List α) : List β := as.foldl (keptStep mark) []

theorem kept_concat (as : List α) (a : α) :
    kept mark (as ++ [a]) = keptStep mark (kept mark as) a := by
  simp [kept]

/-- Without a refusal these are all that were begun. -/
theorem kept_eq_filterMap {as : List α} (h : ∀ a ∈ as, mark a ≠ .refused) :
    kept mark as = as.filterMap fun a => (mark a).begins? := by
  induction as using List.reverseRecOn with
  | nil => rfl
  | append_singleton as a ih =>
    obtain ⟨has, ha⟩ := List.forall_mem_append.mp h
    rw [kept_concat, ih has, List.filterMap_append, keptStep]
    cases hmark : mark a with
    | begins b => simp [hmark, Mark.begins?]
    | refused => exact absurd hmark (ha a (by simp))
    | other => simp [hmark, Mark.begins?]

end Kept

/-! ## Runs that end -/

/-- When the actions in `P` all lower a measure, a run of them is no longer
than the measure says. -/
theorem length_run_le {μ : σ → Nat} {P : α → Prop}
    (hdec : ∀ s a s', P a → step s a = some s' → μ s' < μ s) {as : List α} {s s' : σ}
    (hP : ∀ a ∈ as, P a) (hrun : run step s as = some s') : as.length + μ s' ≤ μ s := by
  induction as generalizing s with
  | nil =>
    rw [run_nil, Option.some.injEq] at hrun
    simp [hrun]
  | cons a as ih =>
    obtain ⟨ha, has⟩ := List.forall_mem_cons.mp hP
    obtain ⟨r, hr, hrest⟩ := Option.bind_eq_some_iff.mp hrun
    have hlt := hdec s a r ha hr
    have hle := ih has hrest
    rw [List.length_cons]
    omega

/-- And some run of them ends where none of them is enabled. -/
theorem exists_run_stuck {μ : σ → Nat} {P : α → Prop}
    (hdec : ∀ s a s', P a → step s a = some s' → μ s' < μ s) (s : σ) :
    ∃ as s', (∀ a ∈ as, P a) ∧ run step s as = some s' ∧ ∀ a, P a → step s' a = none := by
  induction hn : μ s using Nat.strong_induction_on generalizing s with
  | _ n ih =>
    by_cases hstuck : ∀ a, P a → step s a = none
    · exact ⟨[], s, by simp, rfl, hstuck⟩
    · push Not at hstuck
      obtain ⟨a, ha, henabled⟩ := hstuck
      obtain ⟨r, hr⟩ := Option.ne_none_iff_exists'.mp henabled
      obtain ⟨as, s', has, hrun, hend⟩ := ih (μ r) (hn ▸ hdec s a r ha hr) r rfl
      exact ⟨a :: as, s', List.forall_mem_cons.mpr ⟨ha, has⟩, by simp [hr, hrun], hend⟩

/-- The run goes on from `s` with actions in `P` only. -/
structure GoesOn (step : σ → α → Option σ) (P : α → Prop) (s : σ) (more : List α) (s' : σ) :
    Prop where
  allowed : ∀ a ∈ more, P a
  run_eq : run step s more = some s'

/-- With actions in `P` only, the system comes to rest in `D`: some run does,
and every run is bounded and does if it goes on as long as it can. `as` is
what has led to `s`. -/
structure Drains (step : σ → α → Option σ) (P : α → Prop) (μ : σ → Nat)
    (D : List α → σ → Prop) (as : List α) (s : σ) : Prop where
  rests : ∃ more s', GoesOn step P s more s' ∧ D (as ++ more) s'
  bounded : ∀ more s', GoesOn step P s more s' → more.length ≤ μ s
  ends : ∀ more s', GoesOn step P s more s' → (∀ a, P a → step s' a = none) → D (as ++ more) s'

/-- **The rule for systems that drain.** The actions in `P` lower a measure,
and `D` holds of every run that none of them can go on. -/
theorem drains_of {μ : σ → Nat} {P : α → Prop} {D : List α → σ → Prop} {s₀ : σ}
    (hdec : ∀ s a s', P a → step s a = some s' → μ s' < μ s)
    (hstuck : ∀ as s, run step s₀ as = some s → (∀ a, P a → step s a = none) → D as s)
    {as : List α} {s : σ} (hrun : run step s₀ as = some s) : Drains step P μ D as s := by
  have happend : ∀ {more s'}, run step s more = some s' →
      run step s₀ (as ++ more) = some s' := by
    intro more s' hmore
    rw [run_append, hrun]
    exact hmore
  refine ⟨?_, ?_, ?_⟩
  · obtain ⟨more, s', hP, hmore, hnone⟩ := exists_run_stuck hdec s
    exact ⟨more, s', ⟨hP, hmore⟩, hstuck _ _ (happend hmore) hnone⟩
  · intro more s' hon
    have hle := length_run_le hdec hon.allowed hon.run_eq
    omega
  · intro more s' hon
    exact hstuck _ _ (happend hon.run_eq)

/-- The sum of the ranks of all processes, when one of them moves. -/
theorem sum_rank_update {ι β : Type} [Fintype ι] [DecidableEq ι] (rank : β → Nat) (f : ι → β)
    (i : ι) (b : β) :
    ∑ j, rank (Function.update f i b j) + rank (f i) = ∑ j, rank (f j) + rank b := by
  have hsum : ∀ g : ι → β, ∑ j, rank (g j) = rank (g i) + ∑ j ∈ Finset.univ.erase i, rank (g j) :=
    fun g => (Finset.add_sum_erase Finset.univ (fun j => rank (g j)) (Finset.mem_univ i)).symm
  have hrest : ∑ j ∈ Finset.univ.erase i, rank (Function.update f i b j)
      = ∑ j ∈ Finset.univ.erase i, rank (f j) :=
    Finset.sum_congr rfl fun j hj => by rw [Function.update_of_ne (Finset.ne_of_mem_erase hj)]
  rw [hsum, hsum f, hrest, Function.update_self]
  omega

end LibbpfTools.Lib.Lts
