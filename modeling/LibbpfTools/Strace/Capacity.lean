/-
LibbpfTools.Strace.Capacity — when no traced call is lost.

`inflight` has room for 16384 records and the result of the update is
ignored, so a call whose record finds no room is lost. Records are removed by
the `sys_exit` of their id only. A task that dies inside a call fires none:
its record stays, and takes up room, until some later task with the same id
completes a call. So what must fit into the map is not the calls in progress
but the OCCUPIED ids: those with a call in progress and those with a call
that was abandoned.

`one_event_per_call`: while the occupied ids fit and the ring buffer takes
every event, each traced call that starts and returns under one id has
exactly one event. `leak_loses_call` is a run in which there is never more
than one call in progress and a call is lost all the same.

Besides the `Ledger` of firings the proof needs that the handlers of a run
without refusals serve every exit (`Served`), and that there is no refusal
while the occupied ids fit (`no_refused_update`).
-/
import LibbpfTools.Strace.Ledger

namespace LibbpfTools.Strace

open LibbpfTools.Lib LibbpfTools.Lib.Lts

/-! ## Runs without refusals -/

/-- The kernel refused: the map is full, or the ring buffer is. -/
def Action.Refused : Action → Prop
  | .mapUpdate _ none => True
  | .ringbufReserve _ false => True
  | _ => False

/-- An exit right after an enter found the record and had it submitted. -/
def Complete : Firing → Firing → Prop
  | .exit _ _ reserved, .enter _ _ updated => updated = true ∧ reserved = true
  | _, _ => True

/-- If the newest firing is an enter, it is on record. -/
def HeadStored : List Firing → Prop
  | .enter _ _ updated :: _ => updated = true
  | _ => True

/-- The firings whose decisive helper call is done: it is still to come for
the newest one while the handler updates, looks up or reserves. -/
def answered (h : List Firing) : Pc → List Firing
  | .updating .. => h.tail
  | .lookingUp .. => h.tail
  | .reserving .. => h.tail
  | _ => h

/-- Every firing that is answered was answered well. -/
structure Served (h : List Firing) (pc : Pc) : Prop where
  chain : (answered h pc).IsChain Complete
  head : HeadStored (answered h pc)

/-- An exit that finds no record does not come right after an enter, since
that enter would be on record. -/
theorem isChain_complete_unmatched {entry : Option (Nat × Stored)} {inv : Nat}
    {ret : BitVec 64} {h : List Firing} (hh : h.IsChain Complete) (hhead : HeadStored h)
    (hmatch : EntryMatches entry h) (hnone : entry = none) :
    (Firing.exit inv ret false :: h).IsChain Complete := by
  cases h with
  | nil => exact List.isChain_singleton _
  | cons f h =>
    refine List.isChain_cons_cons.mpr ⟨?_, hh⟩
    cases f with
    | enter j ctx updated =>
      simp only [HeadStored] at hhead
      subst hhead hnone
      obtain ⟨p, hp⟩ := hmatch
      cases hp
    | exit j r b => trivial

theorem Served.at_pc {s : State} {id : BitVec 64} {h : List Firing} {pc : Pc}
    (hs : Served h (s.pc id)) (hpc : s.pc id = pc) : Served h pc := hpc ▸ hs

theorem Served.of_pc {s : State} {id : BitVec 64} {h : List Firing} {pc : Pc}
    (hpc : s.pc id = pc) (hs : Served h pc) : Served h (s.pc id) := hpc ▸ hs

theorem served_step {target : BitVec 32} {s s' : State} {a : Action} {h : List Firing}
    (hst : Step target s a s') (hf : ¬ filtered target a.id) (hgranted : ¬ a.Refused)
    (hl : Linked target a.id s h) (hs : Served h (s.pc a.id)) :
    Served (historyStep a.id h a) (s'.pc a.id) := by
  rw [historyStep_self]
  cases hst with
  | enterFiltered hpc hfilt => exact absurd hfilt hf
  | exitFiltered hpc hfilt => exact absurd hfilt hf
  | enter hpc _ =>
    obtain ⟨hchain, hhead⟩ := hs.at_pc hpc
    exact .of_pc (setPc_pc_self ..) ⟨hchain, hhead⟩
  | exit hpc _ =>
    obtain ⟨hchain, hhead⟩ := hs.at_pc hpc
    exact .of_pc (setPc_pc_self ..) ⟨hchain, hhead⟩
  | @update id r inv st t hpc hup =>
    obtain ⟨hchain, -⟩ := hs.at_pc hpc
    obtain ⟨⟨ctx, h', rfl, -⟩, -⟩ := hl.at_pc hpc
    cases r with
    | none => exact absurd trivial hgranted
    | some p =>
      exact .of_pc (setPc_pc_self ..) ⟨isChain_cons_of_forall (fun _ => trivial) hchain, rfl⟩
  | lookupNull hpc hnull =>
    obtain ⟨hchain, hhead⟩ := hs.at_pc hpc
    obtain ⟨⟨h', rfl, hmatch⟩, -⟩ := hl.at_pc hpc
    have hnone := HashTab.entry_eq_none_iff.mpr hnull
    exact .of_pc (setPc_pc_self ..)
      ⟨isChain_complete_unmatched hchain hhead hmatch hnone, trivial⟩
  | lookup hpc hlook =>
    obtain ⟨hchain, hhead⟩ := hs.at_pc hpc
    exact .of_pc (setPc_pc_self ..) ⟨hchain, hhead⟩
  | reserve hpc =>
    obtain ⟨hchain, -⟩ := hs.at_pc hpc
    obtain ⟨⟨inv', ctx, h', rfl, -⟩, -⟩ := hl.at_pc hpc
    exact .of_pc (setPc_pc_self ..)
      ⟨List.isChain_cons_cons.mpr ⟨⟨rfl, rfl⟩, hchain⟩, trivial⟩
  | reserveNull hpc => exact absurd trivial hgranted
  | fill hpc => exact .of_pc (setPc_pc_self ..) ⟨(hs.at_pc hpc).chain, (hs.at_pc hpc).head⟩
  | submit hpc => exact .of_pc (setPc_pc_self ..) ⟨(hs.at_pc hpc).chain, (hs.at_pc hpc).head⟩
  | delete hpc => exact .of_pc (setPc_pc_self ..) ⟨(hs.at_pc hpc).chain, (hs.at_pc hpc).head⟩

/-- In a run without refusals every traced firing is answered well. -/
theorem served_run {target : BitVec 32} {acts : List Action} {s : State}
    (hgranted : ∀ a ∈ acts, ¬ a.Refused)
    (hrun : run (step target) State.init acts = some s) :
    ∀ id, ¬ filtered target id → Served (history id acts) (s.pc id) := by
  have hinv := run_induction (P := fun _ a => ¬ a.Refused)
    (M := fun acts s => (∀ id, Linked target id s (history id acts)) ∧
      ∀ id, ¬ filtered target id → Served (history id acts) (s.pc id))
    ⟨linked_init target, fun _ _ => ⟨List.isChain_nil, trivial⟩⟩ ?_
    (fun pre a post _ has _ => hgranted a (by simp [has])) hrun
  · exact hinv.2
  intro acts s a s' ⟨hl, hs⟩ ha hstep
  have hst := Step.of_step hstep
  refine ⟨linked_step hst hl, ?_⟩
  intro id hf
  rw [history_concat]
  by_cases hid : a.id = id
  · subst hid
    exact served_step hst hf ha (hl a.id) (hs a.id hf)
  · rw [historyStep_ne hid, hst.pc_ne (fun h => hid h.symm)]
    exact hs id hf

/-! ## Room for every record -/

/-- A traced id has a record, or one on the way: the last thing that fired
under it is a `sys_enter`, or it is the `sys_exit` right after one and its
handler is still running. It makes no difference whether the task is still
alive. -/
def Occupied (target : BitVec 32) (s : Sys) (id : BitVec 64) : Prop :=
  ¬ filtered target id ∧
    ((∃ inv, (s.past id).head? = some (.enter inv)) ∨
      ((s.bpf.pc id).isIdle = false ∧ ∃ inv, (s.past id).tail.head? = some (.enter inv)))

/-- The occupied ids fit into the map. -/
def Fits (target : BitVec 32) (s : Sys) : Prop :=
  Set.encard { id | Occupied target s id } ≤ 16384

/-- An entry is of the newest firing. -/
theorem head_of_entryMatches {entry : Option (Nat × Stored)} {h : List Firing}
    (hmatch : EntryMatches entry h) (hent : entry ≠ none) :
    ∃ inv, (h.map Firing.stamp).head? = some (.enter inv) := by
  unfold EntryMatches at hmatch
  split at hmatch
  · rename_i inv ctx h
    exact ⟨inv, rfl⟩
  · exact absurd hmatch hent

theorem occupied_of_mem_keys {target : BitVec 32} {s : Sys} {id : BitVec 64}
    (hl : Linked target id s.bpf (history id s.trace)) (hk : id ∈ s.bpf.inflight.keys) :
    Occupied target s id := by
  have hent : s.bpf.inflight.entry id ≠ none :=
    fun hnone => HashTab.lookup_eq_none_iff.mp (HashTab.entry_eq_none_iff.mp hnone) hk
  refine ⟨fun hf => hent (hl.ignored hf).2, ?_⟩
  rw [Sys.past]
  cases hpc : s.bpf.pc id with
  | idle => exact Or.inl (head_of_entryMatches (hl.at_pc hpc).1 hent)
  | updating inv st =>
    obtain ⟨⟨ctx, h, hh, -⟩, -⟩ := hl.at_pc hpc
    exact Or.inl ⟨inv, by rw [hh]; rfl⟩
  | lookingUp inv ret =>
    obtain ⟨⟨h, hh, hmatch⟩, -⟩ := hl.at_pc hpc
    rw [hh]
    exact Or.inr ⟨rfl, head_of_entryMatches hmatch hent⟩
  | reserving inv ret p =>
    obtain ⟨⟨inv', ctx, h, hh, -⟩, -⟩ := hl.at_pc hpc
    exact Or.inr ⟨rfl, inv', by rw [hh]; rfl⟩
  | filling inv ret p =>
    obtain ⟨⟨inv', ctx, h, hh, -⟩, -⟩ := hl.at_pc hpc
    exact Or.inr ⟨rfl, inv', by rw [hh]; rfl⟩
  | submitting e =>
    obtain ⟨⟨inv, ret, inv', ctx, h, hh, -⟩, -⟩ := hl.at_pc hpc
    exact Or.inr ⟨rfl, inv', by rw [hh]; rfl⟩
  | deleting =>
    obtain ⟨⟨inv, ret, reserved, inv', ctx, h, hh⟩, -⟩ := hl.at_pc hpc
    exact Or.inr ⟨rfl, inv', by rw [hh]; rfl⟩

/-- While the occupied ids fit, the map takes every record. -/
theorem no_refused_update {target : BitVec 32} {acts : List SysAction} {s : Sys}
    (hfits : Throughout (sysStep target) (Fits target) Sys.init acts)
    (hrun : run (sysStep target) Sys.init acts = some s) :
    ∀ id, .mapUpdate id none ∉ s.trace := by
  refine (run_induction (P := fun s _ => Fits target s)
    (M := fun as s => run (sysStep target) Sys.init as = some s ∧
      ∀ id, .mapUpdate id none ∉ s.trace)
    ⟨rfl, fun _ => by simp [Sys.init]⟩ ?_ hfits.along hrun).2
  intro as s a s' hM hfit hstep
  obtain ⟨hpre, hold⟩ := hM
  refine ⟨by rw [run_append, hpre]; simp [hstep], ?_⟩
  intro k hmem
  rcases (SysStep.of_step hstep).mem_trace hmem rfl with hmem | rfl
  · exact hold k hmem
  · have hl := linked_run (run_trace hpre)
    cases SysStep.of_step hstep with
    | helper hfire hb =>
    cases Step.of_step hb with
    | update hpc hup =>
    obtain ⟨href, -⟩ := HashTab.update?_none_iff.mp hup
    obtain ⟨hnew, hfull⟩ := href.resolve_left (by simp)
    have hocc : Occupied target s k := by
      obtain ⟨⟨ctx, h, hh, -⟩, -⟩ := (hl k).at_pc hpc
      exact ⟨(hl k).not_filtered hpc (by simp), Or.inl ⟨_, by rw [Sys.past, hh]; rfl⟩⟩
    have hlt := HashTab.lt_encard_of_full hnew hfull (S := { id | Occupied target s id })
      (fun id hid => occupied_of_mem_keys (hl id) hid) hocc
    exact absurd hfit (not_le.mpr hlt)

/-- Every helper call of the trace is an action of the run. -/
theorem mem_acts_of_mem_trace {target : BitVec 32} {acts : List SysAction} {s : Sys}
    (hrun : run (sysStep target) Sys.init acts = some s) :
    ∀ a ∈ s.trace, a.isFiring = false → .helper a ∈ acts := by
  refine run_invariant (M := fun as s => ∀ a ∈ s.trace, a.isFiring = false → .helper a ∈ as)
    (by simp [Sys.init]) ?_ hrun
  intro as s act s' hold hstep a ha hfire
  rcases (SysStep.of_step hstep).mem_trace ha hfire with ha | rfl
  · exact List.mem_append_left _ (hold a ha hfire)
  · simp

/-! ## One event for each call -/

theorem expected_append_exit (target : BitVec 32) (id : BitVec 64) (pre h : List Firing)
    (inv : Nat) (ret : BitVec 64) (reserved : Bool) :
    expected target id (pre ++ .exit inv ret reserved :: h)
      = expected target id (.exit inv ret reserved :: h) ++ expected target id pre := by
  fun_induction expected target id pre with
  | case1 j r j' ctx pre ih =>
    rw [List.cons_append, List.cons_append, expected, ih, List.append_assoc]
  | case2 f pre hne ih =>
    rw [List.cons_append, expected, ih]
    -- the newest firing pairs with nothing: not before the exit was put below, and not now
    intro j r j' ctx rest hf hrest
    cases pre with
    | nil => cases hrest
    | cons g pre =>
      obtain ⟨rfl, -⟩ := List.cons.inj hrest
      exact hne j r j' ctx pre hf rfl
  | case3 => simp

/-- The invocations of an expected event fired under the id. -/
theorem stamps_of_mem_expected {target : BitVec 32} {id : BitVec 64} {h : List Firing}
    {e : Submitted} (he : e ∈ expected target id h) :
    .enter e.enterInv ∈ h.map Firing.stamp ∧ .exit e.exitInv ∈ h.map Firing.stamp := by
  obtain ⟨-, pre, post, inv, inv', ret, ctx, rfl, rfl⟩ := mem_expected he
  simp [Firing.stamp]

/-- The firings of a call that started and returned under one id. -/
theorem Ledger.pair_of_mem {s : Sys} (h : Ledger s) {id : BitVec 64} {inv : Nat}
    {ctx : SysEnter} {ret : BitVec 64} {updated reserved : Bool}
    (henter : .enter inv ctx updated ∈ history id s.trace)
    (hexit : .exit inv ret reserved ∈ history id s.trace) :
    ∃ pre post, history id s.trace
      = pre ++ .exit inv ret reserved :: .enter inv ctx updated :: post := by
  have hnodup : ((history id s.trace).map Firing.stamp).Nodup := h.nodup id
  -- a stamp occurs once, so a firing with a known stamp is a known firing
  have huniq : ∀ f ∈ history id s.trace, ∀ g ∈ history id s.trace,
      f.stamp = g.stamp → f = g := fun f hf g hg => List.inj_on_of_nodup_map hnodup hf hg
  obtain ⟨pre, post, hsplit⟩ := h.adjacent id inv
    (List.mem_map.mpr ⟨_, hexit, rfl⟩) (List.mem_map.mpr ⟨_, henter, rfl⟩)
  obtain ⟨hs1, post', hh, hs1eq, -⟩ := List.map_eq_append_iff.mp hsplit.symm
  obtain ⟨pre', mid, rfl, -, hmid⟩ := List.map_eq_append_iff.mp hs1eq
  obtain ⟨f, mid, rfl, hf, hmid⟩ := List.map_eq_cons_iff.mp hmid
  obtain ⟨g, mid, rfl, hg, hmid⟩ := List.map_eq_cons_iff.mp hmid
  obtain rfl := List.map_eq_nil_iff.mp hmid
  have hfmem : f ∈ history id s.trace := by simp [hh]
  have hgmem : g ∈ history id s.trace := by simp [hh]
  rw [huniq f hfmem _ hexit hf, huniq g hgmem _ henter hg] at hh
  exact ⟨pre', post', by simpa using hh⟩

/-- An event belongs to an invocation if either of its halves does. -/
def Submitted.Mentions (inv : Nat) (e : Submitted) : Prop :=
  e.enterInv = inv ∨ e.exitInv = inv

instance (inv : Nat) : DecidablePred (Submitted.Mentions inv) :=
  fun _ => inferInstanceAs (Decidable (_ ∨ _))

/-- The events that mention a call are among those of the id it fired under. -/
theorem filter_mentions {target : BitVec 32} {acts : List SysAction} {s : Sys}
    (hrun : run (sysStep target) Sys.init acts = some s) {id : BitVec 64} {inv : Nat}
    (henter : .enter inv ∈ s.past id) (hexit : .exit inv ∈ s.past id) :
    s.bpf.events.filter (Submitted.Mentions inv)
      = (eventsOf id s.bpf.events).filter (Submitted.Mentions inv) := by
  rw [eventsOf, List.filter_filter]
  refine List.filter_congr fun e he => ?_
  suffices hof : e.Mentions inv → e.Of id by
    by_cases hm : e.Mentions inv <;> simp [hm, hof]
  intro hm
  obtain ⟨k, hk⟩ := e.exists_of
  have hmem : e ∈ expected target k (settled (history k s.trace) (s.bpf.pc k)) := by
    rw [← (linked_run (run_trace hrun) k).events]
    exact List.mem_filter.mpr ⟨he, by simpa using hk⟩
  have hsub := ((settled_suffix (history k s.trace) (s.bpf.pc k)).sublist.map Firing.stamp).subset
  obtain ⟨h1, h2⟩ := stamps_of_mem_expected hmem
  have hid : id = k := by
    rcases hm with rfl | rfl
    · exact (ledger_run hrun).apart _ _ _ henter (hsub h1)
    · exact (ledger_run hrun).apart _ _ _ hexit (hsub h2)
  exact hid ▸ hk

theorem filter_mentions_expected (target : BitVec 32) (id : BitVec 64) {h : List Firing}
    {inv : Nat} (henter : .enter inv ∉ h.map Firing.stamp)
    (hexit : .exit inv ∉ h.map Firing.stamp) :
    (expected target id h).filter (Submitted.Mentions inv) = [] := by
  rw [List.filter_eq_nil_iff]
  intro e he hm
  obtain ⟨h1, h2⟩ := stamps_of_mem_expected he
  have hm : e.Mentions inv := of_decide_eq_true hm
  rcases hm with rfl | rfl
  · exact henter h1
  · exact hexit h2

/-- **No traced call is lost while the occupied ids fit.** In every run in
which they fit at every moment and every reserve succeeds, a traced call
whose `sys_enter` and `sys_exit` fired under one id has exactly one event,
and it is the one of these two firings. -/
theorem one_event_per_call (target : BitVec 32) (acts : List SysAction) (s : Sys)
    (hfits : Throughout (sysStep target) (Fits target) Sys.init acts)
    (hring : ∀ id, .helper (.ringbufReserve id false) ∉ acts)
    (hrun : run (sysStep target) Sys.init acts = some s)
    (id : BitVec 64) (hf : ¬ filtered target id) (hidle : s.bpf.pc id = .idle)
    (inv : Nat) (ctx : SysEnter) (ret : BitVec 64) (updated reserved : Bool)
    (henter : .enter inv ctx updated ∈ history id s.trace)
    (hexit : .exit inv ret reserved ∈ history id s.trace) :
    s.bpf.events.filter (Submitted.Mentions inv) = [⟨pairedEvent id ret ctx, inv, inv⟩] := by
  have hledger := ledger_run hrun
  obtain ⟨pre, post, hh⟩ := hledger.pair_of_mem henter hexit
  have hgranted : ∀ a ∈ s.trace, ¬ a.Refused := by
    intro a ha href
    unfold Action.Refused at href
    split at href
    · exact no_refused_update hfits hrun _ ha
    · exact hring _ (mem_acts_of_mem_trace hrun _ ha rfl)
    · exact href
  have hserved := (served_run hgranted (run_trace hrun) id hf).at_pc hidle
  have hchain : (history id s.trace).IsChain Complete := hserved.chain
  rw [hh] at hchain
  obtain ⟨rfl, rfl⟩ := (List.isChain_cons_cons.mp (List.isChain_append.mp hchain).2.1).1
  -- nothing else under the id has the number of this call
  have hnodup := hledger.nodup id
  rw [Sys.past, hh, List.map_append] at hnodup
  simp only [List.map_cons, Firing.stamp] at hnodup
  have hdisj := List.disjoint_of_nodup_append hnodup
  obtain ⟨hexit', hrest⟩ := List.nodup_cons.mp (List.nodup_append.mp hnodup).2.1
  obtain ⟨henter', -⟩ := List.nodup_cons.mp hrest
  have hpost := filter_mentions_expected target id
    henter' (fun h => hexit' (List.mem_cons_of_mem _ h))
  have hpre : (expected target id pre).filter (Submitted.Mentions inv) = [] :=
    filter_mentions_expected target id (fun h => hdisj h (by simp)) (fun h => hdisj h (by simp))
  have hev : eventsOf id s.bpf.events = expected target id (history id s.trace) :=
    ((linked_run (run_trace hrun) id).at_pc hidle).2
  rw [filter_mentions hrun (List.mem_map.mpr ⟨_, henter, rfl⟩) (List.mem_map.mpr ⟨_, hexit, rfl⟩),
    hev, hh, expected_append_exit, expected_pair hf, List.filter_append, List.filter_append,
    hpre, hpost]
  simp [Submitted.Mentions]

theorem exists_action_of_history {id : BitVec 64} {acts : List Action}
    (h : history id acts ≠ []) : ∃ a ∈ acts, a.id = id := by
  induction acts using List.reverseRecOn with
  | nil => exact absurd rfl h
  | append_singleton acts a ih =>
    by_cases hid : a.id = id
    · exact ⟨a, by simp, hid⟩
    · rw [history_concat, historyStep_ne hid] at h
      obtain ⟨b, hb, hbid⟩ := ih h
      exact ⟨b, by simp [hb], hbid⟩

/-- An occupied id has fired. -/
theorem history_ne_nil_of_occupied {target : BitVec 32} {s : Sys} {id : BitVec 64}
    (hocc : Occupied target s id) : history id s.trace ≠ [] := by
  intro hnil
  rcases hocc.2 with ⟨inv, hhead⟩ | ⟨-, inv, hhead⟩
  · rw [Sys.past, hnil] at hhead
    cases hhead
  · rw [Sys.past, hnil] at hhead
    cases hhead

/-- A short run fits. -/
theorem throughout_fits {target : BitVec 32} {acts : List SysAction}
    (hlen : acts.length ≤ 16384) : Throughout (sysStep target) (Fits target) Sys.init acts := by
  intro pre post s has hrun
  have htrace : s.trace.length ≤ pre.length := by
    refine run_invariant (M := fun as s => s.trace.length ≤ as.length) (by simp [Sys.init]) ?_ hrun
    intro as s act s' hold hstep
    rcases (SysStep.of_step hstep).trace with heq | ⟨a, heq, -⟩ <;> rw [heq] <;> simp <;> omega
  have hsub : { id | Occupied target s id }
      ⊆ ((s.trace.map Action.id).toFinset : Set (BitVec 64)) := by
    intro id hocc
    obtain ⟨a, ha, rfl⟩ := exists_action_of_history (history_ne_nil_of_occupied hocc)
    simp only [Finset.mem_coe, List.mem_toFinset]
    exact List.mem_map_of_mem ha
  have hle := Set.encard_le_encard hsub
  rw [Set.encard_coe_eq_coe_finsetCard] at hle
  have hcard := List.toFinset_card_le (s.trace.map Action.id)
  rw [List.length_map] at hcard
  rw [has, List.length_append] at hlen
  refine hle.trans ?_
  exact_mod_cast (by omega)

/-- The `read` in `idsReused`, under an id whose last task died in a call. -/
theorem one_event_per_call_reused :
    ∃ s, run (sysStep 0x2a) Sys.init idsReused = some s ∧
      s.bpf.events.filter (Submitted.Mentions 1)
        = [⟨pairedEvent 0x2a0000002b 64 readCall, 1, 1⟩] := by
  refine ⟨_, rfl, one_event_per_call 0x2a idsReused _ (throughout_fits (by decide))
    (fun id => by simp [idsReused, exitHelpers]) rfl 0x2a0000002b (by decide) rfl 1 readCall 64
    true true ?_ ?_⟩
  · show _ ∈ [Firing.enter 3 execveCall true, .exit 1 64 true, .enter 1 readCall true,
      .enter 0 exitCall true]
    simp
  · show _ ∈ [Firing.enter 3 execveCall true, .exit 1 64 true, .enter 1 readCall true,
      .enter 0 exitCall true]
    simp

/-! ## Records of dead threads -/

/-- The load that is really there: traced threads that are inside a call or
have a handler running. -/
def InCall (target : BitVec 32) (s : Sys) (id : BitVec 64) : Prop :=
  ¬ filtered target id ∧
    ((∃ inv nr, s.task id = .inside inv nr) ∨ (s.bpf.pc id).isIdle = false)

def AtMostOneInCall (target : BitVec 32) (s : Sys) : Prop :=
  Set.encard { id | InCall target s id } ≤ 1

/-- The traced process, its first thread and the threads that this one creates. -/
def process : BitVec 32 := 42

def leader : BitVec 64 := process ++ process

def thread (n : Nat) : BitVec 64 := process ++ BitVec.ofNat 32 (43 + n)

/-- A thread starts and ends in `exit`. -/
def leak (n : Nat) : List SysAction :=
  [.spawn (thread n), .enter (thread n) exitCall, .helper (.mapUpdate (thread n) (some n)),
   .die (thread n)]

/-- The process starts, and creates `n` threads one after the other. -/
def leakRun (n : Nat) : List SysAction := .spawn leader :: (List.range n).flatMap leak

/-- One more thread, whose `read` has no room. -/
def lostRead (n : Nat) : List SysAction :=
  [.spawn (thread n), .enter (thread n) readCall, .helper (.mapUpdate (thread n) none),
   .exit (thread n) 64, .helper (.mapLookup (thread n))]

theorem tid_thread {n : Nat} (hn : n ≤ 16384) : (tidOf (thread n)).toNat = 43 + n := by
  rw [thread, tidOf_append, BitVec.toNat_ofNat]
  omega

theorem thread_inj {i j : Nat} (hi : i ≤ 16384) (hj : j ≤ 16384)
    (h : thread i = thread j) : i = j := by
  have htid : (tidOf (thread i)).toNat = (tidOf (thread j)).toNat := by rw [h]
  rw [tid_thread hi, tid_thread hj] at htid
  omega

theorem thread_ne_leader {n : Nat} (hn : n ≤ 16384) : thread n ≠ leader := by
  intro h
  have htid : (tidOf (thread n)).toNat = 42 := by
    rw [h]
    decide
  rw [tid_thread hn] at htid
  omega

theorem thread_not_filtered (n : Nat) : ¬ filtered process (thread n) :=
  not_filtered_iff.mpr (Or.inr (tgidOf_append ..))

/-- After `n` threads came and went: only the leader is there, in user mode, and
their records are. -/
structure Leaked (n : Nat) (s : Sys) : Prop where
  task : ∀ id, s.task id = if id = leader then .user else .gone
  pc : ∀ id, s.bpf.pc id = .idle
  index : s.bpf.inflight.index = ((List.range n).map fun i => (thread i, i)).reverse
  events : s.bpf.events = []
  nextInv : s.nextInv = n
  unused : ∀ m, n ≤ m → m ≤ 16384 → history (thread m) s.trace = []

/-- Only `k` is inside a call. -/
theorem atMostOne_of_only {target : BitVec 32} {s : Sys} {n : Nat} (h : Leaked n s)
    {s' : Sys} (k : BitVec 64) (htask : ∀ id, id ≠ k → s'.task id = s.task id)
    (hpc : ∀ id, id ≠ k → s'.bpf.pc id = s.bpf.pc id) : AtMostOneInCall target s' := by
  have hsub : { id | InCall target s' id } ⊆ {k} := by
    rintro id ⟨-, hid⟩
    by_contra hne
    rw [htask id hne, hpc id hne, h.task, h.pc] at hid
    rcases hid with ⟨inv, nr, hin⟩ | hbusy
    · split at hin
      · cases hin
      · cases hin
    · cases hbusy
  exact (Set.encard_le_encard hsub).trans (Set.encard_singleton k).le

theorem Leaked.gone {n m : Nat} {s : Sys} (h : Leaked n s) (hm : m ≤ 16384) :
    s.task (thread m) = .gone := by
  rw [h.task, if_neg (thread_ne_leader hm)]

theorem Leaked.keys {n : Nat} {s : Sys} (h : Leaked n s) (hn : n ≤ 16384) :
    thread n ∉ s.bpf.inflight.keys := by
  rw [HashTab.keys, h.index]
  simp only [List.map_reverse, List.map_map, List.mem_reverse, List.mem_map, List.mem_range,
    Function.comp_apply, not_exists, not_and]
  intro i hi heq
  exact absurd (thread_inj (by omega) hn heq) (by omega)

/-- There is room for one more record. -/
theorem Leaked.room {n : Nat} {s : Sys} (h : Leaked n s) (hn : n < 16384) :
    ¬ s.bpf.inflight.Refuses .any (thread n) ∧ n ∉ s.bpf.inflight.addrs := by
  constructor
  · rintro (⟨hflag, -⟩ | ⟨-, hfull⟩)
    · cases hflag
    · rw [h.index] at hfull
      simp only [List.length_reverse, List.length_map, List.length_range] at hfull
      omega
  · rw [HashTab.addrs, h.index]
    simp

/-- The state after thread `n` came, called `exit` and was gone. -/
def afterLeak (s : Sys) (n : Nat) (t : HashTab (BitVec 64) Stored 16384) : Sys where
  bpf := { s.bpf.setPc (thread n) .idle with inflight := t }
  task := Function.update s.task (thread n) .gone
  nextInv := s.nextInv + 1
  trace := s.trace ++ [.sysEnter (thread n) s.nextInv exitCall] ++ [.mapUpdate (thread n) (some n)]

theorem leak_runs {n : Nat} {s : Sys} (h : Leaked n s) (hn : n ≤ 16384)
    {t : HashTab (BitVec 64) Stored 16384}
    (hup : s.bpf.inflight.update? .any (thread n) ⟨s.nextInv, enterStateOf exitCall⟩ (some n)
      = some t) :
    run (sysStep process) s (leak n) = some (afterLeak s n t) ∧
      Throughout (sysStep process) (AtMostOneInCall process) s (leak n) := by
  let k := thread n
  let b := s.bpf.setPc k (.updating s.nextInv (enterStateOf exitCall))
  let s1 := s.setTask k .user
  let s2 : Sys :=
    { bpf := b, task := Function.update s.task k (.inside s.nextInv exitCall.nr),
      nextInv := s.nextInv + 1, trace := s.trace ++ [.sysEnter k s.nextInv exitCall] }
  let s3 : Sys :=
    { s2 with bpf := { b.setPc k .idle with inflight := t },
              trace := s2.trace ++ [.mapUpdate k (some n)] }
  have hf : ¬ filtered process k := thread_not_filtered n
  have h1 : sysStep process s (.spawn k) = some s1 := by
    simp only [sysStep, k, h.gone hn, s1]
  have h2 : sysStep process s1 (.enter k exitCall) = some s2 := by
    simp [sysStep, Sys.perform, s1, s2, b, Sys.setTask, step, h.pc, hf]
  have h3 : sysStep process s2 (.helper (.mapUpdate k (some n))) = some s3 := by
    simp [sysStep, Sys.perform, Action.isFiring, step, s2, s3, b, k, hup]
  have h4 : sysStep process s3 (.die k) = some (afterLeak s n t) := by
    simp [sysStep, s3, s2, b, k, Pc.isIdle, Sys.setTask, State.setPc, afterLeak]
  constructor
  · simp only [leak, run_cons, run_nil]
    rw [h1, Option.bind_some, h2, Option.bind_some, h3, Option.bind_some, h4, Option.bind_some]
  · refine throughout_cons h1 (atMostOne_of_only h k (fun _ _ => rfl) (fun _ _ => rfl))
      (throughout_cons h2 (atMostOne_of_only h k ?_ (fun _ _ => rfl))
      (throughout_cons h3 (atMostOne_of_only h k ?_ ?_)
      (throughout_cons h4 (atMostOne_of_only h k ?_ ?_)
      (throughout_nil (atMostOne_of_only h k ?_ ?_)))))
    all_goals
      intro id hid
      simp [afterLeak, s3, s2, s1, b, k, Sys.setTask, State.setPc, Function.update_of_ne hid]

/-- Its record is not gone. -/
theorem leaked_afterLeak {n : Nat} {s : Sys} (h : Leaked n s) (hn : n < 16384) :
    Leaked (n + 1) (afterLeak s n (s.bpf.inflight.put .any (thread n)
      ⟨s.nextInv, enterStateOf exitCall⟩ n (h.room hn))) where
  task := by
    intro id
    by_cases hid : id = thread n
    · subst hid
      simp [afterLeak, thread_ne_leader hn.le]
    · exact (Function.update_of_ne hid _ _).trans (h.task id)
  pc := by intro id; simp [afterLeak, State.setPc, Function.update_apply, h.pc]
  index := by
    have hkeep : ∀ p ∈ s.bpf.inflight.index, decide (p.1 ≠ thread n) = true := by
      intro p hp
      have hkey : p.1 ∈ s.bpf.inflight.keys := List.mem_map_of_mem hp
      exact decide_eq_true fun heq => h.keys hn.le (heq ▸ hkey)
    show (thread n, n) :: s.bpf.inflight.index.filter _ = _
    rw [List.filter_eq_self.mpr hkeep, h.index]
    simp [List.range_succ]
  events := h.events
  nextInv := by simp [afterLeak, h.nextInv]
  unused := by
    intro m hm hm'
    have hne : thread n ≠ thread m := fun heq => absurd (thread_inj hn.le hm' heq) (by omega)
    rw [afterLeak, history_concat_ne (by exact hne), history_concat_ne (by exact hne)]
    exact h.unused m (by omega) hm'

theorem leakRun_runs : ∀ n, n ≤ 16384 →
    ∃ s, run (sysStep process) Sys.init (leakRun n) = some s ∧ Leaked n s ∧
      Throughout (sysStep process) (AtMostOneInCall process) Sys.init (leakRun n) := by
  intro n
  induction n with
  | zero =>
    intro _
    have hone : sysStep process Sys.init (.spawn leader) = some (Sys.init.setTask leader .user) :=
      rfl
    have h0 : Leaked 0 (Sys.init.setTask leader .user) :=
      ⟨fun id => Function.update_apply .., fun _ => rfl, rfl, rfl, rfl, fun _ _ _ => rfl⟩
    have hnone : AtMostOneInCall process Sys.init :=
      atMostOne_of_only h0 leader
        (fun id hid => (Function.update_of_ne hid _ _).symm) (fun _ _ => rfl)
    exact ⟨_, rfl, h0, throughout_cons hone hnone
      (throughout_nil (atMostOne_of_only h0 leader (fun _ _ => rfl) (fun _ _ => rfl)))⟩
  | succ n ih =>
    intro hn
    obtain ⟨s, hrun, h, hload⟩ := ih (by omega)
    obtain ⟨hrun', hload'⟩ := leak_runs h (by omega)
      (HashTab.update?_some_iff.mpr ⟨h.room (by omega), rfl⟩)
    have heq : leakRun (n + 1) = leakRun n ++ leak n := by
      simp [leakRun, List.range_succ]
    refine ⟨_, ?_, leaked_afterLeak h (by omega), ?_⟩
    · rw [heq, run_append, hrun]
      exact hrun'
    · rw [heq]
      exact throughout_append hload hrun hload'

/-- The map is full of records of dead threads, and a call is lost. -/
theorem lostRead_runs {s : Sys} (h : Leaked 16384 s) :
    ∃ s', run (sysStep process) s (lostRead 16384) = some s' ∧
      Throughout (sysStep process) (AtMostOneInCall process) s (lostRead 16384) ∧
      s'.bpf.pc (thread 16384) = .idle ∧ s'.bpf.events = [] ∧
      history (thread 16384) s'.trace
        = [.exit 16384 64 false, .enter 16384 readCall false] := by
  let k := thread 16384
  let st := enterStateOf readCall
  let s1 := s.setTask k .user
  let s2 : Sys :=
    { bpf := s.bpf.setPc k (.updating s.nextInv st),
      task := Function.update s.task k (.inside s.nextInv readCall.nr),
      nextInv := s.nextInv + 1, trace := s.trace ++ [.sysEnter k s.nextInv readCall] }
  let s3 : Sys := { s2 with bpf := s.bpf.setPc k .idle, trace := s2.trace ++ [.mapUpdate k none] }
  let s4 : Sys :=
    { s3 with bpf := s.bpf.setPc k (.lookingUp s.nextInv 64),
              task := Function.update s.task k .user,
              trace := s3.trace ++ [.sysExit k s.nextInv 64] }
  let s5 : Sys := { s4 with bpf := s.bpf.setPc k .idle, trace := s4.trace ++ [.mapLookup k] }
  have hf : ¬ filtered process k := thread_not_filtered _
  have hkeys : k ∉ s.bpf.inflight.keys := h.keys le_rfl
  have hup : s.bpf.inflight.update? .any k ⟨s.nextInv, st⟩ none = some s.bpf.inflight := by
    refine HashTab.update?_none_iff.mpr ⟨Or.inr ⟨hkeys, ?_⟩, rfl⟩
    rw [h.index, List.length_reverse, List.length_map, List.length_range]
  have hnull : s.bpf.inflight.lookup k = none := HashTab.lookup_eq_none_iff.mpr hkeys
  have h1 : sysStep process s (.spawn k) = some s1 := by
    simp only [sysStep, k, h.gone le_rfl, s1]
  have h2 : sysStep process s1 (.enter k readCall) = some s2 := by
    simp [sysStep, Sys.perform, s1, s2, st, Sys.setTask, step, h.pc, hf]
  have h3 : sysStep process s2 (.helper (.mapUpdate k none)) = some s3 := by
    simp [sysStep, Sys.perform, Action.isFiring, step, s2, s3, hup, State.setPc]
  have h4 : sysStep process s3 (.exit k 64) = some s4 := by
    simp [sysStep, Sys.perform, Sys.setTask, step, s2, s3, s4, hf, State.setPc]
  have h5 : sysStep process s4 (.helper (.mapLookup k)) = some s5 := by
    simp [sysStep, Sys.perform, Action.isFiring, step, s4, s5, hnull, State.setPc]
  refine ⟨s5, ?_, ?_, ?_, h.events, ?_⟩
  · simp only [lostRead, run_cons, run_nil]
    rw [h1, Option.bind_some, h2, Option.bind_some, h3, Option.bind_some, h4, Option.bind_some,
      h5, Option.bind_some]
  · refine throughout_cons h1 (atMostOne_of_only h k (fun _ _ => rfl) (fun _ _ => rfl))
      (throughout_cons h2 (atMostOne_of_only h k ?_ (fun _ _ => rfl))
      (throughout_cons h3 (atMostOne_of_only h k ?_ ?_)
      (throughout_cons h4 (atMostOne_of_only h k ?_ ?_)
      (throughout_cons h5 (atMostOne_of_only h k ?_ ?_)
      (throughout_nil (atMostOne_of_only h k ?_ ?_))))))
    all_goals
      intro id hid
      simp [s5, s4, s3, s2, s1, Sys.setTask, State.setPc, Function.update_of_ne hid]
  · exact setPc_pc_self ..
  · have hold : history k s.trace = [] := h.unused 16384 le_rfl le_rfl
    rw [show s5.trace = s.trace ++ [.sysEnter k s.nextInv readCall] ++ [.mapUpdate k none]
        ++ [.sysExit k s.nextInv 64] ++ [.mapLookup k] from rfl,
      history_concat, history_concat, history_concat, history_concat, hold, h.nextInv]
    simp [historyStep, Action.id, k]

theorem reserve_not_mem_leakRun (n : Nat) (id : BitVec 64) :
    .helper (.ringbufReserve id false) ∉ leakRun n ++ lostRead n := by
  simp [leakRun, leak, lostRead]

/-- There is never more than one traced thread inside a call and no reserve
fails, yet the last `read` starts, returns and has no event. -/
theorem leak_loses_call :
    ∃ s, run (sysStep process) Sys.init (leakRun 16384 ++ lostRead 16384) = some s ∧
      Throughout (sysStep process) (AtMostOneInCall process) Sys.init
        (leakRun 16384 ++ lostRead 16384) ∧
      (∀ id, .helper (.ringbufReserve id false) ∉ leakRun 16384 ++ lostRead 16384) ∧
      ¬ filtered process (thread 16384) ∧ s.bpf.pc (thread 16384) = .idle ∧
      .enter 16384 readCall false ∈ history (thread 16384) s.trace ∧
      .exit 16384 64 false ∈ history (thread 16384) s.trace ∧
      s.bpf.events.filter (Submitted.Mentions 16384) = [] := by
  obtain ⟨s, hrun, h, hload⟩ := leakRun_runs 16384 le_rfl
  obtain ⟨s', hrun', hload', hpc, hev, hhist⟩ := lostRead_runs h
  refine ⟨s', ?_, throughout_append hload hrun hload', reserve_not_mem_leakRun 16384,
    thread_not_filtered _, hpc, ?_, ?_, ?_⟩
  · rw [run_append, hrun]
    exact hrun'
  · rw [hhist]
    simp
  · rw [hhist]
    simp
  · rw [hev]
    rfl

end LibbpfTools.Strace
