import DnsResolver.Threaded.ThreadedPhases

/-!
# The shutdown of the queues

A queue is shut down only when its producers are past their last `array_put` (`MayShut`): without an
interrupt no put is ever refused (`not_refused`). A thread that has left its loop has seen its
queue shut down and empty, and so it stays (`drained_of_left`); a queue whose `array_free` has
returned is shut down (`shutdown_of_freed`). -/

namespace DnsResolver
open Function Tally

variable {R S : Nat} {cfg : Config R S} {s s' : State R S} {t u : Tid R S} {q : QName}
  {e : Effect R S}

/-- What a step of a queue keeps, a step of the program keeps of each queue. -/
theorem State.queue_stable {I : Monitor (Tid R S) Str → Prop} {a : Act R S}
    (hI : ∀ m a m', (Monitor.system (Tid R S) Str cfg.arraySize).Reachable m →
      m.step cfg.arraySize a = some m' → I m → I m')
    (H : cfg.system.Reachable s) (h : s.step cfg a = some s') (hq : I (s.queue q)) :
    I (s'.queue q) :=
  TransitionSystem.Leads.stable hI (queue_reachable H q) ((synced_reachable H).queue_leads h q) hq

theorem State.drained_step {a : Act R S} (H : cfg.system.Reachable s)
    (h : s.step cfg a = some s') (hd : (s.queue q).Drained) : (s'.queue q).Drained :=
  queue_stable (fun _ _ _ H h hd => (Monitor.inv_reachable cfg.two_le H).drained_step h hd) H h hd

theorem State.shutdown_step {a : Act R S} (H : cfg.system.Reachable s)
    (h : s.step cfg a = some s') (hd : (s.queue q).arr.shutdown = true) :
    (s'.queue q).arr.shutdown = true :=
  queue_stable (I := fun m => m.arr.shutdown = true)
    (fun _ _ _ _ h hd => Monitor.shutdown_step h hd) H h hd

/-! ## Threads stay past a stage -/

theorem MainStep.stages {l l' : MainLoc} (h : MainStep cfg s l l' e) :
    (l.aborting = true → l'.aborting = true) ∧ (l.enqueued = true → l'.enqueued = true) ∧
    (l.joinedAll = true → l'.joinedAll = true) := by
  cases h <;> simp [MainLoc.aborting, MainLoc.enqueued, MainLoc.joinedAll]

namespace Stmt

theorem main_stages (h : Stmt cfg s t s') :
    (s.main.aborting = true → s'.main.aborting = true) ∧
    (s.main.enqueued = true → s'.main.enqueued = true) ∧
    (s.main.joinedAll = true → s'.main.joinedAll = true) := by
  cases h with
  | main h => exact h.stages
  | _ => exact ⟨id, id, id⟩

theorem inactive (H : s.Fresh) (h : Stmt cfg s t s') {k : Fin R}
    (hk : (s.requester k).loc.active = false) : (s'.requester k).loc.active = false := by
  by_cases ht : Tid.requester k = t
  · subst ht
    cases h with
    | requester h =>
      rcases h.readers with ⟨-, h1, -⟩ | ⟨-, h1, -⟩
      · simpa [State.setRequester, State.perform, h1] using hk
      · exact absurd (hk.symm.trans h1) (by simp)
  · rcases (h.other H ht).2 with h1 | ⟨h1, -⟩
    · rw [h1, hk]
    · rw [h1] at hk
      cases hk

end Stmt

namespace State

/-! ## Who shuts down a queue -/

/-- The producers of the queue are past their last put, or `main` has given up. -/
def MayShut (s : State R S) : QName → Prop
  | .filenameQueue => s.main.aborting = true ∨ s.main.enqueued = true
  | .resolverLogfileQueue => s.main.aborting = true ∨ s.main.joinedAll = true
  | _ => s.main.aborting = true ∨ ∀ k, (s.requester k).loc.active = false

theorem MayShut.stmt (H : s.Fresh) (h : Stmt cfg s t s') (hq : s.MayShut q) : s'.MayShut q := by
  obtain ⟨h1, h2, h3⟩ := h.main_stages
  have h4 : (∀ k, (s.requester k).loc.active = false) →
      ∀ k, (s'.requester k).loc.active = false := fun hk k => h.inactive H (hk k)
  cases q with
  | filenameQueue => exact Or.imp h1 h2 hq
  | resolverLogfileQueue => exact Or.imp h1 h3 hq
  | hostnameQueue | requesterLogfileQueue => exact Or.imp h1 h4 hq

/-- A thread that frees a queue may. -/
theorem Phases.mayShut (H : s.Phases) (ho : ∀ q, s.outsider q = false)
    (h : s.op t = some (q, .free)) : s.MayShut q := by
  cases t with
  | main =>
    have hj := H.joinedRequester
    simp only [op] at h
    unfold MayShut
    generalize s.main = l at h hj
    cases l <;> cases h
    · cases q <;> exact .inl rfl
    · exact .inr rfl
    · exact .inr fun k => RequesterLoc.over_active (hj k rfl)
    · exact .inr rfl
  | requester i =>
    have hk := H.last i (H.freeing i q h)
    simp only [op] at h
    generalize (s.requester i).loc = l at h
    cases l <;> cases h <;> exact .inr hk
  | resolver j =>
    simp only [op] at h
    generalize (s.resolver j).loc = l at h
    cases l <;> cases h
  | logger k =>
    simp only [op] at h
    generalize s.logger k = l at h
    cases l <;> cases h
  | outsider q' => simp [op, ho] at h

theorem Stmt.outsider_eq (ho : cfg.outsiders = false) (h : Stmt cfg s t s') :
    s'.outsider = s.outsider := by
  cases h with
  | main h => simp only [spawn_same]; rfl
  | requester h | resolver h | logger h => rfl
  | outsiderFree h | outsiderDone h => exact absurd (ho.symm.trans h) nofun

/-- Without interrupts nobody outside the program frees a queue. -/
theorem no_outsider (ho : cfg.outsiders = false) (H : cfg.system.Reachable s) (q : QName) :
    s.outsider q = false := by
  induction H with
  | init h =>
    rw [h]
    rfl
  | step _ h ih =>
    rcases (step_cases h).2 with ⟨t, c, -, h'⟩ | ⟨_, _, _, _, -, -, rfl⟩
    · rw [Stmt.outsider_eq ho h', ih]
    · exact ih

variable (s) in
theorem setQueue_mayShut (q' : QName) (m : Monitor (Tid R S) Str) (q : QName) :
    (s.setQueue q' m).MayShut q ↔ s.MayShut q := by
  cases q <;> rfl

/-- A queue that is shut down was shut down by a thread that may. -/
theorem mayShut_reachable (ho : cfg.outsiders = false) (H : cfg.system.Reachable s)
    (h : (s.queue q).arr.shutdown = true) : s.MayShut q := by
  induction H with
  | init h0 =>
    rw [h0] at h
    cases h
  | step H hs ih =>
    rcases (step_cases hs).2 with ⟨t, c, -, h'⟩ | ⟨q', t, mv, m, -, h', rfl⟩
    · rw [h'.queue_eq, switch_arr] at h
      exact (ih h).stmt (synced_reachable H).fresh h'
    · rw [setQueue_mayShut]
      by_cases hq : q = q'
      · subst hq
        rw [setQueue_self] at h
        rcases Monitor.move_shutdown h' h with h | h
        · exact ih h
        · rw [(synced_reachable H).op, opAt_eq_some] at h
          exact (phases_reachable H).mayShut (no_outsider ho H) h
      · rw [setQueue_of_ne m hq] at h
        exact ih h

/-- A queue on which somebody puts is not shut down. -/
theorem open_of_put (ho : cfg.outsiders = false) (H : cfg.system.Reachable s) {x : Str}
    (h : s.op t = some (q, .put x)) : (s.queue q).arr.shutdown = false := by
  by_contra hs
  have hm := mayShut_reachable ho H (Bool.not_eq_false _ ▸ hs)
  have hf := (synced_reachable H).fresh
  have hj := (phases_reachable H).joinedResolver
  cases t with
  | main =>
    simp only [op] at h
    unfold MayShut at hm
    generalize s.main = l at h hm
    cases l <;> cases h
    rcases hm with hm | hm <;> cases hm
  | requester i =>
    have hi := RequesterLoc.active_of_op h (by simp)
    have hi' : (s.requester i).loc ≠ .idle := fun h0 => by simp [op, h0, RequesterLoc.op] at h
    have ha : s.main.aborting = false := by
      have := hf.readersSet hi'
      generalize s.main = l at this
      cases l <;> first | rfl | cases this
    have hn : s.main.aborting = true ∨ ∀ k, (s.requester k).loc.active = false := by
      simp only [op] at h
      generalize (s.requester i).loc = l at h
      cases l <;> cases h <;> exact hm
    rcases hn with hn | hn
    · exact absurd (ha.symm.trans hn) (by simp)
    · exact absurd ((hn i).symm.trans hi) (by simp)
  | resolver j =>
    have hi := hf.resolver j
    have hj := hj j
    simp only [op] at h
    unfold MayShut at hm
    generalize (s.resolver j).loc = l at h hi hj
    cases l <;> cases h
    generalize s.main = m at hm hi hj
    rcases hm with hm | hm <;> cases m <;> first | cases hi rfl | cases hj rfl | cases hm
  | logger k =>
    simp only [op] at h
    generalize s.logger k = l at h
    cases l <;> cases h
  | outsider q' =>
    simp only [op] at h
    split at h <;> cases h

/-- Without an interrupt no put is refused. -/
theorem not_refused (ho : cfg.outsiders = false) (H : cfg.system.Reachable s) (q : QName)
    (t : Tid R S) (x : Str) : (s.queue q).call t ≠ .putDone x .shutdown := by
  intro h
  have hs : (s.queue q).arr.shutdown = true := (h ▸ (queue_inv H q).asserts t :
    (Call.putDone x .shutdown).Asserts cfg.arraySize (s.queue q).arr)
  have hop : s.op t = some (q, .put x) := by
    rw [← opAt_eq_some, ← (synced_reachable H).op, h]
    rfl
  exact absurd (hs.symm.trans (open_of_put ho H hop)) nofun

end State

/-! ## Created threads -/

theorem MainStep.created {l l' : MainLoc} (h : MainStep cfg s l l' e)
    (hc : cfg.createFails = false) (hl : ∀ i, l ≠ .createFailed i) :
    (∀ i, l' ≠ .createFailed i) ∧ (∀ i, e.spawn ≠ .failed i) ∧
    (∀ i, e.spawn ≠ .requester i false) ∧
    (∀ i : Fin R, l'.toCreateRequester i = false →
      l.toCreateRequester i = false ∨ e.spawn = .requester i true) ∧
    (∀ j : Fin S, l'.toCreateResolver j = false →
      l.toCreateResolver j = false ∨ e.spawn = .resolver j true) := by
  cases h with
  | @createRequester i hi =>
    refine ⟨by simp, by simp, by simp, fun k hk => ?_, by simp [MainLoc.toCreateResolver]⟩
    simp only [MainLoc.toCreateRequester, decide_eq_false_iff_not, not_le] at hk ⊢
    rcases Nat.lt_succ_iff_lt_or_eq.1 hk with hk | hk
    · exact .inl hk
    · exact .inr (by simp [← hk])
  | @requestersCreated i hi =>
    refine ⟨by simp, by simp, by simp, fun k _ => .inl ?_, by simp [MainLoc.toCreateResolver]⟩
    simpa [MainLoc.toCreateRequester] using k.2.trans_le hi
  | @createResolver j hj =>
    refine ⟨by simp, by simp, by simp, fun _ h => .inl h, fun k hk => ?_⟩
    simp only [MainLoc.toCreateResolver, decide_eq_false_iff_not, not_le] at hk ⊢
    rcases Nat.lt_succ_iff_lt_or_eq.1 hk with hk | hk
    · exact .inl hk
    · exact .inr (by simp [← hk])
  | @resolversCreated j hj =>
    refine ⟨by simp, by simp, by simp, fun _ h => .inl h, fun k _ => .inl ?_⟩
    simpa [MainLoc.toCreateResolver] using k.2.trans_le hj
  | createFailed => exact absurd rfl (hl _)
  | _ => simp_all [MainLoc.toCreateRequester, MainLoc.toCreateResolver]

theorem MainStep.createdLogger {l l' : MainLoc} (h : MainStep cfg s l l' e) (k : Logger)
    (hk : l'.toCreateLogger k = false) (ha : l'.aborting = false) :
    l.toCreateLogger k = false ∧ l.aborting = false ∨ e.spawn = .logger k := by
  cases h <;> cases k <;> simp_all [MainLoc.toCreateLogger, MainLoc.aborting]

theorem RequesterStep.running {i : Fin R} {l l' : RequesterLoc} (h : RequesterStep cfg s i l l' e) :
    l' ≠ .idle ∧ l' ≠ .failed := by
  cases h <;> exact ⟨nofun, nofun⟩

theorem ResolverStep.running {j : Fin S} {l l' : ResolverLoc} (h : ResolverStep cfg s j l l' e) :
    l' ≠ .idle := by
  cases h <;> nofun

theorem LoggerStep.running {k : Logger} {l l' : LoggerLoc} (h : LoggerStep s k l l' e) :
    l' ≠ .idle := by
  cases h <;> nofun

namespace State

/-- A log thread that `main` has created is not idle. -/
theorem created_logger (H : cfg.system.Reachable s) {k : Logger}
    (hk : s.main.toCreateLogger k = false) (ha : s.main.aborting = false) : s.logger k ≠ .idle := by
  induction H with
  | init h =>
    rw [h] at hk
    cases k <;> cases hk
  | step H h ih =>
    have hf := (synced_reachable H).fresh
    rcases (step_cases h).2 with ⟨t, c, -, h'⟩ | ⟨_, _, _, _, -, -, rfl⟩
    · cases h' with
      | main hl =>
        simp only [perform_spawn]
        rcases hl.createdLogger k hk ha with ⟨h1, h2⟩ | he
        · rcases spawn_logger hf hl k with h3 | ⟨-, h3, -⟩
          · rw [h3]
            exact ih h1 h2
          · rw [h3]
            simp
        · simp [he, spawn]
      | @logger n _ _ hl =>
        by_cases hkn : k = n
        · subst hkn
          simpa using hl.running
        · simpa [perform, hkn] using ih hk ha
      | _ => exact ih hk ha
    · exact ih hk ha

/-- When no creation fails, created threads run, and the last requester to come out of its loop
brings `active_file_readers` to 0. -/
structure Created (s : State R S) : Prop where
  main : ∀ i, s.main ≠ .createFailed i
  failed : ∀ i : Fin R, (s.requester i).loc ≠ .failed
  requester : ∀ i : Fin R, s.main.toCreateRequester i = false → (s.requester i).loc ≠ .idle
  resolver : ∀ j : Fin S, s.main.toCreateResolver j = false → (s.resolver j).loc ≠ .idle
  last : s.main.readersSet = true → s.readersLeft = 0 → ∃ i, (s.requester i).last = true

theorem Created.step_main (hc : cfg.createFails = false) (H : s.Created) (hf : s.Fresh)
    (h : MainStep cfg s s.main s'.main e) (hs : s.AfterMain s' e) : s'.Created := by
  obtain ⟨hm, hfail, hno, hr, hv⟩ := h.created hc H.main
  refine ⟨hm, fun i => ?_, fun i hi => ?_, fun j hj => ?_, fun hl h0 => ?_⟩
  · rw [hs.requester]
    have hi := H.failed i
    generalize e.spawn = sp at *
    cases sp with
    | nobody | logger k | resolver j c => exact hi
    | failed k => exact absurd rfl (hfail k)
    | requester k c =>
      by_cases hik : i = k
      · subst hik
        cases c
        · exact absurd rfl (hno i)
        · simp [spawn]
      · simpa [spawn, hik] using hi
  · rw [hs.requester]
    rcases hr i hi with hi | he
    · rcases (spawn_requester hf h i).2 with h0 | ⟨h0, -⟩
      · rw [h0]
        exact H.requester i hi
      · exact absurd h0 (H.requester i hi)
    · simp [he, spawn]
  · rw [hs.resolver]
    rcases hv j hj with hj | he
    · rcases (spawn_resolver hf h j).2 with h0 | ⟨h0, -⟩
      · rw [h0]
        exact H.resolver j hj
      · exact absurd h0 (H.resolver j hj)
    · simp [he, spawn]
  · have hle := spawn_readersLeft hf h
    have he : s'.readersLeft = s.readersLeft := by
      rw [readersLeft, hs.requester]
      generalize e.spawn = sp at *
      cases sp <;> first | exact hle | exact absurd rfl (hfail _)
    rw [he] at h0
    have hset : s.main.readersSet = true := by
      by_contra hn
      have hi := hf.requester ⟨0, cfg.requesters_pos⟩ (by
        generalize s.main = l at hn
        cases l <;> first | rfl | exact absurd rfl hn)
      have h1 : (s.requester ⟨0, cfg.requesters_pos⟩).loc.active = false := tally_eq_zero.1 h0 _
      rw [hi] at h1
      cases h1
    obtain ⟨i, hi⟩ := H.last hset h0
    refine ⟨i, ?_⟩
    rw [hs.requester, (spawn_last hf h i).1, hi]

theorem Created.step_requester (H : s.Created) (hp : s.Phases) {i : Fin R}
    {l : RequesterLoc} (h : RequesterStep cfg s i (s.requester i).loc l e) :
    ((s.perform (.requester i) (s.requester i).loc.op l.op e).setRequester i l e).Created := by
  refine ⟨H.main, fun k => ?_, fun k hk => ?_, H.resolver, fun hl h0 => ?_⟩
  · by_cases hki : k = i
    · subst hki
      simpa [setRequester] using h.running.2
    · simpa [setRequester, perform, hki] using H.failed k
  · by_cases hki : k = i
    · subst hki
      simpa [setRequester] using h.running.1
    · simpa [setRequester, perform, hki] using H.requester k hk
  · have hleft := setRequester_readersLeft s (.requester i) (s.requester i).loc.op l.op e i l
    rw [h0] at hleft
    rcases h.readers with ⟨-, h1, -⟩ | ⟨-, h1, h2, h3⟩
    · rw [h1] at hleft
      obtain ⟨k, hk⟩ := H.last hl (by omega)
      refine ⟨k, ?_⟩
      by_cases hki : k = i
      · subst hki
        simp [setRequester, perform, hk]
      · simpa [setRequester, perform, hki] using hk
    · rw [h1, h2] at hleft
      have := hp.readers hl
      simp only [Bool.toNat_true, Bool.toNat_false] at hleft
      have hlast : e.last = true := h3.2 (by omega)
      exact ⟨i, by simp [setRequester, hlast]⟩

theorem Created.stmt (hc : cfg.createFails = false) (H : s.Created) (hp : s.Phases)
    (hf : s.Fresh) (h : Stmt cfg s t s') : s'.Created := by
  cases h with
  | main h =>
    obtain ⟨e, h, hs⟩ := main_step (.main h)
    exact H.step_main hc hf h hs
  | requester h => exact H.step_requester hp h
  | @resolver j l e h =>
    refine ⟨H.main, H.failed, H.requester, fun k hk => ?_, H.last⟩
    by_cases hkj : k = j
    · subst hkj
      simpa [setResolver] using h.running
    · simpa [setResolver, perform, hkj] using H.resolver k hk
  | logger h | outsiderFree h | outsiderDone h =>
    exact ⟨H.main, H.failed, H.requester, H.resolver, H.last⟩

theorem created_reachable (hc : cfg.createFails = false) (H : cfg.system.Reachable s) :
    s.Created := by
  induction H with
  | init h =>
    rw [h]
    exact ⟨nofun, nofun, nofun, nofun, nofun⟩
  | step H h ih =>
    rcases (step_cases h).2 with ⟨t, c, -, h'⟩ | ⟨_, _, _, _, -, -, rfl⟩
    · exact ih.stmt hc (phases_reachable H) (synced_reachable H).fresh h'
    · exact ⟨ih.main, ih.failed, ih.requester, ih.resolver, ih.last⟩

end State

/-! ## Queues that are done with -/

theorem RequesterStep.leftLoop {i : Fin R} {l l' : RequesterLoc} (h : RequesterStep cfg s i l l' e)
    (hl : l'.leftLoop = true) : l.leftLoop = true ∨
      (s.queue .filenameQueue).call (.requester i) = .getDone none := by
  cases h <;> simp_all [RequesterLoc.leftLoop]

theorem ResolverStep.finished {j : Fin S} {l : ResolverLoc} (h : ResolverStep cfg s j l .finished e) :
    (s.queue .hostnameQueue).call (.resolver j) = .getDone none := by
  cases h
  assumption

theorem LoggerStep.finished {k : Logger} {l : LoggerLoc} (h : LoggerStep s k l .finished e) :
    (s.queue k.queue).call (.logger k) = .getDone none := by
  cases h
  assumption

/-- `main` is past its `array_free` of the queue. -/
def MainLoc.hasFreed : QName → MainLoc → Bool
  | .filenameQueue, .joinRequester _ | .filenameQueue, .joinResolver _ => true
  | .filenameQueue, .freeRequesterLog | .filenameQueue, .freeResolverLog => true
  | .requesterLogfileQueue, .freeResolverLog => true
  | .hostnameQueue, _ => false
  | _, .joinLogger _ | _, .returned => true
  | _, _ => false

/-- The requester is past its `array_free` of the queue. -/
def Requester.hasFreed (q : QName) (r : Requester) : Bool :=
  r.last && match q, r.loc with
  | .hostnameQueue, .freeHostname => false
  | .hostnameQueue, _ => true
  | .requesterLogfileQueue, .freeHostname => false
  | .requesterLogfileQueue, .freeRequesterLog => false
  | .requesterLogfileQueue, _ => true
  | _, _ => false

theorem Requester.hasFreed_congr {r r' : Requester} (h : r'.last = r.last) (h' : r'.loc = r.loc) :
    r'.hasFreed q = r.hasFreed q := by
  simp only [hasFreed, h, h']

theorem Requester.hasFreed_last {r : Requester} (h : r.hasFreed q = true) : r.last = true :=
  (Bool.and_eq_true _ _ ▸ h).1

theorem MainStep.hasFreed {l l' : MainLoc} (h : MainStep cfg s l l' e)
    (hl : l'.hasFreed q = true) : l.hasFreed q = true ∨ (s.queue q).call .main = .freeDone := by
  cases h <;> cases q <;> simp_all [MainLoc.hasFreed]

theorem RequesterStep.hasFreed {i : Fin R} {r r' : Requester}
    (h : RequesterStep cfg s i r.loc r'.loc e) (hl : r'.last = (r.last || e.last))
    (ha : r.last = true → r.loc.active = false) (hr : r'.hasFreed q = true) :
    r.hasFreed q = true ∨ (s.queue q).call (.requester i) = .freeDone := by
  obtain ⟨loc, _, _, _, _, last⟩ := r
  obtain ⟨loc', _, _, _, _, last'⟩ := r'
  dsimp only at *
  subst hl
  cases h <;> cases q <;> simp_all [Requester.hasFreed, RequesterLoc.active]

namespace State

/-- A thread has left its loop over the queue. -/
def Left (s : State R S) : QName → Prop
  | .filenameQueue => ∃ i, (s.requester i).loc.leftLoop = true
  | .hostnameQueue => ∃ j, (s.resolver j).loc = .finished
  | .requesterLogfileQueue => s.logger .requesterLog = .finished
  | .resolverLogfileQueue => s.logger .resolverLog = .finished

/-- A thread has freed the queue. -/
def HasFreed (s : State R S) (q : QName) : Prop :=
  s.main.hasFreed q = true ∨ ∃ i, (s.requester i).hasFreed q = true

theorem logger_finished_of_stmt {k : Logger} (hf : s.Fresh) (h : Stmt cfg s t s')
    (hl : s'.logger k = .finished) :
    s.logger k = .finished ∨ (s.queue k.queue).call (.logger k) = .getDone none := by
  by_cases ht : .logger k = t
  · subst ht
    cases h with
    | logger h =>
      simp only [update_self] at hl
      subst hl
      exact .inr h.finished
  · rcases h.other hf ht with h0 | ⟨-, h0⟩
    · exact .inl (h0.symm.trans hl)
    · exact absurd (h0.symm.trans hl) nofun

theorem Left.of_stmt (hf : s.Fresh) (h : Stmt cfg s t s') (hl : s'.Left q) :
    s.Left q ∨ ∃ u, (s.queue q).call u = .getDone none := by
  cases q with
  | filenameQueue =>
    obtain ⟨i, hi⟩ := hl
    by_cases ht : .requester i = t
    · subst ht
      cases h with
      | requester h =>
        rw [setRequester_self] at hi
        exact (h.leftLoop hi).imp (fun h => ⟨i, h⟩) fun h => ⟨_, h⟩
    · rcases (h.other hf ht).2 with h0 | ⟨-, h0 | h0⟩ <;> rw [h0] at hi
      · exact .inl ⟨i, hi⟩
      · cases hi
      · cases hi
  | hostnameQueue =>
    obtain ⟨j, hj⟩ := hl
    by_cases ht : .resolver j = t
    · subst ht
      cases h with
      | resolver h =>
        rw [setResolver_self] at hj
        dsimp only at hj
        subst hj
        exact .inr ⟨_, h.finished⟩
    · rcases (h.other hf ht).2 with h0 | ⟨-, h0⟩ <;> rw [h0] at hj
      · exact .inl ⟨j, hj⟩
      · cases hj
  | requesterLogfileQueue =>
    exact (logger_finished_of_stmt hf h hl).imp id fun h => ⟨_, h⟩
  | resolverLogfileQueue =>
    exact (logger_finished_of_stmt hf h hl).imp id fun h => ⟨_, h⟩

/-- A thread that has left its loop has left an empty queue behind, which nobody fills again. -/
theorem drained_of_left (H : cfg.system.Reachable s) (hl : s.Left q) : (s.queue q).Drained := by
  induction H with
  | init h =>
    rw [h] at hl
    cases q with
    | filenameQueue | hostnameQueue =>
      obtain ⟨i, hi⟩ := hl
      cases hi
    | _ => cases hl
  | @step s _ _ H h ih =>
    refine drained_step H h ?_
    rcases (step_cases h).2 with ⟨t, c, -, h'⟩ | ⟨_, _, _, _, -, -, rfl⟩
    · rcases hl.of_stmt (synced_reachable H).fresh h' with hl | ⟨u, hu⟩
      · exact ih hl
      · have hi := queue_inv H q
        have ha : (Call.getDone none).Asserts cfg.arraySize (s.queue q).arr := hu ▸ hi.asserts u
        exact ⟨ha.1, hi.empty_iff.1 ha.2⟩
    · exact ih (by cases q <;> exact hl)

theorem HasFreed.of_stmt (hf : s.Fresh) (hp : s.Phases) (h : Stmt cfg s t s')
    (hl : s'.HasFreed q) : s.HasFreed q ∨ ∃ u, (s.queue q).call u = .freeDone := by
  rcases hl with hl | ⟨i, hi⟩
  · by_cases ht : .main = t
    · subst ht
      cases h with
      | main h => exact (h.hasFreed hl).imp .inl fun h => ⟨_, h⟩
    · have h0 : s'.main = s.main := h.other hf ht
      exact .inl (.inl (h0 ▸ hl))
  · by_cases ht : .requester i = t
    · subst ht
      cases h with
      | requester h =>
        rw [setRequester_self] at hi
        refine (RequesterStep.hasFreed h ?_ (fun hl => hp.last i hl i) hi).imp
          (fun h => .inr ⟨i, h⟩) fun h => ⟨_, h⟩
        rfl
    · obtain ⟨h0, h1⟩ := h.other hf ht
      refine .inl (.inr ⟨i, ?_⟩)
      have hl : (s'.requester i).last = (s.requester i).last := by rw [h0]
      rcases h1 with h1 | ⟨h1, -⟩
      · rwa [Requester.hasFreed_congr hl h1] at hi
      · have hn : (s.requester i).last = true := hl ▸ Requester.hasFreed_last hi
        exact absurd (h1 ▸ hp.last i hn i) nofun

theorem shutdown_of_freed (H : cfg.system.Reachable s) (hl : s.HasFreed q) :
    (s.queue q).arr.shutdown = true := by
  induction H with
  | init h =>
    rw [h] at hl
    rcases hl with hl | ⟨i, hi⟩
    · cases q <;> cases hl
    · cases hi
  | @step s _ _ H h ih =>
    refine shutdown_step H h ?_
    rcases (step_cases h).2 with ⟨t, c, -, h'⟩ | ⟨_, _, _, _, -, -, rfl⟩
    · rcases hl.of_stmt (synced_reachable H).fresh (phases_reachable H) h' with hl | ⟨u, hu⟩
      · exact ih hl
      · exact (hu ▸ (queue_inv H q).asserts u :
          (Call.freeDone).Asserts cfg.arraySize (s.queue q).arr)
    · exact ih hl

end State
end DnsResolver
