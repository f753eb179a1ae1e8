import DnsResolver.Threaded.ThreadedLines

/-!
# The last reader

`active_file_readers` is decremented by the requesters that come out of their loop and by `main`
for a requester that it could not create; only a requester that brings it to 0 shuts down
`hostname_queue` and `requester_logfile_queue`. Where some requester was created it is a requester
that brings the count to 0 (`zero_step`); where all creations failed it is `main`, and nobody
shuts down the two queues (`lastReader_iff`). -/

namespace DnsResolver
open Function Tally

variable {R S : Nat} {cfg : Config R S} {s s' : State R S} {t u : Tid R S} {q : QName}
  {e : Effect R S}

/-- The steps of a run, each with the states before and after. -/
abbrev Run (R S : Nat) := List (State R S × Act R S × State R S)

/-- The queues of the threads that consume what requesters put. -/
def QName.fed : QName → Bool
  | .hostnameQueue | .requesterLogfileQueue => true
  | _ => false

namespace State

/-- The step brings `active_file_readers` to 0. -/
def bringsToZero (x : State R S × Act R S × State R S) : Bool :=
  x.1.main.readersSet && decide (x.1.activeFileReaders ≠ 0 ∧ x.2.2.activeFileReaders = 0)

/-- The step sets the shutdown flag of the queue. -/
def shutsDown (q : QName) (x : State R S × Act R S × State R S) : Bool :=
  !(x.1.queue q).arr.shutdown && (x.2.2.queue q).arr.shutdown

/-- The thread is shutting down the two queues, one after the other, or has done so. -/
def ShutsBoth (s : State R S) (t : Tid R S) : Prop :=
  s.op t = some (.hostnameQueue, .free) ∨ (s.queue .hostnameQueue).arr.shutdown = true ∧
    (s.op t = some (.requesterLogfileQueue, .free) ∨
      (s.queue .requesterLogfileQueue).arr.shutdown = true)

/-- What `active_file_readers` is for, at the end of a run: it counts the requesters that have
still to decrement it (`active`: created or to be created); one step brings it to 0, when no
requester can put any more; the thread of that step shuts down the two queues; and no put of a
requester is refused. -/
structure LastReader (cfg : Config R S) (tr : Run R S) (s : State R S) : Prop where
  readers : s.activeFileReaders = s.readersLeft
  once : tr.countP bringsToZero = if s.activeFileReaders = 0 then 1 else 0
  returned : s.main = .returned → s.activeFileReaders = 0
  shuts : ∀ x ∈ tr, bringsToZero x = true → s.ShutsBoth x.2.1.thread
  onlyOne : ∀ x ∈ tr, bringsToZero x = true → ∀ y ∈ tr, ∀ q, q.fed = true →
    shutsDown q y = true → y.2.1.thread = x.2.1.thread
  quiet : ∀ x ∈ tr, bringsToZero x = true → ∀ s', cfg.system.Leads x.2.2 s' →
    ∀ i q y, q.fed = true → s'.op (.requester i) ≠ some (q, .put y)
  accepted : ∀ i q y, (s.queue q).call (.requester i) ≠ .putDone y .shutdown

end State

/-! ## Requesters that are past their loop, or were not created -/

theorem RequesterStep.leftLoop_stable {i : Fin R} {l l' : RequesterLoc}
    (h : RequesterStep cfg s i l l' e) (hl : l.leftLoop = true) : l'.leftLoop = true := by
  cases h <;> first | rfl | cases hl

theorem RequesterStep.last_leftLoop {i : Fin R} {l l' : RequesterLoc}
    (h : RequesterStep cfg s i l l' e) (he : e.last = true) : l'.leftLoop = true := by
  cases h <;> first | rfl | cases he

theorem RequesterLoc.inactive {l : RequesterLoc} (h : l.active = false) :
    l = .failed ∨ l.leftLoop = true := by
  cases l <;> first | exact .inl rfl | exact .inr rfl | cases h

theorem MainLoc.not_aborting {l : MainLoc} (h : l.readersSet = true) : l.aborting = false := by
  cases l <;> first | rfl | cases h

namespace Stmt

theorem requester_last (H : s.Fresh) (h : Stmt cfg s t s') {i : Fin R}
    (hi : (s.requester i).last = true) : (s'.requester i).last = true := by
  by_cases ht : Tid.requester i = t
  · subst ht
    cases h with
    | requester h => simp [State.setRequester_self, hi]
  · rw [(h.other H ht).1]
    exact hi

theorem requester_failed (H : s.Fresh) (h : Stmt cfg s t s') {i : Fin R}
    (hi : (s.requester i).loc = .failed) : (s'.requester i).loc = .failed := by
  by_cases ht : Tid.requester i = t
  · subst ht
    cases h with
    | requester h =>
      rw [hi] at h
      cases h
  · rcases (h.other H ht).2 with h1 | ⟨h1, -⟩
    · rw [h1, hi]
    · rw [hi] at h1
      cases h1

theorem leftLoop_stable (H : s.Fresh) (h : Stmt cfg s t s') {i : Fin R}
    (hi : (s.requester i).loc.leftLoop = true) : (s'.requester i).loc.leftLoop = true := by
  by_cases ht : Tid.requester i = t
  · subst ht
    cases h with
    | requester h =>
      rw [State.setRequester_self]
      exact h.leftLoop_stable hi
  · rcases (h.other H ht).2 with h1 | ⟨h1, -⟩
    · rw [h1, hi]
    · rw [h1] at hi
      cases hi

end Stmt

namespace State

theorem last_leftLoop (H : cfg.system.Reachable s) {i : Fin R} (hi : (s.requester i).last = true) :
    (s.requester i).loc.leftLoop = true := by
  induction H with
  | init h =>
    rw [h] at hi
    cases hi
  | @step s _ s' H h ih =>
    have hf := (synced_reachable H).fresh
    rcases (step_cases h).2 with ⟨t, c, -, h'⟩ | ⟨_, _, _, _, -, -, rfl⟩
    · by_cases hl : (s.requester i).last = true
      · exact h'.leftLoop_stable hf (ih hl)
      · by_cases ht : Tid.requester i = t
        · subst ht
          cases h' with
          | requester h' =>
            rw [setRequester_self] at hi ⊢
            exact h'.last_leftLoop ((Bool.or_eq_true_iff.1 hi).resolve_left hl)
        · rw [(h'.other hf ht).1] at hi
          exact absurd hi hl
    · exact ih hi

/-- Before `main` has put all filenames no requester has left its loop. -/
theorem not_leftLoop (ho : cfg.outsiders = false) (H : cfg.system.Reachable s)
    (ha : s.main.aborting = false) (he : s.main.enqueued = false) (i : Fin R) :
    (s.requester i).loc.leftLoop = false := by
  by_contra hl
  have hd : (s.queue .filenameQueue).Drained :=
    drained_of_left H ⟨i, Bool.not_eq_false _ ▸ hl⟩
  rcases mayShut_reachable ho H hd.1 with h | h
  · exact absurd (ha.symm.trans h) nofun
  · exact absurd (he.symm.trans h) nofun

/-! ## Who brings the count to 0 -/

/-- The decrement that leaves no reader is that of a requester, the last, or that of `main`, when
no requester was created. -/
theorem zero_step (ho : cfg.outsiders = false) (H : cfg.system.Reachable s)
    (h : Stmt cfg s t s') (h0 : s.readersLeft ≠ 0) (h0' : s'.readersLeft = 0) :
    (∃ i, t = .requester i ∧ (s'.requester i).last = true) ∨
      t = .main ∧ ∀ i, (s'.requester i).loc = .failed := by
  have hf := (synced_reachable H).fresh
  have hact : ∀ i, (s'.requester i).loc.active = false := tally_eq_zero.1 h0'
  cases t with
  | main =>
    refine .inr ⟨rfl, fun i => (RequesterLoc.inactive (hact i)).resolve_right fun hl => ?_⟩
    obtain ⟨e, hl', hs⟩ := main_step h
    -- `main` is still creating requesters, and these are in their loops
    obtain ⟨ha, he⟩ : s.main.aborting = false ∧ s.main.enqueued = false := by
      have hle := spawn_readersLeft hf hl'
      have hsame : (s.spawn e.spawn).readersLeft = s'.readersLeft := by
        rw [readersLeft, readersLeft, hs.requester]
      rw [hsame, h0'] at hle
      generalize s.main = l at hl'
      generalize s'.main = l' at hl'
      cases hl' <;> first | exact absurd hle.symm h0 | exact ⟨rfl, rfl⟩
    have hi := not_leftLoop ho H ha he i
    rcases (h.other hf (u := .requester i) (by simp)).2 with h1 | ⟨-, h1 | h1⟩
    · rw [h1, hi] at hl
      cases hl
    · rw [h1] at hl
      cases hl
    · rw [h1] at hl
      cases hl
  | requester i =>
    cases h with
    | @requester _ l e h =>
      have hleft := setRequester_readersLeft s (.requester i) (s.requester i).loc.op l.op e i l
      rw [h0'] at hleft
      rcases h.readers with ⟨-, h1, -⟩ | ⟨-, h1, h2, h3⟩
      · rw [h1] at hleft
        omega
      · rw [h1, h2] at hleft
        have := (phases_reachable H).readers (hf.readersSet (i := i) fun hi => by
          rw [hi] at h
          cases h)
        simp only [Bool.toNat_true, Bool.toNat_false] at hleft
        have hlast : e.last = true := h3.2 (by omega)
        exact .inl ⟨i, rfl, by simp [setRequester, hlast]⟩
  | resolver j => cases h with | resolver h => exact absurd h0' h0
  | logger k => cases h with | logger h => exact absurd h0' h0
  | outsider q => cases h <;> exact absurd h0' h0

theorem readersSet_stmt (h : Stmt cfg s t s') (hm : s.main.readersSet = true) :
    s'.main.readersSet = true := by
  cases t with
  | main =>
    obtain ⟨e, h, -⟩ := main_step h
    generalize s.main = l at h hm
    generalize s'.main = l' at h
    cases h <;> first | rfl | cases hm
  | _ => cases h <;> exact hm

theorem readers_of_set (h : Stmt cfg s t s') (hm : s.main.readersSet = false)
    (hm' : s'.main.readersSet = true) : s'.activeFileReaders = R := by
  cases t with
  | main =>
    obtain ⟨e, h, hs⟩ := main_step h
    rcases h.readers.2 with ⟨-, h1, -⟩ | ⟨h1, -⟩ | ⟨i, -, h1, -⟩
    · exact absurd (hm.symm.trans (h1.symm.trans hm')) nofun
    · rw [hs.readers, h1]
      rfl
    · exact absurd (hm.symm.trans h1) nofun
  | _ => cases h <;> exact absurd (hm.symm.trans hm') nofun

/-- When no reader is left, there was a last one, or none was ever created. -/
theorem exists_last (ho : cfg.outsiders = false) (H : cfg.system.Reachable s)
    (h0 : s.readersLeft = 0) :
    (∃ i, (s.requester i).last = true) ∨ ∀ i, (s.requester i).loc = .failed := by
  induction H with
  | init h =>
    rw [h] at h0
    have h1 := tally_eq_zero.1 h0 ⟨0, cfg.requesters_pos⟩
    cases h1
  | @step s _ s' H h ih =>
    have hf := (synced_reachable H).fresh
    rcases (step_cases h).2 with ⟨t, c, -, h'⟩ | ⟨_, _, _, _, -, -, rfl⟩
    · by_cases hs : s.readersLeft = 0
      · rcases ih hs with ⟨i, hi⟩ | hi
        · exact .inl ⟨i, h'.requester_last hf hi⟩
        · exact .inr fun i => h'.requester_failed hf (hi i)
      · exact (zero_step ho H h' hs h0).imp (fun ⟨i, _, hi⟩ => ⟨i, hi⟩) And.right
    · exact ih h0

/-! ## The runs of the program -/

theorem path_reachable {tr : Run R S} (H : cfg.system.Path .init tr s) : cfg.system.Reachable s :=
  (TransitionSystem.Reachable.init rfl).leads H.leads

/-- `active_file_readers` in a state before and after a step of the program. -/
theorem readers_step (H : cfg.system.Reachable s) {a : Act R S} (h : s.step cfg a = some s') :
    (bringsToZero (s, a, s')).toNat + (s.main.readersSet && decide (s.activeFileReaders = 0)).toNat =
      (s'.main.readersSet && decide (s'.activeFileReaders = 0)).toNat := by
  have hr := (phases_reachable H).readers
  have hr' := (phases_reachable (H.step h)).readers
  have hf := (synced_reachable H).fresh
  unfold bringsToZero
  rcases (step_cases h).2 with ⟨t, c, -, h'⟩ | ⟨_, _, _, _, -, -, rfl⟩
  · by_cases hm : s.main.readersSet = true
    · have hm' := readersSet_stmt h' hm
      rw [hm, hm', hr hm, hr' hm']
      -- who is inactive stays so
      have hz : s.readersLeft = 0 → s'.readersLeft = 0 := fun h0 =>
        tally_eq_zero.2 fun i => h'.inactive hf (tally_eq_zero.1 h0 i)
      by_cases h0 : s.readersLeft = 0
      · simp [h0, hz h0]
      · by_cases h0' : s'.readersLeft = 0 <;> simp [h0, h0']
    · rw [Bool.not_eq_true] at hm
      by_cases hm' : s'.main.readersSet = true
      · have hpos := cfg.requesters_pos
        have hr := readers_of_set h' hm hm'
        simp [hm, hr, hpos.ne']
      · simp [hm, hm']
  · simp only [setQueue, ne_eq, not_and_self, decide_false, Bool.and_false, Bool.toNat_false,
      Nat.zero_add]
    rfl

theorem count_bringsToZero {tr : Run R S} (H : cfg.system.Path .init tr s) :
    tr.countP bringsToZero = (s.main.readersSet && decide (s.activeFileReaders = 0)).toNat := by
  induction H with
  | nil => rfl
  | snoc H h ih =>
    rw [List.countP_append, ih, List.countP_singleton, ← readers_step (path_reachable H) h,
      Nat.add_comm]
    cases bringsToZero _ <;> rfl

/-- Who brings the count to 0 is the last requester, or `main` when no requester was created. -/
theorem bringsToZero_thread (ho : cfg.outsiders = false) (H : cfg.system.Reachable s)
    {a : Act R S} (h : s.step cfg a = some s') (hz : bringsToZero (s, a, s') = true) :
    (∀ i, (s'.requester i).loc.active = false) ∧
    ((∃ i, a.thread = .requester i ∧ (s'.requester i).last = true) ∨
      ∀ i, (s'.requester i).loc = .failed) := by
  simp only [bringsToZero, Bool.and_eq_true, decide_eq_true_eq] at hz
  obtain ⟨hm, h0, h0'⟩ := hz
  rw [(phases_reachable H).readers hm] at h0
  rcases (step_cases h).2 with ⟨t, c, rfl, h'⟩ | ⟨_, _, _, _, -, -, rfl⟩
  · rw [(phases_reachable (H.step h)).readers (readersSet_stmt h' hm)] at h0'
    have h0' : s'.readersLeft = 0 := by exact_mod_cast h0'
    refine ⟨tally_eq_zero.1 h0', ?_⟩
    exact (zero_step ho H h' (by exact_mod_cast h0) h0').imp id And.right
  · rw [← (phases_reachable H).readers hm] at h0
    exact absurd h0' h0

section
variable (H : cfg.system.Reachable s) (h : cfg.system.Leads s s')
include H h

theorem last_leads {i : Fin R} (hi : (s.requester i).last = true) :
    (s'.requester i).last = true := by
  refine h.stable (I := fun s => (s.requester i).last = true) (fun s a s' H h hi => ?_) H hi
  rcases (step_cases h).2 with ⟨t, c, -, h'⟩ | ⟨_, _, _, _, -, -, rfl⟩
  · exact h'.requester_last (synced_reachable H).fresh hi
  · exact hi

theorem failed_leads {i : Fin R} (hi : (s.requester i).loc = .failed) :
    (s'.requester i).loc = .failed := by
  refine h.stable (I := fun s => (s.requester i).loc = .failed) (fun s a s' H h hi => ?_) H hi
  rcases (step_cases h).2 with ⟨t, c, -, h'⟩ | ⟨_, _, _, _, -, -, rfl⟩
  · exact h'.requester_failed (synced_reachable H).fresh hi
  · exact hi

theorem inactive_leads {i : Fin R} (hi : (s.requester i).loc.active = false) :
    (s'.requester i).loc.active = false := by
  refine h.stable (I := fun s => (s.requester i).loc.active = false) (fun s a s' H h hi => ?_) H hi
  rcases (step_cases h).2 with ⟨t, c, -, h'⟩ | ⟨_, _, _, _, -, -, rfl⟩
  · exact h'.inactive (synced_reachable H).fresh hi
  · exact hi

theorem aborting_leads (ha : s.main.aborting = true) : s'.main.aborting = true := by
  refine h.stable (I := fun s => s.main.aborting = true) (fun s a s' H h ha => ?_) H ha
  rcases (step_cases h).2 with ⟨t, c, -, h'⟩ | ⟨_, _, _, _, -, -, rfl⟩
  · exact h'.main_stages.1 ha
  · exact ha

end

/-! ## Who shuts down the queues of the consumers -/

/-- The two queues are freed by the last requester; `main` frees `requester_logfile_queue` too,
after its joins. -/
theorem freed_by (ho : cfg.outsiders = false) (H : cfg.system.Reachable s)
    (ha : s.main.aborting = false) (hq : q.fed = true) (h : s.op t = some (q, .free)) :
    (∃ i, t = .requester i ∧ (s.requester i).last = true) ∨
      t = .main ∧ s.main = .freeRequesterLog ∧ q = .requesterLogfileQueue := by
  cases t with
  | main =>
    simp only [op] at h
    generalize s.main = l at h ha
    cases l <;> cases h
    · cases ha
    · cases hq
    · exact .inr ⟨rfl, rfl, rfl⟩
    · cases hq
  | requester i => exact .inl ⟨i, rfl, (phases_reachable H).freeing i q h⟩
  | resolver j =>
    simp only [op] at h
    generalize (s.resolver j).loc = l at h
    cases l <;> cases h
  | logger k =>
    simp only [op] at h
    generalize s.logger k = l at h
    cases l <;> cases h
  | outsider q' => simp [op, no_outsider ho H] at h

/-- A step that sets the flag is a step of an `array_free`. -/
theorem shutsDown_op (H : cfg.system.Reachable s) {a : Act R S} (h : s.step cfg a = some s')
    (hs : shutsDown q (s, a, s') = true) : s.op a.thread = some (q, .free) := by
  simp only [shutsDown, Bool.and_eq_true, Bool.not_eq_true'] at hs
  obtain ⟨h0, h1⟩ := hs
  rcases (step_cases h).2 with ⟨t, c, rfl, h'⟩ | ⟨q', t, mv, m, rfl, h', rfl⟩
  · rw [h'.queue_eq, switch_arr, h0] at h1
    cases h1
  · by_cases hq : q = q'
    · subst hq
      rw [setQueue_self] at h1
      have h2 := (Monitor.move_shutdown h' h1).resolve_left (by simp [h0])
      rwa [(synced_reachable H).op, opAt_eq_some] at h2
    · rw [setQueue_of_ne m hq, h0] at h1
      cases h1

/-- `hostname_queue` is shut down by a last requester. -/
theorem hostname_shut (ho : cfg.outsiders = false) (H : cfg.system.Reachable s)
    (ha : s.main.aborting = false) (hs : (s.queue .hostnameQueue).arr.shutdown = true) :
    ∃ i, (s.requester i).last = true := by
  induction H with
  | init h =>
    rw [h] at hs
    cases hs
  | @step s a s' H h ih =>
    have hl : cfg.system.Leads s s' := .single h
    have ha0 : s.main.aborting = false := by
      by_contra hn
      exact absurd (ha.symm.trans (aborting_leads H hl (Bool.not_eq_false _ ▸ hn))) nofun
    by_cases h0 : (s.queue .hostnameQueue).arr.shutdown = true
    · obtain ⟨i, hi⟩ := ih ha0 h0
      exact ⟨i, last_leads H hl hi⟩
    · have hop := shutsDown_op H h (q := .hostnameQueue) (by simp [shutsDown, h0, hs])
      rcases freed_by ho H ha0 rfl hop with ⟨i, -, hi⟩ | ⟨-, -, hq⟩
      · exact ⟨i, last_leads H hl hi⟩
      · cases hq

/-- The last requester is in its `array_free` of the one queue or the other, or past both. -/
theorem last_shutsBoth (H : cfg.system.Reachable s) {i : Fin R}
    (hi : (s.requester i).last = true) : s.ShutsBoth (.requester i) := by
  have hact := (phases_reachable H).last i hi i
  have hleft := last_leftLoop H hi
  have hfreed : ∀ q, (s.requester i).hasFreed q = true → (s.queue q).arr.shutdown = true :=
    fun q hq => shutdown_of_freed H (.inr ⟨i, hq⟩)
  have h1 := hfreed .hostnameQueue
  have h2 := hfreed .requesterLogfileQueue
  unfold Requester.hasFreed at h1 h2
  rw [hi] at h1 h2
  simp only [ShutsBoth, op]
  generalize (s.requester i).loc = l at *
  cases l with
  | freeHostname => exact .inl rfl
  | freeRequesterLog => exact .inr ⟨h1 rfl, .inl rfl⟩
  | unlockReaders | finished => exact .inr ⟨h1 rfl, .inr (h2 rfl)⟩
  | failed => cases hleft
  | _ => cases hact

/-- When `main` frees `requester_logfile_queue`, the last requester has shut it down before. -/
theorem shut_before_main (ho : cfg.outsiders = false) (H : cfg.system.Reachable s)
    (hm : s.main = .freeRequesterLog) (hi : ∃ i, (s.requester i).loc ≠ .failed) :
    (s.queue .requesterLogfileQueue).arr.shutdown = true := by
  have hover : ∀ i, (s.requester i).loc.over = true := fun i =>
    (phases_reachable H).joinedRequester i (by rw [hm]; rfl)
  have h0 : s.readersLeft = 0 := tally_eq_zero.2 fun i => RequesterLoc.over_active (hover i)
  rcases exists_last ho H h0 with ⟨k, hk⟩ | hall
  · refine shutdown_of_freed H (.inr ⟨k, ?_⟩)
    have h1 := last_leftLoop H hk
    have h2 := hover k
    unfold Requester.hasFreed
    rw [hk]
    generalize (s.requester k).loc = l at h1 h2
    cases l <;> first | rfl | (cases h1; done) | cases h2
  · obtain ⟨i, hi⟩ := hi
    exact absurd (hall i) hi

variable {tr : Run R S}

/-- The thread of the step that brings the count to 0, when some requester is created. -/
theorem zero_thread (ho : cfg.outsiders = false) (H : cfg.system.Path .init tr s)
    (hi : ∃ i, (s.requester i).loc ≠ .failed) {x : State R S × Act R S × State R S} (hx : x ∈ tr)
    (hz : bringsToZero x = true) :
    ∃ i, x.2.1.thread = .requester i ∧ (s.requester i).last = true := by
  obtain ⟨h1, h2, h3⟩ := H.of_mem hx
  have hr := (TransitionSystem.Reachable.init (S := cfg.system) rfl).leads h1
  rcases (bringsToZero_thread ho hr h2 hz).2 with ⟨i, ht, hl⟩ | hall
  · exact ⟨i, ht, last_leads (hr.step h2) h3 hl⟩
  · obtain ⟨i, hi⟩ := hi
    exact absurd (failed_leads (hr.step h2) h3 (hall i)) hi

theorem lastReader_of_created (ho : cfg.outsiders = false) (H : cfg.system.Path .init tr s)
    (hm : s.main.readersSet = true) (hi : ∃ i, (s.requester i).loc ≠ .failed) :
    s.LastReader cfg tr := by
  have hr := path_reachable H
  have hp := phases_reachable hr
  refine ⟨hp.readers hm, ?_, fun hret => ?_, fun x hx hz => ?_, fun x hx hz y hy q hq hs => ?_,
    fun x hx hz s' hl i q y hq => ?_, fun i q y => not_refused ho hr q _ y⟩
  · rw [count_bringsToZero H, hm]
    by_cases h0 : s.activeFileReaders = 0 <;> simp [h0]
  · rw [hp.readers hm]
    have h0 : s.readersLeft = 0 := tally_eq_zero.2 fun i =>
      RequesterLoc.over_active (hp.joinedRequester i (by rw [hret]; rfl))
    rw [h0]
    rfl
  · obtain ⟨i, ht, hl⟩ := zero_thread ho H hi hx hz
    rw [ht]
    exact last_shutsBoth hr hl
  · obtain ⟨i, ht, hl⟩ := zero_thread ho H hi hx hz
    obtain ⟨h1, h2, h3⟩ := H.of_mem hy
    have hry := (TransitionSystem.Reachable.init (S := cfg.system) rfl).leads h1
    have hly := (TransitionSystem.Leads.single h2).trans h3
    have ha : y.1.main.aborting = false := by
      by_contra hn
      have := aborting_leads hry hly (Bool.not_eq_false _ ▸ hn)
      exact absurd ((MainLoc.not_aborting hm).symm.trans this) nofun
    rcases freed_by ho hry ha hq (shutsDown_op hry h2 hs) with ⟨k, hk, hlast⟩ | ⟨-, hf, rfl⟩
    · rw [ht, hk, hp.last_inj k i (last_leads hry hly hlast) hl]
    · -- `main` finds the flag set
      have hi' : ∃ i, (y.1.requester i).loc ≠ .failed := by
        obtain ⟨i, hi⟩ := hi
        exact ⟨i, fun hf => hi (failed_leads hry hly hf)⟩
      simp [shutsDown, shut_before_main ho hry hf hi'] at hs
  · intro hput
    obtain ⟨h1, h2, h3⟩ := H.of_mem hx
    have hrx := (TransitionSystem.Reachable.init (S := cfg.system) rfl).leads h1
    have hact := (bringsToZero_thread ho hrx h2 hz).1 i
    have hact := inactive_leads (hrx.step h2) hl hact
    exact absurd (hact.symm.trans (RequesterLoc.active_of_op hput nofun)) nofun

/-- When no requester was created, nobody shuts down the two queues. -/
theorem not_lastReader (ho : cfg.outsiders = false) (H : cfg.system.Path .init tr s)
    (hm : s.main.readersSet = true) (hall : ∀ i, (s.requester i).loc = .failed) :
    ¬ s.LastReader cfg tr := by
  intro hL
  have hr := path_reachable H
  have h0 : s.readersLeft = 0 := tally_eq_zero.2 fun i => by rw [hall i]; rfl
  have h1 : s.activeFileReaders = 0 := by rw [hL.readers, h0]; rfl
  have hcount : 0 < tr.countP bringsToZero := by rw [hL.once, if_pos h1]; exact Nat.one_pos
  obtain ⟨x, hx, hz⟩ := List.countP_pos_iff.1 hcount
  have hlast : ∀ i, (s.requester i).last ≠ true := fun i hi => by
    have := last_leftLoop hr hi
    rw [hall i] at this
    cases this
  rcases hL.shuts x hx hz with h | ⟨h, -⟩
  · rcases freed_by ho hr (MainLoc.not_aborting hm) rfl h with ⟨i, -, hi⟩ | ⟨-, -, hq⟩
    · exact hlast i hi
    · cases hq
  · obtain ⟨i, hi⟩ := hostname_shut ho hr (MainLoc.not_aborting hm) h
    exact hlast i hi

/-- The last reader shuts down the queues of the consumers, once, in exactly the runs in which
some creation of a requester has not failed. -/
theorem lastReader_iff (ho : cfg.outsiders = false) (H : cfg.system.Path .init tr s)
    (hm : s.main.readersSet = true) :
    s.LastReader cfg tr ↔ ∃ i, (s.requester i).loc ≠ .failed := by
  constructor
  · intro hL
    by_contra hn
    exact not_lastReader ho H hm (fun i => by_contra fun hi => hn ⟨i, hi⟩) hL
  · exact lastReader_of_created ho H hm

theorem lastReader_sample : ∃ tr s, sample.system.Path .init tr s ∧ s.main = .returned ∧
    s.LastReader sample tr ∧ tr.countP bringsToZero = 1 := by
  have h : ∃ s ∈ schedule sample sampleDns (sampleRun 0 0),
      s.main = .returned ∧ (s.requester 0).loc = .finished := by decide +kernel
  obtain ⟨s, hs, hm, hf⟩ := h
  obtain ⟨i, tr, rfl, hp⟩ := (schedule_reachable hs).path
  have hL : s.LastReader sample tr :=
    (lastReader_iff rfl hp (by rw [hm]; rfl)).2 ⟨0, by rw [hf]; nofun⟩
  exact ⟨tr, s, hp, hm, hL, by rw [hL.once, if_pos (hL.returned hm)]⟩

/-- `main` cannot create its only requester. -/
def noReader : Config 1 1 where
  arraySize := 8
  two_le := two_le_arraySize
  requesters_pos := Nat.one_pos
  resolvers_pos := Nat.one_pos
  files := sample.files
  fs := sample.fs
  answers := sample.answers
  createFails := true

def noReaderRun : List (Act 1 1) :=
  List.replicate 4 (.stmt .main .ok) ++ [.stmt .main .fail, .stmt .main .ok]

theorem lastReader_not_always : ¬ ∀ (cfg : Config 1 1) (tr : Run 1 1) (s : State 1 1),
    cfg.outsiders = false → cfg.system.Path .init tr s → s.main.readersSet = true →
    s.LastReader cfg tr := by
  intro H
  have h : ∃ s ∈ TransitionSystem.exec (step noReader) noReaderRun .init,
      s.main.readersSet = true ∧ ∀ i, (s.requester i).loc = .failed := by decide +kernel
  obtain ⟨s, hs, hm, hall⟩ := h
  obtain ⟨i, tr, rfl, hp⟩ := (TransitionSystem.reachable_exec hs).path
  exact not_lastReader rfl hp hm hall (H noReader tr s rfl hp hm)

end State
end DnsResolver
