import DnsResolver.Threaded.ThreadedOrder
import DnsResolver.Array.ArrayProgress
import DnsResolver.Array.ArrayQuiescence

/-!
# Where the program gets stuck

In a state that cannot go on, every thread waits in a call, for a mutex or for a join (`Stuck`).
Once `main` has created the resolvers no such state is reachable: the log threads and the resolvers
empty their queues, so no requester waits, so `active_file_readers` comes to 0. But `main` puts all
filenames before it creates the first resolver: when `filename_queue` is full and each requester
has come to a full `hostname_queue`, they wait for each other (`Deadlocked`). It takes a data file
with lines for each requester and more lines than `hostname_queue` holds, with a full
`filename_queue` of files still behind them (`Config.Overfilled`). -/

namespace DnsResolver
open Function Tally

variable {R S : Nat} {cfg : Config R S} {s s' : State R S} {t u : Tid R S} {q : QName}

namespace State

/-- A step of a call that waits: it is timed out, finds its condition unchanged, or sleeps on. -/
def Futile (cfg : Config R S) (s : State R S) : Act R S → Prop
  | .call q t mv => mv ≠ .spurious ∧
    ((s.queue q).call t).waiting cfg.arraySize (s.queue q).arr = true
  | .stmt .. => False

/-- Any other step, but for spurious wake-ups. -/
def Productive (cfg : Config R S) (s : State R S) : Act R S → Prop
  | .call q t mv => mv ≠ .spurious ∧
    ((s.queue q).call t).waiting cfg.arraySize (s.queue q).arr = false
  | .stmt .. => True

/-- Some thread can make a step that is not futile, perhaps after a thread that waits has released
the lock of a queue again. -/
def CanProgress (cfg : Config R S) (s : State R S) : Prop :=
  ∃ s', (cfg.system.restrict (Futile cfg)).Leads s s' ∧
    ∃ a s'', Productive cfg s' a ∧ s'.step cfg a = some s''

@[simp] theorem setQueue_setQueue (m m' : Monitor (Tid R S) Str) :
    (s.setQueue q m).setQueue q m' = s.setQueue q m' := by
  simp [setQueue]

@[simp] theorem setQueue_queue : s.setQueue q (s.queue q) = s := by
  simp [setQueue]

theorem step_call {s : State R S} {mv : Move (Tid R S)} {m : Monitor (Tid R S) Str}
    (he : s.ended = false) (h : (s.queue q).move cfg.arraySize t mv = some m) :
    s.step cfg (.call q t mv) = some (s.setQueue q m) := by
  simp [step, he, h]

theorem step_stmt {c : Choice} (he : s.ended = false) (h : s.stmt cfg c t = some s') :
    s.step cfg (.stmt t c) = some s' := by
  simp [step, he, h]

/-- Moves on a queue are steps of the program. -/
theorem call_leads {ok : Monitor (Tid R S) Str → Monitor.Act (Tid R S) Str → Prop}
    {ok' : State R S → Act R S → Prop} {m : Monitor (Tid R S) Str}
    (hok : ∀ s a, ok (s.queue q) a → ∃ t mv, a = .move t mv ∧ ok' s (.call q t mv))
    (he : s.ended = false)
    (h : ((Monitor.system (Tid R S) Str cfg.arraySize).restrict ok).Leads (s.queue q) m) :
    (cfg.system.restrict ok').Leads s (s.setQueue q m) := by
  induction h with
  | refl =>
    rw [setQueue_queue]
    exact .refl
  | @tail m m' _ h ih =>
    obtain ⟨a, ha, h⟩ := h
    rw [← setQueue_self (s := s) (q := q) m] at ha
    obtain ⟨t, mv, rfl, hok'⟩ := hok _ _ ha
    have h : ((s.setQueue q m).queue q).move cfg.arraySize t mv = some m' := by
      rwa [setQueue_self]
    have hstep : (s.setQueue q m).step cfg (.call q t mv) = _ := step_call he h
    rw [setQueue_setQueue] at hstep
    have hs : (cfg.system.restrict ok').step (s.setQueue q m) (.call q t mv)
        (s.setQueue q m') := ⟨hok', hstep⟩
    exact ih.tail hs

/-- Futile moves on a queue are futile steps of the program. -/
theorem futile_leads {m : Monitor (Tid R S) Str} (he : s.ended = false)
    (h : ((Monitor.system (Tid R S) Str cfg.arraySize).restrict
      (Monitor.Futile cfg.arraySize)).Leads (s.queue q) m) :
    (cfg.system.restrict (Futile cfg)).Leads s (s.setQueue q m) := by
  refine call_leads (fun s a ha => ?_) he h
  cases a with
  | move t mv => exact ⟨t, mv, rfl, ha⟩
  | _ => cases ha

theorem canProgress_of_stmt {c : Choice} (he : s.ended = false) (h : s.stmt cfg c t = some s') :
    s.CanProgress cfg :=
  ⟨s, .refl, .stmt t c, s', trivial, step_stmt he h⟩

/-- A call that is in progress and does not wait goes on. -/
theorem canProgress_of_call (H : cfg.system.Reachable s) (he : s.ended = false)
    (hr : ((s.queue q).call t).running = true)
    (hw : ((s.queue q).call t).waiting cfg.arraySize (s.queue q).arr = false) :
    s.CanProgress cfg := by
  obtain ⟨m, hm, t', mv, m', hmv, hw', h⟩ := (queue_inv H q).progress hr hw
  have h : ((s.setQueue q m).queue q).move cfg.arraySize t' mv = some m' := by rwa [setQueue_self]
  have hstep : (s.setQueue q m).step cfg (.call q t' mv) = _ := step_call he h
  refine ⟨s.setQueue q m, futile_leads he hm, .call q t' mv, _, ?_, hstep⟩
  rw [Productive, setQueue_self]
  exact ⟨hmv, hw'⟩

/-! ## Stuck states -/

/-- No statement is enabled, and every call waits. -/
structure Stuck (cfg : Config R S) (s : State R S) : Prop where
  stmt : ∀ t c, s.stmt cfg c t = none
  waits : ∀ t q p, s.op t = some (q, p) →
    ((s.queue q).call t).waiting cfg.arraySize (s.queue q).arr = true

/-- A thread goes on when its call has returned. -/
theorem stmt_of_done (H : cfg.system.Reachable s) (ht : ∀ q', t ≠ .outsider q')
    {p : Op Str} (hop : s.op t = some (q, p)) (hd : ((s.queue q).call t).done = true) :
    ∃ s', s.stmt cfg .ok t = some s' := by
  have hc := (synced_reachable H).inCall t q p hop
  have h := Call.done_cases hc hd
  cases t with
  | main =>
    suffices hs : (mainStep cfg s .ok s.main).isSome = true by
      obtain ⟨r, hr⟩ := Option.isSome_iff_exists.1 hs
      exact ⟨_, by rw [stmt, hr]; rfl⟩
    have hop : s.main.op = some (q, p) := hop
    generalize s.main = l at hop
    cases l with
    | abortFree q' qs | freeFilename | freeRequesterLog | freeResolverLog =>
      cases hop
      simp [mainStep, h]
    | putFile i x =>
      cases hop
      obtain ⟨r, hr⟩ := h
      cases r <;> simp [mainStep, hr]
    | _ => cases hop
  | requester i =>
    suffices hs : (requesterStep cfg s i .ok (s.requester i).loc).isSome = true by
      obtain ⟨r, hr⟩ := Option.isSome_iff_exists.1 hs
      exact ⟨_, by rw [stmt, hr]; rfl⟩
    have hop : (s.requester i).loc.op = some (q, p) := hop
    generalize (s.requester i).loc = l at hop
    cases l with
    | getFile =>
      cases hop
      obtain ⟨r, hr⟩ := h
      cases r <;> simp [requesterStep, hr]
    | putLog | putHost =>
      cases hop
      obtain ⟨r, hr⟩ := h
      cases r <;> simp [requesterStep, hr]
    | freeHostname | freeRequesterLog =>
      cases hop
      simp [requesterStep, h]
    | _ => cases hop
  | resolver j =>
    suffices hs : (resolverStep cfg s j .ok (s.resolver j).loc).isSome = true by
      obtain ⟨r, hr⟩ := Option.isSome_iff_exists.1 hs
      exact ⟨_, by rw [stmt, hr]; rfl⟩
    have hop : (s.resolver j).loc.op = some (q, p) := hop
    generalize (s.resolver j).loc = l at hop
    cases l with
    | getHost =>
      cases hop
      obtain ⟨r, hr⟩ := h
      cases r <;> simp [resolverStep, hr]
    | putRecord =>
      cases hop
      obtain ⟨r, hr⟩ := h
      cases r <;> simp [resolverStep, hr]
    | _ => cases hop
  | logger k =>
    suffices hs : (loggerStep s k (s.logger k)).isSome = true by
      obtain ⟨r, hr⟩ := Option.isSome_iff_exists.1 hs
      exact ⟨_, by rw [stmt, hr]; rfl⟩
    have hop : (s.logger k).op k = some (q, p) := hop
    generalize s.logger k = l at hop
    cases l with
    | get =>
      cases hop
      obtain ⟨r, hr⟩ := h
      cases r <;> simp [loggerStep, hr]
    | _ => cases hop
  | outsider q' => exact absurd rfl (ht q')

theorem stuck_of_not_canProgress (ho : cfg.outsiders = false) (H : cfg.system.Reachable s)
    (he : s.ended = false) (h : ¬ s.CanProgress cfg) : s.Stuck cfg := by
  have hstmt : ∀ t c, s.stmt cfg c t = none := fun t c => by
    cases hs : s.stmt cfg c t with
    | none => rfl
    | some s' => exact absurd (canProgress_of_stmt he hs) h
  refine ⟨hstmt, fun t q p hop => ?_⟩
  have hc := (synced_reachable H).inCall t q p hop
  rcases Call.running_of_op hc with hr | hd
  · cases hw : ((s.queue q).call t).waiting cfg.arraySize (s.queue q).arr with
    | true => rfl
    | false => exact absurd (canProgress_of_call H he hr hw) h
  · have ht : ∀ q', t ≠ .outsider q' := fun q' hq => by
      simp [hq, op, no_outsider ho H] at hop
    obtain ⟨s', hs⟩ := stmt_of_done H ht hop hd
    cases (hstmt t .ok).symm.trans hs

namespace Stuck
variable (J : s.Stuck cfg) (H : cfg.system.Reachable s)
include J H

theorem put {x : Str} (hop : s.op t = some (q, .put x)) :
    (s.queue q).arr.shutdown = false ∧ (s.queue q).arr.empty = false := by
  obtain ⟨h1, h2⟩ := Call.waiting_put ((synced_reachable H).inCall t q _ hop) (J.waits t q _ hop)
  exact ⟨h1, (queue_inv H q).not_empty_of_full cfg.two_le h2⟩

theorem get (hop : s.op t = some (q, .get)) :
    (s.queue q).arr.shutdown = false ∧ (s.queue q).arr.empty = true :=
  Call.waiting_get ((synced_reachable H).inCall t q _ hop) (J.waits t q _ hop)

/-- Where `array_free` waits nobody gets any more, so it waits for the queue to be emptied. -/
theorem free (hop : s.op t = some (q, .free)) :
    (s.queue q).arr.shutdown = true ∧ (s.queue q).arr.empty = false := by
  obtain ⟨h1, h2⟩ := Call.waiting_free ((synced_reachable H).inCall t q _ hop) (J.waits t q _ hop)
    ((queue_inv H q).asserts t)
  refine ⟨h1, h2.resolve_right fun h3 => ?_⟩
  have hcount : (s.queue q).arr.activeGetters = tally Call.counted (s.queue q).call :=
    Monitor.activeGetters_exact (queue_reachable H q)
  have hnone : tally Call.counted (s.queue q).call = 0 := by
    refine tally_eq_zero.2 fun u => ?_
    cases hu : ((s.queue q).call u).counted with
    | false => rfl
    | true =>
      have hop' : ((s.queue q).call u).op = some .get := by
        generalize (s.queue q).call u = c at hu
        cases c <;> first | rfl | cases hu
      rw [(synced_reachable H).op q u, opAt_eq_some] at hop'
      exact absurd (h1.symm.trans (J.get H hop').1) nofun
  omega

/-! ### The threads -/

omit H in
theorem logger {k : Logger} (hk : s.logger k ≠ .idle) :
    s.logger k = .get ∨ s.logger k = .finished := by
  have h := J.stmt (.logger k) .ok
  simp only [State.stmt, Option.map_eq_none_iff] at h
  generalize s.logger k = l at *
  cases l with
  | idle => exact absurd rfl hk
  | get => exact .inl rfl
  | finished => exact .inr rfl
  | _ => cases h

/-- A log thread leaves its queue empty. -/
theorem logger_empty {k : Logger} (hk : s.logger k ≠ .idle) :
    (s.queue k.queue).arr.empty = true := by
  rcases J.logger hk with h | h
  · have hop : s.op (.logger k) = some (k.queue, .get) := by rw [op, h]; rfl
    exact (J.get H hop).2
  · have hl : s.Left k.queue := by cases k <;> exact h
    exact (queue_inv H _).empty_iff.2 (drained_of_left H hl).2

/-- No put waits on the queue of a log thread, and no `array_free`. -/
theorem not_log {k : Logger} {p : Op Str} (hk : s.logger k ≠ .idle)
    (hop : s.op t = some (k.queue, p)) (hp : p ≠ .get) : False := by
  have h := J.logger_empty H hk
  cases p with
  | put x => exact absurd (h.symm.trans (J.put H hop).2) nofun
  | get => exact hp rfl
  | free => exact absurd (h.symm.trans (J.free H hop).2) nofun

theorem resolver {j : Fin S} (hans : ∀ host, ∃ a, cfg.answers host a = true)
    (hj : (s.resolver j).loc ≠ .idle) (hk : s.logger .resolverLog ≠ .idle) :
    (s.resolver j).loc = .getHost ∨ (s.resolver j).loc = .finished := by
  have h := J.stmt (.resolver j)
  simp only [State.stmt, Option.map_eq_none_iff] at h
  generalize hl : (s.resolver j).loc = l at *
  cases l with
  | idle => exact absurd rfl hj
  | getHost => exact .inl rfl
  | finished => exact .inr rfl
  | resolve x =>
    obtain ⟨a, ha⟩ := hans x.bytes
    have h := h (.answer a)
    cases a <;> simp [resolverStep, ha] at h
  | putRecord x y =>
    have hop : s.op (.resolver j) = some (Logger.resolverLog.queue, .put y) := by rw [op, hl]; rfl
    exact (J.not_log H hk hop (by simp)).elim
  | _ => cases h .ok

/-- The resolvers leave `hostname_queue` empty. -/
theorem hostname_empty {j : Fin S} (hans : ∀ host, ∃ a, cfg.answers host a = true)
    (hj : (s.resolver j).loc ≠ .idle) (hk : s.logger .resolverLog ≠ .idle) :
    (s.queue .hostnameQueue).arr.empty = true := by
  rcases J.resolver H hans hj hk with h | h
  · have hop : s.op (.resolver j) = some (.hostnameQueue, .get) := by rw [op, h]; rfl
    exact (J.get H hop).2
  · exact (queue_inv H _).empty_iff.2 (drained_of_left H (q := .hostnameQueue) ⟨j, h⟩).2

/-- A requester waits in `array_get`, for room in `hostname_queue`, or for the mutex, or it is
about to be joined. -/
theorem requester {i : Fin R} (hi : (s.requester i).loc ≠ .idle)
    (hk : s.logger .requesterLog ≠ .idle)
    (hq : ∀ t, s.op t ≠ some (.hostnameQueue, .free)) :
    (s.requester i).loc = .getFile ∨ (∃ r x, (s.requester i).loc = .putHost r x) ∨
    ((s.requester i).loc = .lockReaders ∧ s.fileReaderMutex ≠ none) ∨
    (s.requester i).loc.over = true := by
  have h := J.stmt (.requester i)
  simp only [State.stmt, Option.map_eq_none_iff] at h
  generalize hl : (s.requester i).loc = l at *
  cases l with
  | idle => exact absurd rfl hi
  | failed | finished => exact .inr (.inr (.inr rfl))
  | getFile => exact .inl rfl
  | putHost r x => exact .inr (.inl ⟨r, x, rfl⟩)
  | lockReaders =>
    refine .inr (.inr (.inl ⟨rfl, fun hm => ?_⟩))
    simpa [requesterStep, hm] using h .ok
  | putLog r l x =>
    have hop : s.op (.requester i) = some (Logger.requesterLog.queue, .put x) := by
      rw [op, hl]
      rfl
    exact (J.not_log H hk hop (by simp)).elim
  | freeRequesterLog =>
    have hop : s.op (.requester i) = some (Logger.requesterLog.queue, .free) := by
      rw [op, hl]
      rfl
    exact (J.not_log H hk hop (by simp)).elim
  | freeHostname =>
    have hop : s.op (.requester i) = some (.hostnameQueue, .free) := by rw [op, hl]; rfl
    exact absurd hop (hq _)
  | openFile f =>
    have h := h .ok
    simp only [requesterStep] at h
    cases hf : cfg.fs f.bytes <;> simp [hf] at h
  | readLine r =>
    have h := h .ok
    simp only [requesterStep] at h
    cases hg : getline r.rest with
    | none => simp [hg] at h
    | some p => simp only [hg] at h; split at h <;> cases h
  | decrement =>
    have h := h .ok
    simp only [requesterStep] at h
    split at h <;> cases h
  | _ => cases h .ok

end Stuck

/-! ## Before and after the creation of the resolvers -/

/-- `main` waits to put a filename, every requester waits to put a hostname, there are no resolvers
yet, and the log threads wait for work. -/
structure Deadlocked (cfg : Config R S) (s : State R S) : Prop where
  main : ∃ i x, s.main = .putFile i x
  requester : ∀ i, ∃ r x, (s.requester i).loc = .putHost r x
  resolver : ∀ j, (s.resolver j).loc = .idle
  logger : ∀ k, s.logger k = .get
  waits : ∀ t q p, s.op t = some (q, p) →
    ((s.queue q).call t).waiting cfg.arraySize (s.queue q).arr = true

theorem not_aborting (ha : cfg.allocFails = false) (hc : cfg.createFails = false)
    (H : cfg.system.Reachable s) : s.main.aborting = false := by
  induction H with
  | init h =>
    rw [h]
    rfl
  | @step s a s' H h ih =>
    rcases (step_cases h).2 with ⟨t, c, -, h'⟩ | ⟨q, t, mv, m, -, -, rfl⟩
    · by_cases ht : t = .main
      · subst ht
        obtain ⟨e, hst, -⟩ := main_step h'
        generalize s.main = l, s'.main = l' at hst ih
        cases hst with
        | createLogger_fail h0 => exact absurd (hc.symm.trans h0) nofun
        | allocTables_fail h0 => exact absurd (ha.symm.trans h0) nofun
        | abort | exit | abortFree => cases ih
        | _ => rfl
      · have hm : s'.main = s.main := h'.other (synced_reachable H).fresh (u := .main) (Ne.symm ht)
        rwa [hm]
    · exact ih

end State

theorem MainLoc.created_of_enqueued {l : MainLoc} (h : l.enqueued = true) :
    (∀ k, l.toCreateLogger k = false) ∧ (∀ i, l.toCreateRequester i = false) ∧
    (∀ j, l.toCreateResolver j = false) ∧ l.readersSet = true := by
  cases l <;> first | exact ⟨fun _ => rfl, fun _ => rfl, fun _ => rfl, rfl⟩ | cases h

theorem RequesterLoc.holdsMutex_over {l : RequesterLoc} (h : l.over = true) :
    l.holdsMutex = false := by
  cases l <;> first | rfl | cases h

/-! ## Requesters that were created or not -/

theorem MainStep.createdRequester {l l' : MainLoc} (h : MainStep cfg s l l' e) {i : Fin R}
    (hi : l'.toCreateRequester i = false) : l.toCreateRequester i = false ∨
      e.spawn = .requester i true ∨ e.spawn = .failed i := by
  cases h with
  | @createRequester k hk =>
    simp only [MainLoc.toCreateRequester, decide_eq_false_iff_not, not_le] at hi ⊢
    rcases Nat.lt_succ_iff_lt_or_eq.1 hi with hi | hi
    · exact .inl hi
    · exact .inr (.inl (by simp [← hi]))
  | @createFailed k hk =>
    simp only [MainLoc.toCreateRequester, decide_eq_false_iff_not, not_le] at hi ⊢
    rcases Nat.lt_succ_iff_lt_or_eq.1 hi with hi | hi
    · exact .inl hi
    · exact .inr (.inr (by simp [← hi]))
  | @requestersCreated k hk =>
    left
    simpa [MainLoc.toCreateRequester] using i.2.trans_le hk
  | _ => simp_all [MainLoc.toCreateRequester]

theorem RequesterLoc.over_cases {l : RequesterLoc} (h : l.over = true) :
    l = .finished ∨ l = .failed := by
  cases l <;> first | exact .inl rfl | exact .inr rfl | cases h

namespace State

/-- When `main` is past a requester, that one runs, or its creation has failed. -/
theorem created_requester (H : cfg.system.Reachable s) {i : Fin R}
    (hi : s.main.toCreateRequester i = false) : (s.requester i).loc ≠ .idle := by
  induction H with
  | init h =>
    rw [h] at hi
    cases hi
  | step H h ih =>
    have hf := (synced_reachable H).fresh
    rcases (step_cases h).2 with ⟨t, c, -, h'⟩ | ⟨_, _, _, _, -, -, rfl⟩
    · cases h' with
      | main hl =>
        simp only [perform_spawn]
        rcases hl.createdRequester hi with h1 | he | he
        · rcases (spawn_requester hf hl i).2 with h2 | ⟨h2, -, -⟩
          · rw [h2]
            exact ih h1
          · exact absurd h2 (ih h1)
        · simp [he, spawn]
        · simp [he, spawn]
      | @requester k _ _ hl =>
        by_cases hik : i = k
        · subst hik
          simpa using hl.running.1
        · simpa [setRequester_of_ne _ _ hik] using ih hi
      | _ => exact ih hi
    · exact ih hi

variable (J : s.Stuck cfg) (H : cfg.system.Reachable s)

section
include J H

/-- Nobody holds `file_reader_mutex` for long. -/
theorem Stuck.mutex_free (hr : ∀ i, (s.requester i).loc ≠ .idle)
    (hk : s.logger .requesterLog ≠ .idle) (hq : ∀ t, s.op t ≠ some (.hostnameQueue, .free)) :
    s.fileReaderMutex = none := by
  cases hm : s.fileReaderMutex with
  | none => rfl
  | some u =>
    obtain ⟨k, -, hh⟩ := ((phases_reachable H).mutex u).1 hm
    rcases J.requester H (hr k) hk hq with h | ⟨r, x, h⟩ | ⟨h, -⟩ | h
    · rw [h] at hh
      cases hh
    · rw [h] at hh
      cases hh
    · rw [h] at hh
      cases hh
    · exact absurd (hh.symm.trans (RequesterLoc.holdsMutex_over h)) nofun

/-- A requester waits in `array_get` or for room in `hostname_queue`, or it is about to be joined. -/
theorem Stuck.requester_over (hr : ∀ i, (s.requester i).loc ≠ .idle)
    (hk : s.logger .requesterLog ≠ .idle) (hq : ∀ t, s.op t ≠ some (.hostnameQueue, .free))
    (i : Fin R) : (s.requester i).loc = .getFile ∨ (∃ r x, (s.requester i).loc = .putHost r x) ∨
      (s.requester i).loc.over = true := by
  rcases J.requester H (hr i) hk hq with h | h | ⟨-, h⟩ | h
  · exact .inl h
  · exact .inr (.inl h)
  · exact absurd (J.mutex_free H hr hk hq) h
  · exact .inr (.inr h)

/-- With threads of both kinds `main` does not get stuck any more. -/
theorem Stuck.returned_of_created (hans : ∀ host, ∃ a, cfg.answers host a = true)
    (hlast : s.readersLeft = 0 → ∃ i, (s.requester i).last = true) (hm : s.main.enqueued = true)
    (hi : ∃ i, (s.requester i).loc ≠ .failed) (hj : ∃ j, (s.resolver j).loc ≠ .idle) :
    s.main = .returned := by
  obtain ⟨i₀, hi⟩ := hi
  obtain ⟨j₀, hj⟩ := hj
  have hab : s.main.aborting = false := by
    generalize s.main = l at hm
    cases l <;> first | rfl | cases hm
  obtain ⟨hl, hr, -, -⟩ := MainLoc.created_of_enqueued hm
  have hk : ∀ k, s.logger k ≠ .idle := fun k => created_logger H (hl k) hab
  have hr : ∀ i : Fin R, (s.requester i).loc ≠ .idle := fun i => created_requester H (hr i)
  have hhost := J.hostname_empty H hans hj (hk _)
  have hfree : ∀ t, s.op t ≠ some (.hostnameQueue, .free) := fun t hop =>
    absurd (hhost.symm.trans (J.free H hop).2) (by simp)
  have hreq : ∀ i, (s.requester i).loc = .getFile ∨ (s.requester i).loc.over = true := fun i => by
    rcases J.requester_over H hr (hk _) hfree i with h | ⟨r, x, h⟩ | h
    · exact .inl h
    · have hop : s.op (.requester i) = some (.hostnameQueue, .put x) := by rw [op, h]; rfl
      exact absurd (hhost.symm.trans (J.put H hop).2) (by simp)
    · exact .inr h
  have hget : ∀ i, (s.requester i).loc = .getFile →
      (s.queue .filenameQueue).arr.shutdown = false := fun i h => by
    have hop : s.op (.requester i) = some (.filenameQueue, .get) := by rw [op, h]; rfl
    exact (J.get H hop).1
  have hstmt := J.stmt .main .ok
  simp only [State.stmt, Option.map_eq_none_iff] at hstmt
  cases hmain : s.main with
  | freeFilename =>
    have hop : s.op .main = some (.filenameQueue, .free) := by rw [op, hmain]; rfl
    obtain ⟨h1, h2⟩ := J.free H hop
    rcases hreq i₀ with h | h
    · exact absurd (h1.symm.trans (hget _ h)) (by simp)
    · have hd := drained_of_left H (q := .filenameQueue) ⟨i₀, by
        generalize (s.requester i₀).loc = l at h hi
        cases l <;> first | rfl | exact absurd rfl hi | cases h⟩
      exact absurd (h2.symm.trans ((queue_inv H _).empty_iff.2 hd.2)) (by simp)
  | joinRequester i =>
    have hsh := shutdown_of_freed H (q := .filenameQueue) (.inl (by rw [hmain]; rfl))
    rw [hmain] at hstmt
    simp only [mainStep] at hstmt
    split at hstmt
    · rcases hreq ⟨i, by assumption⟩ with h | h
      · exact absurd (hsh.symm.trans (hget _ h)) (by simp)
      · rw [if_pos (RequesterLoc.over_cases h)] at hstmt
        cases hstmt
    · cases hstmt
  | joinResolver j =>
    have hover : ∀ i : Fin R, (s.requester i).loc.over = true := fun i =>
      (phases_reachable H).joinedRequester i (by rw [hmain]; rfl)
    obtain ⟨i, hlast⟩ := hlast (tally_eq_zero.2 fun i => RequesterLoc.over_active (hover i))
    have hsh := shutdown_of_freed H (q := .hostnameQueue) (.inr ⟨i, by
      have hi := hover i
      unfold Requester.hasFreed
      rw [hlast]
      generalize (s.requester i).loc = l at hi
      cases l <;> first | rfl | cases hi⟩)
    rw [hmain] at hstmt
    simp only [mainStep] at hstmt
    split at hstmt
    · by_cases hidle : (s.resolver ⟨j, by assumption⟩).loc = .idle
      · rw [if_pos (.inr hidle)] at hstmt
        cases hstmt
      · rcases J.resolver H hans hidle (hk _) with h | h
        · have hop : s.op (.resolver ⟨j, by assumption⟩) = some (.hostnameQueue, .get) := by
            rw [op, h]
            rfl
          exact absurd (hsh.symm.trans (J.get H hop).1) (by simp)
        · rw [if_pos (.inl h)] at hstmt
          cases hstmt
    · cases hstmt
  | freeRequesterLog =>
    have hop : s.op .main = some (Logger.requesterLog.queue, .free) := by rw [op, hmain]; rfl
    exact (J.not_log H (hk _) hop (by simp)).elim
  | freeResolverLog =>
    have hop : s.op .main = some (Logger.resolverLog.queue, .free) := by rw [op, hmain]; rfl
    exact (J.not_log H (hk _) hop (by simp)).elim
  | joinLogger k =>
    have hsh := shutdown_of_freed H (q := k.queue) (.inl (by rw [hmain]; cases k <;> rfl))
    rw [hmain] at hstmt
    rcases J.logger (hk k) with h | h
    · have hop : s.op (.logger k) = some (k.queue, .get) := by rw [op, h]; rfl
      exact absurd (hsh.symm.trans (J.get H hop).1) (by simp)
    · simp [mainStep, h] at hstmt
  | returned => rfl
  | _ =>
    rw [hmain] at hm
    cases hm

theorem Stuck.requester_waits (hcr : cfg.createFails = false)
    (hi : ∀ i, (s.requester i).loc ≠ .idle) (hk : s.logger .requesterLog ≠ .idle)
    (hq : ∀ t, s.op t ≠ some (.hostnameQueue, .free)) (i : Fin R) :
    (s.requester i).loc = .getFile ∨ (∃ r x, (s.requester i).loc = .putHost r x) ∨
    (s.requester i).loc = .finished := by
  rcases J.requester_over H hi hk hq i with h | h | h
  · exact .inl h
  · exact .inr (.inl h)
  · have hf := (created_reachable hcr H).failed i
    exact .inr (.inr ((RequesterLoc.over_cases h).resolve_right hf))

end

variable (ha : cfg.allocFails = false) (hc : cfg.createFails = false)
  (hans : ∀ host, ∃ a, cfg.answers host a = true)
include J H ha hc hans

omit ha in
/-- Once `main` creates no more threads it does not get stuck. -/
theorem Stuck.not_enqueued (hm : s.main.enqueued = true) : s.main = .returned := by
  have hcr := created_reachable hc H
  obtain ⟨-, -, hv, hset⟩ := MainLoc.created_of_enqueued hm
  exact J.returned_of_created H hans (hcr.last hset) hm
    ⟨⟨0, cfg.requesters_pos⟩, hcr.failed _⟩ ⟨⟨0, cfg.resolvers_pos⟩, hcr.resolver _ (hv _)⟩

omit hans in
/-- While `main` waits to put a filename every requester waits to put a hostname. -/
theorem Stuck.deadlocked_putFile (ho : cfg.outsiders = false) {i : Nat} {x : Str}
    (hm : s.main = .putFile i x) : s.Deadlocked cfg := by
  have hab := not_aborting ha hc H
  have hk : ∀ k, s.logger k ≠ .idle := fun k => created_logger H (by rw [hm]; rfl) hab
  have hr : ∀ i : Fin R, (s.requester i).loc ≠ .idle := fun i =>
    (created_reachable hc H).requester i (by rw [hm]; rfl)
  have hop : s.op .main = some (.filenameQueue, .put x) := by rw [op, hm]; rfl
  obtain ⟨h1, h2⟩ := J.put H hop
  have hleft : ∀ i, (s.requester i).loc.leftLoop = false := fun i => by
    cases h : (s.requester i).loc.leftLoop with
    | false => rfl
    | true => exact absurd (h1.symm.trans (drained_of_left H (q := .filenameQueue) ⟨i, h⟩).1) (by simp)
  have hfree : ∀ t, s.op t ≠ some (.hostnameQueue, .free) := fun t hop => by
    cases t with
    | main => rw [op, hm] at hop; cases hop
    | requester i =>
      have hl := hleft i
      have hop : (s.requester i).loc.op = some (.hostnameQueue, .free) := hop
      generalize (s.requester i).loc = l at hl hop
      cases l with
      | freeHostname => cases hl
      | _ => cases hop
    | resolver j =>
      have hop : (s.resolver j).loc.op = some (.hostnameQueue, .free) := hop
      generalize (s.resolver j).loc = l at hop
      cases l <;> cases hop
    | logger k =>
      have hop : (s.logger k).op k = some (.hostnameQueue, .free) := hop
      generalize s.logger k = l at hop
      cases k <;> cases l <;> cases hop
    | outsider q => simp [op, no_outsider ho H] at hop
  have hreq : ∀ i, ∃ r x, (s.requester i).loc = .putHost r x := fun i => by
    rcases J.requester_waits H hc hr (hk _) hfree i with h | h | h
    · have hop : s.op (.requester i) = some (.filenameQueue, .get) := by rw [op, h]; rfl
      exact absurd (h2.symm.trans (J.get H hop).2) (by simp)
    · exact h
    · have hl := hleft i
      rw [h] at hl
      cases hl
  refine ⟨⟨i, x, hm⟩, hreq, fun j => (synced_reachable H).fresh.resolver j (by rw [hm]; rfl),
    fun k => (J.logger (hk k)).resolve_right fun h => ?_, J.waits⟩
  -- a log thread has not left its loop, because nobody has shut down its queue
  have hl : s.Left k.queue := by cases k <;> exact h
  have hsh := mayShut_reachable ho H (drained_of_left H hl).1
  cases k with
  | requesterLog =>
    obtain ⟨r, y, hy⟩ := hreq ⟨0, cfg.requesters_pos⟩
    have := (hsh.resolve_left (by rw [hab]; simp)) ⟨0, cfg.requesters_pos⟩
    rw [hy] at this
    cases this
  | resolverLog =>
    have := hsh.resolve_left (by rw [hab]; simp)
    rw [hm] at this
    cases this

/-- The only way to get stuck. -/
theorem Stuck.deadlocked (ho : cfg.outsiders = false) (hm : s.main ≠ .returned) :
    s.Deadlocked cfg := by
  have hstmt := J.stmt .main .ok
  simp only [State.stmt, Option.map_eq_none_iff] at hstmt
  have hab := not_aborting ha hc H
  cases hmain : s.main with
  | putFile i x => exact J.deadlocked_putFile H ha hc ho hmain
  | abort | abortFree | exited =>
    rw [hmain] at hab
    cases hab
  | createFailed i => exact absurd hmain ((created_reachable hc H).main i)
  | setReaders =>
    have hmutex : s.fileReaderMutex = none := by
      cases hx : s.fileReaderMutex with
      | none => rfl
      | some u =>
        obtain ⟨k, -, hh⟩ := ((phases_reachable H).mutex u).1 hx
        rw [(synced_reachable H).fresh.requester k (by rw [hmain]; rfl)] at hh
        cases hh
    simp [hmain, mainStep, hmutex] at hstmt
  | createLogger | allocTables | fileRefused | dupFile =>
    rw [hmain] at hstmt
    cases hstmt
  | createRequester | createResolver =>
    rw [hmain] at hstmt
    simp only [mainStep] at hstmt
    split at hstmt <;> cases hstmt
  | enqueue i =>
    rw [hmain] at hstmt
    simp only [mainStep] at hstmt
    cases hf : cfg.files[i]? with
    | none => simp [hf] at hstmt
    | some name =>
      simp only [hf] at hstmt
      split at hstmt <;> cases hstmt
  | _ => exact absurd (J.not_enqueued H hc hans (by rw [hmain]; rfl)) hm

/-! ## A deadlock is for ever -/

namespace Deadlocked
omit J H ha hc hans
variable (D : s.Deadlocked cfg) (H : cfg.system.Reachable s)

/-- A futile step changes only the lock and the sleep of its queue. -/
theorem step {a : Act R S} (D : s.Deadlocked cfg) (hf : Futile cfg s a)
    (h : s.step cfg a = some s') : s'.Deadlocked cfg := by
  rcases (step_cases h).2 with ⟨t, c, rfl, -⟩ | ⟨q, t, mv, m, rfl, h', rfl⟩
  · exact hf.elim
  · obtain ⟨-, hsame⟩ := Monitor.futile_move h' hf.1 hf.2
    refine ⟨D.main, D.requester, D.resolver, D.logger, fun u q' p hop => ?_⟩
    rw [setQueue_op] at hop
    by_cases hq : q' = q
    · subst hq
      rw [setQueue_self, (hsame u).1]
      exact D.waits u q' p hop
    · rw [setQueue_of_ne m hq]
      exact D.waits u q' p hop

theorem not_productive (ho : cfg.outsiders = false) (D : s.Deadlocked cfg)
    (H : cfg.system.Reachable s) {a : Act R S} (hp : Productive cfg s a) :
    s.step cfg a = none := by
  cases h : s.step cfg a with
  | none => rfl
  | some s' =>
    rcases (step_cases h).2 with ⟨t, c, rfl, h'⟩ | ⟨q, t, mv, m, rfl, h', -⟩
    · have hdone : ∀ {q p}, s.op t = some (q, p) → False := fun {q p} hop => by
        have hw := Call.running_of_waiting (D.waits t q p hop)
        have hd := h'.done hop
        generalize (s.queue q).call t = c at hw hd
        cases c <;> first | (cases hd; done) | cases hw
      cases h' with
      | main =>
        obtain ⟨i, x, hm⟩ := D.main
        exact (hdone (by rw [op, hm]; rfl)).elim
      | @requester i =>
        obtain ⟨r, x, hl⟩ := D.requester i
        exact (hdone (by rw [op, hl]; rfl)).elim
      | @resolver j _ _ hst => 
        have := hst.not_over
        rw [D.resolver j] at this
        cases this
      | @logger k => exact (hdone (by rw [op, D.logger k]; rfl)).elim
      | outsiderFree h0 => exact absurd (ho.symm.trans h0) (by simp)
      | outsiderDone h0 => exact absurd (ho.symm.trans h0) (by simp)
    · cases hop : ((s.queue q).call t).op with
      | none =>
        rw [Call.op_eq_none] at hop
        cases mv <;> simp [Monitor.move, Monitor.wakeSelf, hop, callStep, Call.asleepOn] at h'
      | some p =>
        rw [(synced_reachable H).op q t, opAt_eq_some] at hop
        exact absurd ((D.waits t q p hop).symm.trans hp.2) (by simp)

theorem not_canProgress (ho : cfg.outsiders = false) (D : s.Deadlocked cfg)
    (H : cfg.system.Reachable s) : ¬ s.CanProgress cfg := by
  rintro ⟨s', hl, a, s'', hp, h⟩
  have hD : s'.Deadlocked cfg ∧ cfg.system.Reachable s' := by
    clear h hp
    induction hl with
    | refl => exact ⟨D, H⟩
    | tail _ h ih =>
      obtain ⟨b, hf, h⟩ := h
      exact ⟨ih.1.step hf h, ih.2.step h⟩
  exact absurd ((hD.1.not_productive ho hD.2 hp).symm.trans h) nofun

/-- What a put that waits holds, and how full its queue is. -/
theorem put {x : Str} (D : s.Deadlocked cfg) (H : cfg.system.Reachable s)
    (hop : s.op t = some (q, .put x)) :
    ((s.queue q).call t).holds = some x ∧ (s.queue q).items.length + 1 = cfg.arraySize := by
  have hc := (synced_reachable H).inCall t q _ hop
  have hw := D.waits t q _ hop
  refine ⟨?_, (queue_inv H q).full_iff.1 (Call.waiting_put hc hw).2⟩
  generalize (s.queue q).call t = c at hc hw
  cases c with
  | put y pc =>
    cases hc
    cases pc <;> first | rfl | cases hw
  | _ => cases hc <;> cases hw

end Deadlocked

end State

/-! ## How many files and lines it takes -/

theorem sublist_take {α : Type} {xs ys l : List α} (h : (xs ++ ys).Sublist l) :
    xs.Sublist (l.take (l.length - ys.length)) := by
  obtain ⟨l₁, l₂, rfl, h₁, h₂⟩ := List.append_sublist_iff.1 h
  have hl := h₂.length_le
  rw [List.length_append, Nat.add_sub_assoc hl, List.take_append]
  simp only [List.take_of_length_le (Nat.le_add_right ..)]
  exact h₁.trans (List.sublist_append_left ..)

/-- The numbers of lines of the readable files that come before a full `filename_queue` and one
more file. -/
def Config.front (cfg : Config R S) : List Nat :=
  let files := cfg.enqueued cfg.files.length
  (files.take (files.length - cfg.arraySize)).map fun i => (cfg.hosts i).length

/-- Before a full `filename_queue` and one more file come files with lines for every requester, and
more lines than `hostname_queue` holds and the requesters have read. -/
def Config.Overfilled (cfg : Config R S) : Prop :=
  R ≤ cfg.front.countP (· ≠ 0) ∧ cfg.arraySize - 1 + R ≤ cfg.front.sum

instance : Decidable cfg.Overfilled := inferInstanceAs (Decidable (_ ∧ _))

namespace State

/-- The files of the requesters come before those in `filename_queue` and in the hands of `main`. -/
theorem Deadlocked.taken_front (D : s.Deadlocked cfg) (H : cfg.system.Reachable s) :
    (s.taken.map fun i => (cfg.hosts i).length).Sublist cfg.front := by
  obtain ⟨k, x, hm⟩ := D.main
  have hop : s.op .main = some (.filenameQueue, .put x) := by rw [op, hm]; rfl
  have hi := queue_inv H .filenameQueue
  obtain ⟨hh, hfull⟩ := D.put H hop
  have hoff : s.offered = s.taken ++
      ((s.queue .filenameQueue).items.map (fun x => x.src.place) ++ [x.src.place]) := by
    rw [offered, hi.accepted_eq, List.map_append, taken, List.append_assoc, hh]
    rfl
  have hsub := (filePath_reachable H).offered.trans
    (cfg.enqueued_mono (considered_le (wellTyped_reachable H)))
  rw [hoff] at hsub
  have htake := sublist_take hsub
  rw [List.length_append, List.length_map, List.length_singleton, hfull] at htake
  exact htake.map _

/-- A requester has read a line more, in its files, than `hostname_queue` has accepted of it. -/
theorem Deadlocked.lines (ho : cfg.outsiders = false) (ha : cfg.allocFails = false)
    (D : s.Deadlocked cfg) (H : cfg.system.Reachable s) :
    ∃ sent : Fin R → List Line, IsMerge sent (s.acceptedLines .hostnameQueue) ∧
      ∀ i, (sent i).length + 1 ≤ ((s.got i).map fun k => (cfg.hosts k).length).sum := by
  obtain ⟨sent, hmerge, hsent⟩ := (lineOrder_reachable ho ha H).requesters .resolverLog
  refine ⟨sent, hmerge, fun i => ?_⟩
  obtain ⟨r, x, hloc⟩ := D.requester i
  have hop : s.op (.requester i) = some (.hostnameQueue, .put x) := by rw [op, hloc]; rfl
  obtain ⟨hh, -⟩ := D.put H hop
  obtain ⟨l, hl, -⟩ : cfg.Typed .hostnameQueue x :=
    (wellTyped_reachable H).carries .hostnameQueue (.requester i) x (by simp [Call.carries, hh])
  have hin : s.inCall .resolverLog (.requester i) = [l] := by
    rw [inCall_of_op hop, hh]
    simp [Logger.path, hl, Src.lines]
  have hlen : (sent i).length + 1 ≤ ((s.requester i).opened.flatMap (cfg.fileLines i)).length := by
    rw [← hsent i, hin]
    simp only [List.length_append, List.length_singleton]
    omega
  have hfile : ∀ k, (cfg.fileLines i k).length = (cfg.hosts k).length := fun k => by
    rw [← cfg.fileLines_host i k, List.length_map]
  have hsub : (s.requester i).opened.Sublist (s.got i) :=
    (List.sublist_append_left ..).trans
      (((filePath_reachable H).opened i).trans (List.sublist_append_left ..))
  calc (sent i).length + 1
      ≤ ((s.requester i).opened.map fun k => (cfg.hosts k).length).sum := by
        rw [List.length_flatMap] at hlen
        simpa only [hfile] using hlen
    _ ≤ ((s.got i).map fun k => (cfg.hosts k).length).sum :=
        (hsub.map _).sum_le_sum fun _ _ => Nat.zero_le _

theorem countP_pos_of_sum {xs : List Nat} (h : 0 < xs.sum) : 0 < xs.countP (· ≠ 0) := by
  rw [List.countP_pos_iff]
  by_contra hx
  have h0 : ∀ x ∈ xs, x = 0 := fun x hm => by
    by_contra hne
    exact hx ⟨x, hm, decide_eq_true hne⟩
  rw [List.sum_eq_zero h0] at h
  exact absurd h (lt_irrefl 0)

theorem Deadlocked.overfilled (ho : cfg.outsiders = false) (ha : cfg.allocFails = false)
    (D : s.Deadlocked cfg) (H : cfg.system.Reachable s) : cfg.Overfilled := by
  obtain ⟨sent, hmerge, hsent⟩ := D.lines ho ha H
  have htaken := (filePath_reachable H).merge.map fun k => (cfg.hosts k).length
  have hfront := D.taken_front H
  constructor
  · have hcount := htaken.sum_hom (Multiset.countPAddMonoidHom (· ≠ 0))
    calc R = ∑ _i : Fin R, 1 := by simp
      _ ≤ ∑ i, ((s.got i).map fun k => (cfg.hosts k).length).countP (· ≠ 0) :=
          Finset.sum_le_sum fun i _ => countP_pos_of_sum (Nat.lt_of_lt_of_le (Nat.succ_pos _) (hsent i))
      _ = (s.taken.map fun k => (cfg.hosts k).length).countP (· ≠ 0) := by
          simpa using hcount
      _ ≤ _ := hfront.countP_le
  · have hsum := htaken.sum_hom Multiset.sumAddMonoidHom
    have hput := hmerge.sum_hom Multiset.cardHom
    obtain ⟨r, x, hloc⟩ := D.requester ⟨0, cfg.requesters_pos⟩
    have hop : s.op (.requester ⟨0, cfg.requesters_pos⟩) = some (.hostnameQueue, .put x) := by
      rw [op, hloc]
      rfl
    obtain ⟨-, hfull⟩ := D.put H hop
    have hitems : (linesIn (s.queue .hostnameQueue).items).length =
        (s.queue .hostnameQueue).items.length := linesIn_length fun y hy => by
      obtain ⟨l, hl, -⟩ : cfg.Typed .hostnameQueue y :=
        (wellTyped_reachable H).queue _ y (Monitor.mem_contents.2 (.inl hy))
      exact ⟨l, hl⟩
    calc cfg.arraySize - 1 + R
        ≤ (s.acceptedLines .hostnameQueue).length + R := by
          rw [acceptedLines_eq H, List.length_append, hitems]
          omega
      _ = ∑ i, ((sent i).length + 1) := by
          rw [Finset.sum_add_distrib]
          simpa using hput.symm
      _ ≤ ∑ i, ((s.got i).map fun k => (cfg.hosts k).length).sum :=
          Finset.sum_le_sum fun i _ => hsent i
      _ = (s.taken.map fun k => (cfg.hosts k).length).sum := by simpa using hsum
      _ ≤ _ := hfront.sum_le_sum fun _ _ => Nat.zero_le _

/-! ## When the program cannot get stuck -/

/-- `main` returns or somebody can go on, except in a deadlock. -/
theorem deadlock_iff (ho : cfg.outsiders = false) (ha : cfg.allocFails = false)
    (hc : cfg.createFails = false) (hans : ∀ host, ∃ a, cfg.answers host a = true)
    (H : cfg.system.Reachable s) (hm : s.main ≠ .returned) :
    s.Deadlocked cfg ↔ ¬ s.CanProgress cfg := by
  refine ⟨fun D => D.not_canProgress ho H, fun h => ?_⟩
  have hab := not_aborting ha hc H
  have he : s.ended = false := by
    rw [ended]
    generalize s.main = l at hm hab
    cases l <;> first | rfl | exact absurd rfl hm | cases hab
  exact (stuck_of_not_canProgress ho H he h).deadlocked H ha hc hans ho hm

/-- **Where the program never gets stuck.** Unless the files overfill the queues, in every
reachable state before `main` has returned some thread can make a step that is not futile. -/
theorem progresses (ho : cfg.outsiders = false) (ha : cfg.allocFails = false)
    (hc : cfg.createFails = false) (hans : ∀ host, ∃ a, cfg.answers host a = true)
    (hf : ¬ cfg.Overfilled) (H : cfg.system.Reachable s) (hm : s.main ≠ .returned) :
    s.CanProgress cfg := by
  by_contra h
  exact hf (((deadlock_iff ho ha hc hans H hm).2 h).overfilled ho ha H)

/-- `sample` has too few files to keep `main` from creating the resolver; here `main` frees
`filename_queue` while the requester waits for another file. -/
theorem progresses_sample : ∃ s, sample.system.Reachable s ∧ s.main = .freeFilename ∧
    (s.queue .filenameQueue).call (.requester 0) = .get .asleep ∧ s.CanProgress sample := by
  have h : ∃ s ∈ schedule sample sampleDns ((sampleRun 0 0).take 24 ++ [(.main, 3)]),
      s.main = .freeFilename ∧
      (s.queue .filenameQueue).call (.requester 0) = .get .asleep := by decide +kernel
  obtain ⟨s, hs, h1, h2⟩ := h
  have hr := schedule_reachable hs
  have hf : ¬ sample.Overfilled := by decide +kernel
  exact ⟨s, hr, h1, h2, progresses rfl rfl rfl (fun host => ⟨_, decide_eq_true rfl⟩) hf hr
    (by rw [h1]; nofun)⟩

/-- Nine files of eight lines each. -/
def crowded : Config 1 1 where
  arraySize := 8
  two_le := two_le_arraySize
  requesters_pos := Nat.one_pos
  resolvers_pos := Nat.one_pos
  files := List.replicate 9 [102]
  fs n := if n = [102] then some (List.replicate 8 [97, 10]).flatten else none
  answers _ a := a = none

/-- The requester fills `hostname_queue` from the first file, and `main` fills `filename_queue`. -/
def crowdedRun (i : Fin 1) : List (Tid 1 1 × Nat) :=
  [(.main, 1), (.logger .requesterLog, 4), (.main, 1), (.logger .resolverLog, 4), (.main, 3),
    (.requester i, 4), (.main, 10), (.requester i, 11)] ++
  (List.replicate 7
    [(.requester i, 9), (.logger .requesterLog, 16), (.requester i, 8)]).flatten ++
  [(.requester i, 9), (.logger .requesterLog, 16), (.requester i, 4), (.main, 68)]

theorem gets_stuck : ¬ ∀ (cfg : Config 1 1) (s : State 1 1), cfg.outsiders = false →
    cfg.allocFails = false → cfg.createFails = false →
    (∀ host, ∃ a, cfg.answers host a = true) → cfg.system.Reachable s →
    s.main ≠ .returned → s.CanProgress cfg := by
  intro h
  have hrun : ∃ s ∈ schedule crowded (fun _ => none) (crowdedRun 0),
      s.main = .putFile 8 ⟨24, [102], .file 8⟩ ∧
      (s.requester 0).loc = .putHost ⟨⟨0, [102], .file 0⟩, [], 8⟩ ⟨16, [97], .line ⟨0, 0, 7, [97]⟩⟩ ∧
      (s.resolver 0).loc = .idle ∧ (∀ k, s.logger k = .get) ∧
      ∀ t, (s.op t).all fun o => ((s.queue o.1).call t).waiting 8 (s.queue o.1).arr := by
    decide +kernel
  obtain ⟨s, hs, h1, h2, h3, h4, h5⟩ := hrun
  have hr := schedule_reachable hs
  have D : s.Deadlocked crowded := by
    refine ⟨⟨_, _, h1⟩, fun i => ?_, fun j => ?_, h4, fun t q p hop => ?_⟩
    · rw [Subsingleton.elim i 0]
      exact ⟨_, _, h2⟩
    · rw [Subsingleton.elim j 0]
      exact h3
    · have h := h5 t
      rwa [hop] at h
  exact D.not_canProgress rfl hr (h crowded s rfl rfl rfl (fun _ => ⟨none, rfl⟩) hr
    (by rw [h1]; nofun))

end State
end DnsResolver
