import DnsResolver.Threaded.ThreadedLines
import DnsResolver.Array.ArrayQuiescence

/-!
# The life of the queues

How often `array_free` is called on each queue, and which calls begin after it has destroyed the
queue's mutex. `main` frees `requester_logfile_queue` a second time after its joins; and
`array_free` does not wait for a consumer that is at work on an element outside `array_get`
(`mayGet`). Where neither happens every queue is freed at most once and no call begins on a
destroyed queue (`life_cycle`). -/

namespace DnsResolver
open Function Tally

/-! ## One queue -/

section
variable {T α : Type} {N : Nat} {t : T} {a : ArrayState T α} {c c' : Call α} {o : Out T α}

/-- The call is an `array_get` that has taken nothing. -/
def Call.emptyHanded : Call α → Bool
  | .get pc => pc.got.isNone
  | .getDone r => r.isNone
  | _ => false

theorem Call.emptyHanded_congr (ho : c'.op = c.op) (hg : c'.got = c.got) :
    c'.emptyHanded = c.emptyHanded := by
  cases c <;> cases c' <;> first | rfl | exact congrArg Option.isNone hg | cases ho

theorem Ghost.record_life (g : Ghost T α) (e : Option (Event α)) :
    (g.record e).frees = g.frees ∧ (g.record e).reused = g.reused := by
  unfold Ghost.record
  split <;> exact ⟨rfl, rfl⟩

theorem CallStep.destroyed (h : CallStep N t a c o) (g : Ghost T α)
    (hd : (g.record o.event).destroyed = true) : g.destroyed = true ∨ c = .free .destroy := by
  cases h <;> first | exact .inl hd | exact .inr rfl

namespace Monitor
variable [DecidableEq T] [Fintype T] {m m' : Monitor T α} {mv : Move T}

theorem move_life (h : m.move N t mv = some m') :
    m'.ghost.frees = m.ghost.frees ∧ m'.ghost.reused = m.ghost.reused ∧
    (m'.ghost.destroyed = true → m.ghost.destroyed = true ∨ m.call t = .free .destroy) := by
  rcases move_cases h with ⟨o, w, call', hs, -, -, rfl⟩ | ⟨r, v, -, -, -, rfl⟩
  · obtain ⟨h1, h2⟩ := m.ghost.record_life o.event
    exact ⟨h1, h2, hs.destroyed m.ghost⟩
  · exact ⟨rfl, rfl, .inl⟩

/-- Only `array_free` destroys a queue. -/
structure FreedFirst (m : Monitor T α) : Prop where
  call : ∀ u, (m.call u).op = some .free → 0 < m.ghost.frees
  destroyed : m.ghost.destroyed = true → 0 < m.ghost.frees

theorem freedFirst_reachable (H : (system T α N).Reachable m) : m.FreedFirst := by
  induction H with
  | init h =>
    rw [h]
    exact ⟨nofun, nofun⟩
  | @step m a m' _ h ih =>
    cases a with
    | begin t op =>
      obtain ⟨-, rfl⟩ := begin_cases h
      refine ⟨fun u hu => ?_, fun hd => ?_⟩
      · by_cases hut : u = t
        · subst hut
          simp only [Monitor.begin, update_self] at hu ⊢
          cases op <;> first | exact Nat.succ_pos _ | cases hu
        · simp only [Monitor.begin, update_of_ne hut] at hu
          have := ih.call u hu
          simp only [Monitor.begin]
          split <;> omega
      · have := ih.destroyed hd
        simp only [Monitor.begin]
        split <;> omega
    | move t mv =>
      obtain ⟨h1, -, h3⟩ := move_life h
      refine ⟨fun u hu => ?_, fun hd => ?_⟩
      · rw [h1]
        exact ih.call u (move_op h u ▸ hu)
      · rw [h1]
        rcases h3 hd with hd | hc
        · exact ih.destroyed hd
        · exact ih.call t (by rw [hc]; rfl)
    | leave t =>
      obtain ⟨-, rfl⟩ := leave_cases h
      refine ⟨fun u hu => ?_, ih.destroyed⟩
      by_cases hut : u = t
      · subst hut
        simp [Monitor.leave, Call.op] at hu
      · exact ih.call u (by simpa [Monitor.leave, hut] using hu)

end Monitor
end

variable {R S : Nat} {cfg : Config R S} {s s' : State R S} {t u : Tid R S} {q : QName}
  {e : Effect R S}

/-! ## Who frees a queue -/

/-- The call is an `array_free` of the queue. -/
def isFree (o : Option (QName × Op Str)) (q : QName) : Bool :=
  match State.opAt o q with
  | some .free => true
  | _ => false

/-- `main` has called `array_free` on the queue. -/
def MainLoc.freed (q : QName) : MainLoc → Bool
  | .abort qs | .abortFree _ qs => q ∉ qs
  | .exited => true
  | .freeFilename | .joinRequester _ | .joinResolver _ => q = .filenameQueue
  | .freeRequesterLog => q = .filenameQueue ∨ q = .requesterLogfileQueue
  | .freeResolverLog | .joinLogger _ | .returned => q ≠ .hostnameQueue
  | _ => false

/-- The queues that `main` has still to free when it gives up are the last ones of its list. -/
def MainLoc.InOrder : MainLoc → Prop
  | .abort qs => qs <:+ allQueues
  | .abortFree q qs => q :: qs <:+ allQueues
  | _ => True

/-- The requester has called `array_free` on the queue. -/
def Requester.freed (q : QName) (r : Requester) : Bool :=
  r.last && match q, r.loc with
  | .hostnameQueue, _ => true
  | .requesterLogfileQueue, .freeHostname => false
  | .requesterLogfileQueue, _ => true
  | _, _ => false

theorem MainStep.freed {l l' : MainLoc} (h : MainStep cfg s l l' e) (hl : l.InOrder) :
    l'.InOrder ∧ ∀ q, (l'.freed q).toNat =
      (l.freed q).toNat + (isFree l'.op q).toNat := by
  cases h with
  | createLogger_fail | allocTables_fail =>
    refine ⟨List.suffix_refl _, fun q => ?_⟩
    cases q <;> rfl
  | @abort q' qs =>
    refine ⟨hl, fun q => ?_⟩
    have hn : q' ∉ qs := (List.nodup_cons.1 (hl.sublist.nodup (by decide))).1
    by_cases hq : q = q'
    · subst hq
      simp [MainLoc.freed, MainLoc.op, isFree, State.opAt, hn]
    · simp [MainLoc.freed, MainLoc.op, isFree, State.opAt, hq, Ne.symm hq]
  | abortFree =>
    refine ⟨(List.suffix_cons ..).trans hl, fun q => ?_⟩
    simp [MainLoc.freed, MainLoc.op, isFree]
  | _ =>
    refine ⟨trivial, fun q => ?_⟩
    cases q <;> rfl

/-- The requester that brings the count to 0 frees both queues of the consumers. -/
theorem RequesterStep.freed {i : Fin R} {r : Requester} {l' : RequesterLoc}
    (h : RequesterStep cfg s i r.loc l' e) (ha : r.last = true → r.loc.active = false)
    (hf : ∀ q, r.loc.op = some (q, .free) → r.last = true) (q : QName) :
    ∀ r' : Requester, r'.loc = l' → r'.last = (r.last || e.last) → (r'.freed q).toNat =
      (r.freed q).toNat + (isFree l'.op q).toNat := by
  rintro ⟨_, _, _, _, _, _⟩ rfl rfl
  obtain ⟨l, _, _, _, _, last⟩ := r
  dsimp only at h ha hf
  cases h with
  | decrement_last =>
    cases last
    · cases q <;> rfl
    · cases ha rfl
  | freeHostname =>
    have : last = true := hf _ rfl
    subst this
    cases q <;> rfl
  | freeRequesterLog =>
    have : last = true := hf _ rfl
    subst this
    cases q <;> rfl
  | _ => cases last <;> cases q <;> rfl

namespace State

/-- How often `array_free` has been called on a queue. -/
def timesFreed (s : State R S) (q : QName) : Nat :=
  (s.main.freed q).toNat + tally (Requester.freed q) s.requester

theorem switch_ghost (queue : QName → Monitor (Tid R S) Str) (t : Tid R S)
    (o o' : Option (QName × Op Str)) (q : QName) :
    let g := (enter (leave queue t o) t o' q).ghost
    g.destroyed = (queue q).ghost.destroyed ∧
    g.frees = (queue q).ghost.frees + (isFree o' q).toNat ∧
    (g.reused = true → (queue q).ghost.reused = true ∨
      (queue q).ghost.destroyed = true ∧ ∃ p, o' = some (q, p)) := by
  have hl : (leave queue t o q).ghost = (queue q).ghost := by
    rw [leave_apply]
    split <;> rfl
  rw [enter_apply]
  unfold isFree
  cases ho : opAt o' q with
  | none =>
    dsimp only
    rw [hl]
    exact ⟨rfl, rfl, .inl⟩
  | some p =>
    refine ⟨?_, ?_, fun h => ?_⟩
    · simp only [Monitor.begin, hl]
    · simp only [Monitor.begin, hl]
      cases p <;> rfl
    · simp only [Monitor.begin, hl, Bool.or_eq_true] at h
      exact h.imp_right fun h => ⟨h, p, opAt_eq_some.1 ho⟩

/-- A statement counts as a call of `array_free` where it enters one. -/
theorem timesFreed_stmt (hf : s.Fresh) (hp : s.Phases) (hl : s.main.InOrder)
    (ho : cfg.outsiders = false) (h : Stmt cfg s t s') : s'.main.InOrder ∧ ∀ q,
      s'.timesFreed q = s.timesFreed q + (isFree (s'.op t) q).toNat := by
  cases h with
  | @main l e h =>
    obtain ⟨h1, h2⟩ := h.freed hl
    refine ⟨h1, fun q => ?_⟩
    have ht : tally (Requester.freed q) (s.spawn e.spawn).requester =
        tally (Requester.freed q) s.requester := by
      apply tally_congr
      intro i
      obtain ⟨h3, -, -, h4⟩ := spawn_last hf h i
      unfold Requester.freed
      rw [h3]
      rcases h4 with h4 | ⟨h4, -⟩
      · rw [h4]
      · cases hb : (s.requester i).last
        · rfl
        · have := hp.last i hb i
          rw [h4] at this
          cases this
    have h3 := h2 q
    simp only [timesFreed, perform_spawn, ht, State.op]
    omega
  | @requester i l e h =>
    refine ⟨hl, fun q => ?_⟩
    generalize hs' : (s.perform (.requester i) (s.requester i).loc.op l.op e).setRequester i l e = s'
    have hr : (s'.requester i).loc = l ∧ (s'.requester i).last = ((s.requester i).last || e.last) := by
      rw [← hs', setRequester_self]
      exact ⟨rfl, rfl⟩
    have h1 := h.freed (fun hi => hp.last i hi i) (hp.freeing i) q (s'.requester i) hr.1 hr.2
    have h2 := Tally.sum_of_ne (t := i)
      (f := fun k => ((s.requester k).freed q).toNat) (g := fun k => ((s'.requester k).freed q).toNat)
      fun k hk => by rw [← hs', setRequester_of_ne _ _ hk]; rfl
    have hm : s'.main = s.main := by rw [← hs']; rfl
    rw [timesFreed, timesFreed, hm, State.op, hr.1, tally, tally]
    omega
  | @resolver j l e h =>
    refine ⟨hl, fun q => ?_⟩
    have hn : isFree (State.op ((s.perform (.resolver j) (s.resolver j).loc.op l.op e).setResolver j l e)
        (.resolver j)) q = false := by
      rw [State.op, setResolver_self]
      cases l <;> cases q <;> rfl
    rw [hn]
    rfl
  | @logger k l e h =>
    refine ⟨hl, fun q => ?_⟩
    simp only [State.op, update_self]
    have hn : isFree (l.op k) q = false := by
      cases l <;> cases k <;> cases q <;> rfl
    rw [hn]
    rfl
  | outsiderFree h | outsiderDone h => exact absurd (ho.symm.trans h) (by simp)

theorem frees_eq (ho : cfg.outsiders = false) (H : cfg.system.Reachable s) :
    s.main.InOrder ∧ ∀ q, (s.queue q).ghost.frees = s.timesFreed q := by
  induction H with
  | init h =>
    rw [h]
    refine ⟨trivial, fun q => ?_⟩
    have h0 : tally (Requester.freed q) (init : State R S).requester = 0 :=
      tally_eq_zero.2 fun _ => rfl
    rw [timesFreed, h0]
    rfl
  | step H h ih =>
    rcases (step_cases h).2 with ⟨t, c, -, h'⟩ | ⟨q', t, mv, m, -, h', rfl⟩
    · obtain ⟨h1, h2⟩ := timesFreed_stmt (synced_reachable H).fresh (phases_reachable H) ih.1 ho h'
      refine ⟨h1, fun q => ?_⟩
      rw [h2, ← ih.2 q, h'.queue_eq, (switch_ghost ..).2.1]
    · refine ⟨ih.1, fun q => ?_⟩
      refine Eq.trans ?_ (ih.2 q)
      by_cases hq : q = q'
      · subst hq
        rw [setQueue_self, (Monitor.move_life h').1]
      · rw [setQueue_of_ne m hq]

end State

/-! ## Consumers that will come back -/

/-- The thread is in the loop that gets from its queue. -/
def RequesterLoc.inLoop : RequesterLoc → Bool
  | .idle | .failed | .lockReaders | .decrement | .freeHostname | .freeRequesterLog => false
  | .unlockReaders | .finished => false
  | _ => true

def ResolverLoc.inLoop : ResolverLoc → Bool
  | .idle | .finished => false
  | _ => true

def LoggerLoc.inLoop : LoggerLoc → Bool
  | .idle | .finished => false
  | _ => true

/-- A thread that is told of the shutdown leaves its loop, and none comes back to it. -/
theorem RequesterStep.inLoop {i : Fin R} {l l' : RequesterLoc} (h : RequesterStep cfg s i l l' e)
    (H : ((s.queue .filenameQueue).call (.requester i)).op = State.opAt l.op .filenameQueue)
    (hl : l'.inLoop = true) : l.inLoop = true ∧
      ((s.queue .filenameQueue).call (.requester i)).emptyHanded = false := by
  cases h with
  | file hc => exact ⟨rfl, by rw [hc]; rfl⟩
  | noFile | lockReaders | decrement | decrement_last | freeHostname | freeRequesterLog |
    unlockReaders => cases hl
  | _ => exact ⟨rfl, by rw [Call.op_eq_none.1 H]; rfl⟩

theorem ResolverStep.inLoop {j : Fin S} {l l' : ResolverLoc} (h : ResolverStep cfg s j l l' e)
    (H : ((s.queue .hostnameQueue).call (.resolver j)).op = State.opAt l.op .hostnameQueue)
    (hl : l'.inLoop = true) : l.inLoop = true ∧
      ((s.queue .hostnameQueue).call (.resolver j)).emptyHanded = false := by
  cases h with
  | host hc => exact ⟨rfl, by rw [hc]; rfl⟩
  | noHost => cases hl
  | _ => exact ⟨rfl, by rw [Call.op_eq_none.1 H]; rfl⟩

theorem LoggerStep.inLoop {k : Logger} {l l' : LoggerLoc} (h : LoggerStep s k l l' e)
    (H : ((s.queue k.queue).call (.logger k)).op = State.opAt (l.op k) k.queue)
    (hl : l'.inLoop = true) : l.inLoop = true ∧
      ((s.queue k.queue).call (.logger k)).emptyHanded = false := by
  cases h with
  | string hc => exact ⟨rfl, by rw [hc]; rfl⟩
  | noString => cases hl
  | _ => exact ⟨rfl, by rw [Call.op_eq_none.1 H]; rfl⟩

/-- `main` has joined the resolvers, and its next statement is its second
`array_free(&requester_logfile_queue)`. -/
def MainLoc.joinsDone (S : Nat) : MainLoc → Bool
  | .joinResolver j => S ≤ j
  | _ => false

namespace State

/-- The thread is in its loop over the elements of the queue. -/
def inLoop (s : State R S) (q : QName) : Tid R S → Bool
  | .requester i => q = .filenameQueue && (s.requester i).loc.inLoop
  | .resolver j => q = .hostnameQueue && (s.resolver j).loc.inLoop
  | .logger k => q = k.queue && (s.logger k).inLoop
  | _ => false

/-- The thread will call `array_get` on the queue again: it is in its loop, and not in an
`array_get` that finds the queue empty. -/
def mayGet (s : State R S) (q : QName) (t : Tid R S) : Bool :=
  s.inLoop q t && !((s.queue q).call t).emptyHanded

/-- The steps that keep the life cycle: `main` does not come to its second
`array_free(&requester_logfile_queue)`, and a queue is destroyed when it is empty and no consumer
will come back to it. -/
def Orderly (s : State R S) : Act R S → Prop
  | .stmt .main _ => s.main.joinsDone S = false
  | .call q t _ => (s.queue q).call t = .free .destroy →
      (s.queue q).items = [] ∧ ∀ u, s.mayGet q u = false
  | _ => True

/-- What holds of a destroyed queue. -/
def Retired (s : State R S) (q : QName) : Prop :=
  (s.queue q).Drained ∧ ∀ u, s.mayGet q u = false

end State

theorem MainStep.aborting_spawn {l l' : MainLoc} (h : MainStep cfg s l l' e)
    (hl : l.aborting = true) : e.spawn = .nobody := by
  cases h <;> first | rfl | cases hl

namespace State

section
variable (ho : cfg.outsiders = false) (hc : cfg.createFails = false) (H : cfg.system.Reachable s)
include ho hc H

/-- While `main` is still to create a resolver, `hostname_queue` is open. -/
theorem open_hostname {j : Fin S} (hj : s.main.toCreateResolver j = true)
    (ha : s.main.aborting = false) : (s.queue .hostnameQueue).arr.shutdown = false := by
  by_contra hs
  have hne : ¬ (s.main.aborting = true ∨ s.main.enqueued = true) := by
    rw [ha]
    generalize s.main = l at hj
    cases l <;> simp_all [MainLoc.toCreateResolver, MainLoc.enqueued]
  rcases mayShut_reachable ho H (Bool.not_eq_false _ ▸ hs) with h | h
  · exact hne (.inl h)
  · -- a requester that has left its loop has seen `filename_queue` shut down
    have h0 := h ⟨0, cfg.requesters_pos⟩
    have h1 := (created_reachable hc H).failed ⟨0, cfg.requesters_pos⟩
    have h2 : s.Left .filenameQueue := by
      refine ⟨⟨0, cfg.requesters_pos⟩, ?_⟩
      generalize (s.requester ⟨0, cfg.requesters_pos⟩).loc = l at h0 h1
      cases l <;> first | rfl | exact absurd rfl h1 | cases h0
    exact hne (mayShut_reachable ho H (drained_of_left H h2).1)

/-- No consumer of a queue that is shut down is created. -/
theorem no_creation {l : MainLoc} (h : MainStep cfg s s.main l e)
    (hs : (s.queue q).arr.shutdown = true) (hl : (s.spawn e.spawn).inLoop q u = true) :
    s.inLoop q u = true := by
  have hf := (synced_reachable H).fresh
  have hcr := created_reachable hc H
  have hm := mayShut_reachable ho H hs
  have ha : e.spawn = .nobody ∨ s.main.aborting = false := by
    cases hb : s.main.aborting with
    | false => exact .inr rfl
    | true => exact .inl (h.aborting_spawn hb)
  rcases ha with ha | ha
  · rwa [ha] at hl
  cases u with
  | requester i =>
    simp only [inLoop, Bool.and_eq_true, decide_eq_true_eq] at hl ⊢
    obtain ⟨rfl, hl⟩ := hl
    rcases (spawn_requester hf h i).2 with h1 | ⟨h1, -⟩
    · exact ⟨rfl, h1 ▸ hl⟩
    · -- `main` is still to put filenames
      exfalso
      have h2 : s.main.toCreateRequester i = true := by
        by_contra hn
        exact hcr.requester i (Bool.not_eq_true _ ▸ hn) h1
      have hm : s.main.aborting = true ∨ s.main.enqueued = true := hm
      generalize s.main = m at h2 ha hm
      rcases hm with hm | hm <;> cases m <;> cases hm <;> first | (cases ha; done) | cases h2
  | resolver j =>
    simp only [inLoop, Bool.and_eq_true, decide_eq_true_eq] at hl ⊢
    obtain ⟨rfl, hl⟩ := hl
    rcases (spawn_resolver hf h j).2 with h1 | ⟨h1, -⟩
    · exact ⟨rfl, h1 ▸ hl⟩
    · exfalso
      have h2 : s.main.toCreateResolver j = true := by
        by_contra hn
        exact hcr.resolver j (Bool.not_eq_true _ ▸ hn) h1
      exact absurd (hs.symm.trans (open_hostname ho hc H h2 ha)) nofun
  | logger k =>
    simp only [inLoop, Bool.and_eq_true, decide_eq_true_eq] at hl ⊢
    obtain ⟨rfl, hl⟩ := hl
    rcases spawn_logger hf h k with h1 | ⟨h1, -⟩
    · exact ⟨rfl, h1 ▸ hl⟩
    · -- no requester has been created yet
      exfalso
      have h2 : ∃ l, s.main = .createLogger l := by
        have hn : s.main.toCreateLogger k = true := by
          by_contra hn
          exact created_logger H (Bool.not_eq_true _ ▸ hn) ha h1
        generalize s.main = m at hn
        cases m <;> first | exact ⟨_, rfl⟩ | cases hn
      obtain ⟨l, h2⟩ := h2
      have h3 := hf.requester ⟨0, cfg.requesters_pos⟩ (by rw [h2]; rfl)
      cases k with
      | requesterLog =>
        rcases hm with hm | hm
        · exact absurd (ha.symm.trans hm) nofun
        · have := hm ⟨0, cfg.requesters_pos⟩
          rw [h3] at this
          cases this
      | resolverLog =>
        rcases hm with hm | hm
        · exact absurd (ha.symm.trans hm) nofun
        · rw [h2] at hm
          cases hm
  | main | outsider q' => cases hl

/-- A statement brings no thread into the loop of a queue that is shut down. -/
theorem inLoop_stmt (h : Stmt cfg s t s') (hs : (s.queue q).arr.shutdown = true)
    (hl : s'.inLoop q u = true) :
    s.inLoop q u = true ∧ (u = t → ((s.queue q).call t).emptyHanded = false) := by
  have hop := (synced_reachable H).op
  cases h with
  | @main l e h =>
    refine ⟨no_creation ho hc H h hs ?_, ?_⟩
    · cases u <;> simpa only [inLoop, perform_spawn] using hl
    · rintro rfl
      cases hl
  | @requester i l e h =>
    cases u with
    | requester k =>
      by_cases hk : k = i
      · subst hk
        simp only [inLoop, setRequester_self, Bool.and_eq_true, decide_eq_true_eq] at hl ⊢
        obtain ⟨rfl, hl⟩ := hl
        have := h.inLoop (hop _ _) hl
        exact ⟨⟨rfl, this.1⟩, fun _ => this.2⟩
      · rw [inLoop, setRequester_of_ne _ _ hk] at hl
        exact ⟨hl, fun he => absurd (Tid.requester.inj he) hk⟩
    | _ => exact ⟨hl, by simp⟩
  | @resolver j l e h =>
    cases u with
    | resolver k =>
      by_cases hk : k = j
      · subst hk
        simp only [inLoop, setResolver_self, Bool.and_eq_true, decide_eq_true_eq] at hl ⊢
        obtain ⟨rfl, hl⟩ := hl
        have := h.inLoop (hop _ _) hl
        exact ⟨⟨rfl, this.1⟩, fun _ => this.2⟩
      · rw [inLoop, setResolver_of_ne _ _ hk] at hl
        exact ⟨hl, fun he => absurd (Tid.resolver.inj he) hk⟩
    | _ => exact ⟨hl, by simp⟩
  | @logger n l e h =>
    cases u with
    | logger k =>
      by_cases hk : k = n
      · subst hk
        simp only [inLoop, update_self, Bool.and_eq_true, decide_eq_true_eq] at hl ⊢
        obtain ⟨rfl, hl⟩ := hl
        have := h.inLoop (hop _ _) hl
        exact ⟨⟨rfl, this.1⟩, fun _ => this.2⟩
      · simp only [inLoop, update_of_ne hk] at hl
        exact ⟨hl, fun he => absurd (Tid.logger.inj he) hk⟩
    | _ => exact ⟨hl, by simp⟩
  | outsiderFree h | outsiderDone h => exact absurd (ho.symm.trans h) (by simp)

/-- No thread comes back to a queue that is drained and to which none will come back. -/
theorem mayGet_stmt (h : Stmt cfg s t s') (hs : (s.queue q).arr.shutdown = true)
    (hr : ∀ u, s.mayGet q u = false) (u : Tid R S) : s'.mayGet q u = false := by
  by_contra hn
  rw [Bool.not_eq_false, mayGet, Bool.and_eq_true, Bool.not_eq_true'] at hn
  obtain ⟨hl, he⟩ := inLoop_stmt ho hc H h hs hn.1
  have hu := hr u
  rw [mayGet, hl, Bool.true_and, Bool.not_eq_false'] at hu
  by_cases hut : u = t
  · subst hut
    exact absurd (hu.symm.trans (he rfl)) nofun
  · rw [call_of_ne h hut] at hn
    exact absurd (hu.symm.trans hn.2) nofun

end

theorem mayGet_call {mv : Move (Tid R S)} {m : Monitor (Tid R S) Str} {q' : QName}
    (hi : (s.queue q').Inv cfg.arraySize) (h : (s.queue q').move cfg.arraySize t mv = some m)
    (h0 : (s.queue q).items = []) (u : Tid R S) :
    (s.setQueue q' m).mayGet q u = s.mayGet q u := by
  have hl : (s.setQueue q' m).inLoop q u = s.inLoop q u := by cases u <;> rfl
  have hg : (m.call u).got = ((s.queue q').call u).got ∨ q' ≠ q := by
    by_cases hq : q' = q
    · subst hq
      left
      cases hi.moveView h with
      | stay _ _ _ hh => exact (hh u).2
      | accept x hc hc' _ _ _ _ _ hh =>
        by_cases hu : u = t
        · subst hu
          rw [hc, hc']
          rfl
        · exact (hh u hu).2
      | deliver x _ _ _ hx => rw [h0] at hx; cases hx
    · exact .inr hq
  rw [mayGet, mayGet, hl]
  by_cases hq : q = q'
  · subst hq
    rw [setQueue_self, Call.emptyHanded_congr (Monitor.move_op h u) (hg.resolve_right (· rfl))]
  · rw [setQueue_of_ne m hq]

theorem retired_of_destroyed (ho : cfg.outsiders = false) (hc : cfg.createFails = false)
    (H : (cfg.system.restrict Orderly).Reachable s) (hd : (s.queue q).ghost.destroyed = true) :
    s.Retired q := by
  induction H with
  | init h =>
    rw [h] at hd
    cases hd
  | @step s a s' H h ih =>
    obtain ⟨hok, h⟩ := h
    have H := H.of_restrict
    rcases (step_cases h).2 with ⟨t, c, -, h'⟩ | ⟨q', t, mv, m, rfl, h', rfl⟩
    · rw [h'.queue_eq, (switch_ghost ..).1] at hd
      obtain ⟨h1, h2⟩ := ih hd
      exact ⟨drained_step H h h1, mayGet_stmt ho hc H h' h1.1 h2⟩
    · have hr : s.Retired q := by
        by_cases hq : q = q'
        · subst hq
          rw [setQueue_self] at hd
          rcases (Monitor.move_life h').2.2 hd with hd | hd
          · exact ih hd
          · obtain ⟨h1, h2⟩ := hok hd
            have hs : (s.queue q).arr.shutdown = true := (hd ▸ (queue_inv H q).asserts t :
              (Call.free .destroy : Call Str).Asserts cfg.arraySize (s.queue q).arr)
            exact ⟨⟨hs, h1⟩, h2⟩
        · rw [setQueue_of_ne m hq] at hd
          exact ih hd
      refine ⟨drained_step H h hr.1, fun u => ?_⟩
      rw [mayGet_call (queue_inv H q') h' hr.1.2, hr.2 u]

end State

/-! ## The life cycle -/

/-- `main` has come to its second `array_free(&requester_logfile_queue)`. -/
def MainLoc.freesAgain : MainLoc → Bool
  | .freeRequesterLog | .freeResolverLog | .joinLogger _ | .returned => true
  | _ => false

theorem MainStep.freesAgain {l l' : MainLoc} (h : MainStep cfg s l l' e)
    (hl : l'.freesAgain = true) : l.freesAgain = true ∨ ∃ j, l = .joinResolver j ∧ S ≤ j := by
  cases h <;> first | exact .inl rfl | exact .inr ⟨_, rfl, by assumption⟩ | cases hl

theorem Requester.freed_last {r : Requester} (h : r.freed q = true) : r.last = true := by
  cases hl : r.last with
  | false => simp [freed, hl] at h
  | true => rfl

theorem MainLoc.freed_hostname {l : MainLoc} (h : l.freed .hostnameQueue = true) :
    l.aborting = true := by
  cases l <;> first | rfl | cases h

theorem MainLoc.freed_requesterLog {l : MainLoc} (h : l.freed .requesterLogfileQueue = true) :
    l.aborting = true ∨ l.freesAgain = true := by
  cases l <;> first | exact .inl rfl | exact .inr rfl | cases h

theorem MainLoc.not_readersSet {l : MainLoc} (h : l.aborting = true) (i : Nat) :
    l.toCreateRequester i = true := by
  cases l <;> first | rfl | cases h

namespace State

theorem not_freesAgain (H : (cfg.system.restrict Orderly).Reachable s) :
    s.main.freesAgain = false := by
  induction H with
  | init h =>
    rw [h]
    rfl
  | @step s a s' H h ih =>
    obtain ⟨hok, h⟩ := h
    rcases (step_cases h).2 with ⟨t, c, rfl, h'⟩ | ⟨q', t, mv, m, rfl, h', rfl⟩
    · by_contra hn
      cases h' with
      | main hl =>
        rcases hl.freesAgain (Bool.not_eq_false _ ▸ hn) with h1 | ⟨j, h1, h2⟩
        · exact absurd (ih.symm.trans h1) nofun
        · have hj : s.main.joinsDone S = true := by rw [h1]; exact decide_eq_true h2
          exact absurd (hj.symm.trans hok) nofun
      | _ => exact hn ih
    · exact ih

/-- Only one requester frees queues, and not when `main` gives up. -/
theorem freed_requester (H : cfg.system.Reachable s) (q : QName) :
    tally (Requester.freed q) s.requester ≤ 1 ∧
    (s.main.aborting = true → tally (Requester.freed q) s.requester = 0) := by
  have hp := phases_reachable H
  have hlast : ∀ i, (s.requester i).freed q = true → (s.requester i).last = true :=
    fun i => Requester.freed_last
  constructor
  · apply tally_le_one
    intro i k hi hk
    exact hp.last_inj i k (hlast i hi) (hlast k hk)
  · intro ha
    apply tally_eq_zero.2
    intro i
    by_contra hn
    have h1 := hp.last i (hlast i (Bool.not_eq_false _ ▸ hn)) i
    rw [(synced_reachable H).fresh.requester i (MainLoc.not_readersSet ha i)] at h1
    cases h1

theorem timesFreed_le_one (H : cfg.system.Reachable s) (hm : s.main.freesAgain = false)
    (q : QName) : s.timesFreed q ≤ 1 := by
  obtain ⟨h1, h2⟩ := freed_requester H q
  cases hf : s.main.freed q with
  | false =>
    rw [timesFreed, hf]
    simpa using h1
  | true =>
    have h3 : tally (Requester.freed q) s.requester = 0 := by
      cases q with
      | filenameQueue | resolverLogfileQueue =>
        exact tally_eq_zero.2 fun _ => Bool.and_false _
      | hostnameQueue => exact h2 (MainLoc.freed_hostname hf)
      | requesterLogfileQueue =>
        rcases MainLoc.freed_requesterLog hf with ha | ha
        · exact h2 ha
        · exact absurd (hm.symm.trans ha) nofun
    rw [timesFreed, hf, h3]
    rfl

theorem inLoop_of_get (h : s.op t = some (q, .get)) : s.inLoop q t = true := by
  have hg := op_get h
  cases q with
  | filenameQueue | hostnameQueue =>
    obtain ⟨i, rfl, hi⟩ := hg
    simp only [inLoop, hi]
    rfl
  | requesterLogfileQueue | resolverLogfileQueue =>
    obtain ⟨rfl, hi⟩ := hg
    simp only [inLoop, hi]
    rfl

/-- No call begins on a destroyed queue. -/
theorem not_reused (ho : cfg.outsiders = false) (hc : cfg.createFails = false)
    (H : (cfg.system.restrict Orderly).Reachable s) (q : QName) :
    (s.queue q).ghost.reused = false := by
  induction H with
  | init h =>
    rw [h]
    rfl
  | @step s a s' H h ih =>
    have H' := H.step h
    obtain ⟨hok, h⟩ := h
    rcases (step_cases h).2 with ⟨t, c, -, h'⟩ | ⟨q', t, mv, m, rfl, h', rfl⟩
    · by_contra hn
      rw [Bool.not_eq_false, h'.queue_eq] at hn
      obtain ⟨-, -, hu⟩ := switch_ghost s.queue t (s.op t) (s'.op t) q
      rcases hu hn with hu | ⟨hd, p, hp⟩
      · exact absurd (ih.symm.trans hu) nofun
      · obtain ⟨h1, h2⟩ := retired_of_destroyed ho hc H hd
        cases p with
        | put x =>
          have hs := open_of_put ho H'.of_restrict hp
          rw [h'.queue_eq, switch_arr, h1.1] at hs
          cases hs
        | get =>
          -- the thread is in its loop, outside `array_get`
          obtain ⟨h3, h4⟩ := inLoop_stmt ho hc H.of_restrict h' h1.1 (inLoop_of_get hp)
          have h5 := h2 t
          rw [mayGet, h3, h4 rfl] at h5
          cases h5
        | free =>
          have h3 := timesFreed_le_one H'.of_restrict (not_freesAgain H') q
          have h4 := (Monitor.freedFirst_reachable (queue_reachable H.of_restrict q)).destroyed hd
          rw [← (frees_eq ho H'.of_restrict).2 q, h'.queue_eq, (switch_ghost ..).2.1, hp] at h3
          have h5 : isFree (some (q, .free)) q = true := by cases q <;> rfl
          rw [h5] at h3
          have : (1 : Nat) = true.toNat := rfl
          omega
    · refine Eq.trans ?_ ih
      by_cases hq : q = q'
      · subst hq
        rw [setQueue_self, (Monitor.move_life h').2.1]
      · rw [setQueue_of_ne m hq]

/-- Past its joins `main` frees `requester_logfile_queue` for the second time. -/
theorem freed_twice (ho : cfg.outsiders = false) (hc : cfg.createFails = false)
    (H : cfg.system.Reachable s) (hm : s.main.freesAgain = true) :
    (s.queue .requesterLogfileQueue).ghost.frees = 2 := by
  have hp := phases_reachable H
  have hover : ∀ i, (s.requester i).loc.over = true := by
    intro i
    apply hp.joinedRequester i
    generalize s.main = l at hm
    cases l <;> first | rfl | cases hm
  have hset : s.main.readersSet = true := by
    generalize s.main = l at hm
    cases l <;> first | rfl | cases hm
  obtain ⟨i, hi⟩ := (created_reachable hc H).last hset
    (tally_eq_zero.2 fun i => RequesterLoc.over_active (hover i))
  have hf : (s.requester i).freed .requesterLogfileQueue = true := by
    have h1 : (s.requester i).loc ≠ .freeHostname := by
      intro h
      have := hover i
      rw [h] at this
      cases this
    simp [Requester.freed, hi]
  have h1 : 0 < tally (Requester.freed .requesterLogfileQueue) s.requester := tally_pos.2 ⟨i, hf⟩
  have h2 := (freed_requester H .requesterLogfileQueue).1
  have h3 : (s.main.freed .requesterLogfileQueue).toNat = 1 := by
    generalize s.main = l at hm
    cases l <;> first | rfl | cases hm
  rw [(frees_eq ho H).2, timesFreed, h3]
  omega

/-- In orderly runs every queue is freed at most once, and no call begins on a destroyed queue;
a run in which `main` comes past its joins is not orderly, and there `requester_logfile_queue` has
been freed twice. -/
theorem life_cycle (ho : cfg.outsiders = false) (hc : cfg.createFails = false) :
    (∀ s, (cfg.system.restrict Orderly).Reachable s → ∀ q, (s.queue q).ghost.frees ≤ 1 ∧
      (s.queue q).ghost.reused = false) ∧
    ∀ s, cfg.system.Reachable s → s.main.freesAgain = true →
      (s.queue .requesterLogfileQueue).ghost.frees = 2 := by
  refine ⟨fun s H q => ⟨?_, not_reused ho hc H q⟩, fun s H hm => freed_twice ho hc H hm⟩
  rw [(frees_eq ho H.of_restrict).2]
  exact timesFreed_le_one H.of_restrict (not_freesAgain H) q

instance (s : State R S) (a : Act R S) : Decidable (s.Orderly a) :=
  match a with
  | .stmt .main _ => inferInstanceAs (Decidable (s.main.joinsDone S = false))
  | .stmt (.requester _) _ | .stmt (.resolver _) _ | .stmt (.logger _) _ | .stmt (.outsider _) _ =>
    .isTrue trivial
  | .call q t _ => inferInstanceAs (Decidable ((s.queue q).call t = .free .destroy →
      (s.queue q).items = [] ∧ ∀ u, s.mayGet q u = false))

/-- The state after the turns of a list, if every step is orderly. -/
def orderlySchedule (cfg : Config R S) (dns : Bytes → Option Bytes) (turns : List (Tid R S × Nat)) :
    Option (State R S) :=
  TransitionSystem.exec
    (fun s t => TransitionSystem.guarded Orderly (step cfg) s (s.nextAct cfg dns t))
    (turns.flatMap fun p => List.replicate p.2 p.1) .init

/-- The run of `sample` up to the end of the last join, in an orderly way. -/
def orderlyRun (i j : Fin 1) : List (Tid 1 1 × Nat) := [
  (.main, 1), (.logger .requesterLog, 4), (.main, 1), (.logger .resolverLog, 4), (.main, 3),
  (.requester i, 4), (.main, 9), (.requester i, 19), (.logger .requesterLog, 16),
  (.requester i, 18), (.logger .requesterLog, 16), (.requester i, 15), (.main, 10),
  (.requester i, 19), (.logger .requesterLog, 16), (.requester i, 15), (.main, 3),
  (.resolver j, 18), (.logger .resolverLog, 16), (.resolver j, 20), (.logger .resolverLog, 16),
  (.resolver j, 21), (.logger .resolverLog, 16), (.resolver j, 6), (.main, 8),
  (.requester i, 15), (.resolver j, 6), (.requester i, 12), (.logger .requesterLog, 6),
  (.requester i, 6), (.main, 8)]

theorem life_cycle_joined :
    (∃ s, sample.system.Reachable s ∧ s.main = .joinResolver 1 ∧
      (s.queue .filenameQueue).ghost.destroyed = true ∧
      ∀ q, (s.queue q).ghost.frees ≤ 1 ∧ (s.queue q).ghost.reused = false) ∧
    ∃ s, sample.system.Reachable s ∧ s.main = .returned ∧
      (s.queue .requesterLogfileQueue).ghost.frees = 2 := by
  have h1 : ∃ s ∈ orderlySchedule sample sampleDns (orderlyRun 0 0), s.main = .joinResolver 1 ∧
      (s.queue .filenameQueue).ghost.destroyed = true := by decide +kernel
  have h2 : ∃ s ∈ schedule sample sampleDns (sampleRun 0 0), s.main = .returned := by decide +kernel
  obtain ⟨s, hs, hm, hd⟩ := h1
  obtain ⟨s', hs', hm'⟩ := h2
  have hr : (sample.system.restrict Orderly).Reachable s := TransitionSystem.restrict_choose hs
  have hr' := schedule_reachable hs'
  exact ⟨⟨s, hr.of_restrict, hm, hd, (life_cycle rfl rfl).1 s hr⟩,
    s', hr', hm', (life_cycle rfl rfl).2 s' hr' (by rw [hm']; rfl)⟩

/-- `main` destroys `filename_queue` while the requester reads its last file. -/
def lateGetRun (i : Fin 1) : List (Tid 1 1 × Nat) := [
  (.main, 1), (.logger .requesterLog, 4), (.main, 1), (.logger .resolverLog, 4), (.main, 3),
  (.requester i, 4), (.main, 9), (.requester i, 19), (.logger .requesterLog, 16),
  (.requester i, 18), (.logger .requesterLog, 16), (.requester i, 15), (.main, 10),
  (.requester i, 19), (.main, 13), (.requester i, 12)]

theorem not_always_once :
    (¬ ∀ s, sample.system.Reachable s → ∀ q, (s.queue q).ghost.frees ≤ 1) ∧
    ¬ ∀ s, sample.system.Reachable s → ∀ q, (s.queue q).ghost.reused = false := by
  constructor
  · intro H
    have h : ∃ s ∈ schedule sample sampleDns (sampleRun 0 0),
        (s.queue .requesterLogfileQueue).ghost.frees = 2 := by decide +kernel
    obtain ⟨s, hs, h2⟩ := h
    have := H s (schedule_reachable hs) .requesterLogfileQueue
    omega
  · intro H
    have h : ∃ s ∈ schedule sample sampleDns (lateGetRun 0),
        (s.queue .filenameQueue).ghost.reused = true := by decide +kernel
    obtain ⟨s, hs, h2⟩ := h
    exact absurd (h2.symm.trans (H s (schedule_reachable hs) .filenameQueue)) nofun

end State
end DnsResolver
