import DnsResolver.Threaded.ThreadedDraining
import DnsResolver.Threaded.ThreadedHandler
import DnsResolver.Array.ArrayStall

/-!
# What the handler waits for

`handle_signal` takes the lock of each queue and waits until the queue is empty and no getter is
counted. The thread on whose stack it runs stays where it is until then: a lock that it holds is
not released, a getter that it is stays counted, and elements that only it would take stay in the
queue. Where the signal finds it in none of these places, the other threads can always bring about
what the handler waits for (`unblocked`). -/

namespace DnsResolver
open Function

variable {R S : Nat} {cfg : Config R S} {s s' : State R S} {t u v : Tid R S} {q q' : QName}

/-- The resolver that `main` is about to create. -/
def MainLoc.creates : MainLoc → Option Nat
  | .createResolver j => some j
  | _ => none

namespace State

/-! ## Queues that other threads can empty -/

/-- The thread has been created, and is another one than `v`. -/
def Helps (s : State R S) (v : Tid R S) : Tid R S → Prop
  | .requester i => .requester i ≠ v ∧ (s.requester i).loc ≠ .idle ∧ (s.requester i).loc ≠ .failed
  | .resolver j => .resolver j ≠ v ∧ (s.resolver j).loc ≠ .idle
  | .logger k => .logger k ≠ v ∧ s.logger k ≠ .idle
  | _ => False

/-- Threads other than `v` can empty the queue when it is shut down, and those before it in
`handle_signal` are: there is a consumer, or `main` comes to create one, and their puts find room
where they are not refused. -/
def CanEmpty (cfg : Config R S) (s : State R S) (v : Tid R S) : QName → Prop
  | .requesterLogfileQueue => s.Helps v (.logger .requesterLog)
  | .resolverLogfileQueue => s.Helps v (.logger .resolverLog)
  | .filenameQueue => ∃ i, s.Helps v (.requester i)
  | .hostnameQueue => s.Helps v (.logger .resolverLog) ∧
    ((∃ j, s.Helps v (.resolver j)) ∨
      .main ≠ v ∧ s.main.enqueuing S = true ∧
        (s.FewFiles cfg ∨ s.Helps v (.logger .requesterLog) ∧ ∃ i, s.Helps v (.requester i)))

/-- The creation of the resolver would not be missed. -/
def Dispensable (s : State R S) (v : Tid R S) (j : Nat) : Prop :=
  ∃ k : Fin S, j < k ∨ s.Helps v (.resolver k)

instance (s : State R S) (v : Tid R S) : (t : Tid R S) → Decidable (s.Helps v t)
  | .requester _ => inferInstanceAs (Decidable (_ ∧ _ ∧ _))
  | .resolver _ | .logger _ => inferInstanceAs (Decidable (_ ∧ _))
  | .main | .outsider _ => inferInstanceAs (Decidable False)

instance (cfg : Config R S) (s : State R S) : Decidable (s.FewFiles cfg) :=
  inferInstanceAs (Decidable (_ < _))

instance (cfg : Config R S) (s : State R S) (v : Tid R S) : (q : QName) →
    Decidable (s.CanEmpty cfg v q)
  | .requesterLogfileQueue => inferInstanceAs (Decidable (s.Helps v (.logger .requesterLog)))
  | .resolverLogfileQueue => inferInstanceAs (Decidable (s.Helps v (.logger .resolverLog)))
  | .filenameQueue => inferInstanceAs (Decidable (∃ i, s.Helps v (.requester i)))
  | .hostnameQueue => inferInstanceAs (Decidable (_ ∧ (_ ∨ _ ∧ _ ∧ (_ ∨ _ ∧ _))))

instance (s : State R S) (v : Tid R S) (j : Nat) : Decidable (s.Dispensable v j) :=
  inferInstanceAs (Decidable (∃ k : Fin S, j < k ∨ s.Helps v (.resolver k)))

theorem mainStep_createResolver {c : Choice} {j : Nat} {l : MainLoc} {e : Effect R S} (hj : j < S)
    (h : mainStep cfg s c (.createResolver j) = some (l, e)) :
    l = .createResolver (j + 1) ∧ (c = .fail ∨ e.spawn = .resolver ⟨j, hj⟩ true) := by
  cases c with
  | ok =>
    simp only [mainStep, dif_pos hj, Option.some.injEq, Prod.mk.injEq] at h
    exact ⟨h.1.symm, .inr (h.2 ▸ rfl)⟩
  | fail =>
    simp only [mainStep, dif_pos hj, Option.ite_none_right_eq_some, Option.some.injEq,
      Prod.mk.injEq] at h
    exact ⟨h.2.1.symm, .inl rfl⟩
  | answer =>
    simp only [mainStep, dif_pos hj] at h
    cases h

theorem Helps.step {a : Act R S} (hh : s.Helps v t) (H : cfg.system.Reachable s)
    (h : s.step cfg a = some s') : s'.Helps v t := by
  by_cases ht : t = a.thread
  · rcases (step_cases h).2 with ⟨u, c, rfl, h'⟩ | ⟨q, u, mv, m, rfl, -, rfl⟩
    · obtain rfl : t = u := ht
      cases h' with
      | main | outsiderFree | outsiderDone => cases hh
      | requester h' =>
        refine ⟨hh.1, ?_⟩
        rw [setRequester_self]
        exact h'.running
      | resolver h' =>
        refine ⟨hh.1, ?_⟩
        rw [setResolver_self]
        exact h'.running
      | logger h' =>
        refine ⟨hh.1, ?_⟩
        simp only [update_self]
        exact h'.running
    · exact hh
  · have hst := stays_step H h ht
    cases t with
    | main | outsider => cases hh
    | requester i => exact ⟨hh.1, by rw [hst hh.2.1]; exact hh.2⟩
    | resolver j => exact ⟨hh.1, by rw [hst hh.2]; exact hh.2⟩
    | logger k => exact ⟨hh.1, by rw [hst hh.2]; exact hh.2⟩

/-- What can be emptied can still be emptied after a step of another thread, if the creation of the
last resolver does not fail. -/
theorem CanEmpty.step {a : Act R S} (hc : s.CanEmpty cfg v q) (H : cfg.system.Reachable s)
    (h : s.step cfg a = some s') (hv : ∀ j, v = .resolver j → (s.resolver j).loc ≠ .idle)
    (hfail : q = .hostnameQueue → a = .stmt .main .fail → ∀ j, s.main = .createResolver j →
      s.Dispensable v j) : s'.CanEmpty cfg v q := by
  cases q with
  | requesterLogfileQueue => exact Helps.step (t := .logger .requesterLog) hc H h
  | resolverLogfileQueue => exact Helps.step (t := .logger .resolverLog) hc H h
  | filenameQueue => exact hc.imp fun _ hh => hh.step H h
  | hostnameQueue =>
    obtain ⟨hlog, hc⟩ := hc
    refine ⟨hlog.step H h, ?_⟩
    rcases hc with ⟨j, hj⟩ | ⟨hm, he, hf⟩
    · exact .inl ⟨j, hj.step H h⟩
    have hf' : s'.FewFiles cfg ∨ s'.Helps v (.logger .requesterLog) ∧ ∃ i, s'.Helps v (.requester i) :=
      hf.imp (·.step H h) fun ⟨h1, i, h2⟩ => ⟨h1.step H h, i, h2.step H h⟩
    suffices hs : (∃ j, s'.Helps v (.resolver j)) ∨ s'.main.enqueuing S = true from
      hs.imp_right fun he' => ⟨hm, he', hf'⟩
    have hmain : s'.main = s.main → s'.main.enqueuing S = true := fun e => e ▸ he
    cases a with
    | call q t mv =>
      obtain ⟨_, _, h0, -⟩ | ⟨_, _, _, _, -, -, rfl⟩ := (step_cases h).2
      · cases h0
      · exact .inr he
    | stmt t c =>
      have hstep' := h
      have he₀ := (State.step_cases h).1
      rw [State.step, he₀] at h
      by_cases ht : t = .main
      · subst ht
        by_cases hj : ∃ j, s.main = .createResolver j
        · obtain ⟨j, hj⟩ := hj
          rw [hj] at he
          have hjS := of_decide_eq_true he
          obtain ⟨⟨l, e⟩, hstep, rfl⟩ := Option.map_eq_some_iff.1 h
          rw [hj] at hstep
          obtain ⟨rfl, rfl | hsp⟩ := mainStep_createResolver hjS hstep
          · obtain ⟨k, hk | hk⟩ := hfail rfl rfl j hj
            · exact .inr (decide_eq_true ((Nat.succ_le_of_lt hk).trans_lt k.2))
            · exact .inl ⟨k, hk.step H hstep'⟩
          · left
            refine ⟨⟨j, hjS⟩, fun e0 => ?_, ?_⟩
            · refine hv _ e0.symm ((synced_reachable H).fresh.resolver _ ?_)
              rw [hj]
              exact decide_eq_true le_rfl
            · simp [hsp, spawn]
        · obtain ⟨e, hst, -⟩ := main_step (stmt_cases h)
          exact .inr (hst.rank (wellTyped_reachable H).main he fun j h0 => hj ⟨j, h0⟩).1
      · exact .inr (hmain (Stmt.main_eq (synced_reachable H).fresh (stmt_cases h) ht))

/-- The threads that hold the locks of queues come to release them. -/
theorem unlock {P : Tid R S → Prop} (H : cfg.system.Reachable s) (he : s.ended = false)
    (hP : ∀ q u, (s.queue q).arr.lock = some u → P u) :
    ∃ f, (cfg.system.restrict (StepsOf P)).Leads s { s with queue := f } ∧
      Calm cfg { s with queue := f } := by
  have hall : ∀ qs : List QName, ∃ f,
      (cfg.system.restrict (StepsOf P)).Leads s { s with queue := f } ∧
      (∀ q ∈ qs, (f q).arr.lock = none) ∧ ∀ q u, (f q).arr.lock = some u → P u := fun qs => by
    induction qs with
    | nil => exact ⟨s.queue, .refl, by simp, hP⟩
    | cons q qs ih =>
      obtain ⟨f, h, hnone, hP⟩ := ih
      obtain ⟨m, hm, hl⟩ := (queue_inv (H.leads h.of_restrict) q).unlocks (hP q)
      refine ⟨update f q m, h.trans (moves_leads he hm), fun q' hq' => ?_, fun q' u hu => ?_⟩
      · by_cases hq : q' = q
        · subst hq
          rwa [update_self]
        · rw [update_of_ne hq]
          exact hnone q' ((List.mem_cons.1 hq').resolve_left hq)
      · by_cases hq : q' = q
        · subst hq
          rw [update_self, hl] at hu
          cases hu
        · rw [update_of_ne hq] at hu
          exact hP q' u hu
  obtain ⟨f, h, hnone, -⟩ := hall allQueues
  exact ⟨f, h, H.leads h.of_restrict, he, fun q => hnone q (mem_allQueues q)⟩

/-- The threads of the program other than `v`. -/
def Others (v u : Tid R S) : Prop := u ≠ v ∧ ∀ q, u ≠ .outsider q

/-- Threads other than `v` empty a queue that is shut down, after those before it. -/
theorem CanEmpty.leads (hans : ∀ host, ∃ a, cfg.answers host a = true) (hc : s.CanEmpty cfg v q)
    (H : cfg.system.Reachable s) (he : s.ended = false)
    (hl : ∀ q u, (s.queue q).arr.lock = some u → Others v u)
    (hv : ∀ j, v = .resolver j → (s.resolver j).loc ≠ .idle)
    (hsh : (s.queue q).arr.shutdown = true)
    (hsh' : q = .filenameQueue → ∀ q', (s.queue q').arr.shutdown = true) :
    ∃ s', (cfg.system.restrict (StepsOf (Others v))).Leads s s' ∧ (s'.queue q).items = [] := by
  obtain ⟨f, h, C⟩ := unlock H he hl
  have hshut : ∀ q', (s.queue q').arr.shutdown = true → (f q').arr.shutdown = true :=
    fun q' h' => (items_shut H h h').1
  have hlogger : ∀ k, s.Helps v (.logger k) → ∃ s',
      (cfg.system.restrict (StepsOf (Others v))).Leads s s' ∧ (s'.queue k.queue).items = [] :=
    fun k hk => by
      obtain ⟨s', h', -, -, hi⟩ := C.logger_drains hk.2
      exact ⟨s', h.trans (stepsOf_mono (fun u (hu : u = .logger k) => hu ▸ ⟨hk.1, by simp⟩) h'), hi⟩
  cases q with
  | requesterLogfileQueue => exact hlogger .requesterLog hc
  | resolverLogfileQueue => exact hlogger .resolverLog hc
  | filenameQueue =>
    obtain ⟨i, hi⟩ := hc
    obtain ⟨s', h', -, -, hi⟩ := C.files_drain (P := Others v) ⟨hi.1, by simp⟩ hi.2
      (.inl (hshut _ (hsh' rfl _))) (hshut _ (hsh' rfl _))
    exact ⟨s', h.trans h', hi⟩
  | hostnameQueue =>
    obtain ⟨hlog, hc⟩ := hc
    have hserved : LogServed (Others v) { s with queue := f } .resolverLog :=
      .inr ⟨⟨hlog.1, by simp⟩, hlog.2⟩
    rcases hc with ⟨j, hj⟩ | ⟨hm, hen, hf⟩
    · obtain ⟨s', h', hi⟩ := C.hosts_drain hans (P := Others v) ⟨hj.1, by simp⟩ hj.2 hserved
        (hshut _ hsh)
      exact ⟨s', h.trans h', hi⟩
    · have hfiles : FilesServed (Others v) cfg { s with queue := f } :=
        hf.imp (fun hf => h.keeps (I := fun s => s.FewFiles cfg) (fun _ _ _ H _ h hf => hf.step H h) H hf)
          fun ⟨h1, i, h2⟩ => ⟨.inr ⟨⟨h1.1, by simp⟩, h1.2⟩, i, ⟨h2.1, by simp⟩, h2.2⟩
      obtain ⟨s₁, h₁, C₁, hserved₁, j, hj, hj₁⟩ := C.resolver_comes (P := Others v) ⟨hm, by simp⟩ hen
        (hshut _ hsh) hfiles
      have hjv : Others v (.resolver j) := ⟨fun e => hv j e.symm hj, by simp⟩
      obtain ⟨s', h', hi⟩ := C₁.hosts_drain hans (P := Others v) hjv hj₁ (hserved₁ hserved)
        (items_shut C.reachable h₁ (hshut _ hsh)).1
      exact ⟨s', (h.trans h₁).trans h', hi⟩

end State

/-- `array_free` begins to wait for the queue to be emptied when it finds it not empty. -/
theorem CallStep.drains {T α : Type} {N : Nat} {t : T} {a : ArrayState T α} {c : Call α}
    {o : Out T α} (h : CallStep N t a c o) (ho : o.call.awaitsEmptied = true) :
    c.awaitsEmptied = true ∨ c = .free .drain ∧ a.empty = false := by
  cases h with
  | free_drain he => exact .inr ⟨rfl, he⟩
  | free_drainWakeGetters | free_drainWakePutters | free_waitEmptied => exact .inl rfl
  | _ => cases ho

theorem Call.awaitsEmptied_wake {c : Call α} {r : WaitResult} :
    (c.wake r).awaitsEmptied = true → c.awaitsEmptied = true := by
  unfold Call.wake
  split <;> first | exact id | exact fun h => by cases h

namespace State

/-- The handler begins to wait for a queue to be emptied in a step of its own. -/
theorem awaits_step {b : Act R S} (H : cfg.system.Reachable s) (h : s.step cfg b = some s')
    (ha : ((s'.queue q).call (.outsider q)).awaitsEmptied = true) :
    ((s.queue q).call (.outsider q)).awaitsEmptied = true ∨
      (∃ mv, b = .call q (.outsider q) mv) ∧ (s.queue q).call (.outsider q) = .free .drain ∧
        (s.queue q).arr.empty = false := by
  rcases (step_cases h).2 with ⟨t, c, rfl, h'⟩ | ⟨q', t, mv, m, rfl, h', rfl⟩
  · by_cases ht : .outsider q = t
    · subst ht
      rw [(synced_reachable H).call_self h'] at ha
      cases ho : opAt (s'.op (.outsider q)) q with
      | none =>
        rw [ho] at ha
        cases ha
      | some o =>
        rw [ho] at ha
        cases o <;> cases ha
    · rw [call_of_ne h' ht] at ha
      exact .inl ha
  · by_cases hq : q = q'
    · subst hq
      rw [setQueue_self] at ha
      rcases Monitor.move_cases h' with ⟨o, w, call', hs, hw, -, rfl⟩ | ⟨r, x, -, -, -, rfl⟩
      · by_cases ht : .outsider q = t
        · subst ht
          simp only [update_self] at ha
          exact (hs.drains ha).imp_right fun hd => ⟨⟨mv, rfl⟩, hd⟩
        · simp only [update_of_ne ht] at ha
          rcases Monitor.wakeUp_apply hw (.outsider q) with h1 | ⟨_, _, _, h1⟩
          · exact .inl (h1 ▸ ha)
          · exact .inl (Call.awaitsEmptied_wake (h1 ▸ ha))
      · by_cases ht : .outsider q = t
        · subst ht
          simp only [update_self] at ha
          exact .inl (Call.awaitsEmptied_wake ha)
        · simp only [update_of_ne ht] at ha
          exact .inl ha
    · rw [setQueue_of_ne m hq] at ha
      exact .inl ha

end State

namespace Process
open State
variable {p p' : Process R S} {a : ProcessAct R S} {h : Handler R S}

/-- The signal comes before `main` frees a queue. -/
def Early (p : Process R S) : ProcessAct R S → Prop
  | .signal _ => p.state.main.enqueued = false ∧ p.state.main.aborting = false
  | _ => True

/-- The thread on whose stack the handler runs, and the queue that the handler has to free next. -/
def freeing (p : Process R S) : Option (Tid R S × QName) :=
  match p.handler with
  | some ⟨v, q :: _, _, _⟩ => some (v, q)
  | _ => none

/-- The steps that leave the handler's waits to other threads. The thread that the signal finds has
no lock of a queue and is not counted as a getter; when the handler finds a queue not empty, other
threads can empty it; and while `hostname_queue` is not empty the creation of the last resolver
does not fail. -/
def Clear (cfg : Config R S) (p : Process R S) : ProcessAct R S → Prop
  | .signal t => ∀ q, ((p.state.queue q).call t).holdsLock = false ∧
      ((p.state.queue q).call t).counted = false
  | .move _ => ∀ f ∈ p.freeing, (p.state.queue f.2).call (.outsider f.2) = .free .drain →
      (p.state.queue f.2).arr.empty = false → p.state.CanEmpty cfg f.1 f.2
  | .thread (.stmt .main .fail) => ∀ f ∈ p.freeing, f.2 = .hostnameQueue →
      (p.state.queue .hostnameQueue).arr.empty = false →
      ∀ j ∈ p.state.main.creates, p.state.Dispensable f.1 j
  | _ => True

instance (cfg : Config R S) (p : Process R S) : (a : ProcessAct R S) → Decidable (p.Clear cfg a)
  | .signal t => inferInstanceAs (Decidable (∀ q, ((p.state.queue q).call t).holdsLock = false ∧
      ((p.state.queue q).call t).counted = false))
  | .move _ => inferInstanceAs (Decidable (∀ f ∈ p.freeing, _ → _ → p.state.CanEmpty cfg f.1 f.2))
  | .thread (.stmt .main .fail) => inferInstanceAs (Decidable (∀ f ∈ p.freeing,
      f.2 = .hostnameQueue → _ → ∀ j ∈ p.state.main.creates, p.state.Dispensable f.1 j))
  | .thread (.stmt .main .ok) | .thread (.stmt .main (.answer _)) => .isTrue trivial
  | .thread (.stmt (.requester _) _) | .thread (.stmt (.resolver _) _) => .isTrue trivial
  | .thread (.stmt (.logger _) _) | .thread (.stmt (.outsider _) _) => .isTrue trivial
  | .thread (.call ..) | .free | .exit => .isTrue trivial

instance (p : Process R S) : (a : ProcessAct R S) → Decidable (p.Early a)
  | .signal _ => inferInstanceAs (Decidable (_ ∧ _))
  | .thread _ | .free | .move _ | .exit => .isTrue trivial

/-- The steps of other threads than the interrupted one, without spurious wake-ups. -/
def Unaided (_ : Process R S) : ProcessAct R S → Prop
  | .thread (.call _ _ mv) => mv ≠ .spurious
  | .thread (.stmt ..) => True
  | _ => False

/-- The handler does not block on its own thread `v`: `v` has no lock of a queue, and when the
handler waits for a queue to be empty or for its getters to leave, the other threads can bring that
about. -/
structure Unblocked (cfg : Config R S) (p : Process R S) (v : Tid R S) : Prop where
  lock : ∀ q, (p.state.queue q).arr.lock ≠ some v
  empty : ∀ q, (p.state.queue q).call (.outsider q) = .free .asleepEmptied →
    ∃ p', (cfg.process.restrict Unaided).Leads p p' ∧ (p'.state.queue q).arr.empty = true
  done : ∀ q, (p.state.queue q).call (.outsider q) = .free .asleepDone →
    ∃ p', (cfg.process.restrict Unaided).Leads p p' ∧ (p'.state.queue q).arr.activeGetters = 0

/-- What the clear steps keep while the handler runs. -/
structure Attended (cfg : Config R S) (p : Process R S) (h : Handler R S) : Prop where
  order : h.todo <:+ allQueues
  exited : p.exited = true → h.todo = []
  current : ∀ q, p.state.outsider q = true → ∃ qs, h.todo = q :: qs
  shut : ∀ q, q ∉ h.todo → (p.state.queue q).arr.shutdown = true
  program : ∀ q, h.victim ≠ .outsider q
  created : ∀ j, h.victim = .resolver j → (p.state.resolver j).loc ≠ .idle
  clear : ∀ q, ((p.state.queue q).call h.victim).holdsLock = false ∧
    ((p.state.queue q).call h.victim).counted = false
  empties : ∀ q, ((p.state.queue q).call (.outsider q)).awaitsEmptied = true →
    (p.state.queue q).items = [] ∨ p.state.CanEmpty cfg h.victim q

/-- An outsider is in an `array_free` on its queue, or in no call. -/
theorem outsider_call (H : cfg.system.Reachable s) (q q' : QName)
    (hc : (s.queue q').call (.outsider q) ≠ .idle) :
    q' = q ∧ s.outsider q = true ∧ ((s.queue q').call (.outsider q)).op = some .free := by
  have hop := (synced_reachable H).op q' (.outsider q)
  cases hout : s.outsider q with
  | false =>
    rw [op, if_neg (by simp [hout])] at hop
    exact absurd (Call.op_eq_none.1 hop) hc
  | true =>
    rw [op, if_pos hout] at hop
    by_cases hq : q = q'
    · subst hq
      simp only [opAt, Option.bind_some, if_true] at hop
      exact ⟨rfl, rfl, hop⟩
    · simp only [opAt, Option.bind_some, if_neg hq] at hop
      exact absurd (Call.op_eq_none.1 hop) hc

/-- Only the queue that the handler is freeing is waited for. -/
theorem outsider_of_awaits (H : cfg.system.Reachable s)
    (ha : ((s.queue q).call (.outsider q)).awaitsEmptied = true) : s.outsider q = true := by
  refine (outsider_call H q q fun h0 => ?_).2.1
  rw [h0] at ha
  cases ha

/-- What no wake-up changes of the calls of a thread, the steps of other threads leave alone. -/
theorem call_congr {β : Type} {f : Call Str → β} (hf : ∀ (r : WaitResult) c, f (c.wake r) = f c)
    {b : Act R S} (hs : s.step cfg b = some s') (hv : b.thread ≠ v) (q : QName) :
    f ((s'.queue q).call v) = f ((s.queue q).call v) := by
  rcases (State.step_cases hs).2 with ⟨t, c, rfl, h'⟩ | ⟨q', t, mv, m, rfl, h', rfl⟩
  · rw [call_of_ne h' hv.symm]
  · by_cases hq : q = q'
    · subst hq
      rw [setQueue_self, Monitor.move_congr hf h' hv.symm]
    · rw [setQueue_of_ne m hq]

theorem victim_ne (hp : p.handler = some h) (hprog : ∀ q, h.victim ≠ .outsider q)
    (hf : p.frozen t = false) : t ≠ h.victim := by
  rintro rfl
  generalize hv : h.victim = v at hf hprog
  cases v with
  | outsider q => exact hprog q rfl
  | _ => simp [frozen, hp, hv] at hf

/-- The thread on whose stack the handler runs stays where it is. -/
theorem frozen_leads {β : Type} {f : Call Str → β} (hf : ∀ (r : WaitResult) c, f (c.wake r) = f c)
    (hp : p.handler = some h) (hprog : ∀ q, h.victim ≠ .outsider q) (q : QName)
    (hl : cfg.process.Leads p p') : (∃ h', p'.handler = some h' ∧ h'.victim = h.victim) ∧
      f ((p'.state.queue q).call h.victim) = f ((p.state.queue q).call h.victim) := by
  induction hl with
  | refl => exact ⟨⟨h, hp, rfl⟩, rfl⟩
  | tail _ hs ih =>
    obtain ⟨⟨h₁, hp₁, hv⟩, hfz⟩ := ih
    obtain ⟨a, hs⟩ := hs
    cases (step_cases hs).2 with
    | thread b hb hst hh =>
      have hne := hv ▸ victim_ne hp₁ (hv ▸ hprog) hb
      exact ⟨⟨h₁, hh ▸ hp₁, hv⟩, (call_congr hf hst hne q).trans hfz⟩
    | signal t _ hn =>
      rw [hn] at hp₁
      cases hp₁
    | free q' hh hst hh' =>
      cases hp₁.symm.trans hh
      exact ⟨⟨_, hh', hv⟩, (call_congr hf hst (hprog q').symm q).trans hfz⟩
    | move q' hh hst hh' =>
      exact ⟨⟨h₁, hh' ▸ hp₁, hv⟩, (call_congr hf hst (hprog q').symm q).trans hfz⟩
    | exit hh hst hh' => exact ⟨⟨h₁, hh' ▸ hp₁, hv⟩, by rw [hst, hfz]⟩

theorem Attended.created_step (A : p.Attended cfg h) (H : cfg.process.Reachable p) {b : Act R S}
    (hs : p.state.step cfg.interruptible b = some s') (hb : b.thread ≠ h.victim) (j : Fin S)
    (hj : h.victim = .resolver j) : (s'.resolver j).loc ≠ .idle := by
  have hn := A.created j hj
  rw [stays_step (state_reachable H) hs (u := .resolver j) (hj ▸ hb.symm) hn]
  exact hn

theorem canEmpty_interruptible : s.CanEmpty cfg.interruptible v q ↔ s.CanEmpty cfg v q := Iff.rfl

theorem Attended.empties_step (A : p.Attended cfg h) (H : cfg.process.Reachable p) {b : Act R S}
    (hs : p.state.step cfg.interruptible b = some s')
    (hdrain : ∀ mv, b = .call q (.outsider q) mv →
      (p.state.queue q).call (.outsider q) = .free .drain → (p.state.queue q).arr.empty = false →
      p.state.CanEmpty cfg h.victim q)
    (hfail : ∀ qs, h.todo = .hostnameQueue :: qs → b = .stmt .main .fail →
      (p.state.queue .hostnameQueue).arr.empty = false → ∀ j, p.state.main = .createResolver j →
      p.state.Dispensable h.victim j)
    (ha : ((s'.queue q).call (.outsider q)).awaitsEmptied = true) :
    (s'.queue q).items = [] ∨ s'.CanEmpty cfg h.victim q := by
  have hr := state_reachable H
  have hi := queue_inv hr q
  have hempty : (p.state.queue q).items ≠ [] → (p.state.queue q).arr.empty = false :=
    empty_of_items hr
  rcases awaits_step hr hs ha with ha | ⟨⟨mv, rfl⟩, hc, he⟩
  · by_cases hi0 : (p.state.queue q).items = []
    · have hsh := (hi.asserts (.outsider q)).shutdown_of_awaits ha
      exact .inl (drained_step hr hs ⟨hsh, hi0⟩).2
    · have hce := (A.empties q ha).resolve_left hi0
      obtain ⟨qs, hqs⟩ := A.current q (outsider_of_awaits hr ha)
      refine .inr (canEmpty_interruptible.1 ((canEmpty_interruptible.2 hce).step hr hs A.created ?_))
      rintro rfl hb j hj
      exact hfail qs hqs hb (hempty hi0) j hj
  · have hce := hdrain mv rfl hc he
    refine .inr (canEmpty_interruptible.1 ((canEmpty_interruptible.2 hce).step hr hs A.created ?_))
    rintro - hb
    cases hb

/-- A step of the program, or of the handler in the program. -/
theorem Attended.step (A : p.Attended cfg h) (H : cfg.process.Reachable p) {h' : Handler R S}
    {b : Act R S} (hs : p.state.step cfg.interruptible b = some p'.state)
    (hb : b.thread ≠ h.victim) (hx : p'.exited = false) (hv : h'.victim = h.victim)
    (hord : h'.todo <:+ allQueues)
    (hcur : ∀ q, p'.state.outsider q = true → ∃ qs, h'.todo = q :: qs)
    (hsh : ∀ q, q ∉ h'.todo → (p.state.queue q).arr.shutdown = true)
    (hdrain : ∀ q mv, b = .call q (.outsider q) mv →
      (p.state.queue q).call (.outsider q) = .free .drain → (p.state.queue q).arr.empty = false →
      p.state.CanEmpty cfg h.victim q)
    (hfail : ∀ qs, h.todo = .hostnameQueue :: qs → b = .stmt .main .fail →
      (p.state.queue .hostnameQueue).arr.empty = false → ∀ j, p.state.main = .createResolver j →
      p.state.Dispensable h.victim j) : p'.Attended cfg h' where
  order := hord
  exited hx' := by
    rw [hx] at hx'
    cases hx'
  current := hcur
  shut q hq := shutdown_step (state_reachable H) hs (hsh q hq)
  program q := by
    rw [hv]
    exact A.program q
  created j hj := A.created_step H hs hb j (hv ▸ hj)
  clear q := by
    rw [hv, call_congr (fun _ _ => Call.holdsLock_wake) hs hb q,
      call_congr (fun _ _ => Call.counted_wake) hs hb q]
    exact A.clear q
  empties q ha := by
    rw [hv]
    exact A.empties_step H hs (hdrain q) hfail ha

theorem Attended.thread (A : p.Attended cfg h) (H : cfg.process.Reachable p)
    (hp : p.handler = some h) {b : Act R S} (hc : p.Clear cfg (.thread b))
    (hf : p.frozen b.thread = false) (hs : p.state.step cfg.interruptible b = some p'.state)
    (hx : p'.exited = false) : p'.Attended cfg h := by
  have hout : ∀ q, b.thread ≠ .outsider q := fun q hq => by
    rw [hq] at hf
    cases hf
  have hb : b.thread ≠ h.victim := victim_ne hp A.program hf
  refine A.step H hs hb hx rfl A.order (fun q hq => A.current q ?_) A.shut (fun q mv e => ?_)
    fun qs hqs e he j hj => ?_
  · have hst : p'.state.outsider q = p.state.outsider q :=
      stays_step (state_reachable H) hs (u := .outsider q) (hout q).symm
    rwa [← hst]
  · exact absurd (by rw [e]; rfl) (hout q)
  · subst e
    obtain ⟨v, todo, ok, acc⟩ := h
    obtain rfl : todo = .hostnameQueue :: qs := hqs
    simp only [Clear, freeing, hp, Option.mem_def] at hc
    exact hc _ rfl rfl he j (by rw [hj]; rfl)

theorem Attended.signal (H : cfg.process.Reachable p) (hn : p.handler = none)
    (hr : p.state.running t = true) (hc : p.Clear cfg (.signal t)) (hs : p'.state = p.state)
    (hx : p'.exited = false) {ok acc : List Str} : p'.Attended cfg ⟨t, allQueues, ok, acc⟩ := by
  have hout : ∀ q, p.state.outsider q = false := no_outsider rfl (uninterrupted H hn)
  refine ⟨List.suffix_refl _, fun hx' => ?_, fun q hq => ?_, fun q hq => ?_, fun q e => ?_,
    fun j e => ?_, fun q => ?_, fun q ha => ?_⟩
  · rw [hx] at hx'
    cases hx'
  · rw [hs, hout q] at hq
    cases hq
  · exact absurd (mem_allQueues q) hq
  · obtain rfl : t = .outsider q := e
    cases hr
  · obtain rfl : t = .resolver j := e
    rw [hs]
    intro h0
    simp [running, h0] at hr
  · rw [hs]
    exact hc q
  · rw [hs] at ha
    have := (hout q).symm.trans (outsider_of_awaits (state_reachable H) ha)
    cases this

theorem Attended.free {v : Tid R S} {qs : List QName} {ok acc : List Str}
    (A : p.Attended cfg ⟨v, q :: qs, ok, acc⟩) (H : cfg.process.Reachable p)
    (hs : p.state.step cfg.interruptible (.stmt (.outsider q) .ok) = some p'.state)
    (hx : p'.exited = false) :
    p'.Attended cfg ⟨v, if p.state.outsider q then qs else q :: qs, ok, acc⟩ := by
  have hr := state_reachable H
  have hb : (Act.stmt (.outsider q) .ok : Act R S).thread ≠ v := (A.program q).symm
  have hother : ∀ q', q' ≠ q → p'.state.outsider q' = false := fun q' hq => by
    have hst : p'.state.outsider q' = p.state.outsider q' :=
      stays_step hr hs (u := .outsider q') fun e => hq (Tid.outsider.inj e)
    rw [hst, ← Bool.not_eq_true]
    intro h0
    obtain ⟨qs', e⟩ := A.current q' h0
    cases e
    exact hq rfl
  have hstmt : Stmt cfg.interruptible p.state (.outsider q) p'.state := by
    obtain ⟨t, c, e, h⟩ | ⟨_, _, _, _, e, -⟩ := (State.step_cases hs).2
    · cases e
      exact h
    · cases e
  refine A.step H hs hb hx rfl ?_ (fun q' hq' => ?_) (fun q' hq' => ?_) (fun q' mv e => by cases e)
    fun qs' _ e => by cases e
  · dsimp only
    split
    · exact (List.suffix_cons q qs).trans A.order
    · exact A.order
  · obtain rfl : q' = q := by
      by_contra hq
      rw [hother q' hq] at hq'
      cases hq'
    generalize p'.state = s' at hstmt hq'
    cases hstmt with
    | outsiderFree _ h0 => exact ⟨qs, by simp [h0]⟩
    | outsiderDone =>
      simp only [update_self] at hq'
      cases hq'
  · by_cases hq : q' ∈ q :: qs
    · -- the handler comes back from its `array_free`
      have hout : p.state.outsider q = true := by
        by_contra h0
        exact hq' (by rwa [if_neg h0])
      rw [if_pos hout] at hq'
      obtain rfl := (List.mem_cons.1 hq).resolve_right hq'
      have ha := (queue_inv hr q').asserts (.outsider q')
      generalize p'.state = s' at hstmt
      cases hstmt with
      | outsiderFree _ h0 =>
        rw [hout] at h0
        cases h0
      | outsiderDone _ _ hc =>
        rw [hc] at ha
        exact ha
    · exact A.shut q' hq

theorem Attended.move {v : Tid R S} {qs : List QName} {ok acc : List Str} {mv : Move (Tid R S)}
    (A : p.Attended cfg ⟨v, q :: qs, ok, acc⟩) (H : cfg.process.Reachable p)
    (hp : p.handler = some ⟨v, q :: qs, ok, acc⟩) (hc : p.Clear cfg (.move mv))
    (hs : p.state.step cfg.interruptible (.call q (.outsider q) mv) = some p'.state)
    (hx : p'.exited = false) : p'.Attended cfg ⟨v, q :: qs, ok, acc⟩ := by
  have hout : p'.state.outsider = p.state.outsider := by
    obtain ⟨_, _, e, -⟩ | ⟨_, _, _, _, -, -, e⟩ := (State.step_cases hs).2
    · cases e
    · rw [e]
      rfl
  refine A.step H hs (A.program q).symm hx rfl A.order (fun q' hq' => A.current q' (hout ▸ hq'))
    A.shut (fun q' mv' e => ?_) fun qs' _ e => by cases e
  cases e
  simp only [Clear, freeing, hp, Option.mem_def] at hc
  exact hc _ rfl

theorem attended_reachable (H : (cfg.process.restrict (Clear cfg)).Reachable p) :
    ∀ h, p.handler = some h → p.Attended cfg h := by
  induction H with
  | init h0 =>
    rw [h0]
    simp
  | @step p a p' H hs ih =>
    obtain ⟨hc, hs⟩ := hs
    have H := H.of_restrict
    intro h hp
    cases (step_cases hs).2 with
    | thread b hf hb hh hx => exact (ih h (hh ▸ hp)).thread H (hh ▸ hp) hc hf hb hx
    | signal t hr hn hb hh hx =>
      cases hh.symm.trans hp
      exact Attended.signal H hn hr hc hb hx
    | free q hh hb hh' hx =>
      cases hh'.symm.trans hp
      exact (ih _ hh).free H hb hx
    | move q hh hb hh' hx =>
      cases (hh'.trans hh).symm.trans hp
      exact (ih _ hh).move H hh hc hb hx
    | exit hh hb hh' hx =>
      cases (hh'.trans hh).symm.trans hp
      obtain ⟨h1, -, h3, h4, h5, h6, h7, h8⟩ := ih _ hh
      rw [← hb] at *
      exact ⟨h1, fun _ => rfl, h3, h4, h5, h6, h7, h8⟩

/-- A run of the other threads is one of the process. -/
theorem threads_leads (hp : p.handler = some h) (hx : p.exited = false)
    (hl : (cfg.interruptible.system.restrict (StepsOf (Others h.victim))).Leads p.state s') :
    (cfg.process.restrict Unaided).Leads p { p with state := s' } := by
  induction hl with
  | refl => exact .refl
  | @tail s₁ s₂ _ hs ih =>
    obtain ⟨b, hb, hs⟩ := hs
    have hf : frozen { p with state := s₁ } b.thread = false := by
      obtain ⟨h1, h2⟩ := StepsOf.thread hb
      cases ht : b.thread with
      | outsider q => exact absurd ht (h2 q)
      | _ =>
        rw [ht] at h1
        simp [frozen, hp, Ne.symm h1]
    have hstep : step cfg { p with state := s₁ } (.thread b) = some { p with state := s₂ } := by
      have hs : s₁.step cfg.interruptible b = some s₂ := hs
      rw [step, hf]
      simp [hx, hs]
    refine TransitionSystem.Leads.tail ih (a := ProcessAct.thread b) ⟨?_, hstep⟩
    cases b with
    | stmt => trivial
    | call => exact hb.2

theorem Attended.locks (A : p.Attended cfg h) (H : cfg.process.Reachable p) :
    (p.state.queue q).arr.lock ≠ some h.victim := fun hl => by
  have hv := ((queue_inv (state_reachable H) q).lock h.victim).1 hl
  rw [(A.clear q).1] at hv
  cases hv

/-- While the handler sleeps, other threads of the program hold the locks. -/
theorem Attended.holders (A : p.Attended cfg h) (H : cfg.process.Reachable p)
    (hs : ((p.state.queue q).call (.outsider q)).asleepOn.isSome = true)
    (hl : (p.state.queue q').arr.lock = some u) : Others h.victim u := by
  have hr := state_reachable H
  refine ⟨fun e => A.locks H (e ▸ hl), fun q₁ e => ?_⟩
  subst e
  have hu := ((queue_inv hr q').lock _).1 hl
  have hidle : ∀ {q₁ q₂ : QName}, (p.state.queue q₁).call (.outsider q₂) = .idle →
      ((p.state.queue q₁).call (.outsider q₂)).asleepOn.isSome = false ∧
      ((p.state.queue q₁).call (.outsider q₂)).holdsLock = false := fun h0 => by rw [h0]; exact ⟨rfl, rfl⟩
  obtain ⟨rfl, hout, -⟩ := outsider_call hr q₁ q' fun h0 => by
    rw [(hidle h0).2] at hu
    cases hu
  obtain ⟨-, hout', -⟩ := outsider_call hr q q fun h0 => by
    rw [(hidle h0).1] at hs
    cases hs
  -- the handler frees one queue at a time
  obtain ⟨qs, e⟩ := A.current _ hout
  obtain ⟨qs', e'⟩ := A.current _ hout'
  cases e.symm.trans e'
  rw [Monitor.awake_of_holdsLock hu] at hs
  cases hs

/-- A getter that the signal has interrupted stays counted. -/
theorem counted_blocks (H : cfg.process.Reachable p) (hp : p.handler = some h)
    (hprog : ∀ q, h.victim ≠ .outsider q)
    (hc : ((p.state.queue q).call h.victim).counted = true) (hl : cfg.process.Leads p p') :
    (p'.state.queue q).arr.activeGetters ≠ 0 := by
  have hc' := (frozen_leads (f := Call.counted) (fun _ _ => Call.counted_wake) hp hprog q hl).2
  have hcount : (p'.state.queue q).arr.activeGetters =
      Tally.tally Call.counted (p'.state.queue q).call :=
    Monitor.activeGetters_exact (queue_reachable (state_reachable (H.leads hl)) q)
  have hpos : 0 < Tally.tally Call.counted (p'.state.queue q).call :=
    Tally.tally_pos.2 ⟨h.victim, hc'.trans hc⟩
  omega

/-- The process after the turns of a list, if every step meets the condition. -/
def guardedSchedule (ok : Process R S → ProcessAct R S → Prop) [∀ p a, Decidable (ok p a)]
    (cfg : Config R S) (dns : Bytes → Option Bytes) (v : Tid R S)
    (turns : List (Option (Tid R S) × Nat)) : Option (Process R S) :=
  TransitionSystem.exec
    (fun p t => TransitionSystem.guarded ok (step cfg) p (p.nextAct cfg dns v t))
    (turns.flatMap fun p => List.replicate p.2 p.1) ⟨.init, none, false⟩

/-- The signal interrupts `main` when it has created the resolver, with three hostnames in
`hostname_queue`; the handler goes to sleep on it. -/
def interruptedFull (i : Fin 1) : List (Option (Tid 1 1) × Nat) := [
  (some .main, 1), (some (.logger .requesterLog), 4), (some .main, 1),
  (some (.logger .resolverLog), 4), (some .main, 3), (some (.requester i), 4), (some .main, 9),
  (some (.requester i), 19), (some (.logger .requesterLog), 16), (some (.requester i), 18),
  (some (.logger .requesterLog), 16), (some (.requester i), 15), (some .main, 10),
  (some (.requester i), 19), (some (.logger .requesterLog), 16), (some (.requester i), 15),
  (some .main, 3), (none, 8)]

/-- The signal interrupts the requester log's thread, asleep in its first `array_get`; the handler
goes to sleep on `all_getters_done`. -/
def interruptedGetter : List (Option (Tid 1 1) × Nat) :=
  [(some .main, 1), (some (.logger .requesterLog), 4), (none, 19)]

end Process
end DnsResolver
