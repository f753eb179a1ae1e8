import DnsResolver.Threaded.ThreadedProgress
import DnsResolver.Array.ArrayExact

/-!
# The program over channels

`dnsthreaded` with each queue replaced by a channel: the same statements of the same threads, but a
call takes effect in one step. The threads see of a queue only the calls that have returned, so
without false alarms the program over the queues of `array.c` refines the one over channels
(`pipeline_simulation`). Between queues at rest each step over channels is one of the program, too,
so the two come to the same states (`pipeline_exact`): what holds of all runs over channels holds of
all these runs of the program. -/

namespace DnsResolver
open Function

variable {R S : Nat} {cfg : Config R S} {s s' : State R S} {t u : Tid R S} {q : QName}
  {e : Effect R S}

/-- The threads over channels. The queues of `threads` stand empty. -/
structure Pipeline (R S : Nat) where
  threads : State R S
  channel : QName → Channel (Tid R S) Str

/-- The state without the queues. -/
def State.threads (s : State R S) : State R S := { s with queue := fun _ => .init }

/-- The program over queues, seen as one over channels. -/
def State.pipeline (s : State R S) : Pipeline R S := ⟨s.threads, fun q => (s.queue q).channel⟩

namespace Pipeline

/-- What the statements of the threads look at. -/
def state (p : Pipeline R S) : State R S :=
  { p.threads with queue := fun q =>
      ⟨arrayInit, fun t => .ofCaller ((p.channel q).caller t), {}⟩ }

/-- The next statement of a thread outside the channels. -/
def stmt (cfg : Config R S) (c : Choice) (t : Tid R S) (p : Pipeline R S) :
    Option (Pipeline R S) :=
  (p.state.stmt cfg c t).map fun s => ⟨s.threads, fun q =>
    { p.channel q with caller := fun u => ((s.queue q).call u).caller }⟩

/-- A statement of a thread, or its request takes effect. -/
inductive Act (R S : Nat)
  | stmt (t : Tid R S) (c : Choice)
  | run (q : QName) (t : Tid R S)

def step (cfg : Config R S) (p : Pipeline R S) : Act R S → Option (Pipeline R S)
  | .stmt t c => if p.threads.ended then none else p.stmt cfg c t
  | .run q t =>
    if p.threads.ended then none
    else ((p.channel q).run (cfg.arraySize - 1) t).map fun c =>
      { p with channel := update p.channel q c }

/-- The channels are open and empty. -/
def init : Pipeline R S := ⟨.init, fun _ => .empty _ _⟩

end Pipeline

/-- `dnsthreaded` over channels. -/
def Config.pipeline (cfg : Config R S) : TransitionSystem (Pipeline R S) (Pipeline.Act R S) :=
  .ofFun .init (Pipeline.step cfg)

namespace State

/-! ## Statements -/

/-- The queues `queue` show the calls of `t` that have returned. -/
def Shows (s : State R S) (t : Tid R S) (queue : QName → Monitor (Tid R S) Str) : Prop :=
  ∀ q c, (s.queue q).call t = c → c.done = true → (queue q).call t = c

variable {queue : QName → Monitor (Tid R S) Str} {c : Choice}

theorem requesterStep_shows {i : Fin R} {l : RequesterLoc} {r : RequesterLoc × Effect R S}
    (H : s.Shows (.requester i) queue) (h : requesterStep cfg s i c l = some r) :
    requesterStep cfg { s with queue } i c l = some r := by
  cases l with
  | getFile | putLog | putHost | freeHostname | freeRequesterLog =>
    simp only [requesterStep] at h ⊢
    split at h
    all_goals first
      | (cases h; done)
      | (rename_i hc; rw [H _ _ hc rfl]; exact h)
  | _ => exact h

theorem resolverStep_shows {j : Fin S} {l : ResolverLoc} {r : ResolverLoc × Effect R S}
    (H : s.Shows (.resolver j) queue) (h : resolverStep cfg s j c l = some r) :
    resolverStep cfg { s with queue } j c l = some r := by
  cases l with
  | getHost | putRecord =>
    simp only [resolverStep] at h ⊢
    split at h
    all_goals first
      | (cases h; done)
      | (rename_i hc; rw [H _ _ hc rfl]; exact h)
  | _ => exact h

theorem loggerStep_shows {k : Logger} {l : LoggerLoc} {r : LoggerLoc × Effect R S}
    (H : s.Shows (.logger k) queue) (h : loggerStep s k l = some r) :
    loggerStep { s with queue } k l = some r := by
  cases l with
  | get =>
    simp only [loggerStep] at h ⊢
    split at h
    all_goals first
      | (cases h; done)
      | (rename_i hc; rw [H _ _ hc rfl]; exact h)
  | _ => exact h

theorem mainStep_shows {l : MainLoc} {r : MainLoc × Effect R S} (H : s.Shows .main queue)
    (h : mainStep cfg s c l = some r) : mainStep cfg { s with queue } c l = some r := by
  cases l with
  | abortFree | putFile | freeFilename | freeRequesterLog | freeResolverLog =>
    simp only [mainStep] at h ⊢
    split at h
    all_goals first
      | (cases h; done)
      | (rename_i hc; rw [H _ _ hc rfl]; exact h)
  | abort qs => cases qs <;> exact h
  | _ => exact h

theorem spawn_queue (sp : Spawn R S) :
    ({ s with queue } : State R S).spawn sp = { s.spawn sp with queue } := by
  cases sp <;> rfl

/-- A statement that is shown other queues does the same, and leaves and enters the same calls. -/
theorem stmt_shows (H : s.Shows t queue) (h : s.stmt cfg c t = some s') :
    ({ s with queue } : State R S).stmt cfg c t =
      some { s' with queue := enter (leave queue t (s.op t)) t (s'.op t) } := by
  cases t with
  | main =>
    obtain ⟨⟨l, e⟩, hl, rfl⟩ := Option.map_eq_some_iff.1 h
    have hp : ({ s with queue } : State R S).perform .main s.main.op l.op e =
        { s.perform .main s.main.op l.op e with
          queue := enter (leave queue .main s.main.op) .main l.op } := rfl
    simp only [stmt, mainStep_shows H hl, Option.map_some, hp, spawn_queue]
    rfl
  | requester i =>
    obtain ⟨⟨l, e⟩, hl, rfl⟩ := Option.map_eq_some_iff.1 h
    have ho : ((s.perform (.requester i) (s.requester i).loc.op l.op e).setRequester i l e).op
        (.requester i) = l.op := by
      simp [op, setRequester]
    simp only [stmt, requesterStep_shows H hl, Option.map_some, ho]
    rfl
  | resolver j =>
    obtain ⟨⟨l, e⟩, hl, rfl⟩ := Option.map_eq_some_iff.1 h
    have ho : ((s.perform (.resolver j) (s.resolver j).loc.op l.op e).setResolver j l e).op
        (.resolver j) = l.op := by
      simp [op, setResolver]
    simp only [stmt, resolverStep_shows H hl, Option.map_some, ho]
    rfl
  | logger k =>
    obtain ⟨⟨l, e⟩, hl, rfl⟩ := Option.map_eq_some_iff.1 h
    simp only [stmt, loggerStep_shows H hl, Option.map_some, op, update_self]
    rfl
  | outsider q =>
    simp only [stmt] at h ⊢
    split at h
    · cases h
    · rename_i hn
      split at h
      · rename_i hq
        split at h
        · rename_i hc
          cases h
          simp [hn, hq, H _ _ hc rfl, op, perform]
        · cases h
      · rename_i hq
        cases h
        simp [hn, hq, op, perform]

/-! ## The queues -/

/-- No wait of an `array_free` for an empty queue ends spuriously while there are elements. -/
def NoFalseAlarm (s : State R S) : DnsResolver.Act R S → Prop
  | .stmt .. => True
  | .call q t mv => (s.queue q).NoFalseAlarm (.move t mv)

/-- To leave a call and to enter one tells no `array_free` of anything. -/
theorem told_switch {o o' : Option (QName × Op Str)} (h : (queue q).Told) :
    (enter (leave queue t o) t o' q).Told := by
  have hl : (leave queue t o q).Told := by
    rw [leave_apply]
    cases opAt o q with
    | none => exact h
    | some p => exact h.update_call rfl rfl
  rw [enter_apply]
  cases opAt o' q with
  | none => exact hl
  | some p => cases p <;> exact hl.update_call rfl rfl

theorem told_reachable (H : (cfg.system.restrict NoFalseAlarm).Reachable s) (q : QName) :
    (s.queue q).Told := by
  induction H with
  | init h =>
    rw [h]
    exact ⟨nofun, nofun⟩
  | @step s a s' H h ih =>
    obtain ⟨ha, h⟩ := h
    rcases (step_cases h).2 with ⟨t, c, rfl, h'⟩ | ⟨k, t, mv, m, rfl, h', rfl⟩
    · rw [h'.queue_eq]
      exact told_switch ih
    · by_cases hq : q = k
      · subst hq
        rw [setQueue_self]
        exact ih.move (queue_inv H.of_restrict q) ha h'
      · rwa [setQueue_of_ne m hq]

/-! ## The simulation -/

theorem pipeline_shows (s : State R S) (t : Tid R S) : s.Shows t s.pipeline.state.queue := by
  intro q c hc hd
  subst hc
  exact Call.ofCaller_caller hd

/-- Queues on which the callers are equally far show them equally far after a statement. -/
theorem switch_caller {queue' : QName → Monitor (Tid R S) Str} {o o' : Option (QName × Op Str)}
    (h : ∀ u, ((queue q).call u).caller = ((queue' q).call u).caller) (u : Tid R S) :
    ((enter (leave queue t o) t o' q).call u).caller =
      ((enter (leave queue' t o) t o' q).call u).caller := by
  rw [switch_call, switch_call]
  split
  · cases opAt o' q with
    | some p => rfl
    | none =>
      cases opAt o q with
      | some p => rfl
      | none => exact h t
  · exact h u

/-- A statement is the same over channels. -/
theorem pipeline_stmt (h : s.stmt cfg c t = some s') :
    s.pipeline.stmt cfg c t = some s'.pipeline := by
  have hs : s.pipeline.state = { s with queue := s.pipeline.state.queue } := rfl
  have hq := (stmt_cases h).queue_eq
  rw [Pipeline.stmt, hs, stmt_shows (pipeline_shows s t) h, Option.map_some]
  refine congrArg some (congrArg (Pipeline.mk _) (funext fun q => ?_))
  have hi : (s'.queue q).items = (s.queue q).items := by rw [hq, switch_items]
  have ha : (s'.queue q).arr = (s.queue q).arr := by rw [hq, switch_arr]
  have hk (u : Tid R S) : ((s.pipeline.state.queue q).call u).caller =
      ((s.queue q).call u).caller := Call.caller_ofCaller _
  have hc : (fun u => ((enter (leave s.pipeline.state.queue t (s.op t)) t (s'.op t) q).call u).caller)
      = fun u => ((s'.queue q).call u).caller := by
    funext u
    rw [hq]
    exact switch_caller hk u
  rw [Monitor.channel, hi, ha, ← hc]
  rfl

theorem pipeline_setQueue (m : Monitor (Tid R S) Str) : (s.setQueue q m).pipeline =
    { s.pipeline with channel := update s.pipeline.channel q m.channel } := by
  refine congrArg (Pipeline.mk _) (funext fun k => ?_)
  by_cases hk : k = q
  · subst hk
    simp
  · rw [setQueue_of_ne m hk, update_of_ne hk]
    rfl

/-- A step over queues is one over channels, or a statement of a call that is not seen. -/
theorem pipeline_step {a : DnsResolver.Act R S}
    (H : (cfg.system.restrict NoFalseAlarm).Reachable s) (h : s.step cfg a = some s') :
    s'.pipeline = s.pipeline ∨ ∃ b, s.pipeline.step cfg b = some s'.pipeline := by
  cases a with
  | stmt t c =>
    right
    simp only [step] at h
    split at h
    · cases h
    · rename_i he
      have he : ¬ s.pipeline.threads.ended = true := he
      refine ⟨.stmt t c, ?_⟩
      rw [Pipeline.step, if_neg he, pipeline_stmt h]
  | call q t mv =>
    simp only [step] at h
    split at h
    · cases h
    · rename_i he
      obtain ⟨m, hm, rfl⟩ := Option.map_eq_some_iff.1 h
      rw [pipeline_setQueue]
      have hd (ht : (s.queue q).call t = .free .destroy) : (s.queue q).arr.empty = true :=
        (told_reachable H q).told t (by rw [ht]; rfl)
      rcases (queue_inv H.of_restrict q).channel_move hm hd with hc | hc
      · left
        rw [hc]
        exact congrArg (Pipeline.mk _) (update_eq_self q s.pipeline.channel)
      · right
        have he : ¬ s.pipeline.threads.ended = true := he
        refine ⟨.run q t, ?_⟩
        have hr : (s.pipeline.channel q).run (cfg.arraySize - 1) t = some m.channel := hc
        rw [Pipeline.step, if_neg he, hr]
        rfl

theorem pipeline_simulation (cfg : Config R S) :
    TransitionSystem.Simulation (cfg.system.restrict NoFalseAlarm) cfg.pipeline
      State.pipeline where
  init := by
    rintro _ rfl
    rfl
  step s a s' H h := by
    rcases pipeline_step H h.2 with hs | ⟨b, hs⟩
    · rw [hs]
      exact .refl
    · exact .single hs

/-! ## The converse -/

/-- Queues at rest show no less than channels do. -/
theorem atRest_shows (hr : ∀ q, (s.queue q).AtRest) (t : Tid R S) :
    s.pipeline.state.Shows t s.queue := by
  intro q c hc hd
  have hk : c.caller = ((s.queue q).call t).caller := by
    rw [← hc]
    exact Call.caller_ofCaller _
  have hdone := Call.done_of_replied ((hr q).call t) (hk ▸ Call.caller_replied hd)
  rw [← Call.ofCaller_caller hd, hk, Call.ofCaller_caller hdone]

theorem atRest_switch {o o' : Option (QName × Op Str)} (h : (queue q).AtRest) :
    (enter (leave queue t o) t o' q).AtRest := by
  have hl : (leave queue t o q).AtRest := by
    rw [leave_apply]
    cases opAt o q with
    | none => exact h
    | some p => exact h.leave
  rw [enter_apply]
  cases opAt o' q with
  | none => exact hl
  | some p => exact hl.begin p

/-- A statement over channels is one over queues at rest. -/
theorem exists_stmt {p : Pipeline R S} (hr : ∀ q, (s.queue q).AtRest)
    (h : s.pipeline.stmt cfg c t = some p) :
    ∃ s', s.stmt cfg c t = some s' ∧ (∀ q, (s'.queue q).AtRest) ∧ s'.pipeline = p := by
  obtain ⟨s₁, hs, -⟩ := Option.map_eq_some_iff.1 h
  have hst := stmt_shows (atRest_shows hr t) hs
  have hst : s.stmt cfg c t = some _ := hst
  refine ⟨_, hst, fun q => ?_, ?_⟩
  · rw [(stmt_cases hst).queue_eq]
    exact atRest_switch (hr q)
  · have hp := pipeline_stmt hst
    exact Option.some.inj (hp.symm.trans h)

/-- A request that takes effect over channels does over queues at rest. -/
theorem exists_run {k : Channel (Tid R S) Str} (H : cfg.system.Reachable s)
    (he : s.ended = false) (hr : ∀ q, (s.queue q).AtRest)
    (h : (s.queue q).channel.run (cfg.arraySize - 1) t = some k) :
    ∃ s', (cfg.system.restrict NoFalseAlarm).Leads s s' ∧ (∀ q, (s'.queue q).AtRest) ∧
      s'.pipeline = { s.pipeline with channel := update s.pipeline.channel q k } := by
  obtain ⟨m, hl, hm, rfl⟩ := Monitor.run_rests cfg.two_le (queue_reachable H q) (hr q) h
  refine ⟨s.setQueue q m, call_leads (fun s a ha => ?_) he hl, fun q' => ?_, pipeline_setQueue m⟩
  · obtain ⟨⟨t, mv, rfl⟩, ha⟩ := ha
    exact ⟨t, mv, rfl, ha⟩
  · by_cases hq : q' = q
    · subst hq
      rwa [setQueue_self]
    · rw [setQueue_of_ne m hq]
      exact hr q'

theorem exists_rest {p : Pipeline R S} (H : cfg.pipeline.Reachable p) :
    ∃ s, (cfg.system.restrict NoFalseAlarm).Reachable s ∧ (∀ q, (s.queue q).AtRest) ∧
      s.pipeline = p := by
  induction H with
  | init h =>
    have h : _ = Pipeline.init := h
    subst h
    exact ⟨.init, .init rfl, fun q => ⟨rfl, fun u => rfl⟩, rfl⟩
  | @step p a p' _ h ih =>
    obtain ⟨s, Hs, hr, rfl⟩ := ih
    have h : s.pipeline.step cfg a = some p' := h
    cases a with
    | stmt t c =>
      rw [Pipeline.step] at h
      split at h
      · cases h
      · rename_i he
        have he : ¬ s.ended = true := he
        obtain ⟨s', hs, hr', hp⟩ := exists_stmt hr h
        have hstep : (cfg.system.restrict NoFalseAlarm).step s (.stmt t c) s' :=
          ⟨trivial, step_stmt (Bool.not_eq_true _ ▸ he) hs⟩
        exact ⟨s', Hs.step hstep, hr', hp⟩
    | run q t =>
      rw [Pipeline.step] at h
      split at h
      · cases h
      · rename_i he
        have he : ¬ s.ended = true := he
        obtain ⟨k, hk, rfl⟩ := Option.map_eq_some_iff.1 h
        obtain ⟨s', hl, hr', hp⟩ := exists_run Hs.of_restrict (Bool.not_eq_true _ ▸ he) hr hk
        exact ⟨s', Hs.leads hl, hr', hp⟩

/-- **The program is its pipeline.** What `dnsthreaded` over the queues of `array.c` can come to
without false alarms, in the places of its threads, in what they have printed, logged, allocated and
freed, and in what its queues hold, is exactly what the same threads can come to over channels,
where each `array_put`, `array_get` and `array_free` takes effect in one step and `array_free`
returns only when the channel is empty. -/
theorem pipeline_exact (cfg : Config R S) (p : Pipeline R S) :
    cfg.pipeline.Reachable p ↔
      ∃ s, (cfg.system.restrict NoFalseAlarm).Reachable s ∧ s.pipeline = p := by
  constructor
  · intro H
    obtain ⟨s, Hs, -, hp⟩ := exists_rest H
    exact ⟨s, Hs, hp⟩
  · rintro ⟨s, Hs, rfl⟩
    exact Hs.simulation (pipeline_simulation cfg)

end State
end DnsResolver
