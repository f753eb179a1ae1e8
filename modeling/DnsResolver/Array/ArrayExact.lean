import DnsResolver.Array.ArrayChannel
import DnsResolver.Array.ArraySolo

/-!
# Every channel is a queue

The converse of `ArrayChannel`: what a channel can do the queue can do, so the two have the same
histories (`histories_exact`). The run of the queue passes from one `AtRest` state to the next, in
which the lock is free and each call has not begun, has returned, or is an `array_free` that sleeps
in its drain loop or is at its end; a request that takes effect is a call that runs alone. -/

namespace DnsResolver
open Function Tally

variable {T α : Type} {N : Nat} {t : T} {s : ArrayState T α} {o : Out T α} {c : Call α}

/-- The call has not begun, has returned, or is an `array_free` outside the lock. -/
def Call.atRest : Call α → Bool
  | .idle | .putDone .. | .getDone _ | .freeDone => true
  | .put _ .lock | .get .fetchAdd | .free .lock => true
  | .free .asleepEmptied | .free (.wokenEmptied .zero) | .free .destroy => true
  | _ => false

/-- `array_free` with the lock, in its drain loop or past it. -/
def Call.draining : Call α → Bool
  | .free .drain | .free .drainWakeGetters | .free .drainWakePutters | .free .waitEmptied => true
  | .free (.retestEmptied _) | .free .wakeGetters | .free .wakePutters | .free .load => true
  | .free .unlock => true
  | _ => false

/-- `array_free` with the lock that does not go round its drain loop again. -/
def Call.leaving : Call α → Bool
  | .free (.retestEmptied .zero) | .free .wakeGetters | .free .wakePutters => true
  | .free .load | .free .unlock => true
  | _ => false

theorem Op.start_atRest (p : Op α) : p.start.atRest = true := by
  cases p <;> rfl

theorem Call.atRest_wake (h : c.atRest = true) : (c.wake .zero).atRest = true := by
  unfold Call.wake
  split <;> first | rfl | exact h

theorem Call.atRest_of_done (h : c.done = true) : c.atRest = true := by
  cases c <;> first | rfl | cases h

theorem Call.counted_of_atRest (h : c.atRest = true) : c.counted = false := by
  cases c with
  | get pc => cases pc <;> first | rfl | cases h
  | _ => rfl

theorem Call.done_of_replied (h : c.atRest = true) (hr : c.caller.replied = true) :
    c.done = true := by
  cases c with
  | putDone | getDone | freeDone => rfl
  | idle => cases hr
  | put x pc => cases pc <;> first | (cases h; done) | cases hr
  | get pc => cases pc <;> first | (cases h; done) | cases hr
  | free pc => cases pc <;> cases hr

theorem Call.atRest_asks {p : Op α} (h : c.atRest = true) (hc : c.caller = .asks p.request) :
    c = p.start := by
  cases c with
  | put x pc => cases pc <;> cases p <;> first | (cases h; done) | (cases hc; done) | (cases hc; rfl)
  | get pc => cases pc <;> cases p <;> first | (cases h; done) | (cases hc; done) | rfl
  | free pc => cases pc <;> cases p <;> first | (cases h; done) | (cases hc; done) | rfl
  | putDone x r => cases r <;> cases hc
  | getDone r => cases r <;> cases hc
  | _ => cases hc

theorem Call.atRest_closing (h : c.atRest = true) (hc : c.caller = .closing) :
    c = .free .asleepEmptied ∨ c = .free (.wokenEmptied .zero) ∨ c = .free .destroy := by
  cases c with
  | free pc =>
    cases pc with
    | asleepEmptied => exact .inl rfl
    | wokenEmptied r =>
      cases r with
      | zero => exact .inr (.inl rfl)
      | timedOut => cases h
    | destroy => exact .inr (.inr rfl)
    | _ => first | (cases h; done) | cases hc
  | put x pc => cases pc <;> cases hc
  | get pc => cases pc <;> cases hc
  | putDone x r => cases r <;> cases hc
  | getDone r => cases r <;> cases hc
  | _ => cases hc

theorem Call.caller_asks {r : Channel.Request α} (h : c.caller = .asks r) :
    c.running = true ∧ ∃ p : Op α, c.op = some p ∧ p.request = r := by
  cases c with
  | put x pc => cases pc <;> cases h <;> exact ⟨rfl, .put x, rfl, rfl⟩
  | get pc => cases pc <;> cases h <;> exact ⟨rfl, .get, rfl, rfl⟩
  | free pc => cases pc <;> cases h <;> exact ⟨rfl, .free, rfl, rfl⟩
  | putDone x r => cases r <;> cases h
  | getDone r => cases r <;> cases h
  | _ => cases h

theorem Call.caller_eq_idle : c.caller = .idle ↔ c = .idle := by
  refine ⟨fun h => ?_, fun h => by rw [h]; rfl⟩
  cases c with
  | idle => rfl
  | put x pc => cases pc <;> cases h
  | get pc => cases pc <;> cases h
  | free pc => cases pc <;> cases h
  | putDone x r => cases r <;> cases h
  | getDone r => cases r <;> cases h
  | freeDone => cases h

theorem Op.exists_request (r : Channel.Request α) : ∃ p : Op α, p.request = r := by
  cases r with
  | send x => exact ⟨.put x, rfl⟩
  | receive => exact ⟨.get, rfl⟩
  | close => exact ⟨.free, rfl⟩

theorem Call.draining_holdsLock (h : c.draining = true) : c.holdsLock = true := by
  unfold Call.draining at h
  split at h <;> first | rfl | cases h

theorem Call.draining_closing (h : c.draining = true) : c.caller = .closing := by
  unfold Call.draining at h
  split at h <;> first | rfl | cases h

theorem Call.draining_counted (h : c.draining = true) : c.counted = false := by
  unfold Call.draining at h
  split at h <;> first | rfl | cases h

theorem Call.not_leaving (h : c.atRest = true) : c.leaving = false := by
  unfold Call.atRest at h
  split at h <;> first | rfl | cases h

/-- While nobody gets, `array_free` comes out of the lock in its drain loop or at its end. -/
theorem CallStep.draining (h : CallStep N t s c o) (hg : s.activeGetters ≤ 0)
    (hc : c.draining = true) : o.call.caller = .closing ∧
      (o.call.draining = true ∨ o.call.atRest = true ∧ o.arr.lock = none) ∧
      (c.leaving = true → o.call.leaving = true ∨ o.call = .free .destroy) := by
  cases h with
  | free_load_wait h0 => omega
  | @free_leaveDrain r h0 => exact ⟨rfl, .inl rfl, fun _ => .inl rfl⟩
  | free_retestEmptied h0 => exact ⟨rfl, .inl rfl, fun h => by cases h⟩
  | free_drained | free_drain | free_drainWakeGetters | free_drainWakePutters =>
    exact ⟨rfl, .inl rfl, fun h => by cases h⟩
  | free_waitEmptied => exact ⟨rfl, .inr ⟨rfl, rfl⟩, fun h => by cases h⟩
  | free_wakeGetters | free_wakePutters | free_load => exact ⟨rfl, .inl rfl, fun _ => .inl rfl⟩
  | free_unlock => exact ⟨rfl, .inr ⟨rfl, rfl⟩, fun _ => .inr rfl⟩
  | _ => cases hc

namespace Monitor

/-- The lock is free and every call is at rest. -/
structure AtRest (m : Monitor T α) : Prop where
  lock : m.arr.lock = none
  call : ∀ u, (m.call u).atRest = true

variable [DecidableEq T] [Fintype T] {m m' : Monitor T α} {mv : Move T}

/-- The moves inside the calls that make no false alarm. -/
def Moves (m : Monitor T α) (a : Act T α) : Prop := (∃ t mv, a = .move t mv) ∧ m.NoFalseAlarm a

theorem moves_of_movesOf {P : T → Prop}
    (h : ((system T α N).restrict (MovesOf P)).Leads m m') :
    ((system T α N).restrict Moves).Leads m m' := by
  refine h.restrict_mono fun m a ha => ?_
  cases a with
  | move t mv =>
    refine ⟨⟨t, mv, rfl⟩, fun u hu => ?_⟩
    cases hu
    exact absurd rfl ha.2
  | _ => cases ha

omit [DecidableEq T] [Fintype T] in
theorem atRest_of_call (hl : m.arr.lock = none) (hs : ∀ u ≠ t, (m.call u).atRest = true)
    (ht : (m.call t).atRest = true) : m.AtRest := by
  refine ⟨hl, fun u => ?_⟩
  by_cases hu : u = t
  · rwa [hu]
  · exact hs u hu

/-- The calls of the other threads stay at rest. -/
theorem atRest_move (h : m.move N t mv = some m')
    (hs : ∀ u ≠ t, (m.call u).atRest = true) : ∀ u ≠ t, (m'.call u).atRest = true := by
  intro u hu
  rcases move_other h hu with he | ⟨o, v, -, -, -, he, -⟩
  · rw [he]
    exact hs u hu
  · rw [he]
    exact Call.atRest_wake (hs u hu)

/-- Who is not a getter that is counted has no others beside it. -/
theorem activeGetters_atRest (H : (system T α N).Reachable m)
    (hs : ∀ u ≠ t, (m.call u).atRest = true) (ht : (m.call t).counted = false) :
    m.arr.activeGetters = 0 := by
  have hcount : m.arr.activeGetters = tally Call.counted m.call := activeGetters_exact H
  have h0 : tally Call.counted m.call = 0 := by
    refine tally_eq_zero.2 fun u => ?_
    by_cases hu : u = t
    · rwa [hu]
    · exact Call.counted_of_atRest (hs u hu)
  rw [hcount, h0]
  rfl

/-! ## A call that runs alone -/

/-- The destruction of the queue is the end of `array_free`. -/
theorem move_destroy (h : m.move N t mv = some m')
    (ht : m.call t = .free .destroy) : m'.call t = .freeDone := by
  rcases move_cases h with ⟨o, w, call', hs, -, -, rfl⟩ | ⟨r, v, hv, -⟩
  · rw [ht] at hs
    cases hs
    exact update_self ..
  · rw [ht] at hv
    cases hv

/-- A move that leaves its caller where it was is not seen. -/
theorem channel_unmoved (hN : 2 ≤ N) (H : (system T α N).Reachable m)
    (h : m.move N t mv = some m') (hc : (m'.call t).caller = (m.call t).caller) :
    m'.channel = m.channel := by
  have hd : m.call t ≠ .free .destroy := by
    intro h0
    rw [move_destroy h h0, h0] at hc
    exact absurd hc nofun
  have hm := (inv_reachable hN H).channel_move h fun h0 => absurd h0 hd
  refine hm.resolve_right fun hr => ?_
  have hc : m'.channel.caller t = m.channel.caller t := hc
  rcases Channel.run_replied hr with ⟨h0, h1⟩ | h0
  · rw [hc, h0] at h1
    cases h1
  · rw [hc] at h0
    rw [Channel.run_of_replied h0] at hr
    cases hr

/-- A move that takes its caller on lets the request take effect. -/
theorem channel_effect (hN : 2 ≤ N) (H : (system T α N).Reachable m)
    (h : m.move N t mv = some m') (hc : (m'.call t).caller ≠ (m.call t).caller)
    (he : m.call t = .free .destroy → m.arr.empty = true) :
    m.channel.run (N - 1) t = some m'.channel := by
  refine ((inv_reachable hN H).channel_move h he).resolve_left fun hm => hc ?_
  exact congrArg (fun c : Channel T α => c.caller t) hm

/-- `array_free` comes out of the lock with the channel as it was. -/
theorem drain_rests (hN : 2 ≤ N) (H : (system T α N).Reachable m)
    (hs : ∀ u ≠ t, (m.call u).atRest = true) (ht : (m.call t).draining = true) :
    ∃ m', ((system T α N).restrict (MovesOf (· = t))).Leads m m' ∧ m'.AtRest ∧
      m'.channel = m.channel ∧ ((m.call t).leaving = true → m'.call t = .free .destroy) := by
  induction hn : (m.call t).rank using Nat.strong_induction_on generalizing m with
  | _ n ih =>
    have hi := inv_reachable hN H
    have hl := (hi.lock t).2 (Call.draining_holdsLock ht)
    have hg := activeGetters_atRest H hs (Call.draining_counted ht)
    have hrun : (m.call t).running = true := by
      generalize m.call t = c at ht
      cases c <;> first | rfl | cases ht
    obtain ⟨mv, m₁, hmv, h, ⟨o, ho, harr, hcall⟩ | ⟨hsl, -, -⟩⟩ := hi.next hrun (.inr hl)
    · obtain ⟨hclosing, hnext, hleave⟩ := ho.draining hg.le ht
      have hlead := movesOf_leads (P := (· = t)) rfl hmv h
      have H₁ : (system T α N).Reachable m₁ := H.leads hlead.of_restrict
      have hs₁ := atRest_move h hs
      have hch : m₁.channel = m.channel :=
        channel_unmoved hN H h (by rw [hcall, hclosing, Call.draining_closing ht])
      rcases hnext with hd | ⟨hd, hlock⟩
      · have hrank : (m₁.call t).rank < n := by
          rw [hcall, ← hn]
          have ha : o.call.asleepOn = none := by
            rw [← hcall] at hd ⊢
            exact awake_of_holdsLock (Call.draining_holdsLock hd)
          exact ho.rank.resolve_right (by simp [ha])
        obtain ⟨m₂, h₂, h3, h4, h5⟩ := ih _ hrank H₁ hs₁ (by rwa [hcall]) rfl
        refine ⟨m₂, hlead.trans h₂, h3, h4.trans hch, fun hv => ?_⟩
        rcases hleave hv with hv | hv
        · exact h5 (by rwa [hcall])
        · rw [hv] at hd
          cases hd
      · have hnot := Call.not_leaving hd
        refine ⟨m₁, hlead, atRest_of_call (by rwa [harr]) hs₁ (by rwa [hcall]), hch, fun hv => ?_⟩
        rw [hcall]
        exact (hleave hv).resolve_left (by simp [hnot])
    · have ha := awake_of_holdsLock (Call.draining_holdsLock ht)
      rw [ha] at hsl
      cases hsl

/-! ## Requests -/

omit [Fintype T] in
theorem ready_of_run {r : Channel.Request α} {c : Channel T α} (H : m.Inv N)
    (hr : m.channel.caller t = .asks r) (hc : r ≠ .close)
    (h : m.channel.run (N - 1) t = some c) : (m.call t).Ready N m.arr := by
  obtain ⟨-, p, hop, rfl⟩ := Call.caller_asks hr
  cases p with
  | put x =>
    refine Call.ready_put hop ?_
    simp only [Channel.run, hr, Op.request] at h
    split at h
    · exact .inl (by assumption)
    · split at h
      · rename_i hn
        have hn : m.items.length < N - 1 := hn
        refine .inr (Bool.eq_false_iff.2 fun hf => ?_)
        have := H.full_iff.1 hf
        omega
      · cases h
  | get =>
    refine Call.ready_get hop ?_
    simp only [Channel.run, hr, Op.request] at h
    split at h
    · rename_i x xs hi
      have hi : m.items = x :: xs := hi
      refine .inr (Bool.eq_false_iff.2 fun he => ?_)
      rw [H.empty_iff.1 he] at hi
      cases hi
    · split at h
      · exact .inl (by assumption)
      · cases h
  | free => exact absurd rfl hc

/-- A call that runs alone lets its request take effect, or has not yet. -/
theorem request_move {r : Channel.Request α} {m₁ m₂ : Monitor T α} (H : m₁.Inv N)
    (hr : m.channel.caller t = .asks r) (hc : r ≠ .close) (h : m₁.move N t mv = some m₂)
    (hm : m₁.channel = m.channel ∨ m.channel.run (N - 1) t = some m₁.channel) :
    m₂.channel = m.channel ∨ m.channel.run (N - 1) t = some m₂.channel := by
  have hdestroy (h0 : m₁.call t = .free .destroy) : m₁.channel.caller t = .closing :=
    congrArg Call.caller h0
  rcases hm with he | he
  · rw [← he]
    refine H.channel_move h fun h0 => ?_
    have := hdestroy h0
    rw [he, hr] at this
    cases this
  · have hrep : (m₁.channel.caller t).replied = true := by
      refine (Channel.run_replied he).resolve_left fun h0 => hc ?_
      have := hr.symm.trans h0.1
      cases this
      rfl
    have hm : m₂.channel = m₁.channel ∨ m₁.channel.run (N - 1) t = some m₂.channel :=
      H.channel_move h fun h0 => by
        rw [hdestroy h0] at hrep
        cases hrep
    have hnone : m₁.channel.run (N - 1) t = none := Channel.run_of_replied hrep
    rw [hnone] at hm
    rw [hm.resolve_right nofun]
    exact .inr he

/-- The call of a request that can take effect returns. -/
theorem request_rests (hN : 2 ≤ N) (H : (system T α N).Reachable m) (S : m.AtRest)
    {r : Channel.Request α} {c : Channel T α} (hr : m.channel.caller t = .asks r)
    (hc : r ≠ .close) (h : m.channel.run (N - 1) t = some c) :
    ∃ m', ((system T α N).restrict (MovesOf (· = t))).Leads m m' ∧ m'.AtRest ∧ m'.channel = c := by
  have hi := inv_reachable hN H
  obtain ⟨m', hl, hd, hlock⟩ := hi.returns (Call.caller_asks hr).1 (.inl S.lock)
    (ready_of_run hi hr hc h)
  have hk := hl.keeps (I := fun m₁ => (∀ u ≠ t, (m₁.call u).atRest = true) ∧
    (m₁.channel = m.channel ∨ m.channel.run (N - 1) t = some m₁.channel))
    (fun m₁ a m₂ H₁ ha hs hI => by
      obtain ⟨u, mv, -, rfl, -, hs⟩ := movesOf_cases ha hs
      exact ⟨atRest_move hs hI.1, request_move (inv_reachable hN H₁) hr hc hs hI.2⟩)
    H ⟨fun u _ => S.call u, .inl rfl⟩
  have ht : (m'.channel.caller t).replied = true := Call.caller_replied hd
  refine ⟨m', hl, atRest_of_call hlock hk.1 (Call.atRest_of_done hd), ?_⟩
  rcases hk.2 with he | he
  · rw [he, hr] at ht
    cases ht
  · exact Option.some.inj (he.symm.trans h)

/-- The next statement of a call that is not asleep and has the lock or can take it. -/
theorem move_of_step {o : Out T α} {c : Call α} (ht : m.call t = c) (h : CallStep N t m.arr c o) :
    ∃ w m', m.move N t (.run w) = some m' ∧ m'.arr = o.arr ∧ m'.call t = o.call := by
  subst ht
  obtain ⟨w, call', hm⟩ := move_of_callStep h
  exact ⟨w, _, hm, rfl, update_self ..⟩

/-- `array_free` sets the flag and comes out of the lock. -/
theorem close_rests (hN : 2 ≤ N) (H : (system T α N).Reachable m) (S : m.AtRest)
    (ht : m.call t = .free .lock) :
    ∃ m', ((system T α N).restrict (MovesOf (· = t))).Leads m m' ∧ m'.AtRest ∧
      m.channel.run (N - 1) t = some m'.channel := by
  obtain ⟨w, m₁, h₁, ha₁, hc₁⟩ := move_of_step ht (.free_lock S.lock)
  have hl₁ := movesOf_leads (P := (· = t)) rfl (by simp) h₁
  have H₁ := H.leads hl₁.of_restrict
  have hu₁ := channel_unmoved hN H h₁ (by rw [hc₁, ht]; rfl)
  obtain ⟨w₂, m₂, h₂, ha₂, hc₂⟩ := move_of_step hc₁ .free_setShutdown
  have hl₂ := movesOf_leads (P := (· = t)) rfl (by simp) h₂
  have H₂ := H₁.leads hl₂.of_restrict
  have he₂ : m₁.channel.run (N - 1) t = some m₂.channel :=
    channel_effect hN H₁ h₂ (by rw [hc₁, hc₂]; nofun) fun h0 => by
      rw [hc₁] at h0
      cases h0
  have hs₂ := atRest_move h₂ (atRest_move h₁ fun u _ => S.call u)
  obtain ⟨m₃, hl₃, S₃, hu₃, -⟩ := drain_rests hN H₂ hs₂ (by rw [hc₂]; rfl)
  refine ⟨m₃, (hl₁.trans hl₂).trans hl₃, S₃, ?_⟩
  rw [hu₃, ← hu₁]
  exact he₂

/-- `array_free` returns from its end. -/
theorem destroy_rests (hN : 2 ≤ N) (H : (system T α N).Reachable m) (S : m.AtRest)
    (ht : m.call t = .free .destroy) (he : m.items = []) :
    ∃ m', ((system T α N).restrict (MovesOf (· = t))).Leads m m' ∧ m'.AtRest ∧
      m.channel.run (N - 1) t = some m'.channel := by
  obtain ⟨w, m₁, h₁, ha₁, hc₁⟩ := move_of_step ht .free_destroy
  have hl₁ := movesOf_leads (P := (· = t)) rfl (by simp) h₁
  have hlock : m₁.arr.lock = none := by
    rw [ha₁]
    exact S.lock
  refine ⟨m₁, hl₁, atRest_of_call hlock (atRest_move h₁ fun u _ => S.call u) (by rw [hc₁]; rfl), ?_⟩
  exact channel_effect hN H h₁ (by rw [hc₁, ht]; nofun)
    fun _ => (inv_reachable hN H).empty_iff.2 he

/-- `array_free` that has been told that the queue is empty goes to its end. -/
theorem woken_rests (hN : 2 ≤ N) (H : (system T α N).Reachable m) (S : m.AtRest)
    (ht : m.call t = .free (.wokenEmptied .zero)) :
    ∃ m', ((system T α N).restrict (MovesOf (· = t))).Leads m m' ∧ m'.AtRest ∧
      m'.channel = m.channel ∧ m'.call t = .free .destroy := by
  obtain ⟨w, m₁, h₁, ha₁, hc₁⟩ := move_of_step ht (.free_relockEmptied S.lock)
  have hl₁ := movesOf_leads (P := (· = t)) rfl (by simp) h₁
  have hu₁ := channel_unmoved hN H h₁ (by rw [hc₁, ht]; rfl)
  obtain ⟨m₂, hl₂, S₂, hu₂, hd⟩ := drain_rests hN (H.leads hl₁.of_restrict)
    (atRest_move h₁ fun u _ => S.call u) (by rw [hc₁]; rfl)
  exact ⟨m₂, hl₁.trans hl₂, S₂, hu₂.trans hu₁, hd (by rw [hc₁]; rfl)⟩

/-- `array_free` that is asleep on an empty queue wakes up, if only spuriously. -/
theorem asleep_rests (hN : 2 ≤ N) (H : (system T α N).Reachable m) (S : m.AtRest)
    (ht : m.call t = .free .asleepEmptied) (he : m.items = []) :
    ∃ m', ((system T α N).restrict Moves).Leads m m' ∧ m'.AtRest ∧
      m'.channel = m.channel ∧ m'.call t = .free (.wokenEmptied .zero) := by
  have hw : (m.call t).wake .zero = .free (.wokenEmptied .zero) := by
    rw [ht]
    rfl
  have h : m.move N t .spurious =
      some { m with call := update m.call t ((m.call t).wake .zero) } := by
    simp [move, wakeSelf, ht, Call.asleepOn]
  have hs := atRest_move h fun u _ => S.call u
  have hok : Moves m (.move t .spurious) := by
    refine ⟨⟨t, _, rfl⟩, fun u hu _ => ?_⟩
    exact (inv_reachable hN H).empty_iff.2 he
  have hstep : ((system T α N).restrict Moves).step m (.move t .spurious) _ := ⟨hok, h⟩
  refine ⟨_, .single hstep, ?_, ?_, ?_⟩
  · refine atRest_of_call S.lock hs ?_
    simp only [update_self, hw]
    rfl
  · refine channel_unmoved hN H h ?_
    simp only [update_self, Call.caller_wake]
  · simp only [update_self, hw]

/-- `array_free` that may return does. -/
theorem closing_rests (hN : 2 ≤ N) (H : (system T α N).Reachable m) (S : m.AtRest)
    (hc : (m.call t).caller = .closing) (he : m.items = []) :
    ∃ m', ((system T α N).restrict Moves).Leads m m' ∧ m'.AtRest ∧
      m.channel.run (N - 1) t = some m'.channel := by
  have hend (m₁ : Monitor T α) (H₁ : (system T α N).Reachable m₁) (S₁ : m₁.AtRest)
      (hu : m₁.channel = m.channel) (ht : m₁.call t = .free .destroy) :
      ∃ m', ((system T α N).restrict Moves).Leads m₁ m' ∧ m'.AtRest ∧
        m.channel.run (N - 1) t = some m'.channel := by
    have hi : m₁.items = m.items := congrArg Channel.items hu
    obtain ⟨m₂, hl, S₂, hr⟩ := destroy_rests hN H₁ S₁ ht (by rwa [hi])
    exact ⟨m₂, moves_of_movesOf hl, S₂, hu ▸ hr⟩
  have hwoken (m₁ : Monitor T α) (H₁ : (system T α N).Reachable m₁) (S₁ : m₁.AtRest)
      (hu : m₁.channel = m.channel) (ht : m₁.call t = .free (.wokenEmptied .zero)) :
      ∃ m', ((system T α N).restrict Moves).Leads m₁ m' ∧ m'.AtRest ∧
        m.channel.run (N - 1) t = some m'.channel := by
    obtain ⟨m₂, hl, S₂, hu₂, ht₂⟩ := woken_rests hN H₁ S₁ ht
    obtain ⟨m₃, hl₃, h₃⟩ := hend m₂ (H₁.leads hl.of_restrict) S₂ (hu₂.trans hu) ht₂
    exact ⟨m₃, (moves_of_movesOf hl).trans hl₃, h₃⟩
  rcases Call.atRest_closing (S.call t) hc with ht | ht | ht
  · obtain ⟨m₁, hl, S₁, hu, ht₁⟩ := asleep_rests hN H S ht he
    obtain ⟨m₂, hl₂, h₂⟩ := hwoken m₁ (H.leads hl.of_restrict) S₁ hu ht₁
    exact ⟨m₂, hl.trans hl₂, h₂⟩
  · exact hwoken m H S rfl ht
  · exact hend m H S rfl ht

/-- Whatever request can take effect, the queue comes to where it has. -/
theorem run_rests (hN : 2 ≤ N) (H : (system T α N).Reachable m) (S : m.AtRest) {c : Channel T α}
    (h : m.channel.run (N - 1) t = some c) :
    ∃ m', ((system T α N).restrict Moves).Leads m m' ∧ m'.AtRest ∧ m'.channel = c := by
  cases hk : m.channel.caller t with
  | asks r =>
    cases r with
    | close =>
      have ht : m.call t = .free .lock := Call.atRest_asks (p := .free) (S.call t) hk
      obtain ⟨m', hl, S', hr⟩ := close_rests hN H S ht
      exact ⟨m', moves_of_movesOf hl, S', Option.some.inj (hr.symm.trans h)⟩
    | send x =>
      obtain ⟨m', hl, S', hr⟩ := request_rests hN H S hk nofun h
      exact ⟨m', moves_of_movesOf hl, S', hr⟩
    | receive =>
      obtain ⟨m', hl, S', hr⟩ := request_rests hN H S hk nofun h
      exact ⟨m', moves_of_movesOf hl, S', hr⟩
  | closing =>
    have he : m.items = [] := by
      simp only [Channel.run, hk] at h
      split at h
      · exact List.isEmpty_iff.1 (by assumption)
      · cases h
    obtain ⟨m', hl, S', hr⟩ := closing_rests hN H S hk he
    exact ⟨m', hl, S', Option.some.inj (hr.symm.trans h)⟩
  | _ =>
    rw [Channel.run, hk] at h
    cases h

omit [Fintype T] in
theorem AtRest.begin (S : m.AtRest) (p : Op α) : (m.begin t p).AtRest := by
  refine atRest_of_call S.lock (fun u hu => ?_) (t := t) ?_
  · simpa [Monitor.begin, hu] using S.call u
  · simpa [Monitor.begin] using p.start_atRest

omit [Fintype T] in
theorem AtRest.leave (S : m.AtRest) : (m.leave t).AtRest := by
  refine atRest_of_call S.lock (fun u hu => ?_) (t := t) ?_
  · simpa [Monitor.leave, hu] using S.call u
  · simp [Monitor.leave, Call.atRest]

/-- The queue goes from rest to rest with the channel. -/
theorem step_rests (hN : 2 ≤ N) (H : (system T α N).Reachable m) (S : m.AtRest)
    {a : Channel.Act T α} {c : Channel T α} (h : m.channel.step (N - 1) a = some c) :
    ∃ m', ((system T α N).restrict NoFalseAlarm).History visible m
      (Channel.visible m.channel a).toList m' ∧ m'.AtRest ∧ m'.channel = c := by
  cases a with
  | ask t r =>
    obtain ⟨p, rfl⟩ := Op.exists_request r
    simp only [Channel.step] at h
    split at h
    · rename_i hk
      cases h
      have hs : m.step N (.begin t p) = some (m.begin t p) := by
        simp only [step, Call.caller_eq_idle.1 hk]
      have hstep : ((system T α N).restrict NoFalseAlarm).step m (.begin t p) (m.begin t p) :=
        ⟨fun u hu => (by cases hu), hs⟩
      exact ⟨_, .single hstep, S.begin p, channel_begin p⟩
    · cases h
  | run t =>
    obtain ⟨m', hl, h'⟩ := run_rests hN H S h
    refine ⟨m', .silent (fun m a ha => ⟨ha.2, ?_⟩) hl, h'⟩
    obtain ⟨⟨t, mv, rfl⟩, -⟩ := ha
    rfl
  | go t =>
    simp only [Channel.step] at h
    split at h
    · rename_i hk
      cases h
      have hs : m.step N (.leave t) = some (m.leave t) :=
        if_pos (Call.done_of_replied (S.call t) hk)
      have hstep : ((system T α N).restrict NoFalseAlarm).step m (.leave t) (m.leave t) :=
        ⟨fun u hu => (by cases hu), hs⟩
      exact ⟨_, .single hstep, S.leave, channel_leave⟩
    · cases h

/-- The queue shows every history of the channel. -/
theorem queue_simulates (hN : 2 ≤ N) :
    TransitionSystem.WeakSimulation (Channel.system T α (N - 1)) Channel.visible
      ((system T α N).restrict NoFalseAlarm) visible fun c m =>
        (system T α N).Reachable m ∧ m.AtRest ∧ m.channel = c where
  init := by
    rintro _ rfl
    exact ⟨init, rfl, .init rfl, ⟨rfl, fun u => rfl⟩, rfl⟩
  step := by
    rintro _ a c m h ⟨H, S, rfl⟩
    obtain ⟨m', hh, h'⟩ := step_rests hN H S h
    exact ⟨m', hh, H.leads hh.leads.of_restrict, h'⟩

/-- **The queue of `array.c` is the channel.** For any threads that call `array_put`, `array_get`
and `array_free` on a queue, in any interleaving without false alarms, the histories of calls and
returns are exactly those of a channel of capacity `ARRAY_SIZE - 1`, where each call takes effect in
one step and a close returns only when the channel is empty, and they leave the same elements. -/
theorem histories_exact (hN : 2 ≤ N) (h : List (Channel.Event T α))
    (c : Channel T α) :
    (Channel.system T α (N - 1)).History Channel.visible (.empty T α) h c ↔
      ∃ m, ((system T α N).restrict NoFalseAlarm).History visible init h m ∧ m.channel = c := by
  constructor
  · intro hc
    obtain ⟨_, m, rfl, hm, -, -, rfl⟩ := (queue_simulates hN).history rfl hc
    exact ⟨m, hm, rfl⟩
  · rintro ⟨m, hm, rfl⟩
    obtain ⟨_, c, rfl, hc, -, rfl⟩ := (channel_simulates hN).history rfl hm
    exact hc

/-- A close that waits for a receive. -/
def closeRun : List (Channel.Act Bool Nat) :=
  [.ask false (.send 3), .run false, .go false, .ask true .close, .run true,
    .ask false .receive, .run false, .run true]

theorem histories_exact_close : ∃ m : Monitor Bool Nat,
    ((system Bool Nat 8).restrict NoFalseAlarm).History visible init
      [.asked false (.send 3), .went false (.sent 3), .asked true .close, .asked false .receive] m ∧
    m.channel.caller true = .closed ∧ m.channel.caller false = .received 3 := by
  have h : ∃ c ∈ TransitionSystem.exec (Channel.step 7) closeRun (.empty Bool Nat),
      c.caller true = .closed ∧ c.caller false = .received 3 := by decide
  obtain ⟨c, hc, h1, h2⟩ := h
  obtain ⟨m, hm, rfl⟩ := (histories_exact (N := 8) (by decide) _ c).1 (.exec hc)
  exact ⟨m, hm, h1, h2⟩

end Monitor
end DnsResolver
