import DnsResolver.Array.ArrayFifo

/-!
# No lost wake-ups

A getter asleep on `not_empty` must be matched by wake-ups on their way: the stored elements are
covered by *credits*, one for each getter that is woken or between its wake-up and its take, and
one for a put between its store and its signal. Free slots and putters are dual. After the
flag is set nobody falls asleep again, and the broadcasts of `array_free` wake everyone before
it releases the lock. -/

namespace DnsResolver
open Function Tally

variable {T α : Type} {N : Nat} {t : T} {s : ArrayState T α} {o : Out T α} {c : Call α}

def Call.getAsleep : Call α → Bool
  | .get .asleep => true
  | _ => false

def Call.getWoken : Call α → Bool
  | .get .woken => true
  | _ => false

def Call.putAsleep : Call α → Bool
  | .put _ .asleep => true
  | _ => false

def Call.putWoken : Call α → Bool
  | .put _ .woken => true
  | _ => false

/-- A wake-up of a getter on its way. -/
def Call.getCredit : Call α → Bool
  | .get .woken | .get .recheck | .get .guard | .get .check | .get .take => true
  | .put _ .signal => true
  | _ => false

/-- A wake-up of a putter on its way. -/
def Call.putCredit : Call α → Bool
  | .put _ .woken | .put _ .recheck | .put _ .guard | .put _ .store => true
  | .get (.signalEmptied _) | .get (.signalNotFull _) => true
  | _ => false

/-- `array_free` after it has set the flag and before its next broadcast to the getters. -/
def Call.toWakeGetters : Call α → Bool
  | .free .drain | .free .drainWakeGetters | .free .wakeGetters => true
  | _ => false

/-- `array_free` after it has set the flag and before its next broadcast to the putters. -/
def Call.toWakePutters : Call α → Bool
  | .free .drain | .free .drainWakeGetters | .free .drainWakePutters => true
  | .free .wakeGetters | .free .wakePutters => true
  | _ => false

theorem Call.asleepOn_cases {v : Cond} (h : c.asleepOn = some v) :
    (v = .notFull ∧ ∃ x, c = .put x .asleep) ∨ (v = .notEmpty ∧ c = .get .asleep) ∨
    (v = .arrayEmptied ∧ c = .free .asleepEmptied) ∨
    (v = .allGettersDone ∧ c = .free .asleepDone) := by
  unfold Call.asleepOn at h
  split at h <;> simp_all

theorem Call.getAsleep_iff : c.getAsleep = true ↔ c.asleepOn = some .notEmpty := by
  refine ⟨fun h => ?_, fun h => ?_⟩
  · unfold Call.getAsleep at h
    split at h <;> first | rfl | cases h
  · obtain ⟨⟨⟩, _⟩ | ⟨-, rfl⟩ | ⟨⟨⟩, _⟩ | ⟨⟨⟩, _⟩ := Call.asleepOn_cases h
    rfl

theorem Call.putAsleep_iff : c.putAsleep = true ↔ c.asleepOn = some .notFull := by
  refine ⟨fun h => ?_, fun h => ?_⟩
  · unfold Call.putAsleep at h
    split at h <;> first | rfl | cases h
  · obtain ⟨-, x, rfl⟩ | ⟨⟨⟩, _⟩ | ⟨⟨⟩, _⟩ | ⟨⟨⟩, _⟩ := Call.asleepOn_cases h
    rfl

@[simp] theorem Call.asleepOn_wake {r : WaitResult} : (c.wake r).asleepOn = none := by
  unfold Call.wake
  split <;> try rfl
  unfold Call.asleepOn
  split <;> simp_all

/-! ## With the lock free, only woken threads have a wake-up on its way -/

theorem Call.getCredit_free (h : c.holdsLock = false) (hc : c.getCredit = true) :
    c.getWoken = true := by
  unfold Call.getCredit at hc
  split at hc <;> first | rfl | cases h | cases hc

theorem Call.putCredit_free (h : c.holdsLock = false) (hc : c.putCredit = true) :
    c.putWoken = true := by
  unfold Call.putCredit at hc
  split at hc <;> first | rfl | cases h | cases hc

theorem Call.toWakePutters_free (h : c.holdsLock = false) : c.toWakePutters = false := by
  unfold Call.toWakePutters
  split <;> first | rfl | cases h

theorem Call.toWakeGetters_free (h : c.holdsLock = false) : c.toWakeGetters = false := by
  unfold Call.toWakeGetters
  split <;> first | rfl | cases h

theorem Call.toWakeGetters_wake {r : WaitResult} : (c.wake r).toWakeGetters = c.toWakeGetters := by
  unfold Call.wake
  split <;> rfl

theorem Call.toWakePutters_wake {r : WaitResult} : (c.wake r).toWakePutters = c.toWakePutters := by
  unfold Call.wake
  split <;> rfl

/-- Where the flag is set nobody falls asleep, and `array_free` comes to its broadcast. -/
theorem CallStep.shutGetters (h : CallStep N t s c o) (hs : o.arr.shutdown = true) :
    o.call.toWakeGetters = true ∨ (o.wake = .broadcast .notEmpty ∧ o.call.getAsleep = false) ∨
      s.shutdown = true ∧ (o.call.getAsleep = true → c.getAsleep = true) ∧
        (c.toWakeGetters = true → o.call.toWakeGetters = true) := by
  cases h with
  | get_sleep hs' => exact absurd (hs.symm.trans hs') (by simp)
  | free_setShutdown => exact .inl rfl
  | free_drainWakeGetters | free_wakeGetters => exact .inr (.inl ⟨rfl, rfl⟩)
  | _ => exact .inr (.inr ⟨hs, by simp [Call.getAsleep], by simp [Call.toWakeGetters]⟩)

theorem CallStep.shutPutters (h : CallStep N t s c o) (hs : o.arr.shutdown = true) :
    o.call.toWakePutters = true ∨ (o.wake = .broadcast .notFull ∧ o.call.putAsleep = false) ∨
      s.shutdown = true ∧ (o.call.putAsleep = true → c.putAsleep = true) ∧
        (c.toWakePutters = true → o.call.toWakePutters = true) := by
  cases h with
  | put_sleep hs' => exact absurd (hs.symm.trans hs') (by simp)
  | free_setShutdown => exact .inl rfl
  | free_drainWakePutters | free_wakePutters => exact .inr (.inl ⟨rfl, rfl⟩)
  | _ => exact .inr (.inr ⟨hs, by simp [Call.putAsleep], by simp [Call.toWakePutters]⟩)

namespace Monitor
variable [DecidableEq T] [Fintype T] {m m' : Monitor T α} {call call' : T → Call α}
  {wk : Wake} {w : Option T} {p : Call α → Bool}

/-! ## What a wake-up does to the counts -/

/-- A count that no wake-up on the signalled condition variable changes. -/
theorem tally_wakeUp (hp : ∀ c v, wk.on = some v → c.asleepOn = some v → p (c.wake .zero) = p c)
    (h : wakeUp call wk w = some call') : tally p call' = tally p call := by
  refine tally_congr fun u => ?_
  obtain h | ⟨v, hv, hu, h⟩ := wakeUp_apply h u
  · rw [h]
  · rw [h, hp _ v hv hu]

/-- A signal finds no sleeper or wakes one. -/
theorem wakeUp_signal {v : Cond} (h : wakeUp call (.signal v) w = some call') :
    (call' = call ∧ ∀ u, (call u).asleepOn ≠ some v) ∨
    ∃ u, (call u).asleepOn = some v ∧ call' = update call u ((call u).wake .zero) := by
  cases w <;> simp only [wakeUp] at h <;> split at h <;> cases h
  · exact .inl ⟨rfl, by assumption⟩
  · exact .inr ⟨_, by assumption, rfl⟩

/-- A broadcast leaves no sleeper. -/
theorem wakeUp_broadcast {v : Cond} (h : wakeUp call (.broadcast v) w = some call') (u : T) :
    (call' u).asleepOn ≠ some v := by
  cases w <;> cases h
  by_cases hu : (call u).asleepOn = some v
  · simp [hu]
  · simp [hu]

/-- The thread that signals is not woken. -/
theorem wakeUp_self (h : CallStep N t s (call t) o) (hw : wakeUp call wk w = some call') :
    call' t = call t := by
  obtain hu | ⟨v, _, hv, _⟩ := wakeUp_apply hw t
  · exact hu
  · rw [h.not_asleep] at hv
    cases hv

/-- The count after a statement, from the count after its wake-ups. -/
theorem tally_run (h : CallStep N t s (call t) o) (hw : wakeUp call wk w = some call') :
    tally p (update call' t o.call) + (p (call t)).toNat = tally p call' + (p o.call).toNat := by
  rw [← wakeUp_self h hw]
  exact tally_update p call' t o.call

/-! ## The counting invariant -/

/-- Sleepers are covered by wake-ups on their way. -/
structure Wakeups (N : Nat) (m : Monitor T α) : Prop where
  getters : 0 < tally Call.getAsleep m.call → m.items.length ≤ tally Call.getCredit m.call
  putters : 0 < tally Call.putAsleep m.call → N ≤ m.items.length + 1 + tally Call.putCredit m.call
  getShut : m.arr.shutdown = true → 0 < tally Call.getAsleep m.call →
    0 < tally Call.toWakeGetters m.call
  putShut : m.arr.shutdown = true → 0 < tally Call.putAsleep m.call →
    0 < tally Call.toWakePutters m.call

/-- What a wake-up does to the sleepers `p` on `v` and the wake-ups on their way `q`: nobody is
left asleep; or the signal is for others; or one sleeper turns into a wake-up. -/
theorem tally_wakeUp_on {v : Cond} {p q : Call α → Bool}
    (hp : ∀ c, p c = true ↔ c.asleepOn = some v)
    (hq : ∀ c, c.asleepOn = some v → q c = false ∧ q (c.wake .zero) = true)
    (hq' : ∀ c v', v' ≠ v → c.asleepOn = some v' → q (c.wake .zero) = q c)
    (h : wakeUp call wk w = some call') :
    tally p call' = 0 ∨
    (wk ≠ .signal v ∧ tally p call' = tally p call ∧ tally q call' = tally q call) ∨
    (wk = .signal v ∧ tally p call' + 1 = tally p call ∧ tally q call' = tally q call + 1) := by
  have hp0 : ∀ c, c.asleepOn ≠ some v → p c = false := fun c hc => by
    rw [← Bool.not_eq_true, hp]
    exact hc
  by_cases hv : wk.on = some v
  · cases wk with
    | nobody => cases hv
    | signal v =>
      cases hv
      obtain ⟨rfl, hn⟩ | ⟨u, hu, rfl⟩ := wakeUp_signal h
      · exact .inl (tally_eq_zero.2 fun u => hp0 _ (hn u))
      · have e1 := tally_update p call u ((call u).wake .zero)
        have e2 := tally_update q call u ((call u).wake .zero)
        obtain ⟨h1, h2⟩ := hq _ hu
        rw [(hp _).2 hu, hp0 _ (by simp)] at e1
        rw [h1, h2] at e2
        exact .inr <| .inr ⟨rfl, e1, e2⟩
    | broadcast v =>
      cases hv
      exact .inl (tally_eq_zero.2 fun u => hp0 _ (wakeUp_broadcast h u))
  · refine .inr <| .inl ⟨fun e => hv (e ▸ rfl), tally_wakeUp ?_ h, tally_wakeUp ?_ h⟩
    · intro c v' hv' hc
      rw [hp0 c (hc ▸ hv' ▸ hv), hp0 _ (by simp)]
    · intro c v' hv' hc
      exact hq' c v' (fun e => hv (e ▸ hv')) hc

theorem getters_wakeUp (h : wakeUp call wk w = some call') :
    tally Call.getAsleep call' = 0 ∨
    (wk ≠ .signal .notEmpty ∧ tally Call.getAsleep call' = tally Call.getAsleep call ∧
      tally Call.getCredit call' = tally Call.getCredit call) ∨
    (wk = .signal .notEmpty ∧ tally Call.getAsleep call' + 1 = tally Call.getAsleep call ∧
      tally Call.getCredit call' = tally Call.getCredit call + 1) := by
  refine tally_wakeUp_on (fun c => Call.getAsleep_iff) (fun c hc => ?_) (fun c v hv hc => ?_) h
  · obtain ⟨⟨⟩, _⟩ | ⟨-, rfl⟩ | ⟨⟨⟩, _⟩ | ⟨⟨⟩, _⟩ := Call.asleepOn_cases hc
    exact ⟨rfl, rfl⟩
  · obtain ⟨h, x, rfl⟩ | ⟨h, rfl⟩ | ⟨h, rfl⟩ | ⟨h, rfl⟩ := Call.asleepOn_cases hc <;>
      first | rfl | exact absurd h hv

theorem putters_wakeUp (h : wakeUp call wk w = some call') :
    tally Call.putAsleep call' = 0 ∨
    (wk ≠ .signal .notFull ∧ tally Call.putAsleep call' = tally Call.putAsleep call ∧
      tally Call.putCredit call' = tally Call.putCredit call) ∨
    (wk = .signal .notFull ∧ tally Call.putAsleep call' + 1 = tally Call.putAsleep call ∧
      tally Call.putCredit call' = tally Call.putCredit call + 1) := by
  refine tally_wakeUp_on (fun c => Call.putAsleep_iff) (fun c hc => ?_) (fun c v hv hc => ?_) h
  · obtain ⟨-, x, rfl⟩ | ⟨⟨⟩, _⟩ | ⟨⟨⟩, _⟩ | ⟨⟨⟩, _⟩ := Call.asleepOn_cases hc
    exact ⟨rfl, rfl⟩
  · obtain ⟨h, x, rfl⟩ | ⟨h, rfl⟩ | ⟨h, rfl⟩ | ⟨h, rfl⟩ := Call.asleepOn_cases hc <;>
      first | rfl | exact absurd h hv

/-- Where the flag is set, the sleepers `p` on `v` are woken by the broadcast to come of a call in
`q`. -/
theorem toWake_run {v : Cond} {q : Call α → Bool} (hp : ∀ c, p c = true ↔ c.asleepOn = some v)
    (hq : ∀ r c, q (c.wake r) = q c) (hw : wakeUp m.call o.wake w = some call')
    (hW : m.arr.shutdown = true → 0 < tally p m.call → 0 < tally q m.call)
    (h : q o.call = true ∨ (o.wake = .broadcast v ∧ p o.call = false) ∨ m.arr.shutdown = true ∧
      (p o.call = true → p (m.call t) = true) ∧ (q (m.call t) = true → q o.call = true))
    (h0 : 0 < tally p (update call' t o.call)) : 0 < tally q (update call' t o.call) := by
  obtain ⟨u, hu⟩ := tally_pos.1 h0
  rcases h with h | ⟨hb, hn⟩ | ⟨hs, hpt, hqt⟩
  · exact tally_pos.2 ⟨t, by rwa [update_self]⟩
  · exfalso
    rw [hb] at hw
    by_cases hut : u = t
    · subst hut
      rw [update_self, hn] at hu
      cases hu
    · rw [update_of_ne hut] at hu
      exact wakeUp_broadcast hw u ((hp _).1 hu)
  · have hpu : p (m.call u) = true := by
      by_cases hut : u = t
      · subst hut
        rw [update_self] at hu
        exact hpt hu
      · rw [update_of_ne hut] at hu
        rcases wakeUp_apply hw u with h1 | ⟨_, _, _, h1⟩
        · rwa [← h1]
        · rw [h1, hp, Call.asleepOn_wake] at hu
          cases hu
    obtain ⟨x, hx⟩ := tally_pos.1 (hW hs (tally_pos.2 ⟨u, hpu⟩))
    refine tally_pos.2 ⟨x, ?_⟩
    by_cases hxt : x = t
    · subst hxt
      rw [update_self]
      exact hqt hx
    · rw [update_of_ne hxt, wakeUp_congr (hq .zero) hw x, hx]

omit [DecidableEq T] [Fintype T] in
theorem items_length (m : Monitor T α) :
    m.items.length = m.ghost.accepted.length - m.ghost.delivered.length := by
  simp [items]

omit [DecidableEq T] in
/-- While another thread holds the lock, no `array_free` is between its flag and its broadcast. -/
theorem Inv.tally_toWakePutters (H : m.Inv N) (ht : (m.call t).holdsLock = true)
    (hn : (m.call t).toWakePutters = false) : tally Call.toWakePutters m.call = 0 := by
  refine tally_eq_zero.2 fun u => ?_
  by_cases hu : u = t
  · rw [hu, hn]
  · exact Call.toWakePutters_free (H.not_holdsLock ht hu)

section
variable (W : m.Wakeups N) (H : m.Inv N) (h : CallStep N t m.arr (m.call t) o)
  (hw : wakeUp m.call o.wake w = some call')
include W h hw

include H in
theorem Wakeups.getters_run :
    let m' : Monitor T α := ⟨o.arr, update call' t o.call, m.ghost.record o.event⟩
    0 < tally Call.getAsleep m'.call → m'.items.length ≤ tally Call.getCredit m'.call := by
  have e1 := tally_run (p := Call.getAsleep) h hw
  have e2 := tally_run (p := Call.getCredit) h hw
  have hk := getters_wakeUp hw
  have hW := W.getters
  have hle := H.split.length_le
  have hemp := fun he => List.length_eq_zero_iff.2 (H.empty_iff.1 he)
  simp only [items_length] at hW hemp ⊢
  generalize m.call t = c at *
  cases h with
  | get_sleep _ he | get_recheck_exit _ he | get_check_exit _ he =>
    have := hemp he
    simp only [Ghost.record]
    omega
  | _ =>
    simp [Call.getAsleep, Call.getCredit, Ghost.record] at e1 e2 hk ⊢
    omega

include H in
theorem Wakeups.putters_run :
    let m' : Monitor T α := ⟨o.arr, update call' t o.call, m.ghost.record o.event⟩
    0 < tally Call.putAsleep m'.call → N ≤ m'.items.length + 1 + tally Call.putCredit m'.call := by
  have e1 := tally_run (p := Call.putAsleep) h hw
  have e2 := tally_run (p := Call.putCredit) h hw
  have hk := putters_wakeUp hw
  have hW := W.putters
  have hS := W.putShut
  have hT := H.tally_toWakePutters (t := t)
  have hle := H.split.length_le
  have hful := H.full_iff
  simp only [items_length] at hW hful ⊢
  generalize m.call t = c at *
  cases h with
  | put_sleep _ hf =>
    have := hful.1 hf
    simp only [Ghost.record]
    omega
  | put_recheck_shutdown hs =>
    have := hT rfl rfl
    have := hS hs
    simp [Call.putAsleep, Call.putCredit, Ghost.record] at e1 e2 hk ⊢
    omega
  | _ =>
    simp [Call.putAsleep, Call.putCredit, Ghost.record] at e1 e2 hk ⊢
    omega

theorem Wakeups.getShut_run :
    o.arr.shutdown = true → 0 < tally Call.getAsleep (update call' t o.call) →
      0 < tally Call.toWakeGetters (update call' t o.call) :=
  fun hs => toWake_run (fun _ => Call.getAsleep_iff) (fun _ _ => Call.toWakeGetters_wake) hw
    W.getShut (h.shutGetters hs)

theorem Wakeups.putShut_run :
    o.arr.shutdown = true → 0 < tally Call.putAsleep (update call' t o.call) →
      0 < tally Call.toWakePutters (update call' t o.call) :=
  fun hs => toWake_run (fun _ => Call.putAsleep_iff) (fun _ _ => Call.toWakePutters_wake) hw
    W.putShut (h.shutPutters hs)

end

/-- A call that gives up no credit and does not fall asleep may change. -/
theorem Wakeups.update_call {arr : ArrayState T α} {g : Ghost T α} {c : Call α} (W : m.Wakeups N)
    (hs : arr.shutdown = m.arr.shutdown) (hi : ∀ call, Monitor.items ⟨arr, call, g⟩ = m.items)
    (h : (c.getAsleep = true → (m.call t).getAsleep = true) ∧
      ((m.call t).getCredit = true → c.getCredit = true) ∧
      (c.putAsleep = true → (m.call t).putAsleep = true) ∧
      ((m.call t).putCredit = true → c.putCredit = true) ∧
      ((m.call t).toWakeGetters = true → c.toWakeGetters = true) ∧
      ((m.call t).toWakePutters = true → c.toWakePutters = true)) :
    Wakeups N ⟨arr, update m.call t c, g⟩ := by
  obtain ⟨h1, h2, h3, h4, h5, h6⟩ := h
  have h1 := tally_update_le h1
  have h3 := tally_update_le h3
  refine ⟨fun h => ?_, fun h => ?_, fun hs' h => ?_, fun hs' h => ?_⟩
  · have := tally_le_update h2
    have := W.getters (h.trans_le h1)
    rw [hi]
    exact this.trans ‹_›
  · have := tally_le_update h4
    have := W.putters (h.trans_le h3)
    rw [hi]
    dsimp only
    omega
  · exact (W.getShut (hs ▸ hs') (h.trans_le h1)).trans_le (tally_le_update h5)
  · exact (W.putShut (hs ▸ hs') (h.trans_le h3)).trans_le (tally_le_update h6)

theorem Wakeups.move {mv : Move T} (H : m.Inv N) (W : m.Wakeups N)
    (h : m.move N t mv = some m') : m'.Wakeups N := by
  obtain ⟨o, w, call', hs, hw, -, rfl⟩ | ⟨r, v, hv, -, -, rfl⟩ := move_cases h
  · exact ⟨W.getters_run H hs hw, W.putters_run H hs hw, W.getShut_run hs hw, W.putShut_run hs hw⟩
  · refine W.update_call rfl (fun _ => rfl) ?_
    obtain ⟨-, x, hc⟩ | ⟨-, hc⟩ | ⟨-, hc⟩ | ⟨-, hc⟩ := Call.asleepOn_cases hv <;> rw [hc] <;>
      exact ⟨nofun, by simp [Call.wake, Call.getCredit], nofun,
        by simp [Call.wake, Call.putCredit], nofun, nofun⟩

theorem Wakeups.step {a : Act T α} (H : m.Inv N) (W : m.Wakeups N) (h : m.step N a = some m') :
    m'.Wakeups N := by
  cases a with
  | begin t op =>
    obtain ⟨ht, rfl⟩ := begin_cases h
    refine W.update_call rfl (fun _ => rfl) ?_
    rw [ht]
    cases op <;> exact ⟨nofun, nofun, nofun, nofun, nofun, nofun⟩
  | move t mv => exact W.move H h
  | leave t =>
    obtain ⟨ht, rfl⟩ := leave_cases h
    refine W.update_call rfl (fun _ => rfl) ?_
    generalize m.call t = c at ht
    cases c <;> first | cases ht; done | exact ⟨nofun, nofun, nofun, nofun, nofun, nofun⟩

theorem wakeups_reachable (hN : 2 ≤ N) (H : (system T α N).Reachable m) : m.Wakeups N := by
  refine H.invariant (I := Wakeups N) (fun m h => ?_) fun _ _ _ H h W =>
    W.step (inv_reachable hN H) h
  rw [h]
  have h1 : tally Call.getAsleep (init : Monitor T α).call = 0 := tally_eq_zero.2 fun _ => rfl
  have h3 : tally Call.putAsleep (init : Monitor T α).call = 0 := tally_eq_zero.2 fun _ => rfl
  constructor <;> simp [h1, h3]

/-! ## When the lock is free -/

omit [DecidableEq T] [Fintype T] in
theorem Inv.lock_free (H : m.Inv N) (hl : m.arr.lock = none) (u : T) :
    (m.call u).holdsLock = false := by
  rw [← Bool.not_eq_true, ← H.lock u, hl]
  nofun

omit [DecidableEq T] in
theorem Inv.credits_free (H : m.Inv N) (hl : m.arr.lock = none) :
    tally Call.getCredit m.call ≤ tally Call.getWoken m.call ∧
    tally Call.putCredit m.call ≤ tally Call.putWoken m.call ∧
    tally Call.toWakeGetters m.call = 0 ∧ tally Call.toWakePutters m.call = 0 := by
  have hf := H.lock_free hl
  refine ⟨tally_le fun u hu => ?_, tally_le fun u hu => ?_, tally_eq_zero.2 fun u => ?_,
    tally_eq_zero.2 fun u => ?_⟩ <;> specialize hf u <;> generalize m.call u = c at *
  · exact Call.getCredit_free hf hu
  · exact Call.putCredit_free hf hu
  · exact Call.toWakeGetters_free hf
  · exact Call.toWakePutters_free hf

/-- **No wake-up is lost.** Whenever the lock is free, a sleeping getter means that the queue is
not shut down and that the stored elements do not outnumber the getters that are woken and not
yet back; sleeping putters and free slots are dual. So no getter sleeps on an element that
nobody is about to take. -/
theorem no_lost_wakeups (hN : 2 ≤ N) (H : (system T α N).Reachable m)
    (hl : m.arr.lock = none) :
    (∀ t, m.call t = .get .asleep →
      m.arr.shutdown = false ∧ m.arr.count N ≤ tally Call.getWoken m.call) ∧
    (∀ t x, m.call t = .put x .asleep →
      m.arr.shutdown = false ∧ N - 1 - m.arr.count N ≤ tally Call.putWoken m.call) ∧
    ¬ (m.arr.head ≠ m.arr.tail ∧ (∃ t, m.call t = .get .asleep) ∧
      ∀ t pc, m.call t = .get pc → pc = .asleep) ∧
    ¬ ((m.arr.tail + 1) % N ≠ m.arr.head ∧ (∃ t x, m.call t = .put x .asleep) ∧
      ∀ t x pc, m.call t = .put x pc → pc = .asleep) := by
  have hi := inv_reachable hN H
  have W := wakeups_reachable hN H
  obtain ⟨h1, h2, h3, h4⟩ := hi.credits_free hl
  have hg : ∀ t, m.call t = .get .asleep →
      m.arr.shutdown = false ∧ m.arr.count N ≤ tally Call.getWoken m.call := by
    intro t ht
    have hp : 0 < tally Call.getAsleep m.call := tally_pos.2 ⟨t, by rw [ht]; rfl⟩
    refine ⟨?_, hi.count_eq ▸ (W.getters hp).trans h1⟩
    rw [← Bool.not_eq_true]
    intro hs
    have := W.getShut hs hp
    omega
  have hp : ∀ t x, m.call t = .put x .asleep →
      m.arr.shutdown = false ∧ N - 1 - m.arr.count N ≤ tally Call.putWoken m.call := by
    intro t x ht
    have hp : 0 < tally Call.putAsleep m.call := tally_pos.2 ⟨t, by rw [ht]; rfl⟩
    have := W.putters hp
    refine ⟨?_, by rw [hi.count_eq]; omega⟩
    rw [← Bool.not_eq_true]
    intro hs
    have := W.putShut hs hp
    omega
  refine ⟨hg, hp, ?_, ?_⟩
  · rintro ⟨hne, ⟨t, ht⟩, hall⟩
    obtain ⟨-, hle⟩ := hg t ht
    have h0 : tally Call.getWoken m.call = 0 := tally_eq_zero.2 fun u => by
      cases hc : m.call u with
      | get pc =>
        rw [hall u pc hc]
        rfl
      | _ => rfl
    rw [hi.count_eq, h0, Nat.le_zero, List.length_eq_zero_iff, ← hi.ring.empty_iff] at hle
    exact hne hle
  · rintro ⟨hne, ⟨t, x, ht⟩, hall⟩
    obtain ⟨-, hle⟩ := hp t x ht
    have h0 : tally Call.putWoken m.call = 0 := tally_eq_zero.2 fun u => by
      cases hc : m.call u with
      | put y pc =>
        rw [hall u y pc hc]
        rfl
      | _ => rfl
    have := hi.ring.length_lt
    rw [hi.count_eq, h0] at hle
    exact hne (hi.ring.full_iff.2 (by omega))

/-- Two getters fall asleep on an empty queue, and a put wakes the first. -/
def signalRun {T : Type} (a b c : T) : List (Act T Nat) :=
  .begin a .get :: List.replicate 3 (.move a (.run none)) ++
  .begin b .get :: List.replicate 3 (.move b (.run none)) ++
  .begin c (.put 5) :: List.replicate 4 (.move c (.run none)) ++
  [.move c (.run (some a)), .move c (.run none)]

theorem no_lost_wakeups_signalled :
    ∃ m : Monitor (Fin 3) Nat, (system (Fin 3) Nat 2).Reachable m ∧ m.call 1 = .get .asleep ∧
      m.arr.count 2 = 1 ∧ m.arr.count 2 ≤ tally Call.getWoken m.call := by
  have h : ∃ m ∈ TransitionSystem.exec (step 2) (signalRun (0 : Fin 3) 1 2) init,
      m.arr.lock = none ∧ m.call 1 = .get .asleep ∧ m.arr.count 2 = 1 := by decide +kernel
  obtain ⟨m, hm, hl, h1, h2⟩ := h
  have hr := TransitionSystem.reachable_exec hm
  exact ⟨m, hr, h1, h2, ((no_lost_wakeups (by decide) hr hl).1 1 h1).2⟩

end Monitor
end DnsResolver
