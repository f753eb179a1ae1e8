import DnsResolver.Array.ArrayWakeups
import DnsResolver.Array.ArrayShutdown

/-!
# The drain loop of `array_free`

`array_free` leaves its drain loop when it finds the queue empty, or when its wait on
`array_emptied` returns 0. Only the getter that has taken the last element signals that condition
variable, with the lock held, and once the flag is set nothing is stored any more; so a signal
leaves the loop on an empty queue (`Told`). A spurious wake-up returns 0 too, and leaves it on a
queue that is not. -/

namespace DnsResolver
open Function Tally

variable {T α : Type} {N : Nat} {t : T} {s : ArrayState T α} {o : Out T α} {c : Call α}

/-- `array_free` past its drain loop. -/
def Call.pastDrain : Call α → Bool
  | .free .wakeGetters | .free .wakePutters | .free .load | .free .waitDone => true
  | .free .asleepDone | .free (.wokenDone _) | .free (.retestDone _) => true
  | .free .unlock | .free .destroy | .freeDone => true
  | _ => false

/-- `array_free` past its drain loop, or its wait on `array_emptied` has returned 0. -/
def Call.told : Call α → Bool
  | .free (.wokenEmptied .zero) | .free (.retestEmptied .zero) => true
  | c => c.pastDrain

/-- A getter that has taken the last element and is about to signal `array_emptied`. -/
def Call.emptying : Call α → Bool
  | .get (.signalEmptied _) => true
  | _ => false

theorem Call.told_of_pastDrain (h : c.pastDrain = true) : c.told = true := by
  unfold Call.told
  split
  · rfl
  · rfl
  · exact h

theorem Call.emptying_wake {r : WaitResult} : (c.wake r).emptying = c.emptying := by
  unfold Call.wake
  split <;> rfl

/-- The end of a sleep is news of an empty queue only for the wait on `array_emptied`. -/
theorem Call.told_wake {v : Cond} {r : WaitResult} (hv : c.asleepOn = some v)
    (h : (c.wake r).told = true) :
    c.told = true ∨ (v = .arrayEmptied ∧ c = .free .asleepEmptied ∧ r = .zero) := by
  obtain ⟨-, x, rfl⟩ | ⟨-, rfl⟩ | ⟨rfl, rfl⟩ | ⟨-, rfl⟩ := Call.asleepOn_cases hv
  · cases h
  · cases h
  · cases r with
    | zero => exact .inr ⟨rfl, rfl, rfl⟩
    | timedOut => cases h
  · exact .inl rfl

theorem CallStep.told (h : CallStep N t s c o) (ho : o.call.told = true) :
    c.told = true ∨ (s.empty = true ∧ o.arr = s) := by
  cases h with
  | free_drained he => exact .inr ⟨he, rfl⟩
  | @free_leaveDrain r hr =>
    cases r with
    | zero => exact .inl rfl
    | timedOut => exact .inr ⟨hr.resolve_left nofun, rfl⟩
  | @free_relockEmptied r =>
    cases r with
    | zero => exact .inl rfl
    | timedOut => cases ho
  | free_wakeGetters | free_wakePutters | free_load_wait | free_load | free_waitDone
  | free_relockDone | free_leaveDone | free_retestDone | free_unlock | free_destroy =>
    exact .inl rfl
  | _ => cases ho

/-- A getter comes to the signal when it has emptied the queue. -/
theorem CallStep.emptying (h : CallStep N t s c o) (ho : o.call.emptying = true) :
    o.arr.empty = true := by
  cases h with
  | get_take_last _ he => simp [ArrayState.empty, he]
  | _ => cases ho

theorem CallStep.signals_emptied (h : CallStep N t s c o) (ho : o.wake.on = some .arrayEmptied) :
    c.emptying = true ∧ o.arr = s := by
  cases h with
  | get_signalEmptied => exact ⟨rfl, rfl⟩
  | _ => cases ho

theorem CallStep.told_shutdown (h : c.Asserts N s) (hc : c.told = true) : s.shutdown = true := by
  cases c with
  | free pc => cases pc <;> first | exact h | cases hc
  | freeDone => exact h
  | _ => cases hc

namespace Monitor
variable [DecidableEq T] [Fintype T] {m m' : Monitor T α} {mv : Move T}

/-- Another thread stays where it is, or its sleep is ended by a signal. -/
theorem move_other (h : m.move N t mv = some m') {u : T} (hu : u ≠ t) :
    m'.call u = m.call u ∨ ∃ o v, CallStep N t m.arr (m.call t) o ∧ o.wake.on = some v ∧
      (m.call u).asleepOn = some v ∧ m'.call u = (m.call u).wake .zero ∧ m'.arr = o.arr := by
  rcases move_cases h with ⟨o, w, call', hs, hw, -, rfl⟩ | ⟨r, v, -, -, -, rfl⟩
  · simp only [update_of_ne hu]
    rcases wakeUp_apply hw u with he | ⟨v, hv, hvu, he⟩
    · exact .inl he
    · exact .inr ⟨o, v, hs, hv, hvu, he, rfl⟩
  · exact .inl (update_of_ne hu ..)

/-- A queue that is shut down and empty stays so in a move. -/
theorem Inv.empty_move (H : m.Inv N) (h : m.move N t mv = some m')
    (hs : m.arr.shutdown = true) (he : m.arr.empty = true) : m'.arr.empty = true := by
  rcases move_cases h with ⟨o, w, call', hst, -, -, rfl⟩ | ⟨r, v, -, -, -, rfl⟩
  · exact hst.empty_stable (H.asserts t) hs he
  · exact he

/-- A move that is not a statement of the thread with the lock leaves the elements alone. -/
theorem Inv.empty_locked (H : m.Inv N) (h : m.move N t mv = some m') {u : T} (hu : u ≠ t)
    (hl : (m.call u).holdsLock = true) : m'.arr.empty = m.arr.empty := by
  rcases move_cases h with ⟨o, w, call', hst, -, -, rfl⟩ | ⟨r, v, -, -, -, rfl⟩
  · rcases hst.data with hd | ⟨ht, -⟩
    · exact hd.empty
    · exact absurd (H.not_holdsLock hl (Ne.symm hu)) (by simp [ht])
  · rfl

/-- Who is about to signal `array_emptied`, or has been told of it, is right. -/
structure Told (m : Monitor T α) : Prop where
  signal : ∀ u, (m.call u).emptying = true → m.arr.empty = true
  told : ∀ u, (m.call u).told = true → m.arr.empty = true

/-- No wait of `array_free` on `array_emptied` ends spuriously while there are elements. -/
def NoFalseAlarm (m : Monitor T α) (a : Act T α) : Prop :=
  ∀ t, a = .move t .spurious → m.call t = .free .asleepEmptied → m.arr.empty = true

/-- A getter comes to its signal, and stays at it, with the queue empty. -/
theorem Inv.emptying_move (H : m.Inv N) (h : m.move N t mv = some m')
    (hs : ∀ u, (m.call u).emptying = true → m.arr.empty = true) {u : T}
    (hu : (m'.call u).emptying = true) : m'.arr.empty = true := by
  by_cases hut : u = t
  · subst hut
    rcases move_cases h with ⟨o, w, call', hst, -, -, rfl⟩ | ⟨r, v, hv, -, -, rfl⟩
    · simp only [update_self] at hu
      exact hst.emptying hu
    · simp only [update_self, Call.emptying_wake] at hu
      exact hs u hu
  · have hc : (m.call u).emptying = true := by
      rcases move_other h hut with he | ⟨o, v, -, -, -, he, -⟩
      · rwa [he] at hu
      · rwa [he, Call.emptying_wake] at hu
    have hl : (m.call u).holdsLock = true := by
      generalize m.call u = c at hc
      unfold Call.emptying at hc
      split at hc
      · rfl
      · cases hc
    rw [H.empty_locked h hut hl]
    exact hs u hc

/-- What one `array_free` has been told stays true, if its own wait does not end spuriously. -/
theorem Inv.told_move (H : m.Inv N) (h : m.move N t mv = some m')
    (hs : ∀ u, (m.call u).emptying = true → m.arr.empty = true) {u : T}
    (hu : (m.call u).told = true → m.arr.empty = true)
    (ha : u = t → mv = .spurious → m.call u = .free .asleepEmptied → m.arr.empty = true)
    (hu' : (m'.call u).told = true) : m'.arr.empty = true := by
  have hkeep : (m.call u).told = true → m'.arr.empty = true := fun hc =>
    H.empty_move h (CallStep.told_shutdown (H.asserts u) hc) (hu hc)
  by_cases hut : u = t
  · subst hut
    rcases move_cases h with ⟨o, w, call', hst, -, -, rfl⟩ | ⟨r, v, hv, -, hr, rfl⟩
    · simp only [update_self] at hu'
      rcases hst.told hu' with hc | ⟨he, harr⟩
      · exact hkeep hc
      · dsimp only
        rw [harr, he]
    · simp only [update_self] at hu'
      rcases Call.told_wake hv hu' with hc | ⟨-, hc, hz⟩
      · exact hu hc
      · exact ha rfl (hr.1 hz) hc
  · rcases move_other h hut with he | ⟨o, v, hst, hv, hvu, he, harr⟩
    · rw [he] at hu'
      exact hkeep hu'
    · rw [he] at hu'
      rcases Call.told_wake hvu hu' with hc | ⟨rfl, -, -⟩
      · exact hkeep hc
      · obtain ⟨hem, hsame⟩ := hst.signals_emptied hv
        rw [harr, hsame]
        exact hs t hem

theorem Told.move (W : m.Told) (H : m.Inv N) (ha : m.NoFalseAlarm (.move t mv))
    (h : m.move N t mv = some m') : m'.Told where
  signal _ hu := H.emptying_move h W.signal hu
  told u hu := H.told_move h W.signal (W.told u)
    (fun hut hmv hc => ha u (by rw [hut, hmv]) hc) hu

omit [Fintype T] in
/-- A call that begins or ends tells nobody of anything. -/
theorem Told.update_call (W : m.Told) {c : Call α} {g : Ghost T α} (h1 : c.emptying = false)
    (h2 : c.told = false) : Told ⟨m.arr, update m.call t c, g⟩ := by
  refine ⟨fun u hu => ?_, fun u hu => ?_⟩ <;> by_cases hut : u = t
  · subst hut
    simp only [update_self, h1] at hu
    exact absurd hu nofun
  · simp only [update_of_ne hut] at hu
    exact W.signal u hu
  · subst hut
    simp only [update_self, h2] at hu
    exact absurd hu nofun
  · simp only [update_of_ne hut] at hu
    exact W.told u hu

theorem emptying_reachable (hN : 2 ≤ N) (H : (system T α N).Reachable m) :
    ∀ u, (m.call u).emptying = true → m.arr.empty = true := by
  induction H with
  | init h =>
    rw [h]
    nofun
  | @step m a m' H h ih =>
    intro u hu
    cases a with
    | begin t op =>
      obtain ⟨-, rfl⟩ := begin_cases h
      by_cases hut : u = t
      · subst hut
        cases op <;> simp [Monitor.begin, Op.start, Call.emptying] at hu
      · exact ih u (by simpa [Monitor.begin, hut] using hu)
    | move t mv => exact (inv_reachable hN H).emptying_move h ih hu
    | leave t =>
      obtain ⟨-, rfl⟩ := leave_cases h
      by_cases hut : u = t
      · subst hut
        simp [Monitor.leave, Call.emptying] at hu
      · exact ih u (by simpa [Monitor.leave, hut] using hu)

theorem told_reachable (hN : 2 ≤ N) (H : ((system T α N).restrict NoFalseAlarm).Reachable m) :
    m.Told := by
  induction H with
  | init h =>
    rw [h]
    exact ⟨nofun, nofun⟩
  | step H h ih =>
    rename_i m a m'
    obtain ⟨ha, h⟩ := h
    cases a with
    | begin t op =>
      obtain ⟨-, rfl⟩ := begin_cases h
      cases op <;> exact ih.update_call rfl rfl
    | move t mv => exact ih.move (inv_reachable hN H.of_restrict) ha h
    | leave t =>
      obtain ⟨-, rfl⟩ := leave_cases h
      exact ih.update_call rfl rfl

/-- A queue that is shut down and empty stays empty, and has delivered all it has accepted. -/
theorem drained_leads (hN : 2 ≤ N) (H : (system T α N).Reachable m)
    (hs : m.arr.shutdown = true) (he : m.arr.empty = true) (hl : (system T α N).Leads m m') :
    m'.arr.empty = true ∧ m'.ghost.delivered = m'.ghost.accepted := by
  have h0 := (inv_reachable hN H).empty_iff.1 he
  have hi' := inv_reachable hN (H.leads hl)
  obtain ⟨-, hf, -⟩ := hl.stable (I := Closed m)
    (fun _ _ _ H' h => (inv_reachable hN H').closed_step h0 h) H ⟨hs, rfl, fun _ _ h => h⟩
  have h1 : m'.items = [] := (congrArg Fifo.held hf).trans h0
  refine ⟨hi'.empty_iff.2 h1, ?_⟩
  rw [hi'.accepted_eq, h1, List.append_nil]

/-- With the lock free, a spurious wake-up takes `array_free` out of its drain loop. -/
theorem leaves_drain (hl : m.arr.lock = none) (ht : m.call t = .free .asleepEmptied) :
    ∃ m', (system T α N).Leads m m' ∧ m'.call t = .free .wakeGetters ∧
      m'.arr.head = m.arr.head ∧ m'.arr.tail = m.arr.tail := by
  let m₁ : Monitor T α := { m with call := update m.call t (.free (.wokenEmptied .zero)) }
  let m₂ : Monitor T α := ⟨{ m.arr with lock := some t },
    update m₁.call t (.free (.retestEmptied .zero)), m.ghost⟩
  let m₃ : Monitor T α := { m₂ with call := update m₂.call t (.free .wakeGetters) }
  have h1 : m.step N (.move t .spurious) = some m₁ := by
    simp [step, Monitor.move, wakeSelf, ht, Call.asleepOn, Call.wake, m₁]
  have h2 : m₁.step N (.move t (.run none)) = some m₂ := by
    simp [step, Monitor.move, callStep, arrayFree, ArrayState.acquire, wakeUp, m₁, m₂, hl,
      Ghost.record]
  have h3 : m₂.step N (.move t (.run none)) = some m₃ := by
    simp [step, Monitor.move, callStep, arrayFree, wakeUp, m₂, m₃, Ghost.record]
  exact ⟨m₃, .trans (.single h1) (.trans (.single h2) (.single h3)), update_self .., rfl, rfl⟩

/-- **When `array_free` drains the queue.** In every run in which no wait on `array_emptied` ends
spuriously while there are elements, `array_free` leaves its drain loop on an empty queue, which
stays empty; from then on all accepted elements have been delivered, those of the puts that have
returned `ARRAY_SUCCESS` or are about to. A spurious wake-up with the lock free and elements in the
queue lets it leave the loop on a queue that is not empty. -/
theorem free_drains_iff (hN : 2 ≤ N) :
    (∀ m, ((system T α N).restrict NoFalseAlarm).Reachable m →
      ∀ t, (m.call t).pastDrain = true → m.arr.head = m.arr.tail ∧
        ∀ m', (system T α N).Leads m m' → m'.arr.head = m'.arr.tail ∧
          m'.ghost.delivered = m'.ghost.accepted ∧
          m'.ghost.delivered = m'.ghost.putOk ++ m'.storing) ∧
    (∀ m t, (system T α N).Reachable m → m.arr.lock = none → m.call t = .free .asleepEmptied →
      m.arr.head ≠ m.arr.tail → ∃ m', (system T α N).Leads m m' ∧
        (m'.call t).pastDrain = true ∧ m'.arr.head ≠ m'.arr.tail) := by
  refine ⟨fun m H t ht => ?_, fun m t _ hl ht hne => ?_⟩
  · have hd := Call.told_of_pastDrain ht
    have he := (told_reachable hN H).told t hd
    have hs := CallStep.told_shutdown ((inv_reachable hN H.of_restrict).asserts t) hd
    refine ⟨by simpa [ArrayState.empty] using he, fun m' hl => ?_⟩
    obtain ⟨h1, h2⟩ := drained_leads hN H.of_restrict hs he hl
    exact ⟨by simpa [ArrayState.empty] using h1, h2,
      h2.trans (accepted_reachable hN (H.of_restrict.leads hl))⟩
  · obtain ⟨m', hm, hc, h1, h2⟩ := leaves_drain (N := N) hl ht
    exact ⟨m', hm, by rw [hc]; rfl, by rwa [h1, h2]⟩

instance (a : Act T α) [DecidableEq α] : Decidable (m.NoFalseAlarm a) :=
  match a with
  | .begin .. => .isTrue nofun
  | .leave _ => .isTrue nofun
  | .move t mv => decidable_of_iff
      (mv = .spurious → m.call t = .free .asleepEmptied → m.arr.empty = true)
      ⟨fun h u e => by cases e; exact h rfl, fun h e => h t (by rw [e])⟩

/-- `array_free` sleeps until a getter has taken the element, which then signals. -/
def drainRun : List (Act Bool Nat) :=
  .begin false (.put 3) :: List.replicate 6 (.move false (.run none)) ++
  .leave false :: .begin true .free :: List.replicate 6 (.move true (.run none)) ++
  .begin false .get :: List.replicate 5 (.move false (.run none)) ++
  .move false (.run (some true)) :: List.replicate 3 (.move false (.run none)) ++
  List.replicate 7 (.move true (.run none))

theorem free_drains_signalled : ∃ m : Monitor Bool Nat, (system Bool Nat 8).Reachable m ∧
    m.call true = .freeDone ∧ m.ghost.accepted = [3] ∧ m.arr.head = m.arr.tail ∧
    m.ghost.delivered = m.ghost.accepted ∧ m.ghost.delivered = m.ghost.putOk ++ m.storing := by
  have h : ∃ m ∈ TransitionSystem.exec (TransitionSystem.guarded NoFalseAlarm (step 8)) drainRun
      init, m.call true = .freeDone ∧ m.ghost.accepted = [3] := by decide +kernel
  obtain ⟨m, hm, hc, ha⟩ := h
  have hr := TransitionSystem.restrict_exec hm
  obtain ⟨h1, h2⟩ := (free_drains_iff (by decide)).1 m hr true (by rw [hc]; rfl)
  exact ⟨m, hr.of_restrict, hc, ha, h1, (h2 m .refl).2⟩

/-- The same start, but the wait ends spuriously. -/
def falseAlarmRun : List (Act Bool Nat) :=
  .begin false (.put 3) :: List.replicate 6 (.move false (.run none)) ++
  .leave false :: .begin true .free :: List.replicate 6 (.move true (.run none)) ++
  .move true .spurious :: List.replicate 7 (.move true (.run none))

/-- `array_free` has returned with an element in the queue. -/
theorem not_always_drained : ∃ m : Monitor Bool Nat, (system Bool Nat 8).Reachable m ∧
    m.call true = .freeDone ∧ m.arr.head ≠ m.arr.tail ∧ m.ghost.putOk = [3] ∧
    m.ghost.delivered = [] := by
  have h : ∃ m ∈ TransitionSystem.exec (step 8) falseAlarmRun init, m.call true = .freeDone ∧
      m.arr.head ≠ m.arr.tail ∧ m.ghost.putOk = [3] ∧ m.ghost.delivered = [] := by decide +kernel
  obtain ⟨m, hm, h⟩ := h
  exact ⟨m, TransitionSystem.reachable_exec hm, h⟩

end Monitor
end DnsResolver
