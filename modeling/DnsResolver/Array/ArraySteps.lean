import DnsResolver.Array.ArrayDefs
import DnsResolver.Lib.Tally

/-!
# What one statement of a queue operation can do

`CallStep` lists the statements of `array_put`, `array_get` and `array_free` with the condition
under which each is taken and all it does; `callStep_iff` says that these are exactly the steps
of the executable definitions. Every invariant of the queue is a case analysis on `CallStep`. -/

namespace DnsResolver
open Function

variable {T α : Type} {N : Nat} {t : T} {s : ArrayState T α} {o : Out T α} {c : Call α}

/-- The statements of a call in progress. -/
inductive CallStep (N : Nat) (t : T) (s : ArrayState T α) : Call α → Out T α → Prop
  | put_lock : s.lock = none →
    CallStep N t s (.put x .lock) ⟨{ s with lock := some t }, .put x .entry, .nobody, none⟩
  | put_entry_shutdown : s.shutdown = true →
    CallStep N t s (.put x .entry) ⟨s, .put x .refuse, .nobody, none⟩
  | put_entry : s.shutdown = false →
    CallStep N t s (.put x .entry) ⟨s, .put x .guard, .nobody, none⟩
  | put_sleep : s.shutdown = false → s.full N = true →
    CallStep N t s (.put x .guard) ⟨{ s with lock := none }, .put x .asleep, .nobody, none⟩
  | put_pass : (s.shutdown = false → s.full N = false) →
    CallStep N t s (.put x .guard) ⟨s, .put x .store, .nobody, none⟩
  | put_relock : s.lock = none →
    CallStep N t s (.put x .woken) ⟨{ s with lock := some t }, .put x .recheck, .nobody, none⟩
  | put_recheck_shutdown : s.shutdown = true →
    CallStep N t s (.put x .recheck) ⟨s, .put x .refuse, .nobody, none⟩
  | put_recheck : s.shutdown = false →
    CallStep N t s (.put x .recheck) ⟨s, .put x .guard, .nobody, none⟩
  | put_store : CallStep N t s (.put x .store)
    ⟨{ s with storeString := update s.storeString s.tail (some x), tail := (s.tail + 1) % N },
      .put x .signal, .nobody, some (.store x)⟩
  | put_signal : CallStep N t s (.put x .signal) ⟨s, .put x .unlock, .signal .notEmpty, none⟩
  | put_unlock : CallStep N t s (.put x .unlock)
    ⟨{ s with lock := none }, .putDone x .success, .nobody, some (.putReturn x .success)⟩
  | put_refuse : CallStep N t s (.put x .refuse)
    ⟨{ s with lock := none }, .putDone x .shutdown, .nobody, some (.putReturn x .shutdown)⟩
  | get_fetchAdd : CallStep N t s (.get .fetchAdd)
    ⟨{ s with activeGetters := s.activeGetters + 1 }, .get .lock, .nobody, none⟩
  | get_lock : s.lock = none →
    CallStep N t s (.get .lock) ⟨{ s with lock := some t }, .get .guard, .nobody, none⟩
  | get_sleep : s.shutdown = false → s.empty = true →
    CallStep N t s (.get .guard) ⟨{ s with lock := none }, .get .asleep, .nobody, none⟩
  | get_pass : (s.shutdown = false → s.empty = false) →
    CallStep N t s (.get .guard) ⟨s, .get .check, .nobody, none⟩
  | get_relock : s.lock = none →
    CallStep N t s (.get .woken) ⟨{ s with lock := some t }, .get .recheck, .nobody, none⟩
  | get_recheck_exit : s.shutdown = true → s.empty = true →
    CallStep N t s (.get .recheck) ⟨s, .get (.fetchSub .inLoop), .nobody, none⟩
  | get_recheck : (s.shutdown = true → s.empty = false) →
    CallStep N t s (.get .recheck) ⟨s, .get .guard, .nobody, none⟩
  | get_check_exit : s.shutdown = true → s.empty = true →
    CallStep N t s (.get .check) ⟨s, .get (.fetchSub .afterLoop), .nobody, none⟩
  | get_check : (s.shutdown = true → s.empty = false) →
    CallStep N t s (.get .check) ⟨s, .get .take, .nobody, none⟩
  | get_fetchSub_last : s.activeGetters - 1 = 0 → CallStep N t s (.get (.fetchSub e))
    ⟨{ s with activeGetters := s.activeGetters - 1 }, .get (.signalDone e), .nobody, none⟩
  | get_fetchSub : s.activeGetters - 1 ≠ 0 → CallStep N t s (.get (.fetchSub e))
    ⟨{ s with activeGetters := s.activeGetters - 1 }, .get (.refuse e), .nobody, none⟩
  | get_signalDone : CallStep N t s (.get (.signalDone e))
    ⟨s, .get (.refuse e), .signal .allGettersDone, none⟩
  | get_refuse : CallStep N t s (.get (.refuse e))
    ⟨{ s with lock := none }, .getDone none, .nobody, none⟩
  | get_take_last : s.storeString s.head = some x → (s.head + 1) % N = s.tail →
    CallStep N t s (.get .take) ⟨{ s with head := (s.head + 1) % N },
      .get (.signalEmptied x), .nobody, some (.take x)⟩
  | get_take : s.storeString s.head = some x → (s.head + 1) % N ≠ s.tail →
    CallStep N t s (.get .take) ⟨{ s with head := (s.head + 1) % N },
      .get (.signalNotFull x), .nobody, some (.take x)⟩
  | get_signalEmptied : CallStep N t s (.get (.signalEmptied x))
    ⟨s, .get (.signalNotFull x), .signal .arrayEmptied, none⟩
  | get_signalNotFull : CallStep N t s (.get (.signalNotFull x))
    ⟨s, .get (.unlock x), .signal .notFull, none⟩
  | get_unlock : CallStep N t s (.get (.unlock x))
    ⟨{ s with lock := none }, .get (.fetchSubLast x), .nobody, none⟩
  | get_fetchSubLast : CallStep N t s (.get (.fetchSubLast x))
    ⟨{ s with activeGetters := s.activeGetters - 1 }, .getDone (some x), .nobody, none⟩
  | free_lock : s.lock = none → CallStep N t s (.free .lock)
    ⟨{ s with lock := some t }, .free .setShutdown, .nobody, some .freeLock⟩
  | free_setShutdown : CallStep N t s (.free .setShutdown)
    ⟨{ s with shutdown := true }, .free .drain, .nobody, none⟩
  | free_drained : s.empty = true →
    CallStep N t s (.free .drain) ⟨s, .free .wakeGetters, .nobody, none⟩
  | free_drain : s.empty = false →
    CallStep N t s (.free .drain) ⟨s, .free .drainWakeGetters, .nobody, none⟩
  | free_drainWakeGetters : CallStep N t s (.free .drainWakeGetters)
    ⟨s, .free .drainWakePutters, .broadcast .notEmpty, none⟩
  | free_drainWakePutters : CallStep N t s (.free .drainWakePutters)
    ⟨s, .free .waitEmptied, .broadcast .notFull, none⟩
  | free_waitEmptied : CallStep N t s (.free .waitEmptied)
    ⟨{ s with lock := none }, .free .asleepEmptied, .nobody, none⟩
  | free_relockEmptied : s.lock = none → CallStep N t s (.free (.wokenEmptied r))
    ⟨{ s with lock := some t }, .free (.retestEmptied r), .nobody, none⟩
  | free_leaveDrain : (r = .zero ∨ s.empty = true) →
    CallStep N t s (.free (.retestEmptied r)) ⟨s, .free .wakeGetters, .nobody, none⟩
  | free_retestEmptied : s.empty = false →
    CallStep N t s (.free (.retestEmptied .timedOut)) ⟨s, .free .drain, .nobody, none⟩
  | free_wakeGetters : CallStep N t s (.free .wakeGetters)
    ⟨s, .free .wakePutters, .broadcast .notEmpty, none⟩
  | free_wakePutters : CallStep N t s (.free .wakePutters)
    ⟨s, .free .load, .broadcast .notFull, none⟩
  | free_load_wait : s.activeGetters > 0 →
    CallStep N t s (.free .load) ⟨s, .free .waitDone, .nobody, none⟩
  | free_load : s.activeGetters ≤ 0 →
    CallStep N t s (.free .load) ⟨s, .free .unlock, .nobody, none⟩
  | free_waitDone : CallStep N t s (.free .waitDone)
    ⟨{ s with lock := none }, .free .asleepDone, .nobody, none⟩
  | free_relockDone : s.lock = none → CallStep N t s (.free (.wokenDone r))
    ⟨{ s with lock := some t }, .free (.retestDone r), .nobody, none⟩
  | free_leaveDone : CallStep N t s (.free (.retestDone .zero))
    ⟨s, .free .unlock, .nobody, none⟩
  | free_retestDone : CallStep N t s (.free (.retestDone .timedOut))
    ⟨s, .free .load, .nobody, none⟩
  | free_unlock : CallStep N t s (.free .unlock)
    ⟨{ s with lock := none }, .free .destroy, .nobody, none⟩
  | free_destroy : CallStep N t s (.free .destroy) ⟨s, .freeDone, .nobody, some .destroy⟩

theorem ArrayState.acquire_eq_some {e : Option (Event α)} : s.acquire t c e = some o ↔
    s.lock = none ∧ o = ⟨{ s with lock := some t }, c, .nobody, e⟩ := by
  unfold ArrayState.acquire
  split <;> simp_all [eq_comm (a := o)]

theorem CallStep.callStep_eq (h : CallStep N t s c o) : callStep N t s c = some o := by
  cases h <;>
    simp_all [callStep, arrayPut, arrayGet, arrayFree, ArrayState.acquire, ArrayState.release]

theorem arrayPut_cases {x : α} {pc : PutPc} (h : arrayPut N t s x pc = some o) :
    CallStep N t s (.put x pc) o := by
  revert h
  fun_cases arrayPut N t s x pc with
  | case1 =>
    intro h
    obtain ⟨hl, rfl⟩ := ArrayState.acquire_eq_some.1 h
    exact .put_lock hl
  | case2 h0 =>
    rintro ⟨⟩
    exact .put_entry_shutdown h0
  | case3 h0 =>
    rintro ⟨⟩
    exact .put_entry (by simpa using h0)
  | case4 h0 =>
    rintro ⟨⟩
    simp only [Bool.and_eq_true, Bool.not_eq_true'] at h0
    exact .put_sleep h0.1 h0.2
  | case5 h0 =>
    rintro ⟨⟩
    refine .put_pass fun h1 => ?_
    simpa [h1] using h0
  | case6 => nofun
  | case7 =>
    intro h
    obtain ⟨hl, rfl⟩ := ArrayState.acquire_eq_some.1 h
    exact .put_relock hl
  | case8 h0 =>
    rintro ⟨⟩
    exact .put_recheck_shutdown h0
  | case9 h0 =>
    rintro ⟨⟩
    exact .put_recheck (by simpa using h0)
  | case10 =>
    rintro ⟨⟩
    exact .put_store
  | case11 =>
    rintro ⟨⟩
    exact .put_signal
  | case12 =>
    rintro ⟨⟩
    exact .put_unlock
  | case13 =>
    rintro ⟨⟩
    exact .put_refuse

theorem arrayGet_cases {pc : GetPc α} (h : arrayGet N t s pc = some o) :
    CallStep N t s (.get pc) o := by
  cases pc with
  | lock =>
    obtain ⟨hl, rfl⟩ := ArrayState.acquire_eq_some.1 h
    exact .get_lock hl
  | woken =>
    obtain ⟨hl, rfl⟩ := ArrayState.acquire_eq_some.1 h
    exact .get_relock hl
  | asleep => cases h
  | guard =>
    simp only [arrayGet] at h
    split at h <;> cases h <;> rename_i h0
    · simp only [Bool.and_eq_true, Bool.not_eq_true'] at h0
      exact .get_sleep h0.1 h0.2
    · exact .get_pass fun h1 => by simpa [h1] using h0
  | recheck =>
    simp only [arrayGet] at h
    split at h <;> cases h <;> rename_i h0
    · rw [Bool.and_eq_true] at h0
      exact .get_recheck_exit h0.1 h0.2
    · exact .get_recheck fun h1 => by simpa [h1] using h0
  | check =>
    simp only [arrayGet] at h
    split at h <;> cases h <;> rename_i h0
    · rw [Bool.and_eq_true] at h0
      exact .get_check_exit h0.1 h0.2
    · exact .get_check fun h1 => by simpa [h1] using h0
  | fetchSub e =>
    simp only [arrayGet] at h
    split at h <;> cases h <;> rename_i h0
    · exact .get_fetchSub_last h0
    · exact .get_fetchSub h0
  | take =>
    simp only [arrayGet] at h
    split at h
    · cases h
    · rename_i x hx
      split at h <;> cases h <;> rename_i h0
      · exact .get_take_last hx (by simpa using h0)
      · exact .get_take hx (by simpa using h0)
  | _ => cases h; constructor

theorem arrayFree_cases {pc : FreePc} (h : arrayFree t s pc = some o) :
    CallStep N t s (.free pc : Call α) o := by
  cases pc with
  | lock =>
    obtain ⟨hl, rfl⟩ := ArrayState.acquire_eq_some.1 h
    exact .free_lock hl
  | wokenEmptied r =>
    obtain ⟨hl, rfl⟩ := ArrayState.acquire_eq_some.1 h
    exact .free_relockEmptied hl
  | wokenDone r =>
    obtain ⟨hl, rfl⟩ := ArrayState.acquire_eq_some.1 h
    exact .free_relockDone hl
  | asleepEmptied | asleepDone => cases h
  | drain =>
    simp only [arrayFree] at h
    split at h <;> cases h <;> rename_i h0
    · exact .free_drained h0
    · exact .free_drain (by simpa using h0)
  | retestEmptied r =>
    simp only [arrayFree] at h
    split at h <;> cases h <;> rename_i h0
    · exact .free_leaveDrain h0
    · rw [not_or, Bool.not_eq_true] at h0
      cases r with
      | zero => exact absurd rfl h0.1
      | timedOut => exact .free_retestEmptied h0.2
  | load =>
    simp only [arrayFree] at h
    split at h <;> cases h <;> rename_i h0
    · exact .free_load_wait h0
    · exact .free_load (by omega)
  | retestDone r =>
    cases r <;> cases h
    · exact .free_leaveDone
    · exact .free_retestDone
  | _ => cases h; constructor

/-- The relation lists exactly the steps of the executable operations. -/
theorem callStep_iff : callStep N t s c = some o ↔ CallStep N t s c o := by
  refine ⟨fun h => ?_, CallStep.callStep_eq⟩
  cases c with
  | put x pc => exact arrayPut_cases h
  | get pc => exact arrayGet_cases h
  | free pc => exact arrayFree_cases h
  | _ => cases h

/-! ## The lock -/

def PutPc.holdsLock : PutPc → Bool
  | .lock | .asleep | .woken => false
  | _ => true

def GetPc.holdsLock : GetPc α → Bool
  | .fetchAdd | .lock | .asleep | .woken | .fetchSubLast _ => false
  | _ => true

def FreePc.holdsLock : FreePc → Bool
  | .lock | .asleepEmptied | .wokenEmptied _ | .asleepDone | .wokenDone _ | .destroy => false
  | _ => true

/-- The control points between taking and releasing the lock. -/
def Call.holdsLock : Call α → Bool
  | .put _ pc => pc.holdsLock
  | .get pc => pc.holdsLock
  | .free pc => pc.holdsLock
  | _ => false

theorem Call.holdsLock_of_done (h : c.done = true) : c.holdsLock = false := by
  cases c <;> first | rfl | cases h

theorem CallStep.lock (h : CallStep N t s c o) :
    (c.holdsLock = o.call.holdsLock ∧ o.arr.lock = s.lock) ∨
    (c.holdsLock = false ∧ s.lock = none ∧ o.call.holdsLock = true ∧ o.arr.lock = some t) ∨
    (c.holdsLock = true ∧ o.call.holdsLock = false ∧ o.arr.lock = none) := by
  cases h <;> simp_all [Call.holdsLock, PutPc.holdsLock, GetPc.holdsLock, FreePc.holdsLock]

/-! ## The ring and the flag -/

/-- Only the lock and the counter of getters may differ. -/
structure ArrayState.SameData (s s' : ArrayState T α) : Prop where
  storeString : s'.storeString = s.storeString
  head : s'.head = s.head
  tail : s'.tail = s.tail
  shutdown : s'.shutdown = s.shutdown

theorem ArrayState.SameData.refl (s : ArrayState T α) : s.SameData s := ⟨rfl, rfl, rfl, rfl⟩

/-- Three statements touch the ring or the flag, all of them with the lock held. -/
theorem CallStep.data (h : CallStep N t s c o) :
    s.SameData o.arr ∨
    (c.holdsLock = true ∧ o.call.holdsLock = true ∧
      ((∃ x, c = .put x .store ∧ o = ⟨{ s with
          storeString := update s.storeString s.tail (some x), tail := (s.tail + 1) % N },
          .put x .signal, .nobody, some (.store x)⟩) ∨
       (∃ x pc, c = .get .take ∧ s.storeString s.head = some x ∧
          o = ⟨{ s with head := (s.head + 1) % N }, .get pc, .nobody, some (.take x)⟩ ∧
          (pc = .signalEmptied x ∨ pc = .signalNotFull x)) ∨
       (c = .free .setShutdown ∧
          o = ⟨{ s with shutdown := true }, .free .drain, .nobody, none⟩))) := by
  cases h with
  | put_store => exact .inr ⟨rfl, rfl, .inl ⟨_, rfl, rfl⟩⟩
  | get_take_last hx => exact .inr ⟨rfl, rfl, .inr <| .inl ⟨_, _, rfl, hx, rfl, .inl rfl⟩⟩
  | get_take hx => exact .inr ⟨rfl, rfl, .inr <| .inl ⟨_, _, rfl, hx, rfl, .inr rfl⟩⟩
  | free_setShutdown => exact .inr ⟨rfl, rfl, .inr <| .inr ⟨rfl, rfl⟩⟩
  | _ => exact .inl ⟨rfl, rfl, rfl, rfl⟩

theorem CallStep.shutdown_mono (h : CallStep N t s c o) (hs : s.shutdown = true) :
    o.arr.shutdown = true := by
  cases h <;> first | exact hs | rfl

/-! ## Waking -/

@[simp] theorem Call.holdsLock_wake {r : WaitResult} : (c.wake r).holdsLock = c.holdsLock := by
  unfold Call.wake
  split <;> rfl

theorem Call.asleepOn_holdsLock {v : Cond} (h : c.asleepOn = some v) : c.holdsLock = false := by
  unfold Call.asleepOn at h
  split at h <;> first | rfl | cases h

theorem CallStep.not_asleep (h : CallStep N t s c o) : c.asleepOn = none := by
  cases h <;> rfl

/-- The condition variable a statement signals. -/
def Wake.on : Wake → Option Cond
  | .nobody => none
  | .signal v | .broadcast v => some v

namespace Monitor
variable [DecidableEq T] [Fintype T] {call call' : T → Call α} {wk : Wake} {w : Option T}

/-- A signal or a broadcast only turns sleepers on its condition variable into woken threads. -/
theorem wakeUp_apply (h : wakeUp call wk w = some call') (u : T) :
    call' u = call u ∨
    ∃ v, wk.on = some v ∧ (call u).asleepOn = some v ∧ call' u = (call u).wake .zero := by
  cases wk with
  | nobody =>
    cases w <;> cases h
    exact .inl rfl
  | signal v =>
    cases w with
    | none =>
      simp only [wakeUp] at h
      split at h <;> cases h
      exact .inl rfl
    | some x =>
      simp only [wakeUp] at h
      split at h <;> cases h
      rename_i hx
      by_cases hu : u = x
      · subst hu
        exact .inr ⟨v, rfl, hx, by simp⟩
      · exact .inl (by simp [hu])
  | broadcast v =>
    cases w <;> cases h
    by_cases hu : (call u).asleepOn = some v
    · exact .inr ⟨v, rfl, hu, by simp [hu]⟩
    · exact .inl (by simp [hu])

/-- What is unchanged by the end of a sleep is unchanged by every signal. -/
theorem wakeUp_congr {β : Type} {f : Call α → β} (hf : ∀ c, f (c.wake .zero) = f c)
    (h : wakeUp call wk w = some call') (u : T) : f (call' u) = f (call u) := by
  obtain h | ⟨_, _, _, h⟩ := wakeUp_apply h u <;> simp [h, hf]

variable {m m' : Monitor T α} {mv : Move T}

/-- A move is a statement of the call, or the end of a sleep without a signal. -/
theorem move_cases (h : m.move N t mv = some m') :
    (∃ o w call', CallStep N t m.arr (m.call t) o ∧ wakeUp m.call o.wake w = some call' ∧
      mv = .run w ∧ m' = ⟨o.arr, update call' t o.call, m.ghost.record o.event⟩) ∨
    (∃ r v, (m.call t).asleepOn = some v ∧ (r = .timedOut ↔ mv = .timeout) ∧
      (r = .zero ↔ mv = .spurious) ∧
      m' = { m with call := update m.call t ((m.call t).wake r) }) := by
  cases mv with
  | run w =>
    obtain ⟨o, ho, h⟩ := Option.bind_eq_some_iff.1 h
    obtain ⟨call', hc, rfl⟩ := Option.map_eq_some_iff.1 h
    exact .inl ⟨o, w, call', callStep_iff.1 ho, hc, rfl, rfl⟩
  | timeout =>
    simp only [move, wakeSelf] at h
    split at h <;> cases h
    rename_i hs
    obtain ⟨v, hv⟩ := Option.isSome_iff_exists.1 hs
    exact .inr ⟨.timedOut, v, hv, by simp, by simp, rfl⟩
  | spurious =>
    simp only [move, wakeSelf] at h
    split at h <;> cases h
    rename_i hs
    obtain ⟨v, hv⟩ := Option.isSome_iff_exists.1 hs
    exact .inr ⟨.zero, v, hv, by simp, by simp, rfl⟩

theorem begin_cases {op : Op α} (h : m.step N (.begin t op) = some m') :
    m.call t = .idle ∧ m' = m.begin t op := by
  simp only [step] at h
  split at h <;> cases h
  exact ⟨by assumption, rfl⟩

theorem leave_cases (h : m.step N (.leave t) = some m') :
    (m.call t).done = true ∧ m' = m.leave t := by
  simp only [step] at h
  split at h <;> cases h
  exact ⟨by assumption, rfl⟩

/-! ## Sums over the calls -/

/-- A weight that no wake-up changes moves only with the thread that moves. -/
theorem sum_move {M : Type} [AddCommMonoid M] {f : Call α → M}
    (hf : ∀ r c, f (c.wake r) = f c) (h : m.move N t mv = some m') :
    ∑ u, f (m'.call u) + f (m.call t) = ∑ u, f (m.call u) + f (m'.call t) := by
  obtain ⟨o, w, call', -, hw, -, rfl⟩ | ⟨r, v, -, -, -, rfl⟩ := move_cases h
  · have hc := wakeUp_congr (f := f) (hf .zero) hw
    have hs := Tally.sum_update f call' t o.call
    simp only [hc] at hs
    simpa using hs
  · simpa using Tally.sum_update f m.call t ((m.call t).wake r)

theorem sum_begin {M : Type} [AddCommMonoid M] (f : Call α → M) (m : Monitor T α) (t : T)
    (op : Op α) :
    ∑ u, f ((m.begin t op).call u) + f (m.call t) = ∑ u, f (m.call u) + f op.start :=
  Tally.sum_update f m.call t op.start

theorem sum_leave {M : Type} [AddCommMonoid M] (f : Call α → M) (m : Monitor T α) (t : T) :
    ∑ u, f ((m.leave t).call u) + f (m.call t) = ∑ u, f (m.call u) + f .idle :=
  Tally.sum_update f m.call t .idle

end Monitor
end DnsResolver
