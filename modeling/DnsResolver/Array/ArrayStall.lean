import DnsResolver.Array.ArrayDrain
import DnsResolver.Array.ArrayCounter

/-!
# The waits of `array_free` without time-outs

While `array_free` sleeps on `array_emptied` the queue is not empty, or the getter that has emptied
it is about to signal. The same holds of `all_getters_done` and `active_getters`, but for the last
`atomic_fetch_sub` of `array_get`: it is outside the lock and signals nobody. Where it takes the
counter to 0 after `array_free` has loaded it, `array_free` sleeps on a condition that already
holds (`never_left_asleep_iff`). -/

namespace DnsResolver
open Function Tally

variable {T α : Type} {N : Nat} {t : T} {s : ArrayState T α} {o : Out T α} {c : Call α}

/-- `array_free` after it has found elements in the queue and before the end of its sleep. -/
def Call.awaitsEmptied : Call α → Bool
  | .free .drainWakeGetters | .free .drainWakePutters | .free .waitEmptied => true
  | .free .asleepEmptied => true
  | _ => false

/-- `array_free` after it has found getters counted and before the end of its sleep. -/
def Call.awaitsDone : Call α → Bool
  | .free .waitDone | .free .asleepDone => true
  | _ => false

/-- A getter that has taken `active_getters` to 0 and is about to signal `all_getters_done`. -/
def Call.finishing : Call α → Bool
  | .get (.signalDone _) => true
  | _ => false

/-- A getter at the last `atomic_fetch_sub`, outside the lock. -/
def Call.unheard : Call α → Bool
  | .get (.fetchSubLast _) => true
  | _ => false

/-- `array_free` begins to wait when it has found elements in the queue. -/
theorem CallStep.awaitsEmptied (h : CallStep N t s c o) (ho : o.call.awaitsEmptied = true) :
    o.arr.empty = false ∨ (c.awaitsEmptied = true ∧ o.arr.empty = s.empty) := by
  cases h with
  | free_drain he => exact .inl he
  | free_drainWakeGetters | free_drainWakePutters | free_waitEmptied => exact .inr ⟨rfl, rfl⟩
  | _ => cases ho

theorem CallStep.awaitsDone (h : CallStep N t s c o) (ho : o.call.awaitsDone = true) :
    o.arr.activeGetters > 0 ∨ (c.awaitsDone = true ∧ o.arr.activeGetters = s.activeGetters) := by
  cases h with
  | free_load_wait he => exact .inl he
  | free_waitDone => exact .inr ⟨rfl, rfl⟩
  | _ => cases ho

/-- A statement that empties the queue is followed by the signal. -/
theorem CallStep.empties (h : CallStep N t s c o) (he : s.empty = false)
    (he' : o.arr.empty = true) (hs : s.shutdown = true) (ha : c.Asserts N s) :
    o.call.emptying = true := by
  cases h with
  | put_store => exact absurd (hs.symm.trans ha.1) (by simp)
  | get_take_last => rfl
  | get_take _ hne => exact absurd (by simpa [ArrayState.empty] using he') hne
  | _ => exact absurd (he.symm.trans he') (by simp)

/-- A statement that takes the counter to 0 is followed by the signal, but for the last one. -/
theorem CallStep.finishes (h : CallStep N t s c o) (hp : 0 < s.activeGetters)
    (h0 : o.arr.activeGetters = 0) :
    o.call.finishing = true ∨ (c.unheard = true ∧ s.activeGetters = 1) := by
  cases h with
  | get_fetchAdd => exact absurd h0 (by dsimp only; omega)
  | get_fetchSub_last => exact .inl rfl
  | get_fetchSub hn => exact absurd h0 hn
  | get_fetchSubLast => exact .inr ⟨rfl, by dsimp only at h0; omega⟩
  | _ => exact absurd h0 hp.ne'

theorem Call.Asserts.shutdown_of_awaits (h : c.Asserts N s) (hc : c.awaitsEmptied = true) :
    s.shutdown = true := by
  unfold Call.awaitsEmptied at hc
  split at hc <;> first | exact h | cases hc

namespace Monitor
variable [DecidableEq T] [Fintype T] {m m' : Monitor T α} {mv : Move T}

/-! ## The signals to `array_free` -/

/-- The getters `p` are about to signal `v`, with the lock held; the threads `q` are in
`array_free` and wait for that signal. -/
structure Signals (p q : Call α → Bool) (v : Cond) : Prop where
  wake : ∀ r c, p (c.wake r) = p c
  holds : ∀ c, p c = true → c.op = some .get ∧ c.holdsLock = true
  signal : ∀ {T : Type} {N : Nat} {t : T} {s : ArrayState T α} {c : Call α} {o : Out T α},
    CallStep N t s c o → p c = true → o.wake = .signal v
  sleeper : ∀ c : Call α, c.asleepOn = some v → c.op = some .free
  waits : ∀ c, q c = true → c.op = some .free ∧ (c.holdsLock = false → c.asleepOn = some v)
  woken : ∀ r v' (c : Call α), c.asleepOn = some v' → q (c.wake r) = false

theorem signals_emptied :
    Signals (Call.emptying : Call α → Bool) Call.awaitsEmptied .arrayEmptied where
  wake r c := Call.emptying_wake
  holds c h := by
    unfold Call.emptying at h
    split at h <;> first | exact ⟨rfl, rfl⟩ | cases h
  signal h hc := by cases h <;> first | rfl | cases hc
  sleeper c h := by
    obtain ⟨⟨⟩, _⟩ | ⟨⟨⟩, _⟩ | ⟨-, rfl⟩ | ⟨⟨⟩, _⟩ := Call.asleepOn_cases h
    rfl
  waits c h := by
    unfold Call.awaitsEmptied at h
    split at h <;> first | exact ⟨rfl, fun _ => rfl⟩ | exact ⟨rfl, nofun⟩ | cases h
  woken r v c h := by
    obtain ⟨-, x, rfl⟩ | ⟨-, rfl⟩ | ⟨-, rfl⟩ | ⟨-, rfl⟩ := Call.asleepOn_cases h <;> rfl

theorem signals_done :
    Signals (Call.finishing : Call α → Bool) Call.awaitsDone .allGettersDone where
  wake r c := by
    unfold Call.wake
    split <;> rfl
  holds c h := by
    unfold Call.finishing at h
    split at h <;> first | exact ⟨rfl, rfl⟩ | cases h
  signal h hc := by cases h <;> first | rfl | cases hc
  sleeper c h := by
    obtain ⟨⟨⟩, _⟩ | ⟨⟨⟩, _⟩ | ⟨⟨⟩, _⟩ | ⟨-, rfl⟩ := Call.asleepOn_cases h
    rfl
  waits c h := by
    unfold Call.awaitsDone at h
    split at h <;> first | exact ⟨rfl, fun _ => rfl⟩ | exact ⟨rfl, nofun⟩ | cases h
  woken r v c h := by
    obtain ⟨-, x, rfl⟩ | ⟨-, rfl⟩ | ⟨-, rfl⟩ | ⟨-, rfl⟩ := Call.asleepOn_cases h <;> rfl

/-! ## One call of `array_free` -/

/-- No wait times out, and `array_free` is called once. -/
def Untimed (m : Monitor T α) (a : Act T α) : Prop :=
  (∀ t, a ≠ .move t .timeout) ∧ ∀ t, a = .begin t .free → m.ghost.frees = 0

omit [DecidableEq T] [Fintype T] in
theorem untimed_run {w : Option T} : m.Untimed (.move t (.run w)) := by
  constructor
  · intro u h
    cases h
  · intro u h
    cases h

/-- At most one thread is in `array_free`. -/
structure FreesOnce (m : Monitor T α) : Prop where
  begun : m.ghost.frees = 0 → ∀ u, (m.call u).op ≠ some .free
  one : ∀ u v, (m.call u).op = some .free → (m.call v).op = some .free → u = v

theorem move_frees (h : m.move N t mv = some m') : m'.ghost.frees = m.ghost.frees := by
  rcases move_cases h with ⟨o, w, call', -, -, -, rfl⟩ | ⟨r, v, -, -, -, rfl⟩
  · unfold Ghost.record
    split <;> rfl
  · rfl

omit [Fintype T] in
theorem FreesOnce.begin (W : m.FreesOnce) {op : Op α} (ht : m.call t = .idle)
    (ho : op = .free → m.ghost.frees = 0) : (m.begin t op).FreesOnce := by
  have hself : ((m.begin t op).call t).op = some op := by
    simp only [Monitor.begin, update_self]
    cases op <;> rfl
  have hne : ∀ u ≠ t, (m.begin t op).call u = m.call u := fun u hu => update_of_ne hu ..
  have hother : op ≠ .free → ∀ u, ((m.begin t op).call u).op = some .free →
      (m.call u).op = some .free := by
    intro hop u hu
    by_cases hut : u = t
    · subst hut
      rw [hself] at hu
      exact absurd (Option.some.inj hu) hop
    · rwa [hne u hut] at hu
  cases op with
  | free =>
    have h0 := W.begun (ho rfl)
    have hu : ∀ u, ((m.begin t .free).call u).op = some .free → u = t := fun u hu => by
      by_contra hut
      rw [hne u hut] at hu
      exact h0 u hu
    exact ⟨fun h => absurd h (Nat.succ_ne_zero _), fun u v hu' hv' => (hu u hu').trans (hu v hv').symm⟩
  | put x =>
    have hu := hother (by simp)
    exact ⟨fun h u h' => W.begun h u (hu u h'), fun u v hu' hv' => W.one u v (hu u hu') (hu v hv')⟩
  | get =>
    have hu := hother (by simp)
    exact ⟨fun h u h' => W.begun h u (hu u h'), fun u v hu' hv' => W.one u v (hu u hu') (hu v hv')⟩

theorem FreesOnce.step {a : Act T α} (W : m.FreesOnce) (ha : m.Untimed a)
    (h : m.step N a = some m') : m'.FreesOnce := by
  cases a with
  | begin t op =>
    obtain ⟨ht, rfl⟩ := begin_cases h
    refine W.begin ht fun ho => ha.2 t (by rw [ho])
  | move t mv =>
    have hop := fun u => move_op h u
    refine ⟨fun h0 u hu => ?_, fun u v hu hv => ?_⟩
    · rw [move_frees h] at h0
      exact W.begun h0 u (hop u ▸ hu)
    · exact W.one u v (hop u ▸ hu) (hop v ▸ hv)
  | leave t =>
    obtain ⟨ht, rfl⟩ := leave_cases h
    have hu : ∀ u, ((m.leave t).call u).op = some .free → (m.call u).op = some .free := by
      intro u hu
      by_cases hut : u = t
      · subst hut
        simp only [Monitor.leave, update_self] at hu
        cases hu
      · simpa only [Monitor.leave, update_of_ne hut] using hu
    exact ⟨fun h0 u h' => W.begun h0 u (hu u h'), fun u v h1 h2 => W.one u v (hu u h1) (hu v h2)⟩

/-! ## Who waits will be woken -/

/-- While `array_free` waits for the queue to be emptied there are elements, or the getter that
has taken the last one is about to signal. -/
def EmptiedWatched (m : Monitor T α) : Prop := ∀ t, (m.call t).awaitsEmptied = true →
  m.arr.empty = false ∨ ∃ u, (m.call u).emptying = true

/-- The same for the wait for the getters. -/
def DoneWatched (m : Monitor T α) : Prop := ∀ t, (m.call t).awaitsDone = true →
  m.arr.activeGetters ≠ 0 ∨ ∃ u, (m.call u).finishing = true

/-- No getter takes `active_getters` to 0 with the last `atomic_fetch_sub` while `array_free` is
between its load of the counter and the end of its sleep. -/
def Heard (m : Monitor T α) (a : Act T α) : Prop :=
  ∀ u w, a = .move u (.run w) → (m.call u).unheard = true → m.arr.activeGetters = 1 →
    ∀ t, (m.call t).awaitsDone = false

/-- While `array_free` waits for the signal, the getter that is about to give it stays so. -/
theorem Signals.stays {p q : Call α → Bool} {v : Cond} (F : Signals p q v) (H : m.Inv N)
    (W : m.FreesOnce) (h : m.move N t mv = some m') {u x : T} (hu : p (m.call u) = true)
    (hx : q (m.call x) = true) (hx' : q (m'.call x) = true) : p (m'.call u) = true := by
  obtain ⟨hug, hul⟩ := F.holds _ hu
  obtain ⟨hxf, hxv⟩ := F.waits _ hx
  have hxu : x ≠ u := by
    rintro rfl
    rw [hug] at hxf
    cases hxf
  have hv := hxv (H.not_holdsLock hul hxu)
  rcases move_stable F.wake h u with he | ⟨rfl, -⟩
  · exact he.trans hu
  · rcases move_cases h with ⟨o, w, call', hst, hw, -, rfl⟩ | ⟨r, v', hv', -, -, rfl⟩
    · rw [F.signal hst hu] at hw
      rcases wakeUp_signal hw with ⟨-, hn⟩ | ⟨y, hy, rfl⟩
      · exact absurd hv (hn x)
      · obtain rfl := W.one y x (F.sleeper _ hy) hxf
        simp only [update_of_ne hxu, update_self, F.woken _ _ _ hv] at hx'
        cases hx'
    · exact absurd hul (by simp [Call.asleepOn_holdsLock hv'])

/-- Another thread that waits after a move waited before, and was not woken. -/
theorem Signals.other {p q : Call α → Bool} {v : Cond} (F : Signals p q v)
    (h : m.move N t mv = some m') {x : T} (hx : x ≠ t) (hw : q (m'.call x) = true) :
    m'.call x = m.call x := by
  rcases move_other h hx with he | ⟨o, v, -, -, hv, he, -⟩
  · exact he
  · rw [he, F.woken _ v _ hv] at hw
    cases hw

theorem EmptiedWatched.move (W : m.EmptiedWatched) (H : m.Inv N) (hf : m.FreesOnce)
    (h : m.move N t mv = some m') : m'.EmptiedWatched := by
  intro x hx
  by_cases hxt : x = t
  · subst hxt
    rcases move_cases h with ⟨o, w, call', hst, -, -, rfl⟩ | ⟨r, v, hv, -, -, rfl⟩
    · have ho := hx
      simp only [update_self] at ho
      rcases hst.awaitsEmptied ho with he | ⟨hc, he⟩
      · exact .inl he
      · rcases W x hc with hn | ⟨u, hu⟩
        · exact .inl (he.trans hn)
        · exact .inr ⟨u, signals_emptied.stays H hf h hu hc hx⟩
    · simp only [update_self, signals_emptied.woken _ _ _ hv] at hx
      exact absurd hx nofun
  · have he := signals_emptied.other h hxt hx
    have hx0 := hx
    rw [he] at hx0
    rcases W x hx0 with hn | ⟨u, hu⟩
    · rcases hm : m'.arr.empty with - | -
      · exact .inl rfl
      · rcases move_cases h with ⟨o, w, call', hst, -, -, rfl⟩ | ⟨r, v, -, -, -, rfl⟩
        · refine .inr ⟨t, ?_⟩
          simp only [update_self]
          exact hst.empties hn hm ((H.asserts x).shutdown_of_awaits hx0) (H.asserts t)
        · exact absurd (hn.symm.trans hm) nofun
    · exact .inr ⟨u, signals_emptied.stays H hf h hu hx0 hx⟩

theorem DoneWatched.move (W : m.DoneWatched) (H : m.Inv N) (hf : m.FreesOnce)
    (hc : m.CountsGetters) (ha : m.Heard (.move t mv)) (h : m.move N t mv = some m') :
    m'.DoneWatched := by
  intro x hx
  by_cases hxt : x = t
  · subst hxt
    rcases move_cases h with ⟨o, w, call', hst, -, -, rfl⟩ | ⟨r, v, hv, -, -, rfl⟩
    · have ho := hx
      simp only [update_self] at ho
      rcases hst.awaitsDone ho with he | ⟨hc, he⟩
      · exact .inl he.ne'
      · rcases W x hc with hn | ⟨u, hu⟩
        · exact .inl (by rwa [← he] at hn)
        · exact .inr ⟨u, signals_done.stays H hf h hu hc hx⟩
    · simp only [update_self, signals_done.woken _ _ _ hv] at hx
      exact absurd hx nofun
  · have he := signals_done.other h hxt hx
    have hx0 := hx
    rw [he] at hx0
    rcases W x hx0 with hn | ⟨u, hu⟩
    · by_cases hm : m'.arr.activeGetters = 0
      · rcases move_cases h with ⟨o, w, call', hst, -, rfl, rfl⟩ | ⟨r, v, -, -, -, rfl⟩
        · have hpos : 0 < m.arr.activeGetters := by
            have := hc.symm
            omega
          rcases hst.finishes hpos hm with h0 | ⟨h0, h1⟩
          · exact .inr ⟨t, by simpa only [update_self] using h0⟩
          · rw [ha t w rfl h0 h1 x] at hx0
            cases hx0
        · exact absurd hm hn
      · exact .inl hm
    · exact .inr ⟨u, signals_done.stays H hf h hu hx0 hx⟩

omit [Fintype T] in
/-- A call that begins or ends neither waits nor is about to signal. -/
theorem Signals.update_call {p q : Call α → Bool} {v : Cond} (F : Signals p q v) {P : Prop}
    (W : ∀ x, q (m.call x) = true → P ∨ ∃ u, p (m.call u) = true) {c : Call α}
    (ht : (m.call t).holdsLock = false) (hc : q c = false) (x : T)
    (hx : q (update m.call t c x) = true) : P ∨ ∃ u, p (update m.call t c u) = true := by
  have hxt : x ≠ t := by
    rintro rfl
    rw [update_self, hc] at hx
    cases hx
  rw [update_of_ne hxt] at hx
  refine (W x hx).imp_right fun ⟨u, hu⟩ => ⟨u, ?_⟩
  have hut : u ≠ t := by
    rintro rfl
    rw [(F.holds _ hu).2] at ht
    cases ht
  rwa [update_of_ne hut]

theorem freesOnce_reachable (H : ((system T α N).restrict Untimed).Reachable m) :
    m.FreesOnce := by
  induction H with
  | init h =>
    rw [h]
    exact ⟨fun _ _ => nofun, nofun⟩
  | step _ h ih => exact ih.step h.1 h.2

theorem emptiedWatched_reachable (hN : 2 ≤ N)
    (H : ((system T α N).restrict Untimed).Reachable m) : m.EmptiedWatched := by
  induction H with
  | init h =>
    rw [h]
    exact nofun
  | step H h ih =>
    rename_i m a m'
    obtain ⟨-, h⟩ := h
    cases a with
    | begin t op =>
      obtain ⟨ht, rfl⟩ := begin_cases h
      exact signals_emptied.update_call ih (by rw [ht]; rfl) (by cases op <;> rfl)
    | move t mv => exact ih.move (inv_reachable hN H.of_restrict) (freesOnce_reachable H) h
    | leave t =>
      obtain ⟨ht, rfl⟩ := leave_cases h
      exact signals_emptied.update_call ih (Call.holdsLock_of_done ht) rfl

theorem doneWatched_reachable (hN : 2 ≤ N)
    (H : ((system T α N).restrict fun m a => m.Untimed a ∧ m.Heard a).Reachable m) :
    m.DoneWatched := by
  induction H with
  | init h =>
    rw [h]
    exact nofun
  | step H h ih =>
    rename_i m a m'
    obtain ⟨⟨-, ha⟩, h⟩ := h
    have H := H.restrict_mono fun _ _ h => h.1
    cases a with
    | begin t op =>
      obtain ⟨ht, rfl⟩ := begin_cases h
      exact signals_done.update_call ih (by rw [ht]; rfl) (by cases op <;> rfl)
    | move t mv =>
      exact ih.move (inv_reachable hN H.of_restrict) (freesOnce_reachable H)
        (activeGetters_exact H.of_restrict) ha h
    | leave t =>
      obtain ⟨ht, rfl⟩ := leave_cases h
      exact signals_done.update_call ih (Call.holdsLock_of_done ht) rfl

/-! ## The unheard getter -/

/-- While a getter is about to signal `all_getters_done`, every other getter that is counted is
still before its `pthread_mutex_lock`. -/
def FinishesLast (m : Monitor T α) : Prop := ∀ v, (m.call v).finishing = true →
  ∀ u, (m.call u).counted = true → m.call u = .get .lock

theorem FinishesLast.move (W : m.FinishesLast) (H : m.Inv N) (hc : m.CountsGetters)
    (h : m.move N t mv = some m') : m'.FinishesLast := by
  intro v hv u hu
  by_cases hvt : v = t
  · subst hvt
    rcases move_cases h with ⟨o, w, call', hst, -, -, rfl⟩ | ⟨r, v', hv', -, -, rfl⟩
    · simp only [update_self] at hv
      have hlast : ∀ x ≠ v, (m.call x).counted = false := by
        have := hc.last_iff (t := v)
        generalize m.call v = c at hst this
        cases hst with
        | get_fetchSub_last h0 => exact (this rfl).1 h0
        | _ => cases hv
      have huv : u ≠ v := by
        rintro rfl
        simp only [update_self] at hu
        generalize o.call = c at hu hv
        unfold Call.finishing at hv
        split at hv <;> cases hv
        cases hu
      have := move_stable (fun _ _ => Call.counted_wake) h u
      rcases this with he | ⟨rfl, -⟩
      · rw [he, hlast u huv] at hu
        cases hu
      · exact absurd rfl huv
    · simp only [update_self, signals_done.wake] at hv
      exact absurd (signals_done.holds _ hv).2 (by simp [Call.asleepOn_holdsLock hv'])
  · have hv0 : (m.call v).finishing = true := by
      rcases move_stable signals_done.wake h v with he | ⟨rfl, -⟩
      · exact he.symm.trans hv
      · exact absurd rfl hvt
    have hlk := (H.lock v).2 (signals_done.holds _ hv0).2
    by_cases hut : u = t
    · subst hut
      rcases move_cases h with ⟨o, w, call', hst, -, -, rfl⟩ | ⟨r, v', hv', -, -, rfl⟩
      · simp only [update_self] at hu ⊢
        have hW := W v hv0 u
        generalize m.call u = c at hst hW
        cases hst with
        | get_fetchAdd => rfl
        | get_lock hl | get_relock hl => exact absurd (hl.symm.trans hlk) nofun
        | _ => first | cases hu; done | exact absurd (hW rfl) nofun
      · simp only [update_self, Call.counted_wake] at hu
        rw [W v hv0 u hu] at hv'
        cases hv'
    · rcases move_other h hut with he | ⟨o, v', -, -, hv', he, -⟩
      · rw [he] at hu ⊢
        exact W v hv0 u hu
      · rw [he, Call.counted_wake] at hu
        rw [W v hv0 u hu] at hv'
        cases hv'

omit [Fintype T] in
theorem FinishesLast.update_call (W : m.FinishesLast) {c : Call α} {g : Ghost T α}
    (h1 : c.finishing = false) (h2 : c.counted = false) :
    FinishesLast ⟨m.arr, update m.call t c, g⟩ := by
  intro v hv u hu
  by_cases hvt : v = t
  · subst hvt
    simp only [update_self, h1] at hv
    exact absurd hv nofun
  · simp only [update_of_ne hvt] at hv hu ⊢
    by_cases hut : u = t
    · subst hut
      simp only [update_self, h2] at hu
      exact absurd hu nofun
    · simp only [update_of_ne hut] at hu ⊢
      exact W v hv u hu

theorem finishesLast_reachable (hN : 2 ≤ N) (H : (system T α N).Reachable m) :
    m.FinishesLast := by
  refine H.invariant (fun _ h => ?_) fun m a m' H h W => ?_
  · rw [h]
    exact nofun
  · cases a with
    | begin t op =>
      obtain ⟨-, rfl⟩ := begin_cases h
      cases op <;> exact W.update_call rfl rfl
    | move t mv => exact W.move (inv_reachable hN H) (activeGetters_exact H) h
    | leave t =>
      obtain ⟨-, rfl⟩ := leave_cases h
      exact W.update_call rfl rfl

/-- `array_free` is asleep on `all_getters_done` with no getter counted, and nobody is about to
wake it. -/
def Stalled (m : Monitor T α) : Prop := ∃ t, m.call t = .free .asleepDone ∧
  m.arr.activeGetters = 0 ∧ ∀ u, (m.call u).finishing = false

/-- After the unheard statement `array_free` sleeps on, or falls asleep next. -/
theorem stalls (hN : 2 ≤ N) (H : (system T α N).Reachable m) {a : Act T α}
    (h : m.step N a = some m') (hn : ¬ m.Heard a) :
    ∃ m'', ((system T α N).restrict Untimed).Leads m' m'' ∧ m''.Stalled := by
  simp only [Heard, not_forall, Bool.not_eq_false] at hn
  obtain ⟨u, w, rfl, hu, h1, x, hx⟩ := hn
  have hi := inv_reachable hN H
  have hxu : x ≠ u := by
    rintro rfl
    generalize m.call x = c at hu hx
    unfold Call.unheard at hu
    split at hu <;> cases hu
    cases hx
  obtain ⟨y, hy⟩ : ∃ y, m.call u = .get (.fetchSubLast y) := by
    generalize m.call u = c at hu
    unfold Call.unheard at hu
    split at hu <;> cases hu
    exact ⟨_, rfl⟩
  have hm : m' = ⟨{ m.arr with activeGetters := 0 }, update m.call u (.getDone (some y)),
      m.ghost⟩ := by
    have hmv : m.move N u (.run w) = some m' := h
    rcases move_cases hmv with ⟨o, w', call', hst, hw, -, rfl⟩ | ⟨r, v, hv, -⟩
    · rw [hy] at hst
      cases hst
      cases w' <;> cases hw
      simp [Ghost.record, h1]
    · rw [hy] at hv
      cases hv
  have hfin : ∀ v, (m'.call v).finishing = true → (m.call v).finishing = true := by
    intro v hv
    rw [hm] at hv
    by_cases hvu : v = u
    · subst hvu
      simp only [update_self] at hv
      cases hv
    · simpa only [update_of_ne hvu] using hv
  have hxc : m'.call x = m.call x := by simp only [hm, update_of_ne hxu]
  obtain hx | hx : m.call x = .free .waitDone ∨ m.call x = .free .asleepDone := by
    generalize m.call x = c at hx
    unfold Call.awaitsDone at hx
    split at hx <;> first | exact .inl rfl | exact .inr rfl | cases hx
  · let m'' : Monitor T α :=
      ⟨{ m'.arr with lock := none }, update m'.call x (.free .asleepDone), m'.ghost⟩
    have hs : m'.step N (.move x (.run none)) = some m'' := by
      simp [step, Monitor.move, hxc, hx, callStep, arrayFree, wakeUp, m'', Ghost.record,
        ArrayState.release]
    refine ⟨m'', .single ⟨untimed_run, hs⟩, x, update_self .., by simp only [m'', hm],
      fun v => ?_⟩
    by_contra hv
    rw [Bool.not_eq_false] at hv
    by_cases hvx : v = x
    · subst hvx
      simp only [m'', update_self] at hv
      cases hv
    · simp only [m'', update_of_ne hvx] at hv
      have := hi.not_holdsLock (signals_done.holds _ (hfin v hv)).2 (Ne.symm hvx)
      rw [hx] at this
      cases this
  · refine ⟨m', .refl, x, hxc.trans hx, by rw [hm], fun v => ?_⟩
    by_contra hv
    rw [Bool.not_eq_false] at hv
    have := finishesLast_reachable hN H v (hfin v hv) u (by rw [hy]; rfl)
    rw [hy] at this
    cases this

/-- **When `array_free` is left asleep.** With no time-outs and one call of `array_free`: it never
sleeps on `array_emptied` with the queue empty, unless the getter that has emptied the queue is
about to signal; and in every run in which no getter takes `active_getters` to 0 outside the lock
while `array_free` is about to wait for that, or waits, it never sleeps on `all_getters_done` with
no getter counted, unless the last getter is about to signal. Where a getter does so, `array_free`
can go on to sleep with nobody to wake it. -/
theorem never_left_asleep_iff (hN : 2 ≤ N) :
    (∀ m, ((system T α N).restrict Untimed).Reachable m → ∀ t, m.call t = .free .asleepEmptied →
      m.arr.head ≠ m.arr.tail ∨ ∃ u x, m.call u = .get (.signalEmptied x)) ∧
    (∀ m, ((system T α N).restrict fun m a => m.Untimed a ∧ m.Heard a).Reachable m →
      ∀ t, m.call t = .free .asleepDone →
        m.arr.activeGetters ≠ 0 ∨ ∃ u e, m.call u = .get (.signalDone e)) ∧
    (∀ m a m', ((system T α N).restrict Untimed).Reachable m → m.step N a = some m' →
      ¬ m.Heard a → ∃ m'', ((system T α N).restrict Untimed).Leads m' m'' ∧ m''.Stalled) := by
  refine ⟨fun m H t ht => ?_, fun m H t ht => ?_, fun m a m' H h hn => stalls hN H.of_restrict h hn⟩
  · rcases emptiedWatched_reachable hN H t (by rw [ht]; rfl) with he | ⟨u, hu⟩
    · exact .inl (by simpa [ArrayState.empty] using he)
    · refine .inr ⟨u, ?_⟩
      generalize m.call u = c at hu
      unfold Call.emptying at hu
      split at hu <;> cases hu
      exact ⟨_, rfl⟩
  · rcases doneWatched_reachable hN H t (by rw [ht]; rfl) with he | ⟨u, hu⟩
    · exact .inl he
    · refine .inr ⟨u, ?_⟩
      generalize m.call u = c at hu
      unfold Call.finishing at hu
      split at hu <;> cases hu
      exact ⟨_, rfl⟩

instance [DecidableEq α] (a : Act T α) : Decidable (m.Untimed a) :=
  match a with
  | .begin t op => decidable_of_iff (op = .free → m.ghost.frees = 0)
      ⟨fun h => ⟨nofun, fun u e => by cases e; exact h rfl⟩, fun h e => h.2 t (by rw [e])⟩
  | .leave _ => .isTrue ⟨nofun, nofun⟩
  | .move t mv => decidable_of_iff (mv ≠ .timeout)
      ⟨fun h => ⟨fun u e => by cases e; exact h rfl, nofun⟩, fun h e => h.1 t (by rw [e])⟩

instance (a : Act T α) : Decidable (m.Heard a) :=
  match a with
  | .begin .. => .isTrue nofun
  | .leave _ => .isTrue nofun
  | .move u (.run w) => decidable_of_iff ((m.call u).unheard = true → m.arr.activeGetters = 1 →
      ∀ t, (m.call t).awaitsDone = false)
      ⟨fun h u' w' e => by cases e; exact h, fun h => h u w rfl⟩
  | .move _ .timeout => .isTrue nofun
  | .move _ .spurious => .isTrue nofun

/-- A getter waits, `array_free` wakes it and falls asleep until that getter has left. -/
def awaitedRun : List (Act Bool Nat) :=
  .begin false .get :: List.replicate 3 (.move false (.run none)) ++
  .begin true .free :: List.replicate 7 (.move true (.run none))

theorem never_left_asleep_awaited : ∃ m : Monitor Bool Nat,
    ((system Bool Nat 8).restrict Untimed).Reachable m ∧ m.call true = .free .asleepDone ∧
      (m.arr.activeGetters ≠ 0 ∨ ∃ u e, m.call u = .get (.signalDone e)) := by
  have h : ∃ m ∈ TransitionSystem.exec (TransitionSystem.guarded
      (fun m a => m.Untimed a ∧ m.Heard a) (step 8)) awaitedRun init,
      m.call true = .free .asleepDone := by decide +kernel
  obtain ⟨m, hm, h⟩ := h
  have hr := TransitionSystem.restrict_exec hm
  exact ⟨m, hr.restrict_mono fun _ _ h => h.1, h,
    (never_left_asleep_iff (by decide)).2.1 m hr true h⟩

/-- The getter has taken the only element and released the lock when `array_free` loads the
counter. -/
def unheardRun : List (Act Bool Nat) :=
  .begin false (.put 3) :: List.replicate 6 (.move false (.run none)) ++
  .leave false :: .begin false .get :: List.replicate 8 (.move false (.run none)) ++
  .begin true .free :: List.replicate 7 (.move true (.run none)) ++
  [.move false (.run none)]

/-- `array_free` sleeps on `all_getters_done` and no getter is left. -/
theorem left_asleep : ∃ m : Monitor Bool Nat,
    ((system Bool Nat 8).restrict Untimed).Reachable m ∧ m.call true = .free .asleepDone ∧
      m.arr.activeGetters = 0 ∧ m.arr.lock = none ∧ m.call false = .getDone (some 3) := by
  have h : ∃ m ∈ TransitionSystem.exec (TransitionSystem.guarded Untimed (step 8)) unheardRun init,
      m.call true = .free .asleepDone ∧ m.arr.activeGetters = 0 ∧ m.arr.lock = none ∧
        m.call false = .getDone (some 3) := by decide +kernel
  obtain ⟨m, hm, h⟩ := h
  exact ⟨m, TransitionSystem.restrict_exec hm, h⟩

end Monitor
end DnsResolver
