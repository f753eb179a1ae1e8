import DnsResolver.Array.ArrayFifo

/-!
# Calls that go on

A call waits while it is in one of the three timed waits of `array.c` and the condition it waits
for does not hold (`Call.waiting`). What such a call does, falling asleep, being timed out, looking
again, changes nothing for the others but the lock, which it releases again (`futile_move`). So
where some call is in progress and does not wait, the calls that do cannot keep it from going on
(`Inv.progress`). -/

namespace DnsResolver
open Function

variable {T α : Type} {N : Nat} {t : T} {s s' : ArrayState T α} {o : Out T α} {c : Call α}

/-- The call has begun and not yet returned. -/
def Call.running : Call α → Bool
  | .put .. | .get _ | .free _ => true
  | _ => false

/-- The call is in a wait for a condition that does not hold: a put for room, a get for an element,
`array_free` for the queue to be emptied or for the getters to leave. -/
def Call.waiting (N : Nat) (s : ArrayState T α) : Call α → Bool
  | .put _ .guard | .put _ .asleep | .put _ .woken | .put _ .recheck => !s.shutdown && s.full N
  | .get .guard | .get .asleep | .get .woken | .get .recheck => !s.shutdown && s.empty
  | .free .drain | .free .drainWakeGetters | .free .drainWakePutters | .free .waitEmptied
  | .free .asleepEmptied | .free (.wokenEmptied .timedOut) | .free (.retestEmptied .timedOut) =>
    !s.empty
  | .free .load | .free .waitDone | .free .asleepDone | .free (.wokenDone .timedOut)
  | .free (.retestDone .timedOut) => s.activeGetters > 0
  | _ => false

theorem Call.running_of_waiting (h : c.waiting N s = true) : c.running = true := by
  cases c <;> first | rfl | cases h

theorem Call.running_of_op {p : Op α} (h : c.op = some p) : c.running = true ∨ c.done = true := by
  cases c <;> first | exact .inl rfl | exact .inr rfl | cases h

theorem Call.done_cases {p : Op α} (h : c.op = some p)
    (hd : c.done = true) : match p with
    | .put x => ∃ r, c = .putDone x r
    | .get => ∃ r, c = .getDone r
    | .free => c = .freeDone := by
  cases c <;> cases h <;> first | exact ⟨_, rfl⟩ | rfl | cases hd

@[simp] theorem Call.running_wake {r : WaitResult} : (c.wake r).running = c.running := by
  unfold Call.wake
  split <;> rfl

/-- A time-out tells nothing, and a put or a get takes no notice of why it was woken. -/
theorem Call.waiting_wake {r : WaitResult} (h : r = .timedOut ∨ c.op ≠ some .free) :
    (c.wake r).waiting N s = c.waiting N s := by
  unfold Call.wake
  split
  · rfl
  · rfl
  · obtain rfl := h.resolve_right (absurd rfl)
    rfl
  · obtain rfl := h.resolve_right (absurd rfl)
    rfl
  · rfl

theorem Call.not_free_of_asleepOn {v : Cond} (h : c.asleepOn = some v)
    (hv : v = .notEmpty ∨ v = .notFull) : c.op ≠ some .free := by
  intro hc
  cases c with
  | free pc => cases pc <;> cases h <;> cases hv <;> contradiction
  | _ => cases hc <;> cases h

/-- What the waits look at. -/
structure ArrayState.SameView (s s' : ArrayState T α) : Prop where
  data : s.SameData s'
  getters : s'.activeGetters = s.activeGetters

theorem ArrayState.SameView.waiting (h : s.SameView s') : c.waiting N s' = c.waiting N s := by
  unfold Call.waiting
  rw [h.data.full, h.data.empty, h.data.shutdown, h.getters]

/-! ## What a waiting call waits for -/

theorem Call.waiting_put {x : α} (h : c.op = some (.put x)) (hw : c.waiting N s = true) :
    s.shutdown = false ∧ s.full N = true := by
  cases c with
  | put y pc => cases pc <;> simp_all [waiting]
  | _ => cases h <;> cases hw

theorem Call.waiting_get (h : c.op = some .get) (hw : c.waiting N s = true) :
    s.shutdown = false ∧ s.empty = true := by
  cases c with
  | get pc => cases pc <;> simp_all [waiting]
  | _ => cases h <;> cases hw

theorem Call.waiting_free (h : c.op = some .free) (hw : c.waiting N s = true)
    (ha : c.Asserts N s) : s.shutdown = true ∧ (s.empty = false ∨ s.activeGetters > 0) := by
  cases c with
  | free pc =>
    cases pc with
    | drain | drainWakeGetters | drainWakePutters | waitEmptied | asleepEmptied =>
      exact ⟨ha, .inl (by simpa [waiting] using hw)⟩
    | load | waitDone | asleepDone => exact ⟨ha, .inr (by simpa [waiting] using hw)⟩
    | wokenEmptied r | retestEmptied r =>
      cases r with
      | zero => cases hw
      | timedOut => exact ⟨ha, .inl (by simpa [waiting] using hw)⟩
    | wokenDone r | retestDone r =>
      cases r with
      | zero => cases hw
      | timedOut => exact ⟨ha, .inr (by simpa [waiting] using hw)⟩
    | _ => cases hw
  | _ => cases h <;> cases hw

theorem Monitor.Inv.not_empty_of_full {m : Monitor T α} (H : m.Inv N) (hN : 2 ≤ N)
    (h : m.arr.full N = true) : m.arr.empty = false := by
  have hl := H.full_iff.1 h
  cases he : m.arr.empty with
  | false => rfl
  | true =>
    rw [H.empty_iff.1 he] at hl
    simp only [List.length_nil] at hl
    omega

/-- How many statements a waiting call makes with the lock before it is asleep. -/
def Call.toSleep : Call α → Nat
  | .put _ .guard | .get .guard | .free .waitEmptied | .free .waitDone => 1
  | .put _ .recheck | .get .recheck | .free .drainWakePutters | .free .load => 2
  | .free .drainWakeGetters | .free (.retestDone _) => 3
  | .free .drain => 4
  | .free (.retestEmptied _) => 5
  | _ => 0

/-- A waiting call waits on, and if it has the lock it is on the way to release it. -/
theorem CallStep.waiting (h : CallStep N t s c o) (hw : c.waiting N s = true) :
    s.SameView o.arr ∧ o.call.waiting N o.arr = true ∧
    (o.wake = .nobody ∨ o.wake = .broadcast .notEmpty ∨ o.wake = .broadcast .notFull) ∧
    (c.holdsLock = true → o.call.holdsLock = false ∨ o.call.toSleep < c.toSleep) := by
  cases h with
  | put_pass h0 | get_pass h0 =>
    simp only [Call.waiting, Bool.and_eq_true, Bool.not_eq_true'] at hw
    exact absurd ((h0 hw.1).symm.trans hw.2) nofun
  | put_recheck_shutdown h0 | get_recheck_exit h0 | free_drained h0 =>
    simp [Call.waiting, h0] at hw
  | free_load h0 =>
    simp only [Call.waiting, decide_eq_true_eq] at hw
    omega
  | free_leaveDrain h0 =>
    rename_i r
    cases r with
    | zero => cases hw
    | timedOut => simp [Call.waiting, h0.resolve_left nofun] at hw
  | @free_relockEmptied r | @free_relockDone r =>
    cases r with
    | zero => cases hw
    | timedOut => exact ⟨⟨⟨rfl, rfl, rfl, rfl⟩, rfl⟩, hw, .inl rfl, nofun⟩
  | free_drainWakeGetters => exact ⟨⟨.refl s, rfl⟩, hw, .inr (.inl rfl), fun _ => .inr (Nat.lt_succ_self _)⟩
  | free_drainWakePutters => exact ⟨⟨.refl s, rfl⟩, hw, .inr (.inr rfl), fun _ => .inr (Nat.lt_succ_self _)⟩
  | put_sleep | get_sleep | free_waitEmptied | free_waitDone =>
    exact ⟨⟨⟨rfl, rfl, rfl, rfl⟩, rfl⟩, hw, .inl rfl, fun _ => .inl rfl⟩
  | put_relock | get_relock => exact ⟨⟨⟨rfl, rfl, rfl, rfl⟩, rfl⟩, hw, .inl rfl, nofun⟩
  | put_recheck | get_recheck | free_drain | free_retestEmptied | free_load_wait
  | free_retestDone =>
    exact ⟨⟨.refl s, rfl⟩, hw, .inl rfl, fun _ => .inr (Nat.lt_succ_self _)⟩
  | _ => cases hw

namespace Monitor
variable [DecidableEq T] [Fintype T] {m m' : Monitor T α} {mv : Move T}

/-- A step of a call that waits: to the end of its sleep, or to look again and to sleep on. -/
def Futile (N : Nat) (m : Monitor T α) : Act T α → Prop
  | .move t mv => mv ≠ .spurious ∧ (m.call t).waiting N m.arr = true
  | _ => False

/-- Such a step changes neither what the waits look at nor who waits. -/
theorem futile_move (h : m.move N t mv = some m') (hmv : mv ≠ .spurious)
    (hw : (m.call t).waiting N m.arr = true) :
    m.arr.SameView m'.arr ∧ ∀ u, (m'.call u).waiting N m'.arr = (m.call u).waiting N m.arr ∧
      (m'.call u).running = (m.call u).running := by
  obtain ⟨o, w, call', hs, hwk, -, rfl⟩ | ⟨r, v, -, -, hr, rfl⟩ := move_cases h
  · obtain ⟨hv, hc, hwake, -⟩ := hs.waiting hw
    refine ⟨hv, fun u => ?_⟩
    simp only [hv.waiting] at hc ⊢
    by_cases hu : u = t
    · subst hu
      simp only [update_self, hc, hw, true_and]
      rw [Call.running_of_waiting hc, Call.running_of_waiting hw]
    · simp only [update_of_ne hu]
      obtain he | ⟨v, hon, hsl, he⟩ := wakeUp_apply hwk u
      · rw [he]
        exact ⟨rfl, rfl⟩
      · rw [he]
        refine ⟨Call.waiting_wake (.inr (Call.not_free_of_asleepOn hsl ?_)), Call.running_wake⟩
        rcases hwake with hwake | hwake | hwake <;> rw [hwake] at hon <;> cases hon
        · exact .inl rfl
        · exact .inr rfl
  · have hr : r = .timedOut := by
      cases r with
      | zero => exact absurd (hr.1 rfl) hmv
      | timedOut => rfl
    refine ⟨⟨.refl _, rfl⟩, fun u => ?_⟩
    by_cases hu : u = t
    · subst hu
      simp only [update_self]
      exact ⟨Call.waiting_wake (.inl hr), Call.running_wake⟩
    · simp only [update_of_ne hu, and_self]

/-! ## What keeps a call from going on -/

omit [Fintype T] [DecidableEq T] in
/-- A call that is awake goes on when it has the lock, or nobody has. -/
theorem Inv.callStep (H : m.Inv N) (hr : (m.call t).running = true)
    (hs : (m.call t).asleepOn = none) (hl : (m.call t).holdsLock = true ∨ m.arr.lock = none) :
    ∃ o, CallStep N t m.arr (m.call t) o := by
  have ha := H.asserts t
  suffices h : (DnsResolver.callStep N t m.arr (m.call t)).isSome = true from
    (Option.isSome_iff_exists.1 h).imp fun o => callStep_iff.1
  generalize m.call t = c at *
  cases c with
  | put x pc =>
    cases pc with
    | lock | woken =>
      simp [DnsResolver.callStep, arrayPut, ArrayState.acquire, hl.resolve_left Bool.false_ne_true]
    | asleep => cases hs
    | entry | guard | recheck =>
      simp only [DnsResolver.callStep, arrayPut]
      split <;> rfl
    | _ => rfl
  | get pc =>
    cases pc with
    | lock | woken =>
      simp [DnsResolver.callStep, arrayGet, ArrayState.acquire, hl.resolve_left Bool.false_ne_true]
    | asleep => cases hs
    | guard | recheck | check | fetchSub e =>
      simp only [DnsResolver.callStep, arrayGet]
      split <;> rfl
    | take =>
      have he : m.arr.head ≠ m.arr.tail := by
        simpa [Call.Asserts, GetPc.Asserts, ArrayState.empty] using ha
      obtain ⟨x, ys, -, hx, -⟩ := H.ring.pop he
      simp only [DnsResolver.callStep, arrayGet, hx]
      split <;> rfl
    | _ => rfl
  | free pc =>
    cases pc with
    | lock | wokenEmptied r | wokenDone r =>
      simp [DnsResolver.callStep, arrayFree, ArrayState.acquire, hl.resolve_left Bool.false_ne_true]
    | asleepEmptied | asleepDone => cases hs
    | drain | retestEmptied r | load | retestDone r =>
      simp only [DnsResolver.callStep, arrayFree]
      split <;> rfl
    | _ => rfl
  | _ => cases hr

/-- Somebody or nobody is there to be woken. -/
theorem wakeUp_total (call : T → Call α) (wk : Wake) : ∃ w call', wakeUp call wk w = some call' := by
  cases wk with
  | nobody => exact ⟨none, call, rfl⟩
  | broadcast v => exact ⟨none, _, rfl⟩
  | signal v =>
    by_cases h : ∃ u, (call u).asleepOn = some v
    · obtain ⟨u, hu⟩ := h
      exact ⟨some u, _, if_pos hu⟩
    · exact ⟨none, call, if_pos fun u hu => h ⟨u, hu⟩⟩

theorem move_of_callStep (h : CallStep N t m.arr (m.call t) o) :
    ∃ w call', m.move N t (.run w) = some ⟨o.arr, update call' t o.call, m.ghost.record o.event⟩ := by
  obtain ⟨w, call', hc⟩ := wakeUp_total m.call o.wake
  refine ⟨w, call', ?_⟩
  rw [move, h.callStep_eq, Option.bind_some, hc]
  rfl

/-- Some call makes a step that is not futile. -/
def Advances (N : Nat) (m : Monitor T α) : Prop :=
  ∃ t mv m', mv ≠ .spurious ∧ (m.call t).waiting N m.arr = false ∧ m.move N t mv = some m'

theorem Inv.advances (H : m.Inv N) (hr : (m.call t).running = true)
    (hs : (m.call t).asleepOn = none) (hl : (m.call t).holdsLock = true ∨ m.arr.lock = none)
    (hw : (m.call t).waiting N m.arr = false) : m.Advances N := by
  obtain ⟨o, ho⟩ := H.callStep hr hs hl
  obtain ⟨w, call', h⟩ := move_of_callStep ho
  exact ⟨t, .run w, _, nofun, hw, h⟩

/-- How many statements the call that has the lock makes before it is asleep, if it waits. -/
def toRelease (m : Monitor T α) : Nat :=
  match m.arr.lock with
  | none => 0
  | some u => (m.call u).toSleep + 1

omit [DecidableEq T] [Fintype T] in
theorem awake_of_holdsLock (h : (m.call t).holdsLock = true) : (m.call t).asleepOn = none := by
  cases hs : (m.call t).asleepOn with
  | none => rfl
  | some v => exact absurd (h.symm.trans (Call.asleepOn_holdsLock hs)) nofun

/-- The call that has the lock and waits comes nearer to its release. -/
theorem Inv.release (H : m.Inv N) (hl : m.arr.lock = some t)
    (hw : (m.call t).waiting N m.arr = true) :
    ∃ mv m', mv ≠ .spurious ∧ m.move N t mv = some m' ∧ m'.toRelease < m.toRelease := by
  have ht := (H.lock t).1 hl
  obtain ⟨o, ho⟩ := H.callStep (Call.running_of_waiting hw) (awake_of_holdsLock ht) (.inl ht)
  obtain ⟨w, call', h⟩ := move_of_callStep ho
  refine ⟨.run w, _, nofun, h, ?_⟩
  have hd := (ho.waiting hw).2.2.2 ht
  rcases ho.lock with ⟨hc, hlk⟩ | ⟨hc, -⟩ | ⟨-, -, hlk⟩
  · have hlt := hd.resolve_left fun h0 => by
      rw [hc, h0] at ht
      cases ht
    simpa [toRelease, hlk, hl] using hlt
  · exact absurd (ht.symm.trans hc) nofun
  · simp [toRelease, hlk, hl]

/-- Where a call is in progress and does not wait, some call goes on, perhaps after the call that
has the lock has looked again in vain and released it. -/
theorem Inv.progress (H : m.Inv N) (hr : (m.call t).running = true)
    (hw : (m.call t).waiting N m.arr = false) :
    ∃ m', ((system T α N).restrict (Futile N)).Leads m m' ∧ m'.Advances N := by
  -- by induction on the way of the lock's holder to its release
  induction hn : m.toRelease using Nat.strong_induction_on generalizing m with
  | _ n ih =>
    by_cases hs : (m.call t).asleepOn = none
    · cases hl : m.arr.lock with
      | none => exact ⟨m, .refl, H.advances hr hs (.inr hl) hw⟩
      | some u =>
        cases hwu : (m.call u).waiting N m.arr with
        | false =>
          have hu := (H.lock u).1 hl
          refine ⟨m, .refl, H.advances ?_ (awake_of_holdsLock hu) (.inl hu) hwu⟩
          generalize m.call u = c at hu
          cases c <;> first | rfl | cases hu
        | true =>
          obtain ⟨mv, m', hmv, h, hlt⟩ := H.release hl hwu
          obtain ⟨-, hsame⟩ := futile_move h hmv hwu
          obtain ⟨m'', hm'', ha⟩ := ih _ (hn ▸ hlt) (H.move h) ((hsame t).2.trans hr)
            ((hsame t).1.trans hw) rfl
          have hf : ((system T α N).restrict (Futile N)).step m (.move u mv) m' := ⟨⟨hmv, hwu⟩, h⟩
          exact ⟨m'', .trans (.single hf) hm'', ha⟩
    · have h : m.move N t .timeout = some _ := if_pos (Option.isSome_iff_ne_none.2 hs)
      exact ⟨m, .refl, t, .timeout, _, nofun, hw, h⟩

end Monitor
end DnsResolver
