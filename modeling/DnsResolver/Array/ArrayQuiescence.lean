import DnsResolver.Array.ArrayInv

/-!
# Quiescence at the destruction of a queue

`array_free` destroys the lock after it has left its last loop. What that loop waits for is
`active_getters`, which counts exactly the getters between their `atomic_fetch_add` and their
`atomic_fetch_sub` (`activeGetters_exact`). Nothing counts the putters, nor a getter that has
not yet added itself, and a wait that returns 0 ends the loop without another look at the
counter. `destroys_quiescent_iff` says that these three gaps are all: where `array_free` falls
through none of them it destroys a queue that no earlier call uses, and through each of them
some run destroys the lock under such a call. -/

namespace DnsResolver
open Function Tally

variable {T α : Type} {N : Nat} {t : T} {s : ArrayState T α} {o : Out T α} {c : Call α}

/-- A getter between its `atomic_fetch_add` and its `atomic_fetch_sub`. -/
def Call.counted : Call α → Bool
  | .get .fetchAdd | .get (.signalDone _) | .get (.refuse _) => false
  | .get _ => true
  | _ => false

/-- A call that has still to use the lock or a condition variable. -/
def Call.usesLock : Call α → Bool
  | .put .. => true
  | .get (.fetchSubLast _) => false
  | .get _ => true
  | _ => false

def Call.inPut : Call α → Bool
  | .put .. => true
  | _ => false

def Call.inGet : Call α → Bool
  | .get _ => true
  | _ => false

theorem Call.counted_wake {r : WaitResult} : (c.wake r).counted = c.counted := by
  unfold Call.wake
  split <;> rfl

theorem Call.usesLock_wake {r : WaitResult} : (c.wake r).usesLock = c.usesLock := by
  unfold Call.wake
  split <;> rfl

/-- A getter that still uses the lock is not counted only at its start or while it holds the
lock. -/
theorem Call.counted_of_usesLock (h : c.usesLock = true) (hl : c.holdsLock = false) :
    c.inPut = true ∨ c = .get .fetchAdd ∨ (c.inGet = true ∧ c.counted = true) := by
  cases c with
  | put x pc => exact .inl rfl
  | get pc =>
    cases pc <;> first | exact .inr (.inl rfl) | exact .inr (.inr ⟨rfl, rfl⟩) | cases hl
  | _ => cases h

/-- Each statement moves the counter as it moves its own call in or out of the counted part. -/
theorem CallStep.activeGetters (h : CallStep N t s c o) :
    o.arr.activeGetters + (c.counted.toNat : Int) =
      s.activeGetters + (o.call.counted.toNat : Int) := by
  cases h <;> simp [Call.counted]

/-- A call that has finished its last use of the lock does not take it up again. -/
theorem CallStep.usesLock (h : CallStep N t s c o) (hc : c.usesLock = false) :
    o.call.usesLock = false := by
  cases h <;> first | rfl | cases hc

namespace Monitor
variable {m m' : Monitor T α}

/-! ## The counter is exact -/

/-- `active_getters` is the number of getters between their two updates of it. -/
def CountsGetters [Fintype T] (m : Monitor T α) : Prop :=
  m.arr.activeGetters = tally Call.counted m.call

section
variable [DecidableEq T] [Fintype T]

theorem CountsGetters.move {mv : Move T} (H : m.CountsGetters) (h : m.move N t mv = some m') :
    m'.CountsGetters := by
  unfold CountsGetters at H ⊢
  rcases move_cases h with ⟨o, w, call', hs, hw, -, rfl⟩ | ⟨r, v, -, -, -, rfl⟩
  · have hc : tally Call.counted call' = tally Call.counted m.call :=
      tally_congr fun u => wakeUp_congr (fun _ => Call.counted_wake) hw u
    have ht : (call' t).counted = (m.call t).counted :=
      wakeUp_congr (fun _ => Call.counted_wake) hw t
    have h1 := tally_update Call.counted call' t o.call
    have h2 := hs.activeGetters
    rw [ht, hc] at h1
    dsimp only
    omega
  · have h1 := tally_update Call.counted m.call t ((m.call t).wake r)
    rw [Call.counted_wake] at h1
    dsimp only
    omega

theorem tally_counted (h : c.counted = (m.call t).counted) :
    tally Call.counted (update m.call t c) = tally Call.counted m.call := by
  have := tally_update Call.counted m.call t c
  rw [h] at this
  omega

theorem CountsGetters.step {a : Act T α} (H : m.CountsGetters) (h : m.step N a = some m') :
    m'.CountsGetters := by
  cases a with
  | move t mv => exact H.move h
  | begin t op =>
    obtain ⟨ht, rfl⟩ := begin_cases h
    refine H.trans (congrArg Nat.cast (tally_counted ?_).symm)
    rw [ht]
    cases op <;> rfl
  | leave t =>
    obtain ⟨ht, rfl⟩ := leave_cases h
    refine H.trans (congrArg Nat.cast (tally_counted ?_).symm)
    generalize m.call t = c at ht
    cases c <;> first | rfl | cases ht

theorem activeGetters_exact (H : (system T α N).Reachable m) : m.CountsGetters := by
  induction H with
  | init h =>
    rw [h]
    exact (congrArg Nat.cast (tally_eq_zero.2 fun _ => rfl)).symm
  | step _ h ih => exact ih.step h

end

/-! ## The last loop of `array_free` -/

/-- Every call that began before `array_free` took the lock has finished its last use of it. -/
def Quiescent (m : Monitor T α) : Prop :=
  ∀ u, m.ghost.early u = true → (m.call u).usesLock = false

/-- `array_free` on thread `t` is about to leave its last loop. -/
def LeavesLoop (m : Monitor T α) (t : T) : Prop :=
  (m.call t = .free .load ∧ m.arr.activeGetters ≤ 0) ∨ m.call t = .free (.retestDone .zero)

/-- None of the calls that the loop does not wait for is there: no put, no getter that has not
yet added itself and, where the loop ends because the wait returned 0, no getter at all, among
those that began before `array_free` took the lock. -/
structure NoneOverlooked (m : Monitor T α) (t : T) : Prop where
  putters : ∀ u, m.ghost.early u = true → (m.call u).inPut = false
  uncounted : ∀ u, m.ghost.early u = true → m.call u ≠ .get .fetchAdd
  woken : m.call t = .free (.retestDone .zero) →
    ∀ u, m.ghost.early u = true → (m.call u).inGet = true → (m.call u).usesLock = false

/-- A step that, if it takes `array_free` out of its last loop, overlooks nobody. -/
def Attentive (m : Monitor T α) (a : Act T α) : Prop :=
  ∀ t mv, a = .move t mv → m.LeavesLoop t → m.NoneOverlooked t

end Monitor

/-- `array_free` past its last loop. -/
def Call.pastLoop : Call α → Bool
  | .free .unlock | .free .destroy => true
  | _ => false

/-- `array_free` past its `pthread_mutex_lock`. -/
def Call.pastFreeLock : Call α → Bool
  | .free .lock => false
  | .free _ | .freeDone => true
  | _ => false

theorem Call.pastLoop_wake {r : WaitResult} : (c.wake r).pastLoop = c.pastLoop := by
  unfold Call.wake
  split <;> rfl

theorem Call.pastFreeLock_wake {r : WaitResult} : (c.wake r).pastFreeLock = c.pastFreeLock := by
  unfold Call.wake
  split <;> rfl

theorem Call.pastFreeLock_of_pastLoop (h : c.pastLoop = true) : c.pastFreeLock = true := by
  unfold Call.pastLoop at h
  split at h <;> first | rfl | cases h

theorem CallStep.pastLoop (h : CallStep N t s c o) (ho : o.call.pastLoop = true) :
    c.pastLoop = true ∨ (c = .free .load ∧ s.activeGetters ≤ 0) ∨
      c = .free (.retestDone .zero) := by
  cases h with
  | free_load h => exact .inr (.inl ⟨rfl, h⟩)
  | free_leaveDone => exact .inr (.inr rfl)
  | free_unlock => exact .inl rfl
  | _ => cases ho

theorem CallStep.freeLocked (h : CallStep N t s c o) (g : Ghost T α)
    (hc : c.pastFreeLock = true → g.freeLocked = true) (ho : o.call.pastFreeLock = true) :
    (g.record o.event).freeLocked = true := by
  cases h <;> first | rfl | exact hc rfl | cases ho

theorem Ghost.record_early (g : Ghost T α) (e : Option (Event α)) :
    (g.record e).early = g.early ∧ (g.freeLocked = true → (g.record e).freeLocked = true) := by
  unfold Ghost.record
  split <;> exact ⟨rfl, fun h => by first | rfl | exact h⟩

namespace Monitor
variable [DecidableEq T] [Fintype T] {m m' : Monitor T α} {mv : Move T}

/-- What no wake-up changes is changed by a move only where the move is a statement of `t`. -/
theorem move_stable {β : Type} {f : Call α → β} (hf : ∀ r c, f (c.wake r) = f c)
    (h : m.move N t mv = some m') (u : T) :
    f (m'.call u) = f (m.call u) ∨
    (u = t ∧ ∃ o, CallStep N t m.arr (m.call t) o ∧ m'.call t = o.call ∧
      m'.ghost = m.ghost.record o.event) := by
  rcases move_cases h with ⟨o, w, call', hs, hw, -, rfl⟩ | ⟨r, v, -, -, -, rfl⟩ <;>
    by_cases hu : u = t
  · exact .inr ⟨hu, o, hs, update_self .., rfl⟩
  · apply Or.inl
    simpa [hu] using wakeUp_congr (hf .zero) hw u
  · apply Or.inl
    rw [hu]
    simpa using hf r (m.call t)
  · apply Or.inl
    simp [hu]

theorem move_usesLock (h : m.move N t mv = some m') {u : T}
    (hu : (m.call u).usesLock = false) : (m'.call u).usesLock = false := by
  rcases move_stable (fun _ _ => Call.usesLock_wake) h u with he | ⟨rfl, o, hs, ho, -⟩
  · rw [he, hu]
  · rw [ho]
    exact hs.usesLock hu

theorem move_ghost (h : m.move N t mv = some m') :
    m'.ghost.early = m.ghost.early ∧ (m.ghost.freeLocked = true → m'.ghost.freeLocked = true) := by
  rcases move_cases h with ⟨o, w, call', -, -, -, rfl⟩ | ⟨r, v, -, -, -, rfl⟩
  · exact m.ghost.record_early o.event
  · exact ⟨rfl, id⟩

theorem Quiescent.move (H : m.Quiescent) (h : m.move N t mv = some m') : m'.Quiescent := by
  intro u hu
  rw [(move_ghost h).1] at hu
  exact move_usesLock h (H u hu)

omit [DecidableEq T] in
/-- Once `array_free` leaves its last loop without overlooking a call, the queue is quiescent:
every getter that is counted would have kept `active_getters` positive. -/
theorem NoneOverlooked.quiescent (H : m.NoneOverlooked t) (hi : m.Inv N) (hc : m.CountsGetters)
    (hl : m.LeavesLoop t) : m.Quiescent := by
  intro u hu
  have ht : (m.call t).holdsLock = true := by
    rcases hl with ⟨h, -⟩ | h <;> rw [h] <;> rfl
  by_contra hn
  rw [Bool.not_eq_false] at hn
  have hut : u ≠ t := by
    rintro rfl
    rcases hl with ⟨h, -⟩ | h <;> rw [h] at hn <;> cases hn
  have hul := hi.not_holdsLock ht hut
  rcases Call.counted_of_usesLock hn hul with h | h | ⟨hg, h⟩
  · exact absurd (h.symm.trans (H.putters u hu)) nofun
  · exact H.uncounted u hu h
  · rcases hl with ⟨-, h0⟩ | hz
    · have : 0 < tally Call.counted m.call := tally_pos.2 ⟨u, h⟩
      have := hc.symm
      omega
    · exact absurd (hn.symm.trans (H.woken hz u hu hg)) nofun

/-! ## Runs that overlook nobody -/

/-- Past its lock `array_free` has set the mark from which on calls are late, and past its last
loop the queue is quiescent. -/
structure Settled (m : Monitor T α) : Prop where
  locked : ∀ t, (m.call t).pastFreeLock = true → m.ghost.freeLocked = true
  quiet : ∀ t, (m.call t).pastLoop = true → m.Quiescent

theorem Settled.move (H : m.Settled) (hi : m.Inv N) (hc : m.CountsGetters)
    (ha : m.LeavesLoop t → m.NoneOverlooked t) (h : m.move N t mv = some m') : m'.Settled := by
  refine ⟨fun u hu => ?_, fun u hu => ?_⟩
  · rcases move_stable (fun _ _ => Call.pastFreeLock_wake) h u with he | ⟨rfl, o, hs, ho, hg⟩
    · rw [he] at hu
      exact (move_ghost h).2 (H.locked u hu)
    · rw [ho] at hu
      rw [hg]
      exact hs.freeLocked _ (H.locked u) hu
  · rcases move_stable (fun _ _ => Call.pastLoop_wake) h u with he | ⟨rfl, o, hs, ho, -⟩
    · rw [he] at hu
      exact (H.quiet u hu).move h
    · rw [ho] at hu
      rcases hs.pastLoop hu with hp | hl
      · exact (H.quiet u hp).move h
      · exact ((ha hl).quiescent hi hc hl).move h

omit [Fintype T] in
theorem Settled.begin (H : m.Settled) (op : Op α) : (m.begin t op).Settled := by
  refine ⟨fun u hu => ?_, fun u hu => ?_⟩ <;> by_cases hut : u = t
  · subst hut
    cases op <;> simp [Monitor.begin, Op.start, Call.pastFreeLock] at hu
  · simp only [Monitor.begin, update_of_ne hut] at hu ⊢
    exact H.locked u hu
  · subst hut
    cases op <;> simp [Monitor.begin, Op.start, Call.pastLoop] at hu
  · simp only [Monitor.begin, update_of_ne hut] at hu
    -- the new call is late, because `array_free` is past its lock
    have hf := H.locked u (Call.pastFreeLock_of_pastLoop hu)
    intro v hv
    by_cases hvt : v = t
    · subst hvt
      simp [Monitor.begin, hf] at hv
    · simp only [Monitor.begin, update_of_ne hvt] at hv ⊢
      exact H.quiet u hu v hv

omit [Fintype T] in
theorem Settled.leave (H : m.Settled) : (m.leave t).Settled := by
  refine ⟨fun u hu => ?_, fun u hu => ?_⟩ <;> by_cases hut : u = t
  · subst hut
    simp [Monitor.leave, Call.pastFreeLock] at hu
  · simp only [Monitor.leave, update_of_ne hut] at hu
    exact H.locked u hu
  · subst hut
    simp [Monitor.leave, Call.pastLoop] at hu
  · simp only [Monitor.leave, update_of_ne hut] at hu
    intro v hv
    by_cases hvt : v = t
    · simp [Monitor.leave, hvt, Call.usesLock]
    · simp only [Monitor.leave, update_of_ne hvt]
      exact H.quiet u hu v hv

theorem settled_reachable (hN : 2 ≤ N)
    (H : ((system T α N).restrict Attentive).Reachable m) : m.Settled := by
  induction H with
  | init h =>
    rw [h]
    exact ⟨nofun, nofun⟩
  | step H h ih =>
    rename_i m a m'
    obtain ⟨ha, h⟩ := h
    cases a with
    | begin t op =>
      obtain ⟨-, rfl⟩ := begin_cases h
      exact ih.begin op
    | move t mv =>
      have hr := H.of_restrict
      exact ih.move (inv_reachable hN hr) (activeGetters_exact hr) (ha t mv rfl) h
    | leave t =>
      obtain ⟨-, rfl⟩ := leave_cases h
      exact ih.leave

/-! ## The other direction -/

/-- From the end of its last loop `array_free` can go on to the destruction at once. -/
theorem LeavesLoop.destroys (h : m.LeavesLoop t) : ∃ m', (system T α N).Leads m m' ∧
    m'.call = update m.call t (.free .destroy) ∧ m'.ghost = m.ghost := by
  let m₁ : Monitor T α := ⟨m.arr, update m.call t (.free .unlock), m.ghost⟩
  let m₂ : Monitor T α :=
    ⟨{ m.arr with lock := none }, update m.call t (.free .destroy), m.ghost⟩
  have h1 : m.step N (.move t (.run none)) = some m₁ := by
    rcases h with ⟨h, h0⟩ | h
    · simp [step, Monitor.move, h, callStep, arrayFree, wakeUp, m₁, Int.not_lt.2 h0, Ghost.record]
    · simp [step, Monitor.move, h, callStep, arrayFree, wakeUp, m₁, Ghost.record]
  have h2 : m₁.step N (.move t (.run none)) = some m₂ := by
    simp [step, Monitor.move, callStep, arrayFree, wakeUp, m₁, m₂, Ghost.record,
      ArrayState.release]
  exact ⟨m₂, .trans (.single h1) (.single h2), rfl, rfl⟩

omit [DecidableEq T] [Fintype T] in
theorem NoneOverlooked.of_quiescent (hl : m.LeavesLoop t)
    (h : ∀ u ≠ t, m.ghost.early u = true → (m.call u).usesLock = false) : m.NoneOverlooked t := by
  have ht : ∀ u, m.ghost.early u = true → (m.call u).usesLock = false := by
    intro u hu
    by_cases hut : u = t
    · subst hut
      rcases hl with ⟨hl, -⟩ | hl <;> rw [hl] <;> rfl
    · exact h u hut hu
  refine ⟨fun u hu => ?_, fun u hu hc => ?_, fun _ u hu _ => ht u hu⟩
  · cases hc : m.call u with
    | put x pc => exact absurd (hc ▸ ht u hu) nofun
    | _ => rfl
  · exact absurd (hc ▸ ht u hu) nofun

theorem LeavesLoop.destroys_used (hl : m.LeavesLoop t) (h : ¬ m.NoneOverlooked t) :
    ∃ m', (system T α N).Leads m m' ∧ m'.call t = .free .destroy ∧ ¬ m'.Quiescent := by
  obtain ⟨m', hm, hc, hg⟩ := hl.destroys (N := N)
  refine ⟨m', hm, by rw [hc, update_self], fun hq => h (.of_quiescent hl fun u hut hu => ?_)⟩
  have := hq u (by rwa [hg])
  rwa [hc, update_of_ne hut] at this

section
variable [DecidableEq α]

instance : Decidable (m.LeavesLoop t) := inferInstanceAs (Decidable (_ ∨ _))

instance : Decidable (m.NoneOverlooked t) :=
  decidable_of_iff
    ((∀ u, m.ghost.early u = true → (m.call u).inPut = false) ∧
      (∀ u, m.ghost.early u = true → m.call u ≠ .get .fetchAdd) ∧
      (m.call t = .free (.retestDone .zero) →
        ∀ u, m.ghost.early u = true → (m.call u).inGet = true → (m.call u).usesLock = false))
    ⟨fun ⟨h1, h2, h3⟩ => ⟨h1, h2, h3⟩, fun ⟨h1, h2, h3⟩ => ⟨h1, h2, h3⟩⟩

instance (a : Act T α) : Decidable (m.Attentive a) :=
  match a with
  | .begin .. => .isTrue nofun
  | .leave _ => .isTrue nofun
  | .move t mv => decidable_of_iff (m.LeavesLoop t → m.NoneOverlooked t)
      ⟨fun h t' mv' e => by cases e; exact h, fun h => h t mv rfl⟩

end

/-- A getter waits while `array_free` starts, is woken, leaves and signals; then the queue is
destroyed. -/
def quietRun : List (Act Bool Nat) :=
  .begin false .get :: List.replicate 3 (.move false (.run none)) ++
  .begin true .free :: List.replicate 7 (.move true (.run none)) ++
  List.replicate 3 (.move false (.run none)) ++
  .move false (.run (some true)) :: .move false (.run none) ::
  List.replicate 3 (.move true (.run none))

/-- With `ARRAY_SIZE` 8: thread 0 fills the queue and sleeps on `not_full` with an eighth
element, thread 1 calls `array_free`, and thread 2 empties the queue. -/
def putterRun : List (Act (Fin 3) Nat) :=
  (List.range 7).flatMap (fun x =>
    .begin 0 (.put x) :: List.replicate 6 (.move 0 (.run none)) ++ [.leave 0]) ++
  .begin 0 (.put 7) :: List.replicate 3 (.move 0 (.run none)) ++
  .begin 1 .free :: List.replicate 6 (.move 1 (.run none)) ++
  (List.range 6).flatMap (fun _ =>
    .begin 2 .get :: List.replicate 8 (.move 2 (.run none)) ++ [.leave 2]) ++
  .begin 2 .get :: List.replicate 5 (.move 2 (.run none)) ++
  .move 2 (.run (some 1)) :: List.replicate 3 (.move 2 (.run none)) ++
  List.replicate 6 (.move 1 (.run none))

end Monitor
end DnsResolver
