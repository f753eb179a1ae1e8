import DnsResolver.Array.ArrayContents
import DnsResolver.Array.ArrayProgress

/-!
# The work left in a queue

A call can go round in a timed wait for ever, and everything else it does brings it nearer to its
return. `Call.work` counts the statements that are left of a call, with all of a wait counted as
one, and `Monitor.work` adds to it a price for every pointer in the queue or in a call on it. No
move raises it and every move out of a wait or between waits lowers it (`Inv.work_move`). A move
inside a wait whose condition holds comes nearer to the end of the wait (`Inv.productive_move`). -/

namespace DnsResolver
open Function Finset

variable {T α : Type} {N : Nat} {t : T} {s s' : ArrayState T α} {o : Out T α} {c : Call α}

def PutPc.work : PutPc → Nat
  | .lock => 6
  | .entry => 5
  | .guard | .asleep | .woken | .recheck => 4
  | .store => 3
  | .signal => 2
  | .unlock | .refuse => 1

def GetPc.work : GetPc α → Nat
  | .fetchAdd => 9
  | .lock => 8
  | .guard | .asleep | .woken | .recheck => 7
  | .check => 6
  | .take => 5
  | .signalEmptied _ => 4
  | .signalNotFull _ | .fetchSub _ => 3
  | .unlock _ | .signalDone _ => 2
  | .fetchSubLast _ | .refuse _ => 1

def FreePc.work : FreePc → Nat
  | .lock => 12
  | .setShutdown => 11
  | .drain | .drainWakeGetters | .drainWakePutters | .waitEmptied => 10
  | .asleepEmptied | .wokenEmptied .timedOut | .retestEmptied .timedOut => 10
  | .wokenEmptied .zero => 9
  | .retestEmptied .zero => 8
  | .wakeGetters => 7
  | .wakePutters => 6
  | .load | .waitDone | .asleepDone | .wokenDone .timedOut | .retestDone .timedOut => 5
  | .wokenDone .zero => 4
  | .retestDone .zero => 3
  | .unlock => 2
  | .destroy => 1

/-- The statements left of a call, at most, but for those inside a wait. -/
def Call.work : Call α → Nat
  | .put _ pc => pc.work
  | .get pc => pc.work
  | .free pc => pc.work
  | _ => 0

/-- The call is in one of the waits of `array.c`. -/
def Call.inWait : Call α → Bool
  | .put _ .guard | .put _ .asleep | .put _ .woken | .put _ .recheck => true
  | .get .guard | .get .asleep | .get .woken | .get .recheck => true
  | .free .drain | .free .drainWakeGetters | .free .drainWakePutters | .free .waitEmptied
  | .free .asleepEmptied | .free (.wokenEmptied .timedOut) | .free (.retestEmptied .timedOut) =>
    true
  | .free .load | .free .waitDone | .free .asleepDone | .free (.wokenDone .timedOut)
  | .free (.retestDone .timedOut) => true
  | _ => false

/-- How far the end of a wait is once its condition holds. -/
def Call.toLeave : Call α → Nat
  | .put _ .guard | .get .guard => 1
  | .put _ .recheck | .get .recheck => 2
  | .put _ .woken | .get .woken => 3
  | .put _ .asleep | .get .asleep => 4
  | .free .drain | .free .load => 1
  | .free (.retestEmptied .timedOut) | .free (.retestDone .timedOut) => 2
  | .free (.wokenEmptied .timedOut) | .free (.wokenDone .timedOut) => 3
  | .free .asleepEmptied | .free .asleepDone => 4
  | .free .waitEmptied | .free .waitDone => 5
  | .free .drainWakePutters => 6
  | .free .drainWakeGetters => 7
  | _ => 0

/-- The work left of a call, and the price of the pointer it carries. -/
def Call.load (price : α → Nat) (c : Call α) : Nat := (c.carries.map price).sum + c.work

/-! ## One statement -/

/-- A statement lowers the work, or it is one inside a wait. -/
theorem CallStep.work (h : CallStep N t s c o) : o.call.work < c.work ∨
    o.call.work = c.work ∧ c.inWait = true ∧ o.call.inWait = true ∧ s.SameView o.arr ∧
      (c.waiting N s = false → o.call.toLeave < c.toLeave) := by
  cases h with
  | put_sleep h1 h2 | get_sleep h1 h2 =>
    exact .inr ⟨rfl, rfl, rfl, ⟨⟨rfl, rfl, rfl, rfl⟩, rfl⟩, by simp [Call.waiting, h1, h2]⟩
  | free_drain h1 | free_retestEmptied h1 =>
    exact .inr ⟨rfl, rfl, rfl, ⟨.refl s, rfl⟩, by simp [Call.waiting, h1]⟩
  | free_load_wait h1 =>
    exact .inr ⟨rfl, rfl, rfl, ⟨.refl s, rfl⟩, by simp [Call.waiting, h1]⟩
  | @free_relockEmptied r | @free_relockDone r =>
    cases r with
    | zero => exact .inl (Nat.lt_succ_self _)
    | timedOut =>
      exact .inr ⟨rfl, rfl, rfl, ⟨⟨rfl, rfl, rfl, rfl⟩, rfl⟩, fun _ => Nat.lt_succ_self _⟩
  | @free_leaveDrain r h1 => cases r <;> exact .inl (by simp [Call.work, FreePc.work])
  | put_relock | get_relock | free_waitEmptied | free_waitDone =>
    exact .inr ⟨rfl, rfl, rfl, ⟨⟨rfl, rfl, rfl, rfl⟩, rfl⟩, fun _ => Nat.lt_succ_self _⟩
  | put_recheck | get_recheck | free_drainWakeGetters | free_drainWakePutters | free_retestDone =>
    exact .inr ⟨rfl, rfl, rfl, ⟨.refl s, rfl⟩, fun _ => Nat.lt_succ_self _⟩
  | _ => exact .inl (by simp [Call.work, PutPc.work, GetPc.work, FreePc.work])

/-- The end of a sleep stays inside its wait, but for `array_free` when it was signalled. -/
theorem Call.work_wake {r : WaitResult} {v : Cond} (h : c.asleepOn = some v) :
    (c.wake r).work < c.work ∨ (c.wake r).work = c.work ∧ c.inWait = true ∧
      (c.wake r).inWait = true ∧ (r = .timedOut ∨ c.op ≠ some .free) ∧
      (c.wake r).toLeave < c.toLeave := by
  unfold asleepOn at h
  split at h
  · exact .inr ⟨rfl, rfl, rfl, .inr (by simp [op]), Nat.lt_succ_self _⟩
  · exact .inr ⟨rfl, rfl, rfl, .inr (by simp [op]), Nat.lt_succ_self _⟩
  · cases r with
    | zero => exact .inl (Nat.lt_succ_self _)
    | timedOut => exact .inr ⟨rfl, rfl, rfl, .inl rfl, Nat.lt_succ_self _⟩
  · cases r with
    | zero => exact .inl (Nat.lt_succ_self _)
    | timedOut => exact .inr ⟨rfl, rfl, rfl, .inl rfl, Nat.lt_succ_self _⟩
  · cases h

/-- How far a call is from the end of a wait whose condition holds. -/
def Call.toGo (N : Nat) (s : ArrayState T α) (c : Call α) : Nat :=
  if c.waiting N s then 0 else c.toLeave

theorem Call.toGo_view (h : s.SameView s') : c.toGo N s' = c.toGo N s := by
  rw [toGo, h.waiting, toGo]

namespace Monitor
variable [DecidableEq T] [Fintype T] {m m' : Monitor T α} {mv : Move T}

/-! ## One move -/

/-- What a signal does to a sleeper. -/
theorem wakeUp_work {call call' : T → Call α} {wk : Wake} {w : Option T}
    (h : wakeUp call wk w = some call') (u : T) : (call' u).work < (call u).work ∨
    (call' u).work = (call u).work ∧ ∀ s : ArrayState T α, (call' u).toGo N s ≤ (call u).toGo N s := by
  obtain he | ⟨v, -, hv, he⟩ := wakeUp_apply h u
  · rw [he]
    exact .inr ⟨rfl, fun _ => le_rfl⟩
  · rw [he]
    obtain hlt | ⟨heq, -, -, hr, hlt⟩ := Call.work_wake (r := .zero) hv
    · exact .inl hlt
    · refine .inr ⟨heq, fun s => ?_⟩
      rw [Call.toGo, Call.toGo, Call.waiting_wake hr]
      split
      · exact le_rfl
      · exact hlt.le

/-- The others' calls come no farther from their ends. -/
theorem work_move_of_ne (h : m.move N t mv = some m') {u : T} (hu : u ≠ t) :
    (m'.call u).work < (m.call u).work ∨ (m'.call u).work = (m.call u).work ∧
      ∀ s : ArrayState T α, (m'.call u).toGo N s ≤ (m.call u).toGo N s := by
  obtain ⟨o, w, call', -, hwk, -, rfl⟩ | ⟨r, v, -, -, -, rfl⟩ := move_cases h
  · simp only [update_of_ne hu]
    exact wakeUp_work hwk u
  · exact .inr (by simp only [update_of_ne hu, le_refl, implies_true, and_self])

/-- The call that moves comes nearer to its end, or it stays inside a wait. -/
theorem work_move_self (h : m.move N t mv = some m') :
    (m'.call t).work < (m.call t).work ∨
    (m'.call t).work = (m.call t).work ∧ (m.call t).inWait = true ∧ (m'.call t).inWait = true ∧
      m.arr.SameView m'.arr ∧ (mv ≠ .spurious → (m.call t).waiting N m.arr = false →
        (m'.call t).toGo N m'.arr < (m.call t).toGo N m.arr) := by
  have hto {a a' : ArrayState T α} {c c' : Call α} (hc : c.waiting N a = false)
      (hlt : c'.toLeave < c.toLeave) : c'.toGo N a' < c.toGo N a := by
    have hle : c'.toGo N a' ≤ c'.toLeave := by
      rw [Call.toGo]
      split
      · exact Nat.zero_le _
      · exact le_rfl
    refine hle.trans_lt (hlt.trans_eq ?_)
    rw [Call.toGo, hc]
    rfl
  obtain ⟨o, w, call', hs, -, -, rfl⟩ | ⟨r, v, hv, -, -, rfl⟩ := move_cases h
  · simp only [update_self]
    obtain hlt | ⟨heq, h1, h2, h3, h4⟩ := hs.work
    · exact .inl hlt
    · exact .inr ⟨heq, h1, h2, h3, fun _ hc => hto hc (h4 hc)⟩
  · simp only [update_self]
    obtain hlt | ⟨heq, h1, h2, -, hlt⟩ := Call.work_wake (r := r) hv
    · exact .inl hlt
    · exact .inr ⟨heq, h1, h2, ⟨.refl _, rfl⟩, fun _ hc => hto hc hlt⟩

/-! ## The work of a queue -/

/-- The work left of all calls, and the price of the pointers in the queue and in the calls. -/
def work (price : α → Nat) (m : Monitor T α) : Nat :=
  (m.contents.map price).sum + ∑ u, (m.call u).work

/-- How far the calls whose conditions hold are from the ends of their waits. -/
def toGo (N : Nat) (m : Monitor T α) : Nat := ∑ u, (m.call u).toGo N m.arr

variable {price : α → Nat}

omit [DecidableEq T] in
theorem work_eq (m : Monitor T α) :
    m.work price = (m.items.map price).sum + ∑ u, (m.call u).load price := by
  have hc : ((∑ u, (m.call u).carries).map price).sum = ∑ u, ((m.call u).carries.map price).sum :=
    map_sum (Multiset.sumAddMonoidHom.comp (Multiset.mapAddMonoidHom price)) _ _
  simp only [work, contents, Call.load, Multiset.map_add, Multiset.sum_add, sum_add_distrib, hc,
    Multiset.map_coe, Multiset.sum_coe]
  exact Nat.add_assoc _ _ _

omit [DecidableEq T] in
/-- Where the queue itself stays the same and one thread's call changes. -/
theorem work_of_ne (hi : m'.items = m.items) (hc : ∀ u ≠ t, m'.call u = m.call u) :
    m'.work price + (m.call t).load price = m.work price + (m'.call t).load price := by
  have h := Tally.sum_of_ne (f := fun u => (m.call u).load price)
    (g := fun u => (m'.call u).load price) fun u hu => by rw [hc u hu]
  rw [work_eq, work_eq, hi]
  omega

theorem work_le_move (h : m.move N t mv = some m') (u : T) :
    (m'.call u).work ≤ (m.call u).work := by
  by_cases hu : u = t
  · subst hu
    exact (work_move_self h).elim le_of_lt fun h => h.1.le
  · exact (work_move_of_ne h hu).elim le_of_lt fun h => h.1.le

theorem Inv.work_le (H : m.Inv N) (h : m.move N t mv = some m') :
    m'.work price ≤ m.work price := by
  rw [work, work, H.contents_eq h]
  exact Nat.add_le_add_left (sum_le_sum fun u _ => work_le_move h u) _

/-- Where the work stays the same, that of each call does. -/
theorem Inv.work_eq (H : m.Inv N) (h : m.move N t mv = some m')
    (heq : m'.work price = m.work price) (u : T) : (m'.call u).work = (m.call u).work := by
  rw [work, work, H.contents_eq h] at heq
  exact (sum_eq_sum_iff_of_le fun u _ => work_le_move h u).1 (Nat.add_left_cancel heq) u (mem_univ u)

/-- A move that is not inside a wait lowers the work. -/
theorem Inv.work_lt (H : m.Inv N) (h : m.move N t mv = some m')
    (hw : ((m.call t).inWait && (m'.call t).inWait) = false) : m'.work price < m.work price := by
  refine (H.work_le h).lt_of_ne fun heq => ?_
  obtain hlt | ⟨-, h1, h2, -⟩ := work_move_self h
  · exact absurd (H.work_eq h heq t) hlt.ne
  · rw [h1, h2] at hw
    cases hw

/-- Where the work stays the same, only the call that moves can come farther from the end of its
wait. -/
theorem Inv.toGo_le (H : m.Inv N) (h : m.move N t mv = some m')
    (heq : m'.work price = m.work price) {u : T} (hu : u ≠ t) :
    (m'.call u).toGo N m'.arr ≤ (m.call u).toGo N m.arr := by
  obtain ⟨-, -, -, hv, -⟩ :=
    (work_move_self h).resolve_left fun hlt => hlt.ne (H.work_eq h heq t)
  rw [Call.toGo_view hv]
  exact ((work_move_of_ne h hu).resolve_left fun hlt => hlt.ne (H.work_eq h heq u)).2 _

/-- A call that does not wait in vain lowers the work, or comes nearer to the end of its wait. -/
theorem Inv.productive_move (H : m.Inv N) (h : m.move N t mv = some m') (hmv : mv ≠ .spurious)
    (hw : (m.call t).waiting N m.arr = false) :
    m'.work price < m.work price ∨ m'.work price = m.work price ∧ m'.toGo N < m.toGo N := by
  refine (H.work_le h).lt_or_eq.imp_right fun heq => ⟨heq, ?_⟩
  obtain ⟨-, -, -, -, hgo⟩ :=
    (work_move_self h).resolve_left fun hlt => hlt.ne (H.work_eq h heq t)
  refine sum_lt_sum (fun u _ => ?_) ⟨t, mem_univ t, hgo hmv hw⟩
  by_cases hu : u = t
  · subst hu
    exact (hgo hmv hw).le
  · exact H.toGo_le h heq hu

/-- A call that waits in vain brings nobody farther from the end of a wait. -/
theorem Inv.futile_move (H : m.Inv N) (h : m.move N t mv = some m') (hmv : mv ≠ .spurious)
    (hw : (m.call t).waiting N m.arr = true) :
    m'.work price < m.work price ∨ m'.work price = m.work price ∧ m'.toGo N ≤ m.toGo N := by
  refine (H.work_le h).lt_or_eq.imp_right fun heq => ⟨heq, sum_le_sum fun u _ => ?_⟩
  by_cases hu : u = t
  · subst hu
    rw [Call.toGo, ((Monitor.futile_move h hmv hw).2 u).1, hw]
    exact Nat.zero_le _
  · exact H.toGo_le h heq hu

end Monitor
end DnsResolver
