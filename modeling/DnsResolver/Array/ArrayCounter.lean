import DnsResolver.Array.ArrayQuiescence
import DnsResolver.Array.ArrayWakeups

/-!
# The counter of getters

Each `array_get` adds itself to `active_getters` once and takes itself off once, on whichever path
it leaves. `Call.added` and `Call.subtracted` read off the control point how many of the two it has
executed (`Monitor.call_counts`); the counter is the number of calls between them. -/

namespace DnsResolver
open Function Tally

variable {T α : Type} {N : Nat} {t : T} {s : ArrayState T α} {o : Out T α} {c : Call α}

/-- An `array_get` past its `atomic_fetch_add`. -/
def Call.added : Call α → Bool
  | .get .fetchAdd => false
  | .get _ | .getDone _ => true
  | _ => false

/-- An `array_get` past its `atomic_fetch_sub`. -/
def Call.subtracted : Call α → Bool
  | .get (.signalDone _) | .get (.refuse _) | .getDone _ => true
  | _ => false

/-- The next statement is the `atomic_fetch_add`. -/
def Call.addsNext : Call α → Bool
  | .get .fetchAdd => true
  | _ => false

/-- The next statement is one of the three `atomic_fetch_sub`. -/
def Call.subtractsNext : Call α → Bool
  | .get (.fetchSub _) | .get (.fetchSubLast _) => true
  | _ => false

theorem Call.counted_eq (c : Call α) : c.counted = (c.added && !c.subtracted) := by
  cases c with
  | get pc => cases pc <;> rfl
  | _ => rfl

theorem Call.added_wake {r : WaitResult} : (c.wake r).added = c.added := by
  unfold Call.wake
  split <;> rfl

theorem Call.subtracted_wake {r : WaitResult} : (c.wake r).subtracted = c.subtracted := by
  unfold Call.wake
  split <;> rfl

/-- A statement of `array_get` sets the two flags exactly where it updates the counter. -/
theorem CallStep.flags (h : CallStep N t s c o) (hc : c.op = some .get) :
    o.call.op = some .get ∧
    o.call.added.toNat = c.added.toNat + c.addsNext.toNat ∧
    o.call.subtracted.toNat = c.subtracted.toNat + c.subtractsNext.toNat := by
  cases h <;> first | cases hc; done | exact ⟨rfl, rfl, rfl⟩

/-- `all_getters_done` is signalled in one place. -/
theorem CallStep.signals_done (h : CallStep N t s c o) :
    o.wake = .signal .allGettersDone ↔ ∃ e, c = .get (.signalDone e) := by
  cases h <;> simp

namespace Monitor
variable [DecidableEq T] [Fintype T] {m m' : Monitor T α}

/-- `a` is a statement of `t`, not the end of a sleep. -/
def Act.runs (t : T) : Act T α → Bool
  | .move u (.run _) => u == t
  | _ => false

/-- The step is the `atomic_fetch_add` of `t`. -/
def adds (t : T) (p : Monitor T α × Act T α × Monitor T α) : Bool :=
  p.2.1.runs t && (p.1.call t).addsNext

/-- The step is an `atomic_fetch_sub` of `t`. -/
def subtracts (t : T) (p : Monitor T α × Act T α × Monitor T α) : Bool :=
  p.2.1.runs t && (p.1.call t).subtractsNext

theorem flags_of_ne {mv : Move T} (h : m.move N t mv = some m') {u : T} (hu : u ≠ t) :
    (m'.call u).added = (m.call u).added ∧ (m'.call u).subtracted = (m.call u).subtracted := by
  constructor
  · rcases move_stable (fun _ _ => Call.added_wake) h u with he | ⟨rfl, -⟩
    · exact he
    · exact absurd rfl hu
  · rcases move_stable (fun _ _ => Call.subtracted_wake) h u with he | ⟨rfl, -⟩
    · exact he
    · exact absurd rfl hu

/-- How many of its two updates of the counter the `array_get` of `t` has made in a step. -/
theorem step_counts {a : Act T α} (h : m.step N a = some m') (hc : (m.call t).op = some .get)
    (ha : a ≠ .leave t) : (m'.call t).op = some .get ∧
      (m'.call t).added.toNat = (m.call t).added.toNat + (adds t (m, a, m')).toNat ∧
      (m'.call t).subtracted.toNat =
        (m.call t).subtracted.toNat + (subtracts t (m, a, m')).toNat := by
  cases a with
  | begin u op =>
    obtain ⟨hu, rfl⟩ := begin_cases h
    have hut : t ≠ u := by
      rintro rfl
      rw [hu] at hc
      cases hc
    simp only [Monitor.begin, update_of_ne hut]
    exact ⟨hc, rfl, rfl⟩
  | leave u =>
    obtain ⟨-, rfl⟩ := leave_cases h
    have hut : t ≠ u := fun e => ha (e ▸ rfl)
    simp only [Monitor.leave, update_of_ne hut]
    exact ⟨hc, rfl, rfl⟩
  | move u mv =>
    by_cases hut : t = u
    · subst hut
      rcases move_cases h with ⟨o, w, call', hs, -, rfl, rfl⟩ | ⟨r, v, hv, h1, h2, rfl⟩
      · obtain ⟨h1, h2, h3⟩ := hs.flags hc
        simpa [adds, subtracts, Act.runs] using ⟨h1, h2, h3⟩
      · have hr : (Act.move t mv : Act T α).runs t = false := by
          cases mv with
          | run w => cases r <;> simp at h1 h2
          | _ => rfl
        simp only [update_self, Call.op_wake, Call.added_wake, Call.subtracted_wake, adds,
          subtracts, hr, Bool.false_and]
        exact ⟨hc, rfl, rfl⟩
    · have hr : (Act.move u mv : Act T α).runs t = false := by
        cases mv with
        | run w => exact beq_eq_false_iff_ne.2 (Ne.symm hut)
        | _ => rfl
      obtain ⟨h2, h3⟩ := flags_of_ne h hut
      rw [move_op h, h2, h3]
      simp only [adds, subtracts, hr, Bool.false_and]
      exact ⟨hc, rfl, rfl⟩

/-- Along a run from its start to its return an `array_get` has updated the counter as often as
its control point says. -/
theorem call_counts {m₁ : Monitor T α} {tr : List (Monitor T α × Act T α × Monitor T α)}
    (hb : m.step N (.begin t .get) = some m₁) (hp : (system T α N).Path m₁ tr m')
    (hl : ∀ p ∈ tr, p.2.1 ≠ .leave t) : (m'.call t).op = some .get ∧
      tr.countP (adds t) = (m'.call t).added.toNat ∧
      tr.countP (subtracts t) = (m'.call t).subtracted.toNat := by
  induction hp with
  | nil =>
    obtain ⟨-, rfl⟩ := begin_cases hb
    simp [Monitor.begin, Op.start, Call.op, Call.added, Call.subtracted]
  | @snoc tr m₂ a m₃ _ hs ih =>
    obtain ⟨h1, h2, h3⟩ := ih fun p hp => hl p (List.mem_append_left _ hp)
    have ha := hl (m₂, a, m₃) (by simp)
    obtain ⟨g1, g2, g3⟩ := step_counts hs h1 ha
    refine ⟨g1, ?_, ?_⟩
    · rw [List.countP_append, h2, g2, List.countP_singleton]
      cases adds t (m₂, a, m₃) <;> rfl
    · rw [List.countP_append, h3, g3, List.countP_singleton]
      cases subtracts t (m₂, a, m₃) <;> rfl

omit [DecidableEq T] in
/-- The getter that takes itself off on a shutdown exit is the last one if no other is counted. -/
theorem CountsGetters.last_iff (H : m.CountsGetters) (ht : (m.call t).counted = true) :
    m.arr.activeGetters - 1 = 0 ↔ ∀ u ≠ t, (m.call u).counted = false := by
  classical
  have h1 := tally_update Call.counted m.call t .idle
  have h0 : tally Call.counted (update m.call t .idle) = 0 ↔
      ∀ u ≠ t, (m.call u).counted = false := by
    rw [tally_eq_zero]
    refine ⟨fun h u hu => ?_, fun h u => ?_⟩
    · have := h u
      rwa [update_of_ne hu] at this
    · by_cases hu : u = t
      · subst hu
        rw [update_self]
        rfl
      · rw [update_of_ne hu]
        exact h u hu
  rw [ht, show (Call.idle : Call α).counted = false from rfl] at h1
  rw [← h0]
  unfold CountsGetters at H
  simp only [Bool.toNat_true, Bool.toNat_false] at h1
  omega

theorem fetchSub_cases (H : m.CountsGetters) {e : GetExit} {mv : Move T}
    (ht : m.call t = .get (.fetchSub e)) (h : m.move N t mv = some m') :
    ((∀ u ≠ t, (m.call u).counted = false) ∧ m'.call t = .get (.signalDone e)) ∨
    ((∃ u ≠ t, (m.call u).counted = true) ∧ m'.call t = .get (.refuse e)) := by
  have hl := H.last_iff (t := t) (by rw [ht]; rfl)
  rcases move_cases h with ⟨o, w, call', hs, -, -, rfl⟩ | ⟨r, v, hv, -⟩
  · rw [ht] at hs
    cases hs with
    | get_fetchSub_last h0 => exact .inl ⟨hl.1 h0, update_self ..⟩
    | get_fetchSub h0 =>
      have hn := hl.not.1 h0
      simp only [not_forall, Bool.not_eq_false] at hn
      obtain ⟨u, hu, hn⟩ := hn
      exact .inr ⟨⟨u, hu, hn⟩, update_self ..⟩
  · rw [ht] at hv
    cases hv

/-- **The counter of getters is exact.** `active_getters` is the number of `array_get` calls past
their `atomic_fetch_add` and not yet past their `atomic_fetch_sub`; a call that returns has made
each once; and a getter on a shutdown exit goes on to the signal of `all_getters_done` exactly when
it is the last that is counted. -/
theorem getters_counted (H : (system T α N).Reachable m) :
    m.arr.activeGetters = tally (fun c => c.added && !c.subtracted) m.call ∧
    0 ≤ m.arr.activeGetters ∧
    ((∀ t pc, m.call t ≠ .get pc) → m.arr.activeGetters = 0) ∧
    -- the flags say how often a call has executed the two statements
    (∀ t m₁ tr m', m.step N (.begin t .get) = some m₁ → (system T α N).Path m₁ tr m' →
      (∀ p ∈ tr, p.2.1 ≠ .leave t) →
      tr.countP (adds t) = (m'.call t).added.toNat ∧
      tr.countP (subtracts t) = (m'.call t).subtracted.toNat ∧
      ∀ r, m'.call t = .getDone r → tr.countP (adds t) = 1 ∧ tr.countP (subtracts t) = 1) ∧
    -- the shutdown exits signal when no other call is counted, and nothing else does
    (∀ t e mv m', m.call t = .get (.fetchSub e) → m.move N t mv = some m' →
      ((∀ u ≠ t, (m.call u).counted = false) ∧ m'.call t = .get (.signalDone e)) ∨
      ((∃ u ≠ t, (m.call u).counted = true) ∧ m'.call t = .get (.refuse e))) ∧
    ∀ t o, callStep N t m.arr (m.call t) = some o →
      (o.wake = .signal .allGettersDone ↔ ∃ e, m.call t = .get (.signalDone e)) := by
  have hc := activeGetters_exact H
  refine ⟨?_, ?_, fun h0 => ?_, fun t m₁ tr m' hb hp hl => ?_,
    fun t e mv m' ht h => fetchSub_cases hc ht h, fun t o h => (callStep_iff.1 h).signals_done⟩
  · simp only [← Call.counted_eq]
    exact hc
  · rw [hc]
    exact Int.natCast_nonneg _
  · rw [hc, tally_eq_zero.2 fun u => ?_]
    · rfl
    · cases hu : m.call u with
      | get pc => exact absurd hu (h0 u pc)
      | _ => rfl
  · obtain ⟨-, h1, h2⟩ := call_counts hb hp hl
    refine ⟨h1, h2, fun r hr => ?_⟩
    rw [h1, h2, hr]
    exact ⟨rfl, rfl⟩

/-- Two getters wait and one has been woken. -/
theorem getters_counted_waiting : ∃ m : Monitor (Fin 3) Nat, (system (Fin 3) Nat 2).Reachable m ∧
    m.call 1 = .get .asleep ∧ m.arr.activeGetters = 2 ∧
    m.arr.activeGetters = tally (fun c => c.added && !c.subtracted) m.call := by
  have h : ∃ m ∈ TransitionSystem.exec (step 2) (signalRun (0 : Fin 3) 1 2) init,
      m.call 1 = .get .asleep ∧ m.arr.activeGetters = 2 := by decide +kernel
  obtain ⟨m, hm, h1, h2⟩ := h
  have hr := TransitionSystem.reachable_exec hm
  exact ⟨m, hr, h1, h2, (getters_counted hr).1⟩

end Monitor
end DnsResolver
