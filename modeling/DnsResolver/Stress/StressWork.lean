import DnsResolver.Stress.StressProgress
import DnsResolver.Array.ArrayWork
import Mathlib.Data.Prod.Lex

/-!
# The stress test comes to its end

Besides the timed waits of the queue the test has one more loop without a bound, in which `main`
polls the counters. All its other steps use up the work that is left (`remaining_lt`). So when
nothing fails the test can always come to its end, and then it has passed (`can_pass`). -/

namespace DnsResolver.Stress
open Function Finset

variable {P C : Nat} {cfg : Config P C} {s s' : State P C} {t u v : Tid P C} {c : Choice}
  {e : Effect P C}

/-- A step that no spurious wake-up makes. -/
def Act.Prompted : Act P C → Prop
  | .call _ mv => mv ≠ .spurious
  | _ => True

/-! ## Prices -/

/-- What a string in the queue costs the consumer that gets it. -/
def price (_ : Bytes) : Nat := 18

/-- What a call costs that a thread enters. -/
def owed : Option (Op Bytes) → Nat
  | some p => p.start.load price
  | none => 0

/-- What a producer has still to do outside its call. -/
def ProducerLoc.work (cfg : Config P C) (p : Fin P) : ProducerLoc → Nat
  | .idle => 30 * (cfg.stop p - cfg.start p) + 1
  | .next i => 30 * (cfg.stop p - i) + 1
  | .alloc i => 30 * (cfg.stop p - (i + 1)) + 30
  | .put i _ => 30 * (cfg.stop p - (i + 1)) + 5
  | .refused i _ | .lockCount i => 30 * (cfg.stop p - (i + 1)) + 4
  | .count i => 30 * (cfg.stop p - (i + 1)) + 3
  | .unlockCount i => 30 * (cfg.stop p - (i + 1)) + 2
  | .finished _ => 0

def ConsumerLoc.work : ConsumerLoc → Nat
  | .parse _ => 18
  | .lockCount .. => 17
  | .mark .. => 16
  | .count _ => 15
  | .test _ => 14
  | .unlockCount _ => 13
  | .freeItem _ => 12
  | .idle | .next => 11
  | .unlockLast _ => 2
  | .get | .freeLast _ => 1
  | .finished => 0

/-- The polling counts as one statement. -/
def MainLoc.work (cfg : Config P C) : MainLoc → Nat
  | .createProducer i => (P - i) + C + P + C + cfg.total + 21
  | .createConsumer j => (C - j) + P + C + cfg.total + 20
  | .joinProducer i => (P - i) + C + cfg.total + 19
  | .wait | .sleep => C + cfg.total + 18
  | .free => C + cfg.total + 5
  | .joinConsumer j => (C - j) + cfg.total + 4
  | .cancelAlarm => cfg.total + 3
  | .verify i _ => (cfg.total - i) + 2
  | .verdict _ | .abort => 1
  | .returned => 0

@[simp] theorem owed_none : owed none = 0 := rfl

@[simp] theorem owed_get : owed (some .get) = 9 := rfl

@[simp] theorem owed_free : owed (some .free) = 12 := rfl

@[simp] theorem owed_put (x : Bytes) : owed (some (.put x)) = 24 := rfl

/-! ## One statement -/

/-- What is left of a returned call. -/
def State.paid (s : State P C) (t : Tid P C) (o : Option (Op Bytes)) : Nat :=
  if o = none then 0 else (s.queue.call t).load price

theorem MainStep.work {l l' : MainLoc} (h : MainStep cfg s l l' e) (hl : l ≠ .sleep)
    (hw : l = .wait → l' ≠ .sleep) :
    l'.work cfg + owed l'.op < l.work cfg + s.paid .main l.op := by
  cases h with
  | sleep => exact absurd rfl hl
  | wait => exact absurd rfl (hw rfl)
  | _ =>
    simp only [MainLoc.work, MainLoc.op, owed_none, owed_free]
    omega

theorem ProducerStep.work {p : Fin P} {l l' : ProducerLoc} (ha : cfg.allocFails = false)
    (h : ProducerStep cfg s p l l' e) :
    l'.work cfg p + owed l'.op < l.work cfg p + s.paid (.producer p) l.op := by
  cases h with
  | alloc_fail h => exact absurd (ha.symm.trans h) (by simp)
  | _ =>
    simp only [ProducerLoc.work, ProducerLoc.op, owed_none, owed_put]
    omega

theorem ConsumerStep.work {j : Fin C} {l l' : ConsumerLoc} (h : ConsumerStep cfg s j l l' e) :
    l'.work + owed l'.op < l.work + s.paid (.consumer j) l.op := by
  cases h with
  | item hc | forced hc | shutdown hc =>
    simp [ConsumerLoc.work, ConsumerLoc.op, State.paid, hc, Call.load, Call.work, price]
  | _ => simp [ConsumerLoc.work, ConsumerLoc.op, State.paid]

/-- The next look of `main` at the counters costs nothing. -/
theorem MainStep.work_polling {l l' : MainLoc} (h : MainStep cfg s l l' e)
    (hl : l = .sleep ∨ l = .wait ∧ l' = .sleep) :
    l'.work cfg = l.work cfg ∧ l.op = none ∧ l'.op = none := by
  cases h with
  | sleep | wait => exact ⟨rfl, rfl, rfl⟩
  | _ => simp at hl

namespace State

/-- What a thread has still to do outside its call. -/
def workOf (cfg : Config P C) (s : State P C) : Tid P C → Nat
  | .main => s.main.work cfg
  | .producer i => (s.producer i).work cfg i
  | .consumer j => (s.consumer j).work
  | .handler => 0

/-- The work left. -/
def work (cfg : Config P C) (s : State P C) : Nat :=
  ∑ t, s.workOf cfg t + s.queue.work price

end State

open State

namespace Stmt

theorem workOf_of_ne (H : s.Fresh) (h : Stmt cfg s t s') (hu : u ≠ t) :
    s'.workOf cfg u = s.workOf cfg u := by
  have ho := h.other H hu
  cases u with
  | main => exact congrArg (MainLoc.work cfg) ho
  | producer i =>
    rcases ho with he | ⟨h0, h1⟩
    · exact congrArg (ProducerLoc.work cfg i) he
    · simp only [workOf, h0, h1]
      rfl
  | consumer j =>
    rcases ho with he | ⟨h0, h1⟩
    · exact congrArg ConsumerLoc.work he
    · simp only [workOf, h0, h1]
      rfl
  | handler => rfl

/-- The queue's work changes with the calls that are left and entered. -/
theorem queue_work (H : s.Synced) (h : Stmt cfg s t s') :
    s'.queue.work price + s.paid t (s.op t) = s.queue.work price + owed (s'.op t) := by
  have hitems : s'.queue.items = s.queue.items := by rw [h.queue_eq, switch_items]
  have hw : s'.queue.work price + (s.queue.call t).load price =
      s.queue.work price + (s'.queue.call t).load price :=
    Monitor.work_of_ne hitems fun u hu => H.call_of_ne h hu
  have hpaid : (s.queue.call t).load price = s.paid t (s.op t) := by
    unfold paid
    split
    · rename_i h0
      rw [H.idle h0]
      rfl
    · rfl
  have howed : (s'.queue.call t).load price = owed (s'.op t) := by
    rw [H.call_self h]
    cases s'.op t <;> rfl
  rwa [hpaid, howed] at hw

/-- Only the polling of `main` leaves the work as it is. -/
theorem work_lt (ha : cfg.allocFails = false) (hh : s.handler = none) (H : s.Synced)
    (h : Stmt cfg s t s') (hp : ¬ (t = .main ∧ s.polling = true)) : s'.work cfg < s.work cfg := by
  have hq := h.queue_work H
  have hs := Tally.sum_of_ne fun u hu => h.workOf_of_ne H.fresh (u := u) hu
  obtain ⟨e, hd, -⟩ := h.effect
  have ht : s'.workOf cfg t + owed (s'.op t) < s.workOf cfg t + s.paid t (s.op t) := by
    cases t with
    | main =>
      refine MainStep.work hd (fun h0 => hp ⟨rfl, by simp [polling, h0]⟩) fun h0 h1 => ?_
      have hd : MainStep cfg s s.main s'.main e := hd
      rw [h0, h1] at hd
      cases hd with
      | wait hlt => exact hp ⟨rfl, by simp [polling, h0, hlt]⟩
    | producer i => exact ProducerStep.work ha hd
    | consumer j => exact ConsumerStep.work hd
    | handler =>
      obtain ⟨v, l, l', he, -⟩ := hd
      cases hh.symm.trans he
  unfold State.work
  omega

theorem polling (H : s.Synced) (h : Stmt cfg s .main s') (hp : s.polling = true) :
    s'.queue = s.queue ∧ s'.work cfg = s.work cfg := by
  have hs := Tally.sum_of_ne fun u hu => h.workOf_of_ne H.fresh (u := u) hu
  obtain ⟨e, hd, -⟩ := h.effect
  have hd : MainStep cfg s s.main s'.main e := hd
  have hl : s.main = .sleep ∨ s.main = .wait ∧ s'.main = .sleep := by
    unfold State.polling at hp
    generalize s.main = l at hp hd ⊢
    generalize s'.main = l' at hd ⊢
    cases hd with
    | sleep => exact .inl rfl
    | wait => exact .inr ⟨rfl, rfl⟩
    | consumed hle =>
      simp only [decide_eq_true_eq] at hp
      omega
    | _ => cases hp
  obtain ⟨h1, h2, h3⟩ := hd.work_polling hl
  have hq : s'.queue = s.queue := by
    rw [h.queue_eq, State.op, State.op, h2, h3]
    rfl
  refine ⟨hq, ?_⟩
  have hw : s'.workOf cfg .main = s.workOf cfg .main := h1
  unfold State.work
  rw [hq]
  omega

end Stmt

namespace State

/-! ## The end is in reach -/

/-- The work left, and then how far the waits whose conditions hold are from their ends. -/
def remaining (cfg : Config P C) (s : State P C) : ℕ ×ₗ ℕ :=
  toLex (s.work cfg, s.queue.toGo cfg.arraySize)

variable (cfg s) in
theorem work_setQueue (m : Monitor (Tid P C) Bytes) :
    (s.setQueue m).work cfg + s.queue.work price = s.work cfg + m.work price := by
  have ht (u : Tid P C) : (s.setQueue m).workOf cfg u = s.workOf cfg u := by cases u <;> rfl
  have hq : (s.setQueue m).queue = m := rfl
  simp only [work, ht, hq]
  omega

/-- A productive step brings the test nearer to its end. -/
theorem remaining_lt {a : Act P C} (ha : cfg.allocFails = false) (hh : s.handler = none)
    (H : cfg.system.Reachable s) (hp : Productive cfg s a) (h : s.step cfg a = some s') :
    s'.remaining cfg < s.remaining cfg := by
  refine Prod.Lex.toLex_lt_toLex.2 ?_
  cases step_cases h with
  | stmt _ _ h => exact .inl (h.work_lt ha hh (synced_reachable H) hp)
  | @call w mv m _ _ hm =>
    have hw := work_setQueue cfg s m
    have hpm : m.work price < s.queue.work price ∨ m.work price = s.queue.work price ∧
        m.toGo cfg.arraySize < s.queue.toGo cfg.arraySize :=
      (queue_inv H).productive_move hm hp.1 hp.2
    rcases hpm with hlt | ⟨heq, hlt⟩
    · exact .inl (by omega)
    · exact .inr ⟨by omega, hlt⟩
  | ring => cases hp

/-- A futile step takes the test no farther from its end. -/
theorem remaining_le {a : Act P C} (H : cfg.system.Reachable s) (hf : Futile cfg s a)
    (h : s.step cfg a = some s') : s'.remaining cfg ≤ s.remaining cfg := by
  refine Prod.Lex.toLex_le_toLex.2 ?_
  cases step_cases h with
  | @stmt w _ _ _ _ h =>
    obtain ⟨rfl, hp⟩ := hf
    obtain ⟨h1, h2⟩ := h.polling (synced_reachable H) hp
    exact .inr ⟨h2, by rw [h1]⟩
  | @call w mv m _ _ hm =>
    have hw := work_setQueue cfg s m
    have hfm : m.work price < s.queue.work price ∨ m.work price = s.queue.work price ∧
        m.toGo cfg.arraySize ≤ s.queue.toGo cfg.arraySize :=
      (queue_inv H).futile_move hm hf.1 hf.2
    rcases hfm with hlt | ⟨heq, hle⟩
    · exact .inl (by omega)
    · exact .inr ⟨by omega, hle⟩
  | ring => cases hf

theorem remaining_leads (H : cfg.system.Reachable s)
    (h : (cfg.system.restrict (Futile cfg)).Leads s s') : s'.remaining cfg ≤ s.remaining cfg :=
  h.keeps (I := fun u => u.remaining cfg ≤ s.remaining cfg)
    (fun _ _ _ H ha h hle => (remaining_le H ha h).trans hle) H le_rfl

theorem prompted_of_futile {a : Act P C} (h : Futile cfg s a) : a.Prompted := by
  cases a with
  | call t mv => exact h.1
  | _ => trivial

theorem prompted_of_productive {a : Act P C} (h : Productive cfg s a) : a.Prompted := by
  cases a with
  | call t mv => exact h.1
  | _ => trivial

/-- **The test can always pass.** When no alarm is set and no allocation or creation fails, every
reachable state leads, without a spurious wake-up, to one in which `main` has returned with success. -/
theorem can_pass (hal : cfg.alarm = false) (ha : cfg.allocFails = false)
    (hc : cfg.createFails = false) (H : cfg.system.Reachable s) :
    ∃ s', (cfg.system.restrict fun _ a => a.Prompted).Leads s s' ∧ s'.status = some .success := by
  have hstep (s : State P C) (H : cfg.system.Reachable s) (hst : s.status ≠ some .success) :
      ∃ s', (cfg.system.restrict fun _ a => a.Prompted).Leads s s' ∧
        cfg.system.Reachable s' ∧ s'.remaining cfg < s.remaining cfg := by
    have S := smooth_reachable hal ha hc H
    have hnone : s.status = none := by
      cases h : s.status with
      | none => rfl
      | some r =>
        cases r with
        | success => exact absurd h hst
        | failure => exact absurd h S.status
    obtain ⟨s₁, h1, a, s₂, hp, h2⟩ := S.can_progress H hnone
    have H1 := H.leads h1.of_restrict
    have h2' : (cfg.system.restrict fun _ a => a.Prompted).step s₁ a s₂ :=
      ⟨prompted_of_productive hp, h2⟩
    refine ⟨s₂, (h1.restrict_mono fun _ _ => prompted_of_futile).tail h2', H1.step h2, ?_⟩
    exact (remaining_lt ha (smooth_reachable hal ha hc H1).handler H1 hp h2).trans_le
      (remaining_leads H h1)
  obtain ⟨s', h, -, hs⟩ := TransitionSystem.Leads.until (remaining cfg) hstep H
  exact ⟨s', h, hs⟩

/-- From the state in which the second producer waits. -/
theorem can_pass_sample : ∃ s s', sample.system.Reachable s ∧
    s.queue.call (.producer 1) = .put (hostname 1) .asleep ∧
    (sample.system.restrict fun _ a => a.Prompted).Leads s s' ∧ s'.status = some .success := by
  have h : ∃ s ∈ schedule sample ((sampleRun 0 1 0).take 4),
      s.queue.call (.producer 1) = .put (hostname 1) .asleep := by decide +kernel
  obtain ⟨s, hs, h⟩ := h
  have H := schedule_reachable hs
  obtain ⟨s', hl, hp⟩ := can_pass rfl rfl rfl H
  exact ⟨s, s', H, h, hl, hp⟩

end State
end DnsResolver.Stress
