import DnsResolver.Stress.StressVerdict
import DnsResolver.Array.ArrayProgress
import DnsResolver.Array.ArrayCounter

/-!
# The stress test never gets stuck

When nothing fails and no alarm is set (`Smooth`), some thread can always go on: a producer waits
only for room, a consumer only for an item or for `main`, and `main` polls the counters only as long
as an item is on its way (`Smooth.can_progress`). -/

namespace DnsResolver.Stress
open Function Tally

variable {P C : Nat} {cfg : Config P C} {s s' : State P C} {t u v : Tid P C} {c : Choice}

namespace State

/-- `main` looks at the counters in vain, or sleeps before the next look. -/
def polling (s : State P C) : Bool :=
  match s.main with
  | .sleep => true
  | .wait => s.itemsConsumed < s.itemsProduced
  | _ => false

/-- A round of a wait whose condition does not hold. -/
def Futile (cfg : Config P C) (s : State P C) : Act P C → Prop
  | .call t mv => mv ≠ .spurious ∧ (s.queue.call t).waiting cfg.arraySize s.queue.arr = true
  | .stmt t _ => t = .main ∧ s.polling = true
  | .ring _ => False

/-- Any other step, but for spurious wake-ups and the alarm. -/
def Productive (cfg : Config P C) (s : State P C) : Act P C → Prop
  | .call t mv => mv ≠ .spurious ∧ (s.queue.call t).waiting cfg.arraySize s.queue.arr = false
  | .stmt t _ => ¬ (t = .main ∧ s.polling = true)
  | .ring _ => False

/-- Some thread can make a productive step, perhaps after some rounds of waits. -/
def CanProgress (cfg : Config P C) (s : State P C) : Prop :=
  ∃ s', (cfg.system.restrict (Futile cfg)).Leads s s' ∧
    ∃ a s'', Productive cfg s' a ∧ s'.step cfg a = some s''

end State

/-! ## When nothing fails -/

/-- The consumer is on its way out of its loop. -/
def ConsumerLoc.quits : ConsumerLoc → Bool
  | .unlockLast _ | .freeLast _ | .finished => true
  | _ => false

/-- `main` is past its `array_free`. -/
def MainLoc.pastFree : MainLoc → Bool
  | .joinConsumer _ | .cancelAlarm | .verify .. | .verdict _ => true
  | _ => false

theorem ConsumerStep.quits {j : Fin C} {l l' : ConsumerLoc} {e : Effect P C}
    (h : ConsumerStep cfg s j l l' e) (hl : l'.quits = true) :
    l.quits = true ∨ s.queue.call (.consumer j) = .getDone none ∨ s.forceShutdown = true ∨
      cfg.total ≤ s.itemsConsumed := by
  cases h with
  | shutdown h => exact .inr (.inl h)
  | forced _ h => exact .inr (.inr (.inl h))
  | last h => exact .inr (.inr (.inr h))
  | unlockLast | freeLast => exact .inl rfl
  | _ => cases hl

/-- When no creation fails `main` does not give up, and it creates the threads it says it has. -/
theorem MainStep.runs {l l' : MainLoc} {e : Effect P C} (hc : cfg.createFails = false)
    (h : MainStep cfg s l l' e) (hl : l ≠ .abort) :
    l' ≠ .abort ∧ (l' = .returned → e.status ≠ none) ∧
    (e.status = some .failure → ∃ n, n ≠ 0 ∧ l = .verdict n) ∧
    (l'.pastFree = true → l.pastFree = true ∨ s.queue.call .main = .freeDone) := by
  cases h with
  | createProducer_fail _ h | createConsumer_fail _ h => exact absurd (hc.symm.trans h) (by simp)
  | abort => exact absurd rfl hl
  | failed hn => simp [hn, MainLoc.pastFree]
  | free h => simp [h]
  | _ => simp [MainLoc.pastFree]

theorem MainStep.creates {l l' : MainLoc} {e : Effect P C} (hc : cfg.createFails = false)
    (h : MainStep cfg s l l' e) :
    (∀ i : Fin P, l'.toCreateProducer i = false → l.toCreateProducer i = false ∨
      e.spawn = some (.producer i)) ∧
    (∀ j : Fin C, l'.toCreateConsumer j = false → l.toCreateConsumer j = false ∨
      e.spawn = some (.consumer j)) := by
  cases h with
  | createProducer_fail _ h | createConsumer_fail _ h => exact absurd (hc.symm.trans h) (by simp)
  | @createProducer k hk =>
    refine ⟨fun i hi => ?_, fun _ => .inl⟩
    simp only [MainLoc.toCreateProducer, decide_eq_false_iff_not, Option.some.injEq,
      Tid.producer.injEq, Fin.ext_iff] at hi ⊢
    omega
  | @createConsumer k hk =>
    refine ⟨fun _ => .inl, fun i hi => ?_⟩
    simp only [MainLoc.toCreateConsumer, decide_eq_false_iff_not, Option.some.injEq,
      Tid.consumer.injEq, Fin.ext_iff] at hi ⊢
    omega
  | @producersCreated k hk =>
    refine ⟨fun i _ => .inl ?_, fun j hj => ?_⟩
    · simp only [MainLoc.toCreateProducer, decide_eq_false_iff_not]
      omega
    · simp [MainLoc.toCreateConsumer] at hj
  | @consumersCreated k hk =>
    refine ⟨fun _ => .inl, fun j _ => .inl ?_⟩
    simp only [MainLoc.toCreateConsumer, decide_eq_false_iff_not]
    omega
  | _ => exact ⟨fun _ => .inl, fun _ => .inl⟩

theorem ProducerStep.runs {p : Fin P} {l l' : ProducerLoc} {e : Effect P C}
    (ha : cfg.allocFails = false) (h : ProducerStep cfg s p l l' e) :
    l' ≠ .idle ∧ e.status = none := by
  cases h with
  | alloc_fail h => exact absurd (ha.symm.trans h) (by simp)
  | _ => simp

theorem ConsumerStep.runs {j : Fin C} {l l' : ConsumerLoc} {e : Effect P C}
    (h : ConsumerStep cfg s j l l' e) : l' ≠ .idle ∧ e.status = none := by
  cases h <;> simp

open State

/-- What `main` has created runs. -/
theorem Stmt.spawned (hc : cfg.createFails = false) (h : Stmt cfg s .main s') :
    (∀ i : Fin P, s'.main.toCreateProducer i = false →
      s.main.toCreateProducer i = false ∨ s'.producer i ≠ .idle) ∧
    (∀ j : Fin C, s'.main.toCreateConsumer j = false →
      s.main.toCreateConsumer j = false ∨ s'.consumer j ≠ .idle) := by
  cases h with
  | @main l e h =>
    obtain ⟨h1, h2⟩ := h.creates hc
    refine ⟨fun i hi => (h1 i hi).imp_right fun he => ?_, fun j hj => (h2 j hj).imp_right fun he => ?_⟩
    · simp [he, State.spawn]
    · simp [he, State.spawn]

namespace State

/-- Nothing has failed, created threads run, and they quit when there is no more to do. -/
structure Smooth (cfg : Config P C) (s : State P C) : Prop where
  handler : s.handler = none
  main : s.main ≠ .abort
  returned : s.main = .returned → s.status ≠ none
  status : s.status ≠ some .failure
  producer : ∀ i : Fin P, s.main.toCreateProducer i = false → s.producer i ≠ .idle
  consumer : ∀ j : Fin C, s.main.toCreateConsumer j = false → s.consumer j ≠ .idle
  quits : ∀ j, (s.consumer j).quits = true →
    s.queue.arr.shutdown = true ∨ cfg.total ≤ s.itemsConsumed
  pastFree : s.main.pastFree = true → s.queue.arr.shutdown = true

theorem Smooth.over (S : s.Smooth cfg) (hst : s.status = none) : s.main.over = false := by
  have h1 := S.main
  have h2 := S.returned
  generalize s.main = l at h1 h2
  cases l with
  | abort => exact absurd rfl h1
  | returned => exact absurd hst (h2 rfl)
  | _ => rfl

/-- What a statement of `main` keeps. -/
theorem Smooth.main_stmt (hc : cfg.createFails = false) (S : s.Smooth cfg)
    (H : cfg.system.Reachable s) {e : Effect P C} (hd : MainStep cfg s s.main s'.main e)
    (hp : Performs s s' e) : s'.main ≠ .abort ∧ (s'.main = .returned → s'.status ≠ none) ∧
      s'.status ≠ some .failure ∧ (s'.main.pastFree = true → s.queue.arr.shutdown = true) := by
  obtain ⟨h1, h2, h3, h4⟩ := hd.runs hc S.main
  refine ⟨h1, fun hm => hp.status ▸ h2 hm, fun hs => ?_, fun hm => ?_⟩
  · obtain ⟨n, hn, hv⟩ := h3 (hp.status.symm.trans hs)
    exact hn ((sound_reachable H).verdict n hv)
  · rcases h4 hm with h0 | h0
    · exact S.pastFree h0
    · have := (queue_inv H).asserts .main
      rwa [h0] at this

theorem Smooth.stmt (ha : cfg.allocFails = false) (hc : cfg.createFails = false)
    (S : s.Smooth cfg) (H : cfg.system.Reachable s) (hst : s.status = none)
    (h : Stmt cfg s t s') : s'.Smooth cfg := by
  have hf := (synced_reachable H).fresh
  have hu := undisturbed_reachable H S.handler (S.over hst)
  obtain ⟨e, hd, hp⟩ := h.effect
  have harr : s'.queue.arr = s.queue.arr := by rw [h.queue_eq, switch_arr]
  have hh : s'.handler = none := by
    rcases h.handler_eq hf with he | ⟨v, l, l', he, -⟩
    · exact he.trans S.handler
    · cases S.handler.symm.trans he
  have hmono : cfg.total ≤ s.itemsConsumed → cfg.total ≤ s'.itemsConsumed := fun hle =>
    hp.itemsConsumed ▸ hle.trans (Nat.le_add_right _ _)
  have hmain : s'.main ≠ .abort ∧ (s'.main = .returned → s'.status ≠ none) ∧
      s'.status ≠ some .failure ∧ (s'.main.pastFree = true → s.queue.arr.shutdown = true) := by
    by_cases ht : .main = t
    · subst ht
      exact S.main_stmt hc H hd hp
    · have h0 : s'.main = s.main := h.other hf ht
      have hstatus : e.status = none := by
        cases t with
        | main => exact absurd rfl ht
        | producer i => exact (ProducerStep.runs ha hd).2
        | consumer j => exact (ConsumerStep.runs hd).2
        | handler =>
          obtain ⟨v, l, l', he, -⟩ := hd
          cases S.handler.symm.trans he
      rw [h0, hp.status, hstatus]
      exact ⟨S.main, fun hm => absurd hst (S.returned hm), by simp, S.pastFree⟩
  have hcreated : (∀ i : Fin P, s'.main.toCreateProducer i = false →
        s.main.toCreateProducer i = false ∨ s'.producer i ≠ .idle) ∧
      (∀ j : Fin C, s'.main.toCreateConsumer j = false →
        s.main.toCreateConsumer j = false ∨ s'.consumer j ≠ .idle) := by
    by_cases ht : .main = t
    · subst ht
      exact h.spawned hc
    · have h0 : s'.main = s.main := h.other hf ht
      rw [h0]
      exact ⟨fun _ => .inl, fun _ => .inl⟩
  refine ⟨hh, hmain.1, hmain.2.1, hmain.2.2.1, fun i hi => ?_, fun j hj => ?_, fun j hj => ?_,
    fun hm => harr ▸ hmain.2.2.2 hm⟩
  · refine (hcreated.1 i hi).elim (fun h0 => ?_) id
    by_cases ht : .producer i = t
    · subst ht
      exact (ProducerStep.runs ha hd).1
    · rcases h.other hf ht with h1 | ⟨h1, -⟩
      · exact h1 ▸ S.producer i h0
      · exact absurd h1 (S.producer i h0)
  · refine (hcreated.2 j hj).elim (fun h0 => ?_) id
    by_cases ht : .consumer j = t
    · subst ht
      exact (ConsumerStep.runs hd).1
    · rcases h.other hf ht with h1 | ⟨h1, -⟩
      · exact h1 ▸ S.consumer j h0
      · exact absurd h1 (S.consumer j h0)
  · rw [harr]
    by_cases ht : .consumer j = t
    · subst ht
      rcases ConsumerStep.quits hd hj with h0 | h0 | h0 | h0
      · exact (S.quits j h0).imp_right hmono
      · have := (queue_inv H).asserts (.consumer j)
        rw [h0] at this
        exact .inl this.1
      · exact absurd (hu.forceShutdown.symm.trans h0) (by simp)
      · exact .inr (hmono h0)
    · rcases h.other hf ht with h1 | ⟨-, h1⟩
      · exact (S.quits j (h1 ▸ hj)).imp_right hmono
      · rw [h1] at hj
        cases hj

theorem smooth_reachable (hal : cfg.alarm = false) (ha : cfg.allocFails = false)
    (hc : cfg.createFails = false) (H : cfg.system.Reachable s) : s.Smooth cfg := by
  induction H with
  | init h =>
    rw [h]
    refine ⟨rfl, by simp [init], by simp [init], by simp [init], fun i h => ?_, fun j h => ?_,
      fun j h => (by cases h), fun h => (by cases h)⟩
    · simp [init, MainLoc.toCreateProducer] at h
    · simp [init, MainLoc.toCreateConsumer] at h
  | @step s a s' H h ih =>
    cases step_cases h with
    | stmt hst _ h => exact ih.stmt ha hc H hst h
    | @call w mv m _ _ hm =>
      have hsh (h0 : s.queue.arr.shutdown = true) : m.arr.shutdown = true := by
        have hs : s.queue.step cfg.arraySize (.move w mv) = some m := hm
        exact Monitor.shutdown_step hs h0
      exact ⟨ih.handler, ih.main, ih.returned, ih.status, ih.producer, ih.consumer,
        fun j hj => (ih.quits j hj).imp_left hsh, fun h0 => hsh (ih.pastFree h0)⟩
    | ring _ h0 => cases hal.symm.trans h0

/-! ## Steps that are possible -/

theorem step_call {mv : Move (Tid P C)} {m : Monitor (Tid P C) Bytes} (hst : s.status = none)
    (hh : s.handler = none) (h : s.queue.move cfg.arraySize t mv = some m) :
    s.step cfg (.call t mv) = some (s.setQueue m) := by
  simp [step, interrupted, hst, hh, h]

theorem step_stmt (hst : s.status = none) (hh : s.handler = none) (h : s.stmt cfg c t = some s') :
    s.step cfg (.stmt t c) = some s' := by
  simp [step, interrupted, hst, hh, h]

/-- Futile moves on the queue are futile steps of the test. -/
theorem futile_leads {m : Monitor (Tid P C) Bytes} (hst : s.status = none) (hh : s.handler = none)
    (h : ((Monitor.system (Tid P C) Bytes cfg.arraySize).restrict
      (Monitor.Futile cfg.arraySize)).Leads s.queue m) :
    (cfg.system.restrict (Futile cfg)).Leads s (s.setQueue m) := by
  induction h with
  | refl => exact .refl
  | @tail m m' _ h ih =>
    obtain ⟨a, ha, h⟩ := h
    cases a with
    | move t mv =>
      have hs : (cfg.system.restrict (Futile cfg)).step (s.setQueue m) (.call t mv)
          (s.setQueue m') := by
        refine ⟨ha, ?_⟩
        have h' : (s.setQueue m).queue.move cfg.arraySize t mv = some m' := h
        have hstep : (s.setQueue m).step cfg (.call t mv) = _ := step_call hst hh h'
        exact hstep
      exact ih.tail hs
    | begin t p | leave t => cases ha

/-- A call that is in progress and does not wait goes on. -/
theorem canProgress_of_call (H : cfg.system.Reachable s) (hst : s.status = none)
    (hh : s.handler = none) (hr : (s.queue.call t).running = true)
    (hw : (s.queue.call t).waiting cfg.arraySize s.queue.arr = false) : s.CanProgress cfg := by
  obtain ⟨m, hm, t', mv, m', hmv, hw', h⟩ := (queue_inv H).progress hr hw
  have h : (s.setQueue m).queue.move cfg.arraySize t' mv = some m' := h
  have hstep : (s.setQueue m).step cfg (.call t' mv) = _ := step_call hst hh h
  exact ⟨s.setQueue m, futile_leads hst hh hm, .call t' mv, _, ⟨hmv, hw'⟩, hstep⟩

theorem canProgress_of_stmt (hst : s.status = none) (hh : s.handler = none)
    (h : s.stmt cfg c t = some s') (hp : ¬ (t = .main ∧ s.polling = true)) : s.CanProgress cfg :=
  ⟨s, .refl, .stmt t c, s', hp, step_stmt hst hh h⟩

/-- A thread goes on when its call has returned. -/
theorem stmt_of_done (H : cfg.system.Reachable s) {p : Op Bytes} (hop : s.op t = some p)
    (hd : (s.queue.call t).done = true) : ∃ s', s.stmt cfg .ok t = some s' := by
  have h := Call.done_cases (((synced_reachable H).op t).trans hop) hd
  cases t with
  | main =>
    suffices hs : (mainStep cfg s .ok s.main).isSome = true by
      obtain ⟨r, hr⟩ := Option.isSome_iff_exists.1 hs
      exact ⟨_, by rw [stmt, hr]; rfl⟩
    have hop : s.main.op = some p := hop
    generalize s.main = l at hop
    cases l with
    | abort | free =>
      cases hop
      simp [mainStep, h]
    | _ => cases hop
  | producer i =>
    suffices hs : (producerStep cfg s i .ok (s.producer i)).isSome = true by
      obtain ⟨r, hr⟩ := Option.isSome_iff_exists.1 hs
      exact ⟨_, by rw [stmt, hr]; rfl⟩
    have hop : (s.producer i).op = some p := hop
    generalize s.producer i = l at hop
    cases l with
    | put k x =>
      cases hop
      obtain ⟨r, hr⟩ := h
      cases r <;> simp [producerStep, hr]
    | _ => cases hop
  | consumer j =>
    suffices hs : (consumerStep cfg s j (s.consumer j)).isSome = true by
      obtain ⟨r, hr⟩ := Option.isSome_iff_exists.1 hs
      exact ⟨_, by rw [stmt, hr]; rfl⟩
    have hop : (s.consumer j).op = some p := hop
    generalize s.consumer j = l at hop
    cases l with
    | get =>
      cases hop
      obtain ⟨r, hr⟩ := h
      cases r with
      | none => simp [consumerStep, hr]
      | some x => cases hf : s.forceShutdown <;> simp [consumerStep, hr, hf]
    | _ => cases hop
  | handler =>
    cases hh : s.handler with
    | none => simp [op, hh] at hop
    | some vl =>
      obtain ⟨v, l⟩ := vl
      have hop : l.op = some p := by simpa [op, hh] using hop
      cases l with
      | free =>
        cases hop
        exact ⟨_, by simp only [stmt, hh, handlerStep, h, Option.map_some]; rfl⟩
      | _ => cases hop

/-! ## No state is stuck -/

/-- No statement but the polling of `main` is enabled, and every call waits. -/
structure Stuck (cfg : Config P C) (s : State P C) : Prop where
  stmt : ∀ t c, ¬ (t = .main ∧ s.polling = true) → s.stmt cfg c t = none
  waits : ∀ t p, s.op t = some p → (s.queue.call t).waiting cfg.arraySize s.queue.arr = true

theorem stuck_of_not_canProgress (H : cfg.system.Reachable s) (hst : s.status = none)
    (hh : s.handler = none) (h : ¬ s.CanProgress cfg) : s.Stuck cfg := by
  have hstmt (t : Tid P C) (c : Choice) (hp : ¬ (t = .main ∧ s.polling = true)) :
      s.stmt cfg c t = none := by
    cases hs : s.stmt cfg c t with
    | none => rfl
    | some s' => exact absurd (canProgress_of_stmt hst hh hs hp) h
  refine ⟨hstmt, fun t p hop => ?_⟩
  rcases Call.running_of_op (((synced_reachable H).op t).trans hop) with hr | hd
  · cases hw : (s.queue.call t).waiting cfg.arraySize s.queue.arr with
    | true => rfl
    | false => exact absurd (canProgress_of_call H hst hh hr hw) h
  · obtain ⟨s', hs⟩ := stmt_of_done H hop hd
    refine absurd ((hstmt t .ok ?_).symm.trans hs) (by simp)
    rintro ⟨rfl, hp⟩
    have hop : s.main.op = some p := hop
    unfold polling at hp
    generalize s.main = l at hop hp
    cases l with
    | abort | free => cases hp
    | _ => cases hop

namespace Stuck
variable (J : s.Stuck cfg) (H : cfg.system.Reachable s)
include J H

theorem put {x : Bytes} (hop : s.op t = some (.put x)) :
    s.queue.arr.shutdown = false ∧ s.queue.arr.empty = false := by
  obtain ⟨h1, h2⟩ := Call.waiting_put (((synced_reachable H).op t).trans hop) (J.waits t _ hop)
  exact ⟨h1, (queue_inv H).not_empty_of_full cfg.two_le h2⟩

theorem get (hop : s.op t = some .get) :
    s.queue.arr.shutdown = false ∧ s.queue.arr.empty = true :=
  Call.waiting_get (((synced_reachable H).op t).trans hop) (J.waits t _ hop)

/-- Where `array_free` waits nobody gets any more, so it waits for the queue to be emptied. -/
theorem free (hop : s.op t = some .free) :
    s.queue.arr.shutdown = true ∧ s.queue.arr.empty = false := by
  obtain ⟨h1, h2⟩ := Call.waiting_free (((synced_reachable H).op t).trans hop) (J.waits t _ hop)
    ((queue_inv H).asserts t)
  refine ⟨h1, h2.resolve_right fun h3 => ?_⟩
  have hcount : s.queue.arr.activeGetters = tally Call.counted s.queue.call :=
    Monitor.activeGetters_exact (queue_reachable H)
  have hnone : tally Call.counted s.queue.call = 0 := by
    refine tally_eq_zero.2 fun u => ?_
    cases hu : (s.queue.call u).counted with
    | false => rfl
    | true =>
      have hop' : (s.queue.call u).op = some .get := by
        generalize s.queue.call u = c at hu
        cases c <;> first | rfl | cases hu
      exact absurd (h1.symm.trans (J.get H (((synced_reachable H).op u).symm.trans hop')).1) (by simp)
  omega

/-- Nobody holds `count_mutex`, for its holder could go on. -/
theorem mutex : s.countMutex = none := by
  rw [Option.eq_none_iff_forall_ne_some]
  intro t ht
  have hl := (mutex_reachable H t).2 ht
  cases t with
  | producer i =>
    have h := J.stmt (.producer i) .ok (by simp)
    simp only [State.stmt, Option.map_eq_none_iff] at h
    have hl : (s.producer i).locked = true := hl
    generalize s.producer i = l at h hl
    cases l with
    | count | unlockCount => cases h
    | _ => cases hl
  | consumer j =>
    have h := J.stmt (.consumer j) .ok (by simp)
    simp only [State.stmt, Option.map_eq_none_iff] at h
    have hl : (s.consumer j).locked = true := hl
    have hi (x : Bytes) (item : Int)
        (hx : s.consumer j = .lockCount x item ∨ s.consumer j = .mark x item) :
        ∃ i < cfg.total, x = hostname i ∧ item = i := (accounted_reachable H).item hx
    generalize s.consumer j = l at h hl hi
    cases l with
    | mark x item =>
      obtain ⟨i, hi, -, rfl⟩ := hi x item (.inr rfl)
      simp only [consumerStep] at h
      rw [if_pos ⟨by omega, by omega⟩] at h
      cases h
    | test x =>
      simp only [consumerStep] at h
      split at h <;> cases h
    | count | unlockCount | unlockLast => cases h
    | _ => cases hl
  | main | handler => cases hl

theorem producer {i : Fin P} (hi : s.producer i ≠ .idle) :
    (∃ k x, s.producer i = .put k x) ∨ (s.producer i).over = true := by
  have h := J.stmt (.producer i) .ok (by simp)
  have hm := J.mutex H
  simp only [State.stmt, Option.map_eq_none_iff] at h
  generalize s.producer i = l at h hi ⊢
  cases l with
  | idle => exact absurd rfl hi
  | put k x => exact .inl ⟨k, x, rfl⟩
  | finished => exact .inr rfl
  | next k =>
    simp only [producerStep] at h
    split at h <;> cases h
  | lockCount k => simp [producerStep, hm] at h
  | _ => cases h

theorem consumer {j : Fin C} (hj : s.consumer j ≠ .idle) :
    s.consumer j = .get ∨ s.consumer j = .finished := by
  have h := J.stmt (.consumer j) .ok (by simp)
  have hm := J.mutex H
  have hl := mutex_reachable H (.consumer j)
  have hl : (s.consumer j).locked ≠ true := fun h0 => by cases hm.symm.trans (hl.1 h0)
  simp only [State.stmt, Option.map_eq_none_iff] at h
  generalize s.consumer j = l at h hj hl ⊢
  cases l with
  | idle => exact absurd rfl hj
  | get => exact .inl rfl
  | finished => exact .inr rfl
  | parse x =>
    simp only [consumerStep] at h
    split at h <;> cases h
  | lockCount x item => simp [consumerStep, hm] at h
  | mark | test => exact absurd rfl hl
  | _ => cases h

end Stuck

/-- When all items are counted the queue is empty. -/
theorem empty_of_counted (H : cfg.system.Reachable s) (h : cfg.total ≤ s.itemsConsumed) :
    s.queue.arr.empty = true := by
  have hc := (counted_reachable H).consumed
  have h0 := ((accounted_reachable H).nothing_left (by omega)).2
  rw [Monitor.contents, add_eq_zero, Multiset.coe_eq_zero] at h0
  exact (queue_inv H).empty_iff.2 h0.1

namespace Stuck
variable (J : s.Stuck cfg) (H : cfg.system.Reachable s) (S : s.Smooth cfg)
include J H

/-- A consumer that waits finds the queue empty, and so does one that has quit. -/
theorem empty (S : s.Smooth cfg) (hsh : s.queue.arr.shutdown = false) {j : Fin C}
    (hj : s.main.toCreateConsumer j = false) : s.queue.arr.empty = true := by
  rcases J.consumer H (S.consumer j hj) with h | h
  · exact (J.get H (t := .consumer j) (by simp [op, h, ConsumerLoc.op])).2
  · refine empty_of_counted H ((S.quits j (by rw [h]; rfl)).resolve_left ?_)
    simp [hsh]

/-- A consumer that waits carries nothing. -/
theorem carries_consumer {j : Fin C} (hj : s.consumer j = .get) :
    (s.queue.call (.consumer j)).carries = 0 := by
  have hop : s.op (.consumer j) = some .get := by simp [op, hj, ConsumerLoc.op]
  have hw := J.waits _ _ hop
  have hc := ((synced_reachable H).op (.consumer j)).trans hop
  generalize s.queue.call (.consumer j) = c at hw hc
  cases c with
  | get pc => cases pc <;> first | rfl | cases hw
  | getDone r => cases hw
  | _ => cases hc

/-- When `main` polls in vain, an item is left for a consumer. -/
theorem not_polling (S : s.Smooth cfg) (hst : s.status = none) (hm : s.main = .wait ∨ s.main = .sleep) :
    s.itemsProduced ≤ s.itemsConsumed := by
  have hu := undisturbed_reachable H S.handler (S.over hst)
  have hjn := joined_reachable H
  have hc := counted_reachable H
  have hloc : s.main.released = false ∧ (∀ i : Fin P, s.main.joinedProducer i = true) ∧
      ∀ j : Fin C, s.main.toCreateConsumer j = false := by
    rcases hm with h | h <;> simp [h, MainLoc.released, MainLoc.joinedProducer,
      MainLoc.toCreateConsumer]
  have hprod := hu.produced hc fun p => hjn.producer p (hloc.2.1 p)
  by_contra hlt
  have hsh : s.queue.arr.shutdown = false := by
    rw [← Bool.not_eq_true]
    exact fun h => absurd (hu.shutdown h) (by simp [hloc.1])
  have hget (j : Fin C) : s.consumer j = .get := by
    refine (J.consumer H (S.consumer j (hloc.2.2 j))).resolve_right fun h => ?_
    rcases S.quits j (by rw [h]; rfl) with h0 | h0
    · exact absurd (hsh.symm.trans h0) (by simp)
    · omega
  -- nothing is in the queue, in a call on it, or with a thread
  have hitems := (queue_inv H).empty_iff.1 (J.empty H S hsh (hloc.2.2 ⟨0, cfg.consumers_pos⟩))
  have hfin (p : Fin P) : ∃ i, cfg.stop p ≤ i ∧ s.producer p = .finished i := by
    have hp := hjn.producer p (hloc.2.1 p)
    have hi := hu.complete p
    generalize s.producer p = l at hp hi ⊢
    cases l with
    | finished i => exact ⟨i, hi i rfl, rfl⟩
    | _ => cases hp
  have hcalls (t : Tid P C) : (s.queue.call t).carries = 0 := by
    cases t with
    | consumer j => exact J.carries_consumer H (hget j)
    | producer p =>
      obtain ⟨i, -, hi⟩ := hfin p
      exact (synced_reachable H).carries_eq_zero (.inl (by simp [op, hi, ProducerLoc.op]))
    | main =>
      refine (synced_reachable H).carries_eq_zero (.inl ?_)
      rcases hm with h | h <;> simp [op, h, MainLoc.op]
    | handler => exact (synced_reachable H).carries_eq_zero (.inl (by simp [op, S.handler]))
  have hown (t : Tid P C) : (itemsAccount cfg).own s t = 0 := by
    cases t with
    | consumer j =>
      simp only [Account.own, itemsAccount, hget]
      rfl
    | producer p =>
      obtain ⟨i, hle, hi⟩ := hfin p
      simp only [Account.own, itemsAccount, hi]
      exact cfg.rest_eq_zero hle
    | main | handler => rfl
  have hcard := congrArg Multiset.card (accounted_reachable H).places
  have htally : tally ConsumerLoc.uncounted s.consumer = 0 := tally_eq_zero.2 fun j => by
    rw [hget j]
    rfl
  have hcons := hc.consumed
  rw [Config.strings, Multiset.card_map, Multiset.card_range, places, Account.total,
    Finset.sum_eq_zero fun t _ => hown t, Monitor.contents, hitems,
    Finset.sum_eq_zero fun t _ => hcalls t] at hcard
  simp only [itemsAccount, hu.dropped, hu.left, Multiset.coe_nil, add_zero, zero_add,
    Multiset.coe_card, List.length_map] at hcard
  omega

end Stuck

/-- `main` makes a statement where it is in no call and does not wait for a join. -/
theorem main_stmt {l' : MainLoc} {e : Effect P C} (h : mainStep cfg s .ok s.main = some (l', e)) :
    ∃ s', s.stmt cfg .ok .main = some s' ∧ s'.main = l' ∧
      s'.itemsConsumed = s.itemsConsumed + e.consumed ∧
      s'.itemsProduced = s.itemsProduced + e.produced ∧ s'.status = e.status ∧
      s'.handler = s.handler := by
  refine ⟨_, by rw [stmt, h]; rfl, rfl, ?_⟩
  simp [spawn_same, perform]

/-- When `main` sleeps though all is consumed, it is about to see that. -/
theorem canProgress_of_sleep (hst : s.status = none) (hh : s.handler = none)
    (hm : s.main = .sleep) (hle : s.itemsProduced ≤ s.itemsConsumed) : s.CanProgress cfg := by
  have hw : mainStep cfg s .ok s.main = some (.wait, {}) := by rw [hm]; rfl
  obtain ⟨s₁, h1, hm1, hc1, hp1, hs1, hh1⟩ := main_stmt hw
  have hnot : ¬ s₁.itemsConsumed < s₁.itemsProduced := by
    rw [hc1, hp1]
    simpa using hle
  have hl : mainStep cfg s₁ .ok s₁.main = some (.free, {}) := by
    rw [hm1]
    simp [mainStep, hnot]
  obtain ⟨s₂, h2, -⟩ := main_stmt hl
  have hf : (cfg.system.restrict (Futile cfg)).step s (.stmt .main .ok) s₁ :=
    ⟨⟨rfl, by simp [polling, hm]⟩, step_stmt hst hh h1⟩
  refine ⟨s₁, .single hf, .stmt .main .ok, s₂, ?_, step_stmt hs1 (hh1.trans hh) h2⟩
  rintro ⟨-, hp⟩
  simp [polling, hm1, hnot] at hp

/-- When nothing fails some thread can always go on, until the process has ended. -/
theorem Smooth.can_progress (S : s.Smooth cfg) (H : cfg.system.Reachable s)
    (hst : s.status = none) : s.CanProgress cfg := by
  by_contra hn
  have J := stuck_of_not_canProgress H hst S.handler hn
  have hu := undisturbed_reachable H S.handler (S.over hst)
  have hmain (hp : s.polling = false) : mainStep cfg s .ok s.main = none := by
    have h := J.stmt .main .ok (by simp [hp])
    simpa only [State.stmt, Option.map_eq_none_iff] using h
  cases hm : s.main with
  | createProducer i =>
    have h := hmain (by simp [polling, hm])
    simp only [hm, mainStep] at h
    split at h <;> cases h
  | createConsumer j =>
    have h := hmain (by simp [polling, hm])
    simp only [hm, mainStep] at h
    split at h <;> cases h
  | abort => exact S.main hm
  | joinProducer i =>
    -- the producer waits for room, and a consumer has none left to get
    have h := hmain (by simp [polling, hm])
    simp only [hm, mainStep] at h
    split at h
    · rename_i hi
      split at h
      · cases h
      · rename_i ho
        have hc : s.main.toCreateProducer i = false := by simp [hm, MainLoc.toCreateProducer]
        obtain ⟨k, x, hp⟩ := (J.producer H (S.producer ⟨i, hi⟩ hc)).resolve_right ho
        obtain ⟨h1, h2⟩ := J.put H (t := .producer ⟨i, hi⟩) (x := x) (by
          simp [op, hp, ProducerLoc.op])
        have h3 := J.empty H S h1 (j := ⟨0, cfg.consumers_pos⟩) (by
          simp [hm, MainLoc.toCreateConsumer])
        exact absurd (h2.symm.trans h3) (by simp)
    · cases h
  | wait =>
    have hle := J.not_polling H S hst (.inl hm)
    have hnot : ¬ s.itemsConsumed < s.itemsProduced := by omega
    have h := hmain (by simp [polling, hm, hnot])
    simp [hm, mainStep, hnot] at h
  | sleep => exact hn (canProgress_of_sleep hst S.handler hm (J.not_polling H S hst (.inr hm)))
  | free =>
    have h1 := (J.free H (t := .main) (by simp [op, hm, MainLoc.op])).2
    have h2 := empty_of_counted H (hu.counted (by rw [hm]; rfl))
    exact absurd (h1.symm.trans h2) (by simp)
  | joinConsumer j =>
    -- the consumer has been woken by `array_free`
    have h := hmain (by simp [polling, hm])
    simp only [hm, mainStep] at h
    split at h
    · rename_i hj
      split at h
      · cases h
      · rename_i ho
        have hc : s.main.toCreateConsumer j = false := by simp [hm, MainLoc.toCreateConsumer]
        have hget := (J.consumer H (S.consumer ⟨j, hj⟩ hc)).resolve_right ho
        have h1 := (J.get H (t := .consumer ⟨j, hj⟩) (by simp [op, hget, ConsumerLoc.op])).1
        exact absurd (h1.symm.trans (S.pastFree (by rw [hm]; rfl))) (by simp)
    · cases h
  | cancelAlarm =>
    have h := hmain (by simp [polling, hm])
    simp [hm, mainStep] at h
  | verify i n =>
    have h := hmain (by simp [polling, hm])
    simp only [hm, mainStep] at h
    split at h
    · split at h
      · split at h <;> cases h
      · cases h
    · cases h
  | verdict n =>
    have h := hmain (by simp [polling, hm])
    simp only [hm, mainStep] at h
    split at h <;> cases h
  | returned => exact S.returned hm hst

end State
end DnsResolver.Stress
