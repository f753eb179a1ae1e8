import DnsResolver.Stress.StressDefs
import DnsResolver.Array.ArrayContents

/-!
# What one step of the stress test can do

`ProducerStep`, `ConsumerStep`, `MainStep` and `HandlerStep` list the statements with the condition
under which each is taken and its effect, and `Stmt` puts the threads together. The calls that the
queue sees are the ones the threads are in (`synced_reachable`), so the queue of a reachable state
is a reachable queue (`queue_reachable`). -/

namespace DnsResolver.Stress
open Function

variable {P C : Nat} {cfg : Config P C} {s s' : State P C} {t u : Tid P C} {c : Choice}

/-- The statements of `producer`. -/
inductive ProducerStep (cfg : Config P C) (s : State P C) (p : Fin P) :
    ProducerLoc → ProducerLoc → Effect P C → Prop
  | next : i < cfg.stop p → ProducerStep cfg s p (.next i) (.alloc i) {}
  | stop : cfg.stop p ≤ i → ProducerStep cfg s p (.next i) (.finished i) {}
  | alloc : ProducerStep cfg s p (.alloc i) (.put i (hostname i)) {}
  | alloc_fail : cfg.allocFails = true → ProducerStep cfg s p (.alloc i) (.alloc i)
      { say := [.allocHostname], status := some .failure }
  | put : s.queue.call (.producer p) = .putDone y .success →
    ProducerStep cfg s p (.put i x) (.lockCount i) {}
  | put_refused : s.queue.call (.producer p) = .putDone y .shutdown →
    ProducerStep cfg s p (.put i x) (.refused i x) { drop := [x] }
  | refused : ProducerStep cfg s p (.refused i x) (.finished (i + 1)) { free := [x] }
  | lockCount : s.countMutex = none → ProducerStep cfg s p (.lockCount i) (.count i)
      { mutex := some (some (.producer p)) }
  | count : ProducerStep cfg s p (.count i) (.unlockCount i) { produced := 1 }
  | unlockCount : ProducerStep cfg s p (.unlockCount i) (.next (i + 1)) { mutex := some none }

/-- The statements of `consumer`. -/
inductive ConsumerStep (cfg : Config P C) (s : State P C) (j : Fin C) :
    ConsumerLoc → ConsumerLoc → Effect P C → Prop
  | next : ConsumerStep cfg s j .next .get {}
  | shutdown : s.queue.call (.consumer j) = .getDone none → ConsumerStep cfg s j .get .finished {}
  | forced : s.queue.call (.consumer j) = .getDone (some x) → s.forceShutdown = true →
    ConsumerStep cfg s j .get .finished { leave := [x] }
  | item : s.queue.call (.consumer j) = .getDone (some x) → s.forceShutdown = false →
    ConsumerStep cfg s j .get (.parse x) {}
  | parse : scanHostname x = some item → ConsumerStep cfg s j (.parse x) (.lockCount x item) {}
  | parse_fail : scanHostname x = none →
    ConsumerStep cfg s j (.parse x) (.freeItem x) { drop := [x] }
  | lockCount : s.countMutex = none → ConsumerStep cfg s j (.lockCount x item) (.mark x item)
      { mutex := some (some (.consumer j)) }
  | mark : (0 : Int) ≤ item → item < cfg.total →
    ConsumerStep cfg s j (.mark x item) (.count x) { mark := some item.toNat }
  | count : ConsumerStep cfg s j (.count x) (.test x) { consumed := 1 }
  | last : cfg.total ≤ s.itemsConsumed → ConsumerStep cfg s j (.test x) (.unlockLast x) {}
  | more : s.itemsConsumed < cfg.total → ConsumerStep cfg s j (.test x) (.unlockCount x) {}
  | unlockCount : ConsumerStep cfg s j (.unlockCount x) (.freeItem x) { mutex := some none }
  | freeItem : ConsumerStep cfg s j (.freeItem x) .next { free := [x] }
  | unlockLast : ConsumerStep cfg s j (.unlockLast x) (.freeLast x) { mutex := some none }
  | freeLast : ConsumerStep cfg s j (.freeLast x) .finished { free := [x] }

/-- The statements of `main`. -/
inductive MainStep (cfg : Config P C) (s : State P C) : MainLoc → MainLoc → Effect P C → Prop
  | createProducer (h : i < P) : MainStep cfg s (.createProducer i) (.createProducer (i + 1))
      { spawn := some (.producer ⟨i, h⟩) }
  | createProducer_fail : i < P → cfg.createFails = true →
    MainStep cfg s (.createProducer i) .abort { say := [.createProducer] }
  | producersCreated : P ≤ i → MainStep cfg s (.createProducer i) (.createConsumer 0) {}
  | createConsumer (h : j < C) : MainStep cfg s (.createConsumer j) (.createConsumer (j + 1))
      { spawn := some (.consumer ⟨j, h⟩) }
  | createConsumer_fail : j < C → cfg.createFails = true →
    MainStep cfg s (.createConsumer j) .abort { say := [.createConsumer] }
  | consumersCreated : C ≤ j → MainStep cfg s (.createConsumer j) (.joinProducer 0) {}
  | abort : s.queue.call .main = .freeDone →
    MainStep cfg s .abort .returned { status := some .failure }
  | joinProducer (h : i < P) : (s.producer ⟨i, h⟩).over = true →
    MainStep cfg s (.joinProducer i) (.joinProducer (i + 1)) {}
  | producersJoined : P ≤ i → MainStep cfg s (.joinProducer i) .wait {}
  | wait : s.itemsConsumed < s.itemsProduced → MainStep cfg s .wait .sleep {}
  | sleep : MainStep cfg s .sleep .wait {}
  | consumed : s.itemsProduced ≤ s.itemsConsumed → MainStep cfg s .wait .free {}
  | free : s.queue.call .main = .freeDone → MainStep cfg s .free (.joinConsumer 0) {}
  | joinConsumer (h : j < C) : s.consumer ⟨j, h⟩ = .finished →
    MainStep cfg s (.joinConsumer j) (.joinConsumer (j + 1)) {}
  | consumersJoined : C ≤ j → MainStep cfg s (.joinConsumer j) .cancelAlarm {}
  | cancelAlarm : MainStep cfg s .cancelAlarm (.verify 0 0) {}
  | tooMany : i < cfg.total → s.consumedItems i ≠ 1 → 20 ≤ errors + 1 →
    MainStep cfg s (.verify i errors) (.verdict (errors + 1))
      { say := [.error i (s.consumedItems i), .tooMany] }
  | error : i < cfg.total → s.consumedItems i ≠ 1 → errors + 1 < 20 →
    MainStep cfg s (.verify i errors) (.verify (i + 1) (errors + 1))
      { say := [.error i (s.consumedItems i)] }
  | verify : i < cfg.total → s.consumedItems i = 1 →
    MainStep cfg s (.verify i errors) (.verify (i + 1) errors) {}
  | verified : cfg.total ≤ i → MainStep cfg s (.verify i errors) (.verdict errors) {}
  | passed : MainStep cfg s (.verdict 0) .returned { say := [.passed], status := some .success }
  | failed : errors ≠ 0 → MainStep cfg s (.verdict errors) .returned
      { say := [.failed errors], status := some .failure }

/-- The statements of `timeout_handler`. -/
inductive HandlerStep (s : State P C) : HandlerLoc → HandlerLoc → Effect P C → Prop
  | free : s.queue.call .handler = .freeDone → HandlerStep s .free .setFlag {}
  | setFlag : HandlerStep s .setFlag .exit { force := true }
  | exit : HandlerStep s .exit .exit { status := some .failure }

theorem producerStep_cases {p : Fin P} {l l' : ProducerLoc} {e : Effect P C}
    (h : producerStep cfg s p c l = some (l', e)) : ProducerStep cfg s p l l' e := by
  revert h
  fun_cases producerStep cfg s p c l <;> intro h <;> cases h
  all_goals constructor <;> first | assumption | omega

theorem consumerStep_cases {j : Fin C} {l l' : ConsumerLoc} {e : Effect P C}
    (h : consumerStep cfg s j l = some (l', e)) : ConsumerStep cfg s j l l' e := by
  revert h
  fun_cases consumerStep cfg s j l <;> intro h <;> cases h
  case case10 h => exact .mark h.1 h.2
  all_goals constructor <;> first | assumption | omega | simp_all

theorem mainStep_cases {l l' : MainLoc} {e : Effect P C}
    (h : mainStep cfg s c l = some (l', e)) : MainStep cfg s l l' e := by
  revert h
  fun_cases mainStep cfg s c l <;> intro h <;> cases h
  all_goals constructor <;> first | assumption | omega

theorem handlerStep_cases {l l' : HandlerLoc} {e : Effect P C}
    (h : handlerStep s l = some (l', e)) : HandlerStep s l l' e := by
  revert h
  fun_cases handlerStep s l <;> intro h <;> cases h
  all_goals constructor <;> assumption

/-- The statements of all threads. -/
inductive Stmt (cfg : Config P C) (s : State P C) : Tid P C → State P C → Prop
  | main : MainStep cfg s s.main l e →
    Stmt cfg s .main { (s.perform .main s.main.op l.op e).spawn cfg e.spawn with main := l }
  | producer : ProducerStep cfg s i (s.producer i) l e →
    Stmt cfg s (.producer i)
      { s.perform (.producer i) (s.producer i).op l.op e with
        producer := update s.producer i l }
  | consumer : ConsumerStep cfg s j (s.consumer j) l e →
    Stmt cfg s (.consumer j)
      { s.perform (.consumer j) (s.consumer j).op l.op e with
        consumer := update s.consumer j l }
  | handler : s.handler = some (v, l) → HandlerStep s l l' e →
    Stmt cfg s .handler { s.perform .handler l.op l'.op e with handler := some (v, l') }

theorem stmt_cases (h : s.stmt cfg c t = some s') : Stmt cfg s t s' := by
  cases t with
  | main =>
    obtain ⟨⟨l, e⟩, hl, rfl⟩ := Option.map_eq_some_iff.1 h
    exact .main (mainStep_cases hl)
  | producer i =>
    obtain ⟨⟨l, e⟩, hl, rfl⟩ := Option.map_eq_some_iff.1 h
    exact .producer (producerStep_cases hl)
  | consumer j =>
    obtain ⟨⟨l, e⟩, hl, rfl⟩ := Option.map_eq_some_iff.1 h
    exact .consumer (consumerStep_cases hl)
  | handler =>
    simp only [State.stmt] at h
    split at h
    · rename_i hh
      obtain ⟨⟨l, e⟩, hl, rfl⟩ := Option.map_eq_some_iff.1 h
      exact .handler hh (handlerStep_cases hl)
    · cases h

/-- The steps of the process. -/
inductive Step (cfg : Config P C) (s : State P C) : Act P C → State P C → Prop
  | stmt : s.status = none → s.interrupted w = false → Stmt cfg s w k →
    Step cfg s (.stmt w d) k
  | call : s.status = none → s.interrupted w = false →
    s.queue.move cfg.arraySize w mv = some m → Step cfg s (.call w mv) (s.setQueue m)
  | ring : s.status = none → cfg.alarm = true → s.handler = none → s.main.armed = true →
    s.alive v = true → Step cfg s (.ring v) (s.ring v)

theorem step_cases {a : Act P C} (h : s.step cfg a = some s') : Step cfg s a s' := by
  cases a with
  | stmt t c =>
    simp only [State.step] at h
    split at h
    · cases h
    · rename_i hs
      simp only [Bool.or_eq_true, not_or, Bool.not_eq_true, Option.isSome_eq_false_iff,
        Option.isNone_iff_eq_none] at hs
      exact .stmt hs.1 hs.2 (stmt_cases h)
  | call t mv =>
    simp only [State.step] at h
    split at h
    · cases h
    · rename_i hs
      simp only [Bool.or_eq_true, not_or, Bool.not_eq_true, Option.isSome_eq_false_iff,
        Option.isNone_iff_eq_none] at hs
      obtain ⟨m, hm, rfl⟩ := Option.map_eq_some_iff.1 h
      exact .call hs.1 hs.2 hm
  | ring v =>
    simp only [State.step] at h
    split at h
    · rename_i hs
      simp only [Bool.and_eq_true, Option.isNone_iff_eq_none] at hs
      obtain ⟨⟨⟨⟨h1, h2⟩, h3⟩, h4⟩, h5⟩ := hs
      cases h
      exact .ring h1 h2 h3 h4 h5
    · cases h

/-! ## The calls are the ones of the control points -/

namespace State

variable (s) in
/-- What `pthread_create` leaves alone. -/
theorem spawn_same (x : Option (Tid P C)) :
    (s.spawn cfg x).queue = s.queue ∧ (s.spawn cfg x).handler = s.handler ∧
    (s.spawn cfg x).countMutex = s.countMutex ∧
    (s.spawn cfg x).itemsProduced = s.itemsProduced ∧
    (s.spawn cfg x).itemsConsumed = s.itemsConsumed ∧
    (s.spawn cfg x).consumedItems = s.consumedItems ∧
    (s.spawn cfg x).forceShutdown = s.forceShutdown ∧ (s.spawn cfg x).status = s.status ∧
    (s.spawn cfg x).out = s.out ∧ (s.spawn cfg x).marked = s.marked ∧
    (s.spawn cfg x).freed = s.freed ∧ (s.spawn cfg x).dropped = s.dropped ∧
    (s.spawn cfg x).left = s.left := by
  unfold spawn
  split <;> simp

theorem switch_call {m : Monitor (Tid P C) Bytes} {o o' : Option (Op Bytes)}
    (hi : o = none → m.call t = .idle) (u : Tid P C) :
    (switch m t o o').call u = if u = t then (o'.map Op.start).getD .idle else m.call u := by
  unfold switch
  by_cases hu : u = t
  · subst hu
    cases o <;> cases o' <;> simp [Monitor.begin, Monitor.leave, hi]
  · cases o <;> cases o' <;> simp [Monitor.begin, Monitor.leave, hu]

@[simp] theorem switch_arr (m : Monitor (Tid P C) Bytes) (t : Tid P C) (o o' : Option (Op Bytes)) :
    (switch m t o o').arr = m.arr := by
  cases o <;> cases o' <;> rfl

@[simp] theorem switch_items (m : Monitor (Tid P C) Bytes) (t : Tid P C) (o o' : Option (Op Bytes)) :
    (switch m t o o').items = m.items := by
  cases o <;> cases o' <;> rfl

/-- To leave a returned call and to enter the next one are steps of the queue. -/
theorem switch_leads {N : Nat} {m : Monitor (Tid P C) Bytes} {o o' : Option (Op Bytes)}
    (hd : o ≠ none → (m.call t).done = true) (hi : o = none → m.call t = .idle) :
    (Monitor.system (Tid P C) Bytes N).Leads m (switch m t o o') := by
  have hl : (Monitor.system (Tid P C) Bytes N).Leads m (if o.isSome then m.leave t else m) := by
    cases o with
    | none => exact .refl
    | some p =>
      refine .single (a := .leave t) ?_
      exact if_pos (hd (by simp))
  cases o' with
  | none => exact hl
  | some p =>
    refine hl.tail (a := .begin t p) ?_
    have hc : (if o.isSome then m.leave t else m).call t = .idle := by
      cases o with
      | none => exact hi rfl
      | some p => simp [Monitor.leave]
    change Monitor.step N _ _ = _
    rw [Monitor.step, hc]
    cases o <;> rfl

end State

open State

/-- A statement in a call is made when the call has returned. -/
theorem Stmt.done (h : Stmt cfg s t s') (ho : s.op t ≠ none) : (s.queue.call t).done = true := by
  cases h with
  | main h =>
    rw [State.op] at ho
    generalize s.main = l at h ho
    cases h with
    | abort hc | free hc =>
      rw [hc]
      rfl
    | _ => exact absurd rfl ho
  | producer h =>
    rename_i i l e
    rw [State.op] at ho
    generalize s.producer i = l at h ho
    cases h with
    | put hc | put_refused hc =>
      rw [hc]
      rfl
    | _ => exact absurd rfl ho
  | consumer h =>
    rename_i j l e
    rw [State.op] at ho
    generalize s.consumer j = l at h ho
    cases h with
    | shutdown hc | forced hc | item hc =>
      rw [hc]
      rfl
    | _ => exact absurd rfl ho
  | handler hh h =>
    rw [State.op, hh] at ho
    cases h with
    | free hc =>
      rw [hc]
      rfl
    | _ => exact absurd rfl ho

/-- A statement leaves the call the thread was in and enters the one it is then in. -/
theorem Stmt.queue_eq (h : Stmt cfg s t s') : s'.queue = switch s.queue t (s.op t) (s'.op t) := by
  cases h with
  | main h =>
    simp only [(spawn_same _ _).1]
    rfl
  | producer h =>
    simp only [State.op, update_self]
    rfl
  | consumer h =>
    simp only [State.op, update_self]
    rfl
  | handler hh h =>
    simp only [State.op, hh, Option.bind_some]
    rfl

def MainLoc.toCreateProducer (i : Nat) : MainLoc → Bool
  | .createProducer k => k ≤ i
  | _ => false

def MainLoc.toCreateConsumer (j : Nat) : MainLoc → Bool
  | .createProducer _ => true
  | .createConsumer k => k ≤ j
  | _ => false

/-- `main` creates a thread it had still to create. -/
theorem MainStep.spawn {l l' : MainLoc} {e : Effect P C} (h : MainStep cfg s l l' e) :
    (∀ i, l'.toCreateProducer i = true → l.toCreateProducer i = true) ∧
    (∀ j, l'.toCreateConsumer j = true → l.toCreateConsumer j = true) ∧
    match e.spawn with
    | some (.producer i) => l.toCreateProducer i = true ∧ l'.toCreateProducer i = false
    | some (.consumer j) => l.toCreateConsumer j = true ∧ l'.toCreateConsumer j = false
    | some _ => False
    | none => True := by
  cases h <;> simp [MainLoc.toCreateProducer, MainLoc.toCreateConsumer] <;> omega

namespace State

/-- Threads that `main` has still to create are idle. -/
structure Fresh (s : State P C) : Prop where
  producer : ∀ i : Fin P, s.main.toCreateProducer i = true → s.producer i = .idle
  consumer : ∀ j : Fin C, s.main.toCreateConsumer j = true → s.consumer j = .idle

theorem spawn_producer (H : s.Fresh) {l : MainLoc} {e : Effect P C} (h : MainStep cfg s s.main l e)
    (i : Fin P) : (s.spawn cfg e.spawn).producer i = s.producer i ∨
      s.producer i = .idle ∧ l.toCreateProducer i = false ∧
        (s.spawn cfg e.spawn).producer i = .next (cfg.start i) := by
  have hs := h.spawn.2.2
  unfold spawn
  split
  · rename_i k hk
    rw [hk] at hs
    by_cases hi : i = k
    · subst hi
      exact .inr ⟨H.producer i hs.1, hs.2, update_self ..⟩
    · exact .inl (update_of_ne hi ..)
  · exact .inl rfl
  · exact .inl rfl

theorem spawn_consumer (H : s.Fresh) {l : MainLoc} {e : Effect P C} (h : MainStep cfg s s.main l e)
    (j : Fin C) : (s.spawn cfg e.spawn).consumer j = s.consumer j ∨
      s.consumer j = .idle ∧ l.toCreateConsumer j = false ∧
        (s.spawn cfg e.spawn).consumer j = .next := by
  have hs := h.spawn.2.2
  unfold spawn
  split
  · exact .inl rfl
  · rename_i k hk
    rw [hk] at hs
    by_cases hj : j = k
    · subst hj
      exact .inr ⟨H.consumer j hs.1, hs.2, update_self ..⟩
    · exact .inl (update_of_ne hj ..)
  · exact .inl rfl

variable (s) in
@[simp] theorem perform_spawn (t : Tid P C) (o o' : Option (Op Bytes)) (e : Effect P C)
    (x : Option (Tid P C)) :
    ((s.perform t o o' e).spawn cfg x).producer = (s.spawn cfg x).producer ∧
    ((s.perform t o o' e).spawn cfg x).consumer = (s.spawn cfg x).consumer := by
  unfold spawn
  split <;> exact ⟨rfl, rfl⟩

end State

/-- Another thread stays where it is, unless it is created. -/
def Other (cfg : Config P C) (s s' : State P C) : Tid P C → Prop
  | .main => s'.main = s.main
  | .producer i => s'.producer i = s.producer i ∨
      s.producer i = .idle ∧ s'.producer i = .next (cfg.start i)
  | .consumer j => s'.consumer j = s.consumer j ∨ s.consumer j = .idle ∧ s'.consumer j = .next
  | .handler => s'.handler = s.handler

theorem Stmt.other (H : s.Fresh) (h : Stmt cfg s t s') (hu : u ≠ t) : Other cfg s s' u := by
  cases h with
  | main h =>
    cases u with
    | main => exact absurd rfl hu
    | producer i =>
      simp only [Other, perform_spawn]
      exact (spawn_producer H h i).imp_right fun h => ⟨h.1, h.2.2⟩
    | consumer j =>
      simp only [Other, perform_spawn]
      exact (spawn_consumer H h j).imp_right fun h => ⟨h.1, h.2.2⟩
    | handler => exact (spawn_same _ _).2.1
  | producer h =>
    cases u with
    | producer i => exact .inl (update_of_ne (fun hi => hu (congrArg Tid.producer hi)) ..)
    | consumer j => exact .inl rfl
    | _ => exact rfl
  | consumer h =>
    cases u with
    | producer i => exact .inl rfl
    | consumer j => exact .inl (update_of_ne (fun hj => hu (congrArg Tid.consumer hj)) ..)
    | _ => exact rfl
  | handler hh h =>
    cases u with
    | handler => exact absurd rfl hu
    | producer i => exact .inl rfl
    | consumer j => exact .inl rfl
    | main => exact rfl

/-- The statement of a thread and its effect. -/
def Does (cfg : Config P C) (s s' : State P C) (e : Effect P C) : Tid P C → Prop
  | .main => MainStep cfg s s.main s'.main e
  | .producer i => ProducerStep cfg s i (s.producer i) (s'.producer i) e
  | .consumer j => ConsumerStep cfg s j (s.consumer j) (s'.consumer j) e
  | .handler => ∃ v l l', s.handler = some (v, l) ∧ s'.handler = some (v, l') ∧ HandlerStep s l l' e

/-- What a statement does to the shared state is its effect. -/
structure Performs (s s' : State P C) (e : Effect P C) : Prop where
  countMutex : s'.countMutex = e.mutex.getD s.countMutex
  itemsProduced : s'.itemsProduced = s.itemsProduced + e.produced
  itemsConsumed : s'.itemsConsumed = s.itemsConsumed + e.consumed
  consumedItems : s'.consumedItems = setConsumed s.consumedItems e.mark
  forceShutdown : s'.forceShutdown = (s.forceShutdown || e.force)
  status : s'.status = e.status
  out : s'.out = s.out ++ e.say
  marked : s'.marked = s.marked ++ e.mark.toList
  freed : s'.freed = s.freed ++ e.free
  dropped : s'.dropped = s.dropped ++ e.drop
  left : s'.left = s.left ++ e.leave

theorem Stmt.effect (h : Stmt cfg s t s') : ∃ e, Does cfg s s' e t ∧ Performs s s' e := by
  cases h with
  | @main l e h =>
    refine ⟨e, h, ?_⟩
    constructor <;> simp only [spawn_same, perform]
  | @producer i l e h =>
    refine ⟨e, ?_, ?_⟩
    · simpa [Does] using h
    · constructor <;> rfl
  | @consumer j l e h =>
    refine ⟨e, ?_, ?_⟩
    · simpa [Does] using h
    · constructor <;> rfl
  | @handler v l l' e hh h =>
    refine ⟨e, ⟨v, l, l', hh, rfl, h⟩, ?_⟩
    constructor <;> rfl

theorem Step.main {a : Act P C} (H : s.Fresh) (h : Step cfg s a s') :
    s'.main = s.main ∨ ∃ e, MainStep cfg s s.main s'.main e := by
  cases h with
  | @stmt w _ _ _ _ h =>
    by_cases hw : Tid.main = w
    · subst hw
      obtain ⟨e, he, -⟩ := h.effect
      exact .inr ⟨e, he⟩
    · exact .inl (h.other H hw)
  | call | ring => exact .inl rfl

/-- A producer stays where it is, is created, or makes a statement. -/
theorem Step.producer (H : s.Fresh) {a : Act P C} (h : Step cfg s a s') (i : Fin P) :
    s'.producer i = s.producer i ∨
    s.producer i = .idle ∧ s'.producer i = .next (cfg.start i) ∨
    ∃ e, ProducerStep cfg s i (s.producer i) (s'.producer i) e := by
  cases h with
  | @stmt w _ _ _ _ h =>
    by_cases hw : Tid.producer i = w
    · subst hw
      obtain ⟨e, he, -⟩ := h.effect
      exact .inr (.inr ⟨e, he⟩)
    · exact (h.other H hw).imp_right .inl
  | call | ring => exact .inl rfl

theorem Step.consumer (H : s.Fresh) {a : Act P C} (h : Step cfg s a s') (j : Fin C) :
    s'.consumer j = s.consumer j ∨ s.consumer j = .idle ∧ s'.consumer j = .next ∨
    ∃ e, ConsumerStep cfg s j (s.consumer j) (s'.consumer j) e := by
  cases h with
  | @stmt w _ _ _ _ h =>
    by_cases hw : Tid.consumer j = w
    · subst hw
      obtain ⟨e, he, -⟩ := h.effect
      exact .inr (.inr ⟨e, he⟩)
    · exact (h.other H hw).imp_right .inl
  | call | ring => exact .inl rfl

theorem Stmt.op_of_ne (H : s.Fresh) (h : Stmt cfg s t s') (hu : u ≠ t) : s'.op u = s.op u := by
  have ho := h.other H hu
  cases u with
  | main => exact congrArg MainLoc.op ho
  | producer i =>
    rcases ho with ho | ⟨h1, h2⟩
    · exact congrArg ProducerLoc.op ho
    · simp only [State.op, h1, h2]
      rfl
  | consumer j =>
    rcases ho with ho | ⟨h1, h2⟩
    · exact congrArg ConsumerLoc.op ho
    · simp only [State.op, h1, h2]
      rfl
  | handler => exact congrArg (fun h => h.bind fun h => HandlerLoc.op h.2) ho

theorem Stmt.fresh (H : s.Fresh) (h : Stmt cfg s t s') : s'.Fresh := by
  cases h with
  | main h =>
    obtain ⟨h1, h2, -⟩ := h.spawn
    refine ⟨fun i hi => ?_, fun j hj => ?_⟩
    · simp only [perform_spawn]
      rcases spawn_producer H h i with he | ⟨-, hl, -⟩
      · exact he.trans (H.producer i (h1 i hi))
      · exact absurd (hl.symm.trans hi) (by simp)
    · simp only [perform_spawn]
      rcases spawn_consumer H h j with he | ⟨-, hl, -⟩
      · exact he.trans (H.consumer j (h2 j hj))
      · exact absurd (hl.symm.trans hj) (by simp)
  | @producer i l e h =>
    refine ⟨fun k hk => ?_, H.consumer⟩
    have hk' := H.producer k hk
    refine (update_of_ne (fun hi => ?_) ..).trans hk'
    rw [← hi, hk'] at h
    cases h
  | @consumer j l e h =>
    refine ⟨H.producer, fun k hk => ?_⟩
    have hk' := H.consumer k hk
    refine (update_of_ne (fun hj => ?_) ..).trans hk'
    rw [← hj, hk'] at h
    cases h
  | handler hh h => exact ⟨H.producer, H.consumer⟩

namespace State

/-- The calls that the queue sees are the ones the threads are in. -/
structure Synced (s : State P C) : Prop where
  fresh : s.Fresh
  op : ∀ t, (s.queue.call t).op = s.op t

theorem Synced.idle (H : s.Synced) (h : s.op t = none) : s.queue.call t = .idle :=
  Call.op_eq_none.1 ((H.op t).trans h)

theorem Synced.call_self (H : s.Synced) (h : Stmt cfg s t s') :
    s'.queue.call t = ((s'.op t).map Op.start).getD .idle := by
  rw [h.queue_eq, switch_call H.idle, if_pos rfl]

theorem Synced.call_of_ne (H : s.Synced) (h : Stmt cfg s t s') (hu : u ≠ t) :
    s'.queue.call u = s.queue.call u := by
  rw [h.queue_eq, switch_call H.idle, if_neg hu]

theorem Synced.stmt (H : s.Synced) (h : Stmt cfg s t s') : s'.Synced := by
  refine ⟨h.fresh H.fresh, fun u => ?_⟩
  by_cases hu : u = t
  · subst hu
    rw [H.call_self h]
    cases s'.op u <;> simp
  · rw [H.call_of_ne h hu, H.op, h.op_of_ne H.fresh hu]

theorem Synced.ring (H : s.Synced) (hh : s.handler = none) (v : Tid P C) : (s.ring v).Synced := by
  have hi : s.op .handler = none := by simp [State.op, hh]
  refine ⟨⟨H.fresh.producer, H.fresh.consumer⟩, fun u => ?_⟩
  simp only [State.ring]
  rw [switch_call fun _ => H.idle hi]
  by_cases hu : u = .handler
  · subst hu
    rfl
  · rw [if_neg hu, H.op]
    cases u <;> first | rfl | exact absurd rfl hu

theorem Synced.step {a : Act P C} (H : s.Synced) (h : Step cfg s a s') : s'.Synced := by
  cases h with
  | stmt _ _ h => exact H.stmt h
  | call _ _ h =>
    refine ⟨⟨H.fresh.producer, H.fresh.consumer⟩, fun u => ?_⟩
    refine ((Monitor.move_op h u).trans (H.op u)).trans ?_
    cases u <;> rfl
  | ring _ _ hh => exact H.ring hh _

theorem synced_reachable (H : cfg.system.Reachable s) : s.Synced := by
  induction H with
  | init h =>
    rw [h]
    refine ⟨⟨fun _ _ => rfl, fun _ _ => rfl⟩, fun u => ?_⟩
    cases u <;> rfl
  | step _ h ih => exact ih.step (step_cases h)

/-! ## The queue -/

theorem queue_simulation (cfg : Config P C) :
    TransitionSystem.Simulation cfg.system (Monitor.system (Tid P C) Bytes cfg.arraySize)
      State.queue where
  init := by
    rintro s rfl
    rfl
  step := by
    intro s a s' H h
    have hs := synced_reachable H
    cases step_cases h with
    | stmt _ _ h =>
      rw [h.queue_eq]
      exact switch_leads h.done hs.idle
    | @call w mv m _ _ h' =>
      have hm : s.queue.step cfg.arraySize (.move w mv) = some m := h'
      exact .single hm
    | @ring v _ _ hh =>
      have hi : s.op .handler = none := by simp [State.op, hh]
      change (Monitor.system (Tid P C) Bytes cfg.arraySize).Leads s.queue
        (switch s.queue .handler none (some .free))
      exact switch_leads (fun h => absurd rfl h) fun _ => hs.idle hi

theorem queue_reachable (H : cfg.system.Reachable s) :
    (Monitor.system (Tid P C) Bytes cfg.arraySize).Reachable s.queue :=
  H.simulation (queue_simulation cfg)

theorem queue_inv (H : cfg.system.Reachable s) : s.queue.Inv cfg.arraySize :=
  Monitor.inv_reachable cfg.two_le (queue_reachable H)

end State
end DnsResolver.Stress
