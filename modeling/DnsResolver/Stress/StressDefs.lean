import DnsResolver.Array.ArrayDefs
import DnsResolver.Text.Decimal
import Mathlib.Data.Fintype.Sum

/-!
# The stress test `test.c`

`main`, the producers, the consumers and the handler of the alarm, one statement at a time, over one
queue of `array.c`. The three numbers that the source fixes (100 producers, 10 consumers, 2000 items
for each producer) are parameters.

The model starts when `array_init` has returned. What the environment decides is a `Choice`, and
whether the alarm goes off. The handler runs on a thread that it interrupts; that thread makes no
step any more, for the handler ends in `exit`. The reports of progress and the clock are left out. A
string is its contents, since no two producers make the same one; the state also records which items
were marked, in which order, and which strings were freed, dropped or left behind. -/

namespace DnsResolver.Stress
open Function

/-- The threads, for `P` producers and `C` consumers, and the alarm's handler. -/
inductive Tid (P C : Nat)
  | main
  | producer (i : Fin P)
  | consumer (j : Fin C)
  | handler
  deriving DecidableEq

structure Config (P C : Nat) where
  arraySize : Nat
  two_le : 2 ≤ arraySize
  consumers_pos : 0 < C
  /-- `ITEMS_PER_PRODUCER` -/
  itemsPerProducer : Nat
  /-- `TOTAL_ITEMS` is an `int`. -/
  total_lt : P * itemsPerProducer < 2 ^ 31
  allocFails : Bool := false
  createFails : Bool := false
  alarm : Bool := false

/-- `TOTAL_ITEMS` -/
def Config.total {P C : Nat} (cfg : Config P C) : Nat := P * cfg.itemsPerProducer

/-- A statement goes through or fails. -/
inductive Choice
  | ok
  | fail
  deriving DecidableEq

inductive Status
  | success
  | failure
  deriving DecidableEq

/-- What the test prints but for its progress. -/
inductive Msg
  | createProducer
  | createConsumer
  | allocHostname
  | timedOut (produced consumed : Nat)
  | error (item count : Nat)
  | tooMany
  | passed
  | failed (errors : Nat)
  deriving DecidableEq

/-! ## Items as strings -/

/-- `"host-"` -/
def hostPrefix : Bytes := [104, 111, 115, 116, 45]

/-- `sprintf(hostname, "host-%d", i)` -/
def hostname (i : Nat) : Bytes := hostPrefix ++ decimal i

/-- `sscanf(hostname, "host-%d", &item_num)`, where it returns 1. -/
def scanHostname (s : Bytes) : Option Int :=
  if s.take hostPrefix.length = hostPrefix then scanInt (s.drop hostPrefix.length) else none

/-- `MAX_NAME_LENGTH` -/
def maxNameLength : Nat := 256

/-! ## Control points -/

/-- `i` is the loop variable; in `finished` it is the first item that was not offered. -/
inductive ProducerLoc
  | idle
  | next (i : Nat)
  | alloc (i : Nat)
  | put (i : Nat) (x : Bytes)
  | refused (i : Nat) (x : Bytes)
  | lockCount (i : Nat)
  | count (i : Nat)
  | unlockCount (i : Nat)
  | finished (i : Nat)
  deriving DecidableEq

inductive ConsumerLoc
  | idle
  | next
  | get
  | parse (x : Bytes)
  | lockCount (x : Bytes) (item : Int)
  | mark (x : Bytes) (item : Int)
  | count (x : Bytes)
  | test (x : Bytes)
  | unlockCount (x : Bytes)
  | freeItem (x : Bytes)
  | unlockLast (x : Bytes)
  | freeLast (x : Bytes)
  | finished
  deriving DecidableEq

inductive MainLoc
  | createProducer (i : Nat)
  | createConsumer (j : Nat)
  | abort
  | joinProducer (i : Nat)
  | wait
  | sleep
  | free
  | joinConsumer (j : Nat)
  | cancelAlarm
  | verify (i errors : Nat)
  | verdict (errors : Nat)
  | returned
  deriving DecidableEq

inductive HandlerLoc
  | free
  | setFlag
  | exit
  deriving DecidableEq

/-- The call a thread is in. -/
def ProducerLoc.op : ProducerLoc → Option (Op Bytes)
  | .put _ x => some (.put x)
  | _ => none

def ConsumerLoc.op : ConsumerLoc → Option (Op Bytes)
  | .get => some .get
  | _ => none

def MainLoc.op : MainLoc → Option (Op Bytes)
  | .abort | .free => some .free
  | _ => none

def HandlerLoc.op : HandlerLoc → Option (Op Bytes)
  | .free => some .free
  | _ => none

/-- The thread function has returned. -/
def ProducerLoc.over : ProducerLoc → Bool
  | .finished _ => true
  | _ => false

/-- The alarm has not been cancelled. -/
def MainLoc.armed : MainLoc → Bool
  | .verify .. | .verdict _ | .returned => false
  | _ => true

/-! ## States -/

structure State (P C : Nat) where
  queue : Monitor (Tid P C) Bytes
  main : MainLoc
  producer : Fin P → ProducerLoc
  consumer : Fin C → ConsumerLoc
  /-- The thread that the alarm has interrupted, and where its handler is. -/
  handler : Option (Tid P C × HandlerLoc)
  countMutex : Option (Tid P C)
  itemsProduced : Nat
  itemsConsumed : Nat
  consumedItems : Nat → Nat
  forceShutdown : Bool
  status : Option Status
  out : List Msg
  marked : List Nat
  freed : List Bytes
  dropped : List Bytes
  left : List Bytes

/-- What one statement does besides moving its thread on. -/
structure Effect (P C : Nat) where
  spawn : Option (Tid P C) := none
  mutex : Option (Option (Tid P C)) := none
  produced : Nat := 0
  consumed : Nat := 0
  mark : Option Nat := none
  force : Bool := false
  status : Option Status := none
  say : List Msg := []
  free : List Bytes := []
  drop : List Bytes := []
  leave : List Bytes := []

variable {P C : Nat}

/-! ## Statements -/

section
variable (cfg : Config P C) (s : State P C)

/-- `start` of `producer` -/
def Config.start (i : Fin P) : Nat := i * cfg.itemsPerProducer

/-- `end` of `producer` -/
def Config.stop (i : Fin P) : Nat := cfg.start i + cfg.itemsPerProducer

/-- `producer` -/
def producerStep (p : Fin P) (c : Choice) : ProducerLoc → Option (ProducerLoc × Effect P C)
  | .next i => if i < cfg.stop p then some (.alloc i, {}) else some (.finished i, {})
  | .alloc i =>
    match c with
    | .ok => some (.put i (hostname i), {})
    | .fail =>
      if cfg.allocFails then some (.alloc i, { say := [.allocHostname], status := some .failure })
      else none
  | .put i x =>
    match s.queue.call (.producer p) with
    | .putDone _ .success => some (.lockCount i, {})
    | .putDone _ .shutdown => some (.refused i x, { drop := [x] })
    | _ => none
  | .refused i x => some (.finished (i + 1), { free := [x] })
  | .lockCount i =>
    if s.countMutex = none then some (.count i, { mutex := some (some (.producer p)) }) else none
  | .count i => some (.unlockCount i, { produced := 1 })
  | .unlockCount i => some (.next (i + 1), { mutex := some none })
  | .idle | .finished _ => none

/-- `consumer`. An index outside `consumed_items` would be undefined; `State.Items` excludes it. -/
def consumerStep (j : Fin C) : ConsumerLoc → Option (ConsumerLoc × Effect P C)
  | .next => some (.get, {})
  | .get =>
    match s.queue.call (.consumer j) with
    | .getDone none => some (.finished, {})
    | .getDone (some x) =>
      if s.forceShutdown then some (.finished, { leave := [x] }) else some (.parse x, {})
    | _ => none
  | .parse x =>
    match scanHostname x with
    | some item => some (.lockCount x item, {})
    | none => some (.freeItem x, { drop := [x] })
  | .lockCount x item =>
    if s.countMutex = none then some (.mark x item, { mutex := some (some (.consumer j)) }) else none
  | .mark x item =>
    if 0 ≤ item ∧ item < cfg.total then some (.count x, { mark := some item.toNat }) else none
  | .count x => some (.test x, { consumed := 1 })
  | .test x =>
    if s.itemsConsumed ≥ cfg.total then some (.unlockLast x, {}) else some (.unlockCount x, {})
  | .unlockCount x => some (.freeItem x, { mutex := some none })
  | .freeItem x => some (.next, { free := [x] })
  | .unlockLast x => some (.freeLast x, { mutex := some none })
  | .freeLast x => some (.finished, { free := [x] })
  | .idle | .finished => none

/-- `main` after `array_init` -/
def mainStep (c : Choice) : MainLoc → Option (MainLoc × Effect P C)
  | .createProducer i =>
    if h : i < P then
      match c with
      | .ok => some (.createProducer (i + 1), { spawn := some (.producer ⟨i, h⟩) })
      | .fail => if cfg.createFails then some (.abort, { say := [.createProducer] }) else none
    else some (.createConsumer 0, {})
  | .createConsumer j =>
    if h : j < C then
      match c with
      | .ok => some (.createConsumer (j + 1), { spawn := some (.consumer ⟨j, h⟩) })
      | .fail => if cfg.createFails then some (.abort, { say := [.createConsumer] }) else none
    else some (.joinProducer 0, {})
  | .abort =>
    match s.queue.call .main with
    | .freeDone => some (.returned, { status := some .failure })
    | _ => none
  | .joinProducer i =>
    if h : i < P then
      if (s.producer ⟨i, h⟩).over then some (.joinProducer (i + 1), {}) else none
    else some (.wait, {})
  | .wait => if s.itemsConsumed < s.itemsProduced then some (.sleep, {}) else some (.free, {})
  | .sleep => some (.wait, {})
  | .free =>
    match s.queue.call .main with
    | .freeDone => some (.joinConsumer 0, {})
    | _ => none
  | .joinConsumer j =>
    if h : j < C then
      if s.consumer ⟨j, h⟩ = .finished then some (.joinConsumer (j + 1), {}) else none
    else some (.cancelAlarm, {})
  | .cancelAlarm => some (.verify 0 0, {})
  | .verify i errors =>
    if i < cfg.total then
      if s.consumedItems i ≠ 1 then
        if errors + 1 ≥ 20 then
          some (.verdict (errors + 1), { say := [.error i (s.consumedItems i), .tooMany] })
        else some (.verify (i + 1) (errors + 1), { say := [.error i (s.consumedItems i)] })
      else some (.verify (i + 1) errors, {})
    else some (.verdict errors, {})
  | .verdict errors =>
    if errors = 0 then some (.returned, { say := [.passed], status := some .success })
    else some (.returned, { say := [.failed errors], status := some .failure })
  | .returned => none

/-- `timeout_handler` -/
def handlerStep : HandlerLoc → Option (HandlerLoc × Effect P C)
  | .free =>
    match s.queue.call .handler with
    | .freeDone => some (.setFlag, {})
    | _ => none
  | .setFlag => some (.exit, { force := true })
  | .exit => some (.exit, { status := some .failure })

end

/-! ## The step of the program -/

namespace State
variable (s : State P C)

/-- The call a thread is in. -/
def op : Tid P C → Option (Op Bytes)
  | .main => s.main.op
  | .producer i => (s.producer i).op
  | .consumer j => (s.consumer j).op
  | .handler => s.handler.bind fun h => h.2.op

/-- A thread goes on after the call it was in and enters the next one, if any. -/
def switch (m : Monitor (Tid P C) Bytes) (t : Tid P C) (o o' : Option (Op Bytes)) :
    Monitor (Tid P C) Bytes :=
  let m := if o.isSome then m.leave t else m
  match o' with
  | some p => m.begin t p
  | none => m

/-- `consumed_items[item_num] = 1` -/
def setConsumed (items : Nat → Nat) : Option Nat → Nat → Nat
  | some i => update items i 1
  | none => items

/-- The shared effects of a statement of `t` that takes it from the call `o` to the call `o'`. -/
def perform (t : Tid P C) (o o' : Option (Op Bytes)) (e : Effect P C) : State P C :=
  { s with
    queue := switch s.queue t o o'
    countMutex := e.mutex.getD s.countMutex
    itemsProduced := s.itemsProduced + e.produced
    itemsConsumed := s.itemsConsumed + e.consumed
    consumedItems := setConsumed s.consumedItems e.mark
    forceShutdown := s.forceShutdown || e.force
    status := e.status
    out := s.out ++ e.say
    marked := s.marked ++ e.mark.toList
    freed := s.freed ++ e.free
    dropped := s.dropped ++ e.drop
    left := s.left ++ e.leave }

/-- `pthread_create` -/
def spawn (cfg : Config P C) : Option (Tid P C) → State P C
  | some (.producer i) => { s with producer := update s.producer i (.next (cfg.start i)) }
  | some (.consumer j) => { s with consumer := update s.consumer j .next }
  | _ => s

/-- The next statement of `t` outside the queue. -/
def stmt (cfg : Config P C) (c : Choice) : Tid P C → Option (State P C)
  | .main => (mainStep cfg s c s.main).map fun (l, e) =>
      { (s.perform .main s.main.op l.op e).spawn cfg e.spawn with main := l }
  | .producer i => (producerStep cfg s i c (s.producer i)).map fun (l, e) =>
      { s.perform (.producer i) (s.producer i).op l.op e with
        producer := update s.producer i l }
  | .consumer j => (consumerStep cfg s j (s.consumer j)).map fun (l, e) =>
      { s.perform (.consumer j) (s.consumer j).op l.op e with
        consumer := update s.consumer j l }
  | .handler =>
    match s.handler with
    | some (v, l) => (handlerStep s l).map fun (l', e) =>
        { s.perform .handler l.op l'.op e with handler := some (v, l') }
    | none => none

/-- The thread has been created and its function has not returned. -/
def alive : Tid P C → Bool
  | .main => true
  | .producer i => s.producer i ≠ .idle && !(s.producer i).over
  | .consumer j => s.consumer j ≠ .idle && s.consumer j ≠ .finished
  | .handler => false

/-- The handler runs on the thread. -/
def interrupted (t : Tid P C) : Bool :=
  match s.handler with
  | some (v, _) => v == t
  | none => false

/-- The alarm goes off on the thread `v`: `timeout_handler` is entered there. -/
def ring (v : Tid P C) : State P C :=
  { s with
    queue := switch s.queue .handler none (some .free)
    handler := some (v, .free)
    out := s.out ++ [.timedOut s.itemsProduced s.itemsConsumed] }

end State

/-- A statement of a thread outside the queue, a move inside the call it is in, or the alarm. -/
inductive Act (P C : Nat)
  | stmt (t : Tid P C) (c : Choice)
  | call (t : Tid P C) (mv : Move (Tid P C))
  | ring (v : Tid P C)

/-- The threads by kind. -/
def Tid.equiv (P C : Nat) : Unit ⊕ Fin P ⊕ Fin C ⊕ Unit ≃ Tid P C where
  toFun
    | .inl _ => .main
    | .inr (.inl i) => .producer i
    | .inr (.inr (.inl j)) => .consumer j
    | .inr (.inr (.inr _)) => .handler
  invFun
    | .main => .inl ()
    | .producer i => .inr (.inl i)
    | .consumer j => .inr (.inr (.inl j))
    | .handler => .inr (.inr (.inr ()))
  left_inv x := by rcases x with _ | _ | _ | _ <;> rfl
  right_inv t := by cases t <;> rfl

instance : Fintype (Tid P C) := .ofEquiv _ (Tid.equiv P C)

namespace State

def setQueue (s : State P C) (m : Monitor (Tid P C) Bytes) : State P C := { s with queue := m }

/-- A step of the process, while it has not ended. -/
def step (cfg : Config P C) (s : State P C) : Act P C → Option (State P C)
  | .stmt t c => if s.status.isSome || s.interrupted t then none else s.stmt cfg c t
  | .call t mv =>
    if s.status.isSome || s.interrupted t then none
    else (s.queue.move cfg.arraySize t mv).map s.setQueue
  | .ring v =>
    if s.status.isNone && cfg.alarm && s.handler.isNone && s.main.armed && s.alive v then
      some (s.ring v)
    else none

/-- The queue is initialised and `main` is about to create the first producer. -/
def init : State P C where
  queue := .init
  main := .createProducer 0
  producer _ := .idle
  consumer _ := .idle
  handler := none
  countMutex := none
  itemsProduced := 0
  itemsConsumed := 0
  consumedItems _ := 0
  forceShutdown := false
  status := none
  out := []
  marked := []
  freed := []
  dropped := []
  left := []

end State

/-- The stress test, in any interleaving. -/
def Config.system (cfg : Config P C) : TransitionSystem (State P C) (Act P C) :=
  .ofFun .init (State.step cfg)

/-! ## Schedules -/

/-- The threads in a fixed order. -/
def Tid.all (P C : Nat) : List (Tid P C) :=
  .main :: (List.finRange P).map .producer ++ (List.finRange C).map .consumer ++ [.handler]

namespace State

/-- The first thread asleep on a condition variable. -/
def sleeper (s : State P C) (v : Cond) : Option (Tid P C) :=
  (Tid.all P C).find? fun u => (s.queue.call u).asleepOn = some v

/-- The next step of a thread when nothing fails; a signal wakes the first sleeper. -/
def nextAct (cfg : Config P C) (s : State P C) (t : Tid P C) : Act P C :=
  match callStep cfg.arraySize t s.queue.arr (s.queue.call t) with
  | some ⟨_, _, .signal v, _⟩ => .call t (.run (s.sleeper v))
  | some _ => .call t (.run none)
  | none => .stmt t .ok

/-- The run in which the threads of a list, each with a number of steps, take turns. -/
def schedule (cfg : Config P C) (turns : List (Tid P C × Nat)) : Option (State P C) :=
  TransitionSystem.exec (fun s t => s.step cfg (s.nextAct cfg t))
    (turns.flatMap fun p => List.replicate p.2 p.1) .init

theorem schedule_reachable {cfg : Config P C} {turns : List (Tid P C × Nat)} {s : State P C}
    (h : s ∈ schedule cfg turns) : cfg.system.Reachable s :=
  TransitionSystem.reachable_choose h

end State

/-- Two producers of one item each, and a queue for one string. -/
def sample : Config 2 1 where
  arraySize := 2
  two_le := le_rfl
  consumers_pos := Nat.one_pos
  itemsPerProducer := 1
  total_lt := by decide

/-- The second producer finds the queue full; the consumer takes both items. -/
def sampleRun (p p' : Fin 2) (c : Fin 1) : List (Tid 2 1 × Nat) :=
  [(.main, 1), (.producer p, 13), (.main, 1), (.producer p', 5), (.main, 2), (.consumer c, 9),
    (.producer p', 11), (.consumer c, 27), (.main, 21)]

end DnsResolver.Stress
