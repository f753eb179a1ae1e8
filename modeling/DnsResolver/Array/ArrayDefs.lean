import DnsResolver.Lib.TransitionSystem
import Mathlib.Data.Fintype.Basic

/-!
# The bounded queue of `array.c`

`struct array` and the three operations on it, one statement of the C code at a time. A thread
inside a call is at a control point (`PutPc`, `GetPc`, `FreePc`, named after what it does
next); `arrayPut`, `arrayGet` and `arrayFree` give the effect of that statement on the struct,
the next control point and whom it wakes. A `Monitor` is one queue with the calls of all
threads on it.

`pthread_cond_timedwait` releases the lock and sleeps; a sleeper is woken by a signal, by its
time-out or spuriously, and then takes the lock again. A signal wakes one sleeper, if there is one.
To lock a mutex or wait on a condition that `array_free` has destroyed is undefined in C, which
ignores what the calls return; here they work as before (`ArrayState.acquire`), and what is proved
of the calls on a destroyed queue rests on that. If no wait of `array_free` on `array_emptied` ends
spuriously while there are elements, such a queue is shut down and empty, so these calls neither
store nor take an element. Both `src/array.c` and `src/turnin/array.c` have this code, with
different `ARRAY_SIZE`; the size is the parameter `N`. -/

namespace DnsResolver
open Function

/-- Return codes `ARRAY_SUCCESS` and `ARRAY_SHUTDOWN`. -/
inductive RetCode
  | success
  | shutdown
  deriving DecidableEq

/-- The condition variables of `struct array`. -/
inductive Cond
  | notEmpty
  | notFull
  | allGettersDone
  | arrayEmptied
  deriving DecidableEq

/-- What `pthread_cond_timedwait` returns: 0 or `ETIMEDOUT`. -/
inductive WaitResult
  | zero
  | timedOut
  deriving DecidableEq

/-- Control points of `array_put`. -/
inductive PutPc
  | lock
  | entry
  | guard
  | asleep
  | woken
  | recheck
  | store
  | signal
  | unlock
  | refuse
  deriving DecidableEq

/-- The two shutdown exits of `array_get`: inside the wait loop and after it. -/
inductive GetExit
  | inLoop
  | afterLoop
  deriving DecidableEq

/-- Control points of `array_get`; `x` is the element already read into `*storeString`. -/
inductive GetPc (α : Type)
  | fetchAdd
  | lock
  | guard
  | asleep
  | woken
  | recheck
  | check
  | fetchSub (e : GetExit)
  | signalDone (e : GetExit)
  | refuse (e : GetExit)
  | take
  | signalEmptied (x : α)
  | signalNotFull (x : α)
  | unlock (x : α)
  | fetchSubLast (x : α)
  deriving DecidableEq

/-- Control points of `array_free`. -/
inductive FreePc
  | lock
  | setShutdown
  | drain
  | drainWakeGetters
  | drainWakePutters
  | waitEmptied
  | asleepEmptied
  | wokenEmptied (r : WaitResult)
  | retestEmptied (r : WaitResult)
  | wakeGetters
  | wakePutters
  | load
  | waitDone
  | asleepDone
  | wokenDone (r : WaitResult)
  | retestDone (r : WaitResult)
  | unlock
  | destroy
  deriving DecidableEq

/-- Where a thread is with respect to one queue. -/
inductive Call (α : Type)
  | idle
  | put (x : α) (pc : PutPc)
  | putDone (x : α) (r : RetCode)
  | get (pc : GetPc α)
  | getDone (r : Option α)
  | free (pc : FreePc)
  | freeDone
  deriving DecidableEq

/-- The condition variable on which the thread is asleep and un-woken. -/
def Call.asleepOn {α : Type} : Call α → Option Cond
  | .put _ .asleep => some .notFull
  | .get .asleep => some .notEmpty
  | .free .asleepEmptied => some .arrayEmptied
  | .free .asleepDone => some .allGettersDone
  | _ => none

/-- The end of a sleep: the thread is to take the lock again, and the wait will return `r`.
`array_put` and `array_get` ignore the result. -/
def Call.wake {α : Type} (r : WaitResult) : Call α → Call α
  | .put x .asleep => .put x .woken
  | .get .asleep => .get .woken
  | .free .asleepEmptied => .free (.wokenEmptied r)
  | .free .asleepDone => .free (.wokenDone r)
  | c => c

/-- `struct array`. The four condition variables have no state of their own: who sleeps on one
is read off the calls. -/
structure ArrayState (T α : Type) where
  storeString : Nat → Option α
  head : Nat
  tail : Nat
  lock : Option T
  shutdown : Bool
  activeGetters : Int

/-- Whom a statement wakes. -/
inductive Wake
  | nobody
  | signal (c : Cond)
  | broadcast (c : Cond)

/-- What the history of a queue records. -/
inductive Event (α : Type)
  | store (x : α)
  | take (x : α)
  | putReturn (x : α) (r : RetCode)
  | freeLock
  | destroy

/-- The effect of one statement of a call. -/
structure Out (T α : Type) where
  arr : ArrayState T α
  call : Call α
  wake : Wake := .nobody
  event : Option (Event α) := none

section
variable {T α : Type}

/-- `array_init`: a fresh queue (the global struct is zero before). -/
def arrayInit : ArrayState T α where
  storeString _ := none
  head := 0
  tail := 0
  lock := none
  shutdown := false
  activeGetters := 0

variable (N : Nat) (t : T) (s : ArrayState T α)

/-- `(s->tail + 1) % ARRAY_SIZE == s->head` -/
def ArrayState.full : Bool := (s.tail + 1) % N == s.head

/-- `s->head == s->tail` -/
def ArrayState.empty : Bool := s.head == s.tail

/-- The number of stored elements. -/
def ArrayState.count : Nat := (s.tail + N - s.head) % N

/-- `pthread_mutex_lock`, enabled when nobody holds the lock. A destroyed mutex still locks. -/
def ArrayState.acquire (c : Call α) (event : Option (Event α) := none) : Option (Out T α) :=
  if s.lock.isNone then some { arr := { s with lock := some t }, call := c, event } else none

/-- `pthread_mutex_unlock`, or the release that goes with falling asleep. -/
def ArrayState.release (c : Call α) (event : Option (Event α) := none) : Out T α where
  arr := { s with lock := none }
  call := c
  event := event

/-- `array_put(s, x)` -/
def arrayPut (x : α) : PutPc → Option (Out T α)
  | .lock => s.acquire t (.put x .entry)
  | .entry =>
    if s.shutdown then some { arr := s, call := .put x .refuse }
    else some { arr := s, call := .put x .guard }
  | .guard =>
    if !s.shutdown && s.full N then some (s.release (.put x .asleep))
    else some { arr := s, call := .put x .store }
  | .asleep => none
  | .woken => s.acquire t (.put x .recheck)
  | .recheck =>
    if s.shutdown then some { arr := s, call := .put x .refuse }
    else some { arr := s, call := .put x .guard }
  | .store => some {
      arr := { s with storeString := update s.storeString s.tail (some x)
                      tail := (s.tail + 1) % N }
      call := .put x .signal
      event := some (.store x) }
  | .signal => some { arr := s, call := .put x .unlock, wake := .signal .notEmpty }
  | .unlock => some (s.release (.putDone x .success) (some (.putReturn x .success)))
  | .refuse => some (s.release (.putDone x .shutdown) (some (.putReturn x .shutdown)))

/-- `array_get(s, &x)`. At `take` the slot is read and `head` moves on; a NULL slot would make
the statement undefined here, and `Monitor.Inv` excludes it. -/
def arrayGet : GetPc α → Option (Out T α)
  | .fetchAdd => some {
      arr := { s with activeGetters := s.activeGetters + 1 }, call := .get .lock }
  | .lock => s.acquire t (.get .guard)
  | .guard =>
    if !s.shutdown && s.empty then some (s.release (.get .asleep))
    else some { arr := s, call := .get .check }
  | .asleep => none
  | .woken => s.acquire t (.get .recheck)
  | .recheck =>
    if s.shutdown && s.empty then some { arr := s, call := .get (.fetchSub .inLoop) }
    else some { arr := s, call := .get .guard }
  | .check =>
    if s.shutdown && s.empty then some { arr := s, call := .get (.fetchSub .afterLoop) }
    else some { arr := s, call := .get .take }
  | .fetchSub e =>
    if s.activeGetters - 1 = 0 then some {
      arr := { s with activeGetters := s.activeGetters - 1 }, call := .get (.signalDone e) }
    else some {
      arr := { s with activeGetters := s.activeGetters - 1 }, call := .get (.refuse e) }
  | .signalDone e => some { arr := s, call := .get (.refuse e), wake := .signal .allGettersDone }
  | .refuse _ => some (s.release (.getDone none))
  | .take =>
    match s.storeString s.head with
    | none => none
    | some x =>
      if (s.head + 1) % N == s.tail then some {
        arr := { s with head := (s.head + 1) % N }
        call := .get (.signalEmptied x)
        event := some (.take x) }
      else some {
        arr := { s with head := (s.head + 1) % N }
        call := .get (.signalNotFull x)
        event := some (.take x) }
  | .signalEmptied x => some {
      arr := s, call := .get (.signalNotFull x), wake := .signal .arrayEmptied }
  | .signalNotFull x => some { arr := s, call := .get (.unlock x), wake := .signal .notFull }
  | .unlock x => some (s.release (.get (.fetchSubLast x)))
  | .fetchSubLast x => some {
      arr := { s with activeGetters := s.activeGetters - 1 }, call := .getDone (some x) }

/-- `array_free(s)`. The `if` around the drain loop and the loop's own test are one test. -/
def arrayFree : FreePc → Option (Out T α)
  | .lock => s.acquire t (.free .setShutdown) (some .freeLock)
  | .setShutdown => some { arr := { s with shutdown := true }, call := .free .drain }
  | .drain =>
    if s.empty then some { arr := s, call := .free .wakeGetters }
    else some { arr := s, call := .free .drainWakeGetters }
  | .drainWakeGetters => some {
      arr := s, call := .free .drainWakePutters, wake := .broadcast .notEmpty }
  | .drainWakePutters => some {
      arr := s, call := .free .waitEmptied, wake := .broadcast .notFull }
  | .waitEmptied => some (s.release (.free .asleepEmptied))
  | .asleepEmptied => none
  | .wokenEmptied r => s.acquire t (.free (.retestEmptied r))
  | .retestEmptied r =>
    if r = .zero ∨ s.empty then some { arr := s, call := .free .wakeGetters }
    else some { arr := s, call := .free .drain }
  | .wakeGetters => some {
      arr := s, call := .free .wakePutters, wake := .broadcast .notEmpty }
  | .wakePutters => some { arr := s, call := .free .load, wake := .broadcast .notFull }
  | .load =>
    if s.activeGetters > 0 then some { arr := s, call := .free .waitDone }
    else some { arr := s, call := .free .unlock }
  | .waitDone => some (s.release (.free .asleepDone))
  | .asleepDone => none
  | .wokenDone r => s.acquire t (.free (.retestDone r))
  | .retestDone r =>
    if r = .zero then some { arr := s, call := .free .unlock }
    else some { arr := s, call := .free .load }
  | .unlock => some (s.release (.free .destroy))
  | .destroy => some { arr := s, call := .freeDone, event := some .destroy }

/-- The next statement of a call in progress. -/
def callStep : Call α → Option (Out T α)
  | .put x pc => arrayPut N t s x pc
  | .get pc => arrayGet N t s pc
  | .free pc => arrayFree t s pc
  | .idle | .putDone .. | .getDone _ | .freeDone => none

end

/-! ## One queue and the calls on it -/

/-- Ghost record of a queue: the pointers stored and taken, in lock order; the arguments of
`array_put` calls begun, returned with `ARRAY_SUCCESS` and returned with `ARRAY_SHUTDOWN`; how
often `array_free` was called, whether it has taken the lock and whether it has destroyed the
lock, and whether some call began after that; and for each thread whether its last call began
before `array_free` first took the lock. -/
structure Ghost (T α : Type) where
  accepted : List α := []
  delivered : List α := []
  offered : List α := []
  putOk : List α := []
  putNo : List α := []
  frees : Nat := 0
  freeLocked : Bool := false
  destroyed : Bool := false
  reused : Bool := false
  early : T → Bool := fun _ => false

variable {T α : Type}

def Ghost.record (g : Ghost T α) : Option (Event α) → Ghost T α
  | none => g
  | some (.store x) => { g with accepted := g.accepted ++ [x] }
  | some (.take x) => { g with delivered := g.delivered ++ [x] }
  | some (.putReturn x .success) => { g with putOk := g.putOk ++ [x] }
  | some (.putReturn x .shutdown) => { g with putNo := g.putNo ++ [x] }
  | some .freeLock => { g with freeLocked := true }
  | some .destroy => { g with destroyed := true }

/-- One queue, with the call of every thread on it. -/
structure Monitor (T α : Type) where
  arr : ArrayState T α
  call : T → Call α
  ghost : Ghost T α

/-- The operations of `array.h` a thread can call. -/
inductive Op (α : Type)
  | put (x : α)
  | get
  | free
  deriving DecidableEq

def Op.start : Op α → Call α
  | .put x => .put x .lock
  | .get => .get .fetchAdd
  | .free => .free .lock

/-- A nondeterministic choice inside a call: the next statement (`w` is the thread that a
signal wakes, if any sleeps), the time-out of a wait, or a spurious wake-up. -/
inductive Move (T : Type)
  | run (w : Option T)
  | timeout
  | spurious
  deriving DecidableEq

/-- What a call returns to its caller: a put its code, a get the element or NULL. -/
def Call.done : Call α → Bool
  | .putDone .. | .getDone _ | .freeDone => true
  | _ => false

namespace Monitor
variable [DecidableEq T] [Fintype T]

/-- The queue after `array_init`, with no call in progress. -/
def init : Monitor T α := ⟨arrayInit, fun _ => .idle, {}⟩

/-- Wakes one sleeper `w` on a signalled condition variable, or all on a broadcast. -/
def wakeUp (call : T → Call α) : Wake → Option T → Option (T → Call α)
  | .nobody, none => some call
  | .signal c, some u =>
    if (call u).asleepOn = some c then some (update call u ((call u).wake .zero)) else none
  | .signal c, none => if ∀ u, (call u).asleepOn ≠ some c then some call else none
  | .broadcast c, none =>
    some fun u => if (call u).asleepOn = some c then (call u).wake .zero else call u
  | _, _ => none

/-- Ends the sleep of `t` without a signal. -/
def wakeSelf (m : Monitor T α) (t : T) (r : WaitResult) : Option (Monitor T α) :=
  if (m.call t).asleepOn.isSome then
    some { m with call := update m.call t ((m.call t).wake r) }
  else none

/-- One step of `t` inside its call. -/
def move (N : Nat) (m : Monitor T α) (t : T) : Move T → Option (Monitor T α)
  | .run w =>
    (callStep N t m.arr (m.call t)).bind fun o =>
      (wakeUp m.call o.wake w).map fun call =>
        ⟨o.arr, update call t o.call, m.ghost.record o.event⟩
  | .timeout => m.wakeSelf t .timedOut
  | .spurious => m.wakeSelf t .zero

/-- `t` calls an operation. -/
def begin (m : Monitor T α) (t : T) (op : Op α) : Monitor T α where
  arr := m.arr
  call := update m.call t op.start
  ghost := { m.ghost with
    offered := match op with
      | .put x => m.ghost.offered ++ [x]
      | _ => m.ghost.offered
    frees := match op with
      | .free => m.ghost.frees + 1
      | _ => m.ghost.frees
    reused := m.ghost.reused || m.ghost.destroyed
    early := update m.ghost.early t !m.ghost.freeLocked }

/-- The caller goes on after a call has returned. -/
def leave (m : Monitor T α) (t : T) : Monitor T α :=
  { m with call := update m.call t .idle }

/-- A step of one queue: a thread calls an operation, moves inside it, or goes on after it. -/
inductive Act (T α : Type)
  | begin (t : T) (op : Op α)
  | move (t : T) (mv : Move T)
  | leave (t : T)
  deriving DecidableEq

def step (N : Nat) (m : Monitor T α) : Act T α → Option (Monitor T α)
  | .begin t op =>
    match m.call t with
    | .idle => some (m.begin t op)
    | _ => none
  | .move t mv => m.move N t mv
  | .leave t => if (m.call t).done then some (m.leave t) else none

/-- Any number of threads that call `array_put`, `array_get` and `array_free` on one queue, in
any order. -/
def system (T α : Type) [DecidableEq T] [Fintype T] (N : Nat) :
    TransitionSystem (Monitor T α) (Act T α) :=
  .ofFun init (step N)

/-- The accepted and not yet delivered pointers, oldest first. -/
def items (m : Monitor T α) : List α := m.ghost.accepted.drop m.ghost.delivered.length

end Monitor
end DnsResolver
