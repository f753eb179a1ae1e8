import DnsResolver.Lib.History
import Mathlib.Logic.Function.Basic

/-!
# Channels

A channel is a bounded FIFO that can be closed, with the requests of its callers. A caller makes a
request, the request takes effect in one step, and the caller goes on with the reply; to close takes
effect at once, but the reply waits until the channel is empty. Each step is that of one caller and
is determined by it, so a run is an order of the requests that is consistent with when they were
made and answered. -/

open Function

/-- A request to a channel. -/
inductive Channel.Request (α : Type)
  | send (x : α)
  | receive
  | close
  deriving DecidableEq

/-- Where a caller is: it asks for something, or it has its reply. -/
inductive Channel.Caller (α : Type)
  | idle
  | asks (r : Channel.Request α)
  | closing
  | sent (x : α)
  | refused (x : α)
  | received (x : α)
  | ended
  | closed
  deriving DecidableEq

structure Channel (T α : Type) where
  items : List α
  isClosed : Bool
  caller : T → Channel.Caller α

namespace Channel
variable {T α : Type}

/-- The caller has its reply. -/
def Caller.replied : Caller α → Bool
  | .idle | .asks _ | .closing => false
  | _ => true

/-- An open and empty channel. -/
def empty (T α : Type) : Channel T α := ⟨[], false, fun _ => .idle⟩

variable [DecidableEq T] (cap : Nat)

/-- The caller `t` is at `k`, and nothing else changes. -/
def setCaller (c : Channel T α) (t : T) (k : Caller α) : Channel T α :=
  { c with caller := update c.caller t k }

/-- The request of `t` takes effect. A send is refused when the channel is closed and waits while it
is full; a receive waits while the channel is open and empty. -/
def run (c : Channel T α) (t : T) : Option (Channel T α) :=
  match c.caller t with
  | .asks (.send x) =>
    if c.isClosed then some (c.setCaller t (.refused x))
    else if c.items.length < cap then
      some ({ c with items := c.items ++ [x] }.setCaller t (.sent x))
    else none
  | .asks .receive =>
    match c.items with
    | x :: xs => some ({ c with items := xs }.setCaller t (.received x))
    | [] => if c.isClosed then some (c.setCaller t .ended) else none
  | .asks .close => some ({ c with isClosed := true }.setCaller t .closing)
  | .closing => if c.items.isEmpty then some (c.setCaller t .closed) else none
  | _ => none

/-- A caller makes a request, has it take effect, or goes on with the reply. -/
inductive Act (T α : Type)
  | ask (t : T) (r : Request α)
  | run (t : T)
  | go (t : T)

def step (c : Channel T α) : Act T α → Option (Channel T α)
  | .ask t r =>
    match c.caller t with
    | .idle => some (c.setCaller t (.asks r))
    | _ => none
  | .run t => c.run cap t
  | .go t => if (c.caller t).replied then some (c.setCaller t .idle) else none

/-- Any requests of any callers, in any order. -/
def system (T α : Type) [DecidableEq T] (cap : Nat) :
    TransitionSystem (Channel T α) (Act T α) :=
  .ofFun (empty T α) (step cap)

/-- What a caller sees: that it makes a request, and what reply it goes on with. -/
inductive Event (T α : Type)
  | asked (t : T) (r : Request α)
  | went (t : T) (reply : Caller α)

def visible (c : Channel T α) : Act T α → Option (Event T α)
  | .ask t r => some (.asked t r)
  | .run _ => none
  | .go t => some (.went t (c.caller t))

/-! ## The requests, one by one -/

variable {cap} {c : Channel T α} {t : T}

theorem run_send {x : α} (ht : c.caller t = .asks (.send x)) (hc : c.isClosed = false)
    (hn : c.items.length < cap) :
    c.run cap t = some ({ c with items := c.items ++ [x] }.setCaller t (.sent x)) := by
  simp [run, ht, hc, hn]

theorem run_refuse {x : α} (ht : c.caller t = .asks (.send x)) (hc : c.isClosed = true) :
    c.run cap t = some (c.setCaller t (.refused x)) := by
  simp [run, ht, hc]

theorem run_receive {x : α} {xs : List α} (ht : c.caller t = .asks .receive)
    (hi : c.items = x :: xs) :
    c.run cap t = some ({ c with items := xs }.setCaller t (.received x)) := by
  simp [run, ht, hi]

theorem run_end (ht : c.caller t = .asks .receive) (hc : c.isClosed = true) (hi : c.items = []) :
    c.run cap t = some (c.setCaller t .ended) := by
  simp [run, ht, hc, hi]

theorem run_close (ht : c.caller t = .asks .close) :
    c.run cap t = some ({ c with isClosed := true }.setCaller t .closing) := by
  simp [run, ht]

theorem run_closed (ht : c.caller t = .closing) (hi : c.items = []) :
    c.run cap t = some (c.setCaller t .closed) := by
  simp [run, ht, hi]

/-- A request that has taken effect has its reply, but for a close. -/
theorem run_replied {c' : Channel T α} (h : c.run cap t = some c') :
    (c.caller t = .asks .close ∧ c'.caller t = .closing) ∨ (c'.caller t).replied = true := by
  revert h
  fun_cases run cap c t <;> intro h <;> cases h
  case case7.refl hc => exact .inl ⟨hc, update_self ..⟩
  all_goals
    right
    simp [setCaller, Caller.replied]

theorem run_of_replied (h : (c.caller t).replied = true) : c.run cap t = none := by
  fun_cases run cap c t <;> simp_all [Caller.replied]

end Channel
