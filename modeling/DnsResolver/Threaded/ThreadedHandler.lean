import DnsResolver.Threaded.ThreadedShutdown

/-!
# The signal handler

`handle_signal` runs on the stack of the thread that the signal interrupts: it calls `array_free`
on the four queues, one after the other, and ends the process. Until then the interrupted thread
takes no step; it keeps the locks that it holds and stays in the call that it is in. The calls of
the handler go under the names of the outsiders of the four queues. -/

namespace DnsResolver
open Function

variable {R S : Nat} {cfg : Config R S} {s s' : State R S} {t u : Tid R S} {q : QName}

/-- The program with and without calls of `array_free` from outside its threads. -/
def Config.interruptible (cfg : Config R S) : Config R S := { cfg with outsiders := true }

def Config.uninterrupted (cfg : Config R S) : Config R S := { cfg with outsiders := false }

/-- `handle_signal` in progress: the thread on whose stack it runs and the queues it has still to
free, of which it may be in the first; and, for the proofs, the hostnames that had been put and the
strings that the requester log had been sent when the signal came. -/
structure Handler (R S : Nat) where
  victim : Tid R S
  todo : List QName
  putOk : List Str
  accepted : List Str

/-- The process: the threads, the handler once the signal has come, and whether the handler has
called `exit`. -/
structure Process (R S : Nat) where
  state : State R S
  handler : Option (Handler R S)
  exited : Bool

/-- A step of a thread; the signal; the next statement of the handler outside `array_free`, which
calls `array_free` on the next queue or comes back from it; a move inside that call; `exit`. -/
inductive ProcessAct (R S : Nat)
  | thread (a : Act R S)
  | signal (t : Tid R S)
  | free
  | move (mv : Move (Tid R S))
  | exit

theorem mem_allQueues (q : QName) : q ∈ allQueues := by cases q <;> decide

/-- The thread executes. -/
def State.running (s : State R S) : Tid R S → Bool
  | .main => !s.ended
  | .requester i => (s.requester i).loc ∉ [.idle, .failed, .finished]
  | .resolver j => (s.resolver j).loc ∉ [.idle, .finished]
  | .logger k => s.logger k ∉ [.idle, .finished]
  | .outsider _ => false

namespace Process

/-- The thread takes no steps of its own: it is interrupted, or no thread of the program. -/
def frozen (p : Process R S) : Tid R S → Bool
  | .outsider _ => true
  | t => p.handler.any fun h => h.victim = t

def step (cfg : Config R S) (p : Process R S) : ProcessAct R S → Option (Process R S)
  | .thread a =>
    if p.exited || p.frozen a.thread then none
    else (p.state.step cfg.interruptible a).map fun s => { p with state := s }
  | .signal t =>
    if p.exited || p.handler.isSome || p.state.ended || !p.state.running t then none
    else some { p with handler := some {
      victim := t
      todo := allQueues
      putOk := (p.state.queue .hostnameQueue).ghost.putOk
      accepted := (p.state.queue .requesterLogfileQueue).ghost.accepted } }
  | .free =>
    match p.handler with
    | some ⟨v, q :: qs, ok, acc⟩ =>
      if p.exited then none
      else (p.state.step cfg.interruptible (.stmt (.outsider q) .ok)).map fun s => { p with
        state := s
        handler := some ⟨v, if p.state.outsider q then qs else q :: qs, ok, acc⟩ }
    | _ => none
  | .move mv =>
    match p.handler with
    | some ⟨_, q :: _, _, _⟩ =>
      if p.exited then none
      else (p.state.step cfg.interruptible (.call q (.outsider q) mv)).map fun s =>
        { p with state := s }
    | _ => none
  | .exit =>
    match p.handler with
    | some ⟨_, [], _, _⟩ =>
      if p.exited || p.state.ended then none else some { p with exited := true }
    | _ => none

end Process

/-- `dnsthreaded` and a signal, in any interleaving. -/
def Config.process (cfg : Config R S) : TransitionSystem (Process R S) (ProcessAct R S) :=
  .ofFun ⟨.init, none, false⟩ (Process.step cfg)

/-! ## Before and after the signal -/

/-- For the threads of the program it makes no difference whether there are outsiders. -/
theorem State.step_uninterrupted (h : ∀ q, t ≠ .outsider q) {a : Act R S} (ha : a.thread = t) :
    s.step cfg.interruptible a = s.step cfg.uninterrupted a := by
  cases a with
  | call => rfl
  | stmt u c =>
    cases u with
    | outsider q => exact absurd ha.symm (h q)
    | main => rfl
    | requester i => rfl
    | resolver j => rfl
    | logger k => rfl

namespace Process
variable {p p' : Process R S} {a : ProcessAct R S}

/-- What a step of the process is for the program. -/
inductive View (cfg : Config R S) (p p' : Process R S) : ProcessAct R S → Prop
  | thread (a : Act R S) : p.frozen a.thread = false →
    p.state.step cfg.interruptible a = some p'.state → p'.handler = p.handler →
    p'.exited = false → View cfg p p' (.thread a)
  | signal (t : Tid R S) : p.state.running t = true → p.handler = none → p'.state = p.state →
    p'.handler = some ⟨t, allQueues, (p.state.queue .hostnameQueue).ghost.putOk,
      (p.state.queue .requesterLogfileQueue).ghost.accepted⟩ →
    p'.exited = false → View cfg p p' (.signal t)
  | free (q : QName) : p.handler = some ⟨v, q :: qs, ok, acc⟩ →
    p.state.step cfg.interruptible (.stmt (.outsider q) .ok) = some p'.state →
    p'.handler = some ⟨v, if p.state.outsider q then qs else q :: qs, ok, acc⟩ →
    p'.exited = false → View cfg p p' .free
  | move (q : QName) : p.handler = some ⟨v, q :: qs, ok, acc⟩ →
    p.state.step cfg.interruptible (.call q (.outsider q) mv) = some p'.state →
    p'.handler = p.handler → p'.exited = false → View cfg p p' (.move mv)
  | exit : p.handler = some ⟨v, [], ok, acc⟩ → p'.state = p.state → p'.handler = p.handler →
    p'.exited = true → View cfg p p' .exit

theorem step_cases (h : p.step cfg a = some p') : p.exited = false ∧ View cfg p p' a := by
  cases a with
  | thread a =>
    simp only [step, Option.ite_none_left_eq_some, Bool.not_eq_true, Bool.or_eq_false_iff] at h
    obtain ⟨⟨hx, hf⟩, h⟩ := h
    obtain ⟨s, hs, rfl⟩ := Option.map_eq_some_iff.1 h
    exact ⟨hx, .thread a hf hs rfl hx⟩
  | signal t =>
    simp only [step, Option.ite_none_left_eq_some, Bool.not_eq_true, Bool.or_eq_false_iff] at h
    obtain ⟨⟨⟨⟨hx, hh⟩, -⟩, hr⟩, h⟩ := h
    cases h
    exact ⟨hx, .signal t (by simpa using hr) (by simpa using hh) rfl rfl hx⟩
  | free =>
    simp only [step] at h
    split at h
    · rename_i v q qs ok acc hh
      simp only [Option.ite_none_left_eq_some, Bool.not_eq_true] at h
      obtain ⟨hx, h⟩ := h
      obtain ⟨s, hs, rfl⟩ := Option.map_eq_some_iff.1 h
      exact ⟨hx, .free q hh hs rfl hx⟩
    · cases h
  | move mv =>
    simp only [step] at h
    split at h
    · rename_i v q qs ok acc hh
      simp only [Option.ite_none_left_eq_some, Bool.not_eq_true] at h
      obtain ⟨hx, h⟩ := h
      obtain ⟨s, hs, rfl⟩ := Option.map_eq_some_iff.1 h
      exact ⟨hx, .move q hh hs rfl hx⟩
    · cases h
  | exit =>
    simp only [step] at h
    split at h
    · rename_i v ok acc hh
      simp only [Option.ite_none_left_eq_some, Bool.not_eq_true, Bool.or_eq_false_iff] at h
      obtain ⟨⟨hx, -⟩, h⟩ := h
      cases h
      exact ⟨hx, .exit hh rfl rfl rfl⟩
    · cases h

/-- A step of the process is one step of the program or none. -/
theorem View.state (h : View cfg p p' a) :
    p'.state = p.state ∨ ∃ b, p.state.step cfg.interruptible b = some p'.state := by
  cases h with
  | thread b _ hs | free q _ hs | move q _ hs => exact .inr ⟨_, hs⟩
  | signal t _ _ hs | exit _ hs => exact .inl hs

theorem state_simulation (cfg : Config R S) :
    TransitionSystem.Simulation cfg.process cfg.interruptible.system Process.state where
  init p hp := by
    rw [hp]
    exact rfl
  step p a p' _ h := by
    rcases (step_cases h).2.state with hs | ⟨b, hs⟩
    · rw [hs]
      exact .refl
    · exact .single hs

theorem state_reachable (H : cfg.process.Reachable p) :
    cfg.interruptible.system.Reachable p.state :=
  H.simulation (state_simulation cfg)

/-- Before the signal the program runs as it does without interrupts. -/
theorem uninterrupted (H : cfg.process.Reachable p) (hp : p.handler = none) :
    cfg.uninterrupted.system.Reachable p.state := by
  induction H with
  | init h =>
    rw [h]
    exact .init rfl
  | @step p a p' H h ih =>
    cases (step_cases h).2 with
    | thread b hf hs hh =>
      rw [hh] at hp
      rw [State.step_uninterrupted (t := b.thread) (fun q hq => by rw [hq] at hf; cases hf) rfl] at hs
      exact (ih hp).step hs
    | signal t _ _ _ hh | free q _ _ hh =>
      rw [hh] at hp
      cases hp
    | move q hh _ hh' | exit hh _ hh' =>
      rw [hh', hh] at hp
      cases hp

/-! ## Schedules -/

/-- The next step of a thread, or of the handler, which runs on `v` and whose waits end with their
time. -/
def nextAct (cfg : Config R S) (dns : Bytes → Option Bytes) (v : Tid R S) (p : Process R S) :
    Option (Tid R S) → ProcessAct R S
  | some t => .thread (p.state.nextAct cfg dns t)
  | none =>
    match p.handler with
    | none => .signal v
    | some ⟨_, [], _, _⟩ => .exit
    | some ⟨_, q :: _, _, _⟩ =>
      if ((p.state.queue q).call (.outsider q)).asleepOn.isSome then .move .timeout
      else match p.state.nextAct cfg dns (.outsider q) with
        | .call _ _ mv => .move mv
        | .stmt .. => .free

/-- The run in which the threads of a list and the handler take turns. -/
def schedule (cfg : Config R S) (dns : Bytes → Option Bytes) (v : Tid R S)
    (turns : List (Option (Tid R S) × Nat)) : Option (Process R S) :=
  TransitionSystem.exec (fun p t => p.step cfg (p.nextAct cfg dns v t))
    (turns.flatMap fun p => List.replicate p.2 p.1) ⟨.init, none, false⟩

theorem schedule_reachable {dns : Bytes → Option Bytes} {v : Tid R S}
    {turns : List (Option (Tid R S) × Nat)} (h : p ∈ schedule cfg dns v turns) :
    cfg.process.Reachable p :=
  TransitionSystem.reachable_choose h

end Process
end DnsResolver
