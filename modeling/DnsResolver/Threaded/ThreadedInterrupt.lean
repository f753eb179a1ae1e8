import DnsResolver.Threaded.ThreadedStatistics
import DnsResolver.Threaded.ThreadedHandler
import DnsResolver.Threaded.ThreadedLastReader
import DnsResolver.Array.ArrayDrain

/-!
# What an interrupt keeps

`handle_signal` drains the queues in a fixed order, and ends the process when they are empty. What
was put on `hostname_queue` before the signal is then in `resolver_logfile_queue` or past it,
unless a resolver still had it in its hands when that queue was shut down (`underway_step`); and
what a log thread has in its hands when the process ends is not written. Where neither happens the
accepted work is kept (`interrupt_keeps`). -/

namespace DnsResolver
open Function

variable {R S : Nat} {cfg : Config R S} {s s' : State R S} {t u : Tid R S} {q : QName}
  {l : Line}

namespace Monitor
variable {T α : Type} [DecidableEq T] [Fintype T] {m m' : Monitor T α} {N : Nat} {t : T}

theorem move_setShutdown {mv : Move T} (h : m.move N t mv = some m')
    (hs : m.arr.shutdown = false) (hs' : m'.arr.shutdown = true) :
    m.call t = .free .setShutdown := by
  rcases move_cases h with ⟨o, w, call', hst, -, -, rfl⟩ | ⟨r, v, -, -, -, rfl⟩
  · generalize m.call t = c at hst
    cases hst <;> first | rfl | exact absurd (hs.symm.trans hs') nofun
  · exact absurd (hs.symm.trans hs') nofun

/-- A put that has returned `ARRAY_SUCCESS` was accepted. -/
theorem putOk_subset (H : (system T α N).Reachable m) : m.ghost.putOk ⊆ m.ghost.accepted := by
  classical
  intro x hx
  have h := (account_reachable x H).accepted
  have := List.count_pos_iff.2 hx
  exact List.count_pos_iff.1 (by omega)

end Monitor

namespace State

/-- The lines that a resolver has got and whose records it has not yet stored. -/
def resolving (s : State R S) (j : Fin S) : List Line :=
  s.inCall .resolverLog (.resolver j) ++ s.ownLines .resolverLog (.resolver j)

/-- The hostname waits, it is being resolved, or its record has been accepted. -/
def Underway (s : State R S) (l : Line) : Prop :=
  l ∈ linesIn (s.queue .hostnameQueue).items ∨ (∃ j, l ∈ s.resolving j) ∨
    l ∈ s.acceptedLines .resolverLogfileQueue

/-- The line whose record cannot be allocated in the step. -/
def recordLost (s : State R S) : Act R S → List Line
  | .stmt (.resolver j) .fail =>
    match (s.resolver j).loc with
    | .format h _ => h.src.lines
    | _ => []
  | _ => []

theorem resolving_of_ne (hf : s.Fresh) (h : Stmt cfg s t s') {j : Fin S} (hj : .resolver j ≠ t) :
    s'.resolving j = s.resolving j := by
  rw [resolving, inCall_of_ne hf h _ hj, ownLines_of_ne hf h _ hj, resolving]

end State

theorem resolverStep_format {j : Fin S} {c : Choice} {h : Str} {ip : Option Bytes}
    {l' : ResolverLoc} {e : Effect R S} (hs : resolverStep cfg s j c (.format h ip) = some (l', e)) :
    c = .fail ∨ e.drop = none := by
  cases c with
  | ok =>
    cases hs
    exact .inr rfl
  | fail => exact .inl rfl
  | answer ip => cases hs

namespace State

/-- A resolver loses a line when it cannot allocate its record, or its put is refused. -/
theorem resolving_stmt (H : cfg.system.Reachable s) {j : Fin S} {c : Choice}
    (h : s.stmt cfg c (.resolver j) = some s') (hl : l ∈ s.resolving j) :
    l ∈ s'.resolving j ∨ l ∈ s.recordLost (.stmt (.resolver j) c) ∨
      (s.queue .resolverLogfileQueue).arr.shutdown = true := by
  have hs := synced_reachable H
  have hcall := hs.inCall_self (stmt_cases h) .resolverLog
  obtain ⟨⟨l', e⟩, hstep, rfl⟩ := Option.map_eq_some_iff.1 h
  have hst := resolverStep_cases hstep
  have hlines := hst.lines ((wellTyped_reachable H).resolver j) (hs.inCall _) .resolverLog
  have hl' : l ∈ s.handedBack .resolverLog (.resolver j) (s.resolver j).loc.op ++
      (s.resolver j).loc.holds .resolverLog := by
    simpa [resolving, inCall, op, ownLines, inHand, unread] using hl
  rw [hlines, List.mem_append, List.mem_append] at hl'
  rcases hl' with (h1 | h1) | h1
  · left
    rw [resolving, hcall]
    exact List.mem_append_left _ (by simpa [op, setResolver_self] using h1)
  · right
    generalize hloc : (s.resolver j).loc = loc at hst hstep
    cases hst with
    | format_fail =>
      rcases resolverStep_format hstep with rfl | h0
      · left
        simpa [recordLost, hloc, Effect.lost] using h1
      · cases h0
    | putRecord_refused hc =>
      have ha := (queue_inv H .resolverLogfileQueue).asserts (.resolver j)
      rw [hc] at ha
      exact .inr ha
    | _ => cases h1
  · left
    refine List.mem_append_right _ ?_
    simpa [ownLines, inHand, unread, setResolver_self] using h1

theorem underway_stmt (H : cfg.system.Reachable s) {c : Choice} (h : s.stmt cfg c t = some s')
    (hl : s.Underway l) :
    s'.Underway l ∨ ∃ j, l ∈ s.resolving j ∧ (l ∈ s.recordLost (.stmt t c) ∨
      (s.queue .resolverLogfileQueue).arr.shutdown = true) := by
  have hst := stmt_cases h
  rcases hl with hl | ⟨j, hl⟩ | hl
  · left
    left
    rwa [hst.queue_eq, switch_items]
  · by_cases hj : .resolver j = t
    · subst hj
      rcases resolving_stmt H h hl with h1 | h1
      · exact .inl (.inr (.inl ⟨j, h1⟩))
      · exact .inr ⟨j, hl, h1⟩
    · exact .inl (.inr (.inl ⟨j, by rwa [resolving_of_ne (synced_reachable H).fresh hst hj]⟩))
  · left
    right
    right
    rwa [(stmt_history hst _).1]

theorem resolving_call {m : Monitor (Tid R S) Str} {j : Fin S}
    (h : (m.call (.resolver j)).holds = ((s.queue q).call (.resolver j)).holds) :
    (s.setQueue q m).resolving j = s.resolving j := by
  rw [resolving, inCall_congr h, resolving]
  rfl

/-- A move inside a call loses nothing. -/
theorem underway_call (H : cfg.system.Reachable s) {mv : Move (Tid R S)}
    {m : Monitor (Tid R S) Str} (h : (s.queue q).move cfg.arraySize t mv = some m)
    (hl : s.Underway l) : (s.setQueue q m).Underway l := by
  have hs := synced_reachable H
  have hi := queue_inv H q
  have hitems : q ≠ .hostnameQueue → ((s.setQueue q m).queue .hostnameQueue).items =
      (s.queue .hostnameQueue).items := fun hq => by rw [setQueue_of_ne m (Ne.symm hq)]
  have hacc : ∀ q', l ∈ s.acceptedLines q' → l ∈ (s.setQueue q m).acceptedLines q' := by
    intro q' hl
    by_cases hq : q' = q
    · subst hq
      rw [acceptedLines, setQueue_self]
      cases hi.moveView h with
      | stay _ ha | deliver _ _ _ _ _ _ ha => rwa [ha]
      | accept _ _ _ _ _ _ ha =>
        rw [ha, linesIn_append]
        exact List.mem_append_left _ hl
    · rwa [acceptedLines_of_ne m hq]
  rcases hl with hl | ⟨j, hl⟩ | hl
  · by_cases hq : q = .hostnameQueue
    · subst hq
      cases hi.moveView h with
      | stay _ ha hd =>
        left
        rw [setQueue_self, Monitor.items, ha, hd]
        exact hl
      | accept x _ _ _ _ _ ha hd =>
        left
        rw [setQueue_self, hi.items_store ha hd, linesIn_append]
        exact List.mem_append_left _ hl
      | deliver x hc hx _ hd =>
        rw [hd, linesIn_cons, List.mem_append] at hl
        rcases hl with hl | hl
        · -- the resolver has it now
          have hop := hs.op .hostnameQueue t
          rw [hc] at hop
          have hop := opAt_eq_some.1 hop.symm
          obtain ⟨j, rfl, -⟩ := op_get hop
          refine .inr (.inl ⟨j, List.mem_append_left _ ?_⟩)
          rw [inCall_of_op ((setQueue_op s _ m _).trans hop), setQueue_self, hx]
          simpa [Logger.path] using hl
        · left
          rwa [setQueue_self]
    · exact .inl (by rwa [hitems hq])
  · cases hi.moveView h with
    | stay _ _ _ hh => exact .inr (.inl ⟨j, by rwa [resolving_call (hh _).1]⟩)
    | accept x hc hc' _ _ _ ha _ hh =>
      by_cases hj : .resolver j = t
      · subst hj
        have hop := hs.op q (.resolver j)
        rw [hc] at hop
        have hop := opAt_eq_some.1 hop.symm
        obtain rfl : q = .resolverLogfileQueue := by
          have hput := op_put hop
          cases q with
          | resolverLogfileQueue => rfl
          | filenameQueue => cases hput.1
          | hostnameQueue | requesterLogfileQueue =>
            obtain ⟨i, hi, -⟩ := hput
            cases hi
        rw [resolving, List.mem_append, inCall_of_op hop, hc] at hl
        rcases hl with hl | hl
        · right
          right
          rw [acceptedLines, setQueue_self, ha, linesIn_append, linesIn_singleton]
          exact List.mem_append_right _ (by
            simpa [Logger.path, Call.holds, PutPc.stored] using hl)
        · exact .inr (.inl ⟨j, List.mem_append_right _ hl⟩)
      · exact .inr (.inl ⟨j, by rwa [resolving_call (hh _ hj).1]⟩)
    | deliver x hc _ _ _ _ _ _ hh =>
      by_cases hj : .resolver j = t
      · subst hj
        have hop := hs.op q (.resolver j)
        rw [hc] at hop
        have hop := opAt_eq_some.1 hop.symm
        rw [resolving, List.mem_append, inCall_of_op hop, hc] at hl
        rcases hl with hl | hl
        · simp [Call.holds, GetPc.got] at hl
        · exact .inr (.inl ⟨j, List.mem_append_right _ hl⟩)
      · exact .inr (.inl ⟨j, by rwa [resolving_call (hh _ hj).1]⟩)
  · exact .inr (.inr (hacc _ hl))

/-- A line is underway until a resolver loses it. -/
theorem underway_step (H : cfg.system.Reachable s) {a : Act R S} (h : s.step cfg a = some s')
    (hl : s.Underway l) :
    s'.Underway l ∨ ∃ j, l ∈ s.resolving j ∧ (l ∈ s.recordLost a ∨
      (s.queue .resolverLogfileQueue).arr.shutdown = true) := by
  have he := (step_cases h).1
  cases a with
  | stmt t c =>
    simp only [step, he] at h
    exact underway_stmt H h hl
  | call q t mv =>
    simp only [step, he] at h
    obtain ⟨m, hm, rfl⟩ := Option.map_eq_some_iff.1 h
    exact .inl (underway_call H hm hl)

theorem over_resolving {j : Fin S} (h : (s.resolver j).loc.over = true) :
    s.resolving j = [] := by
  obtain ⟨h1, h2⟩ := ResolverLoc.over_lines h .resolverLog
  rw [resolving, inCall, op, h2, ownLines, inHand, h1]
  rfl

/-- A resolver whose queue is drained gets no more lines. -/
theorem resolving_step (H : cfg.system.Reachable s) {a : Act R S} (h : s.step cfg a = some s')
    (hd : (s.queue .hostnameQueue).Drained) {j : Fin S} (hl : l ∈ s'.resolving j) :
    l ∈ s.resolving j := by
  have hs := synced_reachable H
  rcases (step_cases h).2 with ⟨t, c, -, h'⟩ | ⟨q, t, mv, m, -, h', rfl⟩
  · by_cases hj : .resolver j = t
    · subst hj
      have hcall := hs.inCall_self h' .resolverLog
      cases h' with
      | @resolver _ l' e hst =>
        have hlines := hst.lines ((wellTyped_reachable H).resolver j) (hs.inCall _) .resolverLog
        have hl' : l ∈ s.handedBack .resolverLog (.resolver j) (s.resolver j).loc.op ++
            (s.resolver j).loc.holds .resolverLog := by
          rw [hlines]
          rw [resolving, hcall, List.mem_append] at hl
          rcases hl with hl | hl
          · exact List.mem_append_left _ (List.mem_append_left _ (by
              simpa [op, setResolver_self] using hl))
          · exact List.mem_append_right _ (by
              simpa [ownLines, inHand, unread, setResolver_self] using hl)
        simpa [resolving, inCall, op, ownLines, inHand, unread] using hl'
    · rwa [← resolving_of_ne hs.fresh h' hj]
  · cases (queue_inv H q).moveView h' with
    | stay _ _ _ hh => rwa [resolving_call (hh _).1] at hl
    | accept x hc hc' _ _ _ ha _ hh =>
      by_cases hj : .resolver j = t
      · subst hj
        have hop := hs.op q (.resolver j)
        rw [hc] at hop
        have hop := opAt_eq_some.1 hop.symm
        rw [resolving, List.mem_append, inCall_of_op ((setQueue_op s q m _).trans hop),
          setQueue_self, hc'] at hl
        rcases hl with hl | hl
        · simp [Call.holds, PutPc.stored] at hl
        · exact List.mem_append_right _ hl
      · rwa [resolving_call (hh _ hj).1] at hl
    | deliver x hc _ _ hx _ _ _ hh =>
      by_cases hj : .resolver j = t
      · subst hj
        have hop := hs.op q (.resolver j)
        rw [hc] at hop
        have hget := op_get (opAt_eq_some.1 hop.symm)
        cases q with
        | hostnameQueue => exact absurd (hd.2.symm.trans hx) (by simp)
        | filenameQueue =>
          obtain ⟨i, hi, -⟩ := hget
          cases hi
        | _ => cases hget.1
      · rwa [resolving_call (hh _ hj).1] at hl

theorem over_step {a : Act R S} (h : s.step cfg a = some s') (ht : a.thread ≠ .main)
    (ho : ∀ j, (s.resolver j).loc.over = true) (j : Fin S) :
    (s'.resolver j).loc.over = true := by
  rcases (step_cases h).2 with ⟨t, c, rfl, h'⟩ | ⟨_, _, _, _, -, -, rfl⟩
  · cases h' with
    | main => exact absurd rfl ht
    | @resolver k l' e hst =>
      by_cases hj : j = k
      · subst hj
        exact absurd (hst.not_over.symm.trans (ho j)) nofun
      · rw [setResolver_of_ne l' e hj]
        exact ho j
    | _ => exact ho j
  · exact ho j

/-- A hostname is underway when `hostname_queue` has just accepted it. -/
theorem accepted_step (H : cfg.system.Reachable s) {a : Act R S} (h : s.step cfg a = some s')
    (hl : l ∈ s'.acceptedLines .hostnameQueue) :
    l ∈ s.acceptedLines .hostnameQueue ∨ s'.Underway l := by
  rcases (step_cases h).2 with ⟨t, c, -, h'⟩ | ⟨q, t, mv, m, -, h', rfl⟩
  · left
    rwa [← (stmt_history h' _).1]
  · by_cases hq : .hostnameQueue = q
    · subst hq
      rw [acceptedLines, setQueue_self] at hl
      cases (queue_inv H _).moveView h' with
      | stay _ ha | deliver _ _ _ _ _ _ ha =>
        rw [ha] at hl
        exact .inl hl
      | accept x _ _ _ _ _ ha hd =>
        rw [ha, linesIn_append, List.mem_append] at hl
        refine hl.imp id fun hl => .inl ?_
        rw [setQueue_self, (queue_inv H _).items_store ha hd, linesIn_append]
        exact List.mem_append_right _ hl
    · rw [acceptedLines_of_ne m hq] at hl
      exact .inl hl

end State

namespace Process
open State
variable {p p' : Process R S} {a : ProcessAct R S} {h : Handler R S}

/-- The lines whose records are due: of the hostnames that have been put, before the signal if there
was one. -/
def due (p : Process R S) : List Line :=
  match p.handler with
  | none => p.state.acceptedLines .hostnameQueue
  | some h => linesIn h.putOk

/-- The steps that keep the accepted work. No record of a line that is due fails to be allocated;
the handler's wait on `array_emptied` does not end spuriously while there are elements; when it
shuts down `resolver_logfile_queue` no resolver has a line that is due in its hands, and when it
ends the process no log thread has. -/
def Careful (p : Process R S) : ProcessAct R S → Prop
  | .thread a => ∀ l ∈ p.state.recordLost a, l ∉ p.due
  | .move mv =>
    match p.handler with
    | some ⟨_, q :: _, _, _⟩ =>
      (mv = .spurious → q ≠ .filenameQueue →
        (p.state.queue q).call (.outsider q) = .free .asleepEmptied →
        (p.state.queue q).arr.empty = true) ∧
      (q = .resolverLogfileQueue → (p.state.queue q).call (.outsider q) = .free .setShutdown →
        ∀ j, ∀ l ∈ p.state.resolving j, l ∉ p.due)
    | _ => True
  | .exit =>
    match p.handler with
    | some h => (∀ x ∈ p.state.unwritten .requesterLog, x ∉ h.accepted) ∧
      ∀ l ∈ linesIn (p.state.unwritten .resolverLog), l ∉ p.due
    | none => True
  | .signal _ | .free => True

instance : (p : Process R S) → (a : ProcessAct R S) → Decidable (p.Careful a)
  | p, .thread a => inferInstanceAs (Decidable (∀ l ∈ p.state.recordLost a, l ∉ p.due))
  | ⟨s, some ⟨v, q :: qs, ok, acc⟩, x⟩, .move mv => inferInstanceAs (Decidable (
      (mv = .spurious → q ≠ .filenameQueue →
        (s.queue q).call (.outsider q) = .free .asleepEmptied →
        (s.queue q).arr.empty = true) ∧
      (q = .resolverLogfileQueue → (s.queue q).call (.outsider q) = .free .setShutdown →
        ∀ j, ∀ l ∈ s.resolving j, l ∉ due ⟨s, some ⟨v, q :: qs, ok, acc⟩, x⟩)))
  | ⟨s, some h, x⟩, .exit => inferInstanceAs (Decidable (
      (∀ x ∈ s.unwritten .requesterLog, x ∉ h.accepted) ∧
      ∀ l ∈ linesIn (s.unwritten .resolverLog), l ∉ due ⟨s, some h, x⟩))
  | ⟨_, some ⟨_, [], _, _⟩, _⟩, .move _ | ⟨_, none, _⟩, .move _ | ⟨_, none, _⟩, .exit
  | _, .signal _ | _, .free => .isTrue trivial

/-- No line that is due will come into the hands of a resolver again. -/
def Settled (p : Process R S) : Prop :=
  (∀ j, (p.state.resolver j).loc.over = true) ∨
    (p.state.queue .hostnameQueue).Drained ∧ ∀ j, ∀ l ∈ p.state.resolving j, l ∉ p.due

/-- What the careful steps keep. -/
structure Kept (p : Process R S) : Prop where
  underway : ∀ l ∈ p.due, p.state.Underway l
  order : ∀ h, p.handler = some h → h.todo <:+ allQueues
  told : ∀ q, q ≠ .filenameQueue → ((p.state.queue q).call (.outsider q)).told = true →
    (p.state.queue q).arr.empty = true
  drained : ∀ h, p.handler = some h → ∀ q, q ≠ .filenameQueue → q ∉ h.todo →
    (p.state.queue q).Drained
  settled : ∀ h, p.handler = some h → h.victim = .main →
    (p.state.queue .resolverLogfileQueue).arr.shutdown = true → p.Settled
  exited : p.exited = true → ∀ h, p.handler = some h → h.todo = [] ∧ p.Careful .exit

/-! ## Told by the handler's own signals -/

theorem told_step (H : cfg.system.Reachable s) {b : Act R S} (h : s.step cfg b = some s')
    (hs : ((s.queue q).call (.outsider q)).told = true → (s.queue q).arr.empty = true)
    (hb : b = .call q (.outsider q) .spurious → (s.queue q).call (.outsider q) = .free .asleepEmptied →
      (s.queue q).arr.empty = true)
    (hs' : ((s'.queue q).call (.outsider q)).told = true) : (s'.queue q).arr.empty = true := by
  have hsync := synced_reachable H
  rcases (State.step_cases h).2 with ⟨t, c, -, h'⟩ | ⟨q', t, mv, m, rfl, h', rfl⟩
  · rw [h'.queue_eq, switch_arr]
    by_cases ht : .outsider q = t
    · subst ht
      rw [hsync.call_self h'] at hs'
      cases ho : opAt (s'.op (.outsider q)) q with
      | none =>
        rw [ho] at hs'
        cases hs'
      | some o =>
        rw [ho] at hs'
        cases o <;> cases hs'
    · rw [call_of_ne h' ht] at hs'
      exact hs hs'
  · by_cases hq : q = q'
    · subst hq
      rw [setQueue_self] at hs' ⊢
      refine (queue_inv H q).told_move h' (Monitor.emptying_reachable cfg.two_le (queue_reachable H q))
        hs (fun hu hmv hc => hb ?_ hc) hs'
      rw [hu, hmv]
    · rw [setQueue_of_ne m hq] at hs' ⊢
      exact hs hs'

/-! ## What the careful steps keep -/

theorem Settled.step (H : cfg.process.Reachable p) {b : Act R S}
    (h : p.state.step cfg.interruptible b = some p'.state) (hb : b.thread ≠ .main)
    (hd : p'.due = p.due) (hs : p.Settled) : p'.Settled := by
  have hr := state_reachable H
  refine hs.imp (over_step h hb) fun ⟨h1, h2⟩ => ⟨drained_step hr h h1, fun j l hl => ?_⟩
  rw [hd]
  exact h2 j l (resolving_step hr h h1 hl)

/-- A line that is due and in the hands of a resolver can still be put on. -/
theorem Settled.not_resolving (hs : p.Settled) {j : Fin S} (hl : l ∈ p.state.resolving j)
    (hd : l ∈ p.due) : False := by
  rcases hs with h | ⟨-, h⟩
  · rw [over_resolving (h j)] at hl
    cases hl
  · exact h j l hl hd

/-- Before the signal `resolver_logfile_queue` is shut down when all resolvers are over. -/
theorem over_of_shut (H : cfg.process.Reachable p) (hp : p.handler = none)
    (hs : (p.state.queue .resolverLogfileQueue).arr.shutdown = true) (j : Fin S) :
    (p.state.resolver j).loc.over = true := by
  have hr := uninterrupted H hp
  have hm := mayShut_reachable rfl hr hs
  unfold MayShut at hm
  rcases hm with hm | hm
  · have hi := (synced_reachable hr).fresh.resolver j
    generalize p.state.main = l at hm hi
    cases l <;> first | (rw [hi rfl]; rfl) | cases hm
  · have hi := (phases_reachable hr).joinedResolver j
    generalize p.state.main = l at hm hi
    cases l <;> first | exact hi rfl | cases hm

theorem due_of_handler (h : p'.handler = p.handler) (hh : p.handler ≠ none) : p'.due = p.due := by
  unfold due
  rw [h]
  cases hp : p.handler with
  | none => exact absurd hp hh
  | some h => rfl

/-- The handler is on the stack of `main`, if the signal has come. -/
def OnMain (p : Process R S) : Prop := ∀ h, p.handler = some h → h.victim = .main

theorem OnMain.thread_ne (hm : p.OnMain) (hp : p.handler = some h) (hf : p.frozen t = false) :
    t ≠ .main := by
  rintro rfl
  simp [frozen, hp, hm h hp] at hf

/-- What is underway stays so in a step of the program. -/
theorem Kept.underway_step (K : p.Kept) (H : cfg.process.Reachable p) (hm : p.OnMain) {b : Act R S}
    (h : p.state.step cfg.interruptible b = some p'.state)
    (hb : ∀ l ∈ p.state.recordLost b, l ∉ p.due) (hl : l ∈ p.due) : p'.state.Underway l := by
  rcases State.underway_step (state_reachable H) h (K.underway l hl) with h1 | ⟨j, hj, h1 | h1⟩
  · exact h1
  · exact absurd hl (hb l h1)
  · exfalso
    cases hp : p.handler with
    | none =>
      rw [over_resolving (over_of_shut H hp h1 j)] at hj
      cases hj
    | some h => exact (K.settled h hp (hm h hp) h1).not_resolving hj hl

/-- Who sets the flag of `resolver_logfile_queue` while `main` is interrupted. -/
theorem shut_resolverLog (H : cfg.process.Reachable p) (hm : p.OnMain) (hp : p.handler = some h)
    {b : Act R S} (hf : p.frozen b.thread = false)
    (hs : p.state.step cfg.interruptible b = some p'.state)
    (hs' : (p'.state.queue .resolverLogfileQueue).arr.shutdown = true) :
    (p.state.queue .resolverLogfileQueue).arr.shutdown = true := by
  by_contra h0
  have hop := State.shutsDown_op (state_reachable H) hs (q := .resolverLogfileQueue)
    (by simp [shutsDown, h0, hs'])
  have hmain := hm.thread_ne hp hf
  cases ht : b.thread with
  | main => exact hmain ht
  | requester i =>
    rw [ht] at hop
    simp only [op] at hop
    generalize (p.state.requester i).loc = l at hop
    cases l <;> cases hop
  | resolver j =>
    rw [ht] at hop
    simp only [op] at hop
    generalize (p.state.resolver j).loc = l at hop
    cases l <;> cases hop
  | logger k =>
    rw [ht] at hop
    simp only [op] at hop
    generalize p.state.logger k = l at hop
    cases l <;> simp [LoggerLoc.op] at hop
  | outsider q =>
    rw [ht] at hf
    cases hf

theorem drained_of_told (H : cfg.system.Reachable s)
    (hs : ((s.queue q).call (.outsider q)).told = true → (s.queue q).arr.empty = true)
    (hc : (s.queue q).call (.outsider q) = .freeDone) : (s.queue q).Drained := by
  have hi := queue_inv H q
  have ha := hi.asserts (.outsider q)
  rw [hc] at hs ha
  exact ⟨ha, hi.empty_iff.1 (hs rfl)⟩

theorem Kept.thread (K : p.Kept) (H : cfg.process.Reachable p) (hm : p.OnMain) {b : Act R S}
    (hc : ∀ l ∈ p.state.recordLost b, l ∉ p.due) (hf : p.frozen b.thread = false)
    (hs : p.state.step cfg.interruptible b = some p'.state) (hh : p'.handler = p.handler)
    (hx : p'.exited = false) : p'.Kept := by
  have hr := state_reachable H
  refine ⟨fun l hl => ?_, fun h hp => K.order h (hh ▸ hp), fun q hq => ?_, fun h hp q hq hn => ?_,
    fun h hp hv hsh => ?_, fun hx' => absurd (hx.symm.trans hx') nofun⟩
  · cases hp : p.handler with
    | none =>
      have hd' : p'.due = p'.state.acceptedLines .hostnameQueue := by rw [due, hh, hp]
      rw [hd'] at hl
      rcases accepted_step hr hs hl with hl | hl
      · exact K.underway_step H hm hs hc (by rwa [due, hp])
      · exact hl
    | some h =>
      rw [due_of_handler hh (by rw [hp]; nofun)] at hl
      exact K.underway_step H hm hs hc hl
  · refine told_step hr hs (K.told q hq) fun hb => ?_
    rw [hb] at hf
    cases hf
  · exact drained_step hr hs (K.drained h (hh ▸ hp) q hq hn)
  · have hp : p.handler = some h := hh ▸ hp
    refine (K.settled h hp hv (shut_resolverLog H hm hp hf hs hsh)).step H hs ?_ ?_
    · exact hm.thread_ne hp hf
    · exact due_of_handler hh (by rw [hp]; nofun)

theorem Kept.signal (K : p.Kept) (H : cfg.process.Reachable p) (hn : p.handler = none)
    (hs : p'.state = p.state)
    (hh : p'.handler = some ⟨t, allQueues, (p.state.queue .hostnameQueue).ghost.putOk,
      (p.state.queue .requesterLogfileQueue).ghost.accepted⟩)
    (hx : p'.exited = false) : p'.Kept := by
  have hr := state_reachable H
  refine ⟨fun l hl => ?_, fun h hp => ?_, fun q hq => ?_, fun h hp q _ hnot => ?_,
    fun h _ _ hsh => .inl fun j => ?_, fun hx' => absurd (hx.symm.trans hx') nofun⟩
  · rw [hs]
    apply K.underway
    rw [due, hh] at hl
    rw [due, hn]
    obtain ⟨x, hx, hl⟩ := List.mem_flatMap.1 hl
    exact List.mem_flatMap.2 ⟨x, Monitor.putOk_subset (queue_reachable hr _) hx, hl⟩
  · rw [hh] at hp
    cases hp
    exact List.suffix_refl _
  · rw [hs]
    exact K.told q hq
  · rw [hh] at hp
    cases hp
    exact absurd (mem_allQueues q) hnot
  · rw [hs] at hsh ⊢
    exact over_of_shut H hn hsh j

theorem Kept.free (K : p.Kept) (H : cfg.process.Reachable p) (hm : p.OnMain) {v : Tid R S}
    {qs : List QName} {ok acc : List Str} (hp : p.handler = some ⟨v, q :: qs, ok, acc⟩)
    (hs : p.state.step cfg.interruptible (.stmt (.outsider q) .ok) = some p'.state)
    (hh : p'.handler = some ⟨v, if p.state.outsider q then qs else q :: qs, ok, acc⟩)
    (hx : p'.exited = false) : p'.Kept := by
  have hr := state_reachable H
  have hdue : p'.due = p.due := by rw [due, hh, due, hp]
  have hstmt : Stmt cfg.interruptible p.state (.outsider q) p'.state := by
    obtain ⟨t, c, hb, h⟩ | ⟨_, _, _, _, hb, -⟩ := (State.step_cases hs).2
    · cases hb
      exact h
    · cases hb
  refine ⟨fun l hl => ?_, fun h hp' => ?_, fun q' hq' => told_step hr hs (K.told q' hq') nofun,
    fun h hp' q' hq' hn => drained_step hr hs ?_, fun h hp' hv hsh => ?_,
    fun hx' => absurd (hx.symm.trans hx') nofun⟩
  · exact K.underway_step H hm hs nofun (hdue ▸ hl)
  · rw [hh] at hp'
    cases hp'
    have ho := K.order _ hp
    dsimp only
    split
    · exact (List.suffix_cons q qs).trans ho
    · exact ho
  · rw [hh] at hp'
    cases hp'
    dsimp only at hn
    by_cases hqq : q' ∈ q :: qs
    · -- the handler comes back from its `array_free`
      have hout : p.state.outsider q = true := by
        by_contra h0
        rw [if_neg h0] at hn
        exact hn hqq
      rw [if_pos hout] at hn
      obtain rfl := (List.mem_cons.1 hqq).resolve_right hn
      refine drained_of_told hr (K.told q' hq') ?_
      generalize p'.state = s' at hstmt
      cases hstmt with
      | outsiderFree _ h0 => exact absurd (h0.symm.trans hout) nofun
      | outsiderDone _ _ hc => exact hc
    · exact K.drained _ hp q' hq' hqq
  · have hv : v = .main := hm _ hp
    rw [hstmt.queue_eq, switch_arr] at hsh
    exact (K.settled _ hp hv hsh).step H hs nofun hdue

theorem Kept.move (K : p.Kept) (H : cfg.process.Reachable p) (hm : p.OnMain) {v : Tid R S}
    {qs : List QName} {ok acc : List Str} {mv : Move (Tid R S)}
    (hp : p.handler = some ⟨v, q :: qs, ok, acc⟩) (hc : p.Careful (.move mv))
    (hs : p.state.step cfg.interruptible (.call q (.outsider q) mv) = some p'.state)
    (hh : p'.handler = p.handler) (hx : p'.exited = false) : p'.Kept := by
  have hr := state_reachable H
  have hdue : p'.due = p.due := due_of_handler hh (by rw [hp]; nofun)
  simp only [Careful, hp] at hc
  refine ⟨fun l hl => ?_, fun h hp' => K.order h (hh ▸ hp'), fun q' hq' => ?_,
    fun h hp' q' hq' hn => drained_step hr hs (K.drained h (hh ▸ hp') q' hq' hn),
    fun h hp' hv hsh => ?_, fun hx' => absurd (hx.symm.trans hx') nofun⟩
  · exact K.underway_step H hm hs nofun (hdue ▸ hl)
  · refine told_step hr hs (K.told q' hq') fun hb hcall => ?_
    cases hb
    exact hc.1 rfl hq' hcall
  · refine Settled.step (p := p) H hs nofun hdue ?_
    by_cases h0 : (p.state.queue .resolverLogfileQueue).arr.shutdown = true
    · exact K.settled h (hh ▸ hp') hv h0
    · -- the handler shuts down `resolver_logfile_queue`, with `hostname_queue` drained
      obtain ⟨_, _, hb, -⟩ | ⟨q', t, mv', m, hb, hmv, hse⟩ := (State.step_cases hs).2
      · cases hb
      · cases hb
        rw [hse] at hsh
        by_cases hq : .resolverLogfileQueue = q
        · subst hq
          rw [setQueue_self] at hsh
          have hset := Monitor.move_setShutdown hmv (by simpa using h0) hsh
          refine .inr ⟨K.drained _ hp _ nofun fun hmem => ?_, hc.2 rfl hset⟩
          have ho := K.order _ hp
          simp only [allQueues, List.suffix_cons_iff, List.suffix_nil] at ho
          simp_all
        · rw [setQueue_of_ne m hq] at hsh
          exact absurd hsh h0

theorem Kept.exit (K : p.Kept) (hp : p.handler = some h) (ht : h.todo = []) (hc : p.Careful .exit)
    (hs : p'.state = p.state) (hh : p'.handler = p.handler) : p'.Kept := by
  have hdue : p'.due = p.due := due_of_handler hh (by rw [hp]; nofun)
  obtain ⟨h1, h2, h3, h4, h5, -⟩ := K
  refine ⟨?_, ?_, ?_, ?_, ?_, fun _ h' hp' => ⟨?_, ?_⟩⟩
  · rwa [hdue, hs]
  · rwa [hh]
  · rwa [hs]
  · rwa [hh, hs]
  · unfold Settled at *
    rwa [hh, hs, hdue]
  · rw [hh, hp] at hp'
    cases hp'
    exact ht
  · unfold Careful at *
    rwa [hh, hs, hdue]

theorem kept_reachable (H : (cfg.process.restrict Careful).Reachable p) (hm : p.OnMain) :
    p.Kept := by
  induction H with
  | init h =>
    rw [h]
    exact ⟨nofun, nofun, nofun, nofun, nofun, nofun⟩
  | @step p a p' H h ih =>
    obtain ⟨hc, h⟩ := h
    have hr := H.of_restrict
    cases (step_cases h).2 with
    | thread b hf hs hh hx =>
      have hm : p.OnMain := fun h hp => hm h (hh ▸ hp)
      exact (ih hm).thread hr hm hc hf hs hh hx
    | signal t _ hn hs hh hx =>
      have hm : p.OnMain := fun h hp => by rw [hn] at hp; cases hp
      exact (ih hm).signal hr hn hs hh hx
    | free q hp hs hh hx =>
      have hv := hm _ hh
      have hm : p.OnMain := fun h hp' => by
        rw [hp] at hp'
        cases hp'
        exact hv
      exact (ih hm).free hr hm hp hs hh hx
    | move q hp hs hh hx =>
      have hm : p.OnMain := fun h hp => hm h (hh ▸ hp)
      exact (ih hm).move hr hm hp hc hs hh hx
    | exit hp hs hh hx =>
      have hm : p.OnMain := fun h hp => hm h (hh ▸ hp)
      exact (ih hm).exit hp rfl hc hs hh

end Process

namespace State

/-- Every string that a queue has accepted is of the queue's kind. -/
theorem accepted_typed (H : cfg.system.Reachable s) {x : Str}
    (hx : x ∈ (s.queue q).ghost.accepted) : cfg.Typed q x := by
  induction H with
  | init h =>
    rw [h] at hx
    cases hx
  | @step s _ s' H h ih =>
    rcases (step_cases h).2 with ⟨t, c, -, h'⟩ | ⟨q', t, mv, m, -, h', rfl⟩
    · rw [h'.queue_eq, switch_accepted] at hx
      exact ih hx
    · by_cases hq : q = q'
      · subst hq
        rw [setQueue_self] at hx
        cases (queue_inv H q).moveView h' with
        | stay _ ha | deliver _ _ _ _ _ _ ha => exact ih (ha ▸ hx)
        | accept y hc _ _ _ _ ha =>
          rw [ha, List.mem_append, List.mem_singleton] at hx
          rcases hx with hx | rfl
          · exact ih hx
          · refine (wellTyped_reachable H).queue q x (Monitor.mem_contents.2 (.inr ⟨t, ?_⟩))
            simp [hc, Call.carries, Call.holds, PutPc.stored]
      · rw [setQueue_of_ne m hq] at hx
        exact ih hx

end State

namespace Process
variable {p p' : Process R S} {h : Handler R S}
open State

/-- What the handler has to keep was accepted. -/
theorem sent_reachable (H : cfg.process.Reachable p) (hp : p.handler = some h) :
    h.putOk ⊆ (p.state.queue .hostnameQueue).ghost.accepted ∧
    h.accepted ⊆ (p.state.queue .requesterLogfileQueue).ghost.accepted := by
  induction H generalizing h with
  | init h0 =>
    rw [h0] at hp
    cases hp
  | @step p a p' H hstep ih =>
    have hr := state_reachable H
    cases (step_cases hstep).2 with
    | thread b _ hs hh | move q _ hs hh =>
      obtain ⟨h1, h2⟩ := ih (hh ▸ hp)
      exact ⟨fun _ hx => (history_step hr hs _).1.subset (h1 hx),
        fun _ hx => (history_step hr hs _).1.subset (h2 hx)⟩
    | free q hp' hs hh =>
      rw [hh] at hp
      cases hp
      obtain ⟨h1, h2⟩ := ih hp'
      exact ⟨fun _ hx => (history_step hr hs _).1.subset (h1 hx),
        fun _ hx => (history_step hr hs _).1.subset (h2 hx)⟩
    | signal t _ _ hs hh =>
      rw [hh] at hp
      cases hp
      rw [hs]
      exact ⟨Monitor.putOk_subset (queue_reachable hr _), fun _ hx => hx⟩
    | exit _ hs hh =>
      rw [hs]
      exact ih (hh ▸ hp)

/-- **What an interrupt keeps.** In every run of careful steps, when the handler has ended the
process, every hostname that had been put before the signal has its record in the resolver log, and
every string that the requester log had been sent is in the requester log. -/
theorem interrupt_keeps (H : (cfg.process.restrict Careful).Reachable p) (hp : p.handler = some h)
    (hv : h.victim = .main) (hx : p.exited = true) :
    (∀ x ∈ h.putOk, ∃ y ∈ p.state.logfile .resolverLog, ∃ ip,
      y.src = x.src ∧ y.bytes = record x.bytes ip) ∧
    ∀ x ∈ h.accepted, x ∈ p.state.logfile .requesterLog := by
  have hr := state_reachable H.of_restrict
  have K := kept_reachable H fun h' hp' => by
    rw [hp] at hp'
    cases hp'
    exact hv
  obtain ⟨htodo, hc⟩ := K.exited hx h hp
  have hd : ∀ q, q ≠ .filenameQueue → (p.state.queue q).Drained := fun q hq =>
    K.drained h hp q hq (by rw [htodo]; simp)
  simp only [Careful, hp] at hc
  obtain ⟨hsent1, hsent2⟩ := sent_reachable H.of_restrict hp
  have hst := statistics_reachable hr
  -- what a log queue has accepted is written or in the hands of its thread
  have hlog : ∀ k : Logger, k.queue ≠ .filenameQueue →
      (p.state.queue k.queue).ghost.accepted = p.state.logfile k ++ p.state.unwritten k :=
    fun k hk => (delivered_of_drained hr (hd _ hk)).symm.trans (hst.written k).symm
  refine ⟨fun x hx => ?_, fun x hx => ?_⟩
  · obtain ⟨l, hxl, hxb⟩ : ∃ l, x.src = .line l ∧ x.bytes = l.host :=
      accepted_typed hr (hsent1 hx)
    have hl : l ∈ p.due := by
      rw [due, hp]
      exact List.mem_flatMap.2 ⟨x, hx, by rw [hxl]; exact List.mem_singleton_self l⟩
    have hlogged : l ∈ p.state.acceptedLines .resolverLogfileQueue := by
      rcases K.underway l hl with h1 | ⟨j, hj⟩ | h1
      · rw [(hd .hostnameQueue (by simp)).2] at h1
        cases h1
      · exact ((K.settled h hp hv (hd .resolverLogfileQueue (by simp)).1).not_resolving hj hl).elim
      · exact h1
    rw [acceptedLines, show (p.state.queue .resolverLogfileQueue).ghost.accepted = _ from
      hlog .resolverLog (by simp [Logger.queue]), linesIn_append, List.mem_append] at hlogged
    have hw := hlogged.resolve_right fun h1 => hc.2 l h1 hl
    obtain ⟨y, hy, hly⟩ := List.mem_flatMap.1 hw
    obtain ⟨l', ip, hyl, hyb, -⟩ := (wellTyped_reachable hr).written .resolverLog y hy
    rw [hyl] at hly
    obtain rfl := List.mem_singleton.1 hly
    exact ⟨y, hy, ip, by rw [hyl, hxl], by rw [hyb, hxb]⟩
  · have hx' := hsent2 hx
    rw [show (p.state.queue .requesterLogfileQueue).ghost.accepted = _ from
      hlog .requesterLog (by simp [Logger.queue]), List.mem_append] at hx'
    exact hx'.resolve_right fun h1 => hc.1 x h1 hx

/-- The process after the turns of a list, if every step is careful. -/
def carefulSchedule (cfg : Config R S) (dns : Bytes → Option Bytes) (v : Tid R S)
    (turns : List (Option (Tid R S) × Nat)) : Option (Process R S) :=
  TransitionSystem.exec
    (fun p t => TransitionSystem.guarded Careful (step cfg) p (p.nextAct cfg dns v t))
    (turns.flatMap fun p => List.replicate p.2 p.1) ⟨.init, none, false⟩

/-- The signal comes when every record is written; the resolver, the log threads and the requester
wait for more and leave when the handler shuts down their queues. -/
def interruptedIdle (i j : Fin 1) : List (Option (Tid 1 1) × Nat) := [
  (some .main, 1), (some (.logger .requesterLog), 4), (some .main, 1),
  (some (.logger .resolverLog), 4), (some .main, 3), (some (.requester i), 4), (some .main, 9),
  (some (.requester i), 19), (some (.logger .requesterLog), 16), (some (.requester i), 18),
  (some (.logger .requesterLog), 16), (some (.requester i), 15), (some .main, 10),
  (some (.requester i), 19), (some (.logger .requesterLog), 16), (some (.requester i), 15),
  (some .main, 3), (some (.resolver j), 18), (some (.logger .resolverLog), 16),
  (some (.resolver j), 20), (some (.logger .resolverLog), 16), (some (.resolver j), 21),
  (some (.logger .resolverLog), 16), (some (.resolver j), 6), (none, 10), (some (.resolver j), 6),
  (none, 15), (some (.logger .requesterLog), 6), (none, 15), (some (.logger .resolverLog), 6),
  (none, 15), (some (.requester i), 6), (none, 7)]

theorem interrupt_keeps_idle : ∃ p h, (sample.process.restrict Careful).Reachable p ∧
    p.handler = some h ∧ h.putOk.map Str.bytes = [[97], [98], [99]] ∧
    h.accepted.map Str.bytes = [[97], [98], [99]] ∧
    (∀ x ∈ h.putOk, ∃ y ∈ p.state.logfile .resolverLog, ∃ ip,
      y.src = x.src ∧ y.bytes = record x.bytes ip) ∧
    ∀ x ∈ h.accepted, x ∈ p.state.logfile .requesterLog := by
  have h : ∃ p ∈ carefulSchedule sample sampleDns .main (interruptedIdle 0 0),
      ∃ h ∈ p.handler, h.victim = .main ∧ p.exited = true ∧
        h.putOk.map Str.bytes = [[97], [98], [99]] ∧
        h.accepted.map Str.bytes = [[97], [98], [99]] := by decide +kernel
  obtain ⟨p, hp, h, hh, hv, hx, h1, h2⟩ := h
  have hr : (sample.process.restrict Careful).Reachable p := TransitionSystem.restrict_choose hp
  exact ⟨p, h, hr, hh, h1, h2, interrupt_keeps hr hh hv hx⟩

/-- The signal comes when the resolver has taken the last hostname and the requester log's thread
the last string; neither goes on before the process ends. -/
def interruptedBusy (i j : Fin 1) : List (Option (Tid 1 1) × Nat) := [
  (some .main, 1), (some (.logger .requesterLog), 4), (some .main, 1),
  (some (.logger .resolverLog), 4), (some .main, 3), (some (.requester i), 4), (some .main, 9),
  (some (.requester i), 19), (some (.logger .requesterLog), 16), (some (.requester i), 18),
  (some (.logger .requesterLog), 16), (some (.requester i), 15), (some .main, 10),
  (some (.requester i), 19), (some (.logger .requesterLog), 10), (some (.requester i), 15),
  (some .main, 3), (some (.resolver j), 18), (some (.logger .resolverLog), 16),
  (some (.resolver j), 20), (some (.logger .resolverLog), 16), (some (.resolver j), 13),
  (none, 30), (some (.logger .resolverLog), 6), (none, 15), (some (.requester i), 6), (none, 7)]

theorem interrupt_loses :
    (¬ ∀ p h, sample.process.Reachable p → p.handler = some h → h.victim = .main →
      p.exited = true → ∀ x ∈ h.putOk, ∃ y ∈ p.state.logfile .resolverLog, ∃ ip,
        y.src = x.src ∧ y.bytes = record x.bytes ip) ∧
    ¬ ∀ p h, sample.process.Reachable p → p.handler = some h → h.victim = .main →
      p.exited = true → ∀ x ∈ h.accepted, x ∈ p.state.logfile .requesterLog := by
  have h : ∃ p ∈ schedule sample sampleDns .main (interruptedBusy 0 0),
      ∃ h ∈ p.handler, h.victim = .main ∧ p.exited = true ∧
        (∃ x ∈ h.putOk, ∀ y ∈ p.state.logfile .resolverLog, y.src ≠ x.src) ∧
        ∃ x ∈ h.accepted, x ∉ p.state.logfile .requesterLog := by decide +kernel
  obtain ⟨p, hp, h, hh, hv, hx, ⟨x, hx1, hx2⟩, y, hy1, hy2⟩ := h
  have hr := schedule_reachable hp
  constructor
  · intro H
    obtain ⟨z, hz, -, hsrc, -⟩ := H p h hr hh hv hx x hx1
    exact hx2 z hz hsrc
  · intro H
    exact hy2 (H p h hr hh hv hx y hy1)

end Process
end DnsResolver
