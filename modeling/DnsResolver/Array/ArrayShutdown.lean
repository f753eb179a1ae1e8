import DnsResolver.Array.ArrayFifo

/-!
# Shutdown

Once the flag is set nothing more is accepted; a put refused with `ARRAY_SHUTDOWN` has left the
ring alone; a get is refused only on a queue that is shut down and empty, which then delivers
nothing any more. So from the first refused get on, the delivered pointers are exactly the
accepted ones, and these are the arguments of the puts that return `ARRAY_SUCCESS`. -/

namespace DnsResolver
open Function

variable {T α : Type} {N : Nat} {t : T} {s s' : ArrayState T α} {o : Out T α} {c : Call α}

/-- A put call that has stored its pointer. -/
def Call.stored : Call α → Bool
  | .put _ pc => pc.stored
  | .putDone _ .success => true
  | _ => false

theorem CallStep.stored_stable (h : CallStep N t s c o)
    (hc : c.stored = true) : o.call.stored = true := by
  cases h <;> first | rfl | cases hc

/-- A statement of a put call that leaves it unstored leaves the ring alone. -/
theorem CallStep.sameRing {x : α} (h : CallStep N t s c o)
    (hc : c.op = some (.put x)) (ho : o.call.stored = false) : s.SameRing o.arr := by
  cases h with
  | put_store => cases ho
  | get_take_last | get_take => cases hc
  | _ => exact ⟨rfl, rfl, rfl⟩

section
variable [DecidableEq α] (x : α)

/-- A put of `x` in progress. -/
def Call.putting : Call α → Bool
  | .put y _ => y == x
  | _ => false

/-- A put of `x` that has stored and is about to return `ARRAY_SUCCESS`. -/
def Call.succeeding : Call α → Bool
  | .put y pc => y == x && pc.stored
  | _ => false

theorem Call.putting_wake {r : WaitResult} : (c.wake r).putting x = c.putting x := by
  unfold Call.wake
  split <;> rfl

theorem Call.succeeding_wake {r : WaitResult} : (c.wake r).succeeding x = c.succeeding x := by
  unfold Call.wake
  split <;> rfl

theorem Call.succeeding_le : (c.succeeding x).toNat ≤ (c.putting x).toNat := by
  cases c with
  | put y pc => cases h : y == x <;> simp [Call.succeeding, Call.putting, h, Bool.toNat_le]
  | _ => exact Nat.le_refl _

/-- Each statement keeps the account of the puts of `x`. -/
theorem CallStep.account (h : CallStep N t s c o) (g : Ghost T α) :
    (g.record o.event).offered = g.offered ∧
    (g.record o.event).putOk.count x + (g.record o.event).putNo.count x +
        (o.call.putting x).toNat =
      g.putOk.count x + g.putNo.count x + (c.putting x).toNat ∧
    (g.record o.event).accepted.count x + g.putOk.count x + (c.succeeding x).toNat =
      g.accepted.count x + (g.record o.event).putOk.count x + (o.call.succeeding x).toNat := by
  cases h with
  | @put_store y | @put_unlock y | @put_refuse y =>
    cases hy : y == x <;>
      (simp [Ghost.record, Call.putting, Call.succeeding, PutPc.stored, List.count_singleton, hy]
       try omega)
  | _ => exact ⟨rfl, rfl, rfl⟩

end

namespace Monitor
variable [DecidableEq T] [Fintype T] {m m' : Monitor T α} {mv : Move T}

omit [Fintype T] in
theorem count_offered [DecidableEq α] (x : α) (op : Op α) :
    (m.begin t op).ghost.offered.count x =
      m.ghost.offered.count x + (op.start.putting x).toNat := by
  cases op with
  | put y => cases hy : y == x <;> simp [begin, Op.start, Call.putting, List.count_singleton, hy]
  | get | free => rfl

/-- Every put of `x` begun has returned `ARRAY_SUCCESS`, has returned `ARRAY_SHUTDOWN` or is in
progress; the accepted pointers are those of the puts that have returned `ARRAY_SUCCESS` or are
about to. -/
structure Account [DecidableEq α] (x : α) (m : Monitor T α) : Prop where
  offered : m.ghost.offered.count x =
    m.ghost.putOk.count x + m.ghost.putNo.count x + Tally.tally (Call.putting x) m.call
  accepted : m.ghost.accepted.count x =
    m.ghost.putOk.count x + Tally.tally (Call.succeeding x) m.call

theorem Account.move [DecidableEq α] {x : α} (H : m.Account x) (h : m.move N t mv = some m') :
    m'.Account x := by
  have h1 := sum_move (f := fun c => (c.putting x).toNat) (fun r c => by rw [Call.putting_wake]) h
  have h2 := sum_move (f := fun c => (c.succeeding x).toNat)
    (fun r c => by rw [Call.succeeding_wake]) h
  obtain ⟨H1, H2⟩ := H
  rw [Tally.tally] at H1 H2
  obtain ⟨o, w, call', hs, -, -, rfl⟩ | ⟨r, v, -, -, -, rfl⟩ := move_cases h
  · obtain ⟨e1, e2, e3⟩ := hs.account x m.ghost
    simp only [update_self] at h1 h2
    constructor <;> simp only [Tally.tally, e1] <;> omega
  · simp only [update_self, Call.putting_wake, Call.succeeding_wake] at h1 h2
    constructor <;> simp only [Tally.tally] <;> omega

theorem Account.begin [DecidableEq α] {x : α} (H : m.Account x) (ht : m.call t = .idle)
    (op : Op α) : (m.begin t op).Account x := by
  have h1 := sum_begin (fun c => (c.putting x).toNat) m t op
  have h2 := sum_begin (fun c => (c.succeeding x).toNat) m t op
  have hs : op.start.succeeding x = false := by
    cases op <;> simp [Op.start, Call.succeeding, PutPc.stored]
  obtain ⟨H1, H2⟩ := H
  rw [Tally.tally] at H1 H2
  rw [ht] at h1 h2
  rw [hs] at h2
  constructor
  · have h0 : (Call.idle.putting x).toNat = 0 := rfl
    rw [count_offered, Tally.tally]
    simp only [Monitor.begin] at h1 ⊢
    omega
  · exact H2.trans (congrArg _ h2.symm)

theorem Account.leave [DecidableEq α] {x : α} (H : m.Account x) (ht : (m.call t).done = true) :
    (m.leave t).Account x := by
  have h1 := sum_leave (fun c => (c.putting x).toNat) m t
  have h2 := sum_leave (fun c => (c.succeeding x).toNat) m t
  obtain ⟨H1, H2⟩ := H
  have e1 : (m.call t).putting x = false := by cases hc : m.call t <;> simp_all [Call.done, Call.putting]
  have e2 : (m.call t).succeeding x = false := by
    cases hc : m.call t <;> simp_all [Call.done, Call.succeeding]
  rw [e1] at h1
  rw [e2] at h2
  exact ⟨H1.trans (congrArg _ h1.symm), H2.trans (congrArg _ h2.symm)⟩

theorem account_reachable [DecidableEq α] (x : α) (H : (system T α N).Reachable m) :
    m.Account x := by
  refine H.invariant (I := Account x) ?_ fun m a m' _ h hi => ?_
  · rintro _ rfl
    constructor <;> simp [init, Tally.tally, Call.putting, Call.succeeding]
  · cases a with
    | begin t op =>
      obtain ⟨ht, rfl⟩ := begin_cases h
      exact hi.begin ht op
    | move t mv => exact hi.move h
    | leave t =>
      obtain ⟨ht, rfl⟩ := leave_cases h
      exact hi.leave ht

/-! ## What stays -/

theorem move_stored (h : m.move N t mv = some m') (ht : (m.call t).stored = true) :
    (m'.call t).stored = true := by
  obtain ⟨o, w, call', hs, -, -, rfl⟩ | ⟨r, v, hv, -, -, rfl⟩ := move_cases h
  · simpa using CallStep.stored_stable hs ht
  · cases hc : m.call t <;> simp_all [Call.stored, Call.asleepOn, Call.wake]
    rename_i pc
    cases pc <;> simp_all [PutPc.stored]

theorem move_sameRing {x : α} (h : m.move N t mv = some m') (hc : (m.call t).op = some (.put x))
    (ht : (m'.call t).stored = false) : m.arr.SameRing m'.arr := by
  obtain ⟨o, w, call', hs, -, -, rfl⟩ | ⟨r, v, -, -, -, rfl⟩ := move_cases h
  · exact CallStep.sameRing hs hc (by simpa using ht)
  · exact ⟨rfl, rfl, rfl⟩

theorem shutdown_step {a : Act T α} (h : m.step N a = some m') (hs : m.arr.shutdown = true) :
    m'.arr.shutdown = true := by
  cases a with
  | begin t op =>
    obtain ⟨-, rfl⟩ := begin_cases h
    exact hs
  | move t mv =>
    obtain ⟨o, w, call', hs', -, -, rfl⟩ | ⟨r, v, -, -, -, rfl⟩ := move_cases h
    · exact hs'.shutdown_mono hs
    · exact hs
  | leave t =>
    obtain ⟨-, rfl⟩ := leave_cases h
    exact hs

/-- The queue is shut down and `xs` has been accepted; nothing is stored from here on. -/
def ShutWith (m₀ m : Monitor T α) : Prop :=
  m.arr.shutdown = true ∧ m.ghost.accepted = m₀.ghost.accepted ∧
    m.arr.storeString = m₀.arr.storeString

theorem Inv.shutWith_step {m₀ : Monitor T α} {a : Act T α} (H : m.Inv N)
    (h : m.step N a = some m') (hs : ShutWith m₀ m) : ShutWith m₀ m' := by
  refine ⟨shutdown_step h hs.1, ?_⟩
  cases H.refinesStep h with
  | skip hf hr => exact ⟨(congrArg Fifo.accepted hf).trans hs.2.1, hr.storeString.trans hs.2.2⟩
  | put t mv x _ ht =>
    have := (ht ▸ H.asserts t : (Call.put x .store).Asserts N m.arr).1
    exact absurd (hs.1.symm.trans this) (by simp)
  | get t mv x _ _ hf _ hr =>
    exact ⟨hf.get_inv.2.1.trans hs.2.1, hr.trans hs.2.2⟩

theorem putNo_step {a : Act T α} {x : α} (h : m.step N a = some m') (hx : x ∈ m.ghost.putNo) :
    x ∈ m'.ghost.putNo := by
  cases a with
  | begin t op =>
    obtain ⟨-, rfl⟩ := begin_cases h
    exact hx
  | move t mv =>
    obtain ⟨o, w, call', -, -, -, rfl⟩ | ⟨r, v, -, -, -, rfl⟩ := move_cases h
    · unfold Ghost.record
      split <;> first | exact hx | exact List.mem_append_left _ hx
    · exact hx
  | leave t =>
    obtain ⟨-, rfl⟩ := leave_cases h
    exact hx

omit [DecidableEq T] in
/-- The account of a pointer that was put once and refused. -/
theorem Account.refused [DecidableEq α] {x : α} (H : m.Account x) (hi : m.Inv N)
    (hx : x ∈ m.ghost.putNo) (ho : m.ghost.offered.count x = 1) :
    x ∉ m.ghost.accepted ∧ x ∉ m.ghost.delivered := by
  have h1 : 0 < m.ghost.putNo.count x := List.count_pos_iff.2 hx
  have h2 : Tally.tally (Call.succeeding x) m.call ≤ Tally.tally (Call.putting x) m.call :=
    Finset.sum_le_sum fun u _ => Call.succeeding_le x
  obtain ⟨H1, H2⟩ := H
  have hacc : x ∉ m.ghost.accepted := List.count_eq_zero.1 (by omega)
  exact ⟨hacc, fun hd => hacc (hi.split.subset hd)⟩

/-- On a queue that is shut down and empty nothing is accepted or delivered any more. -/
def Closed (m₀ m : Monitor T α) : Prop :=
  m.arr.shutdown = true ∧ m.fifo = m₀.fifo ∧
    ∀ u x, (m.call u).got = some x → (m₀.call u).got = some x

theorem Inv.closed_step {m₀ : Monitor T α} {a : Act T α} (h0 : m₀.items = []) (H : m.Inv N)
    (h : m.step N a = some m') (hs : Closed m₀ m) : Closed m₀ m' := by
  refine ⟨shutdown_step h hs.1, ?_⟩
  cases H.refinesStep h with
  | skip hf _ hg =>
    refine ⟨hf.trans hs.2.1, fun u x hx => hs.2.2 u x ?_⟩
    by_cases ha : a = .leave u
    · subst ha
      obtain ⟨-, rfl⟩ := leave_cases h
      simp [Monitor.leave, Call.got] at hx
    · rwa [← (hg u ha).got]
  | put t mv x _ ht =>
    have := (ht ▸ H.asserts t : (Call.put x .store).Asserts N m.arr).1
    exact absurd (hs.1.symm.trans this) (by simp)
  | get t mv x _ _ hf =>
    have := hf.get_inv.1
    rw [hs.2.1] at this
    exact absurd (h0.symm.trans this) (by simp)

/-- Shut down and empty. -/
def Drained (m : Monitor T α) : Prop := m.arr.shutdown = true ∧ m.items = []

theorem Inv.drained_step {a : Act T α} (H : m.Inv N) (h : m.step N a = some m')
    (hd : m.Drained) : m'.Drained := by
  have hc : Closed m m' := H.closed_step hd.2 h ⟨hd.1, rfl, fun _ _ h => h⟩
  exact ⟨hc.1, (congrArg Fifo.held hc.2.1).trans hd.2⟩

/-- The flag is set by `array_free`. -/
theorem move_shutdown (h : m.move N t mv = some m') (hs : m'.arr.shutdown = true) :
    m.arr.shutdown = true ∨ (m.call t).op = some .free := by
  obtain ⟨o, w, call', hc, -, -, rfl⟩ | ⟨r, v, -, -, -, rfl⟩ := move_cases h
  · generalize m.call t = c at hc
    cases hc <;> first | exact .inl hs | exact .inr rfl
  · exact .inl hs

/-- **Shutdown loses nothing that was accepted and accepts nothing afterwards.** -/
theorem shutdown_drains [DecidableEq α] (hN : 2 ≤ N) (H : (system T α N).Reachable m) :
    -- once set, the flag stays set and no later put stores anything
    (m.arr.shutdown = true → ∀ m', (system T α N).Leads m m' →
      m'.arr.shutdown = true ∧ m'.ghost.accepted = m.ghost.accepted ∧
      m'.arr.storeString = m.arr.storeString) ∧
    -- a put changes the ring only by its store, and after its store it can only succeed
    (∀ t mv m' x, m.move N t mv = some m' → (m.call t).op = some (.put x) →
      ((m'.call t).stored = false → m.arr.SameRing m'.arr) ∧
      ((m.call t).stored = true → (m'.call t).stored = true)) ∧
    -- the pointer of a refused put, if passed to no other put, is never delivered
    (∀ x ∈ m.ghost.putNo, ∀ m', (system T α N).Leads m m' → m'.ghost.offered.count x = 1 →
      x ∉ m'.ghost.accepted ∧ x ∉ m'.ghost.delivered) ∧
    -- a get is refused only on a queue that is shut down and empty
    (∀ t, m.call t = .getDone none → m.arr.shutdown = true ∧ m.arr.head = m.arr.tail) ∧
    -- from then on no get takes an element, and what was delivered is what the puts stored
    -- that have returned `ARRAY_SUCCESS` or are about to
    (∀ t, m.call t = .getDone none → ∀ m', (system T α N).Leads m m' →
      (∀ u x, (m'.call u).got = some x → (m.call u).got = some x) ∧
      m'.ghost.delivered = m.ghost.delivered ∧ m'.ghost.delivered = m'.ghost.accepted ∧
      ∀ x, m'.ghost.delivered.count x =
        m'.ghost.putOk.count x + Tally.tally (Call.succeeding x) m'.call) := by
  have hi := inv_reachable hN H
  refine ⟨fun hs m' hl => ?_, fun t mv m' x h hc => ⟨move_sameRing h hc, move_stored h⟩,
    fun x hx m' hl ho => ?_, fun t ht => ?_, fun t ht m' hl => ?_⟩
  · exact hl.stable (I := ShutWith m) (fun _ _ _ H' h => (inv_reachable hN H').shutWith_step h) H
      ⟨hs, rfl, rfl⟩
  · have hx' := hl.stable (I := fun m => x ∈ m.ghost.putNo) (fun _ _ _ _ h => putNo_step h) H hx
    exact (account_reachable x (H.leads hl)).refused (inv_reachable hN (H.leads hl)) hx' ho
  · have := (ht ▸ hi.asserts t : (Call.getDone none).Asserts N m.arr)
    exact ⟨this.1, by simpa [ArrayState.empty] using this.2⟩
  · have ha := (ht ▸ hi.asserts t : (Call.getDone none).Asserts N m.arr)
    have h0 := hi.empty_iff.1 ha.2
    obtain ⟨-, hf, hg⟩ := hl.stable (I := Closed m)
      (fun _ _ _ H' h => (inv_reachable hN H').closed_step h0 h) H ⟨ha.1, rfl, fun _ _ h => h⟩
    have hda : m'.ghost.delivered = m'.ghost.accepted := by
      have := (inv_reachable hN (H.leads hl)).accepted_eq
      rw [show m'.items = [] from (congrArg Fifo.held hf).trans h0, List.append_nil] at this
      exact this.symm
    refine ⟨hg, congrArg Fifo.delivered hf, hda, fun x => ?_⟩
    rw [hda]
    exact (account_reachable x (H.leads hl)).accepted

/-- One put is accepted and taken; the next finds the queue shut down, and so does a get. -/
def refusedRun : List (Act Bool Nat) :=
  .begin false (.put 3) :: List.replicate 6 (.move false (.run none)) ++
  .leave false :: .begin false .get :: List.replicate 9 (.move false (.run none)) ++
  .leave false :: .begin false (.put 7) :: .begin true .free ::
  List.replicate 7 (.move true (.run none)) ++
  List.replicate 3 (.move false (.run none)) ++
  .leave false :: .begin false .get :: List.replicate 7 (.move false (.run none))

theorem shutdown_drains_refused :
    ∃ m : Monitor Bool Nat, (system Bool Nat 2).Reachable m ∧ m.ghost.putNo = [7] ∧
      m.call false = .getDone none ∧ m.arr.shutdown = true ∧
      ∀ m', (system Bool Nat 2).Leads m m' →
        m'.ghost.delivered = [3] ∧ m'.ghost.delivered = m'.ghost.accepted := by
  have h : ∃ m ∈ TransitionSystem.exec (step 2) refusedRun init, m.ghost.putNo = [7] ∧
      m.call false = .getDone none ∧ m.arr.shutdown = true ∧ m.ghost.delivered = [3] := by
    decide +kernel
  obtain ⟨m, hm, hno, hc, hs, hd⟩ := h
  have hr := TransitionSystem.reachable_exec hm
  refine ⟨m, hr, hno, hc, hs, fun m' hl => ?_⟩
  obtain ⟨-, h1, h2, -⟩ := (shutdown_drains (by decide) hr).2.2.2.2 false hc m' hl
  exact ⟨h1.trans hd, h2⟩

end Monitor
end DnsResolver
