import DnsResolver.Array.ArrayInv

/-!
# The queue refines a bounded FIFO

What a move of one thread does to the history of a queue (`MoveView`): nothing, one pointer
accepted, or the oldest pointer delivered. With the ring invariant this makes the queue a
bounded FIFO (`refines_fifo`), whose accepted pointers are those of the puts that return
`ARRAY_SUCCESS`, in the order of the lock (`accepted_reachable`). -/

namespace DnsResolver
open Function

variable {T α : Type} {N : Nat} {t : T} {s s' : ArrayState T α} {o : Out T α} {c : Call α}

/-- The operation of a call in progress or returned. -/
def Call.op : Call α → Option (Op α)
  | .idle => none
  | .put x _ => some (.put x)
  | .putDone x _ => some (.put x)
  | .get _ => some .get
  | .getDone _ => some .get
  | .free _ => some .free
  | .freeDone => some .free

def PutPc.stored : PutPc → Bool
  | .signal | .unlock => true
  | _ => false

def GetPc.got : GetPc α → Option α
  | .signalEmptied x | .signalNotFull x | .unlock x | .fetchSubLast x => some x
  | _ => none

/-- The element that an `array_get` call has taken out of the queue. -/
def Call.got : Call α → Option α
  | .get pc => pc.got
  | .getDone r => r
  | _ => none

/-- The pointer a call holds: the argument of a put until it is stored, the element of a get
once it is taken. A refused put gives its argument back. -/
def Call.holds : Call α → Option α
  | .put x pc => if pc.stored then none else some x
  | .putDone x .shutdown => some x
  | .get pc => pc.got
  | .getDone r => r
  | _ => none

/-- The pointer that an `array_put` call has stored. -/
def Call.gave : Call α → Option α
  | .put x pc => if pc.stored then some x else none
  | .putDone x .success => some x
  | _ => none

/-- The pointer of a put that has stored it and has still to return. -/
def Call.storing : Call α → List α
  | .put x pc => if pc.stored then [x] else []
  | _ => []

/-- What a call has taken out and what it has stored are the same. -/
structure Call.SameHands (c c' : Call α) : Prop where
  got : c'.got = c.got
  gave : c'.gave = c.gave

@[simp] theorem Call.op_wake {r : WaitResult} : (c.wake r).op = c.op := by
  unfold Call.wake
  split <;> rfl

@[simp] theorem Call.holds_wake {r : WaitResult} : (c.wake r).holds = c.holds := by
  unfold Call.wake
  split <;> rfl

@[simp] theorem Call.got_wake {r : WaitResult} : (c.wake r).got = c.got := by
  unfold Call.wake
  split <;> rfl

@[simp] theorem Call.gave_wake {r : WaitResult} : (c.wake r).gave = c.gave := by
  unfold Call.wake
  split <;> rfl

@[simp] theorem Call.storing_wake {r : WaitResult} : (c.wake r).storing = c.storing := by
  unfold Call.wake
  split <;> rfl

/-- A pointer is stored and the put returns under one lock. -/
theorem Call.storing_unlocked (h : c.holdsLock = false) : c.storing = [] := by
  cases c with
  | put x pc => cases pc <;> first | rfl | cases h
  | _ => rfl

theorem CallStep.op (h : CallStep N t s c o) : o.call.op = c.op := by
  cases h <;> rfl

/-- The slots and the cursors are the same. -/
structure ArrayState.SameRing (s s' : ArrayState T α) : Prop where
  storeString : s'.storeString = s.storeString
  head : s'.head = s.head
  tail : s'.tail = s.tail

/-- What a statement does to the ring and its history. -/
theorem CallStep.history (h : CallStep N t s c o) :
    (s.SameRing o.arr ∧ o.call.holds = c.holds ∧ o.call.got = c.got ∧
      ∀ x, o.event ≠ some (.store x) ∧ o.event ≠ some (.take x)) ∨
    (∃ x, c = .put x .store ∧ o.call = .put x .signal ∧
      o.arr.storeString = update s.storeString s.tail (some x) ∧ o.event = some (.store x)) ∨
    (∃ x, c = .get .take ∧ s.storeString s.head = some x ∧ o.call.holds = some x ∧
      o.call.got = some x ∧ o.arr.storeString = s.storeString ∧ o.event = some (.take x)) := by
  cases h with
  | put_store => exact .inr <| .inl ⟨_, rfl, rfl, rfl, rfl⟩
  | get_take_last hx | get_take hx => exact .inr <| .inr ⟨_, rfl, hx, rfl, rfl, rfl, rfl⟩
  | _ => exact .inl ⟨⟨rfl, rfl, rfl⟩, rfl, rfl, fun _ => ⟨nofun, nofun⟩⟩

/-- A put has stored its pointer when it has made its store. -/
theorem CallStep.gave (h : CallStep N t s c o) :
    o.call.gave = c.gave ∨ ∃ x, c = .put x .store ∧ o.call = .put x .signal := by
  cases h with
  | put_store => exact .inr ⟨_, rfl, rfl⟩
  | _ => exact .inl rfl

/-- What a statement adds to the accepted pointers and to those of the puts that have returned
`ARRAY_SUCCESS`. -/
theorem CallStep.accepted (h : CallStep N t s c o) (g : Ghost T α) :
    (g.accepted = g.putOk ++ c.storing →
      (g.record o.event).accepted = (g.record o.event).putOk ++ o.call.storing) ∧
    (c.holdsLock = false →
      (g.record o.event).accepted = g.accepted ∧ (g.record o.event).putOk = g.putOk) := by
  cases h with
  | @put_store x =>
    refine ⟨fun hg => ?_, nofun⟩
    have hg : g.accepted = g.putOk := hg.trans (List.append_nil _)
    exact congrArg (· ++ [x]) hg
  | put_unlock => exact ⟨fun hg => hg.trans (List.append_nil _).symm, nofun⟩
  | _ => exact ⟨id, fun _ => ⟨rfl, rfl⟩⟩

theorem Ghost.record_accepted {g : Ghost T α} {e : Option (Event α)}
    (h : ∀ x, e ≠ some (.store x)) : (g.record e).accepted = g.accepted := by
  unfold Ghost.record
  split <;> first | rfl | exact absurd rfl (h _)

theorem Ghost.record_delivered {g : Ghost T α} {e : Option (Event α)}
    (h : ∀ x, e ≠ some (.take x)) : (g.record e).delivered = g.delivered := by
  unfold Ghost.record
  split <;> first | rfl | exact absurd rfl (h _)

namespace Monitor
variable {m m' : Monitor T α} {mv : Move T}

/-- What a move of `t` does to the contents of the queue. -/
inductive MoveView (N : Nat) (t : T) (m m' : Monitor T α) : Prop
  | stay : m.arr.SameRing m'.arr → m'.ghost.accepted = m.ghost.accepted → m'.ghost.delivered = m.ghost.delivered →
    (∀ u, (m'.call u).holds = (m.call u).holds ∧ (m'.call u).got = (m.call u).got) →
    MoveView N t m m'
  | accept (x : α) : m.call t = .put x .store → m'.call t = .put x .signal →
    m.arr.shutdown = false → m.items.length + 1 < N →
    m'.arr.storeString = update m.arr.storeString m.arr.tail (some x) →
    m'.ghost.accepted = m.ghost.accepted ++ [x] → m'.ghost.delivered = m.ghost.delivered →
    (∀ u ≠ t, (m'.call u).holds = (m.call u).holds ∧ (m'.call u).got = (m.call u).got) →
    MoveView N t m m'
  | deliver (x : α) : m.call t = .get .take → (m'.call t).holds = some x →
    (m'.call t).got = some x → m.items = x :: m'.items →
    m'.arr.storeString = m.arr.storeString →
    m'.ghost.accepted = m.ghost.accepted → m'.ghost.delivered = m.ghost.delivered ++ [x] →
    (∀ u ≠ t, (m'.call u).holds = (m.call u).holds ∧ (m'.call u).got = (m.call u).got) →
    MoveView N t m m'

variable [DecidableEq T] [Fintype T]

theorem move_op (h : m.move N t mv = some m') (u : T) : (m'.call u).op = (m.call u).op := by
  obtain ⟨o, w, call', hs, hw, -, rfl⟩ | ⟨r, v, hv, -, -, rfl⟩ := move_cases h <;>
    by_cases hu : u = t
  · subst hu
    simpa using hs.op
  · simpa [hu] using wakeUp_congr (f := Call.op) (fun _ => Call.op_wake) hw u
  · subst hu
    simp
  · simp [hu]

/-- A move of a thread other than the store of a put leaves what every call has stored. -/
theorem move_gave (h : m.move N t mv = some m') (u : T) :
    (m'.call u).gave = (m.call u).gave ∨
      u = t ∧ ∃ x, m.call t = .put x .store ∧ m'.call t = .put x .signal := by
  obtain ⟨o, w, call', hs, hw, -, rfl⟩ | ⟨r, v, hv, -, -, rfl⟩ := move_cases h <;>
    by_cases hu : u = t
  · subst hu
    rcases hs.gave with hg | ⟨x, hx, hx'⟩
    · exact .inl (by simpa using hg)
    · exact .inr ⟨rfl, x, hx, by simpa using hx'⟩
  · exact .inl (by simpa [hu] using wakeUp_congr (f := Call.gave) (fun _ => Call.gave_wake) hw u)
  · subst hu
    exact .inl (by simp)
  · exact .inl (by simp [hu])

theorem Inv.moveView (H : m.Inv N) (h : m.move N t mv = some m') : MoveView N t m m' := by
  obtain ⟨o, w, call', hs, hw, -, rfl⟩ | ⟨r, v, hv, -, -, rfl⟩ := move_cases h
  · have ho := wakeUp_congr (f := Call.holds) (fun _ => Call.holds_wake) hw
    have hg := wakeUp_congr (f := Call.got) (fun _ => Call.got_wake) hw
    have ha := H.asserts t
    obtain ⟨h0, h1, h2, h3⟩ | ⟨x, hx, h1, h0, h2⟩ | ⟨x, hx, h1, h2, h3, h0, h4⟩ := hs.history
    · refine .stay h0 (Ghost.record_accepted fun x => (h3 x).1)
        (Ghost.record_delivered fun x => (h3 x).2) fun u => ?_
      by_cases hu : u = t
      · subst hu
        simp [h1, h2]
      · simp [hu, ho, hg]
    · rw [hx] at ha
      have hlen : m.items.length + 1 < N := by
        have hne : ¬ m.items.length + 1 = N := fun e => by
          have := ha.2
          rw [H.full_iff.2 e] at this
          cases this
        have := H.ring.length_lt
        omega
      exact .accept x hx (by simp [h1]) ha.1 hlen h0 (by rw [h2]; rfl) (by rw [h2]; rfl)
        fun u hu => by simp [hu, ho, hg]
    · rw [hx] at ha
      refine .deliver x hx (by simpa using h2) (by simpa using h3) ?_ h0 (by rw [h4]; rfl)
        (by rw [h4]; rfl) fun u hu => by simp [hu, ho, hg]
      rw [(H.pop ha h1).1, h4]
      rfl
  · refine .stay ⟨rfl, rfl, rfl⟩ rfl rfl fun u => ?_
    by_cases hu : u = t
    · subst hu
      simp
    · simp [hu]

end Monitor

/-! ## The bounded FIFO -/

/-- A bounded FIFO: what it has accepted, what it has delivered and what it holds. -/
structure Fifo (α : Type) where
  accepted : List α
  delivered : List α
  held : List α

namespace Fifo

inductive Act (α : Type)
  | put (x : α)
  | get (x : α)

/-- A put needs room, a get takes the oldest element. -/
inductive Step (cap : Nat) : Fifo α → Act α → Fifo α → Prop
  | put : f.held.length < cap →
    Step cap f (.put x) ⟨f.accepted ++ [x], f.delivered, f.held ++ [x]⟩
  | get : Step cap ⟨acc, del, x :: xs⟩ (.get x) ⟨acc, del ++ [x], xs⟩

theorem Step.get_inv {cap : Nat} {f f' : Fifo α} {x : α} (h : Step cap f (.get x) f') :
    f.held = x :: f'.held ∧ f'.accepted = f.accepted ∧ f'.delivered = f.delivered ++ [x] := by
  cases h
  exact ⟨rfl, rfl, rfl⟩

/-- The bounded FIFO as a system: any puts and gets, in any order. -/
def system (α : Type) (cap : Nat) : TransitionSystem (Fifo α) (Act α) where
  init f := f = ⟨[], [], []⟩
  step := Step cap

/-- A bounded FIFO loses, duplicates and reorders nothing. -/
theorem conserves {cap : Nat} {f : Fifo α} (H : (system α cap).Reachable f) :
    f.accepted = f.delivered ++ f.held ∧ f.held.length ≤ cap := by
  induction H with
  | init h =>
    cases h
    exact ⟨rfl, Nat.zero_le _⟩
  | step _ h ih =>
    obtain ⟨h1, h2⟩ := ih
    cases h with
    | put h => exact ⟨by simp [h1], by simpa using Nat.succ_le_of_lt h⟩
    | get => exact ⟨by simpa using h1, Nat.le_of_succ_le h2⟩

end Fifo

namespace Monitor
variable {m m' : Monitor T α}

/-- The FIFO that a queue stands for. -/
def fifo (m : Monitor T α) : Fifo α := ⟨m.ghost.accepted, m.ghost.delivered, m.items⟩

/-- What a step means for the FIFO: nothing; or a store of an accepted pointer into a slot
outside the window, when there is room; or a get that takes the oldest pointer. A put has stored
its pointer, and a get has an element, only by such a step of its own. -/
inductive RefinesStep (N : Nat) (m : Monitor T α) (a : Act T α) (m' : Monitor T α) : Prop
  | skip : m'.fifo = m.fifo → m.arr.SameRing m'.arr →
    (∀ u, a ≠ .leave u → (m.call u).SameHands (m'.call u)) → RefinesStep N m a m'
  | put (t : T) (mv : Move T) (x : α) : a = .move t mv → m.call t = .put x .store →
    Fifo.Step (N - 1) m.fifo (.put x) m'.fifo →
    (∀ i < m.items.length, (m.arr.head + i) % N ≠ m.arr.tail) →
    m'.arr.storeString = update m.arr.storeString m.arr.tail (some x) →
    (m'.call t).gave = some x → (∀ u ≠ t, (m.call u).SameHands (m'.call u)) →
    RefinesStep N m a m'
  | get (t : T) (mv : Move T) (x : α) : a = .move t mv → m.call t = .get .take →
    Fifo.Step (N - 1) m.fifo (.get x) m'.fifo → (m'.call t).got = some x →
    m'.arr.storeString = m.arr.storeString → (∀ u ≠ t, (m.call u).SameHands (m'.call u)) →
    RefinesStep N m a m'

theorem Inv.items_store (H : m.Inv N) (ha : m'.ghost.accepted = m.ghost.accepted ++ [x])
    (hd : m'.ghost.delivered = m.ghost.delivered) : m'.items = m.items ++ [x] := by
  rw [items, ha, hd, List.drop_append_of_le_length H.split.length_le]
  rfl

variable [DecidableEq T] [Fintype T]

theorem Inv.refinesStep (H : m.Inv N) {a : Act T α} (h : m.step N a = some m') :
    RefinesStep N m a m' := by
  cases a with
  | begin t op =>
    obtain ⟨ht, rfl⟩ := begin_cases h
    refine .skip rfl ⟨rfl, rfl, rfl⟩ fun u _ => ?_
    by_cases hu : u = t
    · subst hu
      constructor <;> cases op <;> simp [Monitor.begin, ht, Op.start, Call.got, GetPc.got,
        Call.gave, PutPc.stored]
    · constructor <;> simp [Monitor.begin, hu]
  | leave t =>
    obtain ⟨ht, rfl⟩ := leave_cases h
    refine .skip rfl ⟨rfl, rfl, rfl⟩ fun u hu => ?_
    have hu : u ≠ t := fun e => hu (e ▸ rfl)
    constructor <;> simp [Monitor.leave, hu]
  | move t mv =>
    have hv := move_gave (N := N) h
    have hother {u : T} (hu : u ≠ t) : (m'.call u).gave = (m.call u).gave :=
      (hv u).resolve_right fun he => hu he.1
    cases H.moveView h with
    | stay hr ha hd hg =>
      refine .skip ?_ hr fun u _ => ⟨(hg u).2, (hv u).resolve_right ?_⟩
      · simp [fifo, items, ha, hd]
      · rintro ⟨-, x, hx, hx'⟩
        have := (hg t).1
        rw [hx, hx'] at this
        cases this
    | accept x ht ht' _ hlen hs ha hd hg =>
      refine .put t mv x rfl ht ?_ (fun i hi => H.ring.tail_free hi) hs (by rw [ht']; rfl)
        fun u hu => ⟨(hg u hu).2, hother hu⟩
      have hm : m'.fifo = ⟨m.fifo.accepted ++ [x], m.fifo.delivered, m.fifo.held ++ [x]⟩ := by
        rw [fifo, H.items_store ha hd, ha, hd]
        rfl
      exact hm ▸ .put (Nat.lt_sub_of_add_lt hlen)
    | deliver x ht _ hg hi hs ha hd hu =>
      refine .get t mv x rfl ht ?_ hg hs fun u hne => ⟨(hu u hne).2, hother hne⟩
      have hm : m.fifo = ⟨m.ghost.accepted, m.ghost.delivered, x :: m'.items⟩ := by
        rw [fifo, hi]
      rw [hm, fifo, ha, hd]
      exact .get

/-- The pointer that is stored and whose put has still to return, if there is one. -/
def storing (m : Monitor T α) : List α :=
  match m.arr.lock with
  | some t => (m.call t).storing
  | none => []

omit [DecidableEq T] [Fintype T] in
theorem storing_eq (H : m.Inv N) (ht : (m.call t).holdsLock = true) :
    m.storing = (m.call t).storing := by
  rw [storing, (H.lock t).2 ht]

omit [DecidableEq T] [Fintype T] in
theorem storing_none (h : m.arr.lock = none) : m.storing = [] := by
  rw [storing, h]

omit [DecidableEq T] [Fintype T] in
/-- The pointer stays the same with the holder of the lock. -/
theorem storing_congr (hl : m'.arr.lock = m.arr.lock)
    (h : ∀ u, (m'.call u).storing = (m.call u).storing) : m'.storing = m.storing := by
  unfold storing
  rw [hl]
  split
  · exact h _
  · rfl

omit [Fintype T] in
theorem storing_update {g : Ghost T α} (h : c.storing = (m.call t).storing) :
    storing ⟨m.arr, update m.call t c, g⟩ = m.storing := by
  refine storing_congr (m := m) rfl fun u => ?_
  by_cases hu : u = t
  · subst hu
    simpa using h
  · simp [hu]

theorem accepted_move (H : m.Inv N) (h : m.move N t mv = some m')
    (ha : m.ghost.accepted = m.ghost.putOk ++ m.storing) :
    m'.ghost.accepted = m'.ghost.putOk ++ m'.storing := by
  have H' := H.move h
  obtain ⟨o, w, call', hs, hw, -, rfl⟩ | ⟨r, v, hv, -, -, rfl⟩ := move_cases h
  · obtain ⟨h1, h2⟩ := hs.accepted m.ghost
    have ht : (update call' t o.call t).storing = o.call.storing := by rw [update_self]
    have hh : (update call' t o.call t).holdsLock = o.call.holdsLock := by rw [update_self]
    rcases hs.lock with ⟨hc, hl⟩ | ⟨hc, hl, ho, -⟩ | ⟨hc, ho, hl⟩
    · by_cases hlock : (m.call t).holdsLock = true
      · rw [storing_eq H' (hh.trans (hc ▸ hlock))]
        exact (h1 (storing_eq H hlock ▸ ha)).trans (congrArg _ ht.symm)
      · rw [Bool.not_eq_true] at hlock
        obtain ⟨e1, e2⟩ := h2 hlock
        have hst : ∀ u, (update call' t o.call u).storing = (m.call u).storing := by
          intro u
          by_cases hu : u = t
          · subst hu
            rw [ht, Call.storing_unlocked hlock, Call.storing_unlocked (hc ▸ hlock)]
          · rw [update_of_ne hu]
            exact wakeUp_congr (f := Call.storing) (fun _ => Call.storing_wake) hw u
        rw [storing_congr (m := m) hl hst]
        exact e1.trans (ha.trans (congrArg (· ++ m.storing) e2.symm))
    · rw [storing_none hl, ← Call.storing_unlocked hc] at ha
      rw [storing_eq H' (hh.trans ho)]
      exact (h1 ha).trans (congrArg _ ht.symm)
    · rw [storing_eq H hc] at ha
      rw [storing_none hl, ← Call.storing_unlocked ho]
      exact h1 ha
  · exact ha.trans (congrArg _ (storing_update Call.storing_wake).symm)

/-- The accepted pointers are those of the puts that have returned `ARRAY_SUCCESS` or are about to,
in the order of the lock. -/
theorem accepted_reachable (hN : 2 ≤ N) (H : (system T α N).Reachable m) :
    m.ghost.accepted = m.ghost.putOk ++ m.storing := by
  refine H.invariant (I := fun m => m.ghost.accepted = m.ghost.putOk ++ m.storing) ?_ ?_
  · rintro _ rfl
    rfl
  · intro m a m' H h ha
    cases a with
    | begin t op =>
      obtain ⟨ht, rfl⟩ := begin_cases h
      have hc : op.start.storing = (m.call t).storing := by
        rw [ht]
        cases op <;> rfl
      exact ha.trans (congrArg _ (storing_update hc).symm)
    | move t mv => exact accepted_move (inv_reachable hN H) h ha
    | leave t =>
      obtain ⟨ht, rfl⟩ := leave_cases h
      have hc : Call.idle.storing = (m.call t).storing :=
        (Call.storing_unlocked (Call.holdsLock_of_done ht)).symm
      exact ha.trans (congrArg _ (storing_update hc).symm)

/-- A queue of size `N` simulates the FIFO of capacity `N - 1`. -/
theorem fifo_simulation (hN : 2 ≤ N) :
    TransitionSystem.Simulation (system T α N) (Fifo.system α (N - 1)) fifo where
  init := by
    rintro _ rfl
    rfl
  step m a m' H h := by
    cases (inv_reachable hN H).refinesStep h with
    | skip hf => rw [hf]; exact .refl
    | put t mv x _ _ hf => exact .single hf
    | get t mv x _ _ hf => exact .single hf

/-- **The ring buffer is a bounded FIFO.** In every reachable state the cursors are in range and
the window is exactly what the FIFO holds, which is what was accepted and not yet delivered; the
pointers accepted are those of the puts that have returned `ARRAY_SUCCESS` or are about to, in the
order of the lock; the pointers delivered are a prefix of them; and each further step refines the
FIFO. -/
theorem refines_fifo (hN : 2 ≤ N) (H : (system T α N).Reachable m) :
    (Fifo.system α (N - 1)).Reachable m.fifo ∧
    m.arr.head < N ∧ m.arr.tail < N ∧
    Ring.window N m.arr.storeString m.arr.head m.arr.tail = m.fifo.held.map some ∧
    m.fifo.accepted = m.fifo.delivered ++ m.fifo.held ∧ m.fifo.held.length ≤ N - 1 ∧
    m.fifo.accepted = m.ghost.putOk ++ m.storing ∧
    m.fifo.delivered <+: m.ghost.putOk ++ m.storing ∧
    ∀ a m', m.step N a = some m' → RefinesStep N m a m' := by
  have hi := inv_reachable hN H
  have hf := H.simulation (fifo_simulation hN)
  have ha : m.fifo.accepted = _ := accepted_reachable hN H
  obtain ⟨h1, h2⟩ := Fifo.conserves hf
  have hp : m.fifo.delivered <+: m.fifo.accepted := h1 ▸ List.prefix_append ..
  exact ⟨hf, hi.ring.head_lt, hi.ring.tail_lt, hi.ring.window_eq, h1, h2, ha, ha ▸ hp,
    fun _ _ => hi.refinesStep⟩

/-- On a queue of two slots: puts 1, takes it and puts 2, so that the tail wraps around. -/
def wrapRun : List (Act Bool Nat) :=
  .begin true (.put 1) :: List.replicate 6 (.move true (.run none)) ++
  .begin false .get :: List.replicate 9 (.move false (.run none)) ++
  .leave true :: .begin true (.put 2) :: List.replicate 6 (.move true (.run none))

theorem refines_fifo_wrapped :
    ∃ m : Monitor Bool Nat, (system Bool Nat 2).Reachable m ∧ m.arr.head = 1 ∧ m.arr.tail = 0 ∧
      Ring.window 2 m.arr.storeString m.arr.head m.arr.tail = [some 2] ∧
      m.ghost.putOk = [1, 2] ∧ m.fifo.accepted = m.ghost.putOk ++ m.storing ∧
      m.fifo.delivered <+: m.ghost.putOk ++ m.storing := by
  have h : ∃ m ∈ TransitionSystem.exec (step 2) wrapRun init, m.arr.head = 1 ∧ m.arr.tail = 0 ∧
      Ring.window 2 m.arr.storeString m.arr.head m.arr.tail = [some 2] ∧
      m.ghost.putOk = [1, 2] := by decide +kernel
  obtain ⟨m, hm, h1, h2, h3, h4⟩ := h
  have hr := TransitionSystem.reachable_exec hm
  obtain ⟨-, -, -, -, -, -, ha, hp, -⟩ := refines_fifo (by decide) hr
  exact ⟨m, hr, h1, h2, h3, h4, ha, hp⟩

end Monitor
end DnsResolver
