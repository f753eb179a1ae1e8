import DnsResolver.Array.ArraySteps
import DnsResolver.Lib.Ring

/-!
# The invariant of a queue

`Monitor.Inv`: the lock is held by exactly the threads between their `pthread_mutex_lock` and
`pthread_mutex_unlock`; what each control point knows about the struct (`Call.Asserts`) is
true; and the ring holds the accepted and not yet delivered pointers. It holds of every
reachable state, for any number of threads and calls. -/

namespace DnsResolver
open Function

variable {T α : Type} {N : Nat} {t : T} {s s' : ArrayState T α} {o : Out T α} {c : Call α}

def PutPc.Asserts (N : Nat) (s : ArrayState T α) : PutPc → Prop
  | .guard => s.shutdown = false
  | .store => s.shutdown = false ∧ s.full N = false
  | .refuse => s.shutdown = true
  | _ => True

def GetPc.Asserts (s : ArrayState T α) : GetPc α → Prop
  | .check => s.shutdown = false → s.empty = false
  | .take => s.empty = false
  | .fetchSub _ => s.shutdown = true ∧ s.empty = true
  | .signalDone _ => s.shutdown = true ∧ s.empty = true
  | .refuse _ => s.shutdown = true ∧ s.empty = true
  | _ => True

def FreePc.Asserts (s : ArrayState T α) : FreePc → Prop
  | .lock => True
  | .setShutdown => True
  | _ => s.shutdown = true

/-- What a thread knows about the struct from the tests it has made. -/
def Call.Asserts (N : Nat) (s : ArrayState T α) : Call α → Prop
  | .put _ pc => pc.Asserts N s
  | .putDone _ .shutdown => s.shutdown = true
  | .get pc => pc.Asserts s
  | .getDone none => s.shutdown = true ∧ s.empty = true
  | .free pc => pc.Asserts s
  | .freeDone => s.shutdown = true
  | _ => True

theorem ArrayState.SameData.full (h : s.SameData s') : s'.full N = s.full N := by
  simp [ArrayState.full, h.head, h.tail]

theorem ArrayState.SameData.empty (h : s.SameData s') : s'.empty = s.empty := by
  simp [ArrayState.empty, h.head, h.tail]

theorem ArrayState.SameData.asserts (h : s.SameData s') : c.Asserts N s' ↔ c.Asserts N s := by
  cases c with
  | put x pc => cases pc <;> simp [Call.Asserts, PutPc.Asserts, h.full, h.shutdown]
  | get pc => cases pc <;> simp [Call.Asserts, GetPc.Asserts, h.empty, h.shutdown]
  | free pc => cases pc <;> simp [Call.Asserts, FreePc.Asserts, h.shutdown]
  | putDone x r => cases r <;> simp [Call.Asserts, h.shutdown]
  | getDone r => cases r <;> simp [Call.Asserts, h.empty, h.shutdown]
  | _ => simp [Call.Asserts, h.shutdown]

/-- What a thread outside the lock knows is stable: the flag is never reset, and a queue that
is shut down and empty stays so. -/
theorem Call.Asserts.stable (h : c.Asserts N s) (hc : c.holdsLock = false)
    (hs : s.shutdown = true → s'.shutdown = true)
    (he : s.shutdown = true → s.empty = true → s'.empty = true) : c.Asserts N s' := by
  cases c with
  | put x pc => cases pc <;> trivial
  | get pc => cases pc <;> trivial
  | free pc => cases pc <;> first | trivial | exact hs h
  | putDone x r =>
    cases r with
    | success => trivial
    | shutdown => exact hs h
  | getDone r =>
    cases r with
    | some x => trivial
    | none => exact ⟨hs h.1, he h.1 h.2⟩
  | idle => trivial
  | freeDone => exact hs h

theorem Call.Asserts.wake (h : c.Asserts N s) (r : WaitResult) : (c.wake r).Asserts N s := by
  unfold Call.wake
  split <;> trivial

/-- Each statement establishes what its successor knows. -/
theorem CallStep.asserts (h : CallStep N t s c o) (H : c.Asserts N s) :
    o.call.Asserts N o.arr := by
  cases h with
  | get_check h =>
    cases hs : s.shutdown
    · exact H hs
    · exact h hs
  | put_pass h => exact ⟨H, h H⟩
  | put_entry_shutdown h | put_recheck_shutdown h | put_entry h | put_recheck h
  | get_pass h => exact h
  | get_recheck_exit h h' | get_check_exit h h' => exact ⟨h, h'⟩
  | free_setShutdown => rfl
  | _ => trivial

/-- A statement keeps an empty queue empty once the flag is set. -/
theorem CallStep.empty_stable (h : CallStep N t s c o) (H : c.Asserts N s)
    (hs : s.shutdown = true) (he : s.empty = true) : o.arr.empty = true := by
  cases h with
  | put_store => exact absurd H.1 (by simp [hs])
  | get_take_last | get_take => exact absurd he (by simp [show s.empty = false from H])
  | _ => exact he

namespace Monitor
variable {m m' : Monitor T α}

/-- The invariant of a queue and the calls on it. -/
structure Inv (N : Nat) (m : Monitor T α) : Prop where
  lock : ∀ u, m.arr.lock = some u ↔ (m.call u).holdsLock = true
  asserts : ∀ u, (m.call u).Asserts N m.arr
  split : m.ghost.delivered <+: m.ghost.accepted
  ring : Ring.Holds N m.arr.storeString m.arr.head m.arr.tail m.items

theorem Inv.accepted_eq (H : m.Inv N) : m.ghost.accepted = m.ghost.delivered ++ m.items :=
  List.prefix_append_drop H.split

theorem Inv.empty_iff (H : m.Inv N) : m.arr.empty = true ↔ m.items = [] := by
  rw [← H.ring.empty_iff, ArrayState.empty, beq_iff_eq]

theorem Inv.full_iff (H : m.Inv N) : m.arr.full N = true ↔ m.items.length + 1 = N := by
  rw [← H.ring.full_iff, ArrayState.full, beq_iff_eq]

theorem Inv.count_eq (H : m.Inv N) : m.arr.count N = m.items.length := H.ring.length_eq

/-- The slots of the window, by their distance from `head`. -/
theorem Inv.slot_iff (H : m.Inv N) {k : Nat} {x : α} :
    k < m.arr.count N ∧ m.arr.storeString ((m.arr.head + k) % N) = some x ↔
      m.items[k]? = some x := by
  rw [H.count_eq]
  constructor
  · rintro ⟨hk, hx⟩
    rw [H.ring.slot_eq k hk] at hx
    rw [List.getElem?_eq_getElem hk, hx]
  · intro hx
    obtain ⟨hk, rfl⟩ := List.getElem?_eq_some_iff.1 hx
    exact ⟨hk, H.ring.slot_eq k hk⟩

theorem inv_init (hN : 2 ≤ N) : (init : Monitor T α).Inv N where
  lock u := by simp [init, arrayInit, Call.holdsLock]
  asserts u := trivial
  split := List.nil_prefix
  ring := .init (by omega)

/-- While `t` holds the lock, no other thread does. -/
theorem Inv.not_holdsLock (H : m.Inv N) (ht : (m.call t).holdsLock = true) {u : T} (hu : u ≠ t) :
    (m.call u).holdsLock = false := by
  by_contra h
  rw [Bool.not_eq_false, ← H.lock u, (H.lock t).2 ht, Option.some.injEq] at h
  exact hu h.symm

theorem Inv.push (H : m.Inv N) (h : m.arr.full N = false) (x : α) :
    m.ghost.delivered <+: m.ghost.accepted ++ [x] ∧
    Ring.Holds N (update m.arr.storeString m.arr.tail (some x)) m.arr.head
      ((m.arr.tail + 1) % N) ((m.ghost.accepted ++ [x]).drop m.ghost.delivered.length) := by
  refine ⟨H.split.trans (List.prefix_append ..), ?_⟩
  rw [List.drop_append_of_le_length H.split.length_le]
  exact H.ring.push (by simpa [ArrayState.full] using h) x

theorem Inv.pop (H : m.Inv N) (h : m.arr.empty = false) {x : α}
    (hx : m.arr.storeString m.arr.head = some x) :
    let ys := m.ghost.accepted.drop (m.ghost.delivered ++ [x]).length
    m.items = x :: ys ∧ m.ghost.delivered ++ [x] <+: m.ghost.accepted ∧
      Ring.Holds N m.arr.storeString ((m.arr.head + 1) % N) m.arr.tail ys := by
  obtain ⟨y, ys, hys, hy, hr⟩ := H.ring.pop (by simpa [ArrayState.empty] using h)
  rw [hx, Option.some.injEq] at hy
  subst hy
  have hacc : m.ghost.accepted = m.ghost.delivered ++ [x] ++ ys := by
    rw [H.accepted_eq, hys, List.append_assoc, List.singleton_append]
  have hdrop : m.ghost.accepted.drop (m.ghost.delivered ++ [x]).length = ys := by
    rw [hacc, List.drop_left]
  rw [hdrop]
  exact ⟨hys, hacc ▸ List.prefix_append .., hr⟩

/-- The history and the ring through a statement: a store appends, a take drops the oldest. -/
theorem ring_run (call' : T → Call α) (H : m.Inv N) (h : CallStep N t m.arr (m.call t) o) :
    let m' : Monitor T α := ⟨o.arr, call', m.ghost.record o.event⟩
    m'.ghost.delivered <+: m'.ghost.accepted ∧
      Ring.Holds N m'.arr.storeString m'.arr.head m'.arr.tail m'.items := by
  have ha := H.asserts t
  generalize m.call t = c at h ha
  cases h with
  | put_store => exact H.push ha.2 _
  | get_take_last hx | get_take hx =>
    exact (H.pop ha hx).2
  | _ => exact ⟨H.split, H.ring⟩

variable [DecidableEq T] [Fintype T]

/-- The lock invariant through a statement and the wake-ups it causes. -/
theorem lock_run {call' : T → Call α} {w : Option T}
    (H : ∀ u, m.arr.lock = some u ↔ (m.call u).holdsLock = true)
    (h : CallStep N t m.arr (m.call t) o) (hw : wakeUp m.call o.wake w = some call') (u : T) :
    o.arr.lock = some u ↔ (update call' t o.call u).holdsLock = true := by
  have hu := wakeUp_congr (f := Call.holdsLock) (fun c => Call.holdsLock_wake) hw u
  by_cases hut : u = t
  · subst hut
    rw [update_self]
    obtain ⟨h1, h2⟩ | ⟨_, _, h3, h4⟩ | ⟨_, h3, h4⟩ := h.lock
    · rw [h2, ← h1, H u]
    · simp [h3, h4]
    · simp [h3, h4]
  · rw [update_of_ne hut, hu]
    obtain ⟨h1, h2⟩ | ⟨_, h2, _, h4⟩ | ⟨h1, _, h4⟩ := h.lock
    · rw [h2, H u]
    · rw [h4, ← H u, h2]
      simp [Ne.symm hut]
    · rw [h4, ← H u, (H t).2 h1]
      simp [Ne.symm hut]

theorem asserts_run {call' : T → Call α} {w : Option T} (H : m.Inv N)
    (h : CallStep N t m.arr (m.call t) o) (hw : wakeUp m.call o.wake w = some call') (u : T) :
    (update call' t o.call u).Asserts N o.arr := by
  by_cases hut : u = t
  · subst hut
    rw [update_self]
    exact h.asserts (H.asserts u)
  · have hu : (m.call u).Asserts N o.arr := by
      obtain hd | ⟨ht, -⟩ := h.data
      · exact hd.asserts.2 (H.asserts u)
      · exact (H.asserts u).stable (H.not_holdsLock ht hut) h.shutdown_mono
          (h.empty_stable (H.asserts t))
    rw [update_of_ne hut]
    obtain h1 | ⟨_, _, _, h1⟩ := wakeUp_apply hw u <;> rw [h1]
    · exact hu
    · exact hu.wake _

theorem Inv.move (H : m.Inv N) (h : m.move N t mv = some m') : m'.Inv N := by
  obtain ⟨o, w, call', hs, hw, -, rfl⟩ | ⟨r, v, hv, -, -, rfl⟩ := move_cases h
  · obtain ⟨h1, h2⟩ := ring_run (update call' t o.call) H hs
    exact ⟨lock_run H.lock hs hw, asserts_run H hs hw, h1, h2⟩
  · refine ⟨fun u => ?_, fun u => ?_, H.split, H.ring⟩ <;> by_cases hu : u = t
    · subst hu
      simpa using H.lock u
    · simpa [hu] using H.lock u
    · subst hu
      simpa using (H.asserts u).wake r
    · simpa [hu] using H.asserts u

omit [Fintype T] in
/-- A thread outside the lock may be put at a control point that knows nothing. -/
theorem Inv.update_call (H : m.Inv N) (ht : (m.call t).holdsLock = false)
    (hc : c.holdsLock = false) (ha : c.Asserts N m.arr) (u : T) :
    (m.arr.lock = some u ↔ (update m.call t c u).holdsLock = true) ∧
      (update m.call t c u).Asserts N m.arr := by
  by_cases hu : u = t
  · subst hu
    rw [update_self, hc, ← ht]
    exact ⟨H.lock u, ha⟩
  · rw [update_of_ne hu]
    exact ⟨H.lock u, H.asserts u⟩

omit [Fintype T] in
theorem Inv.begin (H : m.Inv N) (h : m.call t = .idle) (op : Op α) : (m.begin t op).Inv N := by
  have ht : (m.call t).holdsLock = false := by rw [h]; rfl
  have h' := H.update_call (c := op.start) ht (by cases op <;> rfl) (by cases op <;> trivial)
  exact ⟨fun u => (h' u).1, fun u => (h' u).2, H.split, H.ring⟩

omit [Fintype T] in
theorem Inv.leave (H : m.Inv N) (h : (m.call t).done = true) : (m.leave t).Inv N := by
  have ht : (m.call t).holdsLock = false := by
    cases hc : m.call t <;> simp_all [Call.done, Call.holdsLock]
  have h' := H.update_call (c := .idle) ht rfl trivial
  exact ⟨fun u => (h' u).1, fun u => (h' u).2, H.split, H.ring⟩

theorem Inv.step {a : Act T α} (H : m.Inv N) (h : m.step N a = some m') : m'.Inv N := by
  cases a with
  | begin t op =>
    obtain ⟨ht, rfl⟩ := begin_cases h
    exact H.begin ht op
  | move t mv => exact H.move h
  | leave t =>
    obtain ⟨ht, rfl⟩ := leave_cases h
    exact H.leave ht

theorem inv_reachable (hN : 2 ≤ N) (H : (system T α N).Reachable m) : m.Inv N :=
  H.invariant (fun _ h => by rw [h]; exact inv_init hN) fun _ _ _ _ h hi => hi.step h

end Monitor
end DnsResolver
