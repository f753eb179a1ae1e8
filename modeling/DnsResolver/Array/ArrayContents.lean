import DnsResolver.Array.ArrayFifo
import Mathlib.Tactic.Abel

/-!
# Where the pointers of a queue are

A pointer on its way through a queue is carried by the put that has not yet stored it, lies in
the queue, or is carried by the get that has taken it. A move inside a call only passes pointers
on between these places. -/

namespace DnsResolver
open Function

variable {T α : Type} {N : Nat} {t : T}

@[simp] theorem Call.op_eq_none {c : Call α} : c.op = none ↔ c = .idle := by
  cases c <;> simp [Call.op]

@[simp] theorem Op.start_op (o : Op α) : o.start.op = some o := by
  cases o <;> rfl

/-- The pointer a call carries, as a multiset. -/
def Call.carries (c : Call α) : Multiset α := ↑c.holds.toList

@[simp] theorem Call.carries_idle : (Call.idle : Call α).carries = 0 := rfl

@[simp] theorem Call.carries_getDone (r : Option α) :
    (Call.getDone r).carries = ↑r.toList := rfl

@[simp] theorem Call.carries_putDone_success (x : α) : (Call.putDone x .success).carries = 0 := rfl

@[simp] theorem Call.carries_putDone_shutdown (x : α) :
    (Call.putDone x .shutdown).carries = {x} := rfl

@[simp] theorem Call.carries_freeDone : (Call.freeDone : Call α).carries = 0 := rfl

theorem Call.holds_free {c : Call α} (h : c.op = some .free) : c.holds = none := by
  cases c <;> first | rfl | cases h

theorem Call.carries_free {c : Call α} (h : c.op = some .free) : c.carries = 0 := by
  rw [carries, holds_free h]
  rfl

theorem Call.carries_eq {c c' : Call α} (h : c.holds = c'.holds) : c.carries = c'.carries := by
  rw [carries, h]
  rfl

/-- The argument of an operation. -/
def Op.arg : Op α → Multiset α
  | .put x => {x}
  | _ => 0

@[simp] theorem Op.start_carries (o : Op α) : o.start.carries = o.arg := by
  cases o <;> rfl

namespace Monitor
variable [DecidableEq T] [Fintype T] {m m' : Monitor T α} {mv : Move T}

/-- A move passes at most one pointer on, between the queue and the call that moves. -/
theorem Inv.contents_move (H : m.Inv N) (h : m.move N t mv = some m') :
    (m'.items : Multiset α) + (m'.call t).carries = m.items + (m.call t).carries ∧
    ∀ u ≠ t, (m'.call u).carries = (m.call u).carries := by
  have hi := H.moveView h
  cases hi with
  | stay _ ha hd hh =>
    refine ⟨?_, fun u _ => Call.carries_eq (hh u).1⟩
    rw [Call.carries_eq (hh t).1, items, ha, hd]
    rfl
  | accept x ht ht' _ _ _ ha hd hh =>
    refine ⟨?_, fun u hu => Call.carries_eq (hh u hu).1⟩
    rw [H.items_store ha hd, ht, ht', ← Multiset.coe_add]
    simp [Call.carries, Call.holds, PutPc.stored]
  | deliver x ht ht' _ hi _ _ _ hh =>
    refine ⟨?_, fun u hu => Call.carries_eq (hh u hu).1⟩
    have hc : (m'.call t).carries = {x} := by
      rw [Call.carries, ht']
      rfl
    have h0 : (Call.get .take : Call α).carries = 0 := rfl
    rw [hi, ht, hc, h0, ← Multiset.cons_coe, add_zero, add_comm, Multiset.singleton_add]

/-- All pointers in a queue or in a call on it. -/
def contents (m : Monitor T α) : Multiset α := m.items + ∑ u, (m.call u).carries

theorem Inv.contents_eq (H : m.Inv N) (h : m.move N t mv = some m') : m'.contents = m.contents := by
  obtain ⟨h1, h2⟩ := H.contents_move h
  have h3 := Tally.sum_of_ne h2
  have h4 : m'.contents + (m'.call t).carries + (m.call t).carries =
      m.contents + (m'.call t).carries + (m.call t).carries := by
    calc m'.contents + (m'.call t).carries + (m.call t).carries
        = (m'.items + (m'.call t).carries) + (∑ u, (m'.call u).carries + (m.call t).carries) := by
          rw [contents]
          abel
      _ = (m.items + (m.call t).carries) + (∑ u, (m.call u).carries + (m'.call t).carries) := by
          rw [h1, h3]
      _ = m.contents + (m'.call t).carries + (m.call t).carries := by
          rw [contents]
          abel
  exact add_right_cancel (add_right_cancel h4)

end Monitor
end DnsResolver
