import Mathlib.Logic.Function.Basic
import Mathlib.Data.Nat.ModEq

/-!
# Ring buffers with one slot kept empty

`Ring.Holds N slot head tail xs` says that the slots from `head` up to `tail`, cyclically in
`N` slots, are the list `xs`, oldest first. The cursors coincide exactly when the list is
empty (`empty_iff`), `tail + 1` meets `head` exactly when `N - 1` items are held (`full_iff`),
a store at `tail` appends (`push`) and an advance of `head` drops the oldest item (`pop`).
Nothing is said about the slots outside the window. -/

namespace Ring
open Function

variable {α : Type} {N head tail : Nat} {slot : Nat → Option α} {xs : List α}

/-- The window of a ring and its contents as a list. -/
structure Holds (N : Nat) (slot : Nat → Option α) (head tail : Nat) (xs : List α) : Prop where
  head_lt : head < N
  length_lt : xs.length < N
  tail_eq : tail = (head + xs.length) % N
  slot_eq : ∀ i (h : i < xs.length), slot ((head + i) % N) = some xs[i]

theorem add_mod_inj (hi : i < N) (hj : j < N) (h : (head + i) % N = (head + j) % N) : i = j := by
  have h' : i ≡ j [MOD N] := Nat.ModEq.add_left_cancel' head h
  rwa [Nat.ModEq, Nat.mod_eq_of_lt hi, Nat.mod_eq_of_lt hj] at h'

theorem Holds.init (hN : 0 < N) : Holds N slot 0 0 [] :=
  ⟨hN, hN, by simp, fun _ h => absurd h (by simp)⟩

theorem Holds.tail_lt (H : Holds N slot head tail xs) : tail < N := by
  rw [H.tail_eq]
  exact Nat.mod_lt _ (Nat.zero_lt_of_lt H.head_lt)

theorem Holds.empty_iff (H : Holds N slot head tail xs) : head = tail ↔ xs = [] := by
  constructor
  · intro h
    have h0 : (head + 0) % N = (head + xs.length) % N := by
      rw [Nat.add_zero, Nat.mod_eq_of_lt H.head_lt, ← H.tail_eq, h]
    have := add_mod_inj (Nat.zero_lt_of_lt H.head_lt) H.length_lt h0
    exact List.length_eq_zero_iff.1 this.symm
  · rintro rfl
    rw [H.tail_eq, List.length_nil, Nat.add_zero, Nat.mod_eq_of_lt H.head_lt]

/-- The slot at `tail` is outside the window. -/
theorem Holds.tail_free (H : Holds N slot head tail xs) (hi : i < xs.length) :
    (head + i) % N ≠ tail := by
  rw [H.tail_eq]
  intro h
  have := add_mod_inj (hi.trans H.length_lt) H.length_lt h
  omega

theorem Holds.next_tail (H : Holds N slot head tail xs) :
    (tail + 1) % N = (head + (xs.length + 1)) % N := by
  rw [H.tail_eq, Nat.mod_add_mod, Nat.add_assoc]

theorem Holds.full_iff (H : Holds N slot head tail xs) :
    (tail + 1) % N = head ↔ xs.length + 1 = N := by
  rw [H.next_tail]
  constructor
  · intro h
    by_contra hne
    have hlt : xs.length + 1 < N := by have := H.length_lt; omega
    have h0 : (head + (xs.length + 1)) % N = (head + 0) % N := by
      rw [h, Nat.add_zero, Nat.mod_eq_of_lt H.head_lt]
    have := add_mod_inj hlt (Nat.zero_lt_of_lt H.head_lt) h0
    omega
  · intro h
    rw [h, Nat.add_mod_right, Nat.mod_eq_of_lt H.head_lt]

/-- A store at `tail` in a ring that is not full overwrites no held slot. -/
theorem Holds.push (H : Holds N slot head tail xs) (h : (tail + 1) % N ≠ head) (x : α) :
    Holds N (update slot tail (some x)) head ((tail + 1) % N) (xs ++ [x]) := by
  have hlt : xs.length + 1 < N := by
    have := H.length_lt
    have : xs.length + 1 ≠ N := fun e => h (H.full_iff.2 e)
    omega
  refine ⟨H.head_lt, by simpa using hlt, by simpa using H.next_tail, fun i hi => ?_⟩
  rw [List.length_append, List.length_singleton] at hi
  by_cases hx : i = xs.length
  · subst hx
    simp [← H.tail_eq]
  · have hi' : i < xs.length := by omega
    rw [update_of_ne (H.tail_free hi'), H.slot_eq i hi', List.getElem_append_left hi']

/-- A ring that is not empty holds its oldest item at `head`. -/
theorem Holds.pop (H : Holds N slot head tail xs) (h : head ≠ tail) :
    ∃ x ys, xs = x :: ys ∧ slot head = some x ∧ Holds N slot ((head + 1) % N) tail ys := by
  cases xs with
  | nil => exact absurd (H.empty_iff.2 rfl) h
  | cons x ys =>
    have hN := Nat.zero_lt_of_lt H.head_lt
    have hlen := H.length_lt
    simp only [List.length_cons] at hlen
    refine ⟨x, ys, rfl, ?_, Nat.mod_lt _ hN, by omega, ?_, fun i hi => ?_⟩
    · have := H.slot_eq 0 (by simp)
      rwa [Nat.add_zero, Nat.mod_eq_of_lt H.head_lt] at this
    · rw [H.tail_eq, Nat.mod_add_mod, List.length_cons]
      congr 1; omega
    · have := H.slot_eq (i + 1) (by simpa using hi)
      rw [Nat.mod_add_mod, Nat.add_assoc, Nat.add_comm 1 i]
      simpa using this

/-- The slots from `head` up to `tail`, in cyclic order. -/
def window (N : Nat) (slot : Nat → Option α) (head tail : Nat) : List (Option α) :=
  (List.range ((tail + N - head) % N)).map fun i => slot ((head + i) % N)

theorem Holds.length_eq (H : Holds N slot head tail xs) : (tail + N - head) % N = xs.length := by
  have hh := H.head_lt
  have hl := H.length_lt
  rw [H.tail_eq]
  by_cases h : head + xs.length < N
  · rw [Nat.mod_eq_of_lt h, show head + xs.length + N - head = xs.length + N by omega,
      Nat.add_mod_right, Nat.mod_eq_of_lt hl]
  · have hm : (head + xs.length) % N = head + xs.length - N := by
      rw [Nat.mod_eq_sub_mod (by omega), Nat.mod_eq_of_lt (by omega)]
    rw [hm, show head + xs.length - N + N - head = xs.length by omega, Nat.mod_eq_of_lt hl]

theorem Holds.window_eq (H : Holds N slot head tail xs) :
    window N slot head tail = xs.map some := by
  rw [window, H.length_eq]
  refine List.ext_getElem (by simp) fun i h _ => ?_
  have hi : i < xs.length := by simpa using h
  simpa using H.slot_eq i hi

end Ring
