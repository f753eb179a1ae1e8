import Mathlib.Algebra.Order.Group.Multiset
import DnsResolver.Lib.Tally

/-!
# Order-preserving merges

`IsMerge f l`: the list `l` is an interleaving of the sequences `f i`, each in its own order. A
merge is built from the left as a history is, by appending to the merge the next element of one
sequence. -/

open Function

/-- `l` is an order-preserving merge of the sequences `f i`. -/
inductive IsMerge {ι α : Type} [DecidableEq ι] : (ι → List α) → List α → Prop
  | nil : IsMerge (fun _ => []) []
  | snoc (i : ι) (x : α) : IsMerge f l → IsMerge (update f i (f i ++ [x])) (l ++ [x])

namespace IsMerge
variable {ι α β : Type} [DecidableEq ι] {f g : ι → List α} {l : List α}

/-- The next element of one sequence. -/
theorem push (H : IsMerge f l) {i : ι} {x : α} (hi : g i = f i ++ [x])
    (hne : ∀ k ≠ i, g k = f k) : IsMerge g (l ++ [x]) := by
  have h : g = update f i (f i ++ [x]) := by
    funext k
    by_cases hk : k = i
    · subst hk
      rw [update_self, hi]
    · rw [update_of_ne hk, hne k hk]
  rw [h]
  exact H.snoc i x

theorem congr (H : IsMerge f l) (h : ∀ i, g i = f i) : IsMerge g l := by
  rwa [funext h]

theorem sublist (H : IsMerge f l) (i : ι) : (f i).Sublist l := by
  induction H with
  | nil => exact List.Sublist.refl _
  | snoc k x _ ih =>
    by_cases hk : i = k
    · subst hk
      rw [update_self]
      exact ih.append (List.Sublist.refl _)
    · rw [update_of_ne hk]
      exact ih.trans (List.sublist_append_left ..)

/-- A merge has the elements of its sequences, each as often. -/
theorem sum_eq [Fintype ι] (H : IsMerge f l) : ∑ i, (f i : Multiset α) = l := by
  induction H with
  | nil => simp
  | @snoc f l i x _ ih =>
    have h := Tally.sum_update (fun xs : List α => (xs : Multiset α)) f i (f i ++ [x])
    rw [ih, ← Multiset.coe_add, ← add_assoc, add_right_comm] at h
    rw [← Multiset.coe_add]
    exact add_right_cancel h

theorem sum_hom [Fintype ι] {M : Type} [AddCommMonoid M] (φ : Multiset α →+ M)
    (H : IsMerge f l) : ∑ i, φ (f i) = φ l := by
  rw [← map_sum, H.sum_eq]

theorem map (H : IsMerge f l) (g : α → β) : IsMerge (fun i => (f i).map g) (l.map g) := by
  induction H with
  | nil => exact .nil
  | snoc i x _ ih =>
    rw [List.map_append]
    refine ih.push (i := i) ?_ fun k hk => ?_
    · rw [update_self, List.map_append]
      rfl
    · rw [update_of_ne hk]

/-- A merge of one sequence is that sequence. -/
theorem eq_of_subsingleton [Subsingleton ι] (H : IsMerge f l) (i : ι) : l = f i := by
  induction H with
  | nil => rfl
  | snoc k x _ ih =>
    obtain rfl := Subsingleton.elim i k
    rw [update_self, ← ih]

/-- A merge in which only one sequence has elements is that sequence. -/
theorem eq_of_nil (H : IsMerge f l) {i : ι} (h : ∀ k ≠ i, f k = []) : l = f i := by
  induction H with
  | nil => rfl
  | @snoc f l k x _ ih =>
    have hk : k = i := by
      by_contra hne
      have hx := h k hne
      rw [update_self] at hx
      simp at hx
    subst hk
    rw [update_self, ← ih]
    intro j hj
    have hx := h j hj
    rwa [update_of_ne hj] at hx

/-- A single element comes from one sequence. -/
theorem of_singleton {x : α} (H : IsMerge f [x]) : ∃ i, f i = [x] ∧ ∀ k ≠ i, f k = [] := by
  generalize hl : [x] = l at H
  cases H with
  | nil => cases hl
  | @snoc f l i y H =>
    have hn : l = [] ∧ x = y := by
      cases l with
      | nil => exact ⟨rfl, by simpa using hl⟩
      | cons z l => simp at hl
    obtain ⟨rfl, rfl⟩ := hn
    have h0 (k : ι) : f k = [] := List.sublist_nil.1 (H.sublist k)
    refine ⟨i, ?_, ?_⟩
    · rw [update_self, h0, List.nil_append]
    · intro k hk
      rw [update_of_ne hk, h0]

end IsMerge
