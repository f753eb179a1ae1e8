import Mathlib.Algebra.BigOperators.Group.Finset.Basic
import Mathlib.Data.Bool.Basic
import Mathlib.Algebra.Order.BigOperators.Group.Finset
import Mathlib.Data.Fintype.BigOperators

/-!
# Counting over a family that changes at one index

`∑ t, g (f t)` adds a weight over all threads `t`, each in local state `f t`. A step moves one
thread, so the sum changes by the difference of two weights (`sum_update`); `tally` is the
special case that counts the threads in a given set of local states. -/

namespace Tally
open Finset Function

variable {T σ M : Type} [Fintype T] [DecidableEq T]

/-- The weight of the family after the move of one member. -/
theorem sum_update [AddCommMonoid M] (g : σ → M) (f : T → σ) (t : T) (v : σ) :
    ∑ u, g (update f t v u) + g (f t) = ∑ u, g (f u) + g v := by
  have h : ∀ u, g (update f t v u) = update (g ∘ f) t (g v) u := by
    intro u
    by_cases hu : u = t
    · subst hu; simp
    · simp [hu]
  have h1 := sum_update_of_mem (mem_univ t) (g ∘ f) (g v)
  have h2 := add_sum_erase univ (g ∘ f) (mem_univ t)
  simp only [sdiff_singleton_eq_erase] at h1
  simp only [h, h1, comp_apply] at h2 ⊢
  rw [add_assoc, add_comm (Finset.sum _ _), h2, add_comm]

/-- How many threads are in a local state that satisfies `p`. -/
def tally (p : σ → Bool) (f : T → σ) : ℕ := ∑ u, (p (f u)).toNat

theorem tally_update (p : σ → Bool) (f : T → σ) (t : T) (v : σ) :
    tally p (update f t v) + (p (f t)).toNat = tally p f + (p v).toNat :=
  sum_update (fun c => (p c).toNat) f t v

theorem tally_update_le {p : σ → Bool} {f : T → σ} {t : T} {v : σ}
    (h : p v = true → p (f t) = true) : tally p (update f t v) ≤ tally p f := by
  have e := tally_update p f t v
  have := Bool.toNat_le_toNat (Bool.le_iff_imp.2 h)
  omega

theorem tally_le_update {p : σ → Bool} {f : T → σ} {t : T} {v : σ}
    (h : p (f t) = true → p v = true) : tally p f ≤ tally p (update f t v) := by
  have e := tally_update p f t v
  have := Bool.toNat_le_toNat (Bool.le_iff_imp.2 h)
  omega

omit [DecidableEq T] in
theorem tally_congr {p : σ → Bool} {f f' : T → σ} (h : ∀ u, p (f' u) = p (f u)) :
    tally p f' = tally p f := by
  simp [tally, h]

omit [DecidableEq T] in
theorem tally_eq_zero {p : σ → Bool} {f : T → σ} : tally p f = 0 ↔ ∀ u, p (f u) = false := by
  simp [tally, Finset.sum_eq_zero_iff]

omit [DecidableEq T] in
theorem tally_eq_card {p : σ → Bool} {f : T → σ} (h : ∀ u, p (f u) = true) :
    tally p f = Fintype.card T := by
  simp [tally, h]

omit [DecidableEq T] in
theorem tally_pos {p : σ → Bool} {f : T → σ} : 0 < tally p f ↔ ∃ u, p (f u) = true := by
  rw [Nat.pos_iff_ne_zero, ne_eq, tally_eq_zero]
  simp

omit [DecidableEq T] in
theorem tally_le {p q : σ → Bool} {f : T → σ} (h : ∀ u, p (f u) = true → q (f u) = true) :
    tally p f ≤ tally q f := by
  refine Finset.sum_le_sum fun u _ => ?_
  cases hp : p (f u)
  · simp
  · simp [h u hp]

omit [DecidableEq T] in
theorem tally_le_one {p : σ → Bool} {f : T → σ}
    (h : ∀ t u, p (f t) = true → p (f u) = true → t = u) : tally p f ≤ 1 := by
  by_cases he : ∃ t, p (f t) = true
  · obtain ⟨t, ht⟩ := he
    have h0 : ∀ u ∈ univ, u ≠ t → (p (f u)).toNat = 0 := by
      intro u _ hu
      cases hp : p (f u)
      · rfl
      · exact absurd (h u t hp ht) hu
    rw [tally, sum_eq_single t h0 fun hn => absurd (mem_univ t) hn, ht]
    rfl
  · rw [tally_eq_zero.2 fun u => Bool.eq_false_iff.2 fun hu => he ⟨u, hu⟩]
    exact Nat.zero_le _

omit [DecidableEq T] in
/-- Two families that agree except at one index. -/
theorem sum_of_ne [AddCommMonoid M] {f g : T → M} {t : T} (h : ∀ u ≠ t, g u = f u) :
    ∑ u, g u + f t = ∑ u, f u + g t := by
  classical
  have h' : g = update f t (g t) := by
    funext u
    by_cases hu : u = t
    · subst hu
      simp
    · simp [hu, h u hu]
  have := sum_update id f t (g t)
  simp only [id] at this
  rwa [← h'] at this

omit [DecidableEq T] in
/-- In a family of numbers that add up to at most 1, at most one is positive. -/
theorem eq_of_sum_le_one {f : T → ℕ} (h : ∑ u, f u ≤ 1) {t u : T} (ht : 0 < f t) (hu : 0 < f u) :
    t = u := by
  classical
  by_contra hne
  have h2 : ∑ v ∈ {t, u}, f v ≤ ∑ v, f v := sum_le_univ_sum_of_nonneg fun _ => Nat.zero_le _
  rw [sum_pair hne] at h2
  omega

end Tally
