import DnsResolver.Lib.TransitionSystem
import Mathlib.Order.Filter.AtTopBot.Basic

/-!
# Infinite runs and fairness

A `Run` makes a step of its transition system at each time, or none. It is fair to a family of
processes (`Run.Fair`) when each process that can make a step again and again makes one again and
again. What every step of a tail keeps holds on the tail (`Run.from`), only finitely many steps
lower a variant that no step raises (`Run.eventually_of_variant`), and a run to a state without
steps goes on for ever by making none, and is fair (`Run.exists_of_leads`). -/

namespace TransitionSystem
open Filter

variable {σ A I : Type} {S : TransitionSystem σ A}

/-- An infinite run; at some times no step is made. -/
structure Run (S : TransitionSystem σ A) where
  state : ℕ → σ
  act : ℕ → Option A
  stays : ∀ n, act n = none → state (n + 1) = state n
  step : ∀ n a, act n = some a → S.step (state n) a (state (n + 1))

namespace Run
variable (r : S.Run)

/-- A process that can make a step again and again makes one again and again. -/
def Fair (of : A → I) : Prop :=
  ∀ i, (∃ᶠ n in atTop, ∃ a s', of a = i ∧ S.step (r.state n) a s') →
    ∃ᶠ n in atTop, ∃ a ∈ r.act n, of a = i

theorem leads (n : ℕ) : S.Leads (r.state 0) (r.state n) := by
  induction n with
  | zero => exact .refl
  | succ n ih =>
    cases ha : r.act n with
    | none => exact (r.stays n ha).symm ▸ ih
    | some a => exact ih.tail (r.step n a ha)

/-- What every step from time `n` on keeps holds from then on. -/
theorem from_of_steps {P : σ → Prop} {n : ℕ}
    (hs : ∀ k ≥ n, ∀ a ∈ r.act k, P (r.state k) → P (r.state (k + 1))) (h : P (r.state n)) :
    ∀ k ≥ n, P (r.state k) := by
  intro k hk
  induction hk with
  | refl => exact h
  | @step k hk ih =>
    cases ha : r.act k with
    | none => exact (r.stays k ha).symm ▸ ih
    | some a => exact hs k hk a ha ih

/-- Where no step from time `n` on raises the variant, only finitely many steps lower it. -/
theorem eventually_of_variant {β : Type} [PartialOrder β] [WellFoundedLT β] (μ : σ → β)
    {p : ℕ → Prop} {n : ℕ}
    (hle : ∀ k ≥ n, ∀ a ∈ r.act k, μ (r.state (k + 1)) ≤ μ (r.state k))
    (hlt : ∀ k ≥ n, ¬ p k → μ (r.state (k + 1)) < μ (r.state k)) : ∀ᶠ k in atTop, p k := by
  have hle' (k : ℕ) : μ (r.state (n + k + 1)) ≤ μ (r.state (n + k)) := by
    cases ha : r.act (n + k) with
    | none => exact (congrArg μ (r.stays (n + k) ha)).le
    | some a => exact hle (n + k) (Nat.le_add_right n k) a ha
  obtain ⟨m, hm⟩ := TransitionSystem.eventually_of_variant
    (f := fun k => μ (r.state (n + k))) (p := fun k => p (n + k)) hle'
    fun k hp => hlt (n + k) (Nat.le_add_right n k) hp
  refine eventually_atTop.2 ⟨n + m, fun k hk => ?_⟩
  have := hm (k - n) (by omega)
  rwa [Nat.add_sub_cancel' (by omega)] at this

/-- A run that makes no step. -/
def idle (S : TransitionSystem σ A) (s : σ) : S.Run where
  state _ := s
  act _ := none
  stays _ _ := rfl
  step _ _ h := by cases h

/-- A run with one step more at its start. -/
def cons (s : σ) (a : A) (h : S.step s a (r.state 0)) : S.Run where
  state
    | 0 => s
    | n + 1 => r.state n
  act
    | 0 => some a
    | n + 1 => r.act n
  stays
    | 0, hn => by cases hn
    | n + 1, hn => r.stays n hn
  step
    | 0, _, hn => by cases hn; exact h
    | n + 1, b, hn => r.step n b hn

/-- A way to a state without steps, as an infinite run. -/
theorem exists_of_leads (of : A → I) {s s' : σ} (h : S.Leads s s')
    (hend : ∀ a s'', ¬ S.step s' a s'') :
    ∃ r : S.Run, r.state 0 = s ∧ r.Fair of ∧ ∃ n, r.state n = s' := by
  suffices h : ∃ r : S.Run, r.state 0 = s ∧ ∃ n, ∀ k ≥ n, r.state k = s' by
    obtain ⟨r, h0, n, hn⟩ := h
    refine ⟨r, h0, fun i hi => ?_, n, hn n le_rfl⟩
    obtain ⟨k, hk, a, s'', -, hs⟩ := frequently_atTop.1 hi n
    exact absurd (hn k hk ▸ hs) (hend a s'')
  induction h using Relation.ReflTransGen.head_induction_on with
  | refl => exact ⟨idle S s', rfl, 0, fun _ _ => rfl⟩
  | @head s u h _ ih =>
    obtain ⟨a, ha⟩ := h
    obtain ⟨r, rfl, n, hn⟩ := ih
    refine ⟨r.cons s a ha, rfl, n + 1, fun k hk => ?_⟩
    cases k with
    | zero => omega
    | succ k => exact hn k (by omega)

end Run
end TransitionSystem
