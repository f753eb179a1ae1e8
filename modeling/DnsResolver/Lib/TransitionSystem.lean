import Mathlib.Logic.Relation
import Mathlib.Order.OrderIsoNat

/-!
# Transition systems

Initial states and labelled steps, the states that runs reach, and the two rules every
safety proof uses: an invariant holds of every reachable state (`Reachable.invariant`), and a
stable property holds of every later state (`Leads.stable`). `Path` is a run with its steps,
`restrict` keeps only the steps that meet a condition, `Leads.until` is the variant rule, and
`Simulation` carries reachability from one system to another. -/

/-- Initial states, and steps labelled by actions. -/
structure TransitionSystem (σ A : Type) where
  init : σ → Prop
  step : σ → A → σ → Prop

namespace TransitionSystem
variable {σ τ A B : Type} {S : TransitionSystem σ A} {M : TransitionSystem τ B}

/-- The states at the end of a run. -/
inductive Reachable (S : TransitionSystem σ A) : σ → Prop
  | init : S.init s → Reachable S s
  | step : Reachable S s → S.step s a s' → Reachable S s'

/-- `s'` is reached from `s` by some steps. -/
def Leads (S : TransitionSystem σ A) : σ → σ → Prop :=
  Relation.ReflTransGen fun s s' => ∃ a, S.step s a s'

theorem Leads.refl : S.Leads s s := Relation.ReflTransGen.refl

theorem Leads.single (h : S.step s a s') : S.Leads s s' := Relation.ReflTransGen.single ⟨a, h⟩

theorem Leads.trans (h : S.Leads s s') (h' : S.Leads s' s'') : S.Leads s s'' :=
  Relation.ReflTransGen.trans h h'

theorem Leads.tail (h : S.Leads s s') (h' : S.step s' a s'') : S.Leads s s'' :=
  h.trans (.single h')

theorem Reachable.leads (H : S.Reachable s) (h : S.Leads s s') : S.Reachable s' := by
  induction h with
  | refl => exact H
  | tail _ h ih =>
    obtain ⟨a, h⟩ := h
    exact ih.step h

/-- The steps of a run from `s` to `s'`, oldest first, each with the states before and after. -/
inductive Path (S : TransitionSystem σ A) (s : σ) : List (σ × A × σ) → σ → Prop
  | nil : Path S s [] s
  | snoc : Path S s tr s' → S.step s' a s'' → Path S s (tr ++ [(s', a, s'')]) s''

theorem Path.leads {tr : List (σ × A × σ)} (h : S.Path s tr s') : S.Leads s s' := by
  induction h with
  | nil => exact .refl
  | snoc _ h ih => exact ih.tail h

/-- The steps of a run are steps of the system, on the way from its start to its end. -/
theorem Path.of_mem {tr : List (σ × A × σ)} {x : σ × A × σ} (h : S.Path s tr s') (hx : x ∈ tr) :
    S.Leads s x.1 ∧ S.step x.1 x.2.1 x.2.2 ∧ S.Leads x.2.2 s' := by
  induction h with
  | nil => cases hx
  | snoc h h' ih =>
    rcases List.mem_append.1 hx with hx | hx
    · obtain ⟨h1, h2, h3⟩ := ih hx
      exact ⟨h1, h2, h3.tail h'⟩
    · cases List.mem_singleton.1 hx
      exact ⟨h.leads, h', .refl⟩

/-- A potential that no step raises, and that the steps of a kind lower, pays for these steps. -/
theorem Path.count_le {tr : List (σ × A × σ)} {p : σ × A × σ → Bool} (μ : σ → ℕ)
    (hs : ∀ s a s', S.Reachable s → S.step s a s' → (p (s, a, s')).toNat + μ s' ≤ μ s)
    (H : S.Reachable s) (h : S.Path s tr s') : tr.countP p + μ s' ≤ μ s := by
  induction h with
  | nil => exact (Nat.zero_add _).le
  | @snoc tr u a u' h h' ih =>
    have hu := hs _ _ _ (H.leads h.leads) h'
    have hc : [(u, a, u')].countP p = (p (u, a, u')).toNat := by
      cases hp : p (u, a, u') <;> simp [hp]
    rw [List.countP_append, hc]
    omega

theorem Reachable.path (H : S.Reachable s) : ∃ i tr, S.init i ∧ S.Path i tr s := by
  induction H with
  | init h => exact ⟨_, [], h, .nil⟩
  | step _ h ih =>
    obtain ⟨i, tr, hi, hp⟩ := ih
    exact ⟨i, _, hi, hp.snoc h⟩

/-! ## Invariants -/

/-- What holds initially and is kept by every step from a reachable state holds of every
reachable state. The step may use any invariant that is already known. -/
theorem Reachable.invariant {I : σ → Prop} (h0 : ∀ s, S.init s → I s)
    (hs : ∀ s a s', S.Reachable s → S.step s a s' → I s → I s') (H : S.Reachable s) : I s := by
  induction H with
  | init h => exact h0 _ h
  | step H h ih => exact hs _ _ _ H h ih

/-- What every step keeps holds of every later state. -/
theorem Leads.stable {I : σ → Prop}
    (hs : ∀ s a s', S.Reachable s → S.step s a s' → I s → I s')
    (H : S.Reachable s) (h : S.Leads s s') (hI : I s) : I s' := by
  induction h with
  | refl => exact hI
  | tail h h' ih =>
    obtain ⟨a, h'⟩ := h'
    exact hs _ _ _ (H.leads h) h' ih

/-! ## Restriction to the steps that meet a condition -/

/-- The runs all of whose steps meet `ok`. -/
def restrict (S : TransitionSystem σ A) (ok : σ → A → Prop) : TransitionSystem σ A where
  init := S.init
  step s a s' := ok s a ∧ S.step s a s'

theorem Reachable.of_restrict {ok : σ → A → Prop} (H : (S.restrict ok).Reachable s) :
    S.Reachable s := by
  induction H with
  | init h => exact .init h
  | step _ h ih => exact ih.step h.2

theorem Reachable.restrict_mono {ok ok' : σ → A → Prop} (hok : ∀ s a, ok s a → ok' s a)
    (H : (S.restrict ok).Reachable s) : (S.restrict ok').Reachable s := by
  induction H with
  | init h => exact .init h
  | step _ h ih => exact ih.step ⟨hok _ _ h.1, h.2⟩

theorem Leads.restrict_mono {ok ok' : σ → A → Prop} (hok : ∀ s a, ok s a → ok' s a)
    (h : (S.restrict ok).Leads s s') : (S.restrict ok').Leads s s' := by
  induction h with
  | refl => exact .refl
  | tail _ h ih =>
    obtain ⟨a, ha, h⟩ := h
    exact ih.tail ⟨hok _ _ ha, h⟩

theorem Leads.of_restrict {ok : σ → A → Prop} (h : (S.restrict ok).Leads s s') :
    S.Leads s s' := by
  induction h with
  | refl => exact .refl
  | tail _ h ih =>
    obtain ⟨a, -, h⟩ := h
    exact ih.tail h

/-- What every step that meets the condition keeps holds of every later state. -/
theorem Leads.keeps {ok : σ → A → Prop} {I : σ → Prop}
    (hs : ∀ s a s', S.Reachable s → ok s a → S.step s a s' → I s → I s')
    (H : S.Reachable s) (h : (S.restrict ok).Leads s s') (hI : I s) : I s' := by
  induction h with
  | refl => exact hI
  | tail h h' ih =>
    obtain ⟨a, ha, h'⟩ := h'
    exact hs _ _ _ (H.leads (Leads.of_restrict h)) ha h' ih

/-- The steps up to the first that does not meet the condition, if there is one. -/
theorem Leads.restrict_or {ok : σ → A → Prop} (h : S.Leads s s') : (S.restrict ok).Leads s s' ∨
    ∃ u a u', (S.restrict ok).Leads s u ∧ S.step u a u' ∧ ¬ ok u a := by
  induction h with
  | refl => exact .inl .refl
  | @tail u u' _ h ih =>
    rcases ih with ih | ih
    · obtain ⟨a, h⟩ := h
      by_cases hok : ok u a
      · exact .inl (ih.tail ⟨hok, h⟩)
      · exact .inr ⟨u, a, u', ih, h, hok⟩
    · exact .inr ih

/-! ## Variants -/

/-- Where every state short of the goal leads to one with a smaller variant, the goal is reached. -/
theorem Leads.until {β : Type} [LT β] [WellFoundedLT β] {I G : σ → Prop} (μ : σ → β)
    (hs : ∀ s, I s → ¬ G s → ∃ s', S.Leads s s' ∧ I s' ∧ μ s' < μ s) (hI : I s) :
    ∃ s', S.Leads s s' ∧ I s' ∧ G s' := by
  induction hn : μ s using WellFoundedLT.induction generalizing s with
  | ind n ih =>
    by_cases hG : G s
    · exact ⟨s, .refl, hI, hG⟩
    · obtain ⟨s', hl, hI', hlt⟩ := hs s hI hG
      obtain ⟨s'', hl', h⟩ := ih _ (hn ▸ hlt) hI' rfl
      exact ⟨s'', hl.trans hl', h⟩

/-- Where the variant never rises along an infinite run, only finitely many steps lower it. -/
theorem eventually_of_variant {β : Type} [PartialOrder β] [WellFoundedLT β] {f : ℕ → β}
    {p : ℕ → Prop} (hle : ∀ n, f (n + 1) ≤ f n) (hlt : ∀ n, ¬ p n → f (n + 1) < f n) :
    ∃ n, ∀ k ≥ n, p k := by
  obtain ⟨n, hn⟩ := WellFoundedLT.antitone_chain_condition (antitone_nat_of_succ_le hle)
  refine ⟨n, fun k hk => by_contra fun hp => (hlt k hp).ne ?_⟩
  rw [← hn k hk, ← hn (k + 1) (Nat.le_succ_of_le hk)]

/-! ## Simulations -/

/-- Every step of `S` is matched by zero or more steps of `M` on the image under `f`. -/
structure Simulation (S : TransitionSystem σ A) (M : TransitionSystem τ B) (f : σ → τ) : Prop where
  init : ∀ s, S.init s → M.init (f s)
  step : ∀ s a s', S.Reachable s → S.step s a s' → M.Leads (f s) (f s')

theorem Reachable.simulation {f : σ → τ} (F : Simulation S M f) (H : S.Reachable s) :
    M.Reachable (f s) := by
  induction H with
  | init h => exact .init (F.init _ h)
  | step H h ih => exact ih.leads (F.step _ _ _ H h)

/-! ## Executable systems -/

/-- The system of a step function that is undefined where the action is not enabled. -/
def ofFun (init : σ) (f : σ → A → Option σ) : TransitionSystem σ A where
  init s := s = init
  step s a s' := f s a = some s'

/-- Takes the actions of a list one after the other. -/
def exec (f : σ → A → Option σ) : List A → σ → Option σ
  | [], s => some s
  | a :: as, s => (f s a).bind (exec f as)

theorem leads_exec {f : σ → A → Option σ} {as : List A} (h : exec f as s = some s') :
    (ofFun i f).Leads s s' := by
  induction as generalizing s with
  | nil =>
    cases h
    exact .refl
  | cons a as ih =>
    obtain ⟨u, hu, h⟩ := Option.bind_eq_some_iff.1 h
    exact .trans (.single hu) (ih h)

theorem reachable_exec {f : σ → A → Option σ} {as : List A} (h : exec f as i = some s') :
    (ofFun i f).Reachable s' :=
  .leads (.init rfl) (leads_exec h)

/-- A run whose actions are chosen from the state and the entries of a list. -/
theorem leads_choose {f : σ → A → Option σ} {g : σ → B → A} {bs : List B}
    (h : exec (fun s b => f s (g s b)) bs s = some s') : (ofFun i f).Leads s s' := by
  induction bs generalizing s with
  | nil =>
    cases h
    exact .refl
  | cons b bs ih =>
    obtain ⟨u, hu, h⟩ := Option.bind_eq_some_iff.1 h
    exact .trans (.single hu) (ih h)

theorem reachable_choose {f : σ → A → Option σ} {g : σ → B → A} {bs : List B}
    (h : exec (fun s b => f s (g s b)) bs i = some s) : (ofFun i f).Reachable s :=
  .leads (.init rfl) (leads_choose h)

/-- Takes a step only where it meets the condition. -/
def guarded (ok : σ → A → Prop) [∀ s a, Decidable (ok s a)] (f : σ → A → Option σ) (s : σ)
    (a : A) : Option σ :=
  if ok s a then f s a else none

theorem leads_guarded {ok : σ → A → Prop} [∀ s a, Decidable (ok s a)] {f : σ → A → Option σ}
    (h : (ofFun i (guarded ok f)).Leads s s') : ((ofFun i f).restrict ok).Leads s s' := by
  induction h with
  | refl => exact .refl
  | tail _ h ih =>
    obtain ⟨a, h⟩ := h
    change guarded ok f _ a = some _ at h
    unfold guarded at h
    split at h
    · exact ih.tail ⟨by assumption, h⟩
    · cases h

theorem restrict_exec {ok : σ → A → Prop} [∀ s a, Decidable (ok s a)] {f : σ → A → Option σ}
    {as : List A} (h : exec (guarded ok f) as i = some s) : ((ofFun i f).restrict ok).Reachable s :=
  .leads (.init rfl) (leads_guarded (leads_exec h))

theorem restrict_choose {ok : σ → A → Prop} [∀ s a, Decidable (ok s a)] {f : σ → A → Option σ}
    {g : σ → B → A} {bs : List B} (h : exec (fun s b => guarded ok f s (g s b)) bs i = some s) :
    ((ofFun i f).restrict ok).Reachable s :=
  .leads (.init rfl) (leads_guarded (leads_choose h))

end TransitionSystem
