import DnsResolver.Lib.TransitionSystem

/-!
# Histories

What is visible of the runs of a transition system: each step shows at most one event, `vis`. A
`WeakSimulation` matches every step of one system by steps of the other that show the same, and
carries the histories over (`WeakSimulation.history`). -/

namespace TransitionSystem
variable {σ τ A B E : Type} {S : TransitionSystem σ A} {M : TransitionSystem τ B}
  {vis : σ → A → Option E} {vis' : τ → B → Option E}

/-- The events of a run from `s` to `s'`, oldest first. -/
inductive History (S : TransitionSystem σ A) (vis : σ → A → Option E) (s : σ) : List E → σ → Prop
  | nil : History S vis s [] s
  | snoc : History S vis s h s' → S.step s' a s'' →
    History S vis s (h ++ (vis s' a).toList) s''

theorem History.single (h : S.step s a s') : S.History vis s (vis s a).toList s' := by
  have hn : S.History vis s [] s := .nil
  have := hn.snoc h
  rwa [List.nil_append] at this

theorem History.append {h h' : List E} (H : S.History vis s h s') (H' : S.History vis s' h' s'') :
    S.History vis s (h ++ h') s'' := by
  induction H' with
  | nil => rwa [List.append_nil]
  | snoc _ hs ih =>
    rw [← List.append_assoc]
    exact ih.snoc hs

theorem History.leads {h : List E} (H : S.History vis s h s') : S.Leads s s' := by
  induction H with
  | nil => exact .refl
  | snoc _ hs ih => exact ih.tail hs

/-- Steps that show nothing. -/
theorem History.silent {ok ok' : σ → A → Prop} (hok : ∀ s a, ok s a → ok' s a ∧ vis s a = none)
    (h : (S.restrict ok).Leads s s') : (S.restrict ok').History vis s [] s' := by
  induction h with
  | refl => exact .nil
  | @tail u u' _ h ih =>
    obtain ⟨a, ha, h⟩ := h
    have hs : (S.restrict ok').step u a u' := ⟨(hok u a ha).1, h⟩
    have := ih.snoc hs
    rwa [(hok u a ha).2] at this

/-- What a list of actions shows. -/
def shown (f : σ → A → Option σ) (vis : σ → A → Option E) : List A → σ → List E
  | [], _ => []
  | a :: as, s => (vis s a).toList ++ (f s a).elim [] (shown f vis as)

theorem History.exec {f : σ → A → Option σ} {as : List A} {i : σ}
    (h : exec f as s = some s') : (ofFun i f).History vis s (shown f vis as s) s' := by
  induction as generalizing s with
  | nil =>
    cases h
    exact .nil
  | cons a as ih =>
    obtain ⟨u, hu, h⟩ := Option.bind_eq_some_iff.1 h
    have hs : (ofFun i f).step s a u := hu
    rw [shown, hu]
    exact (History.single hs).append (ih h)

/-- Every step of `S` is matched by steps of `M` that show the same and keep the relation. -/
structure WeakSimulation (S : TransitionSystem σ A) (vis : σ → A → Option E)
    (M : TransitionSystem τ B) (vis' : τ → B → Option E) (Rel : σ → τ → Prop) : Prop where
  init : ∀ s, S.init s → ∃ t, M.init t ∧ Rel s t
  step : ∀ s a s' t, S.step s a s' → Rel s t →
    ∃ t', M.History vis' t (vis s a).toList t' ∧ Rel s' t'

theorem WeakSimulation.history {Rel : σ → τ → Prop} {h : List E}
    (W : WeakSimulation S vis M vis' Rel) (hi : S.init s) (H : S.History vis s h s') :
    ∃ t t', M.init t ∧ M.History vis' t h t' ∧ Rel s' t' := by
  induction H with
  | nil =>
    obtain ⟨t, ht, hr⟩ := W.init s hi
    exact ⟨t, t, ht, .nil, hr⟩
  | snoc _ hs ih =>
    obtain ⟨t, t', ht, H', hr⟩ := ih
    obtain ⟨t'', H'', hr'⟩ := W.step _ _ _ _ hs hr
    exact ⟨t, t'', ht, H'.append H'', hr'⟩

end TransitionSystem
