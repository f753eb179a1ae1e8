import DnsResolver.Lib.Merge

/-!
# A stage of a pipeline

The workers of a stage take elements, each in its own order, and hand them on one by one. A worker
loses elements only when the outlet is closed, and then nothing is handed on any more. So what has
come out of the stage is at any time a merge of prefixes of what the workers have taken: it has no
gaps (`Stage.merge_parts`). -/

open Function

/-- The worker `i` has taken `got i` and still holds `held i`; of the rest it has handed on a first
part to `out`, and has lost what came after. -/
def Stage {ι α : Type} [DecidableEq ι] (closed : Prop) (got held : ι → List α) (out : List α) :
    Prop :=
  ∃ sent lost : ι → List α, IsMerge sent out ∧ (∀ i, sent i ++ (lost i ++ held i) = got i) ∧
    ∀ i, lost i ≠ [] → closed

namespace IsMerge
variable {ι α : Type} [DecidableEq ι] {f : ι → List α} {l l' : List α}

/-- The next elements of one sequence. -/
theorem append (H : IsMerge f l) (i : ι) (xs : List α) :
    IsMerge (update f i (f i ++ xs)) (l ++ xs) := by
  induction xs generalizing f l with
  | nil =>
    rw [List.append_nil, List.append_nil, update_eq_self]
    exact H
  | cons x xs ih =>
    have h := ih (H.snoc i x)
    rw [update_self, update_idem] at h
    simpa using h

/-- A prefix of a merge is a merge of prefixes. -/
theorem cut (H : IsMerge f l) (h : l' <+: l) :
    ∃ g, IsMerge g l' ∧ ∀ i, g i <+: f i := by
  induction H with
  | nil =>
    rw [List.prefix_nil] at h
    subst h
    exact ⟨_, .nil, fun _ => List.prefix_rfl⟩
  | snoc i x H ih =>
    rcases List.prefix_concat_iff.1 h with rfl | h
    · exact ⟨_, H.snoc i x, fun _ => List.prefix_rfl⟩
    · obtain ⟨g, hg, hp⟩ := ih h
      refine ⟨g, hg, fun k => ?_⟩
      by_cases hk : k = i
      · subst hk
        rw [update_self]
        exact (hp k).trans (List.prefix_append ..)
      · rw [update_of_ne hk]
        exact hp k

end IsMerge

namespace Stage
variable {ι α : Type} [DecidableEq ι] {closed closed' : Prop} {got got' held held' : ι → List α}
  {out l : List α}

theorem init : Stage closed (fun _ : ι => ([] : List α)) (fun _ => []) [] :=
  ⟨fun _ => [], fun _ => [], .nil, fun _ => rfl, fun _ h => absurd rfl h⟩

theorem congr (H : Stage closed got held out) (hc : closed → closed')
    (hg : ∀ i, got' i = got i) (hh : ∀ i, held' i = held i) : Stage closed' got' held' out := by
  rw [funext hg, funext hh]
  obtain ⟨sent, lost, hm, he, hl⟩ := H
  exact ⟨sent, lost, hm, he, fun i h => hc (hl i h)⟩

/-- A worker takes elements, and loses those at the head when the outlet is closed. -/
theorem work (H : Stage closed got held out) (i : ι) (new drop : List α)
    (hg : got' i = got i ++ new) (hh : held i ++ new = drop ++ held' i) (hd : drop ≠ [] → closed)
    (hne : ∀ k ≠ i, got' k = got k ∧ held' k = held k) : Stage closed got' held' out := by
  obtain ⟨sent, lost, hm, he, hl⟩ := H
  refine ⟨sent, update lost i (lost i ++ drop), hm, fun k => ?_, fun k hk => ?_⟩
  · by_cases h : k = i
    · subst h
      rw [update_self, hg, ← he k]
      simp only [List.append_assoc, hh]
    · rw [update_of_ne h, (hne k h).1, (hne k h).2]
      exact he k
  · by_cases h : k = i
    · subst h
      rw [update_self] at hk
      by_cases h0 : lost k = []
      · apply hd
        rwa [h0] at hk
      · exact hl k h0
    · rw [update_of_ne h] at hk
      exact hl k hk

/-- A worker hands on the first element it holds, while the outlet is open. -/
theorem send (H : Stage closed got held out) (i : ι) (x : α) (hopen : ¬ closed)
    (hh : held i = x :: held' i) (hne : ∀ k ≠ i, held' k = held k) :
    Stage closed got held' (out ++ [x]) := by
  obtain ⟨sent, lost, hm, he, hl⟩ := H
  have h0 (k : ι) : lost k = [] := by
    by_contra h
    exact hopen (hl k h)
  refine ⟨update sent i (sent i ++ [x]), lost, hm.snoc i x, fun k => ?_, hl⟩
  by_cases h : k = i
  · subst h
    rw [update_self, ← he k, h0, hh]
    simp
  · rw [update_of_ne h, hne k h]
    exact he k

/-- What has come out of a stage, or the first part of it, has no gaps. -/
theorem merge_parts (H : Stage closed got held out) (h : l <+: out) :
    ∃ parts, IsMerge parts l ∧ ∀ i, parts i <+: got i := by
  obtain ⟨sent, lost, hm, he, -⟩ := H
  obtain ⟨parts, hp, hs⟩ := hm.cut h
  refine ⟨parts, hp, fun i => (hs i).trans ?_⟩
  rw [← he i]
  exact List.prefix_append ..

end Stage
