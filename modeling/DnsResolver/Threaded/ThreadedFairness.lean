import DnsResolver.Threaded.ThreadedWork
import DnsResolver.Lib.Fairness
import Mathlib.Order.Filter.Finite

/-!
# Fair runs come to their end

In a run that is fair to the threads `main` returns, where the program cannot get stuck. Only
finitely many steps of the run lower what remains, so from some time on every step is one of a call
that waits in vain. A thread that does not wait in vain then never moves again (`stands_still`), so
by fairness it cannot: its call is at the lock of a queue, and the lock is always taken. But the
call that has the lock is fairly treated too, and comes to release it (`lock_released`). -/

namespace DnsResolver
open Function Filter

variable {R S : Nat} {cfg : Config R S} {s s' : State R S} {t u : Tid R S} {q : QName}
  {a : Act R S}

namespace State

/-- `dnsthreaded` without spurious wake-ups. -/
abbrev prompted (cfg : Config R S) : TransitionSystem (State R S) (Act R S) :=
  cfg.system.restrict (StepsOf fun _ => True)

/-- The thread is in no call that waits in vain. -/
def Unhindered (cfg : Config R S) (s : State R S) (t : Tid R S) : Prop :=
  ∀ q p, s.op t = some (q, p) →
    ((s.queue q).call t).waiting cfg.arraySize (s.queue q).arr = false

/-- A statement of a thread or the next move of its call is there to be made. -/
def Enabled (cfg : Config R S) (s : State R S) (t : Tid R S) : Prop :=
  ∃ a s', a.thread = t ∧ (prompted cfg).step s a s'

/-! ## Futile steps -/

/-- A futile step is one of a call that waits, in a queue that stays as it is. -/
theorem futile_cases (hf : Futile cfg s a) (h : s.step cfg a = some s') :
    ∃ q t mv m, a = .call q t mv ∧ mv ≠ .spurious ∧
      ((s.queue q).call t).waiting cfg.arraySize (s.queue q).arr = true ∧
      (s.queue q).move cfg.arraySize t mv = some m ∧ s' = s.setQueue q m := by
  obtain ⟨-, ⟨t, c, rfl, -⟩ | ⟨q, t, mv, m, rfl, h', rfl⟩⟩ := step_cases h
  · exact hf.elim
  · exact ⟨q, t, mv, m, rfl, hf.1, hf.2, h', rfl⟩

/-- The thread of a futile step is in the call that waits. -/
theorem op_of_waiting (H : cfg.system.Reachable s)
    (hw : ((s.queue q).call t).waiting cfg.arraySize (s.queue q).arr = true) :
    ∃ p, s.op t = some (q, p) := by
  have hop := (synced_reachable H).op q t
  cases ho : opAt (s.op t) q with
  | some p => exact ⟨p, opAt_eq_some.1 ho⟩
  | none =>
    rw [ho, Call.op_eq_none] at hop
    rw [hop] at hw
    cases hw

/-- A futile step leaves every thread where it is, with the same calls that wait. -/
theorem futile_same (hf : Futile cfg s a) (h : s.step cfg a = some s') (t : Tid R S) :
    s'.op t = s.op t ∧ ∀ q,
      ((s'.queue q).call t).waiting cfg.arraySize (s'.queue q).arr =
        ((s.queue q).call t).waiting cfg.arraySize (s.queue q).arr ∧
      ((s'.queue q).call t).running = ((s.queue q).call t).running := by
  obtain ⟨q, u, mv, m, rfl, hmv, hw, h', rfl⟩ := futile_cases hf h
  refine ⟨setQueue_op s q m t, fun q' => ?_⟩
  by_cases hq : q' = q
  · subst hq
    rw [setQueue_self]
    exact (Monitor.futile_move h' hmv hw).2 t
  · rw [setQueue_of_ne m hq]
    exact ⟨rfl, rfl⟩

theorem unhindered_futile (hf : Futile cfg s a) (h : s.step cfg a = some s')
    (ht : s.Unhindered cfg t) : s'.Unhindered cfg t := by
  intro q p hop
  obtain ⟨h1, h2⟩ := futile_same hf h t
  rw [(h2 q).1]
  exact ht q p (h1 ▸ hop)

/-- An unhindered thread makes no futile step. -/
theorem stands_still (H : cfg.system.Reachable s) (hf : Futile cfg s a)
    (h : s.step cfg a = some s') (ht : s.Unhindered cfg t) : a.thread ≠ t := by
  rintro rfl
  obtain ⟨q, u, mv, m, rfl, -, hw, -, -⟩ := futile_cases hf h
  obtain ⟨p, hop⟩ := op_of_waiting H hw
  exact absurd ((ht q p hop).symm.trans hw) (by simp)

/-! ## The lock of a queue -/

/-- A call that is not at a lock can move. -/
theorem enabled_of_call (H : cfg.system.Reachable s) (he : s.ended = false)
    (hr : ((s.queue q).call t).running = true)
    (hl : ((s.queue q).call t).holdsLock = true ∨ (s.queue q).arr.lock = none) :
    s.Enabled cfg t := by
  obtain ⟨mv, m, hmv, h, -⟩ := (queue_inv H q).next hr (hl.symm.imp_right ((queue_inv H q).lock t).2)
  exact ⟨.call q t mv, _, rfl, ⟨trivial, hmv⟩, step_call he h⟩

/-- While the lock is taken at both ends of a futile step, the same thread has it. -/
theorem lock_futile (hf : Futile cfg s a)
    (h : s.step cfg a = some s') (hl : (s.queue q).arr.lock = some u)
    (hl' : (s'.queue q).arr.lock ≠ none) : (s'.queue q).arr.lock = some u := by
  obtain ⟨q', w, mv, m, rfl, -, -, h', rfl⟩ := futile_cases hf h
  by_cases hq : q = q'
  · subst hq
    rw [setQueue_self] at hl' ⊢
    obtain ⟨o, w', call', hs, -, -, rfl⟩ | ⟨r, v, -, -, -, rfl⟩ := Monitor.move_cases h'
    · obtain ⟨-, h1⟩ | ⟨-, h1, -⟩ | ⟨-, -, h1⟩ := hs.lock
      · exact h1.trans hl
      · exact absurd (hl.symm.trans h1) (by simp)
      · exact absurd h1 hl'
    · exact hl
  · rw [setQueue_of_ne m hq]
    exact hl

/-- The call that has the lock comes nearer to its release with each futile step of its own, and
stays where it is in the others'. -/
theorem toSleep_futile (H : cfg.system.Reachable s) (hf : Futile cfg s a)
    (h : s.step cfg a = some s') (hl : (s.queue q).arr.lock = some u)
    (hl' : (s'.queue q).arr.lock = some u) :
    ((s'.queue q).call u).toSleep ≤ ((s.queue q).call u).toSleep ∧
    (a.thread = u → ((s'.queue q).call u).toSleep < ((s.queue q).call u).toSleep) := by
  have hu := ((queue_inv H q).lock u).1 hl
  have hu' := ((queue_inv (H.step h) q).lock u).1 hl'
  obtain ⟨q', w, mv, m, rfl, hmv, hw, h', rfl⟩ := futile_cases hf h
  by_cases hq : q = q'
  · subst hq
    rw [setQueue_self] at hu' ⊢
    by_cases hwu : u = w
    · subst hwu
      obtain ⟨o, w', call', hs, -, -, rfl⟩ | ⟨r, v, hv, -, -, rfl⟩ := Monitor.move_cases h'
      · simp only [update_self] at hu' ⊢
        have hlt := ((hs.waiting hw).2.2.2 hu).resolve_left (by simp [hu'])
        exact ⟨hlt.le, fun _ => hlt⟩
      · rw [Call.asleepOn_holdsLock hv] at hu
        cases hu
    · rw [Monitor.move_awake h' hwu (Monitor.awake_of_holdsLock hu)]
      exact ⟨le_rfl, fun hc => absurd hc.symm hwu⟩
  · rw [setQueue_of_ne m hq]
    refine ⟨le_rfl, fun hc => ?_⟩
    obtain rfl : w = u := hc
    -- a thread is in one call only
    obtain ⟨p, hop⟩ := op_of_waiting H hw
    have hn := (synced_reachable H).call_idle (t := w) (q := q) (by
      rw [hop]
      simp [opAt, Ne.symm hq])
    rw [hn] at hu
    cases hu

/-! ## The tail of a run -/

section
variable {r : (prompted cfg).Run} (H : cfg.system.Reachable (r.state 0))
  (hr : r.Fair Act.thread) (he : ∀ n, (r.state n).ended = false) {n : ℕ}
  (hf : ∀ k ≥ n, ∀ a ∈ r.act k, Futile cfg (r.state k) a)
include H

theorem run_reachable (k : ℕ) : cfg.system.Reachable (r.state k) :=
  H.leads (r.leads k).of_restrict

/-- From some time on every step is futile. -/
theorem eventually_futile (ho : cfg.outsiders = false) :
    ∀ᶠ k in atTop, ∀ a ∈ r.act k, Futile cfg (r.state k) a := by
  refine r.eventually_of_variant (remaining cfg) (n := 0) (fun k _ a ha => ?_) fun k _ hk => ?_
  · have hs := r.step k a ha
    have hpf : Productive cfg (r.state k) a ∨ Futile cfg (r.state k) a := productive_or_futile hs.1
    rcases hpf with hp | hf
    · exact (remaining_lt ho (run_reachable H k) hp hs.2).le
    · exact remaining_le (run_reachable H k) hf hs.2
  · push Not at hk
    obtain ⟨a, ha, hk⟩ := hk
    have hs := r.step k a ha
    exact remaining_lt ho (run_reachable H k) ((productive_or_futile hs.1).resolve_right hk) hs.2

include hr hf in
/-- An unhindered thread is one that soon is never enabled again. -/
theorem eventually_not_enabled (ht : (r.state n).Unhindered cfg t) :
    ∀ᶠ k in atTop, ¬ (r.state k).Enabled cfg t := by
  have hu := r.from_of_steps (P := fun s => s.Unhindered cfg t)
    (fun k hk a ha => unhindered_futile (hf k hk a ha) (r.step k a ha).2) ht
  by_contra hn
  obtain ⟨k, hk, a, ha, hat⟩ := frequently_atTop.1 (hr t hn) n
  exact stands_still (run_reachable H k) (hf k hk a ha) (r.step k a ha).2 (hu k hk) hat

include hr he hf in
/-- The lock of a queue is not taken for ever. -/
theorem lock_released (q : QName) : ∃ k ≥ n, ((r.state k).queue q).arr.lock = none := by
  by_contra hn
  push Not at hn
  obtain ⟨u, hu⟩ := Option.ne_none_iff_exists'.1 (hn n le_rfl)
  have hl := r.from_of_steps (P := fun s => (s.queue q).arr.lock = some u)
    (fun k hk a ha h => lock_futile (hf k hk a ha) (r.step k a ha).2 h (hn (k + 1) (by omega))) hu
  have hle (k) (hk : k ≥ n) (a) (ha : a ∈ r.act k) :=
    toSleep_futile (run_reachable H k) (hf k hk a ha) (r.step k a ha).2 (hl k hk)
      (hl (k + 1) (by omega))
  have hstop : ∀ᶠ k in atTop, ¬ ∃ a ∈ r.act k, a.thread = u := by
    refine r.eventually_of_variant (fun s => ((s.queue q).call u).toSleep) (n := n)
      (fun k hk a ha => (hle k hk a ha).1) fun k hk hp => ?_
    obtain ⟨a, ha, hau⟩ := not_not.1 hp
    exact (hle k hk a ha).2 hau
  refine hr u ?_ hstop
  refine frequently_atTop.2 fun k => ⟨max k n, le_max_left k n, ?_⟩
  have hk := ((queue_inv (run_reachable H (max k n)) q).lock u).1 (hl _ (le_max_right k n))
  refine enabled_of_call (run_reachable H _) (he _) ?_ (.inl hk)
  generalize ((r.state (max k n)).queue q).call u = c at hk
  cases c <;> first | rfl | cases hk

include hr he hf in
/-- No thread is in a call that goes on and does not wait in vain. -/
theorem not_running (ht : (r.state n).Unhindered cfg t)
    (hrun : (((r.state n).queue q).call t).running = true) : False := by
  obtain ⟨m, hm⟩ := eventually_atTop.1 (eventually_not_enabled H hr hf ht)
  obtain ⟨k, hk, hl⟩ := lock_released (n := max m n) H hr he
    (fun k hk => hf k (le_of_max_le_right hk)) q
  refine hm k (le_of_max_le_left hk) (enabled_of_call (run_reachable H k) (he k) ?_ (.inr hl))
  have := r.from_of_steps (P := fun s => ((s.queue q).call t).running = true)
    (fun k hk a ha h => (((futile_same (hf k hk a ha) (r.step k a ha).2 t).2 q).2).trans h) hrun
  exact this k (le_of_max_le_right hk)

include hr he hf in
/-- In the end a fair run is stuck. -/
theorem tail_stuck (ho : cfg.outsiders = false) : ∃ k, (r.state k).Stuck cfg := by
  have hstmt (t : Tid R S) : ∀ᶠ k in atTop, ∀ c, (r.state k).stmt cfg c t = none := by
    by_cases ht : (r.state n).Unhindered cfg t
    · refine (eventually_not_enabled H hr hf ht).mono fun k hk c => ?_
      cases hs : (r.state k).stmt cfg c t with
      | none => rfl
      | some s' => exact absurd ⟨.stmt t c, s', rfl, trivial, step_stmt (he k) hs⟩ hk
    · -- a thread that waits in vain goes on to do so
      unfold Unhindered at ht
      push Not at ht
      obtain ⟨q, p, hop, hw⟩ := ht
      have hkeep := r.from_of_steps (P := fun s => s.op t = some (q, p) ∧
          ((s.queue q).call t).waiting cfg.arraySize (s.queue q).arr = true)
        (fun k hk a ha h => by
          obtain ⟨h1, h2⟩ := futile_same (hf k hk a ha) (r.step k a ha).2 t
          exact ⟨h1.trans h.1, (h2 q).1.trans h.2⟩) ⟨hop, by simpa using hw⟩
      refine eventually_atTop.2 ⟨n, fun k hk c => ?_⟩
      cases hs : (r.state k).stmt cfg c t with
      | none => rfl
      | some s' =>
        obtain ⟨hop, hw⟩ := hkeep k hk
        have hd := (stmt_cases hs).done hop
        have hrun := Call.running_of_waiting hw
        generalize ((r.state k).queue q).call t = c at hd hrun
        cases c <;> simp_all [Call.running, Call.done]
  obtain ⟨m, hm⟩ := eventually_atTop.1 (eventually_all.2 hstmt)
  have hm := hm (max m n) (le_max_left m n)
  refine ⟨max m n, hm, fun t q p hop => ?_⟩
  by_contra hw
  have ht : (r.state (max m n)).Unhindered cfg t := by
    intro q' p' hop'
    cases hop.symm.trans hop'
    simpa using hw
  have hR := run_reachable H (max m n)
  rcases Call.running_of_op ((synced_reachable hR).inCall t q p hop) with hrun | hd
  · exact not_running H hr he (fun k hk => hf k (le_of_max_le_right hk)) ht hrun
  · obtain ⟨s', hs⟩ := stmt_of_done hR (fun q' hq => by simp [hq, op, no_outsider ho hR] at hop) hop hd
    cases (hm t .ok).symm.trans hs

end

/-- **Fair runs come to their end.** Where the files do not overfill the queues and nothing fails,
`main` returns in every run without signals and spurious wake-ups that is fair to the threads. -/
theorem finishes_fair (ho : cfg.outsiders = false) (ha : cfg.allocFails = false)
    (hc : cfg.createFails = false) (hans : ∀ host, ∃ a, cfg.answers host a = true)
    (hf : ¬ cfg.Overfilled) (r : (prompted cfg).Run) (H : cfg.system.Reachable (r.state 0))
    (hr : r.Fair Act.thread) : ∃ n, (r.state n).main = .returned := by
  by_contra hm
  push Not at hm
  have he (n : ℕ) : (r.state n).ended = false := by
    have hab := not_aborting ha hc (run_reachable H n)
    have hm := hm n
    unfold ended
    generalize (r.state n).main = l at hab hm
    cases l with
    | returned => exact absurd rfl hm
    | exited => cases hab
    | _ => rfl
  obtain ⟨n, hn⟩ := eventually_atTop.1 (eventually_futile H ho)
  obtain ⟨k, hk⟩ := tail_stuck H hr he hn ho
  have hR := run_reachable H k
  exact hf ((hk.deadlocked hR ha hc hans ho (hm k)).overfilled ho ha hR)

instance (P : Tid R S → Prop) [DecidablePred P] (s : State R S) (a : Act R S) :
    Decidable (StepsOf P s a) := by
  cases a <;> unfold StepsOf <;> infer_instance

theorem finishes_fair_sample : ∃ r : (prompted sample).Run, r.state 0 = .init ∧
    r.Fair Act.thread ∧ ∃ n, (r.state n).main = .returned := by
  have h : ∃ s ∈ TransitionSystem.exec
      (fun s t => TransitionSystem.guarded (StepsOf fun _ => True) (State.step sample) s
        (s.nextAct sample sampleDns t))
      ((sampleRun 0 0).flatMap fun p => List.replicate p.2 p.1) .init, s.main = .returned := by
    decide +kernel
  obtain ⟨s', hs, hm⟩ := h
  have hl : (prompted sample).Leads .init s' :=
    TransitionSystem.leads_guarded (i := .init) (TransitionSystem.leads_choose hs)
  have hend (a : Act 1 1) (s'' : State 1 1) : ¬ (prompted sample).step s' a s'' := by
    rintro ⟨-, h⟩
    have := (step_cases h).1
    simp [ended, hm] at this
  obtain ⟨r, h0, hr, -⟩ := TransitionSystem.Run.exists_of_leads Act.thread hl hend
  exact ⟨r, h0, hr, finishes_fair rfl rfl rfl (fun _ => ⟨_, decide_eq_true rfl⟩) (by decide +kernel)
    r (h0 ▸ .init rfl) hr⟩

end State
end DnsResolver
