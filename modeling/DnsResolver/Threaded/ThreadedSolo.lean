import DnsResolver.Threaded.ThreadedProgress
import DnsResolver.Array.ArraySolo
import Mathlib.Data.Prod.Lex

/-!
# Threads that run alone

A thread whose call is ready, while nobody holds the lock of a queue, comes to the start of the
next call of its loop when it runs alone (`Calm.advance`). A thread of a loop over a queue comes
nearer to its next `array_get` with each statement and call, and takes an element with it, so it
empties the queue (`Calm.drains`). -/

namespace DnsResolver
open Function

variable {R S : Nat} {cfg : Config R S} {s s₁ s₂ s' : State R S} {t u : Tid R S} {q : QName}
  {e : Effect R S} {P : Tid R S → Prop}

namespace State

/-- The steps of the threads in `P` that no spurious wake-up makes. -/
def StepsOf (P : Tid R S → Prop) (_ : State R S) : Act R S → Prop
  | .stmt t _ => P t
  | .call _ t mv => P t ∧ mv ≠ .spurious

/-- The program is running and nobody holds the lock of a queue. -/
structure Calm (cfg : Config R S) (s : State R S) : Prop where
  reachable : cfg.system.Reachable s
  going : s.ended = false
  unlocked : ∀ q, (s.queue q).arr.lock = none

/-- The thread has not yet made a statement of the call that it is in. -/
def Begun (s : State R S) (t : Tid R S) : Prop :=
  ∀ q p, s.op t = some (q, p) → (s.queue q).call t = p.start

theorem stepsOf_mono {Q : Tid R S → Prop} (hQ : ∀ u, Q u → P u)
    (h : (cfg.system.restrict (StepsOf Q)).Leads s s') :
    (cfg.system.restrict (StepsOf P)).Leads s s' := by
  refine h.restrict_mono fun s a ha => ?_
  cases a with
  | stmt t c => exact hQ t ha
  | call q t mv => exact ⟨hQ t ha.1, ha.2⟩

theorem StepsOf.thread {a : Act R S} (h : StepsOf P s a) : P a.thread := by
  cases a with
  | stmt t c => exact h
  | call q t mv => exact h.1

theorem moves_leads {m : Monitor (Tid R S) Str} (he : s.ended = false)
    (h : ((Monitor.system (Tid R S) Str cfg.arraySize).restrict (Monitor.MovesOf P)).Leads
      (s.queue q) m) :
    (cfg.system.restrict (StepsOf P)).Leads s (s.setQueue q m) := by
  refine call_leads (fun s a ha => ?_) he h
  cases a with
  | move t mv => exact ⟨t, mv, rfl, ha⟩
  | _ => cases ha

theorem setQueue_lock {m : Monitor (Tid R S) Str} (hm : m.arr.lock = none)
    (h : ∀ q' ≠ q, (s.queue q').arr.lock = none) (q' : QName) :
    ((s.setQueue q m).queue q').arr.lock = none := by
  by_cases hq : q' = q
  · subst hq
    rwa [setQueue_self]
  · rw [setQueue_of_ne m hq]
    exact h q' hq

/-! ## From one call to the next -/

/-- A statement, with the queues unlocked. -/
theorem Calm.stmt (C : s.Calm cfg) {c : Choice} (h : s.stmt cfg c t = some s')
    (he : s'.ended = false) :
    (cfg.system.restrict (StepsOf (· = t))).Leads s s' ∧ s'.Calm cfg ∧ s'.Begun t := by
  have hstep : cfg.system.step s (.stmt t c) s' := step_stmt C.going h
  have hst := stmt_cases h
  refine ⟨.single (a := Act.stmt t c) ⟨rfl, hstep⟩, ⟨C.reachable.step hstep, he, fun q => ?_⟩, fun q p hop => ?_⟩
  · rw [hst.queue_eq, switch_arr]
    exact C.unlocked q
  · rw [(synced_reachable C.reachable).call_self hst q, opAt_eq_some.2 hop]
    rfl

/-- The thread's call returns. -/
theorem Calm.call (C : s.Calm cfg) {p : Op Str} (hop : s.op t = some (q, p))
    (hr : ((s.queue q).call t).Ready cfg.arraySize (s.queue q).arr) :
    ∃ m, ((Monitor.system (Tid R S) Str cfg.arraySize).restrict
        (Monitor.MovesOf (· = t))).Leads (s.queue q) m ∧ (m.call t).done = true ∧
      (s.setQueue q m).Calm cfg := by
  have hc := (synced_reachable C.reachable).inCall t q p hop
  rcases Call.running_of_op hc with hrun | hd
  · obtain ⟨m, h, hd, hl⟩ := (queue_inv C.reachable q).returns hrun (.inl (C.unlocked q)) hr
    exact ⟨m, h, hd, C.reachable.leads (moves_leads C.going h).of_restrict, C.going,
      setQueue_lock hl fun q' _ => C.unlocked q'⟩
  · exact ⟨s.queue q, .refl, hd, by rwa [setQueue_queue]⟩

theorem Stmt.main_eq (hf : s.Fresh) (h : Stmt cfg s t s') (ht : t ≠ .main) : s'.main = s.main :=
  h.other hf (u := .main) (Ne.symm ht)

/-- A thread of a loop over `q` has come to the start of its next call; on its way it has made one
statement outside the queues. -/
structure Advance (cfg : Config R S) (t : Tid R S) (q : QName) (s s' : State R S) : Prop where
  leads : (cfg.system.restrict (StepsOf (· = t))).Leads s s'
  calm : s'.Calm cfg
  begun : s'.Begun t
  items : (s'.queue q).items.length ≤ (s.queue q).items.length
  taken : s.op t = some (q, .get) → s.Begun t → (s.queue q).items ≠ [] →
    (s'.queue q).items.length < (s.queue q).items.length
  stmt : ∃ m q', Stmt cfg (s.setQueue q' m) t s'

theorem Calm.advance (C : s.Calm cfg) (hm : t ≠ .main) (ho : ∀ q', t ≠ .outsider q')
    (hput : ∀ x, s.op t ≠ some (q, .put x))
    (hr : ∀ q' p, s.op t = some (q', p) →
      ((s.queue q').call t).Ready cfg.arraySize (s.queue q').arr)
    (hs : s.op t = none → ∃ c s', s.stmt cfg c t = some s') :
    ∃ s', Advance cfg t q s s' := by
  have hended : ∀ {s s' : State R S}, s.Calm cfg → Stmt cfg s t s' → s'.ended = false :=
    fun C h => by
      rw [ended, Stmt.main_eq (synced_reachable C.reachable).fresh h hm]
      exact C.going
  cases hop : s.op t with
  | none =>
    obtain ⟨c, s', h⟩ := hs hop
    have hst := stmt_cases h
    obtain ⟨hl, C', hb⟩ := C.stmt h (hended C hst)
    refine ⟨s', hl, C', hb, ?_, fun h0 => ?_, s.queue q, q, by rwa [setQueue_queue]⟩
    · rw [hst.queue_eq, switch_items]
    · cases hop.symm.trans h0
  | some qp =>
    obtain ⟨q', p⟩ := qp
    obtain ⟨m, hmoves, hd, C₁⟩ := C.call hop (hr q' p hop)
    have hop₁ : (s.setQueue q' m).op t = some (q', p) := by rw [setQueue_op, hop]
    obtain ⟨s', h⟩ := stmt_of_done C₁.reachable ho hop₁ (by rwa [setQueue_self])
    have hst := stmt_cases h
    obtain ⟨hl, C', hb⟩ := C₁.stmt h (hended C₁ hst)
    have hitems : (s'.queue q).items = ((s.setQueue q' m).queue q).items := by
      rw [hst.queue_eq, switch_items]
    have hlead := (moves_leads C.going hmoves).trans hl
    by_cases hq : q' = q
    · subst hq
      rw [setQueue_self] at hitems
      cases p with
      | put x => exact absurd hop (hput x)
      | free =>
        have hc := (synced_reachable C.reachable).inCall t q' _ hop
        have hready := hr q' _ hop
        have hmove := Monitor.contents_alone cfg.two_le (queue_reachable C.reachable q') hmoves
        have hc' : (m.call t).op = some .free := by
          rw [Monitor.op_moves (queue_reachable C.reachable q') hmoves, hc]
        rw [Call.carries_free hc, Call.carries_free hc', add_zero, add_zero] at hmove
        refine ⟨s', hlead, C', hb, ?_, fun h0 => ?_, m, q', hst⟩
        · rw [hitems, ← Multiset.coe_card, hmove, Multiset.coe_card]
        · cases hop.symm.trans h0
      | get =>
        have hc := (synced_reachable C.reachable).inCall t q' _ hop
        have hc' : (m.call t).op = some .get := by
          rw [Monitor.op_moves (queue_reachable C.reachable q') hmoves, hc]
        obtain ⟨h1, h2⟩ := Monitor.get_alone cfg.two_le (queue_reachable C.reachable q') hmoves
          hc' hd
        rw [← hitems] at h1 h2
        exact ⟨s', hlead, C', hb, h1, fun h0 hbegun => h2 (hbegun _ _ h0), m, q', hst⟩
    · rw [setQueue_of_ne m (Ne.symm hq)] at hitems
      refine ⟨s', hlead, C', hb, by rw [hitems], fun h0 => ?_, m, q', hst⟩
      cases hop.symm.trans h0
      exact absurd rfl hq

/-! ## What the other threads leave alone -/

/-- The thread stays where it is, if it has been created. -/
def Stays (s s' : State R S) : Tid R S → Prop
  | .main => s'.main = s.main
  | .requester i => (s.requester i).loc ≠ .idle → (s'.requester i).loc = (s.requester i).loc
  | .resolver j => (s.resolver j).loc ≠ .idle → (s'.resolver j).loc = (s.resolver j).loc
  | .logger k => s.logger k ≠ .idle → s'.logger k = s.logger k
  | .outsider q => s'.outsider q = s.outsider q

theorem Stays.refl (s : State R S) (u : Tid R S) : s.Stays s u := by
  cases u <;> first | rfl | exact fun _ => rfl

theorem Stays.trans (h : s.Stays s₁ u) (h' : s₁.Stays s₂ u) : s.Stays s₂ u := by
  cases u with
  | main | outsider => exact Eq.trans h' h
  | requester | resolver | logger => exact fun hn => (h' (h hn ▸ hn)).trans (h hn)

theorem stays_step {a : Act R S} (H : cfg.system.Reachable s) (h : s.step cfg a = some s')
    (hu : u ≠ a.thread) : s.Stays s' u := by
  rcases (step_cases h).2 with ⟨t, c, rfl, h'⟩ | ⟨q, t, mv, m, rfl, -, rfl⟩
  · have ho := h'.other (synced_reachable H).fresh hu
    cases u with
    | main | outsider => exact ho
    | requester i => exact fun hn => ho.2.resolve_right fun h0 => hn h0.1
    | resolver j => exact fun hn => ho.2.resolve_right fun h0 => hn h0.1
    | logger k => exact fun hn => ho.resolve_right fun h0 => hn h0.1
  · exact Stays.refl s u

theorem stays (H : cfg.system.Reachable s) (h : (cfg.system.restrict (StepsOf P)).Leads s s')
    (hu : ¬ P u) : s.Stays s' u := by
  refine h.keeps (I := fun s' => s.Stays s' u) (fun s₁ a s₂ H₁ ha h hI => ?_) H (.refl s u)
  exact hI.trans (stays_step H₁ h fun e => hu (e ▸ StepsOf.thread ha))

theorem begun_step {a : Act R S} (H : cfg.system.Reachable s) (h : s.step cfg a = some s')
    (hu : u ≠ a.thread) (hb : s.Begun u) : s'.Begun u := by
  intro q p hop
  rcases (step_cases h).2 with ⟨t, c, rfl, h'⟩ | ⟨q', t, mv, m, rfl, h', rfl⟩
  · rw [h'.op_of_ne (synced_reachable H).fresh hu] at hop
    rw [call_of_ne h' hu]
    exact hb q p hop
  · rw [setQueue_op] at hop
    by_cases hq : q = q'
    · subst hq
      rw [setQueue_self, Monitor.move_awake h' hu, hb q p hop]
      rw [hb q p hop]
      cases p <;> rfl
    · rw [setQueue_of_ne m hq]
      exact hb q p hop

theorem begun_steps (H : cfg.system.Reachable s)
    (h : (cfg.system.restrict (StepsOf P)).Leads s s') (hu : ¬ P u) (hb : s.Begun u) :
    s'.Begun u := by
  refine h.keeps (I := fun s => s.Begun u) (fun s₁ a s₂ H₁ ha h hI => ?_) H hb
  exact begun_step H₁ h (fun e => hu (e ▸ StepsOf.thread ha)) hI

/-- A queue grows only by a put, and not when it is shut down. -/
theorem items_step {a : Act R S} (H : cfg.system.Reachable s) (h : s.step cfg a = some s')
    (hq : (s.queue q).arr.shutdown = true ∨ ∀ x, s.op a.thread ≠ some (q, .put x)) :
    (s'.queue q).items.length ≤ (s.queue q).items.length := by
  rcases (step_cases h).2 with ⟨t, c, rfl, h'⟩ | ⟨q', t, mv, m, rfl, h', rfl⟩
  · rw [h'.queue_eq, switch_items]
  · by_cases hqq : q = q'
    · subst hqq
      rw [setQueue_self]
      cases (queue_inv H q).moveView h' with
      | stay _ ha hd => rw [Monitor.items, ha, hd, Monitor.items]
      | accept x hc _ hsd =>
        have hop := (synced_reachable H).op q t
        rw [hc] at hop
        rcases hq with hq | hq
        · rw [hsd] at hq
          cases hq
        · exact absurd (opAt_eq_some.1 hop.symm) (hq x)
      | deliver x _ _ _ hx =>
        rw [hx, List.length_cons]
        exact Nat.le_succ _
    · rw [setQueue_of_ne m hqq]

theorem items_shut (H : cfg.system.Reachable s)
    (h : (cfg.system.restrict (StepsOf P)).Leads s s') (hs : (s.queue q).arr.shutdown = true) :
    (s'.queue q).arr.shutdown = true ∧
      (s'.queue q).items.length ≤ (s.queue q).items.length := by
  refine h.keeps (I := fun s' => (s'.queue q).arr.shutdown = true ∧
    (s'.queue q).items.length ≤ (s.queue q).items.length) (fun s₁ a s₂ H₁ ha h hI => ?_) H
    ⟨hs, le_rfl⟩
  exact ⟨shutdown_step H₁ h hI.1, (items_step H₁ h (.inl hI.1)).trans hI.2⟩

/-- Only `main` puts on `filename_queue`. -/
theorem items_filename (H : cfg.system.Reachable s)
    (h : (cfg.system.restrict (StepsOf P)).Leads s s') (hP : ¬ P .main) :
    (s'.queue .filenameQueue).items.length ≤ (s.queue .filenameQueue).items.length := by
  refine h.keeps (I := fun s' => (s'.queue .filenameQueue).items.length ≤
    (s.queue .filenameQueue).items.length) (fun s₁ a s₂ H₁ ha h hI => ?_) H le_rfl
  refine (items_step H₁ h (.inr fun x hop => ?_)).trans hI
  have hm : a.thread = .main := (op_put hop).1
  exact hP (hm ▸ StepsOf.thread ha)

/-! ## A loop empties its queue -/

/-- A thread that comes nearer to its next `array_get` in every round, or takes an element, empties
the queue. -/
theorem Calm.drains {I : State R S → Prop} (ρ : State R S → Nat)
    (hround : ∀ s, s.Calm cfg → I s → (s.queue q).items ≠ [] →
      ∃ s', (cfg.system.restrict (StepsOf P)).Leads s s' ∧ s'.Calm cfg ∧ I s' ∧
        ((s'.queue q).items = [] ∨ s'.Begun t ∧
          (s'.queue q).items.length ≤ (s.queue q).items.length ∧
          (s.Begun t → (s'.queue q).items.length < (s.queue q).items.length ∨ ρ s' < ρ s)))
    (C : s.Calm cfg) (hI : I s) :
    ∃ s', (cfg.system.restrict (StepsOf P)).Leads s s' ∧ s'.Calm cfg ∧ I s' ∧
      (s'.queue q).items = [] := by
  by_cases he : (s.queue q).items = []
  · exact ⟨s, .refl, C, hI, he⟩
  -- the first round may end a call that has already taken its element
  obtain ⟨s₁, h₁, C₁, hI₁, hb₁⟩ := hround s C hI he
  obtain ⟨s₂, h₂, ⟨C₂, hI₂, -⟩, he₂⟩ := TransitionSystem.Leads.until
    (S := cfg.system.restrict (StepsOf P))
    (I := fun s => s.Calm cfg ∧ I s ∧ ((s.queue q).items ≠ [] → s.Begun t))
    (G := fun s => (s.queue q).items = []) (fun s => toLex ((s.queue q).items.length, ρ s))
    (fun s hI he => by
      obtain ⟨C, hI, hb⟩ := hI
      obtain ⟨s', h, C', hI', h0 | ⟨hb', hle, hlt⟩⟩ := hround s C hI he
      · refine ⟨s', h, ⟨C', hI', absurd h0⟩, Prod.Lex.toLex_lt_toLex.2 (.inl ?_)⟩
        rw [h0]
        exact List.length_pos_iff.2 he
      · refine ⟨s', h, ⟨C', hI', fun _ => hb'⟩, Prod.Lex.toLex_lt_toLex.2 ?_⟩
        rcases hlt (hb he) with hlt | hlt
        · exact .inl hlt
        · exact (Nat.lt_or_eq_of_le hle).imp id fun h0 => ⟨h0, hlt⟩)
    ⟨C₁, hI₁, fun hne => (hb₁.resolve_left hne).1⟩
  exact ⟨s₂, h₁.trans h₂, C₂, hI₂, he₂⟩

end State
end DnsResolver
