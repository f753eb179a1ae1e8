import DnsResolver.Stress.StressCounts
import DnsResolver.Array.ArrayShutdown

/-!
# The verdict of the stress test

The thread that the alarm interrupts never comes to its end (`victim_reachable`), so `main`, which
joins all others, gives a verdict only when the alarm has not gone off. Without the alarm nothing is
refused or left behind (`undisturbed_reachable`), and `main` goes on to shut the queue down when all
items are counted. So the only verdict it can give is that the test has passed (`verdict_sound`). -/

namespace DnsResolver.Stress
open Function Tally

variable {P C : Nat} {cfg : Config P C} {s s' : State P C} {t u v : Tid P C} {c : Choice}

/-! ## The interrupted thread -/

namespace State

/-- The interrupted thread has not come to its end, nor `main` to the cancelling of the alarm. -/
def Victim (s : State P C) : Prop :=
  ∀ v l, s.handler = some (v, l) → s.alive v = true ∧ (v = .main → s.main.armed = true)

end State

open State

/-- What a thread is kept from doing, the steps of the others do not do for it. -/
theorem Stmt.alive_of_ne (H : s.Fresh) (h : Stmt cfg s t s') (hv : v ≠ t) (ha : s.alive v = true) :
    s'.alive v = true := by
  have ho := h.other H hv
  cases v with
  | main => rfl
  | producer i =>
    rcases ho with ho | ⟨h1, -⟩
    · simpa only [alive, ho] using ha
    · simp [alive, h1] at ha
  | consumer j =>
    rcases ho with ho | ⟨h1, -⟩
    · simpa only [alive, ho] using ha
    · simp [alive, h1] at ha
  | handler => cases ha

theorem Stmt.handler_eq (H : s.Fresh) (h : Stmt cfg s t s') :
    s'.handler = s.handler ∨ ∃ v l l', s.handler = some (v, l) ∧ s'.handler = some (v, l') := by
  by_cases ht : Tid.handler = t
  · subst ht
    cases h with
    | handler hh h => exact .inr ⟨_, _, _, hh, rfl⟩
  · exact .inl (h.other H ht)

namespace State

theorem victim_reachable (H : cfg.system.Reachable s) : s.Victim := by
  induction H with
  | init h =>
    rw [h]
    intro v l hv
    cases hv
  | @step s a s' H h ih =>
    have hf := (synced_reachable H).fresh
    cases step_cases h with
    | @stmt w _ _ _ hi h =>
      intro v l hv
      have hv' : ∃ l, s.handler = some (v, l) := by
        rcases h.handler_eq hf with he | ⟨v', l₁, l₂, h1, h2⟩
        · exact ⟨l, he ▸ hv⟩
        · cases h2.symm.trans hv
          exact ⟨l₁, h1⟩
      obtain ⟨l', hl'⟩ := hv'
      have hvw : v ≠ w := by
        rintro rfl
        simp [interrupted, hl'] at hi
      refine ⟨h.alive_of_ne hf hvw (ih v l' hl').1, ?_⟩
      rintro rfl
      have ho := h.other hf hvw
      rw [Other] at ho
      exact ho ▸ (ih _ l' hl').2 rfl
    | call => exact ih
    | ring _ _ _ hm ha =>
      rintro v l ⟨⟩
      exact ⟨ha, fun _ => hm⟩

end State

/-! ## The joins -/

/-- `main` has joined the producer. -/
def MainLoc.joinedProducer (i : Nat) : MainLoc → Bool
  | .joinProducer k => i < k
  | .wait | .sleep | .free | .joinConsumer _ | .cancelAlarm | .verify .. | .verdict _ => true
  | .createProducer _ | .createConsumer _ | .abort | .returned => false

/-- `main` has joined the consumer. -/
def MainLoc.joinedConsumer (j : Nat) : MainLoc → Bool
  | .joinConsumer k => j < k
  | .cancelAlarm | .verify .. | .verdict _ => true
  | _ => false

/-- `main` has seen all items counted. -/
def MainLoc.released : MainLoc → Bool
  | .free | .joinConsumer _ | .cancelAlarm | .verify .. | .verdict _ => true
  | _ => false

/-- `main` is giving its verdict. -/
def MainLoc.judging : MainLoc → Bool
  | .verify .. | .verdict _ => true
  | _ => false

/-- `main` has given up, or is done. -/
def MainLoc.over : MainLoc → Bool
  | .abort | .returned => true
  | _ => false

theorem MainStep.joins {l l' : MainLoc} {e : Effect P C} (h : MainStep cfg s l l' e) :
    (∀ i : Fin P, l'.joinedProducer i = true →
      l.joinedProducer i = true ∨ (s.producer i).over = true) ∧
    (∀ j : Fin C, l'.joinedConsumer j = true →
      l.joinedConsumer j = true ∨ s.consumer j = .finished) ∧
    (l'.released = true → l.released = true ∨ l = .wait ∧ s.itemsProduced ≤ s.itemsConsumed) ∧
    (l'.judging = true → l.judging = true ∨ l = .cancelAlarm) ∧
    (l.over = true → l'.over = true) ∧ (l.released = true → l'.released = true ∨ l'.over = true) := by
  cases h with
  | @joinProducer i hi ho =>
    refine ⟨fun k hk => ?_, fun _ h => .inl h, .inl, .inl,
      by simp [MainLoc.over], by simp [MainLoc.released]⟩
    have hk' : (k : Nat) < i + 1 := by simpa [MainLoc.joinedProducer] using hk
    rcases Nat.lt_succ_iff_lt_or_eq.1 hk' with hk' | hk'
    · exact .inl (by simpa [MainLoc.joinedProducer] using hk')
    · subst hk'
      exact .inr ho
  | @joinConsumer j hj ho =>
    refine ⟨fun _ h => .inl h, fun k hk => ?_, .inl, .inl,
      by simp [MainLoc.over], by simp [MainLoc.released]⟩
    have hk' : (k : Nat) < j + 1 := by simpa [MainLoc.joinedConsumer] using hk
    rcases Nat.lt_succ_iff_lt_or_eq.1 hk' with hk' | hk'
    · exact .inl (by simpa [MainLoc.joinedConsumer] using hk')
    · subst hk'
      exact .inr ho
  | producersJoined hi =>
    refine ⟨fun k _ => .inl ?_, fun _ h => .inl h, .inl, .inl,
      by simp [MainLoc.over], by simp [MainLoc.released]⟩
    simpa [MainLoc.joinedProducer] using k.isLt.trans_le hi
  | consumersJoined hj =>
    refine ⟨fun _ h => .inl h, fun k _ => .inl ?_, .inl, .inl,
      by simp [MainLoc.over], by simp [MainLoc.released]⟩
    simpa [MainLoc.joinedConsumer] using k.isLt.trans_le hj
  | _ => simp_all [MainLoc.joinedProducer, MainLoc.joinedConsumer, MainLoc.released,
      MainLoc.judging, MainLoc.over]

theorem ProducerStep.not_over {p : Fin P} {l l' : ProducerLoc} {e : Effect P C}
    (h : ProducerStep cfg s p l l' e) : l.over = false := by
  cases h <;> rfl

theorem ConsumerStep.not_finished {j : Fin C} {l l' : ConsumerLoc} {e : Effect P C}
    (h : ConsumerStep cfg s j l l' e) : l ≠ .finished := by
  cases h <;> simp

namespace State

/-- What `main` has joined has returned. -/
structure Joined (s : State P C) : Prop where
  producer : ∀ i : Fin P, s.main.joinedProducer i = true → (s.producer i).over = true
  consumer : ∀ j : Fin C, s.main.joinedConsumer j = true → s.consumer j = .finished

theorem joined_reachable (H : cfg.system.Reachable s) : s.Joined := by
  induction H with
  | init h =>
    rw [h]
    exact ⟨fun i h => (by cases h), fun j h => (by cases h)⟩
  | @step s a s' H h ih =>
    have hf := (synced_reachable H).fresh
    have h := step_cases h
    have hp (i : Fin P) (hi : (s.producer i).over = true) : (s'.producer i).over = true := by
      rcases h.producer hf i with h0 | ⟨h0, -⟩ | ⟨e, h0⟩
      · rwa [h0]
      · rw [h0] at hi
        cases hi
      · exact absurd hi (by simp [h0.not_over])
    have hc (j : Fin C) (hj : s.consumer j = .finished) : s'.consumer j = .finished := by
      rcases h.consumer hf j with h0 | ⟨h0, -⟩ | ⟨e, h0⟩
      · rwa [h0]
      · rw [h0] at hj
        cases hj
      · exact absurd hj h0.not_finished
    refine ⟨fun i hi => hp i ?_, fun j hj => hc j ?_⟩
    · rcases h.main hf with h0 | ⟨e, h0⟩
      · exact ih.producer i (h0 ▸ hi)
      · exact (h0.joins.1 i hi).elim (ih.producer i) id
    · rcases h.main hf with h0 | ⟨e, h0⟩
      · exact ih.consumer j (h0 ▸ hj)
      · exact (h0.joins.2.1 j hj).elim (ih.consumer j) id

theorem Joined.released (H : s.Joined) (h : s.main.released = true) (i : Fin P) :
    (s.producer i).over = true := by
  refine H.producer i ?_
  generalize s.main = l at h
  cases l <;> first | rfl | cases h

/-! ## Without the alarm -/

/-- Nothing is refused, given up or left behind, and the queue is shut down when all is counted. -/
structure Undisturbed (cfg : Config P C) (s : State P C) : Prop where
  shutdown : s.queue.arr.shutdown = true → s.main.released = true
  dropped : s.dropped = []
  left : s.left = []
  forceShutdown : s.forceShutdown = false
  refused : ∀ p i x, s.producer p ≠ .refused i x
  complete : ∀ p i, s.producer p = .finished i → cfg.stop p ≤ i
  counted : s.main.released = true → cfg.total ≤ s.itemsConsumed

/-- When all producers are through, all items are counted as produced. -/
theorem Undisturbed.produced (H : s.Undisturbed cfg) (hc : s.Counted cfg)
    (ho : ∀ p, (s.producer p).over = true) : s.itemsProduced = cfg.total := by
  have hz (p : Fin P) : s.toCount cfg p = 0 := by
    obtain ⟨i, hi⟩ : ∃ i, s.producer p = .finished i := by
      have hp := ho p
      generalize s.producer p = l at hp
      cases l with
      | finished i => exact ⟨i, rfl⟩
      | _ => cases hp
    rw [toCount, hi, ProducerLoc.toMake, cfg.rest_eq_zero (H.complete p i hi)]
    rfl
  have hp := hc.produced
  change _ + _ + ∑ p, s.toCount cfg p = _ at hp
  rw [H.dropped, Finset.sum_eq_zero fun p _ => hz p] at hp
  exact hp

/-- A free on the queue is made by `main`. -/
theorem op_free (hh : s.handler = none) (h : s.op t = some .free) :
    s.main.over = true ∨ s.main.released = true := by
  cases t with
  | main =>
    rw [op] at h
    generalize s.main = l at h
    cases l with
    | abort => exact .inl rfl
    | free => exact .inr rfl
    | _ => cases h
  | producer i =>
    rw [op] at h
    generalize s.producer i = l at h
    cases l <;> cases h
  | consumer j =>
    rw [op] at h
    generalize s.consumer j = l at h
    cases l <;> cases h
  | handler => simp [op, hh] at h

end State

theorem MainStep.force {l l' : MainLoc} {e : Effect P C} (h : MainStep cfg s l l' e) :
    e.force = false := by
  cases h <;> rfl

theorem ProducerStep.force {p : Fin P} {l l' : ProducerLoc} {e : Effect P C}
    (h : ProducerStep cfg s p l l' e) : e.leave = [] ∧ e.force = false := by
  cases h <;> exact ⟨rfl, rfl⟩

/-- A consumer drops or leaves a string only if it cannot read it or is forced to. -/
theorem ConsumerStep.keeps {j : Fin C} {l l' : ConsumerLoc} {e : Effect P C}
    (h : ConsumerStep cfg s j l l' e) (hp : ∀ x, l = .parse x → scanHostname x ≠ none)
    (hf : s.forceShutdown = false) : e.drop = [] ∧ e.leave = [] ∧ e.force = false := by
  cases h with
  | parse_fail h0 => exact absurd h0 (hp _ rfl)
  | forced _ h0 => exact absurd (hf.symm.trans h0) (by simp)
  | _ => exact ⟨rfl, rfl, rfl⟩

namespace State

/-- No put is refused while a producer is at work. -/
theorem Undisturbed.not_refused (H : s.Undisturbed cfg) (hs : s.Synced)
    (hi : s.queue.Inv cfg.arraySize) (hj : s.Joined) (p : Fin P) (y : Bytes) :
    s.queue.call (.producer p) ≠ .putDone y .shutdown := by
  intro hcall
  have hshut := hi.asserts (.producer p)
  rw [hcall] at hshut
  have hover := hj.released (H.shutdown hshut) p
  have hop := hs.op (.producer p)
  rw [hcall, State.op] at hop
  generalize s.producer p = l at hop hover
  cases l with
  | put i x => cases hover
  | _ => cases hop

theorem Undisturbed.producer_step (H : s.Undisturbed cfg) (hs : s.Synced)
    (hi : s.queue.Inv cfg.arraySize) (hj : s.Joined) {p : Fin P} {l' : ProducerLoc}
    {e : Effect P C} (h : ProducerStep cfg s p (s.producer p) l' e) :
    e.drop = [] ∧ (∀ i x, l' ≠ .refused i x) ∧ ∀ i, l' = .finished i → cfg.stop p ≤ i := by
  have hr := H.refused p
  generalize s.producer p = l at h hr
  cases h with
  | put_refused hc => exact absurd hc (H.not_refused hs hi hj p _)
  | refused => exact absurd rfl (hr _ _)
  | stop hle =>
    refine ⟨rfl, by simp, ?_⟩
    rintro _ ⟨⟩
    exact hle
  | _ => simp

theorem Undisturbed.stmt (H : s.Undisturbed cfg) (hs : s.Synced) (hi : s.queue.Inv cfg.arraySize)
    (ha : s.Accounted cfg) (hc : s.Counted cfg) (hj : s.Joined) (hh : s.handler = none)
    (h : Stmt cfg s t s') (hm' : s'.main.over = false) : s'.Undisturbed cfg := by
  obtain ⟨e, hd, hp⟩ := h.effect
  have harr : s'.queue.arr = s.queue.arr := by
    rw [h.queue_eq, switch_arr]
  have hprod (p : Fin P) : (∀ i x, s'.producer p ≠ .refused i x) ∧
      ∀ i, s'.producer p = .finished i → cfg.stop p ≤ i := by
    by_cases hpt : .producer p = t
    · subst hpt
      exact (H.producer_step hs hi hj hd).2
    · rcases h.other hs.fresh hpt with h0 | ⟨-, h0⟩
      · rw [h0]
        exact ⟨H.refused p, H.complete p⟩
      · rw [h0]
        simp
  have hmain : (s.main.released = true → s'.main.released = true) ∧
      (s'.main.released = true → cfg.total ≤ s.itemsConsumed) := by
    by_cases hmt : .main = t
    · subst hmt
      obtain ⟨-, -, h1, -, -, h2⟩ := MainStep.joins hd
      refine ⟨fun hr => (h2 hr).resolve_right (by simp [hm']), fun hr => ?_⟩
      rcases h1 hr with hr | ⟨hw, hle⟩
      · exact H.counted hr
      · rw [H.produced hc fun p => hj.producer p (by rw [hw]; rfl)] at hle
        exact hle
    · have h0 : s'.main = s.main := h.other hs.fresh hmt
      rw [h0]
      exact ⟨id, H.counted⟩
  have heff : e.drop = [] ∧ e.leave = [] ∧ e.force = false := by
    cases t with
    | main =>
      obtain ⟨-, -, -, h1, h2⟩ := MainStep.strings hd
      exact ⟨h1, h2, MainStep.force hd⟩
    | producer p => exact ⟨(H.producer_step hs hi hj hd).1, ProducerStep.force hd⟩
    | consumer j => exact ConsumerStep.keeps hd (fun x => ha.parse) H.forceShutdown
    | handler =>
      obtain ⟨v, l, l', h0, -⟩ := hd
      cases hh.symm.trans h0
  refine ⟨fun hsh => hmain.1 (H.shutdown (harr ▸ hsh)), ?_, ?_, ?_, fun p => (hprod p).1,
    fun p => (hprod p).2, fun hr => ?_⟩
  · rw [hp.dropped, heff.1, H.dropped]
    rfl
  · rw [hp.left, heff.2.1, H.left]
    rfl
  · rw [hp.forceShutdown, heff.2.2, H.forceShutdown]
    rfl
  · rw [hp.itemsConsumed]
    exact (hmain.2 hr).trans (Nat.le_add_right _ _)

theorem undisturbed_reachable (H : cfg.system.Reachable s) (hh : s.handler = none)
    (hm : s.main.over = false) : s.Undisturbed cfg := by
  induction H with
  | init h =>
    rw [h]
    exact ⟨fun h => (by cases h), rfl, rfl, rfl, by simp [init], by simp [init],
      fun h => (by cases h)⟩
  | @step s a s' H h ih =>
    have hs := synced_reachable H
    have h := step_cases h
    have hm0 : s.main.over = false := by
      rw [← Bool.not_eq_true]
      intro h0
      rcases h.main hs.fresh with he | ⟨e, he⟩
      · rw [he, h0] at hm
        cases hm
      · rw [he.joins.2.2.2.2.1 h0] at hm
        cases hm
    cases h with
    | stmt _ _ h =>
      have hh0 : s.handler = none := by
        rcases h.handler_eq hs.fresh with he | ⟨v, l, l', -, he⟩
        · exact he ▸ hh
        · cases hh.symm.trans he
      exact (ih hh0 hm0).stmt hs (queue_inv H) (accounted_reachable H) (counted_reachable H)
        (joined_reachable H) hh0 h hm
    | @call w mv m _ _ hmv =>
      have hu := ih hh hm
      refine ⟨fun hsh => ?_, hu.dropped, hu.left, hu.forceShutdown, hu.refused, hu.complete,
        hu.counted⟩
      rcases Monitor.move_shutdown hmv hsh with h0 | h0
      · exact hu.shutdown h0
      · exact (op_free hh ((hs.op w).symm.trans h0)).resolve_left (Bool.eq_false_iff.1 hm)
    | ring => cases hh

/-! ## What `main` knows when it judges -/

/-- `main` judges only when the alarm has not gone off, and so it never will. -/
theorem judging_reachable (H : cfg.system.Reachable s) (hj : s.main.judging = true) :
    s.handler = none := by
  induction H with
  | init h =>
    rw [h] at hj
    cases hj
  | @step s a s' H h ih =>
    have hf := (synced_reachable H).fresh
    cases step_cases h with
    | @stmt w _ _ _ hi h =>
      have hback : s.handler = none → s'.handler = none := fun h0 => by
        rcases h.handler_eq hf with he | ⟨v, l, l', he, -⟩
        · exact he.trans h0
        · cases h0.symm.trans he
      by_cases hw : .main = w
      · subst hw
        obtain ⟨e, hd, -⟩ := h.effect
        rcases (MainStep.joins hd).2.2.2.1 hj with h0 | h0
        · exact hback (ih h0)
        · -- all other threads have returned, and `main` is not interrupted
          refine hback (Option.eq_none_iff_forall_ne_some.2 fun ⟨v, l⟩ hv => ?_)
          have hjn := joined_reachable H
          have hal := (victim_reachable H v l hv).1
          cases v with
          | main => simp [interrupted, hv] at hi
          | producer p =>
            have := hjn.producer p (by rw [h0]; rfl)
            simp [alive, this] at hal
          | consumer j =>
            have := hjn.consumer j (by rw [h0]; rfl)
            simp [alive, this] at hal
          | handler => cases hal
      · have h0 : s'.main = s.main := h.other hf hw
        exact hback (ih (h0 ▸ hj))
    | call => exact ih hj
    | ring _ _ _ ha =>
      have hn : s.main.judging = false := by
        generalize s.main = l at ha
        cases l <;> first | rfl | cases ha
      exact absurd (hn.symm.trans hj) (by simp)

/-- All items have been marked once, all strings freed once, and nothing else has happened. -/
structure Complete (cfg : Config P C) (s : State P C) : Prop where
  handler : s.handler = none
  marked : s.marked.Perm (List.range cfg.total)
  freed : s.freed.Perm ((List.range cfg.total).map hostname)
  dropped : s.dropped = []
  left : s.left = []

theorem Accounted.marked_perm (H : s.Accounted cfg) (h : cfg.total ≤ s.marked.length) :
    s.marked.Perm (List.range cfg.total) := by
  have hs : s.marked.Subperm (List.range cfg.total) := List.subperm_of_subset H.marked_nodup
    fun i hi => List.mem_range.2 (H.marked_lt hi)
  exact hs.perm_of_length_le (by rwa [List.length_range])

/-- When all items are marked none is anywhere else. -/
theorem Accounted.nothing_left (H : s.Accounted cfg) (h : cfg.total ≤ s.marked.length) :
    (∀ t, (itemsAccount cfg).own s t = 0) ∧ s.queue.contents = 0 := by
  have hm : (s.marked.map hostname : Multiset Bytes) = cfg.strings := by
    rw [Config.strings, ← Multiset.coe_range, Multiset.map_coe]
    exact Multiset.coe_eq_coe.2 ((H.marked_perm h).map _)
  have hp : ∑ t, (itemsAccount cfg).own s t + s.queue.contents + (s.dropped + s.left) +
      cfg.strings = 0 + cfg.strings := by
    have hg : (itemsAccount cfg).gone s = cfg.strings + s.dropped + s.left := hm ▸ rfl
    rw [zero_add]
    refine Eq.trans ?_ H.places
    rw [State.places, Account.total, hg]
    abel
  have h0 := add_eq_zero.1 (add_eq_zero.1 (add_right_cancel hp)).1
  exact ⟨fun t => Finset.sum_eq_zero_iff.1 h0.1 t (Finset.mem_univ t), h0.2⟩

theorem complete_of_judging (H : cfg.system.Reachable s) (hj : s.main.judging = true) :
    s.Complete cfg := by
  have ha := accounted_reachable H
  have hh := judging_reachable H hj
  have hm : s.main.over = false ∧ s.main.released = true ∧
      (∀ i : Fin P, s.main.joinedProducer i = true) ∧ ∀ j : Fin C, s.main.joinedConsumer j = true := by
    generalize s.main = l at hj
    cases l with
    | verify | verdict => exact ⟨rfl, rfl, fun _ => rfl, fun _ => rfl⟩
    | _ => cases hj
  have hu := undisturbed_reachable H hh hm.1
  have hjn := joined_reachable H
  have hcnt := (counted_reachable H).consumed
  have hall : cfg.total ≤ s.marked.length := (hu.counted hm.2.1).trans (by omega)
  have hq := (ha.nothing_left hall).2
  refine ⟨hh, ha.marked_perm hall, ?_, hu.dropped, hu.left⟩
  have hown (t : Tid P C) : (memoryAccount cfg).own s t = 0 := by
    cases t with
    | producer p =>
      have ho := hjn.producer p (hm.2.2.1 p)
      have hc := hu.complete p
      simp only [Account.own, memoryAccount]
      generalize s.producer p = l at ho hc
      cases l with
      | finished i => exact congrArg₂ (· + ·) (cfg.rest_eq_zero (hc i rfl)) rfl
      | _ => cases ho
    | consumer j =>
      simp only [Account.own, memoryAccount, hjn.consumer j (hm.2.2.2 j)]
      rfl
    | main | handler => rfl
  have hmem : (memoryAccount cfg).gone s = cfg.strings := by
    rw [← ha.memory, memory, Account.total, hq, Finset.sum_eq_zero fun t _ => hown t, zero_add,
      zero_add]
  simp only [memoryAccount, hu.left, Multiset.coe_nil, add_zero] at hmem
  rw [Config.strings, ← Multiset.coe_range, Multiset.map_coe] at hmem
  exact Multiset.coe_eq_coe.1 hmem

end State

/-! ## The verdict -/

/-- A message that an item was not consumed exactly once. -/
def Msg.accuses : Msg → Bool
  | .error .. | .tooMany | .failed _ => true
  | _ => false

theorem ProducerStep.prints {p : Fin P} {l l' : ProducerLoc} {e : Effect P C}
    (h : ProducerStep cfg s p l l' e) :
    (∀ m ∈ e.say, m.accuses = false ∧ m ≠ .passed) ∧ e.status ≠ some .success := by
  cases h <;> simp [Msg.accuses]

theorem ConsumerStep.prints {j : Fin C} {l l' : ConsumerLoc} {e : Effect P C}
    (h : ConsumerStep cfg s j l l' e) : e.say = [] ∧ e.status = none := by
  cases h <;> exact ⟨rfl, rfl⟩

theorem HandlerStep.prints {l l' : HandlerLoc} {e : Effect P C} (h : HandlerStep s l l' e) :
    e.say = [] ∧ e.status ≠ some .success := by
  cases h <;> simp

namespace State

/-- No item is reported, and the test passes only when all is well. -/
structure Sound (cfg : Config P C) (s : State P C) : Prop where
  verify : ∀ i n, s.main = .verify i n → n = 0
  verdict : ∀ n, s.main = .verdict n → n = 0
  prints : ∀ m ∈ s.out, m.accuses = false
  passed : .passed ∈ s.out → s.status = some .success
  success : s.status = some .success → s.Complete cfg

end State

/-- `main` finds every item marked once. -/
theorem MainStep.sound {l' : MainLoc} {e : Effect P C} (H : s.Sound cfg)
    (hc : s.main.judging = true → ∀ i < cfg.total, s.consumedItems i = 1)
    (h : MainStep cfg s s.main l' e) :
    (∀ i n, l' = .verify i n → n = 0) ∧ (∀ n, l' = .verdict n → n = 0) ∧
    (∀ m ∈ e.say, m.accuses = false) ∧ (.passed ∈ e.say → e.status = some .success) ∧
    (e.status = some .success → s.main.judging = true) := by
  have hv := H.verify
  have hd := H.verdict
  generalize s.main = l at h hv hd hc
  cases h with
  | tooMany hi hn | error hi hn => exact absurd (hc rfl _ hi) hn
  | failed hn => exact absurd (hd _ rfl) hn
  | verify | verified =>
    have := hv _ _ rfl
    simp_all [MainLoc.judging]
  | _ => simp [Msg.accuses, MainLoc.judging]

namespace State

theorem consumed_of_judging (H : cfg.system.Reachable s) (hj : s.main.judging = true) :
    ∀ i < cfg.total, s.consumedItems i = 1 := fun i hi => by
  have hm := (complete_of_judging H hj).marked.mem_iff.2 (List.mem_range.2 hi)
  rw [(counted_reachable H).marked]
  exact List.count_eq_one_of_mem (accounted_reachable H).marked_nodup hm

theorem sound_reachable (H : cfg.system.Reachable s) : s.Sound cfg := by
  induction H with
  | init h =>
    rw [h]
    exact ⟨by simp [init], by simp [init], by simp [init], by simp [init], by simp [init]⟩
  | @step s a s' H h ih =>
    have hf := (synced_reachable H).fresh
    cases step_cases h with
    | @stmt w _ _ hst _ h =>
      obtain ⟨e, hd, hp⟩ := h.effect
      -- nothing has been passed before, for the process has not ended
      have hout : .passed ∉ s.out := fun h0 => by cases hst.symm.trans (ih.passed h0)
      have hother (hw : .main ≠ w) (he : (∀ m ∈ e.say, m.accuses = false ∧ m ≠ .passed) ∧
          e.status ≠ some .success) : s'.Sound cfg := by
        have h0 : s'.main = s.main := h.other hf hw
        refine ⟨h0 ▸ ih.verify, h0 ▸ ih.verdict, fun m hm => ?_, fun hm => ?_, fun hs => ?_⟩
        · rw [hp.out] at hm
          exact (List.mem_append.1 hm).elim (ih.prints m) fun hm => (he.1 m hm).1
        · rw [hp.out] at hm
          exact (List.mem_append.1 hm).elim (absurd · hout) fun hm => absurd rfl (he.1 _ hm).2
        · exact absurd (hp.status.symm.trans hs) he.2
      cases w with
      | main =>
        obtain ⟨h1, h2, h3, h4, h5⟩ := MainStep.sound ih (consumed_of_judging H) hd
        refine ⟨h1, h2, fun m hm => ?_, fun hm => ?_, fun hs => ?_⟩
        · rw [hp.out] at hm
          exact (List.mem_append.1 hm).elim (ih.prints m) (h3 m)
        · rw [hp.out] at hm
          rw [hp.status]
          exact (List.mem_append.1 hm).elim (absurd · hout) h4
        · have hc := complete_of_judging H (h5 (hp.status.symm.trans hs))
          obtain ⟨-, e1, e2, e3, e4⟩ := MainStep.strings hd
          refine ⟨?_, ?_, ?_, ?_, ?_⟩
          · have h0 : s'.handler = s.handler := h.other (u := .handler) hf (by simp)
            exact h0.trans hc.handler
          · rw [hp.marked, e1]
            simpa using hc.marked
          · rw [hp.freed, e2, List.append_nil]
            exact hc.freed
          · rw [hp.dropped, e3, hc.dropped, List.append_nil]
          · rw [hp.left, e4, hc.left, List.append_nil]
      | producer p => exact hother (by simp) (ProducerStep.prints hd)
      | consumer j =>
        obtain ⟨h1, h2⟩ := ConsumerStep.prints hd
        exact hother (by simp) (by simp [h1, h2])
      | handler =>
        obtain ⟨_, _, _, _, _, hd⟩ := hd
        exact hother (by simp) (by simp [hd.prints])
    | call =>
      exact ⟨ih.verify, ih.verdict, ih.prints, ih.passed, fun hs =>
        ⟨(ih.success hs).handler, (ih.success hs).marked, (ih.success hs).freed,
          (ih.success hs).dropped, (ih.success hs).left⟩⟩
    | ring hst =>
      refine ⟨ih.verify, ih.verdict, fun m hm => ?_, fun hm => ?_, fun hs => ?_⟩
      · rcases List.mem_append.1 hm with hm | hm
        · exact ih.prints m hm
        · rw [List.mem_singleton.1 hm]
          rfl
      · rcases List.mem_append.1 hm with hm | hm
        · cases hst.symm.trans (ih.passed hm)
        · cases List.mem_singleton.1 hm
      · cases hst.symm.trans hs

/-- **The test can only pass, fail to start or time out**: in no run of it, whatever the
interleaving and the alarm, is an item reported as not consumed exactly once; and where the test
passes, the alarm has not gone off, every item has been marked exactly once, every string has been
freed exactly once, and none was dropped or left behind. -/
theorem verdict_sound (H : cfg.system.Reachable s) :
    (∀ m ∈ s.out, m.accuses = false) ∧
    (.passed ∈ s.out ∨ s.status = some .success →
      s.handler = none ∧ s.marked.Perm (List.range cfg.total) ∧
      s.freed.Perm ((List.range cfg.total).map hostname) ∧ s.dropped = [] ∧ s.left = []) := by
  have hs := sound_reachable H
  refine ⟨hs.prints, fun h => ?_⟩
  have hc := hs.success (h.elim hs.passed id)
  exact ⟨hc.handler, hc.marked, hc.freed, hc.dropped, hc.left⟩

theorem verdict_sound_sample : ∃ s, sample.system.Reachable s ∧ s.out = [.passed] ∧
    s.marked.Perm [0, 1] ∧ s.freed.Perm [hostname 0, hostname 1] := by
  have h : ∃ s ∈ schedule sample (sampleRun 0 1 0), s.out = [.passed] := by decide +kernel
  obtain ⟨s, hs, h⟩ := h
  have H := schedule_reachable hs
  obtain ⟨-, h1, h2, -⟩ := (verdict_sound H).2 (.inl (by simp [h]))
  exact ⟨s, H, h, h1, h2⟩

end State
end DnsResolver.Stress
