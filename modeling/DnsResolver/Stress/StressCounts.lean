import DnsResolver.Stress.StressItems

/-!
# The counters of the stress test

`count_mutex` is held by the one thread that is between its lock and its unlock (`mutex_reachable`).
Under it a consumer marks its item and counts it, so `consumed_items` says which items have been
marked, `items_consumed` how many, and no mark falls outside the table or on a marked item
(`counts_exact`). `items_produced` is what the producers have had accepted (`Counted`). -/

namespace DnsResolver.Stress
open Function Tally

variable {P C : Nat} {cfg : Config P C} {s s' : State P C} {t u : Tid P C} {c : Choice}

/-! ## The mutex -/

def ProducerLoc.locked : ProducerLoc → Bool
  | .count _ | .unlockCount _ => true
  | _ => false

def ConsumerLoc.locked : ConsumerLoc → Bool
  | .mark .. | .count _ | .test _ | .unlockCount _ | .unlockLast _ => true
  | _ => false

/-- The thread is between its lock of `count_mutex` and its unlock. -/
def State.locked (s : State P C) : Tid P C → Bool
  | .producer i => (s.producer i).locked
  | .consumer j => (s.consumer j).locked
  | .main | .handler => false

/-- What a statement of `t` does to a mutex whose holder is `m`. -/
inductive LockStep {T : Type} (m : Option T) (t : T) : Bool → Bool → Option (Option T) → Prop
  | keep : LockStep m t b b none
  | lock : m = none → LockStep m t false true (some (some t))
  | unlock : LockStep m t true false (some none)

theorem ProducerStep.lock {p : Fin P} {l l' : ProducerLoc} {e : Effect P C}
    (h : ProducerStep cfg s p l l' e) :
    LockStep s.countMutex (.producer p) l.locked l'.locked e.mutex := by
  cases h with
  | lockCount h => exact .lock h
  | unlockCount => exact .unlock
  | _ => exact .keep

theorem ConsumerStep.lock {j : Fin C} {l l' : ConsumerLoc} {e : Effect P C}
    (h : ConsumerStep cfg s j l l' e) :
    LockStep s.countMutex (.consumer j) l.locked l'.locked e.mutex := by
  cases h with
  | lockCount h => exact .lock h
  | unlockCount | unlockLast => exact .unlock
  | _ => exact .keep

theorem MainStep.mutex {l l' : MainLoc} {e : Effect P C} (h : MainStep cfg s l l' e) :
    e.mutex = none := by
  cases h <;> rfl

theorem HandlerStep.mutex {l l' : HandlerLoc} {e : Effect P C} (h : HandlerStep s l l' e) :
    e.mutex = none := by
  cases h <;> rfl

theorem Stmt.lock (h : Stmt cfg s t s') : ∃ m, LockStep s.countMutex t (s.locked t) (s'.locked t) m ∧
    s'.countMutex = m.getD s.countMutex := by
  obtain ⟨e, hd, hp⟩ := h.effect
  refine ⟨e.mutex, ?_, hp.countMutex⟩
  cases t with
  | main =>
    rw [MainStep.mutex hd]
    exact .keep
  | producer i => exact ProducerStep.lock hd
  | consumer j => exact ConsumerStep.lock hd
  | handler =>
    obtain ⟨_, _, _, _, _, hd⟩ := hd
    rw [hd.mutex]
    exact .keep

theorem Stmt.locked_of_ne (H : s.Fresh) (h : Stmt cfg s t s') (hu : u ≠ t) :
    s'.locked u = s.locked u := by
  have ho := h.other H hu
  cases u with
  | producer i =>
    rcases ho with ho | ⟨h1, h2⟩
    · exact congrArg ProducerLoc.locked ho
    · simp only [State.locked, h1, h2]
      rfl
  | consumer j =>
    rcases ho with ho | ⟨h1, h2⟩
    · exact congrArg ConsumerLoc.locked ho
    · simp only [State.locked, h1, h2]
      rfl
  | main | handler => rfl

namespace State

/-- The holder of `count_mutex` is the thread between lock and unlock. -/
theorem mutex_reachable (H : cfg.system.Reachable s) (t : Tid P C) :
    s.locked t = true ↔ s.countMutex = some t := by
  induction H generalizing t with
  | init h =>
    rw [h]
    cases t <;> simp [State.locked, init, ProducerLoc.locked, ConsumerLoc.locked]
  | @step s a s' H h ih =>
    have hf := (synced_reachable H).fresh
    cases step_cases h with
    | @stmt w _ _ _ _ h =>
      obtain ⟨m, hl, hm⟩ := h.lock
      by_cases hw : t = w
      · subst hw
        rw [hm]
        have ht := ih t
        generalize s.locked t = b at hl ht
        generalize s'.locked t = b' at hl ⊢
        cases hl with
        | keep => exact ht
        | lock | unlock => simp
      · rw [h.locked_of_ne hf hw, ih t, hm]
        have hw' := ih w
        generalize s.locked w = b at hl hw'
        generalize s'.locked w = b' at hl
        cases hl with
        | keep => rfl
        | lock hn => simp [hn, Ne.symm hw]
        | unlock => simp [hw'.1 rfl, Ne.symm hw]
    | @call w mv m =>
      have hl : (s.setQueue m).locked t = s.locked t := by cases t <;> rfl
      exact hl ▸ ih t
    | @ring v =>
      have hl : (s.ring v).locked t = s.locked t := by cases t <;> rfl
      exact hl ▸ ih t

theorem locked_unique (H : cfg.system.Reachable s) (ht : s.locked t = true)
    (hu : s.locked u = true) : t = u :=
  Option.some_inj.1 (((mutex_reachable H t).1 ht).symm.trans ((mutex_reachable H u).1 hu))

end State

/-! ## The counters -/

/-- The item of the producer is accepted or offered, and not yet counted. -/
def ProducerLoc.uncounted : ProducerLoc → Bool
  | .put .. | .lockCount _ | .count _ => true
  | _ => false

/-- The item of the consumer is marked and not yet counted. -/
def ConsumerLoc.uncounted : ConsumerLoc → Bool
  | .count _ => true
  | _ => false

theorem ProducerStep.counts {p : Fin P} {l l' : ProducerLoc} {e : Effect P C}
    (h : ProducerStep cfg s p l l' e) :
    (l'.toMake cfg p).card + l'.uncounted.toNat + e.produced + e.drop.length =
      (l.toMake cfg p).card + l.uncounted.toNat ∧ e.consumed = 0 ∧ e.mark = none := by
  cases h with
  | next hi =>
    rw [ProducerLoc.toMake, ProducerLoc.toMake, cfg.rest_cons hi]
    exact ⟨rfl, rfl, rfl⟩
  | alloc =>
    refine ⟨?_, rfl, rfl⟩
    simp only [ProducerLoc.toMake, ProducerLoc.uncounted, Multiset.card_add,
      Multiset.card_singleton, Bool.toNat_true, Bool.toNat_false, List.length_nil]
    omega
  | _ => exact ⟨rfl, rfl, rfl⟩

theorem ConsumerStep.counts {j : Fin C} {l l' : ConsumerLoc} {e : Effect P C}
    (h : ConsumerStep cfg s j l l' e) :
    e.consumed + l'.uncounted.toNat = e.mark.toList.length + l.uncounted.toNat ∧
    e.produced = 0 ∧ (e.drop = [] ∨ ∃ x, l = .parse x ∧ scanHostname x = none) ∧
    (∀ i, e.mark = some i → ∃ x item, l = .mark x item ∧ i = item.toNat) := by
  cases h with
  | parse_fail hx => exact ⟨rfl, rfl, .inr ⟨_, rfl, hx⟩, by simp⟩
  | mark => exact ⟨rfl, rfl, .inl rfl, by simp⟩
  | _ => exact ⟨rfl, rfl, .inl rfl, by simp⟩

theorem MainStep.counts {l l' : MainLoc} {e : Effect P C} (h : MainStep cfg s l l' e) :
    e.produced = 0 ∧ e.consumed = 0 ∧ e.drop = [] ∧ e.mark = none := by
  cases h <;> exact ⟨rfl, rfl, rfl, rfl⟩

theorem HandlerStep.counts {l l' : HandlerLoc} {e : Effect P C} (h : HandlerStep s l l' e) :
    e.produced = 0 ∧ e.consumed = 0 ∧ e.drop = [] ∧ e.mark = none := by
  cases h <;> exact ⟨rfl, rfl, rfl, rfl⟩

namespace State

/-- What the counters count. -/
structure Counted (cfg : Config P C) (s : State P C) : Prop where
  produced : s.itemsProduced + s.dropped.length + ∑ p, (((s.producer p).toMake cfg p).card +
    (s.producer p).uncounted.toNat) = cfg.total
  consumed : s.itemsConsumed + tally ConsumerLoc.uncounted s.consumer = s.marked.length
  marked : ∀ i, s.consumedItems i = s.marked.count i

theorem Accounted.marked_nodup (H : s.Accounted cfg) : s.marked.Nodup := by
  have hg : (s.marked.map hostname : Multiset Bytes) ≤ (itemsAccount cfg).gone s :=
    (Multiset.le_add_right _ _).trans (Multiset.le_add_right _ _)
  have hp : (s.marked.map hostname : Multiset Bytes) ≤ cfg.strings :=
    H.places ▸ hg.trans (Multiset.le_add_left _ _)
  exact List.Nodup.of_map _ (Multiset.coe_nodup.1 (Multiset.nodup_of_le hp cfg.strings_nodup))

theorem Accounted.marked_lt (H : s.Accounted cfg) {i : Nat} (h : i ∈ s.marked) : i < cfg.total := by
  have hx : hostname i ∈ s.places cfg := Multiset.mem_add.2 (.inr (Multiset.mem_add.2
    (.inl (Multiset.mem_add.2 (.inl (List.mem_map_of_mem h))))))
  obtain ⟨k, hk, he⟩ := cfg.mem_strings (H.places ▸ hx)
  exact hostname_injective he ▸ hk

theorem Accounted.parse (H : s.Accounted cfg) {j : Fin C} {x : Bytes}
    (h : s.consumer j = .parse x) : scanHostname x ≠ none := by
  have hx : x ∈ (itemsAccount cfg).own s (.consumer j) := by
    simp [Account.own, itemsAccount, h, ConsumerLoc.hand]
  obtain ⟨i, -, rfl⟩ := H.own_mem hx
  simp [scanHostname_hostname]

/-- The items of a producer that are not yet counted. -/
def toCount (cfg : Config P C) (s : State P C) (p : Fin P) : Nat :=
  ((s.producer p).toMake cfg p).card + (s.producer p).uncounted.toNat

end State

open State

/-- What a statement adds to the counters. -/
theorem Stmt.counts (H : s.Synced) (ha : s.Accounted cfg) (h : Stmt cfg s t s') :
    ∃ e : Effect P C, Performs s s' e ∧
      ∑ p, s'.toCount cfg p + e.produced + e.drop.length = ∑ p, s.toCount cfg p ∧
      e.consumed + tally ConsumerLoc.uncounted s'.consumer =
        e.mark.toList.length + tally ConsumerLoc.uncounted s.consumer := by
  obtain ⟨e, hd, hp⟩ := h.effect
  refine ⟨e, hp, ?_⟩
  have hother (p : Fin P) (hpt : .producer p ≠ t) : s'.toCount cfg p = s.toCount cfg p := by
    rcases h.other H.fresh hpt with h0 | ⟨h0, h0'⟩
    · rw [toCount, toCount, h0]
    · rw [toCount, toCount, h0, h0']
      rfl
  have hother' (j : Fin C) (hjt : .consumer j ≠ t) :
      (s'.consumer j).uncounted = (s.consumer j).uncounted := by
    rcases h.other H.fresh hjt with h0 | ⟨h0, h0'⟩
    · rw [h0]
    · rw [h0, h0']
      rfl
  have hsum (ht : ∀ p, t ≠ .producer p) : ∑ p, s'.toCount cfg p = ∑ p, s.toCount cfg p :=
    Finset.sum_congr rfl fun p _ => hother p (ht p).symm
  have htally (ht : ∀ j, t ≠ .consumer j) : tally ConsumerLoc.uncounted s'.consumer =
      tally ConsumerLoc.uncounted s.consumer := tally_congr fun j => hother' j (ht j).symm
  cases t with
  | main =>
    obtain ⟨h1, h2, h3, h4⟩ := MainStep.counts hd
    rw [hsum (by simp), htally (by simp), h1, h2, h3, h4]
    exact ⟨rfl, rfl⟩
  | producer i =>
    obtain ⟨h1, h2, h3⟩ := ProducerStep.counts hd
    rw [htally (by simp), h2, h3]
    have hs := sum_of_ne (t := i) (f := s.toCount cfg) (g := s'.toCount cfg) fun k hk =>
      hother k (by simpa using hk)
    simp only [toCount] at hs ⊢
    exact ⟨by omega, rfl⟩
  | consumer j =>
    obtain ⟨h1, h2, h3, h4⟩ := ConsumerStep.counts hd
    have hd : e.drop = [] := h3.resolve_right fun ⟨x, hx, h0⟩ => ha.parse hx h0
    rw [hsum (by simp), h2, hd]
    have hs := sum_of_ne (t := j) (f := fun j => (s.consumer j).uncounted.toNat)
      (g := fun j => (s'.consumer j).uncounted.toNat) fun k hk => by
        rw [hother' k (by simpa using hk)]
    simp only [tally]
    exact ⟨rfl, by omega⟩
  | handler =>
    obtain ⟨_, _, _, _, _, hd⟩ := hd
    obtain ⟨h1, h2, h3, h4⟩ := hd.counts
    rw [hsum (by simp), htally (by simp), h1, h2, h3, h4]
    exact ⟨rfl, rfl⟩

namespace State

theorem Counted.stmt (H : s.Counted cfg) (hs : s.Synced) (ha : s.Accounted cfg)
    (ha' : s'.Accounted cfg) (h : Stmt cfg s t s') : s'.Counted cfg := by
  obtain ⟨e, he, h1, h2⟩ := h.counts hs ha
  have hp := H.produced
  have hc := H.consumed
  refine ⟨?_, ?_, fun i => ?_⟩
  · change _ + _ + ∑ p, s.toCount cfg p = _ at hp
    change _ + _ + ∑ p, s'.toCount cfg p = _
    rw [he.itemsProduced, he.dropped, List.length_append]
    omega
  · rw [he.itemsConsumed, he.marked, List.length_append]
    omega
  · -- an item is marked for the first time
    have hn := List.nodup_iff_count_le_one.1 ha'.marked_nodup i
    have hm := H.marked i
    rw [he.marked, List.count_append] at hn
    rw [he.marked, he.consumedItems, List.count_append]
    cases hk : e.mark with
    | none => simpa [setConsumed] using hm
    | some k =>
      rw [hk] at hn
      by_cases hi : i = k
      · subst hi
        simp only [Option.toList_some, List.count_singleton_self] at hn ⊢
        rw [setConsumed, update_self]
        omega
      · simp [setConsumed, hm, hi, Ne.symm hi]

theorem counted_reachable (H : cfg.system.Reachable s) : s.Counted cfg := by
  induction H with
  | init h =>
    rw [h]
    refine ⟨?_, ?_, fun i => rfl⟩
    · have hs := congrArg Multiset.card cfg.sum_rest
      rw [Config.strings, Multiset.card_map, Multiset.card_range, Multiset.card_sum] at hs
      simpa [init, ProducerLoc.toMake, ProducerLoc.uncounted] using hs
    · simp [init, tally, ConsumerLoc.uncounted]
  | @step s a s' H h ih =>
    have ha' := accounted_reachable (H.step h)
    cases step_cases h with
    | stmt _ _ h => exact ih.stmt (synced_reachable H) (accounted_reachable H) ha' h
    | call | ring => exact ⟨ih.produced, ih.consumed, ih.marked⟩

/-- The item that a consumer is about to mark has not been marked. -/
theorem Accounted.not_marked (H : s.Accounted cfg) {j : Fin C} {x : Bytes} {i : Nat}
    (h : s.consumer j = .mark x i) : i ∉ s.marked := by
  intro hi
  have hx : x = hostname i := (H.marks j x i h).symm
  have hown : x ∈ ∑ u, (itemsAccount cfg).own s u :=
    Multiset.mem_sum.2 ⟨.consumer j, Finset.mem_univ _,
      by simp [Account.own, itemsAccount, h, ConsumerLoc.hand]⟩
  have hgone : x ∈ (itemsAccount cfg).gone s := by
    rw [hx]
    exact Multiset.mem_add.2 (.inl (Multiset.mem_add.2 (.inl (List.mem_map_of_mem hi))))
  have hn : (s.places cfg).Nodup := H.places ▸ cfg.strings_nodup
  exact Multiset.disjoint_left.1 (Multiset.nodup_add.1 hn).2.2 (Multiset.mem_add.2 (.inl hown)) hgone

theorem Accounted.alloc (H : s.Accounted cfg) {p : Fin P} {i : Nat} (h : s.producer p = .alloc i) :
    i < cfg.total := by
  have hx : hostname i ∈ (itemsAccount cfg).own s (.producer p) := by
    simp [Account.own, itemsAccount, h, ProducerLoc.toMake]
  obtain ⟨k, hk, he⟩ := H.own_mem hx
  exact hostname_injective he ▸ hk

/-- **The counts are exact and stay in bounds**: only one thread at a time is in a section of
`count_mutex`; `sprintf` fits into its buffer, `sscanf` reads the item's number back, and the mark goes
into the table, on an item not marked before; the table says which items have been marked, and the
counters, which do not overflow, how many. -/
theorem counts_exact (H : cfg.system.Reachable s) :
    (∀ t u, s.locked t = true → s.locked u = true → t = u) ∧
    (∀ p i, s.producer p = .alloc i → i < cfg.total ∧ (hostname i).length + 1 ≤ maxNameLength) ∧
    (∀ j x, s.consumer j = .parse x → ∃ i < cfg.total, scanHostname x = some (i : Int)) ∧
    (∀ j x item, s.consumer j = .mark x item →
      ∃ i < cfg.total, item = i ∧ s.consumedItems i = 0) ∧
    (∀ i, s.consumedItems i = if i ∈ s.marked then 1 else 0) ∧
    s.itemsConsumed + tally ConsumerLoc.uncounted s.consumer =
      ∑ i ∈ Finset.range cfg.total, s.consumedItems i ∧
    s.itemsProduced ≤ cfg.total ∧ s.itemsConsumed ≤ cfg.total ∧ cfg.total < 2 ^ 31 := by
  have ha := accounted_reachable H
  have hc := counted_reachable H
  have hm (i : Nat) : s.consumedItems i = if i ∈ s.marked then 1 else 0 := by
    rw [hc.marked]
    split
    · exact List.count_eq_one_of_mem ha.marked_nodup (by assumption)
    · exact List.count_eq_zero.2 (by assumption)
  have hsum : ∑ i ∈ Finset.range cfg.total, s.consumedItems i = s.marked.length := by
    simp only [hm]
    rw [Finset.sum_boole, Nat.cast_id, ← List.toFinset_card_of_nodup ha.marked_nodup]
    congr 1
    ext i
    simpa using fun hi => ha.marked_lt hi
  have hle : s.marked.length ≤ cfg.total := by
    rw [← hsum]
    refine (Finset.sum_le_card_nsmul _ _ 1 fun i _ => ?_).trans_eq (by simp)
    rw [hm]
    split <;> omega
  have hp := hc.produced
  have hq := hc.consumed
  refine ⟨fun t u => locked_unique H, fun p i h => ?_, fun j x h => ?_, fun j x item h => ?_, hm,
    hq.trans hsum.symm, by omega, by omega, cfg.total_lt⟩
  · exact ⟨ha.alloc h, hostname_length ((ha.alloc h).trans cfg.total_lt)⟩
  · have hx : x ∈ (itemsAccount cfg).own s (.consumer j) := by
      simp [Account.own, itemsAccount, h, ConsumerLoc.hand]
    obtain ⟨i, hi, rfl⟩ := ha.own_mem hx
    exact ⟨i, hi, scanHostname_hostname i⟩
  · obtain ⟨i, hi, rfl, rfl⟩ := ha.item (.inr h)
    exact ⟨i, hi, rfl, (hm i).trans (if_neg (ha.not_marked h))⟩

/-- The consumer has marked the first item and is about to mark the second. -/
theorem counts_exact_sample : ∃ s, sample.system.Reachable s ∧ s.marked = [0] ∧
    s.consumer 0 = .mark (hostname 1) 1 ∧ s.consumedItems 0 = 1 ∧ s.consumedItems 1 = 0 := by
  have h : ∃ s ∈ schedule sample ((sampleRun 0 1 0).take 7 ++ [(.consumer 0, 22)]),
      s.marked = [0] ∧ s.consumer 0 = .mark (hostname 1) 1 := by decide +kernel
  obtain ⟨s, hs, h1, h2⟩ := h
  have H := schedule_reachable hs
  have hc := (counts_exact H).2.2.2.2.1
  exact ⟨s, H, h1, h2, (hc 0).trans (by simp [h1]), (hc 1).trans (by simp [h1])⟩

end State
end DnsResolver.Stress
