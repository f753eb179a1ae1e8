import DnsResolver.Threaded.ThreadedLines
import DnsResolver.Threaded.ThreadedOwnership
import Mathlib.Algebra.Order.BigOperators.Group.Finset

/-!
# The program runs in bounded memory

A thread holds at most three strings, among them the line buffer of a requester and the copy of the
address that a resolver makes (`State.buffers`), and a queue fewer than `ARRAY_SIZE`. So the strings
that are allocated and not yet freed are bounded by the numbers of threads, whatever is in the data
files. For the same reason a log lags behind the reading of the files by a bounded number of
lines. -/

namespace DnsResolver
open Function

variable {R S : Nat} {cfg : Config R S} {s : State R S} {t : Tid R S}

/-- The buffer `line` of a requester: `getline` allocates it, and it is freed with the file. -/
def RequesterLoc.buffers : RequesterLoc → Nat
  | .readLine _ | .dupLog .. | .putLog .. | .logRefused .. | .dupHost .. | .putHost ..
  | .hostRefused .. | .closeFile _ => 1
  | _ => 0

/-- While `resolve_then_log` makes the record of an answer, `ip_string` is there from the statement
before, and the record is allocated before it is freed. -/
def ResolverLoc.buffers : ResolverLoc → Nat
  | .format _ (some _) => 2
  | _ => 0

/-- The strings that a thread has while it makes its next statement and that go into no queue, or
not yet. -/
def State.buffers (s : State R S) : Tid R S → Nat
  | .requester i => (s.requester i).loc.buffers
  | .resolver j => (s.resolver j).loc.buffers
  | _ => 0

/-- How many strings a thread can have. -/
def Tid.room : Tid R S → Nat
  | .requester _ | .resolver _ => 3
  | .main | .logger _ => 1
  | .outsider _ => 0

/-- The threads by kind, in sums. -/
theorem Tid.sum_eq {M : Type} [AddCommMonoid M] (f : Tid R S → M) :
    ∑ t, f t = f .main + (∑ i, f (.requester i) + (∑ j, f (.resolver j) +
      (∑ k, f (.logger k) + ∑ q, f (.outsider q)))) := by
  rw [← (Tid.equiv R S).sum_comp, Fintype.sum_sum_type, Fintype.sum_sum_type,
    Fintype.sum_sum_type, Fintype.sum_sum_type, Fintype.sum_unique]
  rfl

theorem Tid.sum_room : ∑ t : Tid R S, t.room = 3 * R + 3 * S + 3 := by
  have hk : Fintype.card Logger = 2 := rfl
  rw [Tid.sum_eq]
  simp only [Tid.room, Finset.sum_const, Finset.card_univ, Fintype.card_fin, hk, Nat.nsmul_eq_mul]
  omega

/-! ## Strings -/

theorem Call.carries_card {α : Type} (c : Call α) : c.carries.card ≤ 1 := by
  rw [Call.carries, Multiset.coe_card]
  cases c.holds <;> simp

theorem RequesterLoc.owns_length (l : RequesterLoc) :
    l.owns.length + (if l.op.isSome then 1 else 0) + l.buffers ≤ 3 := by
  cases l <;> simp [RequesterLoc.owns, RequesterLoc.op, RequesterLoc.buffers]

theorem ResolverLoc.owns_length (l : ResolverLoc) :
    l.owns.length + (if l.op.isSome then 1 else 0) + l.buffers ≤ 3 := by
  cases l with
  | format h ip => cases ip <;> simp [ResolverLoc.owns, ResolverLoc.op, ResolverLoc.buffers]
  | _ => simp [ResolverLoc.owns, ResolverLoc.op, ResolverLoc.buffers]

theorem LoggerLoc.owns_length (k : Logger) (l : LoggerLoc) :
    l.owns.length + (if (l.op k).isSome then 1 else 0) ≤ 1 := by
  cases l <;> simp [LoggerLoc.owns, LoggerLoc.op]

theorem MainLoc.owns_length (l : MainLoc) :
    l.owns.length + (if l.op.isSome then 1 else 0) ≤ 1 := by
  cases l <;> simp [MainLoc.owns, MainLoc.op]

namespace State

theorem returned_card (s : State R S) (t : Tid R S) (o : Option (QName × Op Str)) :
    (s.returned t o).card ≤ if o.isSome then 1 else 0 := by
  cases o with
  | none => exact le_refl 0
  | some p => exact Call.carries_card _

/-- A thread has room for what it holds. -/
theorem Synced.held_card (H : s.Synced) (t : Tid R S) :
    (s.held t).card + s.buffers t ≤ t.room := by
  have hr := s.returned_card t (s.op t)
  rw [held, Multiset.card_add, Multiset.coe_card, H.carried_eq]
  cases t with
  | main => exact (Nat.add_le_add_left hr _).trans s.main.owns_length
  | requester i =>
    refine (Nat.add_le_add_right (Nat.add_le_add_left hr _) _).trans ?_
    exact (s.requester i).loc.owns_length
  | resolver j =>
    refine (Nat.add_le_add_right (Nat.add_le_add_left hr _) _).trans ?_
    exact (s.resolver j).loc.owns_length
  | logger k => exact (Nat.add_le_add_left hr _).trans ((s.logger k).owns_length k)
  | outsider q =>
    have h0 : s.carried (.outsider q) = 0 := by
      apply H.carried_zero
      intro q' p hp
      simp only [State.op] at hp
      split at hp
      · exact (Prod.ext_iff.1 (Option.some.inj hp)).2.symm
      · cases hp
    rw [← H.carried_eq, h0]
    exact le_refl 0

theorem items_card (H : cfg.system.Reachable s) (q : QName) :
    (s.queue q).items.length ≤ cfg.arraySize - 1 := by
  have := (queue_inv H q).ring.length_lt
  omega

theorem total_card (H : cfg.system.Reachable s) :
    s.total.card + ∑ t, s.buffers t ≤ 4 * (cfg.arraySize - 1) + 3 * R + 3 * S + 3 := by
  have hh : ∑ t, (s.held t).card + ∑ t, s.buffers t ≤ 3 * R + 3 * S + 3 := by
    rw [← Tid.sum_room, ← Finset.sum_add_distrib]
    exact Finset.sum_le_sum fun t _ => (synced_reachable H).held_card t
  have hq : ∑ q, (s.queue q).items.length ≤ 4 * (cfg.arraySize - 1) :=
    Finset.sum_le_card_nsmul _ _ _ fun q _ => items_card H q
  have hc : s.total.card = ∑ t, (s.held t).card + ∑ q, (s.queue q).items.length := by
    rw [total, Multiset.card_add, Multiset.card_sum, Multiset.card_sum]
    rfl
  omega

/-- What has been allocated is held, in a queue, or freed. -/
theorem nextAddr_eq (H : cfg.system.Reachable s) :
    s.nextAddr = s.total.card + s.freed.length := by
  have hc := congrArg Multiset.card (conserves_reachable H)
  rw [Multiset.card_add, Multiset.card_map, Multiset.coe_card, List.length_map,
    Multiset.card_range] at hc
  exact hc.symm

end State

/-! ## Lines -/

/-- By how many lines a log can be behind. -/
def Logger.lag (k : Logger) (N R S : Nat) : Nat :=
  match k with
  | .requesterLog => N - 1 + R + 1
  | .resolverLog => 2 * (N - 1) + R + S + 1

theorem Src.lines_length (src : Src) : src.lines.length ≤ 1 := by
  cases src <;> simp [Src.lines]

theorem RequesterLoc.holds_length (p : Logger) (l : RequesterLoc) :
    (l.holds p).length + (if l.op.any (fun o => p.path o.1) then 1 else 0) ≤ 1 := by
  cases p <;> cases l <;> simp [RequesterLoc.holds, RequesterLoc.op, Logger.path]

theorem ResolverLoc.holds_length (p : Logger) (l : ResolverLoc) :
    (l.holds p).length + (if l.op.any (fun o => p.path o.1) then 1 else 0) ≤
      if p = .resolverLog then 1 else 0 := by
  cases p with
  | requesterLog => cases l <;> simp [ResolverLoc.holds, ResolverLoc.op, Logger.path]
  | resolverLog =>
    cases l with
    | resolve h => exact Nat.add_le_add_right h.src.lines_length 0
    | format h ip => exact Nat.add_le_add_right h.src.lines_length 0
    | _ => simp [ResolverLoc.holds, ResolverLoc.op, Logger.path]

theorem LoggerLoc.holds_length (p k : Logger) (l : LoggerLoc) :
    (if k = p then l.holds else []).length + (if (l.op k).any (fun o => p.path o.1) then 1 else 0) ≤
      if k = p then 1 else 0 := by
  cases l with
  | write x =>
    split
    · exact Nat.add_le_add_right x.src.lines_length 0
    · exact le_refl 0
  | get => cases p <;> cases k <;> simp [LoggerLoc.holds, LoggerLoc.op, Logger.path, Logger.queue]
  | _ => cases p <;> cases k <;> simp [LoggerLoc.holds, LoggerLoc.op]

namespace State

theorem onPath_card (p : Logger) (q : QName) (xs : List Str) :
    (onPath p q xs).card ≤ if p.path q then xs.length else 0 := by
  unfold onPath
  split
  · rw [linesOf_coe, Multiset.coe_card]
    exact linesIn_length_le xs
  · exact le_refl 0

theorem handedBack_length (s : State R S) (p : Logger) (t : Tid R S)
    (o : Option (QName × Op Str)) :
    (s.handedBack p t o).length ≤ if o.any (fun o => p.path o.1) then 1 else 0 := by
  cases o with
  | none => exact le_refl 0
  | some o =>
    obtain ⟨q, a⟩ := o
    rw [handedBack, Option.any_some]
    split
    · refine (linesIn_length_le _).trans ?_
      cases ((s.queue q).call t).holds <;> simp
    · exact le_refl 0

/-- How many lines a thread can hold on the way to a log. -/
def lineRoom (p : Logger) : Tid R S → Nat
  | .requester _ => 1
  | .resolver _ => if p = .resolverLog then 1 else 0
  | .logger k => if k = p then 1 else 0
  | _ => 0

theorem thread_card (H : cfg.system.Reachable s) (p : Logger) (t : Tid R S) :
    (s.linesAt p (.thread t)).card ≤ lineRoom p t := by
  have hb := s.handedBack_length p t (s.op t)
  have hc : (s.linesAt p (.thread t)).card = (s.inHand p t).length + (s.inCall p t).length := by
    rw [linesAt, Multiset.coe_card, List.length_append]
  have hon (h : Place.on p (.thread t) = false) : (s.linesAt p (.thread t)).card = 0 := by
    rw [Multiset.card_eq_zero, Multiset.eq_zero_iff_forall_notMem]
    intro l hl
    rw [linesAt_on H hl] at h
    cases h
  cases t with
  | main => exact (hon rfl).le
  | outsider q => exact (hon rfl).le
  | requester i =>
    rw [hc]
    exact (Nat.add_le_add_left hb _).trans ((s.requester i).loc.holds_length p)
  | resolver j =>
    rw [hc]
    exact (Nat.add_le_add_left hb _).trans ((s.resolver j).loc.holds_length p)
  | logger k =>
    rw [hc]
    exact (Nat.add_le_add_left hb _).trans ((s.logger k).holds_length p k)

/-- The lines between the data files and a log. -/
theorem transit_card (H : cfg.system.Reachable s) (p : Logger) :
    ∑ t, (s.linesAt p (.thread t)).card + ∑ q, (s.linesAt p (.queue q)).card ≤
      p.lag cfg.arraySize R S := by
  have ht : ∑ t, (s.linesAt p (.thread t)).card ≤ ∑ t, lineRoom p t :=
    Finset.sum_le_sum fun t _ => thread_card H p t
  have hq : ∑ q, (s.linesAt p (.queue q)).card ≤
      ∑ q, if p.path q then cfg.arraySize - 1 else 0 := by
    apply Finset.sum_le_sum
    intro q _
    refine (onPath_card p q _).trans ?_
    split
    · exact items_card H q
    · exact le_refl 0
  have hroom : ∑ t : Tid R S, lineRoom p t = R + (if p = .resolverLog then S else 0) + 1 := by
    rw [Tid.sum_eq]
    cases p <;> simp [lineRoom, add_assoc]
  have hpath : ∑ q, (if Logger.path p q then cfg.arraySize - 1 else 0) =
      (if p = .resolverLog then 2 else 1) * (cfg.arraySize - 1) := by
    rw [← Finset.sum_filter, Finset.sum_const, Nat.nsmul_eq_mul]
    cases p <;> rfl
  rw [hroom] at ht
  rw [hpath] at hq
  cases p with
  | requesterLog =>
    simp only [reduceCtorEq, if_false] at ht hq
    rw [Logger.lag]
    omega
  | resolverLog =>
    simp only [if_true] at ht hq
    rw [Logger.lag]
    omega

/-- The strings that are allocated and not freed, with the buffers of the threads, are bounded by
the numbers of threads; a log lags behind the lines that have been read by a bounded number. -/
theorem bounded_memory (H : cfg.system.Reachable s) :
    s.nextAddr + ∑ t, s.buffers t ≤
      s.freed.length + (4 * (cfg.arraySize - 1) + 3 * R + 3 * S + 3) ∧
    ∀ p : Logger, (s.openedLines cfg).card ≤
      ∑ i, ((s.requester i).loc.unread i).length + (s.logfile p).length + (s.dropped p).length +
        p.lag cfg.arraySize R S := by
  have hn := nextAddr_eq H
  have ht := total_card H
  refine ⟨by omega, ?_⟩
  intro p
  have hl := congrArg Multiset.card (linesAt_eq H p)
  have htr := transit_card H p
  have hw := linesIn_length_le (s.logfile p)
  rw [Place.sum_eq] at hl
  simp only [Multiset.card_add, Multiset.card_sum] at hl
  have hu : ∑ i, (s.linesAt p (.unread i)).card = ∑ i, ((s.requester i).loc.unread i).length := rfl
  have hwr : (s.linesAt p .written).card = (linesIn (s.logfile p)).length := rfl
  have hd : (s.linesAt p .dropped).card = (s.dropped p).length := rfl
  omega

/-- The resolver of `sample` is about to make its first record. -/
theorem bounded_memory_sample : ∃ s, sample.system.Reachable s ∧ (s.requester 0).opened = [0, 2] ∧
    s.buffers (.resolver 0) = 2 ∧ s.nextAddr + ∑ t, s.buffers t ≤ s.freed.length + 37 ∧
    (s.openedLines sample).card ≤ ∑ i, ((s.requester i).loc.unread i).length +
      (s.logfile .requesterLog).length + (s.dropped .requesterLog).length + 9 := by
  have h : ∃ s ∈ schedule sample sampleDns ((sampleRun 0 0).take 17 ++ [(.resolver 0, 11)]),
      (s.requester 0).opened = [0, 2] ∧ s.buffers (.resolver 0) = 2 := by decide +kernel
  obtain ⟨s, hs, h1, h2⟩ := h
  have H := schedule_reachable hs
  exact ⟨s, H, h1, h2, (bounded_memory H).1, (bounded_memory H).2 .requesterLog⟩

end State
end DnsResolver
