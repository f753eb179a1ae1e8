import DnsResolver.Threaded.ThreadedOrder
import Mathlib.Algebra.BigOperators.Fin

/-!
# The printed statistics

A resolver counts a record when its `array_put` on `resolver_logfile_queue` has returned, so the
counts lag behind what the queue has accepted by the resolvers that are between the two
(`uncounted`). What a log thread has written and holds is what its queue has delivered
(`unwritten`). `main` prints the counts of each thread after it has joined it (`reportsOn`). These
are the parts of `Statistics`. -/

namespace DnsResolver
open Function

variable {R S : Nat} {cfg : Config R S} {s s' : State R S} {t u : Tid R S} {q : QName}
  {e : Effect R S}

/-- A put has stored its pointer when it holds it no more. -/
theorem Call.stored_iff {c : Call α} :
    c.stored = true ↔ (∃ x, c.op = some (.put x)) ∧ c.holds = none := by
  rcases c with _ | ⟨x, pc⟩ | ⟨x, r⟩ | pc | r | pc | _ <;> try simp [Call.stored, Call.op]
  · cases pc <;> simp [Call.holds, PutPc.stored]
  · cases r <;> simp [Call.holds]

theorem Call.stored_congr {c c' : Call α} (ho : c'.op = c.op) (hh : c'.holds = c.holds) :
    c'.stored = c.stored := by
  apply Bool.eq_iff_iff.2
  rw [Call.stored_iff, Call.stored_iff, ho, hh]

@[simp] theorem Op.start_stored {α : Type} (o : Op α) : o.start.stored = false := by
  cases o <;> rfl

/-- The numbers in a report. -/
def Report.files : Report → Nat
  | .serviced _ n => n
  | .resolved .. => 0

def Report.hosts : Report → Nat
  | .serviced .. => 0
  | .resolved _ n => n

/-- How many requesters and resolvers `main` has joined. -/
def MainLoc.requestersJoined (R : Nat) : MainLoc → Nat
  | .joinRequester i => i
  | .joinResolver _ | .freeRequesterLog | .freeResolverLog | .joinLogger _ | .returned => R
  | _ => 0

def MainLoc.resolversJoined (S : Nat) : MainLoc → Nat
  | .joinResolver j => j
  | .freeRequesterLog | .freeResolverLog | .joinLogger _ | .returned => S
  | _ => 0

/-- The string that a log thread is about to write. -/
def LoggerLoc.writing : LoggerLoc → List Str
  | .write x => [x]
  | _ => []

namespace State

/-- The resolver has stored a record in `resolver_logfile_queue` and has not yet counted it. -/
def uncounted (s : State R S) (j : Fin S) : Bool :=
  ((s.queue .resolverLogfileQueue).call (.resolver j)).stored

/-- The strings that a log thread holds and has not yet written. -/
def unwritten (s : State R S) (k : Logger) : List Str :=
  (s.logger k).writing ++ ((s.queue k.queue).call (.logger k)).got.toList

/-- The reports on the first `n` requesters and the first `m` resolvers. -/
def reportsOn (s : State R S) (n m : Nat) : List Report :=
  ((List.finRange R).take n).map
    (fun i => .serviced (s.requester i).seqId (s.requester i).filesServiced) ++
  ((List.finRange S).take m).map
    fun j => .resolved (s.resolver j).seqId (s.resolver j).hostsResolved

/-- The counts of the resolvers, the log files and the reports. -/
structure Statistics (s : State R S) : Prop where
  counted : ∑ j, ((s.resolver j).hostsResolved + (s.uncounted j).toNat) =
    (s.queue .resolverLogfileQueue).ghost.accepted.length
  written : ∀ k, s.logfile k ++ s.unwritten k = (s.queue k.queue).ghost.delivered
  serviced : ∀ i, (s.requester i).filesServiced = (s.requester i).opened.length
  printed : s.reports = s.reportsOn (s.main.requestersJoined R) (s.main.resolversJoined S)

/-! ## The counts of the resolvers -/

end State

theorem ResolverStep.resolved {j : Fin S} {l l' : ResolverLoc} (h : ResolverStep cfg s j l l' e)
    (H : ((s.queue .resolverLogfileQueue).call (.resolver j)).op =
      State.opAt l.op .resolverLogfileQueue) : e.resolved = (s.uncounted j).toNat := by
  unfold State.uncounted
  cases h with
  | putRecord hc | putRecord_refused hc => rw [hc]; rfl
  | _ => rw [Call.op_eq_none.1 H]; rfl

namespace State

/-- After a statement its thread has stored nothing in a call. -/
theorem Synced.stored_self (H : s.Synced) (h : Stmt cfg s t s') (q : QName) :
    ((s'.queue q).call t).stored = false := by
  rw [H.call_self h]
  cases opAt (s'.op t) q with
  | none => rfl
  | some p => exact p.start_stored

theorem counted_stmt (hs : s.Synced) (h : Stmt cfg s t s') (j : Fin S) :
    (s'.resolver j).hostsResolved + (s'.uncounted j).toNat =
      (s.resolver j).hostsResolved + (s.uncounted j).toNat := by
  by_cases hj : .resolver j = t
  · subst hj
    have h0 : s'.uncounted j = false := hs.stored_self h _
    cases h with
    | @resolver _ l e h =>
      rw [h0, ← h.resolved (hs.op _ _), setResolver_self]
      rfl
  · have h1 := (h.other hs.fresh hj).1
    rw [uncounted, call_of_ne h hj, h1]
    rfl

theorem counted_call {mv : Move (Tid R S)} {m : Monitor (Tid R S) Str} (hs : s.Synced)
    (hi : (s.queue q).Inv cfg.arraySize) (h : (s.queue q).move cfg.arraySize t mv = some m)
    (H : ∑ j, ((s.resolver j).hostsResolved + (s.uncounted j).toNat) =
      (s.queue .resolverLogfileQueue).ghost.accepted.length) :
    ∑ j, ((s.resolver j).hostsResolved + ((s.setQueue q m).uncounted j).toNat) =
      ((s.setQueue q m).queue .resolverLogfileQueue).ghost.accepted.length := by
  unfold uncounted at *
  by_cases hq : .resolverLogfileQueue = q
  · subst hq
    rw [setQueue_self]
    cases hi.moveView h with
    | stay _ ha _ hh =>
      rw [ha, ← H]
      refine Finset.sum_congr rfl fun j _ => ?_
      rw [Call.stored_congr (Monitor.move_op h _) (hh _).1]
    | accept x hc hc' _ _ _ ha _ hh =>
      -- the record is stored by a resolver, which has not yet counted it
      have hop := hs.op .resolverLogfileQueue t
      rw [hc] at hop
      obtain ⟨k, rfl, -⟩ := op_put (opAt_eq_some.1 hop.symm)
      have h1 := Tally.sum_of_ne (t := k)
        (f := fun j => (s.resolver j).hostsResolved +
          (((s.queue .resolverLogfileQueue).call (.resolver j)).stored).toNat)
        (g := fun j => (s.resolver j).hostsResolved + ((m.call (.resolver j)).stored).toNat)
        fun j hj => by
          rw [Call.stored_congr (Monitor.move_op h _) (hh _ fun hn => hj (Tid.resolver.inj hn)).1]
      rw [hc, hc', H] at h1
      rw [ha, List.length_append]
      exact Nat.add_right_cancel (m := (s.resolver k).hostsResolved) (by
        simpa [Call.stored, PutPc.stored, Nat.add_assoc, Nat.add_comm 1] using h1)
    | deliver x hc _ _ _ _ ha _ hh =>
      rw [ha, ← H]
      refine Finset.sum_congr rfl fun j _ => ?_
      have hj : .resolver j ≠ t := by
        rintro rfl
        have hop := hs.op .resolverLogfileQueue (.resolver j)
        rw [hc] at hop
        cases (op_get (opAt_eq_some.1 hop.symm)).1
      rw [Call.stored_congr (Monitor.move_op h _) (hh _ hj).1]
  · rw [setQueue_of_ne m hq, H]

/-! ## The log files -/

end State

/-- A log thread writes what it has got. -/
theorem LoggerStep.writing {k : Logger} {l l' : LoggerLoc} (h : LoggerStep s k l l' e)
    (H : ((s.queue k.queue).call (.logger k)).op = State.opAt (l.op k) k.queue) :
    l.writing ++ ((s.queue k.queue).call (.logger k)).got.toList =
      (e.write.map Prod.snd).toList ++ l'.writing := by
  cases h with
  | noString hc | string hc => rw [hc]; rfl
  | _ => rw [Call.op_eq_none.1 H]; rfl

namespace State

theorem written_stmt (hs : s.Synced) (h : Stmt cfg s t s') (k : Logger) :
    s'.logfile k ++ s'.unwritten k = s.logfile k ++ s.unwritten k := by
  unfold unwritten
  by_cases hk : .logger k = t
  · subst hk
    rw [hs.got_self h]
    cases h with
    | @logger _ l e h =>
      rw [h.writing (hs.op _ _)]
      rcases h.write_eq with he | ⟨x, he, -⟩
      · simp [perform, he]
      · simp [perform, he]
  · rw [logfile_of_ne h hk, call_of_ne h hk]
    rcases h.other hs.fresh hk with h1 | ⟨h1, h2⟩
    · rw [h1]
    · rw [h1, h2]
      rfl

theorem written_call {mv : Move (Tid R S)} {m : Monitor (Tid R S) Str} (hs : s.Synced)
    (hi : (s.queue q).Inv cfg.arraySize) (h : (s.queue q).move cfg.arraySize t mv = some m)
    {k : Logger} (H : s.logfile k ++ s.unwritten k = (s.queue k.queue).ghost.delivered) :
    s.logfile k ++ (s.setQueue q m).unwritten k =
      ((s.setQueue q m).queue k.queue).ghost.delivered := by
  unfold unwritten at *
  by_cases hq : k.queue = q
  · subst hq
    rw [setQueue_self]
    cases hi.moveView h with
    | stay _ _ hd hh =>
      rw [hd, (hh _).2]
      exact H
    | accept x hc hc' _ _ _ _ hd hh =>
      rw [hd]
      by_cases hk : .logger k = t
      · subst hk
        rw [hc']
        rw [hc] at H
        exact H
      · rw [(hh _ hk).2]
        exact H
    | deliver x hc _ hg _ _ _ hd _ =>
      -- only the log thread gets from its queue, and it has written all it got before
      have hop := hs.op k.queue t
      rw [hc] at hop
      obtain ⟨rfl, hl⟩ : t = .logger k ∧ s.logger k = .get := by
        have hget := op_get (opAt_eq_some.1 hop.symm)
        cases k
        · exact hget
        · exact hget
      rw [hc] at H
      rw [hd, hg, ← H]
      simp [hl, LoggerLoc.writing, Call.got, GetPc.got, setQueue]
  · rw [setQueue_of_ne m hq]
    exact H

/-! ## The reports -/

theorem reportsOn_congr {n m : Nat} (hr : ∀ i : Fin R, i < n → s'.requester i = s.requester i)
    (hv : ∀ j : Fin S, j < m → s'.resolver j = s.resolver j) :
    s'.reportsOn n m = s.reportsOn n m := by
  unfold reportsOn
  congr 1
  · refine List.map_congr_left fun i hi => ?_
    rw [hr i ?_]
    obtain ⟨k, hk, rfl⟩ := List.mem_take_iff_getElem.1 hi
    simpa using (Nat.lt_min.1 hk).1
  · refine List.map_congr_left fun j hj => ?_
    rw [hv j ?_]
    obtain ⟨k, hk, rfl⟩ := List.mem_take_iff_getElem.1 hj
    simpa using (Nat.lt_min.1 hk).1

end State

theorem MainLoc.joinedRequester_of_lt {l : MainLoc} {i : Fin R} (h : i < l.requestersJoined R) :
    l.joinedRequester i = true := by
  revert h
  cases l <;> simp [requestersJoined, joinedRequester]

theorem MainLoc.joinedResolver_of_lt {l : MainLoc} {j : Fin S} (h : j < l.resolversJoined S) :
    l.joinedResolver j = true := by
  revert h
  cases l <;> simp [resolversJoined, joinedResolver]

theorem take_finRange_succ {n i : Nat} (h : i < n) :
    (List.finRange n).take (i + 1) = (List.finRange n).take i ++ [⟨i, h⟩] := by
  rw [List.take_add_one, List.getElem?_eq_getElem (by simpa using h)]
  simp

theorem take_finRange {n i : Nat} (h : n ≤ i) :
    (List.finRange n).take i = (List.finRange n).take n := by
  rw [List.take_of_length_le (by simpa using h), List.take_of_length_le (by simp)]

/-- `main` prints the counts of the thread it has joined. -/
theorem MainStep.report {l l' : MainLoc} (h : MainStep cfg s l l' e) :
    s.reportsOn (l.requestersJoined R) (l.resolversJoined S) ++ e.report =
      s.reportsOn (l'.requestersJoined R) (l'.resolversJoined S) := by
  cases h with
  | joinRequester hi => simp [State.reportsOn, MainLoc.requestersJoined, MainLoc.resolversJoined,
      take_finRange_succ hi]
  | joinResolver hj => simp [State.reportsOn, MainLoc.requestersJoined, MainLoc.resolversJoined,
      take_finRange_succ hj]
  | requestersJoined hi => simp [State.reportsOn, MainLoc.requestersJoined,
      MainLoc.resolversJoined, take_finRange hi]
  | resolversJoined hj => simp [State.reportsOn, MainLoc.requestersJoined,
      MainLoc.resolversJoined, take_finRange hj]
  | _ => exact List.append_nil _

/-- A requester counts the files it opens. -/
theorem RequesterStep.serviced {i : Fin R} {l l' : RequesterLoc} (h : RequesterStep cfg s i l l' e) :
    e.serviced = e.opened.length := by
  cases h <;> rfl

/-- Only `main` prints reports. -/
theorem RequesterStep.report {i : Fin R} {l l' : RequesterLoc} (h : RequesterStep cfg s i l l' e) :
    e.report = [] := by
  cases h <;> rfl

theorem ResolverStep.report {j : Fin S} {l l' : ResolverLoc} (h : ResolverStep cfg s j l l' e) :
    e.report = [] := by
  cases h <;> rfl

theorem LoggerStep.report {k : Logger} {l l' : LoggerLoc} (h : LoggerStep s k l l' e) :
    e.report = [] := by
  cases h <;> rfl

theorem MainLoc.joined_of_enqueued {l : MainLoc} (h : l.enqueued = false) :
    l.requestersJoined R = 0 ∧ l.resolversJoined S = 0 := by
  cases l <;> first | exact ⟨rfl, rfl⟩ | cases h

namespace State

theorem printed_stmt (hp : s.Phases) (h : Stmt cfg s t s')
    (H : s.reports = s.reportsOn (s.main.requestersJoined R) (s.main.resolversJoined S)) :
    s'.reports = s'.reportsOn (s'.main.requestersJoined R) (s'.main.resolversJoined S) := by
  have hi : ∀ i : Fin R, i < s.main.requestersJoined R → (s.requester i).loc.over = true :=
    fun i hi => hp.joinedRequester i (MainLoc.joinedRequester_of_lt hi)
  have hj : ∀ j : Fin S, j < s.main.resolversJoined S → (s.resolver j).loc.over = true :=
    fun j hj => hp.joinedResolver j (MainLoc.joinedResolver_of_lt hj)
  cases h with
  | @main l e h =>
    have hr : ((s.perform .main s.main.op l.op e).spawn e.spawn).reports = s.reports ++ e.report := by
      cases e.spawn <;> rfl
    refine (hr.trans (H ▸ h.report)).trans ?_
    by_cases hl : l.enqueued = true
    · rw [h.joined.1 hl]
      rfl
    · obtain ⟨h1, h2⟩ := MainLoc.joined_of_enqueued (R := R) (S := S) (Bool.eq_false_iff.2 hl)
      rw [h1, h2]
      rfl
  | @requester i l e h =>
    have hk : ∀ k : Fin R, k < s.main.requestersJoined R →
        ((s.perform (.requester i) (s.requester i).loc.op l.op e).setRequester i l e).requester k =
          s.requester k := fun k hk => by
      refine setRequester_of_ne l e ?_
      rintro rfl
      cases (hi k hk).symm.trans h.not_over
    refine Eq.trans ?_ (reportsOn_congr hk fun _ _ => rfl).symm
    simp [setRequester, perform, h.report, H]
  | @resolver j l e h =>
    have hk : ∀ k : Fin S, k < s.main.resolversJoined S →
        ((s.perform (.resolver j) (s.resolver j).loc.op l.op e).setResolver j l e).resolver k =
          s.resolver k := fun k hk => by
      refine setResolver_of_ne l e ?_
      rintro rfl
      cases (hj k hk).symm.trans h.not_over
    have hr : ∀ k : Fin R, k < s.main.requestersJoined R →
        ((s.perform (.resolver j) (s.resolver j).loc.op l.op e).setResolver j l e).requester k =
          s.requester k := fun _ _ => rfl
    refine Eq.trans ?_ (reportsOn_congr hr hk).symm
    simp [setResolver, perform, h.report, H]
  | logger h => simp [perform, h.report, H, reportsOn]
  | outsiderFree | outsiderDone => simp [perform, H, reportsOn]

theorem serviced_stmt (hf : s.Fresh) (h : Stmt cfg s t s') {i : Fin R}
    (H : (s.requester i).filesServiced = (s.requester i).opened.length) :
    (s'.requester i).filesServiced = (s'.requester i).opened.length := by
  by_cases hi : .requester i = t
  · subst hi
    cases h with
    | @requester _ l e h =>
      rw [setRequester_self, List.length_append, ← h.serviced]
      exact congrArg (· + e.serviced) H
  · rw [(h.other hf hi).1]
    exact H

theorem statistics_reachable (H : cfg.system.Reachable s) : s.Statistics := by
  induction H with
  | init h =>
    rw [h]
    refine ⟨?_, fun k => by cases k <;> rfl, fun _ => rfl, rfl⟩
    exact Finset.sum_const_zero
  | @step s _ s' H h ih =>
    have hs := synced_reachable H
    rcases (step_cases h).2 with ⟨t, c, -, h'⟩ | ⟨q, t, mv, m, -, h', rfl⟩
    · refine ⟨?_, fun k => ?_, fun i => serviced_stmt hs.fresh h' (ih.serviced i),
        printed_stmt (phases_reachable H) h' ih.printed⟩
      · rw [h'.queue_eq, switch_accepted, ← ih.counted]
        exact Finset.sum_congr rfl fun j _ => counted_stmt hs h' j
      · rw [h'.queue_eq, switch_delivered, ← ih.written k]
        exact written_stmt hs h' k
    · have hcount := counted_call hs (queue_inv H q) h' ih.counted
      have hwrite := fun k => written_call hs (queue_inv H q) h' (ih.written k)
      exact ⟨hcount, hwrite, ih.serviced, ih.printed⟩

/-! ## What the statistics say -/

/-- Every record that has entered `resolver_logfile_queue` is in it, held by the log thread, or
written. -/
theorem records_conserved (H : cfg.system.Reachable s) :
    ∑ j, (s.resolver j).hostsResolved + ∑ j, (s.uncounted j).toNat =
      (s.queue .resolverLogfileQueue).items.length + (s.unwritten .resolverLog).length +
        (s.logfile .resolverLog).length := by
  have hst := statistics_reachable H
  have hw : _ = (s.queue .resolverLogfileQueue).ghost.delivered.length :=
    congrArg List.length (hst.written .resolverLog)
  have ha := congrArg List.length (queue_inv H .resolverLogfileQueue).accepted_eq
  rw [List.length_append] at hw ha
  rw [← Finset.sum_add_distrib, hst.counted, ha, ← hw]
  omega

theorem sum_reports (H : cfg.system.Reachable s) (hm : s.main = .returned) :
    (s.reports.map Report.files).sum = ∑ i, (s.requester i).opened.length ∧
    (s.reports.map Report.hosts).sum = ∑ j, (s.resolver j).hostsResolved := by
  have hst := statistics_reachable H
  rw [hst.printed, hm]
  simp [MainLoc.requestersJoined, MainLoc.resolversJoined, reportsOn, Function.comp_def,
    Report.files, Report.hosts, ← hst.serviced, Fin.sum_univ_def, List.take_of_length_le]

/-- When `main` has returned, all records are counted and written. -/
theorem returned_counted (hc : cfg.createFails = false) (H : cfg.system.Reachable s)
    (hm : s.main = .returned) :
    ∑ j, (s.resolver j).hostsResolved = (s.logfile .resolverLog).length := by
  have hp := phases_reachable H
  have hs := synced_reachable H
  have hv : ∀ j, s.uncounted j = false := fun j => by
    have h1 := hp.joinedResolver j (by rw [hm]; rfl)
    have h2 : (s.queue .resolverLogfileQueue).call (.resolver j) = .idle :=
      hs.call_idle (by rw [op, (ResolverLoc.over_lines h1 .resolverLog).2]; rfl)
    rw [uncounted, h2]
    rfl
  have hw : s.unwritten .resolverLog = [] := by
    have h1 := hp.joinedLogger .resolverLog (by rw [hm]; rfl)
    have h2 : (s.queue Logger.resolverLog.queue).call (.logger .resolverLog) = .idle :=
      hs.call_idle (by rw [op, h1]; rfl)
    rw [unwritten, h1, h2]
    rfl
  have h := records_conserved H
  rw [(returned_drained hc H hm .resolverLogfileQueue).2, hw] at h
  simpa [hv] using h

/-- Both logs have a line for each line that was read. -/
theorem returned_lengths (ho : cfg.outsiders = false) (ha : cfg.allocFails = false)
    (hc : cfg.createFails = false) (H : cfg.system.Reachable s) (hm : s.main = .returned) :
    (s.logfile .resolverLog).length = (s.logfile .requesterLog).length := by
  obtain ⟨h1, recs, h2, h3, -⟩ := (exactly_once H ho).2.2.2 hm ha (.inl hc)
  have h1 := congrArg Multiset.card h1
  have h2 := congrArg Multiset.card h2
  have h3 := congrArg List.length h3
  rw [Multiset.coe_card, List.length_map, Multiset.card_map] at h1
  rw [Multiset.coe_card, List.length_map] at h2
  rw [List.length_map, List.length_map] at h3
  omega

theorem opened_accepted (hc : cfg.createFails = false) (H : cfg.system.Reachable s)
    (hm : s.main = .returned) (h : ∀ i, (s.requester i).opened = (s.requester i).dequeued) :
    ∑ i, (s.requester i).opened.length = (s.queue .filenameQueue).ghost.accepted.length := by
  have h1 := congrArg Multiset.card (filePath_reachable H).merge.sum_eq
  rw [Multiset.card_sum, Multiset.coe_card, taken, List.length_map,
    delivered_of_drained H (returned_drained hc H hm _)] at h1
  rw [← h1]
  refine Finset.sum_congr rfl fun i _ => ?_
  rw [h i, ← got_returned H hm, Multiset.coe_card]

end State
end DnsResolver
