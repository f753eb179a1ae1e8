import DnsResolver.Threaded.ThreadedLines

/-!
# The order of the logs

The lines that `requester_logfile_queue` and `hostname_queue` have accepted are an interleaving of
what each requester has read, in its order; a log thread writes what its queue has delivered, in
that order, and so does a single resolver with the records (`LineOrder`). -/

namespace DnsResolver
open Function

variable {R S : Nat} {cfg : Config R S} {s s' : State R S} {t u : Tid R S} {q : QName}
  {e : Effect R S} {x : Str}

/-- The queue on which the requesters put, on the way to a log. -/
def Logger.entry : Logger → QName
  | .requesterLog => .requesterLogfileQueue
  | .resolverLog => .hostnameQueue

@[simp] theorem Logger.path_entry (p : Logger) : p.path p.entry = true := by
  cases p <;> rfl

@[simp] theorem Logger.path_queue (p : Logger) : p.path p.queue = true := by
  cases p <;> rfl

namespace State

/-- The lines that a queue has accepted and delivered. -/
def acceptedLines (s : State R S) (q : QName) : List Line := linesIn (s.queue q).ghost.accepted

def deliveredLines (s : State R S) (q : QName) : List Line := linesIn (s.queue q).ghost.delivered

theorem acceptedLines_eq (H : cfg.system.Reachable s) (q : QName) :
    s.acceptedLines q = s.deliveredLines q ++ linesIn (s.queue q).items := by
  rw [acceptedLines, (queue_inv H q).accepted_eq, linesIn_append, deliveredLines]

/-! ## A move passes a line on -/

/-- How a move of `t` in a call on `q` changes the lines in the calls and in the histories. -/
inductive LineView (s s' : State R S) (q : QName) (t : Tid R S) : Prop
  | stay (same : ∀ p u, s'.inCall p u = s.inCall p u)
      (accepted : s'.acceptedLines q = s.acceptedLines q)
      (delivered : s'.deliveredLines q = s.deliveredLines q) : LineView s s' q t
  | accept (x : Str) (op : s.op t = some (q, .put x)) (mem : x ∈ (s.queue q).contents)
      (before : ∀ p, s.inCall p t = if p.path q then x.src.lines else [])
      (after : ∀ p, s'.inCall p t = [])
      (same : ∀ p u, u ≠ t → s'.inCall p u = s.inCall p u)
      (accepted : s'.acceptedLines q = s.acceptedLines q ++ x.src.lines)
      (delivered : s'.deliveredLines q = s.deliveredLines q) : LineView s s' q t
  | deliver (x : Str) (op : s.op t = some (q, .get))
      (before : ∀ p, s.inCall p t = [])
      (after : ∀ p, s'.inCall p t = if p.path q then x.src.lines else [])
      (same : ∀ p u, u ≠ t → s'.inCall p u = s.inCall p u)
      (accepted : s'.acceptedLines q = s.acceptedLines q)
      (delivered : s'.deliveredLines q = s.deliveredLines q ++ x.src.lines) : LineView s s' q t

theorem inCall_congr {q : QName} {m : Monitor (Tid R S) Str} {u : Tid R S}
    (h : (m.call u).holds = ((s.queue q).call u).holds) (p : Logger) :
    (s.setQueue q m).inCall p u = s.inCall p u := by
  rw [inCall, setQueue_op, inCall]
  unfold handedBack
  split
  · rename_i q' _ _
    by_cases hq : q' = q
    · subst hq
      rw [setQueue_self, h]
    · rw [setQueue_of_ne m hq]
  · rfl

theorem inCall_of_op {o : Op Str} (h : s.op t = some (q, o)) (p : Logger) :
    s.inCall p t = if p.path q then linesIn ((s.queue q).call t).holds.toList else [] := by
  rw [inCall, h, handedBack]

theorem lineView {mv : Move (Tid R S)} {m : Monitor (Tid R S) Str} (hs : s.Synced)
    (hi : (s.queue q).Inv cfg.arraySize) (h : (s.queue q).move cfg.arraySize t mv = some m) :
    s.LineView (s.setQueue q m) q t := by
  have hop := hs.op q t
  have hm : (s.setQueue q m).queue q = m := setQueue_self m
  cases hi.moveView h with
  | stay _ ha hd hh =>
    refine .stay (fun p u => inCall_congr (hh u).1 p) ?_ ?_
    · rw [acceptedLines, hm, ha]
      rfl
    · rw [deliveredLines, hm, hd]
      rfl
  | accept x hc hc' _ _ _ ha hd hh =>
    rw [hc] at hop
    have hop := opAt_eq_some.1 hop.symm
    refine .accept x hop (Monitor.mem_contents.2 (.inr ⟨t, ?_⟩)) (fun p => ?_) (fun p => ?_)
      (fun p u hu => inCall_congr (hh u hu).1 p) ?_ ?_
    · simp [hc, Call.carries, Call.holds, PutPc.stored]
    · rw [inCall_of_op hop, hc]
      simp [Call.holds, PutPc.stored]
    · rw [inCall_of_op ((setQueue_op s q m t).trans hop), hm, hc']
      simp [Call.holds, PutPc.stored]
    · rw [acceptedLines, hm, ha, linesIn_append, linesIn_singleton]
      rfl
    · rw [deliveredLines, hm, hd]
      rfl
  | deliver x hc hx hg _ _ ha hd hh =>
    rw [hc] at hop
    have hop := opAt_eq_some.1 hop.symm
    refine .deliver x hop (fun p => ?_) (fun p => ?_) (fun p u hu => inCall_congr (hh u hu).1 p) ?_ ?_
    · rw [inCall_of_op hop, hc]
      simp [Call.holds, GetPc.got]
    · rw [inCall_of_op ((setQueue_op s q m t).trans hop), hm, hx]
      simp
    · rw [acceptedLines, hm, ha]
      rfl
    · rw [deliveredLines, hm, hd, linesIn_append, linesIn_singleton]
      rfl

/-! ## The orders that every step keeps -/

/-- The order of the lines along the queues. -/
structure LineOrder (cfg : Config R S) (s : State R S) : Prop where
  requesters : ∀ p, ∃ sent : Fin R → List Line, IsMerge sent (s.acceptedLines p.entry) ∧
    ∀ i, sent i ++ (s.inCall p (.requester i) ++ s.ownLines p (.requester i)) =
      (s.requester i).opened.flatMap (cfg.fileLines i)
  resolver : ∀ j : Fin S, (∀ k, k = j) → s.acceptedLines .resolverLogfileQueue ++
    (s.inCall .resolverLog (.resolver j) ++ s.ownLines .resolverLog (.resolver j)) =
      s.deliveredLines .hostnameQueue
  logger : ∀ k, linesIn (s.logfile k) ++ (s.ownLines k (.logger k) ++ s.inCall k (.logger k)) =
    s.deliveredLines k.queue

theorem stmt_history (h : Stmt cfg s t s') (q : QName) :
    s'.acceptedLines q = s.acceptedLines q ∧ s'.deliveredLines q = s.deliveredLines q := by
  constructor
  · rw [acceptedLines, h.queue_eq, switch_accepted, acceptedLines]
  · rw [deliveredLines, h.queue_eq, switch_delivered, deliveredLines]

/-- A log file grows only by what its own thread writes. -/
theorem logfile_of_ne (h : Stmt cfg s t s') {k : Logger} (hk : .logger k ≠ t) :
    s'.logfile k = s.logfile k := by
  cases h with
  | main h => simp only [spawn_same, perform, h.write]
  | requester h => simp only [setRequester, perform, h.write]
  | resolver h => simp only [setResolver, perform, h.write]
  | @logger n l e h =>
    rcases h.write_eq with he | ⟨y, he, -⟩
    · simp only [perform, he]
    · simp only [perform, he]
      exact update_of_ne (fun hkn => hk (congrArg Tid.logger hkn)) ..
  | outsiderFree | outsiderDone => rfl

theorem lost_nil (t : Tid R S) (o o' : Option (QName × Op Str)) {p : Logger}
    (h : (s.perform t o o' e).dropped p = []) : e.lost p = [] := by
  rw [perform_dropped] at h
  exact (List.append_eq_nil_iff.1 h).2

theorem LineOrder.stmt (H : s.LineOrder cfg) (hs : s.Synced) (ht : s.WellTyped cfg)
    (h : Stmt cfg s t s') (hd : ∀ p, s'.dropped p = []) : s'.LineOrder cfg := by
  refine ⟨fun p => ?_, fun j hj => ?_, fun k => ?_⟩
  · obtain ⟨sent, hm, he⟩ := H.requesters p
    refine ⟨sent, by rwa [(stmt_history h _).1], fun i => ?_⟩
    by_cases hi : .requester i = t
    · subst hi
      rw [hs.inCall_self h p]
      cases h with
      | @requester _ l e h =>
        have hl := h.lines (ht.requester i) (hs.inCall _) p
        rw [lost_nil (.requester i) (s.requester i).loc.op l.op (hd p), List.append_nil] at hl
        simp only [ownLines, inHand, unread, State.op, setRequester_self, perform_same,
          List.flatMap_append]
        rw [← hl, ← he i, ← List.append_assoc]
        rfl
    · rw [inCall_of_ne hs.fresh h p hi, ownLines_of_ne hs.fresh h p hi,
        (other_files hs.fresh h hi).2.1]
      exact he i
  · rw [(stmt_history h _).1, (stmt_history h _).2, ← H.resolver j hj]
    refine congrArg _ ?_
    by_cases hj : .resolver j = t
    · subst hj
      rw [hs.inCall_self h]
      cases h with
      | @resolver _ l e h =>
        have hl := h.lines (ht.resolver j) (hs.inCall _) .resolverLog
        rw [lost_nil (.resolver j) (s.resolver j).loc.op l.op (hd _), List.append_nil] at hl
        simp only [ownLines, inHand, unread, State.op, setResolver_self, List.append_nil]
        exact hl.symm
    · rw [inCall_of_ne hs.fresh h _ hj, ownLines_of_ne hs.fresh h _ hj]
  · rw [(stmt_history h _).2, ← H.logger k]
    by_cases hk : .logger k = t
    · subst hk
      rw [hs.inCall_self h]
      cases h with
      | @logger _ l e h =>
        have hl := h.lines k
        rw [if_pos rfl, if_pos rfl] at hl
        simp only [ownLines, inHand, unread, State.op, update_self, if_true, List.append_nil]
        rw [perform_logfile, List.append_assoc, ← List.append_assoc (e.written k), ← hl]
        rfl
    · rw [logfile_of_ne h hk, inCall_of_ne hs.fresh h k hk, ownLines_of_ne hs.fresh h k hk]

theorem acceptedLines_of_ne (m : Monitor (Tid R S) Str) {q' : QName} (h : q' ≠ q) :
    (s.setQueue q m).acceptedLines q' = s.acceptedLines q' := by
  rw [acceptedLines, setQueue_of_ne m h, acceptedLines]

theorem deliveredLines_of_ne (m : Monitor (Tid R S) Str) {q' : QName} (h : q' ≠ q) :
    (s.setQueue q m).deliveredLines q' = s.deliveredLines q' := by
  rw [deliveredLines, setQueue_of_ne m h, deliveredLines]

theorem LineOrder.accept (H : s.LineOrder cfg) (ht : s.WellTyped cfg)
    {m : Monitor (Tid R S) Str} (hop : s.op t = some (q, .put x)) (hx : x ∈ (s.queue q).contents)
    (hb : ∀ p, s.inCall p t = if p.path q then x.src.lines else [])
    (hf : ∀ p, (s.setQueue q m).inCall p t = [])
    (hne : ∀ p u, u ≠ t → (s.setQueue q m).inCall p u = s.inCall p u)
    (ha : (s.setQueue q m).acceptedLines q = s.acceptedLines q ++ x.src.lines)
    (hd : (s.setQueue q m).deliveredLines q = s.deliveredLines q) :
    (s.setQueue q m).LineOrder cfg := by
  have hput := op_put hop
  have hown : ∀ p u, (s.setQueue q m).ownLines p u = s.ownLines p u := fun p u => by cases u <;> rfl
  have hdel : ∀ q', (s.setQueue q m).deliveredLines q' = s.deliveredLines q' := fun q' => by
    by_cases hq : q' = q
    · rw [hq, hd]
    · exact deliveredLines_of_ne m hq
  refine ⟨fun p => ?_, fun j hj => ?_, fun k => ?_⟩
  · obtain ⟨sent, hm, he⟩ := H.requesters p
    by_cases hq : p.entry = q
    · subst hq
      -- a requester stores a line: it is the next one of that requester in the merge
      obtain ⟨l, hl⟩ : ∃ l, x.src = .line l := by
        obtain ⟨l, hl, -⟩ : ∃ l, x.src = .line l ∧ x.bytes = l.host := by
          cases p <;> exact ht.queue _ x hx
        exact ⟨l, hl⟩
      obtain ⟨i, rfl⟩ : ∃ i, t = .requester i := by
        cases p
        · obtain ⟨i, hi, -⟩ := hput
          exact ⟨i, hi⟩
        · obtain ⟨i, hi, -⟩ := hput
          exact ⟨i, hi⟩
      refine ⟨update sent i (sent i ++ [l]), ?_, fun k => ?_⟩
      · rw [ha, hl]
        exact hm.push (i := i) (update_self ..) fun k hk => update_of_ne hk ..
      · rw [hown]
        refine Eq.trans ?_ (he k)
        by_cases hk : k = i
        · subst hk
          rw [update_self, hf, hb, if_pos (Logger.path_entry p), hl]
          simp [Src.lines]
        · rw [update_of_ne hk, hne _ _ fun h => hk (Tid.requester.inj h)]
    · refine ⟨sent, by rwa [acceptedLines_of_ne m hq], fun i => ?_⟩
      rw [hown]
      refine Eq.trans ?_ (he i)
      by_cases hi : .requester i = t
      · subst hi
        rw [hf, hb]
        cases q with
        | filenameQueue => cases hput.1
        | resolverLogfileQueue =>
          obtain ⟨j, hj, -⟩ := hput
          cases hj
        | hostnameQueue | requesterLogfileQueue =>
          cases p <;> first | rfl | exact absurd rfl hq
      · rw [hne _ _ hi]
  · rw [hown, hdel, ← H.resolver j hj]
    by_cases hq : .resolverLogfileQueue = q
    · subst hq
      obtain ⟨k, rfl, y, hy⟩ := hput
      obtain rfl := hj k
      have h0 : s.ownLines .resolverLog (.resolver k) = [] := by
        rw [ownLines, inHand, hy]
        rfl
      rw [ha, hf, hb, h0]
      simp [Logger.path]
    · rw [acceptedLines_of_ne m hq, hne]
      rintro rfl
      cases q with
      | filenameQueue => cases hput.1
      | resolverLogfileQueue => exact hq rfl
      | hostnameQueue | requesterLogfileQueue =>
        obtain ⟨i, hi, -⟩ := hput
        cases hi
  · rw [hown, hdel, ← H.logger k, hne]
    · rfl
    · rintro rfl
      cases q with
      | filenameQueue => cases hput.1
      | _ =>
        obtain ⟨i, hi, -⟩ := hput
        cases hi

theorem LineOrder.deliver (H : s.LineOrder cfg) {m : Monitor (Tid R S) Str}
    (hop : s.op t = some (q, .get)) (hb : ∀ p, s.inCall p t = [])
    (hf : ∀ p, (s.setQueue q m).inCall p t = if p.path q then x.src.lines else [])
    (hne : ∀ p u, u ≠ t → (s.setQueue q m).inCall p u = s.inCall p u)
    (ha : (s.setQueue q m).acceptedLines q = s.acceptedLines q)
    (hd : (s.setQueue q m).deliveredLines q = s.deliveredLines q ++ x.src.lines) :
    (s.setQueue q m).LineOrder cfg := by
  have hget := op_get hop
  have hown : ∀ p u, (s.setQueue q m).ownLines p u = s.ownLines p u := fun p u => by cases u <;> rfl
  have hacc : ∀ q', (s.setQueue q m).acceptedLines q' = s.acceptedLines q' := fun q' => by
    by_cases hq : q' = q
    · rw [hq, ha]
    · exact acceptedLines_of_ne m hq
  refine ⟨fun p => ?_, fun j hj => ?_, fun k => ?_⟩
  · obtain ⟨sent, hm, he⟩ := H.requesters p
    refine ⟨sent, by rwa [hacc], fun i => ?_⟩
    rw [hown]
    refine Eq.trans ?_ (he i)
    by_cases hi : .requester i = t
    · subst hi
      rw [hf, hb]
      cases q with
      | filenameQueue => cases p <;> rfl
      | hostnameQueue =>
        obtain ⟨j, hj, -⟩ := hget
        cases hj
      | _ => cases hget.1
    · rw [hne _ _ hi]
  · rw [hown, hacc]
    by_cases hq : .hostnameQueue = q
    · subst hq
      obtain ⟨k, rfl, hy⟩ := hget
      obtain rfl := hj k
      have h0 : s.ownLines .resolverLog (.resolver k) = [] := by
        rw [ownLines, inHand, hy]
        rfl
      have hr := H.resolver k hj
      rw [hb, h0] at hr
      rw [hd, hf, h0, ← hr]
      simp [Logger.path]
    · rw [deliveredLines_of_ne m hq, ← H.resolver j hj, hne]
      rintro rfl
      cases q with
      | hostnameQueue => exact hq rfl
      | filenameQueue =>
        obtain ⟨i, hi, -⟩ := hget
        cases hi
      | _ => cases hget.1
  · rw [hown]
    by_cases hq : k.queue = q
    · subst hq
      obtain ⟨rfl, hy⟩ : t = .logger k ∧ s.logger k = .get := by
        cases k
        · exact hget
        · exact hget
      have h0 : s.ownLines k (.logger k) = [] := by
        rw [ownLines, inHand, hy]
        simp [LoggerLoc.holds, unread]
      have hr := H.logger k
      rw [hb, h0] at hr
      rw [hd, hf, h0, ← hr, if_pos (Logger.path_queue k)]
      simp [setQueue]
    · rw [deliveredLines_of_ne m hq, ← H.logger k, hne]
      · rfl
      · rintro rfl
        cases q with
        | filenameQueue | hostnameQueue =>
          obtain ⟨i, hi, -⟩ := hget
          cases hi
        | _ =>
          obtain ⟨h1, -⟩ := hget
          cases h1
          exact hq rfl

theorem lineOrder_reachable (ho : cfg.outsiders = false) (ha : cfg.allocFails = false)
    (H : cfg.system.Reachable s) : s.LineOrder cfg := by
  induction H with
  | init h =>
    rw [h]
    refine ⟨fun p => ⟨fun _ => [], IsMerge.nil, fun i => ?_⟩, fun j _ => rfl, fun k => ?_⟩
    · cases p <;> rfl
    · cases k <;> rfl
  | @step s _ s' H h ih =>
    have hs := synced_reachable H
    have ht := wellTyped_reachable H
    rcases (step_cases h).2 with ⟨t, c, -, h'⟩ | ⟨q, t, mv, m, -, h', rfl⟩
    · exact ih.stmt hs ht h' fun p => dropped_nil ho ha (H.step h) p
    · have hown : ∀ p u, (s.setQueue q m).ownLines p u = s.ownLines p u := fun p u => by
        cases u <;> rfl
      cases lineView hs (queue_inv H q) h' with
      | stay same hacc hdel =>
        have hacc' : ∀ q', (s.setQueue q m).acceptedLines q' = s.acceptedLines q' := fun q' => by
          by_cases hq : q' = q
          · rw [hq, hacc]
          · exact acceptedLines_of_ne m hq
        have hdel' : ∀ q', (s.setQueue q m).deliveredLines q' = s.deliveredLines q' := fun q' => by
          by_cases hq : q' = q
          · rw [hq, hdel]
          · exact deliveredLines_of_ne m hq
        refine ⟨fun p => ?_, fun j hj => ?_, fun k => ?_⟩
        · obtain ⟨sent, hm, he⟩ := ih.requesters p
          refine ⟨sent, by rwa [hacc'], fun i => ?_⟩
          rw [same, hown]
          exact he i
        · rw [hacc', same, hown, hdel']
          exact ih.resolver j hj
        · rw [same, hown, hdel']
          exact ih.logger k
      | accept x op mem hb hf hne hacc hdel => exact ih.accept ht op mem hb hf hne hacc hdel
      | deliver x op hb hf hne hacc hdel => exact ih.deliver op hb hf hne hacc hdel

/-! ## Finished runs -/

/-- A queue that is drained has delivered what it has accepted. -/
theorem delivered_of_drained (H : cfg.system.Reachable s) (hd : (s.queue q).Drained) :
    (s.queue q).ghost.delivered = (s.queue q).ghost.accepted := by
  obtain ⟨ys, hy⟩ := (queue_inv H q).split
  have h0 := hd.2
  rw [Monitor.items, ← hy, List.drop_left] at h0
  rw [← hy, h0, List.append_nil]

/-- When `main` has returned, the queues of the threads that were created are drained. -/
theorem drained_returned (hr : ∃ i, (s.requester i).loc ≠ .failed)
    (hv : ∃ j, (s.resolver j).loc ≠ .idle) (H : cfg.system.Reachable s) (hm : s.main = .returned)
    (q : QName) : (s.queue q).Drained := by
  have hp := phases_reachable H
  apply drained_of_left H
  cases q with
  | filenameQueue =>
    obtain ⟨i, hi⟩ := hr
    refine ⟨i, ?_⟩
    have h1 := hp.joinedRequester i (by rw [hm]; rfl)
    generalize (s.requester i).loc = l at h1 hi
    cases l <;> first | rfl | exact absurd rfl hi | cases h1
  | hostnameQueue =>
    obtain ⟨j, hj⟩ := hv
    refine ⟨j, ?_⟩
    have h1 := hp.joinedResolver j (by rw [hm]; rfl)
    generalize (s.resolver j).loc = l at h1 hj
    cases l <;> first | rfl | exact absurd rfl hj | cases h1
  | requesterLogfileQueue => exact hp.joinedLogger .requesterLog (by rw [hm]; rfl)
  | resolverLogfileQueue => exact hp.joinedLogger .resolverLog (by rw [hm]; rfl)

theorem returned_drained (hc : cfg.createFails = false) (H : cfg.system.Reachable s)
    (hm : s.main = .returned) (q : QName) : (s.queue q).Drained := by
  have hcr := created_reachable hc H
  refine drained_returned ⟨⟨0, cfg.requesters_pos⟩, hcr.failed _⟩ ⟨⟨0, cfg.resolvers_pos⟩, ?_⟩ H hm q
  exact hcr.resolver _ (by rw [hm]; rfl)

/-- What the entry queue of a path has accepted in the end. -/
theorem entry_merge (ho : cfg.outsiders = false) (ha : cfg.allocFails = false)
    (H : cfg.system.Reachable s) (hm : s.main = .returned) (p : Logger) :
    IsMerge (fun i => (s.requester i).opened.flatMap (cfg.fileLines i))
      (s.acceptedLines p.entry) := by
  obtain ⟨sent, h1, h2⟩ := (lineOrder_reachable ho ha H).requesters p
  refine h1.congr fun i => ?_
  obtain ⟨h3, h4⟩ := returned_idle H hm p (.requester i)
  rw [← h2 i, h3, h4, List.append_nil, List.append_nil]

theorem hosts_of_lines (i : Nat) (ks : List Nat) :
    (ks.flatMap (cfg.fileLines i)).map Line.host = ks.flatMap cfg.hosts := by
  rw [List.map_flatMap]
  exact congrArg (List.flatMap · ks) (funext (Config.fileLines_host cfg i))

/-- The lines that a log thread has written in the end. -/
theorem written_lines (ho : cfg.outsiders = false) (ha : cfg.allocFails = false)
    (H : cfg.system.Reachable s) (hm : s.main = .returned) (k : Logger) :
    linesIn (s.logfile k) = s.deliveredLines k.queue := by
  obtain ⟨h1, h2⟩ := returned_idle H hm k (.logger k)
  rw [← (lineOrder_reachable ho ha H).logger k, h1, h2, List.append_nil, List.append_nil]

/-- When nothing fails the requesters have opened what they have dequeued in the end. -/
theorem opened_returned (hopen : cfg.openFails = false) (H : cfg.system.Reachable s)
    (hm : s.main = .returned) (i : Fin R) :
    (s.requester i).opened = (s.requester i).dequeued := by
  have h1 := (phases_reachable H).joinedRequester i (by rw [hm]; rfl)
  rw [← opened_eq hopen H i]
  generalize (s.requester i).loc = l at h1 ⊢
  cases l <;> first | exact (List.append_nil _).symm | cases h1

/-- When nothing fails all readable files have been taken in the end. -/
theorem taken_of_drained (ho : cfg.outsiders = false) (ha : cfg.allocFails = false)
    (hopen : cfg.openFails = false) (H : cfg.system.Reachable s) (hm : s.main = .returned)
    (hd : (s.queue .filenameQueue).Drained) : s.taken = cfg.enqueued cfg.files.length := by
  have hmain : (s.queue .filenameQueue).call .main = .idle :=
    (synced_reachable H).call_idle (by rw [op, hm]; rfl)
  have h := offered_eq ho ha hopen H
  rw [offered, hmain, hm] at h
  rw [taken, delivered_of_drained H hd]
  exact (List.append_nil _).symm.trans h

theorem taken_returned (ho : cfg.outsiders = false) (ha : cfg.allocFails = false)
    (hc : cfg.createFails = false) (hopen : cfg.openFails = false) (H : cfg.system.Reachable s)
    (hm : s.main = .returned) : s.taken = cfg.enqueued cfg.files.length :=
  taken_of_drained ho ha hopen H hm (returned_drained hc H hm _)

theorem got_returned (H : cfg.system.Reachable s) (hm : s.main = .returned) (i : Fin R) :
    s.got i = (s.requester i).dequeued := by
  have h : (s.queue .filenameQueue).call (.requester i) = .idle := by
    have h1 := (phases_reachable H).joinedRequester i (by rw [hm]; rfl)
    refine (synced_reachable H).call_idle ?_
    rw [op, (RequesterLoc.over_lines h1 i .requesterLog).2.2]
    rfl
  rw [got, h]
  exact List.append_nil _

/-- The order of the logs of a finished run. -/
theorem log_order (ho : cfg.outsiders = false) (ha : cfg.allocFails = false)
    (hc : cfg.createFails = false) (H : cfg.system.Reachable s) (hm : s.main = .returned) :
    IsMerge (fun i => (s.requester i).opened.flatMap cfg.hosts)
      ((s.logfile .requesterLog).map Str.bytes) ∧
    (∀ i, (s.requester i).opened.Sublist (s.requester i).dequeued ∧
      (cfg.openFails = false → (s.requester i).opened = (s.requester i).dequeued) ∧
      (s.requester i).dequeued.Sublist (cfg.enqueued cfg.files.length)) ∧
    (S = 1 → ∃ recs : List (Bytes × Option Bytes),
      (s.logfile .resolverLog).map Str.bytes = recs.map (fun r => record r.1 r.2) ∧
      (∀ r ∈ recs, cfg.answers r.1 r.2 = true) ∧
      IsMerge (fun i => (s.requester i).opened.flatMap cfg.hosts) (recs.map Prod.fst)) ∧
    (R = 1 → ∀ i, (s.logfile .requesterLog).map Str.bytes =
        (s.requester i).opened.flatMap cfg.hosts ∧
      (cfg.openFails = false → (s.requester i).opened = cfg.enqueued cfg.files.length) ∧
      (S = 1 → ∃ recs : List (Bytes × Option Bytes),
        (s.logfile .resolverLog).map Str.bytes = recs.map (fun r => record r.1 r.2) ∧
        recs.map Prod.fst = (s.requester i).opened.flatMap cfg.hosts)) := by
  have ht := wellTyped_reachable H
  have hd := returned_drained hc H hm
  have hacc : ∀ q, s.deliveredLines q = s.acceptedLines q := fun q => by
    rw [deliveredLines, delivered_of_drained H (hd q), acceptedLines]
  have hmerge : ∀ p : Logger, IsMerge (fun i => (s.requester i).opened.flatMap cfg.hosts)
      ((s.acceptedLines p.entry).map Line.host) := fun p =>
    ((entry_merge ho ha H hm p).map Line.host).congr fun i => (hosts_of_lines _ _).symm
  have hreq : (s.logfile .requesterLog).map Str.bytes =
      (s.acceptedLines .requesterLogfileQueue).map Line.host := by
    rw [linesIn_bytes (ht.written .requesterLog), written_lines ho ha H hm, hacc]
    rfl
  have hres : S = 1 → ∃ recs : List (Bytes × Option Bytes),
      (s.logfile .resolverLog).map Str.bytes = recs.map (fun r => record r.1 r.2) ∧
      (∀ r ∈ recs, cfg.answers r.1 r.2 = true) ∧
      recs.map Prod.fst = (s.acceptedLines .hostnameQueue).map Line.host := by
    rintro rfl
    obtain ⟨recs, h1, h2, h3⟩ := linesIn_records (ht.written .resolverLog)
    refine ⟨recs.map fun r => (r.1.host, r.2), ?_, fun r hr => ?_, ?_⟩
    · rw [h2, List.map_map]
      rfl
    · obtain ⟨r', hr', rfl⟩ := List.mem_map.1 hr
      rcases h3 r' hr' with h | ⟨-, h⟩
      · exact h
      · exact absurd (ha.symm.trans h) nofun
    · have hv := (lineOrder_reachable ho ha H).resolver 0 fun k => Subsingleton.elim k 0
      obtain ⟨h4, h5⟩ := returned_idle H hm .resolverLog (.resolver 0)
      rw [h4, h5, List.append_nil, List.append_nil, hacc] at hv
      have hw : linesIn (s.logfile .resolverLog) = s.acceptedLines .resolverLogfileQueue :=
        (written_lines ho ha H hm .resolverLog).trans (hacc _)
      rw [← hv, ← hw, ← h1, List.map_map, List.map_map]
      rfl
  refine ⟨hreq ▸ hmerge .requesterLog, fun i => ⟨?_, fun hopen => ?_, dequeued_sublist H i⟩,
    fun hS => ?_, fun hR i => ⟨?_, fun hopen => ?_, fun hS => ?_⟩⟩
  · exact (List.sublist_append_left ..).trans ((filePath_reachable H).opened i)
  · exact opened_returned hopen H hm i
  · obtain ⟨recs, h1, h2, h3⟩ := hres hS
    exact ⟨recs, h1, h2, h3 ▸ hmerge .resolverLog⟩
  · subst hR
    rw [hreq]
    exact (hmerge .requesterLog).eq_of_subsingleton i
  · subst hR
    rw [opened_returned hopen H hm, ← got_returned H hm, ← taken_returned ho ha hc hopen H hm]
    exact ((filePath_reachable H).merge.eq_of_subsingleton i).symm
  · subst hR
    obtain ⟨recs, h1, h2, h3⟩ := hres hS
    exact ⟨recs, h1, h3.trans ((hmerge .resolverLog).eq_of_subsingleton i)⟩

theorem log_order_single : ∃ s, sample.system.Reachable s ∧ s.main = .returned ∧
    (s.logfile .requesterLog).map Str.bytes = [[97], [98], [99]] ∧
    ∃ recs : List (Bytes × Option Bytes),
      (s.logfile .resolverLog).map Str.bytes = recs.map (fun r => record r.1 r.2) ∧
      recs.map Prod.fst = [[97], [98], [99]] := by
  have h : ∃ s ∈ schedule sample sampleDns (sampleRun 0 0), s.main = .returned := by decide +kernel
  obtain ⟨s, hs, hm⟩ := h
  have hr := schedule_reachable hs
  have hh : (sample.enqueued sample.files.length).flatMap sample.hosts = [[97], [98], [99]] := by
    decide +kernel
  obtain ⟨h1, h2, h3⟩ := (log_order rfl rfl rfl hr hm).2.2.2 rfl 0
  obtain ⟨recs, h4, h5⟩ := h3 rfl
  rw [h2 rfl, hh] at h1 h5
  exact ⟨s, hr, hm, h1, recs, h4, h5⟩

end State
end DnsResolver
