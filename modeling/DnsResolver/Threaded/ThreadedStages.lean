import DnsResolver.Lib.Stage
import DnsResolver.Threaded.ThreadedOrder
import DnsResolver.Threaded.ThreadedInterrupt

/-!
# The logs of an interrupted run

The requesters are a stage that hands the lines of the opened files on to two queues, and the
resolvers are one between `hostname_queue` and `resolver_logfile_queue`. When no allocation fails a
thread drops a line only because its queue has been shut down, and then that queue takes nothing any
more. So whenever and wherever a signal comes, the logs have no gaps (`no_gaps`). -/

namespace DnsResolver
open Function

variable {R S : Nat} {cfg : Config R S} {s s' : State R S} {t u : Tid R S} {q : QName}
  {e : Effect R S} {x : Str}

/-! ## Why a line is dropped -/

theorem RequesterStep.lose {i : Fin R} {l l' : RequesterLoc} (h : RequesterStep cfg s i l l' e)
    (ha : cfg.allocFails = false) {p : Logger} (hd : e.lost p ≠ []) : l'.op = none ∧
      ∃ x, (s.queue p.entry).call (.requester i) = .putDone x .shutdown := by
  cases h with
  | dupLog_fail h | dupHost_fail h => exact absurd (ha.symm.trans h) nofun
  | putLog_refused hc | putHost_refused hc =>
    cases p with
    | requesterLog => first | exact ⟨rfl, _, hc⟩ | exact absurd rfl hd
    | resolverLog => first | exact ⟨rfl, _, hc⟩ | exact absurd rfl hd
  | _ => exact absurd rfl hd

theorem ResolverStep.lose {j : Fin S} {l l' : ResolverLoc} (h : ResolverStep cfg s j l l' e)
    (ha : cfg.allocFails = false) {p : Logger} (hd : e.lost p ≠ []) : l'.op = none ∧
      ∃ x, (s.queue .resolverLogfileQueue).call (.resolver j) = .putDone x .shutdown := by
  cases h with
  | format_fail h => exact absurd (ha.symm.trans h) nofun
  | putRecord_refused hc => exact ⟨rfl, _, hc⟩
  | _ => exact absurd rfl hd

namespace State

/-- The queue has been shut down. -/
def shut (s : State R S) (q : QName) : Prop := (s.queue q).arr.shutdown = true

theorem shut_of_refused (H : cfg.system.Reachable s) (h : (s.queue q).call t = .putDone x .shutdown) :
    s.shut q :=
  (h ▸ (queue_inv H q).asserts t : (Call.putDone x .shutdown).Asserts cfg.arraySize (s.queue q).arr)

theorem shut_stmt (h : Stmt cfg s t s') (q : QName) : s'.shut q ↔ s.shut q := by
  rw [shut, h.queue_eq, switch_arr, shut]

theorem shut_call {mv : Move (Tid R S)} {m : Monitor (Tid R S) Str}
    (h : (s.queue q).move cfg.arraySize t mv = some m) {q' : QName} (hs : s.shut q') :
    (s.setQueue q m).shut q' := by
  by_cases hq : q' = q
  · subst hq
    rw [shut, setQueue_self]
    exact Monitor.shutdown_step (N := cfg.arraySize) (a := .move t mv) h hs
  · rwa [shut, setQueue_of_ne m hq]

/-- What is accepted is accepted before the shutdown. -/
theorem open_of_accepted {mv : Move (Tid R S)} {m : Monitor (Tid R S) Str} {l : Line}
    (hi : (s.queue q).Inv cfg.arraySize) (h : (s.queue q).move cfg.arraySize t mv = some m)
    (ha : (s.setQueue q m).acceptedLines q = s.acceptedLines q ++ [l]) : ¬ s.shut q := by
  intro hs
  have hw := (hi.shutWith_step (a := .move t mv) h ⟨hs, rfl, rfl⟩).2.1
  rw [acceptedLines, setQueue_self, hw, ← acceptedLines] at ha
  simpa using congrArg List.length ha

/-- The lines that a thread holds on the way to a log, in its call and outside of it. -/
def heldLines (s : State R S) (p : Logger) (t : Tid R S) : List Line :=
  s.inCall p t ++ s.ownLines p t

/-- The requesters and the resolvers as stages. -/
structure Stages (cfg : Config R S) (s : State R S) : Prop where
  requesters : ∀ p : Logger, Stage (s.shut p.entry)
    (fun i => (s.requester i).opened.flatMap (cfg.fileLines i))
    (fun i => s.heldLines p (.requester i)) (s.acceptedLines p.entry)
  resolvers : ∃ got : Fin S → List Line, IsMerge got (s.deliveredLines .hostnameQueue) ∧
    Stage (s.shut .resolverLogfileQueue) got (fun j => s.heldLines .resolverLog (.resolver j))
      (s.acceptedLines .resolverLogfileQueue)

theorem heldLines_of_ne (hf : s.Fresh) (h : Stmt cfg s t s') (p : Logger) (hu : u ≠ t) :
    s'.heldLines p u = s.heldLines p u := by
  rw [heldLines, inCall_of_ne hf h p hu, ownLines_of_ne hf h p hu, heldLines]

/-- A thread that drops lines calls nothing. -/
theorem handedOver_comm {p : Logger} {o : Option (QName × Op Str)} {ls : List Line}
    (h : ls ≠ [] → o = none) : handedOver p o ++ ls = ls ++ handedOver p o := by
  by_cases hl : ls = []
  · rw [hl, List.append_nil, List.nil_append]
  · rw [h hl]
    exact (List.append_nil _).symm

/-- A statement moves the lines of its thread on, and drops the first of them when the queue they
are meant for is shut down. -/
theorem Stages.stmt (ha : cfg.allocFails = false) (H : cfg.system.Reachable s) (hg : s.Stages cfg)
    (h : Stmt cfg s t s') : s'.Stages cfg := by
  have hs := synced_reachable H
  have ht := wellTyped_reachable H
  constructor
  · intro p
    rw [(stmt_history h _).1]
    have hshut := (shut_stmt h p.entry).2
    have hopen (k : Fin R) (hk : .requester k ≠ t) :
        (s'.requester k).opened = (s.requester k).opened := (other_files hs.fresh h hk).2.1
    by_cases hi : ∃ i, t = .requester i
    · obtain ⟨i, rfl⟩ := hi
      have hne (k : Fin R) (hk : k ≠ i) : Tid.requester k ≠ (.requester i : Tid R S) :=
        fun h => hk (Tid.requester.inj h)
      have hin := hs.inCall_self h p
      have hother (k : Fin R) (hk : k ≠ i) := heldLines_of_ne hs.fresh h p (hne k hk)
      cases h with
      | @requester _ l e h =>
        have hl := h.lines (ht.requester i) (hs.inCall _) p
        rw [handedOver_comm fun hd => (h.lose ha hd).1] at hl
        refine ((hg.requesters p).work i (e.opened.flatMap (cfg.fileLines i)) (e.lost p) ?_ ?_ ?_
          fun k hk => ⟨?_, hother k hk⟩).congr hshut (fun _ => rfl) (fun _ => rfl)
        · simp only [setRequester_self, perform_same, List.flatMap_append]
        · rw [heldLines, heldLines, hin]
          simp only [inCall, ownLines, inHand, unread, State.op, setRequester_self]
          simpa only [List.append_assoc] using hl
        · intro hd
          exact shut_of_refused H (h.lose ha hd).2.choose_spec
        · rw [hopen k (hne k hk)]
    · refine (hg.requesters p).congr hshut (fun k => ?_) (fun k => ?_)
      · rw [hopen k fun h => hi ⟨k, h.symm⟩]
      · exact heldLines_of_ne hs.fresh h p fun h => hi ⟨k, h.symm⟩
  · obtain ⟨got, hm, hg⟩ := hg.resolvers
    have hshut := (shut_stmt h .resolverLogfileQueue).2
    refine ⟨got, by rwa [(stmt_history h _).2], ?_⟩
    rw [(stmt_history h _).1]
    by_cases hj : ∃ j, t = .resolver j
    · obtain ⟨j, rfl⟩ := hj
      have hin := hs.inCall_self h .resolverLog
      have hother (k : Fin S) (hk : k ≠ j) := heldLines_of_ne hs.fresh h .resolverLog
        (u := .resolver k) fun h => hk (Tid.resolver.inj h)
      cases h with
      | @resolver _ l e h =>
        have hl := h.lines (ht.resolver j) (hs.inCall _) .resolverLog
        rw [handedOver_comm fun hd => (h.lose ha hd).1] at hl
        refine (hg.work j [] (e.lost .resolverLog) (List.append_nil _).symm ?_ ?_
          fun k hk => ⟨rfl, hother k hk⟩).congr hshut (fun _ => rfl) (fun _ => rfl)
        · rw [heldLines, heldLines, hin]
          simp only [inCall, ownLines, inHand, unread, State.op, setResolver_self, List.append_nil]
          simpa only [List.append_assoc] using hl
        · intro hd
          exact shut_of_refused H (h.lose ha hd).2.choose_spec
    · exact hg.congr hshut (fun _ => rfl)
        fun k => heldLines_of_ne hs.fresh h _ fun h => hj ⟨k, h.symm⟩

/-- A move does not touch what a thread holds outside its call. -/
theorem heldLines_setQueue {m : Monitor (Tid R S) Str} (p : Logger) (u : Tid R S) :
    (s.setQueue q m).heldLines p u = (s.setQueue q m).inCall p u ++ s.ownLines p u := by
  cases u <;> rfl

/-- A move on one queue leaves what the other queues have accepted and delivered. -/
theorem acceptedLines_same {m : Monitor (Tid R S) Str}
    (h : (s.setQueue q m).acceptedLines q = s.acceptedLines q) (q' : QName) :
    (s.setQueue q m).acceptedLines q' = s.acceptedLines q' := by
  by_cases hq : q' = q
  · rw [hq, h]
  · exact acceptedLines_of_ne m hq

theorem deliveredLines_same {m : Monitor (Tid R S) Str}
    (h : (s.setQueue q m).deliveredLines q = s.deliveredLines q) (q' : QName) :
    (s.setQueue q m).deliveredLines q' = s.deliveredLines q' := by
  by_cases hq : q' = q
  · rw [hq, h]
  · exact deliveredLines_of_ne m hq

/-- A requester puts a line on its way to a log on the first queue of that way. -/
theorem entry_of_put {p : Logger} {i : Fin R} (hop : s.op (.requester i) = some (q, .put x))
    (hp : p.path q = true) : p.entry = q := by
  have h := op_put hop
  cases q with
  | filenameQueue => cases h.1
  | resolverLogfileQueue =>
    obtain ⟨j, hj, -⟩ := h
    cases hj
  | hostnameQueue | requesterLogfileQueue => cases p <;> first | rfl | cases hp

theorem put_entry {p : Logger} (hop : s.op t = some (p.entry, .put x)) :
    ∃ i, t = .requester i := by
  have h := op_put hop
  cases p with
  | requesterLog | resolverLog =>
    obtain ⟨i, hi, -⟩ := h
    exact ⟨i, hi⟩

/-- A queue takes the line of a thread in a call of `array_put` on it. -/
theorem Stages.accept (H : cfg.system.Reachable s) (hg : s.Stages cfg) {mv : Move (Tid R S)}
    {m : Monitor (Tid R S) Str} (h : (s.queue q).move cfg.arraySize t mv = some m)
    (hop : s.op t = some (q, .put x)) (hx : x ∈ (s.queue q).contents)
    (hb : ∀ p, s.inCall p t = if p.path q then x.src.lines else [])
    (hf : ∀ p, (s.setQueue q m).inCall p t = [])
    (hne : ∀ p u, u ≠ t → (s.setQueue q m).inCall p u = s.inCall p u)
    (hacc : (s.setQueue q m).acceptedLines q = s.acceptedLines q ++ x.src.lines)
    (hdel : (s.setQueue q m).deliveredLines q = s.deliveredLines q) :
    (s.setQueue q m).Stages cfg := by
  have ht := (wellTyped_reachable H).queue q x hx
  have hother (p : Logger) (u : Tid R S) (hu : u ≠ t) :
      (s.setQueue q m).heldLines p u = s.heldLines p u := by
    rw [heldLines_setQueue, hne p u hu, heldLines]
  have hhead (p : Logger) (hp : p.path q = true) : s.heldLines p t =
      x.src.lines ++ (s.setQueue q m).heldLines p t := by
    rw [heldLines_setQueue, hf, heldLines, hb, if_pos hp, List.nil_append]
  have hstay (p : Logger) (hp : p.path q = false) :
      (s.setQueue q m).heldLines p t = s.heldLines p t := by
    rw [heldLines_setQueue, hf, heldLines, hb, if_neg (by simp [hp])]
  constructor
  · intro p
    by_cases hq : p.entry = q
    · subst hq
      obtain ⟨l, hl⟩ : ∃ l, x.src = .line l := by
        cases p <;> exact ⟨_, ht.choose_spec.1⟩
      obtain ⟨i, rfl⟩ := put_entry hop
      have hh := hhead p (Logger.path_entry p)
      rw [hl] at hacc hh
      have hsend : Stage (s.shut p.entry) _
          (fun k => (s.setQueue p.entry m).heldLines p (.requester k)) _ :=
        (hg.requesters p).send i l (open_of_accepted (queue_inv H _) h hacc) hh fun k hk =>
          hother p _ fun he => hk (Tid.requester.inj he)
      rw [hacc]
      exact hsend.congr (shut_call h) (fun _ => rfl) (fun _ => rfl)
    · rw [acceptedLines_of_ne m hq]
      refine (hg.requesters p).congr (shut_call h) (fun _ => rfl) (fun i => ?_)
      by_cases hi : .requester i = t
      · subst hi
        apply hstay
        by_contra hp
        exact hq (entry_of_put hop (by simpa using hp))
      · exact hother p _ hi
  · obtain ⟨got, hm, hg⟩ := hg.resolvers
    refine ⟨got, by rwa [deliveredLines_same hdel], ?_⟩
    by_cases hq : q = .resolverLogfileQueue
    · subst hq
      obtain ⟨j, rfl, -⟩ := op_put hop
      obtain ⟨l, ip, hl, -⟩ := ht
      have hh := hhead .resolverLog rfl
      rw [hl] at hacc hh
      have hsend : Stage (s.shut .resolverLogfileQueue) _
          (fun k => (s.setQueue _ m).heldLines .resolverLog (.resolver k)) _ :=
        hg.send j l (open_of_accepted (queue_inv H _) h hacc) hh fun k hk =>
          hother _ _ fun he => hk (Tid.resolver.inj he)
      rw [hacc]
      exact hsend.congr (shut_call h) (fun _ => rfl) (fun _ => rfl)
    · rw [acceptedLines_of_ne m (Ne.symm hq)]
      refine hg.congr (shut_call h) (fun _ => rfl) fun j => hother _ _ ?_
      rintro rfl
      have hput := op_put hop
      cases q with
      | resolverLogfileQueue => exact hq rfl
      | filenameQueue => cases hput.1
      | hostnameQueue | requesterLogfileQueue =>
        obtain ⟨i, hi, -⟩ := hput
        cases hi

/-- A thread in a call of `array_get` takes a line from a queue. -/
theorem Stages.deliver (hg : s.Stages cfg) {mv : Move (Tid R S)} {m : Monitor (Tid R S) Str}
    (h : (s.queue q).move cfg.arraySize t mv = some m) (hop : s.op t = some (q, .get))
    (hb : ∀ p, s.inCall p t = [])
    (hf : ∀ p, (s.setQueue q m).inCall p t = if p.path q then x.src.lines else [])
    (hne : ∀ p u, u ≠ t → (s.setQueue q m).inCall p u = s.inCall p u)
    (hacc : (s.setQueue q m).acceptedLines q = s.acceptedLines q)
    (hdel : (s.setQueue q m).deliveredLines q = s.deliveredLines q ++ x.src.lines) :
    (s.setQueue q m).Stages cfg := by
  have hother (p : Logger) (u : Tid R S) (hu : u ≠ t) :
      (s.setQueue q m).heldLines p u = s.heldLines p u := by
    rw [heldLines_setQueue, hne p u hu, heldLines]
  constructor
  · intro p
    rw [acceptedLines_same hacc]
    refine (hg.requesters p).congr (shut_call h) (fun _ => rfl) fun i => ?_
    by_cases hi : .requester i = t
    · subst hi
      have hp : p.path q = false := by
        have hget := op_get hop
        cases q with
        | filenameQueue => cases p <;> rfl
        | hostnameQueue =>
          obtain ⟨j, hj, -⟩ := hget
          cases hj
        | _ => cases hget.1
      rw [heldLines_setQueue, hf, heldLines, hb, if_neg (by simp [hp])]
    · exact hother p _ hi
  · obtain ⟨got, hm, hg⟩ := hg.resolvers
    rw [acceptedLines_same hacc]
    by_cases hq : q = .hostnameQueue
    · subst hq
      obtain ⟨j, rfl, hj⟩ := op_get hop
      refine ⟨update got j (got j ++ x.src.lines), hdel ▸ hm.append j _, ?_⟩
      have hown : s.ownLines .resolverLog (.resolver j) = [] := by
        rw [ownLines, inHand, hj]
        rfl
      refine (hg.work j x.src.lines [] (update_self ..) ?_ (absurd rfl) fun k hk =>
        ⟨update_of_ne hk .., hother _ _ fun he => hk (Tid.resolver.inj he)⟩).congr
          (shut_call h) (fun _ => rfl) (fun _ => rfl)
      rw [heldLines_setQueue, hf, heldLines, hb, hown]
      simp [Logger.path]
    · refine ⟨got, by rwa [deliveredLines_of_ne m (Ne.symm hq)], ?_⟩
      refine hg.congr (shut_call h) (fun _ => rfl) fun j => hother _ _ ?_
      rintro rfl
      have hget := op_get hop
      cases q with
      | hostnameQueue => exact hq rfl
      | filenameQueue =>
        obtain ⟨i, hi, -⟩ := hget
        cases hi
      | _ => cases hget.1

theorem stages_reachable (ha : cfg.allocFails = false) (H : cfg.system.Reachable s) :
    s.Stages cfg := by
  induction H with
  | init h =>
    rw [h]
    refine ⟨fun p => ?_, fun _ => [], .nil, ?_⟩
    · cases p <;> exact Stage.init
    · exact Stage.init
  | @step s _ s' H h ih =>
    have hs := synced_reachable H
    rcases (step_cases h).2 with ⟨t, c, -, h'⟩ | ⟨q, t, mv, m, -, h', rfl⟩
    · exact ih.stmt ha H h'
    · cases lineView hs (queue_inv H q) h' with
      | stay same hacc hdel =>
        have hheld (p : Logger) (u : Tid R S) :
            (s.setQueue q m).heldLines p u = s.heldLines p u := by
          rw [heldLines_setQueue, same, heldLines]
        obtain ⟨got, hm, hg⟩ := ih.resolvers
        refine ⟨fun p => ?_, got, by rwa [deliveredLines_same hdel], ?_⟩
        · rw [acceptedLines_same hacc]
          exact (ih.requesters p).congr (shut_call h') (fun _ => rfl) fun _ => hheld ..
        · rw [acceptedLines_same hacc]
          exact hg.congr (shut_call h') (fun _ => rfl) fun _ => hheld ..
      | accept x hop hx hb hf hne hacc hdel => exact ih.accept H h' hop hx hb hf hne hacc hdel
      | deliver x hop hb hf hne hacc hdel => exact ih.deliver h' hop hb hf hne hacc hdel

/-! ## The log threads -/

/-- A log thread writes what it gets, in that order. -/
theorem logged_reachable (H : cfg.system.Reachable s) (k : Logger) :
    linesIn (s.logfile k) ++ (s.ownLines k (.logger k) ++ s.inCall k (.logger k)) =
      s.deliveredLines k.queue := by
  induction H with
  | init h =>
    rw [h]
    cases k <;> rfl
  | @step s _ s' H h ih =>
    have hs := synced_reachable H
    rcases (step_cases h).2 with ⟨t, c, -, h'⟩ | ⟨q, t, mv, m, -, h', rfl⟩
    · rw [(stmt_history h' _).2, ← ih]
      by_cases hk : .logger k = t
      · subst hk
        rw [hs.inCall_self h']
        cases h' with
        | @logger _ l e h' =>
          have hl := h'.lines k
          rw [if_pos rfl, if_pos rfl] at hl
          simp only [inCall, ownLines, inHand, unread, State.op, update_self, if_true,
            List.append_nil]
          rw [perform_logfile, List.append_assoc, hl]
          simp only [List.append_assoc]
      · rw [logfile_of_ne h' hk, inCall_of_ne hs.fresh h' k hk, ownLines_of_ne hs.fresh h' k hk]
    · have hown : (s.setQueue q m).ownLines k (.logger k) = s.ownLines k (.logger k) := rfl
      have hlog : (s.setQueue q m).logfile k = s.logfile k := rfl
      rw [hown, hlog]
      cases lineView hs (queue_inv H q) h' with
      | stay same hacc hdel => rw [same, deliveredLines_same hdel, ih]
      | accept x hop hx hb hf hne hacc hdel =>
        rw [deliveredLines_same hdel, ← ih, hne k]
        rintro rfl
        have hput := op_put hop
        cases q with
        | filenameQueue => cases hput.1
        | _ =>
          obtain ⟨i, hi, -⟩ := hput
          cases hi
      | deliver x hop hb hf hne hacc hdel =>
        have hget := op_get hop
        by_cases hk : .logger k = t
        · subst hk
          have hq : k.queue = q ∧ s.logger k = .get := by
            cases q with
            | filenameQueue | hostnameQueue =>
              obtain ⟨i, hi, -⟩ := hget
              cases hi
            | _ =>
              obtain ⟨hi, hl⟩ := hget
              cases hi
              exact ⟨rfl, hl⟩
          obtain ⟨rfl, hl⟩ := hq
          have h0 : s.ownLines k (.logger k) = [] := by
            rw [ownLines, inHand, hl]
            simp [LoggerLoc.holds, unread]
          rw [hb, h0] at ih
          rw [hdel, ← ih, hf, h0, if_pos (Logger.path_queue k)]
          simp
        · have hq : k.queue ≠ q := by
            rintro rfl
            apply hk
            cases k with
            | requesterLog | resolverLog => exact hget.1.symm
          rw [deliveredLines_of_ne m hq, ← ih, hne k _ hk]

theorem logged_accepted (H : cfg.system.Reachable s) (k : Logger) :
    linesIn (s.logfile k) <+: s.acceptedLines k.queue := by
  rw [acceptedLines_eq H, ← logged_reachable H k, List.append_assoc]
  exact List.prefix_append ..

/-! ## The logs -/

/-- At any time the lines of the requester log are a merge of first parts of what the requesters
read; those of the resolver log are a merge of first parts of what the resolvers got, which is a
merge of first parts of what the requesters read. -/
theorem logs_merge (ha : cfg.allocFails = false) (H : cfg.system.Reachable s) :
    (∃ parts, IsMerge parts (linesIn (s.logfile .requesterLog)) ∧
      ∀ i, parts i <+: (s.requester i).opened.flatMap (cfg.fileLines i)) ∧
    ∃ parts : Fin R → List Line, ∃ got logged : Fin S → List Line, ∃ taken,
      IsMerge parts taken ∧ (∀ i, parts i <+: (s.requester i).opened.flatMap (cfg.fileLines i)) ∧
      IsMerge got taken ∧ IsMerge logged (linesIn (s.logfile .resolverLog)) ∧
      ∀ j, logged j <+: got j := by
  have hg := stages_reachable ha H
  obtain ⟨got, hgot, hv⟩ := hg.resolvers
  obtain ⟨parts, hp, hpre⟩ := (hg.requesters .resolverLog).merge_parts
    (l := s.deliveredLines .hostnameQueue) (by
      rw [Logger.entry, acceptedLines_eq H]
      exact List.prefix_append ..)
  obtain ⟨logged, hl, hlpre⟩ := hv.merge_parts (logged_accepted H .resolverLog)
  exact ⟨(hg.requesters .requesterLog).merge_parts (logged_accepted H .requesterLog),
    parts, got, logged, _, hp, hpre, hgot, hl, hlpre⟩

end State

namespace Process
open State
variable {p : Process R S}

/-- Whenever a signal comes, and as long as its handler and the threads run on, the logs have no
gaps: what each requester has in the requester log is a first part of what it reads; what each
resolver has in the resolver log is a first part of what it got, and what the resolvers got has a
first part of what each requester reads. -/
theorem no_gaps (ha : cfg.allocFails = false) (H : cfg.process.Reachable p) :
    (∃ parts, IsMerge parts ((p.state.logfile .requesterLog).map Str.bytes) ∧
      ∀ i, parts i <+: (p.state.requester i).opened.flatMap cfg.hosts) ∧
    ∃ parts : Fin R → List Bytes, ∃ got logged : Fin S → List Bytes, ∃ taken,
      ∃ recs : List (Bytes × Option Bytes),
      IsMerge parts taken ∧ (∀ i, parts i <+: (p.state.requester i).opened.flatMap cfg.hosts) ∧
      IsMerge got taken ∧ IsMerge logged (recs.map Prod.fst) ∧ (∀ j, logged j <+: got j) ∧
      (p.state.logfile .resolverLog).map Str.bytes = recs.map (fun r => record r.1 r.2) ∧
      ∀ r ∈ recs, cfg.answers r.1 r.2 = true := by
  have H' := state_reachable H
  have ht := wellTyped_reachable H'
  have ha' : cfg.interruptible.allocFails = false := ha
  obtain ⟨⟨reqs, hm, hpre⟩, parts, got, logged, taken, hp, hppre, hgot, hl, hlpre⟩ :=
    logs_merge ha' H'
  have hhost (f : Fin R → List Line)
      (h : ∀ i, f i <+: (p.state.requester i).opened.flatMap (cfg.interruptible.fileLines i))
      (i : Fin R) : (f i).map Line.host <+: (p.state.requester i).opened.flatMap cfg.hosts := by
    have := (h i).map Line.host
    rwa [hosts_of_lines] at this
  obtain ⟨recs, h1, h2, h3⟩ := linesIn_records (ht.written .resolverLog)
  constructor
  · refine ⟨fun i => (reqs i).map Line.host, ?_, hhost reqs hpre⟩
    rw [linesIn_bytes (ht.written .requesterLog)]
    exact hm.map Line.host
  · refine ⟨fun i => (parts i).map Line.host, fun j => (got j).map Line.host,
      fun j => (logged j).map Line.host, taken.map Line.host,
      recs.map fun r => (r.1.host, r.2), hp.map _, hhost parts hppre, hgot.map _, ?_,
      fun j => (hlpre j).map _, ?_, fun r hr => ?_⟩
    · have hl' := hl.map Line.host
      rw [← h1, List.map_map] at hl'
      rwa [List.map_map]
    · rw [h2, List.map_map]
      rfl
    · obtain ⟨r', hr', rfl⟩ := List.mem_map.1 hr
      rcases h3 r' hr' with h | ⟨-, h⟩
      · exact h
      · exact absurd (ha.symm.trans h) nofun

/-- The handler has called `exit` with the last hostname in neither log. -/
theorem no_gaps_interrupted : ∃ p, sample.process.Reachable p ∧ p.exited = true ∧
    (p.state.requester 0).opened.flatMap sample.hosts = [[97], [98], [99]] ∧
    (p.state.logfile .requesterLog).map Str.bytes = [[97], [98]] ∧
    (p.state.logfile .resolverLog).length = 2 ∧
    ∃ parts : Fin 1 → List Bytes, IsMerge parts [[97], [98]] ∧ ∀ i,
      parts i <+: (p.state.requester i).opened.flatMap sample.hosts := by
  have h : ∃ p ∈ schedule sample sampleDns .main (interruptedBusy 0 0), p.exited = true ∧
      (p.state.requester 0).opened.flatMap sample.hosts = [[97], [98], [99]] ∧
      (p.state.logfile .requesterLog).map Str.bytes = [[97], [98]] ∧
      (p.state.logfile .resolverLog).length = 2 := by decide +kernel
  obtain ⟨p, hp, hx, ho, hl, hn⟩ := h
  have H := schedule_reachable hp
  obtain ⟨hreq, -⟩ := no_gaps rfl H
  rw [hl] at hreq
  exact ⟨p, H, hx, ho, hl, hn, hreq⟩

end Process
end DnsResolver
