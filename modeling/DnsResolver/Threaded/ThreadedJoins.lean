import DnsResolver.Threaded.ThreadedStatistics

/-!
# The joins of `main`

`main` joins the requesters, the resolvers and the log threads in their order, one handle each,
whether or not their creation went through (`joined_eq`). So it joins exactly the threads that were
created where every creation went through (`joins_exact_iff`). The logs are complete as soon as one
requester and one resolver were created. -/

namespace DnsResolver
open Function

variable {R S : Nat} {cfg : Config R S} {s s' : State R S} {t u : Tid R S} {q : QName}
  {e : Effect R S}

def MainLoc.loggersJoined : MainLoc → List Logger
  | .joinLogger .resolverLog => [.requesterLog]
  | .returned => [.requesterLog, .resolverLog]
  | _ => []

/-- The handles that `main` has passed to `pthread_join`, in their order. -/
def MainLoc.joinedBy (l : MainLoc) : List (Tid R S) :=
  ((List.finRange R).take (l.requestersJoined R)).map .requester ++
  ((List.finRange S).take (l.resolversJoined S)).map .resolver ++ l.loggersJoined.map .logger

namespace State

/-- `main` has still to come to the creation of the thread. -/
def toCreate (s : State R S) : Tid R S → Bool
  | .requester i => s.main.toCreateRequester i
  | .resolver j => s.main.toCreateResolver j
  | .logger k => s.main.toCreateLogger k
  | _ => true

/-- A `pthread_create` has filled in the handle of the thread. -/
def created (s : State R S) : Tid R S → Bool
  | .requester i => (s.requester i).loc != .idle && (s.requester i).loc != .failed
  | .resolver j => (s.resolver j).loc != .idle
  | .logger k => s.logger k != .idle
  | _ => false

/-- No `pthread_create` has failed so far. -/
def AllCreated (s : State R S) : Prop := ∀ t, s.toCreate t = false → s.created t = true

/-- The logs have exactly one entry for each line of the opened files, which are all the readable
ones where each of them can be opened. -/
structure LogsExact (cfg : Config R S) (s : State R S) : Prop where
  requesterLog : ((s.logfile .requesterLog).map Str.bytes : Multiset Bytes) =
    (s.openedLines cfg).map Line.host
  resolverLog : ∃ recs : List (Line × Option Bytes),
    (recs.map Prod.fst : Multiset Line) = s.openedLines cfg ∧
    (s.logfile .resolverLog).map Str.bytes = recs.map (fun r => record r.1.host r.2) ∧
    ∀ r ∈ recs, cfg.answers r.1.host r.2 = true
  opened : cfg.openFails = false →
    ∑ i, ((s.requester i).opened : Multiset Nat) = cfg.enqueued cfg.files.length

/-- `main` joins only threads that were created, each once, and when it returns it has joined all
of them and the logs are exact. -/
structure JoinsExact (cfg : Config R S) (s : State R S) : Prop where
  nodup : s.joined.Nodup
  created : ∀ t ∈ s.joined, s.created t = true
  all : s.main = .returned → ∀ t, s.created t = true → t ∈ s.joined
  logs : s.main = .returned → s.LogsExact cfg

end State

/-! ## The handles that `main` joins -/

theorem MainStep.join {l l' : MainLoc} (h : MainStep cfg s l l' e) :
    (l.joinedBy : List (Tid R S)) ++ e.join = l'.joinedBy := by
  cases h with
  | joinRequester hi => simp [MainLoc.joinedBy, MainLoc.requestersJoined, MainLoc.resolversJoined,
      MainLoc.loggersJoined, take_finRange_succ hi]
  | joinResolver hj => simp [MainLoc.joinedBy, MainLoc.requestersJoined, MainLoc.resolversJoined,
      MainLoc.loggersJoined, take_finRange_succ hj]
  | requestersJoined hi => simp [MainLoc.joinedBy, MainLoc.requestersJoined,
      MainLoc.resolversJoined, MainLoc.loggersJoined, take_finRange hi]
  | resolversJoined hj => simp [MainLoc.joinedBy, MainLoc.requestersJoined,
      MainLoc.resolversJoined, MainLoc.loggersJoined, take_finRange hj]
  | joinRequesterLog | joinResolverLog => simp [MainLoc.joinedBy, MainLoc.requestersJoined,
      MainLoc.resolversJoined, MainLoc.loggersJoined]
  | _ => exact List.append_nil _

/-- Only `main` joins. -/
theorem RequesterStep.join {i : Fin R} {l l' : RequesterLoc} (h : RequesterStep cfg s i l l' e) :
    e.join = [] := by
  cases h <;> rfl

theorem ResolverStep.join {j : Fin S} {l l' : ResolverLoc} (h : ResolverStep cfg s j l l' e) :
    e.join = [] := by
  cases h <;> rfl

theorem LoggerStep.join {k : Logger} {l l' : LoggerLoc} (h : LoggerStep s k l l' e) :
    e.join = [] := by
  cases h <;> rfl

theorem MainLoc.joinedBy_nodup (l : MainLoc) : (l.joinedBy : List (Tid R S)).Nodup := by
  have hr : ((List.finRange R).take (l.requestersJoined R)).Nodup :=
    (List.nodup_finRange R).sublist (List.take_sublist ..)
  have hv : ((List.finRange S).take (l.resolversJoined S)).Nodup :=
    (List.nodup_finRange S).sublist (List.take_sublist ..)
  have hl : l.loggersJoined.Nodup := by
    unfold loggersJoined
    split <;> simp
  refine ((hr.map fun _ _ => Tid.requester.inj).append (hv.map fun _ _ => Tid.resolver.inj)
    fun t h1 h2 => ?_).append (hl.map fun _ _ => Tid.logger.inj) fun t h1 h2 => ?_
  · obtain ⟨i, -, rfl⟩ := List.mem_map.1 h1
    obtain ⟨j, -, hj⟩ := List.mem_map.1 h2
    cases hj
  · obtain ⟨k, -, rfl⟩ := List.mem_map.1 h2
    rcases List.mem_append.1 h1 with h1 | h1
    · obtain ⟨i, -, hi⟩ := List.mem_map.1 h1
      cases hi
    · obtain ⟨j, -, hj⟩ := List.mem_map.1 h1
      cases hj

namespace State

theorem joined_eq (H : cfg.system.Reachable s) : s.joined = s.main.joinedBy := by
  induction H with
  | init h =>
    rw [h]
    rfl
  | @step s _ s' H h ih =>
    rcases (step_cases h).2 with ⟨t, c, -, h'⟩ | ⟨_, _, _, _, -, -, rfl⟩
    · cases h' with
      | @main l e hl =>
        rw [← hl.join, ← ih]
        cases e.spawn <;> rfl
      | requester hl => simp [setRequester, perform, hl.join, ih]
      | resolver hl => simp [setResolver, perform, hl.join, ih]
      | logger hl => simp [perform, hl.join, ih]
      | outsiderFree | outsiderDone => simp [perform, ih]
    · exact ih

/-- When `main` joins a thread it has come past its creation. -/
theorem toCreate_joined {l : MainLoc} (h : t ∈ (l.joinedBy : List (Tid R S))) (hs : s.main = l) :
    s.toCreate t = false := by
  simp only [MainLoc.joinedBy, List.mem_append, List.mem_map] at h
  rcases h with (⟨i, hi, rfl⟩ | ⟨j, hj, rfl⟩) | ⟨k, hk, rfl⟩
  · simp only [toCreate, hs]
    cases l <;> first | rfl | simp [MainLoc.requestersJoined] at hi
  · simp only [toCreate, hs]
    cases l <;> first | rfl | simp [MainLoc.resolversJoined] at hj
  · simp only [toCreate, hs]
    cases l <;> cases k <;> first | rfl | simp [MainLoc.loggersJoined] at hk

/-- When `main` returns it has joined every thread. -/
theorem joined_returned (H : cfg.system.Reachable s) (hm : s.main = .returned)
    (ht : s.toCreate t = false) : t ∈ s.joined := by
  rw [joined_eq H, hm]
  cases t with
  | main | outsider q => cases ht
  | requester i => simp [MainLoc.joinedBy, MainLoc.requestersJoined, List.take_of_length_le]
  | resolver j => simp [MainLoc.joinedBy, MainLoc.resolversJoined, List.take_of_length_le]
  | logger k => cases k <;> simp [MainLoc.joinedBy, MainLoc.loggersJoined]

/-- A created thread is one whose creation `main` has come past. -/
theorem toCreate_created (H : s.Fresh) (h : s.created t = true) : s.toCreate t = false := by
  by_contra hn
  rw [Bool.not_eq_false] at hn
  cases t with
  | main | outsider q => cases h
  | requester i => simp [created, H.requester i hn] at h
  | resolver j => simp [created, H.resolver j hn] at h
  | logger k => simp [created, H.logger k hn] at h

/-- One requester and one resolver are enough for complete logs. -/
theorem logsExact_returned (ho : cfg.outsiders = false) (ha : cfg.allocFails = false)
    (H : cfg.system.Reachable s) (hm : s.main = .returned)
    (hr : ∃ i, s.created (.requester i) = true) (hv : ∃ j, s.created (.resolver j) = true) :
    s.LogsExact cfg := by
  have hr : ∃ i, (s.requester i).loc ≠ .failed := by
    obtain ⟨i, hi⟩ := hr
    exact ⟨i, by simpa using (Bool.and_eq_true_iff.1 hi).2⟩
  have hv : ∃ j, (s.resolver j).loc ≠ .idle := by
    obtain ⟨j, hj⟩ := hv
    exact ⟨j, by simpa [created] using hj⟩
  obtain ⟨h1, h2⟩ := (exactly_once H ho).2.2.2 hm ha (.inr hv)
  refine ⟨h1, h2, fun hopen => ?_⟩
  rw [← taken_of_drained ho ha hopen H hm (drained_returned hr hv H hm _),
    ← (filePath_reachable H).merge.sum_eq]
  refine Finset.sum_congr rfl fun i _ => ?_
  rw [got_returned H hm, opened_returned hopen H hm]

theorem joinsExact_of_created (ho : cfg.outsiders = false) (ha : cfg.allocFails = false)
    (H : cfg.system.Reachable s) (hc : s.AllCreated) : s.JoinsExact cfg := by
  have hj := joined_eq H
  refine ⟨hj ▸ MainLoc.joinedBy_nodup _, fun t ht => ?_, fun hm t ht => ?_, fun hm => ?_⟩
  · exact hc t (toCreate_joined (hj ▸ ht) rfl)
  · exact joined_returned H hm (toCreate_created (synced_reachable H).fresh ht)
  · refine logsExact_returned ho ha H hm ⟨⟨0, cfg.requesters_pos⟩, hc _ ?_⟩
      ⟨⟨0, cfg.resolvers_pos⟩, hc _ ?_⟩
    · simp [toCreate, hm, MainLoc.toCreateRequester]
    · simp [toCreate, hm, MainLoc.toCreateResolver]

/-- Every state of a run in which no creation has failed joins created threads only; a run that
comes to the end of `main` has joined exactly the created threads, each once, if and only if no
creation failed. The logs are exact as soon as one requester and one resolver were created. -/
theorem joins_exact_iff (ho : cfg.outsiders = false) (ha : cfg.allocFails = false)
    (H : cfg.system.Reachable s) :
    (s.AllCreated → s.JoinsExact cfg) ∧
    (s.main = .returned → (s.JoinsExact cfg ↔ s.AllCreated) ∧
      ((∃ i, s.created (.requester i) = true) → (∃ j, s.created (.resolver j) = true) →
        s.LogsExact cfg)) := by
  refine ⟨joinsExact_of_created ho ha H, fun hm => ⟨⟨fun hJ t ht => ?_, ?_⟩, ?_⟩⟩
  · exact hJ.created t (joined_returned H hm ht)
  · exact joinsExact_of_created ho ha H
  · exact logsExact_returned ho ha H hm

theorem joins_exact_sample : ∃ s, sample.system.Reachable s ∧ s.main = .returned ∧
    s.AllCreated ∧ s.JoinsExact sample := by
  have h : ∃ s ∈ schedule sample sampleDns (sampleRun 0 0),
      s.main = .returned ∧ ∀ t, s.toCreate t = false → s.created t = true := by decide +kernel
  obtain ⟨s, hs, hm, hc⟩ := h
  have hr := schedule_reachable hs
  exact ⟨s, hr, hm, hc, ((joins_exact_iff rfl rfl hr).2 hm).1.2 hc⟩

/-- Two requesters, the first of which cannot be created, one resolver, and a file of one line. -/
def oneReader : Config 2 1 where
  arraySize := 8
  two_le := two_le_arraySize
  requesters_pos := Nat.two_pos
  resolvers_pos := Nat.one_pos
  files := [[102]]
  fs n := if n = [102] then some [97, 10] else none
  answers _ a := a = none
  createFails := true

/-- `main` fails to create requester 0, creates the other threads and puts the filename, which
requester 1 gets; then `main` comes to the join of the first handle. -/
def oneReaderRun (r : Tid 2 1) : List (Act 2 1) :=
  List.replicate 4 (.stmt .main .ok) ++ .stmt .main .fail ::
  List.replicate 5 (.stmt .main .ok) ++ List.replicate 6 (.call .filenameQueue .main (.run none)) ++
  .stmt r .ok :: List.replicate 9 (.call .filenameQueue r (.run none)) ++
  List.replicate 4 (.stmt .main .ok) ++ List.replicate 8 (.call .filenameQueue .main (.run none)) ++
  List.replicate 2 (.stmt .main .ok)

theorem joins_not_always : ¬ ∀ (cfg : Config 2 1) (s : State 2 1), cfg.outsiders = false →
    cfg.allocFails = false → (∃ name ∈ cfg.files, (cfg.fs name).isSome = true) →
    cfg.system.Reachable s → (∀ k, s.created (.logger k) = true) →
    (∃ i, s.created (.requester i) = true) → (∃ j, s.created (.resolver j) = true) →
    s.JoinsExact cfg := by
  intro H
  have h : ∃ s ∈ TransitionSystem.exec (step oneReader) (oneReaderRun (.requester 1)) .init,
      (∀ k, s.created (.logger k) = true) ∧ s.created (.requester 1) = true ∧
      s.created (.resolver 0) = true ∧ .requester 0 ∈ s.joined ∧
      s.created (.requester 0) = false := by decide +kernel
  obtain ⟨s, hs, hk, hr, hv, hj, h0⟩ := h
  have hf : ∃ name ∈ oneReader.files, (oneReader.fs name).isSome = true :=
    ⟨[102], by decide, rfl⟩
  have hJ := H oneReader s rfl rfl hf (TransitionSystem.reachable_exec hs) hk ⟨1, hr⟩ ⟨0, hv⟩
  exact absurd (h0.symm.trans (hJ.created _ hj)) nofun

end State
end DnsResolver
