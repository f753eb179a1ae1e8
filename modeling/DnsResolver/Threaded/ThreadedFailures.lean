import DnsResolver.Threaded.ThreadedFairness
import DnsResolver.Threaded.ThreadedLastReader
import DnsResolver.Threaded.ThreadedMemory
import DnsResolver.Threaded.ThreadedJoins

/-!
# Runs in which something fails

`main` goes on when a requester or a resolver cannot be created, and gives up when a log thread
cannot be, or its tables. Whatever has failed, and whatever fails later, the end is in reach as soon
as there are threads of both kinds and `main` creates no more, and also when it gives up; then no
string has ever been allocated and the logs are empty (`can_end`). The join of a thread that was not
created is undefined, so the runs go no further than to the first one (`Defined`). -/

namespace DnsResolver
open Function Tally

variable {R S : Nat} {cfg : Config R S} {s s' : State R S} {t u : Tid R S} {q : QName}
  {e : Effect R S}

/-! ## Before `active_file_readers` is set -/

theorem MainLoc.toCreate_of_readers {l : MainLoc} (h : l.readersSet = false) :
    (∀ i, l.toCreateRequester i = true) ∧ ∀ j, l.toCreateResolver j = true := by
  cases l <;> first | exact ⟨fun _ => rfl, fun _ => rfl⟩ | cases h

theorem MainLoc.readers_of_aborting {l : MainLoc} (h : l.aborting = true) :
    l.readersSet = false := by
  cases l <;> first | rfl | cases h

/-- `main` allocates only filenames. -/
theorem MainStep.alloc_none {l l' : MainLoc} (h : MainStep cfg s l l' e)
    (hl : l.readersSet = false) : e.alloc = none := by
  cases h <;> first | rfl | cases hl

namespace State

/-- Nothing has been allocated and nothing logged. -/
def Untouched (s : State R S) : Prop := s.nextAddr = 0 ∧ ∀ k, s.logfile k = []

theorem Untouched.total (H : cfg.system.Reachable s) (h : s.Untouched) : s.total = 0 := by
  have hn := nextAddr_eq H
  rw [h.1] at hn
  exact Multiset.card_eq_zero.1 (by omega)

/-- No thread holds a string, and no queue. -/
theorem Untouched.owns (H : cfg.system.Reachable s) (h : s.Untouched) (t : Tid R S) :
    s.owns t = [] := by
  have ht := h.total H
  rw [total_eq, add_eq_zero, Finset.sum_eq_zero_iff] at ht
  exact Multiset.coe_eq_zero _ |>.1 (ht.1 t (Finset.mem_univ t))

theorem Untouched.items (H : cfg.system.Reachable s) (h : s.Untouched) (q : QName) :
    (s.queue q).items = [] := by
  have ht := h.total H
  rw [State.total, add_eq_zero, Finset.sum_eq_zero_iff, Finset.sum_eq_zero_iff] at ht
  exact Multiset.coe_eq_zero _ |>.1 (ht.2 q (Finset.mem_univ q))

/-- Until `main` has set `active_file_readers` there are no readers. -/
theorem untouched (H : cfg.system.Reachable s) (hm : s.main.readersSet = false) :
    s.Untouched := by
  induction H with
  | init h =>
    rw [h]
    exact ⟨rfl, fun k => rfl⟩
  | @step s a s' H h ih =>
    have hf := (synced_reachable H).fresh
    rcases (step_cases h).2 with ⟨t, c, -, h'⟩ | ⟨_, _, _, _, -, -, rfl⟩
    · have hm0 : s.main.readersSet = false := by
        rw [← Bool.not_eq_true]
        intro hn
        exact absurd (hm.symm.trans (readersSet_stmt h' hn)) (by decide)
      have hu := ih hm0
      obtain ⟨hr, hv⟩ := MainLoc.toCreate_of_readers hm0
      cases h' with
      | main hl =>
        refine ⟨?_, ?_⟩
        · simp only [spawn_same, perform, hl.alloc_none hm0]
          exact hu.1
        · intro k
          simp only [spawn_same, perform, hl.write]
          exact hu.2 k
      | @requester i _ _ hl =>
        rw [hf.requester i (hr i)] at hl
        cases hl
      | @resolver j _ _ hl =>
        rw [hf.resolver j (hv j)] at hl
        cases hl
      | @logger n l e hl =>
        have ho : (s.logger n).owns = [] := hu.owns H (.logger n)
        generalize s.logger n = l₀ at hl ho
        cases hl with
        | write => cases ho
        | _ => exact hu
      | _ => exact hu
    · exact ih hm

/-- What `main` frees when it gives up is empty, so it does not wait long. -/
theorem Stuck.exited (J : s.Stuck cfg) (H : cfg.system.Reachable s)
    (ha : s.main.aborting = true) : s.main = .exited := by
  have hu := untouched H (MainLoc.readers_of_aborting ha)
  have hstmt := J.stmt .main .ok
  simp only [State.stmt, Option.map_eq_none_iff] at hstmt
  cases hmain : s.main with
  | exited => rfl
  | abort qs =>
    rw [hmain] at hstmt
    cases qs <;> cases hstmt
  | abortFree q qs =>
    have hop : s.op .main = some (q, .free) := by rw [op, hmain]; rfl
    have he := (queue_inv H q).empty_iff.2 (hu.items H q)
    exact absurd ((J.free H hop).2.symm.trans he) (by decide)
  | _ =>
    rw [hmain] at ha
    cases ha

/-! ## The end stays in reach -/

/-- `main` gives up, or it creates no more threads and there are some of both kinds. -/
def Settled (s : State R S) : Prop :=
  s.main.aborting = true ∨ s.main.enqueued = true ∧
    (∃ i, s.created (.requester i) = true) ∧ ∃ j, s.created (.resolver j) = true

/-- A thread that was created stays so. -/
theorem created_stmt (H : s.Fresh) (h : Stmt cfg s t s') (hu : s.created u = true) :
    s'.created u = true := by
  by_cases hut : u = t
  · subst hut
    cases h with
    | main | outsiderFree | outsiderDone => cases hu
    | requester hl => simpa [created] using hl.running
    | resolver hl => simpa [created] using hl.running
    | logger hl => simpa [created] using hl.running
  · have ho := h.other H hut
    cases u with
    | main | outsider q => cases hu
    | requester i =>
      rcases ho.2 with he | ⟨he, -⟩
      · rwa [created, he]
      · simp [created, he] at hu
    | resolver j =>
      rcases ho.2 with he | ⟨he, -⟩
      · rwa [created, he]
      · simp [created, he] at hu
    | logger k =>
      rcases ho with he | ⟨he, -⟩
      · rwa [created, he]
      · simp [created, he] at hu

theorem created_leads (H : cfg.system.Reachable s) (h : cfg.system.Leads s s')
    (hu : s.created u = true) : s'.created u = true := by
  refine h.stable (I := fun s => s.created u = true) (fun s a s' H h hu => ?_) H hu
  rcases (step_cases h).2 with ⟨t, c, -, h'⟩ | ⟨_, _, _, _, -, -, rfl⟩
  · exact created_stmt (synced_reachable H).fresh h' hu
  · exact hu

theorem enqueued_leads (H : cfg.system.Reachable s) (h : cfg.system.Leads s s')
    (hm : s.main.enqueued = true) : s'.main.enqueued = true := by
  refine h.stable (I := fun s => s.main.enqueued = true) (fun s a s' H h hm => ?_) H hm
  rcases (step_cases h).2 with ⟨t, c, -, h'⟩ | ⟨_, _, _, _, -, -, rfl⟩
  · exact h'.main_stages.2.1 hm
  · exact hm

theorem Settled.leads (H : cfg.system.Reachable s) (h : cfg.system.Leads s s') (hs : s.Settled) :
    s'.Settled := by
  rcases hs with ha | ⟨hm, ⟨i, hi⟩, ⟨j, hj⟩⟩
  · exact .inl (aborting_leads H h ha)
  · exact .inr ⟨enqueued_leads H h hm, ⟨i, created_leads H h hi⟩, ⟨j, created_leads H h hj⟩⟩

/-- A settled program that is stuck has come to its end. -/
theorem Stuck.ended (J : s.Stuck cfg) (ho : cfg.outsiders = false)
    (hans : ∀ host, ∃ a, cfg.answers host a = true) (H : cfg.system.Reachable s)
    (hs : s.Settled) : s.main = .returned ∨ s.main = .exited := by
  rcases hs with ha | ⟨hm, ⟨i, hi⟩, ⟨j, hj⟩⟩
  · exact .inr (J.exited H ha)
  · have hi : (s.requester i).loc ≠ .failed := by simpa using (Bool.and_eq_true_iff.1 hi).2
    have hj : (s.resolver j).loc ≠ .idle := by simpa [created] using hj
    refine .inl (J.returned_of_created H hans ?_ hm ⟨i, hi⟩ ⟨j, hj⟩)
    intro h0
    rcases exists_last ho H h0 with hl | hall
    · exact hl
    · exact absurd (hall i) hi

theorem ended_iff : s.ended = true ↔ s.main = .returned ∨ s.main = .exited := by
  simp [ended]

/-- From a settled state the end can be reached, if `main` goes on after every join. -/
theorem can_finish (ho : cfg.outsiders = false) (hans : ∀ host, ∃ a, cfg.answers host a = true)
    (H : cfg.system.Reachable s) (hs : s.Settled) :
    ∃ s', (prompted cfg).Leads s s' ∧ (s'.main = .returned ∨ s'.main = .exited) := by
  have hstep (u : State R S) (Hu : cfg.system.Reachable u ∧ u.Settled) (hm : ¬ u.ended = true) :
      ∃ u', (prompted cfg).Leads u u' ∧ (cfg.system.Reachable u' ∧ u'.Settled) ∧
        u'.remaining cfg < u.remaining cfg := by
    have hp : u.CanProgress cfg := by
      by_contra hn
      have J := stuck_of_not_canProgress ho Hu.1 (by simpa using hm) hn
      exact hm (ended_iff.2 (J.ended ho hans Hu.1 Hu.2))
    obtain ⟨s₁, h1, a, s₂, ha, h2⟩ := hp
    have H1 := Hu.1.leads h1.of_restrict
    have h2' : (prompted cfg).step s₁ a s₂ := ⟨stepsOf_productive ha, h2⟩
    have hl := (h1.restrict_mono fun _ _ => stepsOf_futile).tail h2'
    exact ⟨s₂, hl, ⟨H1.step h2, Hu.2.leads Hu.1 hl.of_restrict⟩,
      (remaining_lt ho H1 ha h2).trans_le (remaining_leads Hu.1 h1)⟩
  obtain ⟨s', h, -, he⟩ := TransitionSystem.Leads.until (remaining cfg) hstep ⟨H, hs⟩
  exact ⟨s', h, ended_iff.1 he⟩

end State

/-! ## Up to the join of a thread that was not created -/

/-- The thread that `main` is about to join. -/
def MainLoc.joins : MainLoc → Option (Tid R S)
  | .joinRequester i => if h : i < R then some (.requester ⟨i, h⟩) else none
  | .joinResolver j => if h : j < S then some (.resolver ⟨j, h⟩) else none
  | .joinLogger k => some (.logger k)
  | _ => none

theorem MainLoc.joins_of_aborting {l : MainLoc} (h : l.aborting = true) :
    (l.joins : Option (Tid R S)) = none := by
  cases l <;> first | rfl | cases h

theorem MainLoc.mem_joins {l : MainLoc} (h : t ∈ l.joins) : t ≠ .main ∧ ∀ q, t ≠ .outsider q := by
  unfold joins at h
  split at h
  · split at h <;> cases h
    exact ⟨nofun, nofun⟩
  · split at h <;> cases h
    exact ⟨nofun, nofun⟩
  · cases h
    exact ⟨nofun, nofun⟩
  · cases h

namespace State

/-- `main` is about to pass a handle to `pthread_join` that no `pthread_create` has filled in. -/
def JoinsUncreated (s : State R S) : Prop := ∃ t ∈ s.main.joins, s.created t = false

/-- The step is not the join of a thread that was not created. -/
def Defined (s : State R S) (a : Act R S) : Prop := s.JoinsUncreated → a.thread ≠ .main

instance : Decidable s.JoinsUncreated :=
  inferInstanceAs (Decidable (∃ t ∈ s.main.joins, s.created t = false))

instance (s : State R S) (a : Act R S) : Decidable (s.Defined a) :=
  inferInstanceAs (Decidable (s.JoinsUncreated → a.thread ≠ .main))

theorem JoinsUncreated.of_not_defined {a : Act R S} (h : ¬ s.Defined a) : s.JoinsUncreated := by
  by_contra hn
  exact h fun hj => absurd hj hn

theorem not_joinsUncreated_of_aborting (h : s.main.aborting = true) : ¬ s.JoinsUncreated := by
  rintro ⟨t, ht, -⟩
  rw [MainLoc.joins_of_aborting h] at ht
  cases ht

/-- Where all threads were created no join is undefined. -/
theorem AllCreated.joins (hc : s.AllCreated) (hm : s.main.enqueued = true)
    (H : cfg.system.Reachable s) (h : cfg.system.Leads s s') : ¬ s'.JoinsUncreated := by
  rintro ⟨t, hj, ht⟩
  obtain ⟨hk, hr, hv, -⟩ := MainLoc.created_of_enqueued hm
  have hcreate : s.toCreate t = false := by
    cases t with
    | main => exact absurd rfl (MainLoc.mem_joins hj).1
    | outsider q => exact absurd rfl ((MainLoc.mem_joins hj).2 q)
    | requester i => exact hr i
    | resolver j => exact hv j
    | logger k => exact hk k
  rw [created_leads H h (hc t hcreate)] at ht
  cases ht

/-- **The end in spite of failures.** Whatever allocations, openings of files and creations of
threads fail: when `main` gives up, it can still exit, and then nothing was ever allocated or
logged; when it creates no more threads and has created some of both kinds, it can still come to its
return or to the join of a thread that was not created, and to its return if all were created. -/
theorem can_end (ho : cfg.outsiders = false) (hans : ∀ host, ∃ a, cfg.answers host a = true)
    (H : (cfg.system.restrict Defined).Reachable s) (hs : s.Settled) :
    ∃ s', ((prompted cfg).restrict Defined).Leads s s' ∧
      (s.main.aborting = true → s'.main = .exited ∧ s'.nextAddr = 0 ∧ ∀ k, s'.logfile k = []) ∧
      (s.main.enqueued = true → s'.main = .returned ∨ s'.JoinsUncreated) ∧
      (s.main.enqueued = true → s.AllCreated → s'.main = .returned) := by
  obtain ⟨s', h, he⟩ := can_finish ho hans H.of_restrict hs
  have H := H.of_restrict
  have hor : ((prompted cfg).restrict Defined).Leads s s' ∨ ∃ u a u',
      ((prompted cfg).restrict Defined).Leads s u ∧ (prompted cfg).step u a u' ∧ ¬ u.Defined a :=
    h.restrict_or
  rcases hor with hd | ⟨u, a, -, hd, -, hn⟩
  · have hret : s.main.enqueued = true → s'.main = .returned := by
      intro hm
      rcases he with he | he
      · exact he
      · have hm' := enqueued_leads H h.of_restrict hm
        rw [he] at hm'
        cases hm'
    refine ⟨s', hd, ?_, fun hm => .inl (hret hm), fun hm _ => hret hm⟩
    intro ha
    have ha' := aborting_leads H h.of_restrict ha
    rcases he with he | he
    · rw [he] at ha'
      cases ha'
    · exact ⟨he, untouched (H.leads h.of_restrict) (by rw [he]; rfl)⟩
  · have hj := JoinsUncreated.of_not_defined hn
    have hl := hd.of_restrict.of_restrict
    refine ⟨u, hd, ?_, fun _ => .inr hj, ?_⟩
    · intro ha
      exact absurd hj (not_joinsUncreated_of_aborting (aborting_leads H hl ha))
    · intro hm hc
      exact absurd hj (hc.joins hm H hl)

/-- `sample`, where allocations, openings and creations can fail. -/
def sampleFails : Config 1 1 where
  arraySize := 8
  two_le := two_le_arraySize
  requesters_pos := Nat.one_pos
  resolvers_pos := Nat.one_pos
  files := sample.files
  fs := sample.fs
  answers := sample.answers
  allocFails := true
  openFails := true
  createFails := true

/-- `main` has no memory for the first filename and puts the third. -/
def sampleFailsRun : List (Act 1 1) :=
  List.replicate 7 (.stmt .main .ok) ++ .stmt .main .fail ::
  List.replicate 3 (.stmt .main .ok) ++ List.replicate 6 (.call .filenameQueue .main (.run none)) ++
  List.replicate 4 (.stmt .main .ok)

theorem can_end_sample : ∃ s s', (sampleFails.system.restrict Defined).Reachable s ∧
    s.stderr = [.filenameAlloc] ∧ ((prompted sampleFails).restrict Defined).Leads s s' ∧
    s'.main = .returned := by
  have h : ∃ s ∈ TransitionSystem.exec (TransitionSystem.guarded Defined (step sampleFails))
      sampleFailsRun .init, s.stderr = [.filenameAlloc] ∧ s.main = .freeFilename ∧
      s.created (.requester 0) = true ∧ s.created (.resolver 0) = true ∧
      (∀ k, s.created (.logger k) = true) := by decide +kernel
  obtain ⟨s, hs, he, hm, hr, hv, hk⟩ := h
  have H : (sampleFails.system.restrict Defined).Reachable s := TransitionSystem.restrict_exec hs
  have henq : s.main.enqueued = true := by rw [hm]; rfl
  have hc : s.AllCreated := by
    intro t ht
    cases t with
    | main | outsider q => cases ht
    | requester i => rwa [Subsingleton.elim i 0]
    | resolver j => rwa [Subsingleton.elim j 0]
    | logger k => exact hk k
  obtain ⟨s', h, -, -, hret⟩ := can_end rfl (fun host => ⟨_, decide_eq_true rfl⟩) H
    (.inr ⟨henq, ⟨0, hr⟩, ⟨0, hv⟩⟩)
  exact ⟨s, s', H, he, h, hret henq hc⟩

end State
end DnsResolver
