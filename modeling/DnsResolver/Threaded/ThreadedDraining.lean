import DnsResolver.Threaded.ThreadedSolo

/-!
# Threads that empty the queues

Each log thread empties its queue alone. A requester empties `filename_queue` when its own puts
find room, which the thread of the requester log makes, or are refused; a resolver empties
`hostname_queue` with the thread of the resolver log. Before the resolvers are created, `main` has
to come to their creation: it may wait for room in `filename_queue` on the way. -/

namespace DnsResolver
open Function

variable {R S : Nat} {cfg : Config R S} {s s' : State R S} {t u : Tid R S} {q : QName}
  {e : Effect R S} {P : Tid R S → Prop}

/-! ## The way to the next `array_get` -/

def LoggerLoc.rank : LoggerLoc → Nat
  | .write _ => 3
  | .freeString _ => 2
  | .next => 1
  | _ => 0

def ResolverLoc.rank : ResolverLoc → Nat
  | .resolve _ => 6
  | .format .. => 5
  | .putRecord .. => 4
  | .recordRefused .. => 3
  | .freeHost _ => 2
  | .next => 1
  | _ => 0

/-- The rest of the file counts, with all statements for a line. -/
def RequesterLoc.rank (cfg : Config R S) : RequesterLoc → Nat
  | .openFile f => 8 * ((cfg.fs f.bytes).getD []).length + 4
  | .readLine r => 8 * r.rest.length + 3
  | .dupLog r _ => 8 * r.rest.length + 10
  | .putLog r _ _ => 8 * r.rest.length + 9
  | .logRefused r _ _ => 8 * r.rest.length + 8
  | .dupHost r _ => 8 * r.rest.length + 7
  | .putHost r _ => 8 * r.rest.length + 6
  | .hostRefused r _ => 8 * r.rest.length + 5
  | .invalidFile _ | .closeFile _ => 2
  | .next => 1
  | _ => 0

theorem LoggerStep.rank {k : Logger} {l l' : LoggerLoc} (h : LoggerStep s k l l' e)
    (hl : l ≠ .get) : l'.rank < l.rank := by
  cases h <;> first | exact absurd rfl hl | exact Nat.lt_succ_self _

theorem ResolverStep.rank {j : Fin S} {l l' : ResolverLoc} (h : ResolverStep cfg s j l l' e)
    (hl : l ≠ .getHost) : l'.rank < l.rank := by
  cases h <;> first | exact absurd rfl hl | simp [ResolverLoc.rank]

theorem RequesterStep.rank {i : Fin R} {l l' : RequesterLoc} (h : RequesterStep cfg s i l l' e)
    (hl : l ≠ .getFile) (hloop : l.leftLoop = false) : l'.rank cfg < l.rank cfg := by
  cases h with
  | noFile | file => exact absurd rfl hl
  | openFile hf => simp [RequesterLoc.rank, hf]
  | emptyLine hg | line hg =>
    have := getline_length hg
    simp only [RequesterLoc.rank]
    omega
  | lockReaders | decrement_last | decrement | freeHostname | freeRequesterLog | unlockReaders =>
    cases hloop
  | _ => 
    simp only [RequesterLoc.rank]
    omega

namespace State

theorem Advance.logger_rank {k : Logger} (A : Advance cfg (.logger k) q s s')
    (hl : s.logger k ≠ .get) : (s'.logger k).rank < (s.logger k).rank := by
  obtain ⟨m, q', h⟩ := A.stmt
  cases h with
  | logger h =>
    simp only [update_self]
    exact h.rank hl

theorem Advance.resolver_rank {j : Fin S} (A : Advance cfg (.resolver j) q s s')
    (hl : (s.resolver j).loc ≠ .getHost) : (s'.resolver j).loc.rank < (s.resolver j).loc.rank := by
  obtain ⟨m, q', h⟩ := A.stmt
  cases h with
  | resolver h =>
    rw [setResolver_self]
    exact h.rank hl

theorem Advance.requester_rank {i : Fin R} (A : Advance cfg (.requester i) q s s')
    (hl : (s.requester i).loc ≠ .getFile) (hloop : (s.requester i).loc.leftLoop = false) :
    (s'.requester i).loc.rank cfg < (s.requester i).loc.rank cfg := by
  obtain ⟨m, q', h⟩ := A.stmt
  cases h with
  | requester h =>
    rw [setRequester_self]
    exact h.rank hl hloop

/-! ## One round of a thread -/

theorem empty_of_items (H : cfg.system.Reachable s) (h : (s.queue q).items ≠ []) :
    (s.queue q).arr.empty = false := by
  rw [← Bool.not_eq_true, (queue_inv H q).empty_iff]
  exact h

theorem not_full_of_items (H : cfg.system.Reachable s) (h : (s.queue q).items = []) :
    (s.queue q).arr.full cfg.arraySize = false := by
  have hi := queue_inv H q
  cases hf : (s.queue q).arr.full cfg.arraySize with
  | false => rfl
  | true =>
    have h0 := hi.not_empty_of_full cfg.two_le hf
    rw [hi.empty_iff.2 h] at h0
    cases h0

theorem Calm.logger_round {k : Logger} (C : s.Calm cfg) (hk : s.logger k ≠ .idle)
    (hne : (s.queue k.queue).items ≠ []) :
    ∃ s', Advance cfg (.logger k) k.queue s s' ∧ s'.logger k ≠ .idle := by
  have hfin : s.logger k ≠ .finished := fun h0 => by
    have hl : s.Left k.queue := by cases k <;> exact h0
    exact hne (drained_of_left C.reachable hl).2
  have hop : ∀ q' p, s.op (.logger k) = some (q', p) → q' = k.queue ∧ p = .get := fun q' p h0 => by
    have h0 : (s.logger k).op k = some (q', p) := h0
    generalize s.logger k = l at h0
    cases l <;> cases h0
    exact ⟨rfl, rfl⟩
  obtain ⟨s', A⟩ := C.advance (t := .logger k) (q := k.queue) (by simp) (by simp)
    (fun x h0 => by cases (hop _ _ h0).2) (fun q' p h0 => by
      obtain ⟨rfl, rfl⟩ := hop q' p h0
      exact Call.ready_get ((synced_reachable C.reachable).inCall _ _ _ h0)
        (.inr (empty_of_items C.reachable hne))) (fun h0 => by
      have h0 : (s.logger k).op k = none := h0
      refine ⟨.ok, ?_⟩
      suffices h : (loggerStep s k (s.logger k)).isSome = true by
        obtain ⟨r, hr⟩ := Option.isSome_iff_exists.1 h
        exact ⟨_, by rw [State.stmt, hr]; rfl⟩
      generalize s.logger k = l at *
      cases l <;> first | rfl | exact absurd rfl hk | exact absurd rfl hfin | cases h0)
  refine ⟨s', A, ?_⟩
  obtain ⟨m, q', h⟩ := A.stmt
  cases h with
  | logger h =>
    simp only [update_self]
    exact h.running

theorem Calm.resolver_round {j : Fin S} (hans : ∀ host, ∃ a, cfg.answers host a = true)
    (C : s.Calm cfg) (hj : (s.resolver j).loc ≠ .idle)
    (hlog : (s.queue .resolverLogfileQueue).arr.shutdown = true ∨
      (s.queue .resolverLogfileQueue).arr.full cfg.arraySize = false)
    (hne : (s.queue .hostnameQueue).items ≠ []) :
    ∃ s', Advance cfg (.resolver j) .hostnameQueue s s' ∧ (s'.resolver j).loc ≠ .idle := by
  have hfin : (s.resolver j).loc ≠ .finished := fun h0 =>
    hne (drained_of_left C.reachable (q := .hostnameQueue) ⟨j, h0⟩).2
  have hop : ∀ q' p, s.op (.resolver j) = some (q', p) →
      (q' = .hostnameQueue ∧ p = .get) ∨ (q' = .resolverLogfileQueue ∧ ∃ x, p = .put x) := by
    intro q' p h0
    have h0 : (s.resolver j).loc.op = some (q', p) := h0
    generalize (s.resolver j).loc = l at h0
    cases l <;> cases h0
    · exact .inl ⟨rfl, rfl⟩
    · exact .inr ⟨rfl, _, rfl⟩
  obtain ⟨s', A⟩ := C.advance (t := .resolver j) (q := .hostnameQueue) (by simp) (by simp)
    (fun x h0 => by rcases hop _ _ h0 with ⟨-, h1⟩ | ⟨h1, -⟩ <;> cases h1)
    (fun q' p h0 => by
      have hc := (synced_reachable C.reachable).inCall _ _ _ h0
      rcases hop q' p h0 with ⟨rfl, rfl⟩ | ⟨rfl, x, rfl⟩
      · exact Call.ready_get hc (.inr (empty_of_items C.reachable hne))
      · exact Call.ready_put hc hlog) (fun h0 => by
      have h0 : (s.resolver j).loc.op = none := h0
      suffices h : ∃ c, (resolverStep cfg s j c (s.resolver j).loc).isSome = true by
        obtain ⟨c, h⟩ := h
        obtain ⟨r, hr⟩ := Option.isSome_iff_exists.1 h
        exact ⟨c, _, by rw [State.stmt, hr]; rfl⟩
      generalize (s.resolver j).loc = l at *
      cases l with
      | idle => exact absurd rfl hj
      | finished => exact absurd rfl hfin
      | getHost | putRecord => cases h0
      | resolve h =>
        obtain ⟨a, ha⟩ := hans h.bytes
        refine ⟨.answer a, ?_⟩
        cases a <;> simp [resolverStep, ha]
      | _ => exact ⟨.ok, rfl⟩)
  refine ⟨s', A, ?_⟩
  obtain ⟨m, q', h⟩ := A.stmt
  cases h with
  | resolver h =>
    rw [setResolver_self]
    exact h.running

theorem Calm.requester_round {i : Fin R} (C : s.Calm cfg)
    (hi : (s.requester i).loc ≠ .idle ∧ (s.requester i).loc ≠ .failed)
    (hlog : (s.queue .requesterLogfileQueue).arr.shutdown = true ∨
      (s.queue .requesterLogfileQueue).arr.full cfg.arraySize = false)
    (hhost : (s.queue .hostnameQueue).arr.shutdown = true)
    (hne : (s.queue .filenameQueue).items ≠ []) :
    ∃ s', Advance cfg (.requester i) .filenameQueue s s' ∧
      (s.requester i).loc.leftLoop = false ∧
      (s'.requester i).loc ≠ .idle ∧ (s'.requester i).loc ≠ .failed := by
  have hloop : (s.requester i).loc.leftLoop = false := by
    by_contra h0
    exact hne (drained_of_left C.reachable (q := .filenameQueue)
      ⟨i, Bool.not_eq_false _ ▸ h0⟩).2
  have hop : ∀ q' p, s.op (.requester i) = some (q', p) → (q' = .filenameQueue ∧ p = .get) ∨
      ((q' = .requesterLogfileQueue ∨ q' = .hostnameQueue) ∧ ∃ x, p = .put x) := by
    intro q' p h0
    have h0 : (s.requester i).loc.op = some (q', p) := h0
    generalize (s.requester i).loc = l at h0 hloop
    cases l <;> cases h0
    · exact .inl ⟨rfl, rfl⟩
    · exact .inr ⟨.inl rfl, _, rfl⟩
    · exact .inr ⟨.inr rfl, _, rfl⟩
    · cases hloop
    · cases hloop
  obtain ⟨s', A⟩ := C.advance (t := .requester i) (q := .filenameQueue) (by simp) (by simp)
    (fun x h0 => by rcases hop _ _ h0 with ⟨-, h1⟩ | ⟨h1 | h1, -⟩ <;> cases h1)
    (fun q' p h0 => by
      have hc := (synced_reachable C.reachable).inCall _ _ _ h0
      rcases hop q' p h0 with ⟨rfl, rfl⟩ | ⟨rfl | rfl, x, rfl⟩
      · exact Call.ready_get hc (.inr (empty_of_items C.reachable hne))
      · exact Call.ready_put hc hlog
      · exact Call.ready_put hc (.inl hhost)) (fun h0 => by
      have h0 : (s.requester i).loc.op = none := h0
      refine ⟨.ok, ?_⟩
      suffices h : (requesterStep cfg s i .ok (s.requester i).loc).isSome = true by
        obtain ⟨r, hr⟩ := Option.isSome_iff_exists.1 h
        exact ⟨_, by rw [State.stmt, hr]; rfl⟩
      generalize (s.requester i).loc = l at *
      cases l with
      | idle => exact absurd rfl hi.1
      | failed => exact absurd rfl hi.2
      | getFile | putLog | putHost => cases h0
      | lockReaders | decrement | freeHostname | freeRequesterLog | unlockReaders | finished =>
        cases hloop
      | openFile f =>
        simp only [requesterStep]
        cases cfg.fs f.bytes <;> rfl
      | readLine r =>
        simp only [requesterStep]
        cases getline r.rest with
        | none => rfl
        | some p =>
          dsimp only
          split <;> rfl
      | _ => rfl)
  refine ⟨s', A, hloop, ?_⟩
  obtain ⟨m, q', h⟩ := A.stmt
  cases h with
  | requester h =>
    rw [setRequester_self]
    exact h.running

/-! ## Queues that are emptied -/

/-- A log thread empties its queue alone. -/
theorem Calm.logger_drains {k : Logger} (C : s.Calm cfg) (hk : s.logger k ≠ .idle) :
    ∃ s', (cfg.system.restrict (StepsOf (· = .logger k))).Leads s s' ∧ s'.Calm cfg ∧
      s'.logger k ≠ .idle ∧ (s'.queue k.queue).items = [] := by
  refine C.drains (t := .logger k) (I := fun s => s.logger k ≠ .idle)
    (fun s => (s.logger k).rank) (fun s C hk hne => ?_) hk
  obtain ⟨s', A, hk'⟩ := C.logger_round hk hne
  refine ⟨s', A.leads, A.calm, hk', .inr ⟨A.begun, A.items, fun hb => ?_⟩⟩
  by_cases hl : s.logger k = .get
  · exact .inl (A.taken (by rw [op, hl]; rfl) hb hne)
  · exact .inr (A.logger_rank hl)

/-- A thread in `P` makes room in the queue of a log, or the queue is shut down. -/
def LogServed (P : Tid R S → Prop) (s : State R S) (k : Logger) : Prop :=
  (s.queue k.queue).arr.shutdown = true ∨ P (.logger k) ∧ s.logger k ≠ .idle

theorem Calm.log_ready {k : Logger} (C : s.Calm cfg) (hk : s.LogServed P k) :
    ∃ s', (cfg.system.restrict (StepsOf fun u => P u ∧ u = .logger k)).Leads s s' ∧
      s'.Calm cfg ∧ s'.LogServed P k ∧ ((s'.queue k.queue).arr.shutdown = true ∨
        (s'.queue k.queue).arr.full cfg.arraySize = false) := by
  rcases hk with hk | ⟨hP, hk⟩
  · exact ⟨s, .refl, C, .inl hk, .inl hk⟩
  · obtain ⟨s', h, C', hk', he⟩ := C.logger_drains hk
    exact ⟨s', stepsOf_mono (fun u (hu : u = .logger k) => ⟨hu ▸ hP, hu⟩) h, C', .inr ⟨hP, hk'⟩,
      .inr (not_full_of_items C'.reachable he)⟩

/-- The log is served on while other threads run. -/
theorem LogServed.steps {k : Logger} {Q : Tid R S → Prop} (h : s.LogServed P k)
    (H : cfg.system.Reachable s) (hs : (cfg.system.restrict (StepsOf Q)).Leads s s')
    (hQ : ¬ Q (.logger k)) : s'.LogServed P k := by
  rcases h with h | ⟨hP, hk⟩
  · exact .inl (items_shut H hs h).1
  · exact .inr ⟨hP, by rw [stays H hs hQ hk]; exact hk⟩

/-- The resolvers empty `hostname_queue` with the thread of the resolver log. -/
theorem Calm.hosts_drain {j : Fin S} (hans : ∀ host, ∃ a, cfg.answers host a = true)
    (C : s.Calm cfg) (hP : P (.resolver j)) (hj : (s.resolver j).loc ≠ .idle)
    (hlog : s.LogServed P .resolverLog)
    (hsh : (s.queue .hostnameQueue).arr.shutdown = true) :
    ∃ s', (cfg.system.restrict (StepsOf P)).Leads s s' ∧ (s'.queue .hostnameQueue).items = [] := by
  obtain ⟨s', h, -, -, he⟩ := C.drains (t := .resolver j) (q := .hostnameQueue)
    (I := fun s => (s.resolver j).loc ≠ .idle ∧ s.LogServed P .resolverLog ∧
      (s.queue .hostnameQueue).arr.shutdown = true)
    (fun s => (s.resolver j).loc.rank) (fun s C hI hne => by
      obtain ⟨hj, hlog, hsh⟩ := hI
      obtain ⟨s₁, h₁, C₁, hlog₁, hready⟩ := C.log_ready hlog
      have hn : ¬ (P (.resolver j) ∧ (Tid.resolver j : Tid R S) = .logger .resolverLog) := by simp
      have hj₁ := stays C.reachable h₁ hn hj
      obtain ⟨hsh₁, hle⟩ := items_shut C.reachable h₁ hsh
      have hlead := stepsOf_mono (P := P) (fun u hu => hu.1) h₁
      by_cases he₁ : (s₁.queue .hostnameQueue).items = []
      · exact ⟨s₁, hlead, C₁, ⟨hj₁ ▸ hj, hlog₁, hsh₁⟩, .inl he₁⟩
      · obtain ⟨s', A, hj'⟩ := C₁.resolver_round hans (hj₁ ▸ hj) hready he₁
        refine ⟨s', hlead.trans (stepsOf_mono (fun u (hu : u = _) => hu ▸ hP) A.leads), A.calm,
          ⟨hj', hlog₁.steps C₁.reachable A.leads (by simp),
            (items_shut C₁.reachable A.leads hsh₁).1⟩,
          .inr ⟨A.begun, A.items.trans hle, fun hb => ?_⟩⟩
        have hb₁ := begun_steps C.reachable h₁ hn hb
        by_cases hl : (s₁.resolver j).loc = .getHost
        · exact .inl ((A.taken (by rw [op, hl]; rfl) hb₁ he₁).trans_le hle)
        · exact .inr (hj₁ ▸ A.resolver_rank hl)) ⟨hj, hlog, hsh⟩
  exact ⟨s', h, he⟩

/-- A requester empties `filename_queue` when its hostnames are refused. -/
theorem Calm.files_drain {i : Fin R} (C : s.Calm cfg) (hP : P (.requester i))
    (hi : (s.requester i).loc ≠ .idle ∧ (s.requester i).loc ≠ .failed)
    (hlog : s.LogServed P .requesterLog)
    (hsh : (s.queue .hostnameQueue).arr.shutdown = true) :
    ∃ s', (cfg.system.restrict (StepsOf P)).Leads s s' ∧ s'.Calm cfg ∧
      (((s'.requester i).loc ≠ .idle ∧ (s'.requester i).loc ≠ .failed) ∧
        s'.LogServed P .requesterLog ∧ (s'.queue .hostnameQueue).arr.shutdown = true) ∧
      (s'.queue .filenameQueue).items = [] := by
  refine C.drains (t := .requester i) (q := .filenameQueue)
    (I := fun s => ((s.requester i).loc ≠ .idle ∧ (s.requester i).loc ≠ .failed) ∧
      s.LogServed P .requesterLog ∧ (s.queue .hostnameQueue).arr.shutdown = true)
    (fun s => (s.requester i).loc.rank cfg) (fun s C hI hne => by
      obtain ⟨hi, hlog, hsh⟩ := hI
      obtain ⟨s₁, h₁, C₁, hlog₁, hready⟩ := C.log_ready hlog
      have hn : ¬ (P (.requester i) ∧ (Tid.requester i : Tid R S) = .logger .requesterLog) := by simp
      have hi₁ := stays C.reachable h₁ hn hi.1
      obtain ⟨hsh₁, -⟩ := items_shut C.reachable h₁ hsh
      have hle := items_filename C.reachable h₁ (by simp)
      have hlead := stepsOf_mono (P := P) (fun u hu => hu.1) h₁
      by_cases he₁ : (s₁.queue .filenameQueue).items = []
      · exact ⟨s₁, hlead, C₁, ⟨hi₁ ▸ hi, hlog₁, hsh₁⟩, .inl he₁⟩
      · obtain ⟨s', A, hloop, hi'⟩ := C₁.requester_round (hi₁ ▸ hi) hready hsh₁ he₁
        refine ⟨s', hlead.trans (stepsOf_mono (fun u (hu : u = _) => hu ▸ hP) A.leads), A.calm,
          ⟨hi', hlog₁.steps C₁.reachable A.leads (by simp),
            (items_shut C₁.reachable A.leads hsh₁).1⟩,
          .inr ⟨A.begun, A.items.trans hle, fun hb => ?_⟩⟩
        have hb₁ := begun_steps C.reachable h₁ hn hb
        by_cases hl : (s₁.requester i).loc = .getFile
        · exact .inl ((A.taken (by rw [op, hl]; rfl) hb₁ he₁).trans_le hle)
        · exact .inr (hi₁ ▸ A.requester_rank hl hloop)) ⟨hi, hlog, hsh⟩

/-! ## `main` comes to create the resolvers -/

end State

/-- `main` puts the files, or has a resolver to create. -/
def MainLoc.enqueuing (S : Nat) : MainLoc → Bool
  | .enqueue _ | .dupFile .. | .putFile .. | .fileRefused .. => true
  | .createResolver j => j < S
  | _ => false

/-- The way of `main` to the creation of the resolvers, with `n` files on the command line. -/
def MainLoc.rank (n : Nat) : MainLoc → Nat
  | .enqueue i => 4 * (n - i) + 4
  | .dupFile i _ => 4 * (n - i) + 3
  | .putFile i _ => 4 * (n - i) + 2
  | .fileRefused i _ => 4 * (n - i) + 1
  | _ => 0

theorem MainStep.rank {l l' : MainLoc} (h : MainStep cfg s l l' e) (ht : l.Typed cfg)
    (hl : l.enqueuing S = true) (hj : ∀ j, l ≠ .createResolver j) :
    l'.enqueuing S = true ∧ l'.rank cfg.files.length < l.rank cfg.files.length := by
  have hlen : ∀ {i name}, cfg.files[i]? = some name → i < cfg.files.length := fun h =>
    (List.getElem?_eq_some_iff.1 h).1
  cases h with
  | enqueue_skip h | enqueue h =>
    have := hlen h
    refine ⟨rfl, ?_⟩
    simp only [MainLoc.rank]
    omega
  | dupFile_fail =>
    have := hlen ht.1
    refine ⟨rfl, ?_⟩
    simp only [MainLoc.rank]
    omega
  | putFile | fileRefused =>
    have := hlen ht.2.1
    refine ⟨rfl, ?_⟩
    simp only [MainLoc.rank]
    omega
  | dupFile | putFile_refused => exact ⟨rfl, Nat.lt_succ_self _⟩
  | enqueued => exact ⟨decide_eq_true cfg.resolvers_pos, Nat.succ_pos _⟩
  | createResolver | createResolver_fail | resolversCreated => exact absurd rfl (hj _)
  | _ => cases hl

namespace State

/-- `filename_queue` has room for all files to come. -/
def FewFiles (cfg : Config R S) (s : State R S) : Prop :=
  (cfg.enqueued cfg.files.length).length <
    (s.queue .filenameQueue).ghost.delivered.length + cfg.arraySize

/-- The files to come are few, or threads in `P` make room for them. -/
def FilesServed (P : Tid R S → Prop) (cfg : Config R S) (s : State R S) : Prop :=
  s.FewFiles cfg ∨ s.LogServed P .requesterLog ∧
    ∃ i, P (.requester i) ∧ (s.requester i).loc ≠ .idle ∧ (s.requester i).loc ≠ .failed

theorem FewFiles.step {a : Act R S} (hf : s.FewFiles cfg) (H : cfg.system.Reachable s)
    (h : s.step cfg a = some s') : s'.FewFiles cfg :=
  hf.trans_le (Nat.add_le_add_right (history_step H h _).2.length_le _)

/-- An `array_put` of `main` finds room when the files to come are few. -/
theorem FewFiles.ready (hf : s.FewFiles cfg) (H : cfg.system.Reachable s) {x : Str}
    (hop : s.op .main = some (.filenameQueue, .put x)) :
    ((s.queue .filenameQueue).call .main).Ready cfg.arraySize (s.queue .filenameQueue).arr := by
  have hc := (synced_reachable H).inCall _ _ _ hop
  have hi := queue_inv H .filenameQueue
  have hoff := ((filePath_reachable H).offered.trans
    (cfg.enqueued_mono (considered_le (wellTyped_reachable H)))).length_le
  rw [offered, hi.accepted_eq] at hoff
  generalize (s.queue .filenameQueue).call .main = c at hc hoff
  cases c with
  | put x pc =>
    by_contra hn
    simp only [Call.Ready, not_or, Bool.not_eq_true, Bool.not_eq_false] at hn
    have hfull := hi.full_iff.1 hn.2.2
    simp only [Call.holds, hn.1, placesOf, List.map_append, List.length_append, List.length_map,
      Bool.false_eq_true, if_false, Option.toList_some, List.length_singleton] at hoff
    rw [FewFiles] at hf
    omega
  | putDone => trivial
  | _ => cases hc

theorem ended_of_enqueuing (h : s.main.enqueuing S = true) : s.ended = false := by
  rw [ended]
  generalize s.main = l at h
  cases l <;> first | rfl | cases h

/-- `main` comes nearer to the creation of the resolvers. -/
theorem Calm.main_round (C : s.Calm cfg) (hm : s.main.enqueuing S = true)
    (hj : ∀ j, s.main ≠ .createResolver j)
    (hr : ∀ x, s.op .main = some (.filenameQueue, .put x) →
      ((s.queue .filenameQueue).call .main).Ready cfg.arraySize (s.queue .filenameQueue).arr) :
    ∃ s', (cfg.system.restrict (StepsOf (· = .main))).Leads s s' ∧ s'.Calm cfg ∧
      s'.main.enqueuing S = true ∧ s'.main.rank cfg.files.length < s.main.rank cfg.files.length := by
  have hstmt : ∀ {s₁ s'}, s₁.Calm cfg → s₁.main = s.main → s₁.stmt cfg .ok .main = some s' →
      (cfg.system.restrict (StepsOf (· = .main))).Leads s₁ s' ∧ s'.Calm cfg ∧
      s'.main.enqueuing S = true ∧
      s'.main.rank cfg.files.length < s.main.rank cfg.files.length := fun C₁ hm₁ h => by
    obtain ⟨e, he, -⟩ := main_step (stmt_cases h)
    have ht := (wellTyped_reachable C₁.reachable).main
    rw [hm₁] at he ht
    obtain ⟨h1, h2⟩ := he.rank ht hm hj
    obtain ⟨hl, C', -⟩ := C₁.stmt h (ended_of_enqueuing h1)
    exact ⟨hl, C', h1, h2⟩
  cases hop : s.op .main with
  | none =>
    suffices h : (mainStep cfg s .ok s.main).isSome = true by
      obtain ⟨r, hr⟩ := Option.isSome_iff_exists.1 h
      exact ⟨_, hstmt C rfl (by rw [State.stmt, hr]; rfl)⟩
    have hop : s.main.op = none := hop
    generalize s.main = l at *
    cases l with
    | enqueue i =>
      simp only [mainStep]
      cases cfg.files[i]? with
      | none => rfl
      | some name =>
        dsimp only
        split <;> rfl
    | createResolver j => exact absurd rfl (hj j)
    | dupFile | fileRefused => rfl
    | putFile => cases hop
    | _ => cases hm
  | some qp =>
    obtain ⟨q, p⟩ := qp
    obtain ⟨rfl, x, rfl⟩ : q = .filenameQueue ∧ ∃ x, p = .put x := by
      have hop : s.main.op = some (q, p) := hop
      generalize s.main = l at hop hm
      cases l <;> cases hop <;> first | exact ⟨rfl, _, rfl⟩ | cases hm
    obtain ⟨m, hmoves, hd, C₁⟩ := C.call hop (hr x hop)
    have hop₁ : (s.setQueue .filenameQueue m).op .main = some (.filenameQueue, .put x) := by
      rw [setQueue_op, hop]
    obtain ⟨s', h⟩ := stmt_of_done C₁.reachable (by simp) hop₁ (by rwa [setQueue_self])
    obtain ⟨hl, h⟩ := hstmt C₁ rfl h
    exact ⟨s', (moves_leads C.going hmoves).trans hl, h⟩

/-- Other threads make room for the file that `main` is to put, if it needs it. -/
theorem Calm.files_ready (C : s.Calm cfg) (hf : s.FilesServed P cfg)
    (hsh : (s.queue .hostnameQueue).arr.shutdown = true) :
    ∃ s', (cfg.system.restrict (StepsOf fun u => P u ∧ u ≠ .main)).Leads s s' ∧ s'.Calm cfg ∧
      s'.FilesServed P cfg ∧ ∀ x, s'.op .main = some (.filenameQueue, .put x) →
        ((s'.queue .filenameQueue).call .main).Ready cfg.arraySize
          (s'.queue .filenameQueue).arr := by
  rcases hf with hf | ⟨hlog, i, hP, hi⟩
  · exact ⟨s, .refl, C, .inl hf, fun x hop => hf.ready C.reachable hop⟩
  · obtain ⟨s', h, C', ⟨hi', hlog', -⟩, he⟩ := C.files_drain (P := fun u => P u ∧ u ≠ .main)
      ⟨hP, by simp⟩ hi (hlog.imp_right fun h => ⟨⟨h.1, by simp⟩, h.2⟩) hsh
    refine ⟨s', h, C', .inr ⟨hlog'.imp_right fun h => ⟨h.1.1, h.2⟩, i, hP, hi'⟩, fun x hop => ?_⟩
    exact Call.ready_put ((synced_reachable C'.reachable).inCall _ _ _ hop)
      (.inr (not_full_of_items C'.reachable he))

theorem FilesServed.steps {Q : Tid R S → Prop} (hf : s.FilesServed P cfg)
    (H : cfg.system.Reachable s) (h : (cfg.system.restrict (StepsOf Q)).Leads s s')
    (hl : ¬ Q (.logger .requesterLog)) (hr : ∀ i, ¬ Q (.requester i)) :
    s'.FilesServed P cfg := by
  rcases hf with hf | ⟨hlog, i, hP, hi⟩
  · exact .inl (h.keeps (I := fun s => s.FewFiles cfg) (fun _ _ _ H _ h hf => hf.step H h) H hf)
  · exact .inr ⟨hlog.steps H h hl, i, hP, by rw [stays H h (hr i) hi.1]; exact hi⟩

/-- `main` creates a resolver when other threads make room for the files before. -/
theorem Calm.resolver_comes (C : s.Calm cfg) (hP : P .main) (hm : s.main.enqueuing S = true)
    (hsh : (s.queue .hostnameQueue).arr.shutdown = true) (hf : s.FilesServed P cfg) :
    ∃ s', (cfg.system.restrict (StepsOf P)).Leads s s' ∧ s'.Calm cfg ∧
      (s.LogServed P .resolverLog → s'.LogServed P .resolverLog) ∧
      ∃ j, (s.resolver j).loc = .idle ∧ (s'.resolver j).loc ≠ .idle := by
  let Q : Tid R S → Prop := fun u => P u ∧ u ≠ .logger .resolverLog ∧ ∀ j, u ≠ .resolver j
  have hfQ : s.FilesServed Q cfg := hf.imp_right fun h => 
    ⟨h.1.imp_right fun h => ⟨⟨h.1, by simp⟩, h.2⟩, h.2.imp fun i h => ⟨⟨h.1, by simp⟩, h.2⟩⟩
  obtain ⟨s₁, h₁, ⟨C₁, hm₁, hsh₁, -⟩, j, hj⟩ := TransitionSystem.Leads.until
    (S := cfg.system.restrict (StepsOf Q)) (G := fun s => ∃ j, s.main = .createResolver j)
    (I := fun s => s.Calm cfg ∧ s.main.enqueuing S = true ∧
      (s.queue .hostnameQueue).arr.shutdown = true ∧ s.FilesServed Q cfg)
    (fun s => s.main.rank cfg.files.length) (fun s hI hG => by
      obtain ⟨C, hm, hsh, hf⟩ := hI
      obtain ⟨s₁, h₁, C₁, hf₁, hr⟩ := C.files_ready hf hsh
      have hm₁ : s₁.main = s.main := stays C.reachable h₁ (u := .main) (by simp)
      obtain ⟨s₂, h₂, C₂, hm₂, hlt⟩ := C₁.main_round (hm₁ ▸ hm)
        (fun j hj => hG ⟨j, hm₁ ▸ hj⟩) hr
      have hsh₁ := (items_shut C.reachable h₁ hsh).1
      exact ⟨s₂, (stepsOf_mono (fun u hu => hu.1) h₁).trans
          (stepsOf_mono (fun u (hu : u = .main) => hu ▸ ⟨hP, by simp, by simp⟩) h₂),
        ⟨C₂, hm₂, (items_shut C₁.reachable h₂ hsh₁).1,
          hf₁.steps C₁.reachable h₂ (by simp) (by simp)⟩, hm₁ ▸ hlt⟩)
    ⟨C, hm, hsh, hfQ⟩
  have hjS : j < S := by
    rw [hj] at hm₁
    exact of_decide_eq_true hm₁
  have hidle := (synced_reachable C₁.reachable).fresh.resolver ⟨j, hjS⟩ (by rw [hj]; simp [MainLoc.toCreateResolver])
  obtain ⟨s₂, hs₂, hm₂, hres⟩ : ∃ s', s₁.stmt cfg .ok .main = some s' ∧
      s'.main = .createResolver (j + 1) ∧ (s'.resolver ⟨j, hjS⟩).loc = .next := by
    refine ⟨_, by simp only [State.stmt, hj, mainStep, hjS, dif_pos]; rfl, rfl, ?_⟩
    simp [spawn]
  obtain ⟨h₂, C₂, -⟩ := C₁.stmt hs₂ (by rw [ended, hm₂]; rfl)
  refine ⟨s₂, (stepsOf_mono (fun u hu => hu.1) h₁).trans
    (stepsOf_mono (fun u (hu : u = .main) => hu ▸ hP) h₂), C₂, fun hlog => ?_, ⟨j, hjS⟩, ?_, ?_⟩
  · exact (hlog.steps C.reachable h₁ (by simp [Q])).steps C₁.reachable h₂ (by simp)
  · by_contra hn
    have hst := stays C.reachable h₁ (u := .resolver ⟨j, hjS⟩) (by simp [Q]) hn
    exact hn (hst ▸ hidle)
  · rw [hres]
    simp

end State
end DnsResolver
