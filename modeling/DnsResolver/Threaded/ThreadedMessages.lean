import DnsResolver.Threaded.ThreadedStatistics
import DnsResolver.Threaded.ThreadedOwnership
import Mathlib.Data.Nat.SuccPred

/-!
# What the program prints

The threads are numbered in the order in which `main` comes to create them, whether or not their
creation goes through (`Numbered`), so every report and every message names the thread it is about.
A line that does not reach a log has a message on the standard error output (`reported_reachable`),
so none is lost without notice. -/

namespace DnsResolver
open Function

variable {R S : Nat} {cfg : Config R S} {s s' : State R S} {t u : Tid R S} {e : Effect R S}
  {l' : MainLoc}

/-! ## The numbers of the threads -/

/-- How many numbers `main` has given. -/
def MainLoc.numbered (R S : Nat) : MainLoc → Nat
  | .createRequester i => min i R
  | .createFailed i => min (i + 1) R
  | .enqueue _ | .dupFile .. | .putFile .. | .fileRefused .. => R
  | .createResolver j => R + min j S
  | .freeFilename | .joinRequester _ | .joinResolver _ | .freeRequesterLog | .freeResolverLog |
    .joinLogger _ | .returned => R + S
  | _ => 0

/-- The thread of a message, if it is about one, is of the right kind. -/
def Diag.Names (R S : Nat) : Diag → Prop
  | .invalidFile n _ | .requesterLogPut n _ | .requesterLogAlloc n | .hostnameAlloc n |
    .hostnamePut n _ => 1 ≤ n ∧ n ≤ R
  | .getaddrinfo n _ | .recordAlloc n | .recordPut n _ => R + 1 ≤ n ∧ n ≤ R + S
  | _ => True

/-- How many numbers a statement gives. -/
def Spawn.count : Spawn R S → Nat
  | .requester .. | .resolver .. => 1
  | _ => 0

theorem MainStep.numbered {l l' : MainLoc} (h : MainStep cfg s l l' e) :
    l'.numbered R S = l.numbered R S + e.spawn.count ∧
    match e.spawn with
    | .requester i _ => l.numbered R S = i
    | .resolver j _ => l.numbered R S = R + j
    | _ => True := by
  cases h <;> simp only [MainLoc.numbered, Spawn.count, and_true] <;> omega

/-- When `main` joins threads it has numbered all of them. -/
theorem MainLoc.numbered_joined (l : MainLoc) :
    l.numbered R S = R + S ∨ l.requestersJoined R = 0 ∧ l.resolversJoined S = 0 := by
  cases l <;> simp [MainLoc.numbered, MainLoc.requestersJoined, MainLoc.resolversJoined]

theorem MainLoc.numbered_requester {l : MainLoc} {i : Fin R} (h : l.toCreateRequester i = false) :
    (i : Nat) < l.numbered R S := by
  have hi := i.isLt
  cases l <;> simp [MainLoc.toCreateRequester] at h <;> simp only [MainLoc.numbered] <;> omega

theorem MainLoc.numbered_resolver {l : MainLoc} {j : Fin S} (h : l.toCreateResolver j = false) :
    R + j < l.numbered R S := by
  have hj := j.isLt
  cases l <;> simp [MainLoc.toCreateResolver] at h <;> simp only [MainLoc.numbered] <;> omega

/-- A requester puts its number into its messages, and so does a resolver. -/
theorem RequesterStep.names {i : Fin R} {l l' : RequesterLoc} (h : RequesterStep cfg s i l l' e)
    (hi : (s.requester i).seqId = i + 1) : ∀ d ∈ e.say, d.Names R S := by
  cases h <;> simp [Diag.Names, hi]

theorem ResolverStep.names {j : Fin S} {l l' : ResolverLoc} (h : ResolverStep cfg s j l l' e)
    (hj : (s.resolver j).seqId = R + j + 1) : ∀ d ∈ e.say, d.Names R S := by
  cases h <;> simp [Diag.Names, hj]

theorem LoggerStep.say {k : Logger} {l l' : LoggerLoc} (h : LoggerStep s k l l' e) :
    e.say = [] := by
  cases h <;> rfl

theorem MainStep.names {l l' : MainLoc} (h : MainStep cfg s l l' e) :
    ∀ d ∈ e.say, d.Names R S := by
  cases h with
  | @fileRefused i x =>
    intro d hd
    obtain ⟨name, -, rfl⟩ := Option.map_eq_some_iff.1 (Option.mem_toList.1 hd)
    trivial
  | _ => simp [Diag.Names]

namespace State

/-- The numbers that have been given, and the messages that name them. -/
structure Numbered (s : State R S) : Prop where
  next : s.nextThreadId = s.main.numbered R S + 1
  requester : ∀ i : Fin R, i < s.main.numbered R S → (s.requester i).seqId = i + 1
  resolver : ∀ j : Fin S, R + j < s.main.numbered R S → (s.resolver j).seqId = R + j + 1
  names : ∀ d ∈ s.stderr, d.Names R S

theorem spawn_numbered (H : s.Numbered) (h : MainStep cfg s s.main l' e) :
    (s.spawn e.spawn).nextThreadId = l'.numbered R S + 1 ∧
    (∀ i : Fin R, i < l'.numbered R S → ((s.spawn e.spawn).requester i).seqId = i + 1) ∧
    ∀ j : Fin S, R + j < l'.numbered R S → ((s.spawn e.spawn).resolver j).seqId = R + j + 1 := by
  obtain ⟨hn, hs⟩ := h.numbered
  rw [hn]
  generalize e.spawn = sp at hn hs
  cases sp with
  | nobody | logger k => exact ⟨H.next, H.requester, H.resolver⟩
  | failed i =>
    refine ⟨H.next, fun k hk => ?_, H.resolver⟩
    have hid := H.requester k hk
    by_cases hki : k = i
    · subst hki
      simpa [spawn] using hid
    · simpa [spawn, hki] using hid
  | requester i c =>
    dsimp only at hs
    refine ⟨congrArg (· + 1) H.next, fun k hk => ?_, fun j hj => ?_⟩
    · by_cases hki : k = i
      · subst hki
        simp [spawn, H.next, hs]
      · have hlt : (k : Nat) < s.main.numbered R S := by
          have : (k : Nat) ≠ i := fun he => hki (Fin.ext he)
          have hk : (k : Nat) < s.main.numbered R S + 1 := hk
          omega
        simpa [spawn, hki] using H.requester k hlt
    · apply H.resolver
      have := i.isLt
      have hj : R + (j : Nat) < s.main.numbered R S + 1 := hj
      omega
  | resolver i c =>
    dsimp only at hs
    refine ⟨congrArg (· + 1) H.next, fun k hk => ?_, fun j hj => ?_⟩
    · apply H.requester
      have := k.isLt
      omega
    · by_cases hji : j = i
      · subst hji
        simp [spawn, H.next, hs]
      · have hlt : R + (j : Nat) < s.main.numbered R S := by
          have : (j : Nat) ≠ i := fun he => hji (Fin.ext he)
          have hj : R + (j : Nat) < s.main.numbered R S + 1 := hj
          omega
        simpa [spawn, hji] using H.resolver j hlt

theorem Numbered.stmt (H : s.Numbered) (hf : s.Fresh) (h : Stmt cfg s t s') : s'.Numbered := by
  have hsay {e : Effect R S} (he : ∀ d ∈ e.say, d.Names R S) :
      ∀ d ∈ s.stderr ++ e.say, d.Names R S := by
    intro d hd
    rcases List.mem_append.1 hd with hd | hd
    · exact H.names d hd
    · exact he d hd
  cases h with
  | @main l e h =>
    obtain ⟨h1, h2, h3⟩ := spawn_numbered H h
    have hn := hsay h.names
    generalize e.spawn = sp at h1 h2 h3
    cases sp <;> exact ⟨h1, h2, h3, hn⟩
  | @requester i l e h =>
    have hloc : (s.requester i).loc ≠ .idle := by
      intro hl
      rw [hl] at h
      cases h
    have hc : s.main.toCreateRequester i = false := by
      rw [← Bool.not_eq_true]
      exact fun hc => hloc (hf.requester i hc)
    refine ⟨H.next, fun k hk => ?_, H.resolver, ?_⟩
    · have hid := H.requester k hk
      by_cases hki : k = i
      · subst hki
        simpa [setRequester, perform] using hid
      · simpa [setRequester, perform, hki] using hid
    · exact hsay (h.names (H.requester i (MainLoc.numbered_requester hc)))
  | @resolver j l e h =>
    have hloc : (s.resolver j).loc ≠ .idle := by
      intro hl
      rw [hl] at h
      cases h
    have hc : s.main.toCreateResolver j = false := by
      rw [← Bool.not_eq_true]
      exact fun hc => hloc (hf.resolver j hc)
    refine ⟨H.next, H.requester, fun k hk => ?_, ?_⟩
    · have hid := H.resolver k hk
      by_cases hkj : k = j
      · subst hkj
        simpa [setResolver, perform] using hid
      · simpa [setResolver, perform, hkj] using hid
    · exact hsay (h.names (H.resolver j (MainLoc.numbered_resolver hc)))
  | @logger k l e h =>
    refine ⟨H.next, H.requester, H.resolver, hsay ?_⟩
    rw [h.say]
    simp
  | outsiderFree | outsiderDone => exact ⟨H.next, H.requester, H.resolver, hsay (by simp)⟩

theorem numbered_reachable (H : cfg.system.Reachable s) : s.Numbered := by
  induction H with
  | init h =>
    rw [h]
    exact ⟨rfl, fun i hi => absurd hi (Nat.not_lt_zero _),
      fun j hj => absurd hj (Nat.not_lt_zero _), by simp [init]⟩
  | step H h ih =>
    rcases (step_cases h).2 with ⟨t, c, -, h'⟩ | ⟨q, t, mv, m, -, h', rfl⟩
    · exact ih.stmt (synced_reachable H).fresh h'
    · exact ⟨ih.next, ih.requester, ih.resolver, ih.names⟩

/-- `main` reports on the requesters, from 1, and then on the resolvers, from `R + 1`, with what
each of them has done in the end; every message names a thread of the right kind. -/
theorem reports_in_order (H : cfg.system.Reachable s) : ∃ n m, n ≤ R ∧ m ≤ S ∧ (0 < m → n = R) ∧
    (s.main = .returned → n = R ∧ m = S) ∧
    s.reports = ((List.finRange R).take n).map
        (fun i => .serviced (i + 1) (s.requester i).opened.length) ++
      ((List.finRange S).take m).map (fun j => .resolved (R + j + 1) (s.resolver j).hostsResolved) ∧
    ∀ d ∈ s.stderr, d.Names R S := by
  have hst := statistics_reachable H
  have hnum := numbered_reachable H
  refine ⟨min (s.main.requestersJoined R) R, min (s.main.resolversJoined S) S, min_le_right ..,
    min_le_right .., ?_, ?_, ?_, hnum.names⟩
  · generalize s.main = l
    cases l <;> simp [MainLoc.requestersJoined, MainLoc.resolversJoined]
  · intro hm
    rw [hm]
    simp [MainLoc.requestersJoined, MainLoc.resolversJoined]
  have htake (n k : Nat) : (List.finRange k).take (min n k) = (List.finRange k).take n := by
    rcases le_total n k with h | h
    · rw [min_eq_left h]
    · rw [min_eq_right h, take_finRange h]
  rw [hst.printed, reportsOn, htake, htake]
  rcases s.main.numbered_joined (R := R) (S := S) with hall | ⟨h1, h2⟩
  · congr 1
    · apply List.map_congr_left
      intro i _
      rw [hnum.requester i (by omega), hst.serviced]
    · apply List.map_congr_left
      intro j _
      rw [hnum.resolver j (by omega)]
  · rw [h1, h2]
    rfl

/-- The reports of a run of `sample` to the end of `main`. -/
theorem reports_in_order_sample : ∃ s, sample.system.Reachable s ∧
    s.reports = [.serviced 1 2, .resolved 2 3] ∧ ∀ d ∈ s.stderr, d.Names 1 1 := by
  have h : ∃ s ∈ schedule sample sampleDns (sampleRun 0 0), s.main = .returned ∧
      (s.requester 0).opened = [0, 2] ∧ (s.resolver 0).hostsResolved = 3 := by decide +kernel
  obtain ⟨s, hs, hm, h1, h2⟩ := h
  have H := schedule_reachable hs
  obtain ⟨n, m, -, -, -, hr, hp, hn⟩ := reports_in_order H
  obtain ⟨rfl, rfl⟩ := hr hm
  refine ⟨s, H, ?_, hn⟩
  rw [hp]
  simp [List.finRange_succ, h1, h2]

end State

/-! ## Lines that are lost -/

/-- The messages about a line that does not reach a log. -/
def Diag.loses : Logger → Diag → Bool
  | .requesterLog, .requesterLogPut .. | .requesterLog, .requesterLogAlloc _ => true
  | .resolverLog, .hostnameAlloc _ | .resolverLog, .hostnamePut .. => true
  | .resolverLog, .recordAlloc _ | .resolverLog, .recordPut .. => true
  | _, _ => false

/-- A put has been refused, and the message is still to come. -/
def RequesterLoc.unreported (p : Logger) : RequesterLoc → Nat
  | .logRefused .. => if p = .requesterLog then 1 else 0
  | .hostRefused .. => if p = .resolverLog then 1 else 0
  | _ => 0

def ResolverLoc.unreported (p : Logger) : ResolverLoc → Nat
  | .recordRefused .. => if p = .resolverLog then 1 else 0
  | _ => 0

/-- Whatever a requester drops it reports. -/
theorem RequesterStep.reports {i : Fin R} {l l' : RequesterLoc} (h : RequesterStep cfg s i l l' e)
    (hl : l.Typed cfg) (p : Logger) : (e.lost p).length + l.unreported p =
      e.say.countP (Diag.loses p) + l'.unreported p := by
  cases h with
  | @putHost_refused y r x =>
    obtain ⟨k, hk, -⟩ := hl.2
    cases p <;> simp [Effect.lost, RequesterLoc.unreported, hk, Src.lines]
  | _ => cases p <;> simp [Effect.lost, RequesterLoc.unreported, Diag.loses]

theorem ResolverStep.reports {j : Fin S} {l l' : ResolverLoc} (h : ResolverStep cfg s j l l' e)
    (hl : l.Typed cfg) (p : Logger) : (e.lost p).length + l.unreported p =
      e.say.countP (Diag.loses p) + l'.unreported p := by
  cases h with
  | @format_fail x =>
    obtain ⟨k, hk, -⟩ := hl.1
    cases p <;> simp [Effect.lost, ResolverLoc.unreported, Diag.loses, hk, Src.lines]
  | @putRecord_refused y x z =>
    obtain ⟨k, ip, hk, -⟩ := hl.2.1
    cases p <;> simp [Effect.lost, ResolverLoc.unreported, hk, Src.lines]
  | _ => cases p <;> simp [Effect.lost, ResolverLoc.unreported, Diag.loses]

/-- `main` has no messages about lines. -/
theorem MainStep.loses {l l' : MainLoc} (h : MainStep cfg s l l' e) (p : Logger) :
    e.say.countP (Diag.loses p) = 0 := by
  cases h with
  | @fileRefused i x => cases cfg.files[i]? <;> cases p <;> rfl
  | _ => cases p <;> rfl

namespace State

/-- The lines that a thread has dropped and not yet reported. -/
def unreported (s : State R S) (p : Logger) : Tid R S → Nat
  | .requester i => (s.requester i).loc.unreported p
  | .resolver j => (s.resolver j).loc.unreported p
  | _ => 0

theorem unreported_of_ne (hf : s.Fresh) (h : Stmt cfg s t s') (p : Logger) (hu : u ≠ t) :
    s'.unreported p u = s.unreported p u := by
  have ho := h.other hf hu
  cases u with
  | requester i =>
    obtain ⟨-, ho | ⟨h1, h2 | h2⟩⟩ := ho
    · simp only [unreported, ho]
    · simp only [unreported, h1, h2, RequesterLoc.unreported]
    · simp only [unreported, h1, h2, RequesterLoc.unreported]
  | resolver j =>
    obtain ⟨-, ho | ⟨h1, h2⟩⟩ := ho
    · simp only [unreported, ho]
    · simp only [unreported, h1, h2, ResolverLoc.unreported]
  | _ => rfl

/-- What a statement drops, its thread reports then or later. -/
theorem reports_stmt (ht : s.WellTyped cfg) (h : Stmt cfg s t s') (p : Logger) :
    (s'.dropped p).length + s.unreported p t + s.stderr.countP (Diag.loses p) =
      (s.dropped p).length + s'.unreported p t + s'.stderr.countP (Diag.loses p) := by
  have hd (t : Tid R S) (o o' : Option (QName × Op Str)) (e : Effect R S) :
      ((s.perform t o o' e).dropped p).length = (s.dropped p).length + (e.lost p).length := by
    rw [perform_dropped, List.length_append]
  have hs (t : Tid R S) (o o' : Option (QName × Op Str)) (e : Effect R S) :
      (s.perform t o o' e).stderr.countP (Diag.loses p) =
        s.stderr.countP (Diag.loses p) + e.say.countP (Diag.loses p) :=
    List.countP_append
  cases h with
  | @main l e h =>
    have h1 := hd .main s.main.op l.op e
    have h2 := hs .main s.main.op l.op e
    have h3 := h.loses p
    have h4 : e.lost p = [] := by rw [Effect.lost, h.drop]
    rw [h4] at h1
    have h5 : ((s.perform .main s.main.op l.op e).spawn e.spawn).stderr =
        (s.perform .main s.main.op l.op e).stderr := by cases e.spawn <;> rfl
    simp only [spawn_same, h5, unreported]
    simp only [List.length_nil] at h1
    omega
  | @requester i l e h =>
    have h1 := hd (.requester i) (s.requester i).loc.op l.op e
    have h2 := hs (.requester i) (s.requester i).loc.op l.op e
    have h3 := h.reports (ht.requester i) p
    simp only [setRequester, unreported, update_self]
    omega
  | @resolver j l e h =>
    have h1 := hd (.resolver j) (s.resolver j).loc.op l.op e
    have h2 := hs (.resolver j) (s.resolver j).loc.op l.op e
    have h3 := h.reports (ht.resolver j) p
    simp only [setResolver, unreported, update_self]
    omega
  | @logger k l e h =>
    have h1 := hd (.logger k) ((s.logger k).op k) (l.op k) e
    have h2 := hs (.logger k) ((s.logger k).op k) (l.op k) e
    have h4 : e.lost p = [] := by rw [Effect.lost, h.drop]
    rw [h4] at h1
    rw [h.say] at h2
    simp only [List.length_nil, List.countP_nil] at h1 h2
    simp only [unreported]
    omega
  | @outsiderFree q =>
    have h2 := hs (.outsider q) none (some (q, .free)) {}
    exact congrArg (_ + ·) h2.symm
  | @outsiderDone q =>
    have h2 := hs (.outsider q) (some (q, .free)) none {}
    exact congrArg (_ + ·) h2.symm

/-- Every line that has been dropped has a message, or will have it in the thread's next step. -/
theorem reported_reachable (H : cfg.system.Reachable s) (p : Logger) :
    (s.dropped p).length = s.stderr.countP (Diag.loses p) + ∑ t, s.unreported p t := by
  induction H with
  | init h =>
    have h0 (t : Tid R S) : (init : State R S).unreported p t = 0 := by cases t <;> rfl
    rw [h]
    simp only [h0]
    simp [init]
  | @step s a s' H h ih =>
    rcases (step_cases h).2 with ⟨t, c, -, h'⟩ | ⟨q, t, mv, m, -, h', rfl⟩
    · have hs := reports_stmt (wellTyped_reachable H) h' p
      have hu := Tally.sum_of_ne (f := s.unreported p) (g := s'.unreported p) (t := t)
        fun u hu => unreported_of_ne (synced_reachable H).fresh h' p hu
      omega
    · have hu (t : Tid R S) : (s.setQueue q m).unreported p t = s.unreported p t := by
        cases t <;> rfl
      simp only [hu]
      exact ih

end State

/-! ## Files that are lost -/

/-- The messages about a file that is not put on `filename_queue`. -/
def Diag.losesFile : Diag → Bool
  | .filenameAlloc | .filenamePut _ => true
  | _ => false

def MainLoc.unreportedFile : MainLoc → Nat
  | .fileRefused .. => 1
  | _ => 0

/-- A statement at `l` puts a filename. -/
def MainLoc.putting : MainLoc → Nat
  | .putFile .. => 1
  | _ => 0

theorem Call.holds_of_op {α : Type} {c : Call α} (hp : ∀ x, c.op ≠ some (.put x))
    (hg : c.op ≠ some .get) : c.holds = none := by
  cases c with
  | put x pc => exact absurd rfl (hp x)
  | putDone x r => exact absurd rfl (hp x)
  | get pc => exact absurd rfl hg
  | getDone r => exact absurd rfl hg
  | idle | free pc | freeDone => rfl

/-- Every readable file is put or reported. -/
theorem MainStep.files {l l' : MainLoc} (h : MainStep cfg s l l' e) (hl : l.Typed cfg)
    (hopen : cfg.openFails = false)
    (H : ((s.queue .filenameQueue).call .main).op = State.opAt l.op .filenameQueue) :
    let n := cfg.files.length
    (cfg.enqueued (l'.considered n)).length +
        ((s.queue .filenameQueue).call .main).holds.toList.length + l.unreportedFile =
      (cfg.enqueued (l.considered n)).length + l'.putting + e.say.countP Diag.losesFile +
        l'.unreportedFile := by
  have h0 (hp : l.putting = 0) : ((s.queue .filenameQueue).call .main).holds = none := by
    apply Call.holds_of_op
    · intro x hx
      rw [hx] at H
      have := State.opAt_eq_some.1 H.symm
      cases l <;> simp [MainLoc.op, MainLoc.putting] at this hp
    · intro hx
      rw [hx] at H
      have := State.opAt_eq_some.1 H.symm
      cases l <;> simp [MainLoc.op] at this
  cases h with
  | enqueue_skip h1 h2 =>
    have hr : cfg.fs _ = none := h2.resolve_right (by simp [hopen])
    simp [h0 rfl, MainLoc.considered, MainLoc.unreportedFile, MainLoc.putting,
      Config.enqueued_succ, Config.readable, h1, hr]
  | @enqueued i h1 =>
    have hi : i = cfg.files.length := Nat.le_antisymm hl (List.getElem?_eq_none_iff.1 h1)
    simp [h0 rfl, MainLoc.considered, MainLoc.unreportedFile, MainLoc.putting, hi]
  | @dupFile i name =>
    have hr : cfg.readable i = true := by simp [Config.readable, hl.1, hl.2]
    simp [h0 rfl, MainLoc.considered, MainLoc.unreportedFile, MainLoc.putting,
      Config.enqueued_succ, hr]
  | @dupFile_fail i name =>
    have hr : cfg.readable i = true := by simp [Config.readable, hl.1, hl.2]
    simp [h0 rfl, MainLoc.considered, MainLoc.unreportedFile, MainLoc.putting,
      Config.enqueued_succ, hr, Diag.losesFile]
  | @putFile y i x hc =>
    simp [hc, Call.holds, MainLoc.considered, MainLoc.unreportedFile, MainLoc.putting]
  | @putFile_refused y i x hc =>
    simp [hc, Call.holds, MainLoc.considered, MainLoc.unreportedFile, MainLoc.putting]
  | @fileRefused i x =>
    simp [h0 rfl, MainLoc.considered, MainLoc.unreportedFile, MainLoc.putting, hl.2.1,
      Diag.losesFile]
  | _ => simp [h0 rfl, MainLoc.considered, MainLoc.unreportedFile, MainLoc.putting, Diag.losesFile]

theorem RequesterStep.losesFile {i : Fin R} {l l' : RequesterLoc}
    (h : RequesterStep cfg s i l l' e) : e.say.countP Diag.losesFile = 0 := by
  cases h <;> rfl

theorem ResolverStep.losesFile {j : Fin S} {l l' : ResolverLoc} (h : ResolverStep cfg s j l l' e) :
    e.say.countP Diag.losesFile = 0 := by
  cases h <;> rfl

namespace State

theorem offered_length (s : State R S) : s.offered.length =
    (s.queue .filenameQueue).ghost.accepted.length +
      ((s.queue .filenameQueue).call .main).holds.toList.length := by
  rw [offered, List.length_append, List.length_map, placesOf, List.length_map]

theorem putting_length (hs : s.Synced) (h : Stmt cfg s .main s') :
    ((s'.queue .filenameQueue).call .main).holds.toList.length = s'.main.putting := by
  rcases hs.holds_self h .filenameQueue with ⟨x, hx, hh⟩ | ⟨hx, hh⟩
  · rw [hh]
    have hop : s'.main.op = some (.filenameQueue, .put x) := hx
    generalize s'.main = l at hop
    cases l <;> simp [MainLoc.op, MainLoc.putting] at hop ⊢
  · rw [hh]
    have hop : ∀ x, s'.main.op ≠ some (.filenameQueue, .put x) := hx
    generalize s'.main = l at hop
    cases l <;> simp [MainLoc.op, MainLoc.putting] at hop ⊢

/-- Every readable file that `main` has come past is put or has a message. -/
theorem files_reachable (hopen : cfg.openFails = false) (H : cfg.system.Reachable s) :
    (cfg.enqueued (s.main.considered cfg.files.length)).length =
      s.offered.length + s.stderr.countP Diag.losesFile + s.main.unreportedFile := by
  induction H with
  | init h =>
    rw [h]
    rfl
  | @step s a s' H h ih =>
    have hs := synced_reachable H
    rcases (step_cases h).2 with ⟨t, c, -, h'⟩ | ⟨q, t, mv, m, -, h', rfl⟩
    · have hacc : (s'.queue .filenameQueue).ghost.accepted =
          (s.queue .filenameQueue).ghost.accepted := by rw [h'.queue_eq, switch_accepted]
      rw [offered_length] at ih ⊢
      rw [hacc]
      have hother (ht : Tid.main ≠ t) (e : List Diag) (he : e.countP Diag.losesFile = 0)
          (hst : s'.stderr = s.stderr ++ e) :
          (cfg.enqueued (s'.main.considered cfg.files.length)).length =
            (s.queue .filenameQueue).ghost.accepted.length +
              ((s'.queue .filenameQueue).call .main).holds.toList.length +
              s'.stderr.countP Diag.losesFile + s'.main.unreportedFile := by
        have hm : s'.main = s.main := h'.other hs.fresh ht
        rw [hm, hst, List.countP_append, he, call_of_ne h' ht]
        exact ih
      cases t with
      | main =>
        rw [putting_length hs h']
        obtain ⟨e, hl, hst⟩ : ∃ e, MainStep cfg s s.main s'.main e ∧
            s'.stderr = s.stderr ++ e.say := by
          cases h' with
          | @main l e hl => exact ⟨e, hl, by cases e.spawn <;> rfl⟩
        have hf := hl.files (wellTyped_reachable H).main hopen (hs.op .filenameQueue .main)
        rw [hst, List.countP_append]
        dsimp only at hf
        omega
      | requester i =>
        cases h' with
        | @requester _ l e hl => exact hother (by simp) e.say hl.losesFile rfl
      | resolver j =>
        cases h' with
        | @resolver _ l e hl => exact hother (by simp) e.say hl.losesFile rfl
      | logger k =>
        cases h' with
        | @logger _ l e hl => exact hother (by simp) e.say (by rw [hl.say]; rfl) rfl
      | outsider q => exact hother (by simp) [] rfl (by cases h' <;> simp [perform])
    · rw [offered_call hs (queue_inv H q) h']
      exact ih

/-! ## Nothing is lost without notice -/

theorem linesIn_typed {q : QName} {xs : List Str} (hq : q ≠ .filenameQueue)
    (h : ∀ x ∈ xs, cfg.Typed q x) : (linesIn xs).length = xs.length := by
  have hl : ∀ x ∈ xs, ∃ l, x.src = .line l := by
    intro x hx
    have := h x hx
    cases q with
    | filenameQueue => exact absurd rfl hq
    | hostnameQueue | requesterLogfileQueue =>
      obtain ⟨l, hl, -⟩ := this
      exact ⟨l, hl⟩
    | resolverLogfileQueue =>
      obtain ⟨l, ip, hl, -⟩ := this
      exact ⟨l, hl⟩
  exact linesIn_length hl

/-- When `main` has returned, every line of the opened files is in the requester log or has a
message, and so it is for the resolver log; every readable file has been opened or has a message. -/
theorem nothing_silent (H : cfg.system.Reachable s) (hm : s.main = .returned)
    (hr : ∃ i, (s.requester i).loc ≠ .failed) (hv : ∃ j, (s.resolver j).loc ≠ .idle) :
    (∀ p : Logger, (s.logfile p).length + s.stderr.countP (Diag.loses p) =
      (s.openedLines cfg).card) ∧
    (cfg.openFails = false → ∑ i, (s.requester i).opened.length + s.stderr.countP Diag.losesFile =
      (cfg.enqueued cfg.files.length).length) := by
  constructor
  · intro p
    have hc := congrArg Multiset.card (returned_lines H hm hv p)
    have hw : (linesIn (s.logfile p)).length = (s.logfile p).length :=
      linesIn_typed (by cases p <;> simp [Logger.queue]) ((wellTyped_reachable H).written p)
    have hp := phases_reachable H
    have hu (t : Tid R S) : s.unreported p t = 0 := by
      cases t with
      | requester i =>
        have := hp.joinedRequester i (by rw [hm]; rfl)
        rw [unreported]
        generalize (s.requester i).loc = l at this ⊢
        cases l with
        | logRefused | hostRefused => cases this
        | _ => rfl
      | resolver j =>
        have := hp.joinedResolver j (by rw [hm]; rfl)
        rw [unreported]
        generalize (s.resolver j).loc = l at this ⊢
        cases l with
        | recordRefused => cases this
        | _ => rfl
      | _ => rfl
    have hd := reported_reachable H p
    simp only [hu, Finset.sum_const_zero, Nat.add_zero] at hd
    rw [Multiset.card_add, Multiset.coe_card, Multiset.coe_card, hw, hd] at hc
    exact hc
  · intro hopen
    have hf := files_reachable hopen H
    have hidle : (s.queue .filenameQueue).call .main = .idle :=
      (synced_reachable H).call_idle (by rw [op, hm]; rfl)
    have hd := delivered_of_drained H (drained_returned hr hv H hm .filenameQueue)
    have hmg := congrArg Multiset.card (filePath_reachable H).merge.sum_eq
    rw [Multiset.card_sum, Multiset.coe_card, taken, List.length_map, hd] at hmg
    have hsum : ∑ i, (s.requester i).opened.length =
        (s.queue .filenameQueue).ghost.accepted.length := by
      rw [← hmg]
      refine Finset.sum_congr rfl fun i _ => ?_
      rw [opened_returned hopen H hm, ← got_returned H hm, Multiset.coe_card]
    rw [offered_length, hidle, hm] at hf
    rw [hsum]
    exact hf.symm

/-- The line that does not reach the resolver log has its message. -/
theorem nothing_silent_interrupted : ∃ s, interrupted.system.Reachable s ∧ s.main = .returned ∧
    s.stderr = [.hostnamePut 1 [97]] ∧
    (s.logfile .resolverLog).length + 1 = (s.openedLines interrupted).card := by
  have h : ∃ s ∈ schedule interrupted (fun _ => none) interruptedRun, s.main = .returned ∧
      s.stderr = [.hostnamePut 1 [97]] ∧ (s.requester 0).loc ≠ .failed ∧
      (s.resolver 0).loc ≠ .idle := by decide +kernel
  obtain ⟨s, hs, hm, he, hr, hv⟩ := h
  have H := schedule_reachable hs
  have hl := (nothing_silent H hm ⟨0, hr⟩ ⟨0, hv⟩).1 .resolverLog
  rw [he] at hl
  exact ⟨s, H, hm, he, hl⟩

end State
end DnsResolver
