import DnsResolver.Threaded.ThreadedQueues
import DnsResolver.Array.ArrayShutdown

/-!
# The phases of a run

Who shuts down which queue when. `active_file_readers` counts the requesters that have still to
decrement it, so the requester that brings it to 0 is the only one that frees `hostname_queue`
and `requester_logfile_queue`, when no requester puts any more; `main` frees the other two after
its last `array_put` and after the joins (`phases_reachable`). -/

namespace DnsResolver
open Function Tally

variable {R S : Nat} {cfg : Config R S} {s s' : State R S} {t u : Tid R S} {q : QName}
  {e : Effect R S}

/-! ## The stages of a thread -/

/-- The requester has not yet made its decrement of `active_file_readers`, and its creation has
not failed. -/
def RequesterLoc.active : RequesterLoc → Bool
  | .failed | .freeHostname | .freeRequesterLog | .unlockReaders | .finished => false
  | _ => true

/-- The requester holds `file_reader_mutex`. -/
def RequesterLoc.holdsMutex : RequesterLoc → Bool
  | .decrement | .freeHostname | .freeRequesterLog | .unlockReaders => true
  | _ => false

/-- The requester has been told that `filename_queue` is shut down. -/
def RequesterLoc.leftLoop : RequesterLoc → Bool
  | .lockReaders | .decrement | .freeHostname | .freeRequesterLog | .unlockReaders => true
  | .finished => true
  | _ => false

/-- A join of the requester returns. -/
def RequesterLoc.over : RequesterLoc → Bool
  | .finished | .failed => true
  | _ => false

def ResolverLoc.over : ResolverLoc → Bool
  | .finished | .idle => true
  | _ => false

/-- `main` has given up. -/
def MainLoc.aborting : MainLoc → Bool
  | .abort _ | .abortFree .. | .exited => true
  | _ => false

/-- `main` has set `active_file_readers`. -/
def MainLoc.readersSet : MainLoc → Bool
  | .createLogger _ | .allocTables | .abort _ | .abortFree .. | .exited | .setReaders => false
  | _ => true

/-- `main` has come to its `array_free(&filename_queue)`. -/
def MainLoc.enqueued : MainLoc → Bool
  | .freeFilename | .joinRequester _ | .joinResolver _ | .freeRequesterLog => true
  | .freeResolverLog | .joinLogger _ | .returned => true
  | _ => false

def MainLoc.joinedRequester (i : Nat) : MainLoc → Bool
  | .joinRequester k => i < k
  | .joinResolver _ | .freeRequesterLog | .freeResolverLog | .joinLogger _ | .returned => true
  | _ => false

def MainLoc.joinedResolver (j : Nat) : MainLoc → Bool
  | .joinResolver k => j < k
  | .freeRequesterLog | .freeResolverLog | .joinLogger _ | .returned => true
  | _ => false

def MainLoc.joinedLogger (l : Logger) : MainLoc → Bool
  | .joinLogger .resolverLog => l == .requesterLog
  | .returned => true
  | _ => false

/-- `main` has come to its `array_free(&resolver_logfile_queue)`. -/
def MainLoc.joinedAll : MainLoc → Bool
  | .freeResolverLog | .joinLogger _ | .returned => true
  | _ => false

theorem RequesterLoc.active_of_op {l : RequesterLoc} {p : Op Str} (h : l.op = some (q, p))
    (hp : p ≠ .free) : l.active = true := by
  cases l <;> cases h <;> first | rfl | exact absurd rfl hp

theorem RequesterLoc.over_active {l : RequesterLoc} (h : l.over = true) : l.active = false := by
  cases l <;> first | rfl | cases h

/-! ## What a statement does to `active_file_readers` and its mutex -/

theorem RequesterStep.readers {i : Fin R} {l l' : RequesterLoc}
    (h : RequesterStep cfg s i l l' e) :
    (e.activeFileReaders = none ∧ l'.active = l.active ∧ e.last = false) ∨
    (e.activeFileReaders = some (s.activeFileReaders - 1) ∧ l.active = true ∧
      l'.active = false ∧ (e.last = true ↔ s.activeFileReaders - 1 = 0)) := by
  cases h <;> simp_all [RequesterLoc.active]

theorem RequesterStep.mutex {i : Fin R} {l l' : RequesterLoc} (h : RequesterStep cfg s i l l' e) :
    (e.mutex = none ∧ l'.holdsMutex = l.holdsMutex) ∨
    (e.mutex = some (some (.requester i)) ∧ s.fileReaderMutex = none ∧ l'.holdsMutex = true) ∨
    (e.mutex = some none ∧ l.holdsMutex = true ∧ l'.holdsMutex = false) := by
  cases h <;> simp_all [RequesterLoc.holdsMutex]

/-- The requester that frees the queues is the one that has brought the count to 0. -/
theorem RequesterStep.freeing {i : Fin R} {l l' : RequesterLoc} (h : RequesterStep cfg s i l l' e)
    (hq : l'.op = some (q, .free)) : (∃ p, l.op = some (p, .free)) ∨ e.last = true := by
  cases h <;> simp_all [RequesterLoc.op]

theorem RequesterStep.not_over {i : Fin R} {l l' : RequesterLoc}
    (h : RequesterStep cfg s i l l' e) : l.over = false := by
  cases h <;> rfl

theorem ResolverStep.not_over {j : Fin S} {l l' : ResolverLoc} (h : ResolverStep cfg s j l l' e) :
    l.over = false := by
  cases h <;> rfl

/-- The other threads leave the count and its mutex alone. -/
theorem ResolverStep.same {j : Fin S} {l l' : ResolverLoc} (h : ResolverStep cfg s j l l' e) :
    e.mutex = none ∧ e.activeFileReaders = none := by
  cases h <;> exact ⟨rfl, rfl⟩

theorem LoggerStep.same {k : Logger} {l l' : LoggerLoc} (h : LoggerStep s k l l' e) :
    e.mutex = none ∧ e.activeFileReaders = none := by
  cases h <;> exact ⟨rfl, rfl⟩

variable {l l' : MainLoc}

theorem MainStep.readers (h : MainStep cfg s l l' e) : e.mutex = none ∧
    ((e.activeFileReaders = none ∧ l'.readersSet = l.readersSet ∧ ∀ i, e.spawn ≠ .failed i) ∨
    (e.activeFileReaders = some (R : Int) ∧ l.readersSet = false ∧ e.spawn = .nobody) ∨
    ∃ i, e.activeFileReaders = some (s.activeFileReaders - 1) ∧ l.readersSet = true ∧
      e.spawn = .failed i) := by
  cases h <;> simp_all [MainLoc.readersSet]

/-- What `main` has joined is over, and it creates nothing after that. -/
theorem MainStep.joined (h : MainStep cfg s l l' e) :
    (l'.enqueued = true → e.spawn = .nobody) ∧
    (∀ i : Fin R, l'.joinedRequester i = true →
      l.joinedRequester i = true ∨ (s.requester i).loc.over = true) ∧
    (∀ j : Fin S, l'.joinedResolver j = true →
      l.joinedResolver j = true ∨ (s.resolver j).loc.over = true) ∧
    (∀ k, l'.joinedLogger k = true → l.joinedLogger k = true ∨ s.logger k = .finished) := by
  cases h with
  | @joinRequester i hi hl =>
    refine ⟨fun _ => rfl, fun k hk => ?_, nofun, nofun⟩
    rcases Nat.lt_succ_iff_lt_or_eq.1 (of_decide_eq_true hk) with hk | rfl
    · exact .inl (decide_eq_true hk)
    · rcases hl with hl | hl <;> exact .inr (by rw [hl]; rfl)
  | @joinResolver j hj hl =>
    refine ⟨fun _ => rfl, fun k hk => .inl hk, fun k hk => ?_, nofun⟩
    rcases Nat.lt_succ_iff_lt_or_eq.1 (of_decide_eq_true hk) with hk | rfl
    · exact .inl (decide_eq_true hk)
    · rcases hl with hl | hl <;> exact .inr (by rw [hl]; rfl)
  | requestersJoined h =>
    exact ⟨fun _ => rfl, fun k _ => .inl (decide_eq_true (k.2.trans_le h)), nofun, nofun⟩
  | resolversJoined h =>
    exact ⟨fun _ => rfl, fun _ h => .inl h, fun k _ => .inl (decide_eq_true (k.2.trans_le h)), nofun⟩
  | joinRequesterLog hl =>
    exact ⟨fun _ => rfl, fun _ h => .inl h, fun _ h => .inl h,
      fun k hk => .inr (by rw [eq_of_beq hk, hl])⟩
  | joinResolverLog hl =>
    refine ⟨fun _ => rfl, fun _ h => .inl h, fun _ h => .inl h, fun k _ => ?_⟩
    cases k with
    | requesterLog => exact .inl rfl
    | resolverLog => exact .inr hl
  | _ => simp [MainLoc.enqueued, MainLoc.joinedRequester, MainLoc.joinedResolver,
      MainLoc.joinedLogger]

namespace State

/-! ## Readers and joins -/

/-- How many requesters have still to decrement `active_file_readers`. -/
def readersLeft (s : State R S) : Nat := tally (fun r : Requester => r.loc.active) s.requester

/-- What `active_file_readers` counts, who holds its mutex and frees the consumers' queues, and
what the joins have waited for. -/
structure Phases (s : State R S) : Prop where
  readers : s.main.readersSet = true → s.activeFileReaders = s.readersLeft
  mutex : ∀ u, s.fileReaderMutex = some u ↔
    ∃ i, u = .requester i ∧ (s.requester i).loc.holdsMutex = true
  freeing : ∀ i q, (s.requester i).loc.op = some (q, .free) → (s.requester i).last = true
  last : ∀ i, (s.requester i).last = true → ∀ k, (s.requester k).loc.active = false
  last_inj : ∀ i k, (s.requester i).last = true → (s.requester k).last = true → i = k
  joinedRequester : ∀ i : Fin R, s.main.joinedRequester i = true → (s.requester i).loc.over = true
  joinedResolver : ∀ j : Fin S, s.main.joinedResolver j = true → (s.resolver j).loc.over = true
  joinedLogger : ∀ k, s.main.joinedLogger k = true → s.logger k = .finished

theorem Fresh.readersSet (H : s.Fresh) {i : Fin R} (h : (s.requester i).loc ≠ .idle) :
    s.main.readersSet = true := by
  have hn : s.main.toCreateRequester i ≠ true := fun h' => h (H.requester i h')
  generalize s.main = l at *
  cases l <;> first | rfl | exact absurd rfl hn

theorem spawn_readersLeft (H : s.Fresh) (h : MainStep cfg s s.main l' e) :
    match e.spawn with
    | .failed _ => (s.spawn e.spawn).readersLeft + 1 = s.readersLeft
    | _ => (s.spawn e.spawn).readersLeft = s.readersLeft := by
  have hs := h.spawn
  generalize e.spawn = sp at *
  cases sp with
  | nobody | logger k | resolver j c => rfl
  | requester i c =>
    have hi := H.requester i hs.1
    have := tally_update (fun r : Requester => r.loc.active) s.requester i
      { s.requester i with seqId := s.nextThreadId, loc := if c then .next else (s.requester i).loc }
    cases c <;> simp_all [spawn, readersLeft, RequesterLoc.active]
  | failed i =>
    have hi := H.requester i hs.1
    have := tally_update (fun r : Requester => r.loc.active) s.requester i
      { s.requester i with loc := .failed }
    simp_all [spawn, readersLeft, RequesterLoc.active]

/-- What the creation of threads leaves of a requester. -/
theorem spawn_last (H : s.Fresh) (h : MainStep cfg s s.main l' e) (i : Fin R) :
    let r := (s.spawn e.spawn).requester i
    r.last = (s.requester i).last ∧ r.dequeued = (s.requester i).dequeued ∧
    r.opened = (s.requester i).opened ∧ (r.loc = (s.requester i).loc ∨
      (s.requester i).loc = .idle ∧ (r.loc = .next ∨ r.loc = .failed)) := by
  obtain ⟨h1, h2⟩ := spawn_requester H h i
  have ha := congrArg Requester.last h1
  have hb := congrArg Requester.dequeued h1
  have hc := congrArg Requester.opened h1
  exact ⟨ha, hb, hc, h2.imp_right fun ⟨h3, h4, _⟩ => ⟨h3, h4⟩⟩

/-- What a statement of `main` with effect `e` changes outside the queues. -/
structure AfterMain (s s' : State R S) (e : Effect R S) : Prop where
  requester : s'.requester = (s.spawn e.spawn).requester
  resolver : s'.resolver = (s.spawn e.spawn).resolver
  logger : s'.logger = (s.spawn e.spawn).logger
  mutex : s'.fileReaderMutex = e.mutex.getD s.fileReaderMutex
  readers : s'.activeFileReaders = e.activeFileReaders.getD s.activeFileReaders

theorem afterMain (s : State R S) (l' : MainLoc) (e : Effect R S) : s.AfterMain
    { (s.perform .main s.main.op l'.op e).spawn e.spawn with main := l' } e := by
  refine ⟨?_, ?_, ?_, ?_, ?_⟩ <;> simp only [perform_spawn, spawn_same] <;> rfl

theorem main_step (h : Stmt cfg s .main s') :
    ∃ e, MainStep cfg s s.main s'.main e ∧ s.AfterMain s' e := by
  cases h with
  | @main l e h => exact ⟨e, h, afterMain s l e⟩

theorem Phases.main (H : s.Phases) (hf : s.Fresh) (h : MainStep cfg s s.main s'.main e)
    (hs : s.AfterMain s' e) : s'.Phases := by
  have hr := spawn_last hf h
  obtain ⟨hm, hx⟩ := h.readers
  obtain ⟨hj, hj1, hj2, hj3⟩ := h.joined
  have hle := spawn_readersLeft hf h
  have hn : s'.main.enqueued = true → (s.spawn e.spawn) = s := fun hl => by rw [hj hl]; rfl
  rw [← hs.requester] at hr
  refine ⟨fun hl => ?_, fun u => ?_, fun i q hq => ?_, fun i hi k => ?_, fun i k hi hk => ?_,
    fun i hi => ?_, fun j hj' => ?_, fun k hk => ?_⟩
  · rw [hs.readers, readersLeft, hs.requester]
    rcases hx with ⟨ha, hl', he⟩ | ⟨ha, hl', he⟩ | ⟨i, ha, hl', he⟩
    · have he : (s.spawn e.spawn).readersLeft = s.readersLeft := by
        generalize e.spawn = sp at *
        cases sp <;> first | exact hle | exact absurd rfl (he _)
      rw [ha, Option.getD_none, H.readers (hl' ▸ hl), ← he]
      rfl
    · have hi : ∀ i, (s.requester i).loc.active = true := fun i => by
        by_contra hn
        have := hf.readersSet (i := i) fun h0 => hn (by rw [h0]; rfl)
        exact absurd (this.symm.trans hl') (by simp)
      have hc := tally_eq_card (p := fun r : Requester => r.loc.active) hi
      rw [ha, he, Option.getD_some]
      simp only [spawn, hc, Fintype.card_fin]
    · have := H.readers hl'
      simp only [he, readersLeft] at hle this
      rw [ha, he, Option.getD_some]
      omega
  · rw [hs.mutex, hm, Option.getD_none, H.mutex u]
    refine exists_congr fun i => and_congr_right fun _ => ?_
    rcases (hr i).2.2.2 with h0 | ⟨h0, h1 | h1⟩ <;> simp [*, RequesterLoc.holdsMutex]
  · rw [(hr i).1]
    rcases (hr i).2.2.2 with h0 | ⟨-, h1 | h1⟩
    · exact H.freeing i q (h0 ▸ hq)
    · rw [h1] at hq
      cases hq
    · rw [h1] at hq
      cases hq
  · have hk := H.last i ((hr i).1 ▸ hi) k
    rcases (hr k).2.2.2 with h0 | ⟨h0, -⟩
    · rw [h0, hk]
    · rw [h0] at hk
      cases hk
  · exact H.last_inj i k ((hr i).1 ▸ hi) ((hr k).1 ▸ hk)
  · have ho : (s.requester i).loc.over = true := (hj1 i hi).elim (H.joinedRequester i) id
    rcases (hr i).2.2.2 with h0 | ⟨h0, -⟩
    · rw [h0, ho]
    · rw [h0] at ho
      cases ho
  · have he := hn (by revert hj'; cases s'.main <;> simp [MainLoc.joinedResolver, MainLoc.enqueued])
    rw [hs.resolver, he]
    exact (hj2 j hj').elim (H.joinedResolver j) id
  · have he := hn (by revert hk; cases s'.main <;> simp [MainLoc.joinedLogger, MainLoc.enqueued])
    rw [hs.logger, he]
    exact (hj3 k hk).elim (H.joinedLogger k) id

variable (s) in
theorem setRequester_readersLeft (t : Tid R S) (o o' : Option (QName × Op Str)) (e : Effect R S)
    (i : Fin R) (l : RequesterLoc) :
    ((s.perform t o o' e).setRequester i l e).readersLeft +
      ((s.requester i).loc.active).toNat = s.readersLeft + l.active.toNat :=
  tally_update (fun r : Requester => r.loc.active) s.requester i _

/-- A requester takes `file_reader_mutex` when nobody has it, and gives back what it has. -/
theorem Phases.mutex_requester (H : s.Phases) {i : Fin R} {l : RequesterLoc}
    (h : (e.mutex = none ∧ l.holdsMutex = (s.requester i).loc.holdsMutex) ∨
      (e.mutex = some (some (.requester i)) ∧ s.fileReaderMutex = none ∧ l.holdsMutex = true) ∨
      (e.mutex = some none ∧ (s.requester i).loc.holdsMutex = true ∧ l.holdsMutex = false))
    (hi : (s'.requester i).loc = l) (hne : ∀ k ≠ i, s'.requester k = s.requester k)
    (hm : s'.fileReaderMutex = e.mutex.getD s.fileReaderMutex) (u : Tid R S) :
    s'.fileReaderMutex = some u ↔
      ∃ k, u = .requester k ∧ (s'.requester k).loc.holdsMutex = true := by
  have hk : ∀ k, (s.requester k).loc.holdsMutex = true →
      s.fileReaderMutex = some (.requester k) := fun k hk => (H.mutex _).2 ⟨k, rfl, hk⟩
  rcases h with ⟨h1, h2⟩ | ⟨h1, h2, h3⟩ | ⟨h1, h2, h3⟩
  · rw [hm, h1, Option.getD_none, H.mutex u]
    refine exists_congr fun k => and_congr_right fun _ => ?_
    by_cases hki : k = i
    · subst hki
      rw [hi, h2]
    · rw [hne k hki]
  · rw [hm, h1, Option.getD_some, Option.some.injEq]
    constructor
    · rintro rfl
      exact ⟨i, rfl, by rw [hi, h3]⟩
    · rintro ⟨k, rfl, hh⟩
      by_cases hki : k = i
      · rw [hki]
      · rw [hne k hki] at hh
        exact absurd (h2.symm.trans (hk k hh)) nofun
  · rw [hm, h1, Option.getD_some]
    refine ⟨nofun, fun ⟨k, _, hh⟩ => ?_⟩
    by_cases hki : k = i
    · subst hki
      rw [hi, h3] at hh
      cases hh
    · rw [hne k hki] at hh
      have := (hk i h2).symm.trans (hk k hh)
      exact absurd (Tid.requester.inj (Option.some.inj this)).symm hki

/-- A requester that is inactive stays so, and one that frees a queue has brought the count to
0. -/
theorem Phases.requester (H : s.Phases) (hf : s.Fresh) {i : Fin R} {l : RequesterLoc}
    (h : RequesterStep cfg s i (s.requester i).loc l e) :
    ((s.perform (.requester i) (s.requester i).loc.op l.op e).setRequester i l e).Phases := by
  generalize hs' : (s.perform (.requester i) (s.requester i).loc.op l.op e).setRequester i l e = s'
  have hself : (s'.requester i).loc = l ∧
      (s'.requester i).last = ((s.requester i).last || e.last) := by
    subst hs'
    simp [setRequester, perform]
  have hne : ∀ k ≠ i, s'.requester k = s.requester k := fun k hk => by
    subst hs'
    simp [setRequester, perform, hk]
  have hact := h.readers
  have hset : s.main.readersSet = true := hf.readersSet fun h0 => by rw [h0] at h; cases h
  have hleft : s'.readersLeft + ((s.requester i).loc.active).toNat =
      s.readersLeft + l.active.toNat := by
    subst hs'
    exact setRequester_readersLeft s ..
  -- the one that decrements to 0 is the only active requester
  have hzero : e.last = true → s'.readersLeft = 0 := fun hl => by
    rcases hact with ⟨-, -, h0⟩ | ⟨-, h1, h2, h3⟩
    · exact absurd (h0.symm.trans hl) (by simp)
    · have := H.readers hset
      have := h3.1 hl
      rw [h1, h2] at hleft
      simp only [Bool.toNat_true, Bool.toNat_false] at hleft
      omega
  have hdown : ∀ k, (s.requester k).loc.active = false → (s'.requester k).loc.active = false := by
    intro k hk
    by_cases hki : k = i
    · subst hki
      rw [hself.1]
      rcases hact with ⟨-, h0, -⟩ | ⟨-, -, h0, -⟩
      · rw [h0, hk]
      · exact h0
    · rw [hne k hki, hk]
  have hlast : ∀ k, (s'.requester k).last = true →
      (s.requester k).last = true ∨ k = i ∧ e.last = true := by
    intro k hk
    by_cases hki : k = i
    · subst hki
      rw [hself.2, Bool.or_eq_true] at hk
      exact hk.imp_right fun h => ⟨rfl, h⟩
    · exact .inl (hne k hki ▸ hk)
  -- after that no other requester can have been the last
  have hfirst : e.last = true → ∀ k, (s.requester k).last ≠ true := fun hl k hk => by
    have h0 := H.last k hk i
    rcases hact with ⟨-, -, h1⟩ | ⟨-, h1, -⟩
    · exact absurd (h1.symm.trans hl) (by simp)
    · exact absurd (h0.symm.trans h1) (by simp)
  have hm : s'.main = s.main := by subst hs'; rfl
  refine ⟨fun _ => ?_, fun u => ?_, fun k q hq => ?_, fun k hk n => ?_, fun k n hk hn => ?_,
    fun k hk => ?_, fun j hj => ?_, fun k hk => ?_⟩
  · have hr : s'.activeFileReaders = e.activeFileReaders.getD s.activeFileReaders := by
      subst hs'
      rfl
    have := H.readers hset
    rcases hact with ⟨h1, h2, -⟩ | ⟨h1, h2, h3, -⟩
    · rw [h2] at hleft
      rw [hr, h1, Option.getD_none]
      omega
    · rw [h2, h3] at hleft
      simp only [Bool.toNat_true, Bool.toNat_false] at hleft
      rw [hr, h1, Option.getD_some]
      omega
  · exact H.mutex_requester h.mutex hself.1 hne (by subst hs'; rfl) u
  · by_cases hki : k = i
    · subst hki
      rw [hself.1] at hq
      rw [hself.2, Bool.or_eq_true]
      refine (h.freeing hq).imp_left fun h0 => ?_
      obtain ⟨p, hp⟩ := h0
      exact H.freeing k p hp
    · rw [hne k hki] at hq ⊢
      exact H.freeing k q hq
  · rcases hlast k hk with hk | ⟨-, hl⟩
    · exact hdown n (H.last k hk n)
    · exact tally_eq_zero.1 (hzero hl) n
  · rcases hlast k hk with hk | ⟨rfl, hl⟩
    · rcases hlast n hn with hn | ⟨rfl, hl⟩
      · exact H.last_inj k n hk hn
      · exact absurd hk (hfirst hl k)
    · rcases hlast n hn with hn | ⟨rfl, -⟩
      · exact absurd hn (hfirst hl n)
      · rfl
  · have ho := H.joinedRequester k (hm ▸ hk)
    by_cases hki : k = i
    · subst hki
      exact absurd (h.not_over.symm.trans ho) (by simp)
    · rw [hne k hki, ho]
  · subst hs'
    exact H.joinedResolver j hj
  · subst hs'
    exact H.joinedLogger k hk

/-- The other threads touch neither `main` nor the requesters. -/
theorem Phases.congr (H : s.Phases) (hm : s'.main = s.main) (hr : s'.requester = s.requester)
    (hx : s'.fileReaderMutex = s.fileReaderMutex)
    (ha : s'.activeFileReaders = s.activeFileReaders)
    (hj : ∀ j : Fin S, (s.resolver j).loc.over = true → (s'.resolver j).loc.over = true)
    (hk : ∀ k, s.logger k = .finished → s'.logger k = .finished) : s'.Phases := by
  have hl : s'.readersLeft = s.readersLeft := by rw [readersLeft, hr, readersLeft]
  obtain ⟨h1, h2, h3, h4, h5, h6, h7, h8⟩ := H
  refine ⟨?_, ?_, ?_, ?_, ?_, ?_, fun j h => ?_, fun k h => ?_⟩
  · rwa [hm, ha, hl]
  · rwa [hx, hr]
  · rwa [hr]
  · rwa [hr]
  · rwa [hr]
  · rwa [hm, hr]
  · exact hj j (h7 j (hm ▸ h))
  · exact hk k (h8 k (hm ▸ h))

theorem Phases.stmt (H : s.Phases) (hf : s.Fresh) (h : Stmt cfg s t s') : s'.Phases := by
  cases h with
  | main h =>
    obtain ⟨e, h, hs⟩ := main_step (.main h)
    exact H.main hf h hs
  | requester h => exact H.requester hf h
  | @resolver j l e h =>
    obtain ⟨hx, ha⟩ := h.same
    refine H.congr rfl rfl ?_ ?_ (fun k hk => ?_) fun _ hk => hk
    · simp [setResolver, perform, hx]
    · simp [setResolver, perform, ha]
    · by_cases hkj : k = j
      · subst hkj
        exact absurd (h.not_over.symm.trans hk) (by simp)
      · simpa [setResolver, perform, hkj] using hk
  | @logger k l e h =>
    obtain ⟨hx, ha⟩ := h.same
    refine H.congr rfl rfl ?_ ?_ (fun _ hj => hj) fun n hn => ?_
    · simp [perform, hx]
    · simp [perform, ha]
    · by_cases hnk : n = k
      · subst hnk
        rw [hn] at h
        cases h
      · simpa [perform, hnk] using hn
  | outsiderFree | outsiderDone =>
    exact H.congr rfl rfl rfl rfl (fun _ hj => hj) fun _ hk => hk

theorem phases_reachable (H : cfg.system.Reachable s) : s.Phases := by
  induction H with
  | init h =>
    rw [h]
    refine ⟨nofun, fun u => ⟨nofun, ?_⟩, nofun, nofun, nofun, nofun, nofun, nofun⟩
    rintro ⟨_, _, h⟩
    cases h
  | step H h ih =>
    rcases (step_cases h).2 with ⟨t, c, -, h'⟩ | ⟨q, t, mv, m, -, -, rfl⟩
    · exact ih.stmt (synced_reachable H).fresh h'
    · exact ih.congr rfl rfl rfl rfl (fun _ hj => hj) fun _ hk => hk

end State
end DnsResolver
