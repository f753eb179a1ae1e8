import DnsResolver.Threaded.ThreadedShutdown

/-!
# What the strings in the queues are

`filename_queue` holds names from the command line, `hostname_queue` and `requester_logfile_queue`
hold hostnames of lines, and `resolver_logfile_queue` holds records of lines (`WellTyped`). -/

namespace DnsResolver
open Function

theorem Monitor.mem_contents {T α : Type} [Fintype T] {m : Monitor T α} {x : α} :
    x ∈ m.contents ↔ x ∈ m.items ∨ ∃ u, x ∈ (m.call u).carries := by
  simp [contents, Multiset.mem_sum]

variable {R S : Nat} {cfg : Config R S} {s s' : State R S} {t u : Tid R S} {q : QName}
  {e : Effect R S} {x : Str}

namespace Config

/-- What `dns_resolve` can come back with: an answer, or nothing for want of memory. -/
def Resolves (cfg : Config R S) (host : Bytes) (ip : Option Bytes) : Prop :=
  cfg.answers host ip = true ∨ ip = none ∧ cfg.allocFails = true

/-- The strings of each queue. -/
def Typed (cfg : Config R S) : QName → Str → Prop
  | .filenameQueue, x => ∃ i, x.src = .file i ∧ cfg.files[i]? = some x.bytes ∧
      (cfg.fs x.bytes).isSome = true
  | .resolverLogfileQueue, x => ∃ l ip, x.src = .line l ∧ x.bytes = record l.host ip ∧
      cfg.Resolves l.host ip
  | _, x => ∃ l, x.src = .line l ∧ x.bytes = l.host

end Config

/-! ## The strings of the threads -/

def RequesterLoc.Typed (cfg : Config R S) : RequesterLoc → Prop
  | .openFile f | .invalidFile f | .closeFile f => cfg.Typed .filenameQueue f
  | .readLine r | .dupLog r _ | .logRefused r _ _ | .dupHost r _ | .hostRefused r _ =>
    cfg.Typed .filenameQueue r.file
  | .putLog r l x => cfg.Typed .filenameQueue r.file ∧ x.src = .line l ∧ x.bytes = l.host
  | .putHost r x => cfg.Typed .filenameQueue r.file ∧ cfg.Typed .hostnameQueue x
  | _ => True

def ResolverLoc.Typed (cfg : Config R S) : ResolverLoc → Prop
  | .resolve h | .recordRefused h _ | .freeHost h => cfg.Typed .hostnameQueue h
  | .format h ip => cfg.Typed .hostnameQueue h ∧ cfg.Resolves h.bytes ip
  | .putRecord h x => cfg.Typed .hostnameQueue h ∧ cfg.Typed .resolverLogfileQueue x ∧ x.src = h.src
  | _ => True

def LoggerLoc.Typed (cfg : Config R S) (k : Logger) : LoggerLoc → Prop
  | .write x | .freeString x => cfg.Typed k.queue x
  | _ => True

def MainLoc.Typed (cfg : Config R S) : MainLoc → Prop
  | .enqueue i => i ≤ cfg.files.length
  | .dupFile i name => cfg.files[i]? = some name ∧ (cfg.fs name).isSome = true
  | .putFile i x | .fileRefused i x => x.src = .file i ∧ cfg.files[i]? = some x.bytes ∧
      (cfg.fs x.bytes).isSome = true
  | _ => True

theorem RequesterStep.typed {i : Fin R} {l l' : RequesterLoc} (h : RequesterStep cfg s i l l' e)
    (hl : l.Typed cfg)
    (hc : ∀ q x, x ∈ ((s.queue q).call (.requester i)).carries → cfg.Typed q x) :
    l'.Typed cfg ∧ ∀ q x, l'.op = some (q, .put x) → cfg.Typed q x := by
  cases h with
  | file hf =>
    refine ⟨hc .filenameQueue _ (by simp [hf]), nofun⟩
  | dupLog => exact ⟨⟨hl, rfl, rfl⟩, by rintro q x ⟨⟩; exact ⟨_, rfl, rfl⟩⟩
  | dupHost => exact ⟨⟨hl, _, rfl, rfl⟩, by rintro q x ⟨⟩; exact ⟨_, rfl, rfl⟩⟩
  | putLog | putLog_refused | putHost | putHost_refused => exact ⟨hl.1, nofun⟩
  | next | noFile | closeFile | invalidFile | lockReaders | decrement | decrement_last |
    freeHostname | freeRequesterLog | unlockReaders => exact ⟨trivial, nofun⟩
  | _ => exact ⟨hl, nofun⟩

theorem ResolverStep.typed {j : Fin S} {l l' : ResolverLoc} (h : ResolverStep cfg s j l l' e)
    (hl : l.Typed cfg)
    (hc : ∀ q x, x ∈ ((s.queue q).call (.resolver j)).carries → cfg.Typed q x) :
    l'.Typed cfg ∧ ∀ q x, l'.op = some (q, .put x) → cfg.Typed q x := by
  cases h with
  | host hf => exact ⟨hc .hostnameQueue _ (by simp [hf]), nofun⟩
  | answer ha | noAnswer ha => exact ⟨⟨hl, .inl ha⟩, nofun⟩
  | answer_fail ha => exact ⟨⟨hl, .inr ⟨rfl, ha⟩⟩, nofun⟩
  | @format h ip =>
    obtain ⟨⟨l, hs, hb⟩, hr⟩ := hl
    have hx : cfg.Typed .resolverLogfileQueue ⟨s.nextAddr, record h.bytes ip, h.src⟩ :=
      ⟨l, ip, hs, congrArg (record · ip) hb, hb ▸ hr⟩
    exact ⟨⟨⟨l, hs, hb⟩, hx, rfl⟩, by rintro q x ⟨⟩; exact hx⟩
  | putRecord | putRecord_refused | format_fail => exact ⟨hl.1, nofun⟩
  | next | noHost | freeHost => exact ⟨trivial, nofun⟩
  | _ => exact ⟨hl, nofun⟩

theorem LoggerStep.typed {k : Logger} {l l' : LoggerLoc} (h : LoggerStep s k l l' e)
    (hl : l.Typed cfg k)
    (hc : ∀ q x, x ∈ ((s.queue q).call (.logger k)).carries → cfg.Typed q x) :
    l'.Typed cfg k ∧ ∀ q x, l'.op k = some (q, .put x) → cfg.Typed q x := by
  cases h with
  | string hf => exact ⟨hc _ _ (by simp [hf]), nofun⟩
  | write => exact ⟨hl, nofun⟩
  | next => exact ⟨trivial, fun _ _ h => by cases h⟩
  | _ => exact ⟨trivial, nofun⟩

theorem MainStep.typed {l l' : MainLoc} (h : MainStep cfg s l l' e) (hl : l.Typed cfg) :
    l'.Typed cfg ∧ ∀ q x, l'.op = some (q, .put x) → cfg.Typed q x := by
  cases h with
  | enqueue h1 h2 => exact ⟨⟨h1, h2⟩, nofun⟩
  | dupFile => exact ⟨⟨rfl, hl⟩, by rintro q x ⟨⟩; exact ⟨_, rfl, hl⟩⟩
  | putFile_refused => exact ⟨hl, nofun⟩
  | requestersCreated => exact ⟨Nat.zero_le _, nofun⟩
  | enqueue_skip h1 => exact ⟨(List.getElem?_eq_some_iff.1 h1).1, nofun⟩
  | dupFile_fail => exact ⟨(List.getElem?_eq_some_iff.1 hl.1).1, nofun⟩
  | putFile | fileRefused => exact ⟨(List.getElem?_eq_some_iff.1 hl.2.1).1, nofun⟩
  | _ => exact ⟨trivial, nofun⟩

/-- Only the log threads write. -/
theorem RequesterStep.write {i : Fin R} {l l' : RequesterLoc} (h : RequesterStep cfg s i l l' e) :
    e.write = none := by
  cases h <;> rfl

theorem ResolverStep.write {j : Fin S} {l l' : ResolverLoc} (h : ResolverStep cfg s j l l' e) :
    e.write = none := by
  cases h <;> rfl

theorem MainStep.write {l l' : MainLoc} (h : MainStep cfg s l l' e) : e.write = none := by
  cases h <;> rfl

theorem LoggerStep.write_eq {k : Logger} {l l' : LoggerLoc} (h : LoggerStep s k l l' e) :
    e.write = none ∨ ∃ x, e.write = some (k, x) ∧ l = .write x := by
  cases h <;> simp

open State

/-- A statement brings into a queue only what it puts. -/
theorem Stmt.mem_contents (h : Stmt cfg s t s') (hx : x ∈ (s'.queue q).contents) :
    x ∈ (s.queue q).contents ∨ s'.op t = some (q, .put x) := by
  rw [Monitor.mem_contents] at hx ⊢
  rw [h.queue_eq, switch_items] at hx
  refine hx.imp_left .inl |>.elim .inl fun ⟨u, hu⟩ => ?_
  rw [switch_call] at hu
  by_cases hut : u = t
  · subst hut
    rw [if_pos rfl] at hu
    cases ho : opAt (s'.op u) q with
    | some p =>
      rw [ho] at hu
      cases p with
      | put y =>
        have hy : x = y := by simpa [Op.arg] using hu
        exact .inr (hy ▸ opAt_eq_some.1 ho)
      | get | free => simp [Op.arg] at hu
    | none =>
      simp only [ho] at hu
      split at hu
      · simp at hu
      · exact .inl (.inr ⟨u, hu⟩)
  · rw [if_neg hut] at hu
    exact .inl (.inr ⟨u, hu⟩)

namespace State

/-- Every string is what its place says. -/
structure WellTyped (cfg : Config R S) (s : State R S) : Prop where
  queue : ∀ q, ∀ x ∈ (s.queue q).contents, cfg.Typed q x
  main : s.main.Typed cfg
  requester : ∀ i, (s.requester i).loc.Typed cfg
  resolver : ∀ j, (s.resolver j).loc.Typed cfg
  logger : ∀ k, (s.logger k).Typed cfg k
  written : ∀ k, ∀ x ∈ s.logfile k, cfg.Typed k.queue x

theorem WellTyped.carries (H : s.WellTyped cfg) (q : QName) (t : Tid R S) :
    ∀ x ∈ ((s.queue q).call t).carries, cfg.Typed q x :=
  fun x hx => H.queue q x (Monitor.mem_contents.2 (.inr ⟨t, hx⟩))

theorem WellTyped.stmt (H : s.WellTyped cfg) (hf : s.Fresh) (h : Stmt cfg s t s') :
    s'.WellTyped cfg := by
  have hq (hp : ∀ q x, s'.op t = some (q, .put x) → cfg.Typed q x) (q : QName) :
      ∀ x ∈ (s'.queue q).contents, cfg.Typed q x := fun x hx =>
    (h.mem_contents hx).elim (H.queue q x) (hp q x)
  cases h with
  | @main l e h =>
    obtain ⟨h1, h2⟩ := h.typed H.main
    refine ⟨hq h2, h1, fun i => ?_, fun j => ?_, fun k => ?_, ?_⟩
    · simp only [perform_spawn]
      rcases (spawn_last hf h i).2.2.2 with h0 | ⟨-, h0 | h0⟩ <;> rw [h0]
      · exact H.requester i
      · trivial
      · trivial
    · simp only [perform_spawn]
      rcases (spawn_resolver hf h j).2 with h0 | ⟨-, h0, -⟩ <;> rw [h0]
      · exact H.resolver j
      · trivial
    · simp only [perform_spawn]
      rcases spawn_logger hf h k with h0 | ⟨-, h0, -⟩ <;> rw [h0]
      · exact H.logger k
      · trivial
    · simpa [spawn_same, perform, h.write] using H.written
  | @requester i l e h =>
    obtain ⟨h1, h2⟩ := h.typed (H.requester i) fun q => H.carries q _
    refine ⟨hq fun q x hx => h2 q x ?_, H.main, fun k => ?_, H.resolver, H.logger, ?_⟩
    · simpa [State.op] using hx
    · by_cases hki : k = i
      · subst hki
        simpa using h1
      · rw [setRequester_of_ne _ _ hki]
        exact H.requester k
    · simpa [setRequester, perform, h.write] using H.written
  | @resolver j l e h =>
    obtain ⟨h1, h2⟩ := h.typed (H.resolver j) fun q => H.carries q _
    refine ⟨hq fun q x hx => h2 q x ?_, H.main, H.requester, fun k => ?_, H.logger, ?_⟩
    · simpa [State.op] using hx
    · by_cases hkj : k = j
      · subst hkj
        simpa using h1
      · rw [setResolver_of_ne _ _ hkj]
        exact H.resolver k
    · simpa [setResolver, perform, h.write] using H.written
  | @logger n l e h =>
    obtain ⟨h1, h2⟩ := h.typed (H.logger n) fun q => H.carries q _
    refine ⟨hq fun q x hx => h2 q x ?_, H.main, H.requester, H.resolver, fun k => ?_, fun k x hx => ?_⟩
    · simpa [State.op] using hx
    · by_cases hkn : k = n
      · subst hkn
        simpa using h1
      · simpa [hkn] using H.logger k
    · rcases h.write_eq with he | ⟨y, he, hy⟩
      · refine H.written k x ?_
        simpa [perform, he] using hx
      · have hn := H.logger n
        simp only [perform, he] at hx
        by_cases hkn : k = n
        · subst hkn
          rw [update_self, List.mem_append, List.mem_singleton] at hx
          rcases hx with hx | rfl
          · exact H.written k x hx
          · rwa [hy] at hn
        · rw [update_of_ne hkn] at hx
          exact H.written k x hx
  | outsiderFree | outsiderDone =>
    refine ⟨hq fun q x hx => ?_, H.main, H.requester, H.resolver, H.logger, H.written⟩
    simp only [State.op] at hx
    split at hx <;> cases hx

theorem wellTyped_reachable (H : cfg.system.Reachable s) : s.WellTyped cfg := by
  induction H with
  | init h =>
    rw [h]
    refine ⟨fun q x hx => ?_, trivial, fun _ => trivial, fun _ => trivial, fun _ => trivial, nofun⟩
    simp [Monitor.mem_contents, init, Monitor.init, Monitor.items] at hx
  | @step s _ _ H h ih =>
    rcases (step_cases h).2 with ⟨t, c, -, h'⟩ | ⟨q', t, mv, m, -, h', rfl⟩
    · exact ih.stmt (synced_reachable H).fresh h'
    · refine ⟨fun q x hx => ih.queue q x ?_, ih.main, ih.requester, ih.resolver, ih.logger,
        ih.written⟩
      rwa [contents_call (queue_inv H q') h'] at hx

end State
end DnsResolver
