import DnsResolver.Threaded.ThreadedSteps
import DnsResolver.Array.ArrayContents

/-!
# The queues of the program

Each of the four queues of a reachable state is a reachable queue in the sense of
`Monitor.system` (`queue_reachable`), so every theorem about one queue holds of all four. The
invariant behind it is that the call a queue sees of a thread is the one the thread's control
point says (`Synced`). -/

namespace DnsResolver
open Function

variable {R S : Nat} {cfg : Config R S} {s s' : State R S} {t u : Tid R S} {q : QName}

namespace State

/-- The operation of a call on queue `q`. -/
def opAt (o : Option (QName × Op Str)) (q : QName) : Option (Op Str) :=
  o.bind fun p => if p.1 = q then some p.2 else none

@[simp] theorem opAt_none : opAt none q = none := rfl

theorem opAt_eq_some {o : Option (QName × Op Str)} {p : Op Str} :
    opAt o q = some p ↔ o = some (q, p) := by
  cases o with
  | none => simp
  | some x =>
    obtain ⟨q', p'⟩ := x
    simp [opAt]

/-- Who puts on which queue, and where. -/
theorem op_put {x : Str} : s.op t = some (q, .put x) →
    match q with
    | .filenameQueue => t = .main ∧ ∃ i, s.main = .putFile i x
    | .hostnameQueue => ∃ i, t = .requester i ∧ ∃ r, (s.requester i).loc = .putHost r x
    | .requesterLogfileQueue => ∃ i, t = .requester i ∧ ∃ r l, (s.requester i).loc = .putLog r l x
    | .resolverLogfileQueue => ∃ j, t = .resolver j ∧ ∃ y, (s.resolver j).loc = .putRecord y x := by
  intro h
  cases t with
  | main =>
    simp only [op] at h
    cases hl : s.main <;> rw [hl] at h <;> cases h
    exact ⟨rfl, _, rfl⟩
  | requester i =>
    simp only [op] at h
    cases hl : (s.requester i).loc <;> rw [hl] at h <;> cases h
    · exact ⟨i, rfl, _, _, hl⟩
    · exact ⟨i, rfl, _, hl⟩
  | resolver j =>
    simp only [op] at h
    cases hl : (s.resolver j).loc <;> rw [hl] at h <;> cases h
    exact ⟨j, rfl, _, hl⟩
  | logger k =>
    simp only [op] at h
    cases hl : s.logger k <;> rw [hl] at h <;> cases h
  | outsider q' =>
    simp only [op] at h
    split at h <;> cases h

/-- Who gets from which queue, and where. -/
theorem op_get : s.op t = some (q, .get) →
    match q with
    | .filenameQueue => ∃ i, t = .requester i ∧ (s.requester i).loc = .getFile
    | .hostnameQueue => ∃ j, t = .resolver j ∧ (s.resolver j).loc = .getHost
    | .requesterLogfileQueue => t = .logger .requesterLog ∧ s.logger .requesterLog = .get
    | .resolverLogfileQueue => t = .logger .resolverLog ∧ s.logger .resolverLog = .get := by
  intro h
  cases t with
  | main =>
    simp only [op] at h
    cases hl : s.main <;> rw [hl] at h <;> cases h
  | requester i =>
    simp only [op] at h
    cases hl : (s.requester i).loc <;> rw [hl] at h <;> cases h
    exact ⟨i, rfl, hl⟩
  | resolver j =>
    simp only [op] at h
    cases hl : (s.resolver j).loc <;> rw [hl] at h <;> cases h
    exact ⟨j, rfl, hl⟩
  | logger k =>
    simp only [op] at h
    cases hl : s.logger k <;> rw [hl] at h <;> cases h
    cases k <;> exact ⟨rfl, hl⟩
  | outsider q' =>
    simp only [op] at h
    split at h <;> cases h

/-! ## Leaving and entering calls -/

variable {queue : QName → Monitor (Tid R S) Str} {o o' : Option (QName × Op Str)}

theorem leave_apply (queue : QName → Monitor (Tid R S) Str) (t : Tid R S)
    (o : Option (QName × Op Str)) (q : QName) :
    leave queue t o q = if (opAt o q).isSome then (queue q).leave t else queue q := by
  rcases o with _ | ⟨q₀, p⟩
  · rfl
  · by_cases h : q = q₀
    · subst h
      simp [leave, opAt]
    · simp [leave, opAt, h, Ne.symm h]

theorem enter_apply (queue : QName → Monitor (Tid R S) Str) (t : Tid R S)
    (o : Option (QName × Op Str)) (q : QName) :
    enter queue t o q = match opAt o q with
      | some p => (queue q).begin t p
      | none => queue q := by
  rcases o with _ | ⟨q₀, p⟩
  · rfl
  · by_cases h : q = q₀
    · subst h
      simp [enter, opAt]
    · simp [enter, opAt, h, Ne.symm h]

theorem switch_call (q : QName) (u : Tid R S) :
    (enter (leave queue t o) t o' q).call u =
      if u = t then
        match opAt o' q with
        | some p => p.start
        | none => if (opAt o q).isSome then .idle else (queue q).call t
      else (queue q).call u := by
  rw [enter_apply, leave_apply]
  by_cases hu : u = t
  · subst hu
    cases opAt o' q <;> cases opAt o q <;> simp [Monitor.begin, Monitor.leave]
  · cases opAt o' q <;> cases opAt o q <;> simp [Monitor.begin, Monitor.leave, hu]

/-- Outside the calls a statement changes nothing in a queue. -/
theorem switch_stable {β : Type} {f : Monitor (Tid R S) Str → β}
    (hl : ∀ m, f (m.leave t) = f m) (hb : ∀ m p, f (m.begin t p) = f m) (q : QName) :
    f (enter (leave queue t o) t o' q) = f (queue q) := by
  rw [enter_apply, leave_apply]
  cases opAt o' q <;> cases opAt o q <;> simp [hl, hb]

@[simp] theorem switch_arr : (enter (leave queue t o) t o' q).arr = (queue q).arr :=
  switch_stable (f := Monitor.arr) (fun _ => rfl) (fun _ _ => rfl) q

@[simp] theorem switch_accepted :
    (enter (leave queue t o) t o' q).ghost.accepted = (queue q).ghost.accepted :=
  switch_stable (f := fun m => m.ghost.accepted) (fun _ => rfl) (fun _ _ => rfl) q

@[simp] theorem switch_delivered :
    (enter (leave queue t o) t o' q).ghost.delivered = (queue q).ghost.delivered :=
  switch_stable (f := fun m => m.ghost.delivered) (fun _ => rfl) (fun _ _ => rfl) q

@[simp] theorem switch_items :
    (enter (leave queue t o) t o' q).items = (queue q).items :=
  switch_stable (f := Monitor.items) (fun _ => rfl) (fun _ _ => rfl) q

/-- To leave a returned call and to enter the next one are steps of the queue. -/
theorem switch_leads {N : Nat} (hd : ∀ p, opAt o q = some p → ((queue q).call t).done = true)
    (hi : opAt o q = none → (queue q).call t = .idle) :
    (Monitor.system (Tid R S) Str N).Leads (queue q) (enter (leave queue t o) t o' q) := by
  have hl : (Monitor.system (Tid R S) Str N).Leads (queue q) (leave queue t o q) := by
    rw [leave_apply]
    cases h : opAt o q with
    | none => exact .refl
    | some p =>
      have hs : (queue q).step N (.leave t) = some ((queue q).leave t) := if_pos (hd p h)
      exact .single hs
  refine hl.trans ?_
  rw [enter_apply]
  cases h : opAt o' q with
  | none => exact .refl
  | some p =>
    have hc : (leave queue t o q).call t = .idle := by
      rw [leave_apply]
      cases h : opAt o q with
      | none => exact hi h
      | some p => simp [Monitor.leave]
    have hs : (leave queue t o q).step N (.begin t p) = some ((leave queue t o q).begin t p) := by
      simp only [Monitor.step, hc]
    exact .single hs

end State

/-! ## Threads that are not yet created -/

def MainLoc.toCreateRequester (i : Nat) : MainLoc → Bool
  | .createLogger _ | .allocTables | .abort _ | .abortFree .. | .exited | .setReaders => true
  | .createRequester k | .createFailed k => k ≤ i
  | _ => false

def MainLoc.toCreateResolver (j : Nat) : MainLoc → Bool
  | .createResolver k => k ≤ j
  | .freeFilename | .joinRequester _ | .joinResolver _ | .freeRequesterLog => false
  | .freeResolverLog | .joinLogger _ | .returned => false
  | _ => true

def MainLoc.toCreateLogger (l : Logger) : MainLoc → Bool
  | .createLogger .requesterLog => true
  | .createLogger .resolverLog => l == .resolverLog
  | _ => false

namespace State

/-- Threads that `main` has still to create are idle. -/
structure Fresh (s : State R S) : Prop where
  requester : ∀ i : Fin R, s.main.toCreateRequester i = true → (s.requester i).loc = .idle
  resolver : ∀ j : Fin S, s.main.toCreateResolver j = true → (s.resolver j).loc = .idle
  logger : ∀ l, s.main.toCreateLogger l = true → s.logger l = .idle

end State

variable {l l' : MainLoc} {e : Effect R S}

theorem MainStep.toCreate (h : MainStep cfg s l l' e) :
    (∀ i, l'.toCreateRequester i = true → l.toCreateRequester i = true) ∧
    (∀ j, l'.toCreateResolver j = true → l.toCreateResolver j = true) ∧
    (∀ k, l'.toCreateLogger k = true → l.toCreateLogger k = true) := by
  cases h <;> refine ⟨?_, ?_, ?_⟩ <;> intro i <;>
    simp [MainLoc.toCreateRequester, MainLoc.toCreateResolver, MainLoc.toCreateLogger]
  all_goals omega

/-- `main` creates only threads it had still to create. -/
theorem MainStep.spawn (h : MainStep cfg s l l' e) :
    match e.spawn with
    | .nobody => True
    | .logger k => l.toCreateLogger k = true ∧ l'.toCreateLogger k = false
    | .requester i c => l.toCreateRequester i = true ∧ (c = true → l'.toCreateRequester i = false)
    | .failed i => l.toCreateRequester i = true ∧ l'.toCreateRequester i = false
    | .resolver j c => l.toCreateResolver j = true ∧ (c = true → l'.toCreateResolver j = false) := by
  cases h <;> simp [MainLoc.toCreateRequester, MainLoc.toCreateResolver, MainLoc.toCreateLogger]

namespace State

/-- A requester that a creation touches was idle. -/
theorem spawn_requester (H : s.Fresh) (h : MainStep cfg s s.main l' e) (i : Fin R) :
    let r := (s.spawn e.spawn).requester i
    r = { s.requester i with seqId := r.seqId, loc := r.loc } ∧
    (r.loc = (s.requester i).loc ∨
      (s.requester i).loc = .idle ∧ (r.loc = .next ∨ r.loc = .failed) ∧
        l'.toCreateRequester i = false) := by
  have hs := h.spawn
  generalize e.spawn = sp at *
  cases sp with
  | nobody | logger k | resolver j c => exact ⟨rfl, .inl rfl⟩
  | requester k c =>
    by_cases hk : i = k
    · subst hk
      refine ⟨by simp [spawn], ?_⟩
      cases c
      · exact .inl (by simp [spawn])
      · exact .inr ⟨H.requester i hs.1, .inl (by simp [spawn]), hs.2 rfl⟩
    · simp [spawn, hk]
  | failed k =>
    by_cases hk : i = k
    · subst hk
      exact ⟨by simp [spawn], .inr ⟨H.requester i hs.1, .inr (by simp [spawn]), hs.2⟩⟩
    · simp [spawn, hk]

theorem spawn_resolver (H : s.Fresh) (h : MainStep cfg s s.main l' e) (j : Fin S) :
    let r := (s.spawn e.spawn).resolver j
    r = { s.resolver j with seqId := r.seqId, loc := r.loc } ∧
    (r.loc = (s.resolver j).loc ∨
      (s.resolver j).loc = .idle ∧ r.loc = .next ∧ l'.toCreateResolver j = false) := by
  have hs := h.spawn
  generalize e.spawn = sp at *
  cases sp with
  | nobody | logger k | requester i c | failed i => exact ⟨rfl, .inl rfl⟩
  | resolver k c =>
    by_cases hk : j = k
    · subst hk
      refine ⟨by simp [spawn], ?_⟩
      cases c
      · exact .inl (by simp [spawn])
      · exact .inr ⟨H.resolver j hs.1, by simp [spawn], hs.2 rfl⟩
    · simp [spawn, hk]

theorem spawn_logger (H : s.Fresh) (h : MainStep cfg s s.main l' e) (k : Logger) :
    let r := (s.spawn e.spawn).logger k
    r = s.logger k ∨ s.logger k = .idle ∧ r = .next ∧ l'.toCreateLogger k = false := by
  have hs := h.spawn
  generalize e.spawn = sp at *
  cases sp with
  | nobody | resolver k c | requester i c | failed i => exact .inl rfl
  | logger n =>
    by_cases hk : k = n
    · subst hk
      exact .inr ⟨H.logger k hs.1, by simp [spawn], hs.2⟩
    · exact .inl (by simp [spawn, hk])

variable (s) in
@[simp] theorem perform_spawn (t : Tid R S) (o o' : Option (QName × Op Str)) (e : Effect R S)
    (sp : Spawn R S) :
    ((s.perform t o o' e).spawn sp).requester = (s.spawn sp).requester ∧
    ((s.perform t o o' e).spawn sp).resolver = (s.spawn sp).resolver ∧
    ((s.perform t o o' e).spawn sp).logger = (s.spawn sp).logger := by
  cases sp <;> exact ⟨rfl, rfl, rfl⟩

variable (s) in
/-- What `pthread_create` leaves alone. -/
theorem spawn_same (sp : Spawn R S) :
    (s.spawn sp).queue = s.queue ∧ (s.spawn sp).outsider = s.outsider ∧
    (s.spawn sp).fileReaderMutex = s.fileReaderMutex ∧
    (s.spawn sp).activeFileReaders = s.activeFileReaders ∧
    (s.spawn sp).nextAddr = s.nextAddr ∧ (s.spawn sp).freed = s.freed ∧
    (s.spawn sp).logfile = s.logfile ∧ (s.spawn sp).dropped = s.dropped := by
  cases sp <;> exact ⟨rfl, rfl, rfl, rfl, rfl, rfl, rfl, rfl⟩

@[simp] theorem setRequester_self (i : Fin R) (l : RequesterLoc) (e : Effect R S) :
    (s.setRequester i l e).requester i =
      let r := s.requester i
      { r with
        loc := l
        filesServiced := r.filesServiced + e.serviced
        dequeued := r.dequeued ++ e.dequeued
        opened := r.opened ++ e.opened
        last := r.last || e.last } := by
  simp [setRequester]

theorem setRequester_of_ne {i k : Fin R} (l : RequesterLoc) (e : Effect R S) (h : k ≠ i) :
    (s.setRequester i l e).requester k = s.requester k := by
  simp [setRequester, h]

@[simp] theorem setResolver_self (j : Fin S) (l : ResolverLoc) (e : Effect R S) :
    (s.setResolver j l e).resolver j =
      let r := s.resolver j
      { r with
        loc := l
        hostsResolved := r.hostsResolved + e.resolved } := by
  simp [setResolver]

theorem setResolver_of_ne {j k : Fin S} (l : ResolverLoc) (e : Effect R S) (h : k ≠ j) :
    (s.setResolver j l e).resolver k = s.resolver k := by
  simp [setResolver, h]

/-- What the shared effects leave alone. -/
@[simp] theorem perform_same (t : Tid R S) (o o' : Option (QName × Op Str)) (e : Effect R S) :
    (s.perform t o o' e).main = s.main ∧ (s.perform t o o' e).requester = s.requester ∧
    (s.perform t o o' e).resolver = s.resolver ∧ (s.perform t o o' e).logger = s.logger ∧
    (s.perform t o o' e).outsider = s.outsider := ⟨rfl, rfl, rfl, rfl, rfl⟩

/-! ## The calls are the ones of the control points -/

theorem Fresh.stmt (H : s.Fresh) (h : Stmt cfg s t s') : s'.Fresh := by
  cases h with
  | main h =>
    have hm := h.toCreate
    refine ⟨fun i hi => ?_, fun j hj => ?_, fun k hk => ?_⟩
    · rcases (spawn_requester H h i).2 with he | ⟨-, -, hn⟩
      · simpa [he] using H.requester i (hm.1 i hi)
      · exact absurd (hi.symm.trans hn) nofun
    · rcases (spawn_resolver H h j).2 with he | ⟨-, -, hn⟩
      · simpa [he] using H.resolver j (hm.2.1 j hj)
      · exact absurd (hj.symm.trans hn) nofun
    · rcases spawn_logger H h k with he | ⟨-, -, hn⟩
      · simpa [he] using H.logger k (hm.2.2 k hk)
      · exact absurd (hk.symm.trans hn) nofun
  | @requester i l e h =>
    refine ⟨fun k hk => ?_, H.resolver, H.logger⟩
    have hi := H.requester k hk
    by_cases hki : k = i
    · subst hki
      rw [hi] at h
      cases h
    · simpa [setRequester, perform, hki] using hi
  | @resolver i l e h =>
    refine ⟨H.requester, fun k hk => ?_, H.logger⟩
    have hi := H.resolver k hk
    by_cases hki : k = i
    · subst hki
      rw [hi] at h
      cases h
    · simpa [setResolver, perform, hki] using hi
  | @logger l k e h =>
    refine ⟨H.requester, H.resolver, fun k hk => ?_⟩
    have hi := H.logger k hk
    by_cases hki : k = l
    · subst hki
      rw [hi] at h
      cases h
    · simpa [perform, hki] using hi
  | outsiderFree | outsiderDone => exact ⟨H.requester, H.resolver, H.logger⟩

end State

theorem RequesterStep.done {i : Fin R} {l l' : RequesterLoc} (h : RequesterStep cfg s i l l' e)
    {p : Op Str} (hp : l.op = some (q, p)) :
    ((s.queue q).call (.requester i)).done = true := by
  cases h <;> cases hp <;> simp_all [Call.done]

theorem ResolverStep.done {j : Fin S} {l l' : ResolverLoc} (h : ResolverStep cfg s j l l' e)
    {p : Op Str} (hp : l.op = some (q, p)) :
    ((s.queue q).call (.resolver j)).done = true := by
  cases h <;> cases hp <;> simp_all [Call.done]

theorem LoggerStep.done {k : Logger} {l l' : LoggerLoc} (h : LoggerStep s k l l' e)
    {p : Op Str} (hp : l.op k = some (q, p)) : ((s.queue q).call (.logger k)).done = true := by
  cases h <;> cases hp <;> simp_all [Call.done]

theorem MainStep.done (h : MainStep cfg s l l' e) {p : Op Str} (hp : l.op = some (q, p)) :
    ((s.queue q).call .main).done = true := by
  cases h <;> cases hp <;> simp_all [Call.done]

namespace Stmt
open State

/-- A statement leaves the call the thread was in and enters the one it is then in. -/
theorem queue_eq (h : Stmt cfg s t s') :
    s'.queue = enter (leave s.queue t (s.op t)) t (s'.op t) := by
  cases h with
  | main h =>
    simp only [(spawn_same _ _).1]
    rfl
  | requester h => simp [setRequester, perform, State.op]
  | resolver h => simp [setResolver, perform, State.op]
  | logger h => simp [perform, State.op]
  | outsiderFree _ hq => simp [perform, State.op, hq]
  | outsiderDone _ hq => simp [perform, State.op, hq]

/-- Another thread stays where it is, unless it is created. -/
def Other (s s' : State R S) : Tid R S → Prop
  | .main => s'.main = s.main
  | .requester i =>
    let r := s'.requester i
    r = { s.requester i with seqId := r.seqId, loc := r.loc } ∧
    (r.loc = (s.requester i).loc ∨
      (s.requester i).loc = .idle ∧ (r.loc = .next ∨ r.loc = .failed))
  | .resolver j =>
    let r := s'.resolver j
    r = { s.resolver j with seqId := r.seqId, loc := r.loc } ∧
    (r.loc = (s.resolver j).loc ∨ (s.resolver j).loc = .idle ∧ r.loc = .next)
  | .logger k => s'.logger k = s.logger k ∨ s.logger k = .idle ∧ s'.logger k = .next
  | .outsider q => s'.outsider q = s.outsider q

theorem other_of_eq (hm : s'.main = s.main) (hr : ∀ i, u = .requester i → s'.requester i = s.requester i)
    (hv : ∀ j, u = .resolver j → s'.resolver j = s.resolver j)
    (hl : ∀ k, u = .logger k → s'.logger k = s.logger k)
    (ho : ∀ q, u = .outsider q → s'.outsider q = s.outsider q) : Other s s' u := by
  cases u with
  | main => exact hm
  | requester i =>
    rw [Other, hr i rfl]
    exact ⟨rfl, .inl rfl⟩
  | resolver j =>
    rw [Other, hv j rfl]
    exact ⟨rfl, .inl rfl⟩
  | logger k => exact .inl (hl k rfl)
  | outsider q => exact ho q rfl

theorem other (H : s.Fresh) (h : Stmt cfg s t s') (hu : u ≠ t) : Other s s' u := by
  cases h with
  | main h =>
    cases u with
    | main => exact absurd rfl hu
    | requester i =>
      obtain ⟨h1, h2⟩ := spawn_requester H h i
      simp only [Other, perform_spawn]
      exact ⟨h1, h2.imp_right fun ⟨h3, h4, _⟩ => ⟨h3, h4⟩⟩
    | resolver j =>
      obtain ⟨h1, h2⟩ := spawn_resolver H h j
      simp only [Other, perform_spawn]
      exact ⟨h1, h2.imp_right fun ⟨h3, h4, _⟩ => ⟨h3, h4⟩⟩
    | logger k =>
      simp only [Other, perform_spawn]
      exact (spawn_logger H h k).imp_right fun ⟨h3, h4, _⟩ => ⟨h3, h4⟩
    | outsider q => simp [Other, spawn_same, perform]
  | @requester i l e h =>
    refine other_of_eq rfl (fun k e => ?_) (fun _ _ => rfl) (fun _ _ => rfl) fun _ _ => rfl
    subst e
    exact update_of_ne (fun e => hu (congrArg Tid.requester e)) ..
  | @resolver j l e h =>
    refine other_of_eq rfl (fun _ _ => rfl) (fun k e => ?_) (fun _ _ => rfl) fun _ _ => rfl
    subst e
    exact update_of_ne (fun e => hu (congrArg Tid.resolver e)) ..
  | @logger l k e h =>
    refine other_of_eq rfl (fun _ _ => rfl) (fun _ _ => rfl) (fun k e => ?_) fun _ _ => rfl
    subst e
    exact update_of_ne (fun e => hu (congrArg Tid.logger e)) ..
  | @outsiderFree q | @outsiderDone q =>
    refine other_of_eq rfl (fun _ _ => rfl) (fun _ _ => rfl) (fun _ _ => rfl) fun k e => ?_
    subst e
    exact update_of_ne (fun e => hu (congrArg Tid.outsider e)) ..

theorem op_of_ne (H : s.Fresh) (h : Stmt cfg s t s') (hu : u ≠ t) : s'.op u = s.op u := by
  have ho := h.other H hu
  cases u with
  | main => exact congrArg MainLoc.op ho
  | requester i =>
    rcases ho.2 with he | ⟨he, h' | h'⟩
    · exact congrArg RequesterLoc.op he
    all_goals
      simp only [State.op, he, h']
      rfl
  | resolver j =>
    rcases ho.2 with he | ⟨he, h'⟩
    · exact congrArg ResolverLoc.op he
    · simp only [State.op, he, h']
      rfl
  | logger k =>
    rcases ho with he | ⟨he, h'⟩
    · exact congrArg (LoggerLoc.op k) he
    · simp only [State.op, he, h']
      rfl
  | outsider q =>
    have ho : s'.outsider q = s.outsider q := ho
    simp only [State.op, ho]

theorem done (h : Stmt cfg s t s') {p : Op Str} (hp : s.op t = some (q, p)) :
    ((s.queue q).call t).done = true := by
  cases h with
  | main h => exact h.done hp
  | requester h => exact h.done hp
  | resolver h => exact h.done hp
  | logger h => exact h.done hp
  | outsiderFree _ hq => simp [State.op, hq] at hp
  | outsiderDone _ hq hd =>
    simp only [State.op, hq, if_true, Option.some.injEq, Prod.mk.injEq] at hp
    rw [← hp.1, hd]
    rfl

end Stmt

namespace State

/-- The calls that the queues see are the ones the threads are in. -/
structure Synced (s : State R S) : Prop where
  fresh : s.Fresh
  op : ∀ q t, ((s.queue q).call t).op = opAt (s.op t) q

theorem Synced.call_idle (H : s.Synced) (h : opAt (s.op t) q = none) :
    (s.queue q).call t = .idle := by
  rw [← Call.op_eq_none, H.op q t, h]

/-- The calls that the queues see of a thread at a control point with operation `o`. -/
def InCall (s : State R S) (t : Tid R S) (o : Option (QName × Op Str)) : Prop :=
  ∀ q p, o = some (q, p) → ((s.queue q).call t).op = some p

theorem Synced.inCall (H : s.Synced) (t : Tid R S) : s.InCall t (s.op t) := by
  intro q p h
  rw [H.op q t, h]
  simp [opAt]

theorem Synced.stmt (H : s.Synced) (h : Stmt cfg s t s') : s'.Synced := by
  refine ⟨H.fresh.stmt h, fun q u => ?_⟩
  rw [h.queue_eq, switch_call]
  by_cases hu : u = t
  · subst hu
    rw [if_pos rfl]
    cases ho' : opAt (s'.op u) q with
    | some p => simp
    | none =>
      cases ho : opAt (s.op u) q with
      | none => simpa [ho] using H.op q u
      | some p => simp
  · rw [if_neg hu, h.op_of_ne H.fresh hu]
    exact H.op q u

/-- A step of the program is a statement of a thread or a move inside a call. -/
theorem step_cases {a : Act R S} (h : s.step cfg a = some s') : s.ended = false ∧
    ((∃ t c, a = .stmt t c ∧ Stmt cfg s t s') ∨
     ∃ q t mv m, a = .call q t mv ∧ (s.queue q).move cfg.arraySize t mv = some m ∧
      s' = s.setQueue q m) := by
  cases a with
  | stmt t c =>
    simp only [step] at h
    split at h
    · cases h
    · rename_i he
      exact ⟨Bool.not_eq_true _ ▸ he, .inl ⟨t, c, rfl, stmt_cases h⟩⟩
  | call q t mv =>
    simp only [step] at h
    split at h
    · cases h
    · rename_i he
      obtain ⟨m, hm, rfl⟩ := Option.map_eq_some_iff.1 h
      exact ⟨Bool.not_eq_true _ ▸ he, .inr ⟨q, t, mv, m, rfl, hm, rfl⟩⟩

variable (s) in
@[simp] theorem setQueue_op (q : QName) (m : Monitor (Tid R S) Str) (u : Tid R S) :
    (s.setQueue q m).op u = s.op u := by
  cases u <;> rfl

@[simp] theorem setQueue_self (m : Monitor (Tid R S) Str) : (s.setQueue q m).queue q = m := by
  simp [setQueue]

theorem setQueue_of_ne {q' : QName} (m : Monitor (Tid R S) Str) (h : q' ≠ q) :
    (s.setQueue q m).queue q' = s.queue q' := by
  simp [setQueue, h]

theorem call_of_ne (h : Stmt cfg s t s') (hu : u ≠ t) (q : QName) :
    (s'.queue q).call u = (s.queue q).call u := by
  rw [h.queue_eq, switch_call, if_neg hu]

/-- After a statement its thread starts the call it enters and is in no other. -/
theorem Synced.call_self (H : s.Synced) (h : Stmt cfg s t s') (q : QName) :
    (s'.queue q).call t = ((opAt (s'.op t) q).map Op.start).getD .idle := by
  rw [h.queue_eq, switch_call, if_pos rfl]
  cases ho' : opAt (s'.op t) q with
  | some p => rfl
  | none =>
    cases ho : opAt (s.op t) q with
    | none => simpa using H.call_idle ho
    | some p => rfl

theorem Synced.step {a : Act R S} (H : s.Synced) (h : s.step cfg a = some s') : s'.Synced := by
  rcases (step_cases h).2 with ⟨t, c, -, h'⟩ | ⟨q, t, mv, m, -, h', rfl⟩
  · exact H.stmt h'
  · refine ⟨⟨H.fresh.requester, H.fresh.resolver, H.fresh.logger⟩, fun q' u => ?_⟩
    by_cases hq : q' = q
    · subst hq
      simpa [Monitor.move_op h'] using H.op q' u
    · simpa [setQueue_of_ne m hq] using H.op q' u

theorem synced_reachable (H : cfg.system.Reachable s) : s.Synced := by
  induction H with
  | init h =>
    rw [h]
    exact ⟨⟨fun _ _ => rfl, fun _ _ => rfl, fun _ _ => rfl⟩, fun q t => by cases t <;> rfl⟩
  | step _ h ih => exact ih.step h

/-! ## Each queue is a reachable queue -/

theorem Synced.queue_leads {a : Act R S} (H : s.Synced) (h : s.step cfg a = some s') (q : QName) :
    (Monitor.system (Tid R S) Str cfg.arraySize).Leads (s.queue q) (s'.queue q) := by
  rcases (step_cases h).2 with ⟨t, c, -, h'⟩ | ⟨q', t, mv, m, -, h', rfl⟩
  · rw [h'.queue_eq]
    refine switch_leads (fun p hp => h'.done (opAt_eq_some.1 hp)) fun hn => ?_
    rw [← Call.op_eq_none, H.op q t, hn]
  · by_cases hq : q = q'
    · subst hq
      have hs : (s.queue q).step cfg.arraySize (.move t mv) = some m := h'
      simpa using TransitionSystem.Leads.single hs
    · rw [setQueue_of_ne m hq]
      exact .refl

theorem queue_simulation (cfg : Config R S) (q : QName) :
    TransitionSystem.Simulation cfg.system (Monitor.system (Tid R S) Str cfg.arraySize)
      fun s => s.queue q where
  init := by
    rintro _ rfl
    rfl
  step _ _ _ H h := (synced_reachable H).queue_leads h q

theorem queue_reachable (H : cfg.system.Reachable s) (q : QName) :
    (Monitor.system (Tid R S) Str cfg.arraySize).Reachable (s.queue q) :=
  H.simulation (f := fun s => s.queue q) (queue_simulation cfg q)

theorem queue_inv (H : cfg.system.Reachable s) (q : QName) : (s.queue q).Inv cfg.arraySize :=
  Monitor.inv_reachable cfg.two_le (queue_reachable H q)

/-- What a queue has accepted and delivered only grows. -/
theorem history_step {a : Act R S} (H : cfg.system.Reachable s) (h : s.step cfg a = some s')
    (q : QName) : (s.queue q).ghost.accepted <+: (s'.queue q).ghost.accepted ∧
      (s.queue q).ghost.delivered <+: (s'.queue q).ghost.delivered := by
  rcases (step_cases h).2 with ⟨t, c, -, h'⟩ | ⟨q', t, mv, m, -, h', rfl⟩
  · rw [h'.queue_eq, switch_accepted, switch_delivered]
    exact ⟨List.prefix_refl _, List.prefix_refl _⟩
  · by_cases hq : q = q'
    · subst hq
      rw [setQueue_self]
      cases (queue_inv H q).moveView h' with
      | stay _ ha hd =>
        rw [ha, hd]
        exact ⟨List.prefix_refl _, List.prefix_refl _⟩
      | accept x _ _ _ _ _ ha hd =>
        rw [ha, hd]
        exact ⟨List.prefix_append .., List.prefix_refl _⟩
      | deliver x _ _ _ _ _ ha hd =>
        rw [ha, hd]
        exact ⟨List.prefix_refl _, List.prefix_append ..⟩
    · rw [setQueue_of_ne m hq]
      exact ⟨List.prefix_refl _, List.prefix_refl _⟩

/-- A move inside a call leaves the strings of every queue and the calls on it the same. -/
theorem contents_call {mv : Move (Tid R S)} {m : Monitor (Tid R S) Str}
    (hi : (s.queue q).Inv cfg.arraySize) (h : (s.queue q).move cfg.arraySize t mv = some m)
    (q' : QName) : ((s.setQueue q m).queue q').contents = (s.queue q').contents := by
  by_cases hq : q' = q
  · subst hq
    rw [setQueue_self, hi.contents_eq h]
  · rw [setQueue_of_ne m hq]

end State
end DnsResolver
