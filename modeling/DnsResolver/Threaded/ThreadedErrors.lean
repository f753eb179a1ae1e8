import DnsResolver.Threaded.ThreadedMessages

/-!
# The standard error output of a run in which nothing fails

When nothing fails the only messages are those of `dns_resolve` about hostnames without an address
(`stderr_eq`), one for each hostname that a resolver has looked up in vain (`lookups_reachable`). -/

namespace DnsResolver
open Function

variable {R S : Nat} {cfg : Config R S} {s s' : State R S} {t u : Tid R S} {e : Effect R S}
  {dns : Bytes → Option Bytes} {q : QName}

/-- Nothing fails, no other thread interferes, and the system resolver has one answer to each
hostname. -/
structure Config.Reliable (cfg : Config R S) (dns : Bytes → Option Bytes) : Prop where
  outsiders : cfg.outsiders = false
  allocFails : cfg.allocFails = false
  createFails : cfg.createFails = false
  openFails : cfg.openFails = false
  answers : ∀ h ip, cfg.answers h ip = true → ip = dns h

/-- The hostname of a message of `dns_resolve`. -/
def Diag.unresolved : Diag → Option Bytes
  | .getaddrinfo _ host => some host
  | _ => none

/-- The hostnames of lines that have no address. -/
def noAddress (dns : Bytes → Option Bytes) (ls : List Line) : List Bytes :=
  (ls.map Line.host).filter fun h => dns h = none

/-- The line that a resolver has got and not yet looked up, when `got` is in its call. -/
def ResolverLoc.toLookUp (got : List Line) : ResolverLoc → List Line
  | .getHost => got
  | .resolve h => h.src.lines
  | _ => []

/-! ## The messages of one statement -/

/-- A resolver reports a hostname when it has looked it up in vain. -/
theorem ResolverStep.lookUp {j : Fin S} {l l' : ResolverLoc} (hr : cfg.Reliable dns)
    (h : ResolverStep cfg s j l l' e) (hl : l.Typed cfg) :
    noAddress dns (l.toLookUp (s.handedBack .resolverLog (.resolver j) l.op)) =
      e.say.filterMap Diag.unresolved ++
        noAddress dns (l'.toLookUp (State.handedOver .resolverLog l'.op)) := by
  cases h with
  | noHost hc => simp [ResolverLoc.toLookUp, State.handedBack, ResolverLoc.op, hc, Call.holds]
  | @host x hc =>
    simp [ResolverLoc.toLookUp, State.handedBack, ResolverLoc.op, hc, Call.holds, Logger.path]
  | @answer x ip ha =>
    obtain ⟨k, hk, hb⟩ := hl
    have hd := hr.answers _ _ ha
    rw [hb] at hd
    simp [ResolverLoc.toLookUp, noAddress, hk, Src.lines, ← hd]
  | @noAnswer x ha =>
    obtain ⟨k, hk, hb⟩ := hl
    have hd := hr.answers _ _ ha
    rw [hb] at hd
    simp [ResolverLoc.toLookUp, noAddress, hk, Src.lines, ← hd, hb, Diag.unresolved]
  | answer_fail ha => simp [hr.allocFails] at ha
  | format_fail ha => simp [hr.allocFails] at ha
  | next => rfl
  | _ => simp [ResolverLoc.toLookUp, Diag.unresolved]

theorem RequesterStep.unresolved {i : Fin R} {l l' : RequesterLoc}
    (h : RequesterStep cfg s i l l' e) : e.say.filterMap Diag.unresolved = [] := by
  cases h <;> rfl

theorem MainStep.unresolved {l l' : MainLoc} (h : MainStep cfg s l l' e) :
    e.say.filterMap Diag.unresolved = [] := by
  cases h with
  | @fileRefused i x => cases cfg.files[i]? <;> rfl
  | _ => rfl

/-! ## The lookups -/

namespace State

/-- The line that a resolver has got and not yet looked up. -/
def toLookUp (s : State R S) (j : Fin S) : List Line :=
  (s.resolver j).loc.toLookUp (s.inCall .resolverLog (.resolver j))

/-- The hostnames in the messages of `dns_resolve`. -/
def unresolved (s : State R S) : List Bytes := s.stderr.filterMap Diag.unresolved

theorem toLookUp_of_ne (hf : s.Fresh) (h : Stmt cfg s t s') {j : Fin S} (hj : .resolver j ≠ t) :
    s'.toLookUp j = s.toLookUp j := by
  rw [toLookUp, toLookUp, inCall_of_ne hf h _ hj]
  obtain ⟨-, ho | ⟨h1, h2⟩⟩ := h.other hf hj
  · rw [ho]
  · rw [h1, h2]
    rfl

/-- The messages and the lookups that a statement leaves. -/
theorem lookups_stmt (hr : cfg.Reliable dns) (hs : s.Synced) (ht : s.WellTyped cfg)
    (h : Stmt cfg s t s') :
    (s'.unresolved : Multiset Bytes) + ∑ j, (noAddress dns (s'.toLookUp j) : Multiset Bytes) =
      s.unresolved + ∑ j, (noAddress dns (s.toLookUp j) : Multiset Bytes) := by
  have hother (e : List Diag) (he : e.filterMap Diag.unresolved = [])
      (hst : s'.stderr = s.stderr ++ e) (hne : ∀ j, Tid.resolver j ≠ t) :
      (s'.unresolved : Multiset Bytes) + ∑ j, (noAddress dns (s'.toLookUp j) : Multiset Bytes) =
        s.unresolved + ∑ j, (noAddress dns (s.toLookUp j) : Multiset Bytes) := by
    rw [unresolved, hst, List.filterMap_append, he, List.append_nil]
    simp only [toLookUp_of_ne hs.fresh h (hne _)]
    rfl
  cases t with
  | main =>
    cases h with
    | @main l e hl => exact hother e.say hl.unresolved (by cases e.spawn <;> rfl) (by simp)
  | requester i =>
    cases h with
    | @requester _ l e hl => exact hother e.say hl.unresolved rfl (by simp)
  | logger k =>
    cases h with
    | @logger _ l e hl => exact hother e.say (by rw [hl.say]; rfl) rfl (by simp)
  | outsider q => exact hother [] rfl (by cases h <;> simp [perform]) (by simp)
  | resolver j =>
    have hsum := Tally.sum_of_ne (f := fun j => (noAddress dns (s.toLookUp j) : Multiset Bytes))
      (g := fun j => (noAddress dns (s'.toLookUp j) : Multiset Bytes)) (t := j) fun k hk => by
        rw [toLookUp_of_ne hs.fresh h (by simpa using hk)]
    cases h with
    | @resolver _ l e hl =>
      have hop : ((s.perform (.resolver j) (s.resolver j).loc.op l.op e).setResolver j l e).op
          (.resolver j) = l.op := by simp [op]
      have hold : (noAddress dns (s.toLookUp j) : Multiset Bytes) =
          e.say.filterMap Diag.unresolved +
            noAddress dns (l.toLookUp (handedOver .resolverLog l.op)) :=
        congrArg _ (hl.lookUp hr (ht.resolver j))
      have hnew : ((s.perform (.resolver j) (s.resolver j).loc.op l.op e).setResolver j l e).toLookUp
          j = l.toLookUp (handedOver .resolverLog l.op) := by
        rw [toLookUp, hs.inCall_self (.resolver hl) .resolverLog, hop, setResolver_self]
      rw [hnew, hold, ← add_assoc] at hsum
      rw [← add_right_cancel hsum, unresolved, unresolved]
      change ((s.stderr ++ e.say).filterMap Diag.unresolved : Multiset Bytes) + _ = _
      rw [List.filterMap_append, ← Multiset.coe_add, add_assoc, add_comm (_ : Multiset Bytes) (∑ _, _)]

/-- A move outside the calls of the resolvers leaves their lookups alone. -/
theorem toLookUp_setQueue {m : Monitor (Tid R S) Str} {j : Fin S}
    (h : (s.setQueue q m).inCall .resolverLog (.resolver j) = s.inCall .resolverLog (.resolver j) ∨
      (s.resolver j).loc ≠ .getHost) : (s.setQueue q m).toLookUp j = s.toLookUp j := by
  rw [toLookUp, toLookUp]
  change (s.resolver j).loc.toLookUp _ = _
  rcases h with h | h
  · rw [h]
  · generalize (s.resolver j).loc = l at h
    cases l with
    | getHost => exact absurd rfl h
    | _ => rfl

/-- A move gives a resolver a line to look up when it takes one from `hostname_queue`. -/
theorem lookups_call {mv : Move (Tid R S)} {m : Monitor (Tid R S) Str} (hs : s.Synced)
    (hi : (s.queue q).Inv cfg.arraySize) (h : (s.queue q).move cfg.arraySize t mv = some m) :
    ∑ j, (noAddress dns ((s.setQueue q m).toLookUp j) : Multiset Bytes) +
        noAddress dns (s.deliveredLines .hostnameQueue) =
      ∑ j, (noAddress dns (s.toLookUp j) : Multiset Bytes) +
        noAddress dns ((s.setQueue q m).deliveredLines .hostnameQueue) := by
  have hsame (hl : ∀ j, (s.setQueue q m).toLookUp j = s.toLookUp j)
      (hd : (s.setQueue q m).deliveredLines .hostnameQueue = s.deliveredLines .hostnameQueue) :
      ∑ j, (noAddress dns ((s.setQueue q m).toLookUp j) : Multiset Bytes) +
          noAddress dns (s.deliveredLines .hostnameQueue) =
        ∑ j, (noAddress dns (s.toLookUp j) : Multiset Bytes) +
          noAddress dns ((s.setQueue q m).deliveredLines .hostnameQueue) := by
    simp only [hl, hd]
  have hdel (hd : (s.setQueue q m).deliveredLines q = s.deliveredLines q) :
      (s.setQueue q m).deliveredLines .hostnameQueue = s.deliveredLines .hostnameQueue := by
    by_cases hq : q = .hostnameQueue
    · rwa [hq] at hd ⊢
    · exact deliveredLines_of_ne m (Ne.symm hq)
  cases lineView hs hi h with
  | stay same ha hd => exact hsame (fun j => toLookUp_setQueue (.inl (same _ _))) (hdel hd)
  | accept x hop hx hb hf same ha hd =>
    refine hsame (fun j => toLookUp_setQueue ?_) (hdel hd)
    by_cases hj : Tid.resolver j = t
    · refine .inr fun hl => ?_
      rw [← hj, op, hl] at hop
      cases hop
    · exact .inl (same _ _ hj)
  | deliver x hop hb hf same ha hd =>
    by_cases hq : q = .hostnameQueue
    · subst hq
      obtain ⟨j, rfl, hl⟩ := op_get hop
      have hsum := Tally.sum_of_ne
        (f := fun j => (noAddress dns (s.toLookUp j) : Multiset Bytes))
        (g := fun j => (noAddress dns ((s.setQueue .hostnameQueue m).toLookUp j) : Multiset Bytes))
        (t := j) fun k hk => by
          rw [toLookUp_setQueue (.inl (same _ _ (by simpa using hk)))]
      have hold : s.toLookUp j = [] := by
        rw [toLookUp, hl]
        exact hb .resolverLog
      have hnew : (s.setQueue .hostnameQueue m).toLookUp j = x.src.lines := by
        change (s.resolver j).loc.toLookUp _ = _
        rw [hl]
        exact hf .resolverLog
      rw [hold, hnew] at hsum
      have happ : noAddress dns (s.deliveredLines .hostnameQueue ++ x.src.lines) =
          noAddress dns (s.deliveredLines .hostnameQueue) ++ noAddress dns x.src.lines := by
        simp [noAddress]
      change _ + 0 = _ at hsum
      rw [add_zero] at hsum
      rw [hsum, hd, happ, ← Multiset.coe_add, add_assoc,
        add_comm (noAddress dns x.src.lines : Multiset Bytes)]
    · refine hsame (fun j => toLookUp_setQueue (.inl (same _ _ ?_)))
        (deliveredLines_of_ne m (Ne.symm hq))
      rintro rfl
      have := op_get hop
      cases q with
      | hostnameQueue => exact hq rfl
      | filenameQueue => simp at this
      | requesterLogfileQueue => simp at this
      | resolverLogfileQueue => simp at this

/-- Every hostname without an address that has been taken from `hostname_queue` has its message, or
its resolver has still to look it up. -/
theorem lookups_reachable (hr : cfg.Reliable dns) (H : cfg.system.Reachable s) :
    (s.unresolved : Multiset Bytes) + ∑ j, (noAddress dns (s.toLookUp j) : Multiset Bytes) =
      noAddress dns (s.deliveredLines .hostnameQueue) := by
  induction H with
  | init h =>
    have h0 (j : Fin S) : noAddress dns ((init : State R S).toLookUp j) = [] := rfl
    rw [h]
    simp only [h0]
    simp [unresolved, init, deliveredLines, Monitor.init, noAddress]
  | @step s a s' H h ih =>
    have hs := synced_reachable H
    rcases (step_cases h).2 with ⟨t, c, -, h'⟩ | ⟨q, t, mv, m, -, h', rfl⟩
    · rw [lookups_stmt hr hs (wellTyped_reachable H) h', ih, (stmt_history h' _).2]
    · have hm : ∑ j, (noAddress dns ((s.setQueue q m).toLookUp j) : Multiset Bytes) +
          noAddress dns (s.deliveredLines .hostnameQueue) = _ := lookups_call hs (queue_inv H q) h'
      change (s.unresolved : Multiset Bytes) + _ = _
      apply add_right_cancel (b := (noAddress dns (s.deliveredLines .hostnameQueue) : Multiset Bytes))
      rw [add_assoc, hm, ← add_assoc, ih, add_comm]

end State

/-! ## There are no other messages -/

/-- A put has been refused, or a file could not be opened. -/
def RequesterLoc.failing : RequesterLoc → Bool
  | .invalidFile _ | .logRefused .. | .hostRefused .. => true
  | _ => false

def ResolverLoc.failing : ResolverLoc → Bool
  | .recordRefused .. => true
  | _ => false

def MainLoc.failing : MainLoc → Bool
  | .fileRefused .. => true
  | _ => false

theorem RequesterStep.reliable {i : Fin R} {l l' : RequesterLoc} (h : RequesterStep cfg s i l l' e)
    (hr : cfg.Reliable dns) (hl : l.Typed cfg) (hn : l.failing = false)
    (hp : ∀ q x, (s.queue q).call (.requester i) ≠ .putDone x .shutdown) :
    l'.failing = false ∧ e.say = [] := by
  cases h with
  | @openFile_fail f hf =>
    obtain ⟨k, -, -, hfs⟩ := hl
    rcases hf with hf | hf
    · simp [hf] at hfs
    · simp [hr.openFails] at hf
  | dupLog_fail ha | dupHost_fail ha => simp [hr.allocFails] at ha
  | putLog_refused hc | putHost_refused hc => exact absurd hc (hp _ _)
  | invalidFile | logRefused | hostRefused => cases hn
  | _ => exact ⟨rfl, rfl⟩

theorem ResolverStep.reliable {j : Fin S} {l l' : ResolverLoc} (h : ResolverStep cfg s j l l' e)
    (hr : cfg.Reliable dns) (hn : l.failing = false)
    (hp : ∀ q x, (s.queue q).call (.resolver j) ≠ .putDone x .shutdown) :
    l'.failing = false ∧ ∀ d ∈ e.say, d.unresolved.isSome = true := by
  cases h with
  | answer_fail ha | format_fail ha => simp [hr.allocFails] at ha
  | putRecord_refused hc => exact absurd hc (hp _ _)
  | recordRefused => cases hn
  | _ => simp [ResolverLoc.failing, Diag.unresolved]

theorem MainStep.reliable {l l' : MainLoc} (h : MainStep cfg s l l' e) (hr : cfg.Reliable dns)
    (hn : l.failing = false) (hp : ∀ q x, (s.queue q).call .main ≠ .putDone x .shutdown) :
    l'.failing = false ∧ e.say = [] := by
  cases h with
  | createLogger_fail hc => simp [hr.createFails] at hc
  | createRequester_fail _ hc | createResolver_fail _ hc => simp [hr.createFails] at hc
  | allocTables_fail ha | dupFile_fail ha => simp [hr.allocFails] at ha
  | putFile_refused hc => exact absurd hc (hp _ _)
  | fileRefused => cases hn
  | _ => exact ⟨rfl, rfl⟩

namespace State

def failing (s : State R S) : Tid R S → Bool
  | .main => s.main.failing
  | .requester i => (s.requester i).loc.failing
  | .resolver j => (s.resolver j).loc.failing
  | _ => false

theorem failing_of_ne (hf : s.Fresh) (h : Stmt cfg s t s') (hu : u ≠ t) :
    s'.failing u = s.failing u := by
  have ho := h.other hf hu
  cases u with
  | main => exact congrArg MainLoc.failing ho
  | requester i =>
    obtain ⟨-, ho | ⟨h1, h2 | h2⟩⟩ := ho
    · simp only [failing, ho]
    · simp only [failing, h1, h2, RequesterLoc.failing]
    · simp only [failing, h1, h2, RequesterLoc.failing]
  | resolver j =>
    obtain ⟨-, ho | ⟨h1, h2⟩⟩ := ho
    · simp only [failing, ho]
    · simp only [failing, h1, h2, ResolverLoc.failing]
  | _ => rfl

theorem reliable_stmt (hr : cfg.Reliable dns) (H : cfg.system.Reachable s) (h : Stmt cfg s t s')
    (hn : s.failing t = false) : s'.failing t = false ∧
      ∃ e : List Diag, s'.stderr = s.stderr ++ e ∧ ∀ d ∈ e, d.unresolved.isSome = true := by
  have ht := wellTyped_reachable H
  have hp := not_refused hr.outsiders H
  cases h with
  | @main l e hl =>
    obtain ⟨h1, h2⟩ := hl.reliable hr hn fun q x => hp q _ x
    exact ⟨h1, e.say, by cases e.spawn <;> rfl, by simp [h2]⟩
  | @requester i l e hl =>
    obtain ⟨h1, h2⟩ := hl.reliable hr (ht.requester i) hn fun q x => hp q _ x
    exact ⟨by simpa [failing] using h1, e.say, rfl, by simp [h2]⟩
  | @resolver j l e hl =>
    obtain ⟨h1, h2⟩ := hl.reliable hr hn fun q x => hp q _ x
    exact ⟨by simpa [failing] using h1, e.say, rfl, h2⟩
  | @logger k l e hl => exact ⟨rfl, e.say, rfl, by simp [hl.say]⟩
  | outsiderFree | outsiderDone => exact ⟨rfl, [], by simp [perform], by simp⟩

/-- When nothing fails, every message is about a hostname without an address. -/
theorem reliable_reachable (hr : cfg.Reliable dns) (H : cfg.system.Reachable s) :
    (∀ t, s.failing t = false) ∧ ∀ d ∈ s.stderr, d.unresolved.isSome = true := by
  induction H with
  | init h =>
    rw [h]
    refine ⟨fun t => ?_, by simp [init]⟩
    cases t <;> rfl
  | @step s a s' H h ih =>
    obtain ⟨ih1, ih2⟩ := ih
    rcases (step_cases h).2 with ⟨t, c, -, h'⟩ | ⟨q, t, mv, m, -, h', rfl⟩
    · obtain ⟨h1, e, he, h2⟩ := reliable_stmt hr H h' (ih1 t)
      refine ⟨fun u => ?_, fun d hd => ?_⟩
      · by_cases hu : u = t
        · exact hu ▸ h1
        · rw [failing_of_ne (synced_reachable H).fresh h' hu, ih1]
      · rw [he] at hd
        rcases List.mem_append.1 hd with hd | hd
        · exact ih2 d hd
        · exact h2 d hd
    · refine ⟨fun u => ?_, ih2⟩
      have := ih1 u
      cases u <;> exact this

/-- In the end there is one message for each line whose hostname has no address. -/
theorem returned_unresolved (hr : cfg.Reliable dns) (H : cfg.system.Reachable s)
    (hm : s.main = .returned) : (s.unresolved : Multiset Bytes) =
      ((s.openedLines cfg).map Line.host).filter fun h => dns h = none := by
  have hp := phases_reachable H
  have h0 (j : Fin S) : noAddress dns (s.toLookUp j) = [] := by
    have hj := hp.joinedResolver j (by rw [hm]; rfl)
    have hl : s.toLookUp j = [] := by
      rw [toLookUp]
      generalize (s.resolver j).loc = l at hj
      cases l with
      | getHost | resolve => cases hj
      | _ => rfl
    rw [hl]
    rfl
  have hl := lookups_reachable hr H
  simp only [h0, Multiset.coe_nil, Finset.sum_const_zero, add_zero] at hl
  have hd := delivered_of_drained H (returned_drained hr.createFails H hm .hostnameQueue)
  have he := (entry_merge hr.outsiders hr.allocFails H hm .resolverLog).sum_eq
  have ho : s.openedLines cfg = s.deliveredLines .hostnameQueue := by
    rw [deliveredLines, hd]
    exact he
  rw [hl, ho, noAddress, Multiset.map_coe, Multiset.filter_coe]

theorem sample_reliable : sample.Reliable sampleDns where
  outsiders := rfl
  allocFails := rfl
  createFails := rfl
  openFails := rfl
  answers _ _ h := of_decide_eq_true h

end State
end DnsResolver
