import DnsResolver.Threaded.ThreadedQueues

/-!
# Single ownership of the queued strings

Every string ever allocated is held by one thread, lies in one queue or has been freed, and only
once (`total_reachable`): no statement makes a string or loses one except by allocating and
freeing, and a move inside a call only passes strings between the call and its queue. -/

namespace DnsResolver
open Function

variable {R S : Nat} {cfg : Config R S} {s s' : State R S} {t u : Tid R S} {q : QName}
  {e : Effect R S}

/-! ## What the threads hold -/

/-- The strings a thread holds outside its call. -/
def RequesterLoc.owns : RequesterLoc → List Str
  | .openFile f | .invalidFile f | .closeFile f => [f]
  | .readLine r | .dupLog r _ | .putLog r _ _ | .dupHost r _ | .putHost r _ => [r.file]
  | .logRefused r _ x | .hostRefused r x => [r.file, x]
  | _ => []

def ResolverLoc.owns : ResolverLoc → List Str
  | .resolve h | .format h _ | .putRecord h _ | .freeHost h => [h]
  | .recordRefused h x => [h, x]
  | _ => []

def LoggerLoc.owns : LoggerLoc → List Str
  | .write x | .freeString x => [x]
  | _ => []

def MainLoc.owns : MainLoc → List Str
  | .fileRefused _ x => [x]
  | _ => []

/-- `main` has a filename that it has not yet put. -/
def MainLoc.delivering : MainLoc → Bool
  | .putFile .. | .fileRefused .. => true
  | _ => false

namespace State

def owns (s : State R S) : Tid R S → List Str
  | .main => s.main.owns
  | .requester i => (s.requester i).loc.owns
  | .resolver j => (s.resolver j).loc.owns
  | .logger l => (s.logger l).owns
  | .outsider _ => []

/-- The strings a thread carries in its calls. -/
def carried (s : State R S) (t : Tid R S) : Multiset Str := ∑ q, ((s.queue q).call t).carries

/-- All strings of a thread. -/
def held (s : State R S) (t : Tid R S) : Multiset Str := s.owns t + s.carried t

/-- All strings of threads and queues. -/
def total (s : State R S) : Multiset Str := ∑ t, s.held t + ∑ q, ((s.queue q).items : Multiset Str)

/-- The string that a returned call hands back. -/
def returned (s : State R S) (t : Tid R S) : Option (QName × Op Str) → Multiset Str
  | some (q, _) => ((s.queue q).call t).carries
  | none => 0

/-- The string that is handed to a call. -/
def entered : Option (QName × Op Str) → Multiset Str
  | some (_, p) => p.arg
  | none => 0

theorem Synced.carried_eq (H : s.Synced) : s.carried t = s.returned t (s.op t) := by
  unfold carried returned
  have h0 : ∀ q, opAt (s.op t) q = none → ((s.queue q).call t).carries = 0 := fun q h => by
    rw [H.call_idle h, Call.carries_idle]
  cases ho : s.op t with
  | none => exact Finset.sum_eq_zero fun q _ => h0 q (by rw [ho]; rfl)
  | some p =>
    obtain ⟨q, p⟩ := p
    refine Finset.sum_eq_single q (fun q' _ hq => h0 q' ?_) (by simp)
    rw [ho]
    simp [opAt, Ne.symm hq]

end State

open State

/-- A requester hands on what it holds: what a statement finds held or allocates is held
afterwards, handed to a call or freed. -/
theorem RequesterStep.owns {i : Fin R} {l l' : RequesterLoc} (h : RequesterStep cfg s i l l' e)
    (H : s.InCall (.requester i) l.op) :
    (l.owns : Multiset Str) + s.returned (.requester i) l.op + e.alloc.toList =
      l'.owns + entered l'.op + e.free := by
  unfold InCall at H
  cases h <;> simp_all [RequesterLoc.owns, RequesterLoc.op, returned, entered, Op.arg, Call.op]
  all_goals rfl

theorem ResolverStep.owns {j : Fin S} {l l' : ResolverLoc} (h : ResolverStep cfg s j l l' e)
    (H : s.InCall (.resolver j) l.op) :
    (l.owns : Multiset Str) + s.returned (.resolver j) l.op + e.alloc.toList =
      l'.owns + entered l'.op + e.free := by
  unfold InCall at H
  cases h <;> simp_all [ResolverLoc.owns, ResolverLoc.op, returned, entered, Op.arg, Call.op]
  all_goals rfl

theorem LoggerStep.owns {k : Logger} {l l' : LoggerLoc} (h : LoggerStep s k l l' e) :
    (l.owns : Multiset Str) + s.returned (.logger k) (l.op k) + e.alloc.toList =
      l'.owns + entered (l'.op k) + e.free := by
  cases h <;> simp_all [LoggerLoc.owns, LoggerLoc.op, returned, entered, Op.arg]

theorem MainStep.owns {l l' : MainLoc} (h : MainStep cfg s l l' e) (H : s.InCall .main l.op) :
    (l.owns : Multiset Str) + s.returned .main l.op + e.alloc.toList =
      l'.owns + entered l'.op + e.free := by
  unfold InCall at H
  cases h <;> simp_all [MainLoc.owns, MainLoc.op, returned, entered, Op.arg, Call.op]

/-- A thread reads and frees only strings it holds outside its calls. -/
theorem RequesterStep.uses {i : Fin R} {l l' : RequesterLoc} (h : RequesterStep cfg s i l l' e) :
    ∀ x ∈ e.reads ++ e.free, x ∈ l.owns := by
  cases h <;> simp [RequesterLoc.owns]

theorem ResolverStep.uses {j : Fin S} {l l' : ResolverLoc} (h : ResolverStep cfg s j l l' e) :
    ∀ x ∈ e.reads ++ e.free, x ∈ l.owns := by
  cases h <;> simp [ResolverLoc.owns]

theorem LoggerStep.uses {k : Logger} {l l' : LoggerLoc} (h : LoggerStep s k l l' e) :
    ∀ x ∈ e.reads ++ e.free, x ∈ l.owns := by
  cases h <;> simp [LoggerLoc.owns]

theorem MainStep.uses {l l' : MainLoc} (h : MainStep cfg s l l' e) :
    ∀ x ∈ e.reads ++ e.free, x ∈ l.owns := by
  cases h <;> simp [MainLoc.owns]

/-- The address of a new string. -/
theorem RequesterStep.alloc {i : Fin R} {l l' : RequesterLoc} (h : RequesterStep cfg s i l l' e) :
    ∀ x ∈ e.alloc, x.addr = s.nextAddr := by
  cases h <;> simp

theorem ResolverStep.alloc {j : Fin S} {l l' : ResolverLoc} (h : ResolverStep cfg s j l l' e) :
    ∀ x ∈ e.alloc, x.addr = s.nextAddr := by
  cases h <;> simp

theorem LoggerStep.alloc {k : Logger} {l l' : LoggerLoc} (h : LoggerStep s k l l' e) :
    e.alloc = none := by
  cases h <;> rfl

theorem MainStep.alloc {l l' : MainLoc} (h : MainStep cfg s l l' e) :
    ∀ x ∈ e.alloc, x.addr = s.nextAddr := by
  cases h <;> simp

/-! ## Conservation -/

namespace Stmt

/-- Another thread holds the same strings afterwards. -/
theorem held_of_ne (H : s.Fresh) (h : Stmt cfg s t s') (hu : u ≠ t) : s'.held u = s.held u := by
  have hc : s'.carried u = s.carried u := by
    unfold carried
    refine Finset.sum_congr rfl fun q _ => ?_
    rw [h.queue_eq, switch_call, if_neg hu]
  have ho := h.other H hu
  have hw : s'.owns u = s.owns u := by
    cases u with
    | main => exact congrArg MainLoc.owns ho
    | requester i =>
      rcases ho.2 with he | ⟨he, h' | h'⟩
      · exact congrArg RequesterLoc.owns he
      all_goals
        simp only [State.owns, he, h']
        rfl
    | resolver j =>
      rcases ho.2 with he | ⟨he, h'⟩
      · exact congrArg ResolverLoc.owns he
      · simp only [State.owns, he, h']
        rfl
    | logger k =>
      rcases ho with he | ⟨he, h'⟩
      · exact congrArg LoggerLoc.owns he
      · simp only [State.owns, he, h']
        rfl
    | outsider q => rfl
  rw [held, held, hc, hw]

/-- After a statement the thread carries what it has handed to the call it is in. -/
theorem carried_eq (H : s.Synced) (h : Stmt cfg s t s') : s'.carried t = entered (s'.op t) := by
  rw [(H.stmt h).carried_eq]
  cases ho : s'.op t with
  | none => rfl
  | some p =>
    obtain ⟨q, p⟩ := p
    have hc : (s'.queue q).call t = p.start := by
      rw [h.queue_eq, switch_call, if_pos rfl, ho]
      simp [opAt]
    simp [returned, entered, hc]

/-- The strings that a statement allocates and frees. -/
theorem memory (H : s.Synced) (h : Stmt cfg s t s') : ∃ (a : Option Str) (f : List Str),
    s.held t + a.toList = s'.held t + f ∧ s'.freed = s.freed ++ f ∧
    s'.nextAddr = s.nextAddr + a.toList.length ∧ (∀ x ∈ a, x.addr = s.nextAddr) ∧
    ∀ x ∈ f, x ∈ s.owns t := by
  have hin := H.inCall t
  simp only [held, h.carried_eq H, H.carried_eq]
  have hn (a : Option Str) : (if a.isSome = true then s.nextAddr + 1 else s.nextAddr) =
      s.nextAddr + a.toList.length := by cases a <;> rfl
  cases h with
  | @main l e h =>
    refine ⟨e.alloc, e.free, ?_, by simp [spawn_same, perform], by simp [spawn_same, perform, hn],
      h.alloc, fun x hx => h.uses x (List.mem_append_right _ hx)⟩
    have := h.owns hin
    simp only [State.owns, State.op] at this ⊢
    rw [this]
  | @requester i l e h =>
    refine ⟨e.alloc, e.free, ?_, rfl, hn _, h.alloc,
      fun x hx => h.uses x (List.mem_append_right _ hx)⟩
    have := h.owns hin
    simp only [State.owns, State.op, setRequester, update_self] at this ⊢
    rw [this]
  | @resolver j l e h =>
    refine ⟨e.alloc, e.free, ?_, rfl, hn _, h.alloc,
      fun x hx => h.uses x (List.mem_append_right _ hx)⟩
    have := h.owns hin
    simp only [State.owns, State.op, setResolver, update_self] at this ⊢
    rw [this]
  | @logger k l e h =>
    refine ⟨e.alloc, e.free, ?_, rfl, hn _, by rw [h.alloc]; simp,
      fun x hx => h.uses x (List.mem_append_right _ hx)⟩
    have := h.owns
    simp only [State.owns, State.op, update_self] at this ⊢
    rw [this]
  | outsiderFree _ hq =>
    refine ⟨none, [], ?_, rfl, rfl, by simp, by simp⟩
    simp [State.owns, State.op, hq, returned, entered, Op.arg]
  | outsiderDone _ hq hd =>
    refine ⟨none, [], ?_, rfl, rfl, by simp, by simp⟩
    simp [State.owns, State.op, hq, returned, entered, hd]

end Stmt

namespace State

/-- Each string ever allocated is in one place. -/
def Conserves (s : State R S) : Prop :=
  s.total.map Str.addr + (s.freed.map Str.addr : List Nat) = Multiset.range s.nextAddr

theorem total_eq (s : State R S) :
    s.total = ∑ t, (s.owns t : Multiset Str) + ∑ q, (s.queue q).contents := by
  simp only [total, held, carried, Monitor.contents, Finset.sum_add_distrib]
  rw [Finset.sum_comm]
  abel

theorem total_call {mv : Move (Tid R S)} {m : Monitor (Tid R S) Str}
    (H : (s.queue q).Inv cfg.arraySize) (h : (s.queue q).move cfg.arraySize t mv = some m) :
    (s.setQueue q m).total = s.total := by
  have ho : ∀ u, (s.setQueue q m).owns u = s.owns u := fun u => by cases u <;> rfl
  rw [total_eq, total_eq]
  simp only [ho, contents_call H h]

/-- A statement adds what it allocates and takes away what it frees. -/
theorem total_stmt (H : s.Synced) (h : Stmt cfg s t s') {a : Option Str} {f : List Str}
    (hm : s.held t + a.toList = s'.held t + f) : s'.total + f = s.total + a.toList := by
  have h1 := Tally.sum_of_ne fun u hu => h.held_of_ne H.fresh (u := u) hu
  have h2 : ∑ q, ((s'.queue q).items : Multiset Str) = ∑ q, ((s.queue q).items : Multiset Str) :=
    Finset.sum_congr rfl fun q _ => by rw [h.queue_eq, switch_items]
  have h3 : ∑ u, s'.held u + f = ∑ u, s.held u + a.toList := by
    refine add_right_cancel (b := s'.held t) ?_
    calc ∑ u, s'.held u + f + s'.held t
        = ∑ u, s'.held u + (s'.held t + f) := by abel
      _ = ∑ u, s'.held u + s.held t + a.toList := by
          rw [← hm]
          abel
      _ = ∑ u, s.held u + a.toList + s'.held t := by
          rw [h1]
          abel
  rw [total, total, h2, add_right_comm, h3]
  abel

theorem Conserves.stmt (hs : s.Synced) (H : s.Conserves) (h : Stmt cfg s t s') :
    s'.Conserves := by
  obtain ⟨a, f, h1, h2, h3, h4, -⟩ := h.memory hs
  have h5 := congrArg (Multiset.map Str.addr) (total_stmt hs h h1)
  have h6 : Multiset.map Str.addr ↑a.toList + Multiset.range s.nextAddr =
      Multiset.range s'.nextAddr := by
    rw [h3]
    cases a with
    | none => simp
    | some x =>
      have := h4 x rfl
      simp [this]
  unfold Conserves at H ⊢
  rw [Multiset.map_add, Multiset.map_add] at h5
  rw [h2, List.map_append, ← Multiset.coe_add, ← h6, ← H, ← Multiset.map_coe Str.addr f]
  calc s'.total.map Str.addr + (↑(s.freed.map Str.addr) + Multiset.map Str.addr ↑f)
      = s'.total.map Str.addr + Multiset.map Str.addr ↑f + ↑(s.freed.map Str.addr) := by abel
    _ = s.total.map Str.addr + Multiset.map Str.addr ↑a.toList + ↑(s.freed.map Str.addr) := by
        rw [h5]
    _ = _ := by abel

theorem conserves_reachable (H : cfg.system.Reachable s) : s.Conserves := by
  induction H with
  | init h =>
    have ho : ∀ u, (init : State R S).owns u = [] := fun u => by cases u <;> rfl
    rw [h, Conserves, total_eq]
    simp [init, Monitor.contents, Monitor.init, Monitor.items]
    exact ho
  | step H h ih =>
    rcases (step_cases h).2 with ⟨t, c, -, h'⟩ | ⟨q, t, mv, m, -, h', rfl⟩
    · exact ih.stmt (synced_reachable H) h'
    · unfold Conserves
      rw [total_call (queue_inv H q) h']
      exact ih

/-! ## Owners -/

end State

/-- Who can own a string: a thread, or the `k`-th slot of a queue, counted from `head`. -/
inductive Owner (R S : Nat)
  | thread (t : Tid R S)
  | slot (q : QName) (k : Nat)

/-- Whether an owner is a thread or in a queue. -/
def Owner.place : Owner R S → Tid R S ⊕ QName
  | .thread t => .inl t
  | .slot q _ => .inr q

namespace State

/-- A thread owns what it holds, and a slot between `head` and `tail` what is stored there. -/
def Owns (cfg : Config R S) (s : State R S) : Owner R S → Str → Prop
  | .thread t, x => x ∈ s.held t
  | .slot q k, x =>
    let m := (s.queue q).arr
    k < m.count cfg.arraySize ∧ m.storeString ((m.head + k) % cfg.arraySize) = some x

/-- The strings in one thread or one queue. -/
def within (s : State R S) : Tid R S ⊕ QName → Multiset Str
  | .inl t => s.held t
  | .inr q => (s.queue q).items

theorem total_within (s : State R S) : s.total = ∑ p, s.within p := by
  rw [Fintype.sum_sum_type]
  rfl

/-- No address is in two places, nor twice in one. -/
theorem Conserves.sum_count (H : s.Conserves) (a : Nat) :
    ∑ p, ((s.within p).map Str.addr).count a ≤ 1 := by
  have hn : (s.total.map Str.addr + (s.freed.map Str.addr : List Nat)).Nodup := by
    rw [H]
    exact Multiset.nodup_range _
  have hs : s.total.map Str.addr = ∑ p, (s.within p).map Str.addr := by
    rw [total_within]
    exact map_sum (Multiset.mapAddMonoidHom Str.addr) _ _
  rw [← Multiset.count_sum', ← hs]
  exact Multiset.nodup_iff_count_le_one.1 (Multiset.nodup_add.1 hn).1 a

/-- Two places that have a string at one address are the same place. -/
theorem Conserves.within_inj (H : s.Conserves) {p p' : Tid R S ⊕ QName} {x x' : Str}
    (hx : x ∈ s.within p) (hx' : x' ∈ s.within p') (h : x.addr = x'.addr) : p = p' := by
  refine Tally.eq_of_sum_le_one (H.sum_count x.addr) ?_ ?_
  · exact Multiset.count_pos.2 (Multiset.mem_map_of_mem _ hx)
  · exact Multiset.count_pos.2 (h ▸ Multiset.mem_map_of_mem _ hx')

theorem Conserves.within_nodup (H : s.Conserves) (p : Tid R S ⊕ QName) :
    ((s.within p).map Str.addr).Nodup := by
  rw [Multiset.nodup_iff_count_le_one]
  intro a
  have hle := Finset.single_le_sum (f := fun p => ((s.within p).map Str.addr).count a)
    (fun _ _ => Nat.zero_le _) (Finset.mem_univ p)
  exact hle.trans (H.sum_count a)

theorem Owns.within {o : Owner R S} {x : Str} (hi : ∀ q, (s.queue q).Inv cfg.arraySize)
    (h : s.Owns cfg o x) : x ∈ s.within o.place := by
  cases o with
  | thread t => exact h
  | slot q k => exact Multiset.mem_coe.2 (List.mem_of_getElem? ((hi q).slot_iff.1 h))

theorem exists_owner (hi : ∀ q, (s.queue q).Inv cfg.arraySize) {x : Str} (h : x ∈ s.total) :
    ∃ o, s.Owns cfg o x := by
  rw [total_within, Multiset.mem_sum] at h
  obtain ⟨p, -, hp⟩ := h
  cases p with
  | inl t => exact ⟨.thread t, hp⟩
  | inr q =>
    obtain ⟨k, hk⟩ := List.mem_iff_getElem?.1 (Multiset.mem_coe.1 hp)
    exact ⟨.slot q k, (hi q).slot_iff.2 hk⟩

/-- Two owners of strings at one address are the same. -/
theorem Conserves.owner_inj (H : s.Conserves) (hi : ∀ q, (s.queue q).Inv cfg.arraySize)
    {o o' : Owner R S} {x x' : Str} (h : s.Owns cfg o x) (h' : s.Owns cfg o' x')
    (ha : x.addr = x'.addr) : o = o' := by
  have hp := H.within_inj (h.within hi) (h'.within hi) ha
  cases o with
  | thread t =>
    cases o' with
    | thread u => exact congrArg Owner.thread (Sum.inl_injective hp)
    | slot q k => cases hp
  | slot q k =>
    cases o' with
    | thread u => cases hp
    | slot q' k' =>
      obtain rfl := Sum.inr_injective hp
      have hn : ((s.queue q).items.map Str.addr).Nodup := H.within_nodup (.inr q)
      have hk := (hi q).slot_iff.1 h
      have hk' := (hi q).slot_iff.1 h'
      have hlt := (List.getElem?_eq_some_iff.1 hk).1
      have he : ((s.queue q).items.map Str.addr)[k]? = ((s.queue q).items.map Str.addr)[k']? := by
        simp [hk, hk', ha]
      rw [(List.getElem?_inj (by simpa using hlt) hn).1 he]

/-- What a statement reads or frees. -/
def effect (cfg : Config R S) (s : State R S) (c : Choice) : Tid R S → Option (Effect R S)
  | .main => (mainStep cfg s c s.main).map Prod.snd
  | .requester i => (requesterStep cfg s i c (s.requester i).loc).map Prod.snd
  | .resolver j => (resolverStep cfg s j c (s.resolver j).loc).map Prod.snd
  | .logger l => (loggerStep s l (s.logger l)).map Prod.snd
  | .outsider _ => none

theorem effect_uses {c : Choice} (h : s.effect cfg c t = some e) :
    ∀ x ∈ e.reads ++ e.free, x ∈ s.owns t := by
  cases t with
  | main =>
    obtain ⟨⟨l, e⟩, hl, rfl⟩ := Option.map_eq_some_iff.1 h
    exact (mainStep_cases hl).uses
  | requester i =>
    obtain ⟨⟨l, e⟩, hl, rfl⟩ := Option.map_eq_some_iff.1 h
    exact (requesterStep_cases hl).uses
  | resolver j =>
    obtain ⟨⟨l, e⟩, hl, rfl⟩ := Option.map_eq_some_iff.1 h
    exact (resolverStep_cases hl).uses
  | logger k =>
    obtain ⟨⟨l, e⟩, hl, rfl⟩ := Option.map_eq_some_iff.1 h
    exact (loggerStep_cases hl).uses
  | outsider q => cases h

/-- All worker and log threads are finished (or were never created), `main` is not delivering a
filename, and no queue has a delivery pending. -/
structure AllFinished (s : State R S) : Prop where
  main : s.main.delivering = false
  requester : ∀ i, (s.requester i).loc ∈ [.finished, .failed, .idle]
  resolver : ∀ j, (s.resolver j).loc ∈ [.finished, .idle]
  logger : ∀ l, s.logger l ∈ [.finished, .idle]
  queue : ∀ q, (s.queue q).items = []

/-- A thread that is in no call, or in `array_free`, carries nothing. -/
theorem Synced.carried_zero (H : s.Synced) (h : ∀ q p, s.op t = some (q, p) → p = .free) :
    s.carried t = 0 := by
  rw [H.carried_eq]
  cases ho : s.op t with
  | none => rfl
  | some p =>
    obtain ⟨q, p⟩ := p
    have := H.inCall t q p ho
    rw [h q p ho] at this
    exact Call.carries_free this

theorem AllFinished.held (H : s.AllFinished) (hs : s.Synced) (t : Tid R S) : s.held t = 0 := by
  have h0 (ho : s.owns t = []) (hp : ∀ q p, s.op t = some (q, p) → p = .free) : s.held t = 0 := by
    rw [State.held, ho, hs.carried_zero hp]
    rfl
  cases t with
  | main =>
    have := H.main
    apply h0 <;> simp only [State.op, State.owns] <;> generalize s.main = m at * <;>
      cases m <;> simp_all [MainLoc.op, MainLoc.owns, MainLoc.delivering]
  | requester i =>
    have := H.requester i
    apply h0 <;> simp only [State.op, State.owns] <;> generalize (s.requester i).loc = l at * <;>
      cases l <;> simp_all [RequesterLoc.op, RequesterLoc.owns]
  | resolver j =>
    have := H.resolver j
    apply h0 <;> simp only [State.op, State.owns] <;> generalize (s.resolver j).loc = l at * <;>
      cases l <;> simp_all [ResolverLoc.op, ResolverLoc.owns]
  | logger k =>
    have := H.logger k
    apply h0 <;> simp only [State.op, State.owns] <;> generalize s.logger k = l at * <;>
      cases l <;> simp_all [LoggerLoc.op, LoggerLoc.owns]
  | outsider q =>
    refine h0 rfl fun q' p hp => ?_
    simp only [State.op] at hp
    split at hp <;> cases hp
    rfl

theorem AllFinished.total (H : s.AllFinished) (hs : s.Synced) : s.total = 0 := by
  simp [State.total, H.held hs, H.queue]

/-- **Single ownership of every queued string.** In every reachable state, whoever shuts down
which queue when, each string that is allocated and not freed has exactly one owner, and no
string is freed twice; a thread reads and frees only strings it owns; and when all worker and log
threads are finished and no delivery is pending, every string has been freed exactly once. -/
theorem single_owner (H : cfg.system.Reachable s) :
    (∀ a < s.nextAddr, a ∉ s.freed.map Str.addr →
      ∃! o : Owner R S, ∃ x, s.Owns cfg o x ∧ x.addr = a) ∧
    (∀ o x, s.Owns cfg o x → x.addr < s.nextAddr ∧ x.addr ∉ s.freed.map Str.addr) ∧
    (∀ t, ((s.held t).map Str.addr).Nodup) ∧ (s.freed.map Str.addr).Nodup ∧
    (∀ t c e, s.effect cfg c t = some e → ∀ x ∈ e.reads ++ e.free, s.Owns cfg (.thread t) x) ∧
    (s.AllFinished → (s.freed.map Str.addr).Perm (List.range s.nextAddr)) := by
  have hs := synced_reachable H
  have hi := queue_inv H
  have hc := conserves_reachable H
  have hn : (s.total.map Str.addr + (s.freed.map Str.addr : List Nat)).Nodup := by
    rw [hc]
    exact Multiset.nodup_range _
  refine ⟨fun a ha hf => ?_, fun o x hx => ?_, fun t => hc.within_nodup (.inl t), ?_,
    fun t c e he x hx => ?_, fun hq => ?_⟩
  · have hm : a ∈ s.total.map Str.addr + (s.freed.map Str.addr : List Nat) := by
      rw [hc]
      exact Multiset.mem_range.2 ha
    rcases Multiset.mem_add.1 hm with hm | hm
    · obtain ⟨x, hx, hxa⟩ := Multiset.mem_map.1 hm
      obtain ⟨o, ho⟩ := exists_owner hi hx
      refine ⟨o, ⟨x, ho, hxa⟩, ?_⟩
      rintro o' ⟨x', ho', hxa'⟩
      exact hc.owner_inj hi ho' ho (hxa'.trans hxa.symm)
    · exact absurd (Multiset.mem_coe.1 hm) hf
  · have hx : x ∈ s.total := by
      rw [total_within, Multiset.mem_sum]
      exact ⟨_, Finset.mem_univ _, hx.within hi⟩
    have hm := Multiset.mem_map_of_mem Str.addr hx
    refine ⟨?_, fun hf => ?_⟩
    · rw [← Multiset.mem_range, ← hc]
      exact Multiset.mem_add.2 (.inl hm)
    · exact Multiset.disjoint_left.1 (Multiset.nodup_add.1 hn).2.2 hm (Multiset.mem_coe.2 hf)
  · exact Multiset.coe_nodup.1 (Multiset.nodup_add.1 hn).2.1
  · exact Multiset.mem_add.2 (.inl (Multiset.mem_coe.2 (effect_uses he x hx)))
  · rw [Conserves, hq.total hs, Multiset.map_zero, zero_add] at hc
    exact Multiset.coe_eq_coe.1 hc

instance : Decidable s.AllFinished :=
  decidable_of_iff (s.main.delivering = false ∧
      (∀ i, (s.requester i).loc ∈ [.finished, .failed, .idle]) ∧
      (∀ j, (s.resolver j).loc ∈ [.finished, .idle]) ∧
      (∀ l, s.logger l ∈ [.finished, .idle]) ∧ ∀ q, (s.queue q).items = [])
    ⟨fun ⟨h1, h2, h3, h4, h5⟩ => ⟨h1, h2, h3, h4, h5⟩, fun ⟨h1, h2, h3, h4, h5⟩ => ⟨h1, h2, h3, h4, h5⟩⟩

/-- One requester and one resolver read the file `f` with the line `a`, and `array_free` is called
on `hostname_queue` from outside. -/
def interrupted : Config 1 1 where
  arraySize := 8
  two_le := two_le_arraySize
  requesters_pos := Nat.one_pos
  resolvers_pos := Nat.one_pos
  files := [[102]]
  fs n := if n = [102] then some [97, 10, 10] else none
  answers _ a := a = none
  outsiders := true

/-- The queue is shut down before the line is put on it. -/
def interruptedRun : List (Tid 1 1 × Nat) := [
  (.outsider .hostnameQueue, 10), (.main, 1), (.logger .requesterLog, 4), (.main, 1),
  (.logger .resolverLog, 4), (.main, 3), (.requester 0, 4), (.main, 9), (.requester 0, 19),
  (.logger .requesterLog, 16), (.requester 0, 14), (.main, 3), (.resolver 0, 9), (.main, 8),
  (.requester 0, 24), (.logger .requesterLog, 6), (.requester 0, 6), (.main, 25),
  (.logger .resolverLog, 6), (.main, 7)]

theorem single_owner_interrupted : ∃ s, interrupted.system.Reachable s ∧ s.main = .returned ∧
    s.stderr = [.hostnamePut 1 [97]] ∧ s.nextAddr = 3 ∧
    (s.freed.map Str.addr).Perm (List.range s.nextAddr) := by
  have h : ∃ s ∈ schedule interrupted (fun _ => none) interruptedRun,
      s.main = .returned ∧ s.stderr = [.hostnamePut 1 [97]] ∧ s.nextAddr = 3 ∧
        s.AllFinished := by decide +kernel
  obtain ⟨s, hs, h1, h2, h3, h4⟩ := h
  have hr := schedule_reachable hs
  exact ⟨s, hr, h1, h2, h3, (single_owner hr).2.2.2.2.2 h4⟩

end State
end DnsResolver
