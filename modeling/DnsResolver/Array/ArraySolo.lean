import DnsResolver.Array.ArrayContents
import DnsResolver.Array.ArrayProgress
import DnsResolver.Array.ArrayQuiescence
import DnsResolver.Array.ArrayShutdown

/-!
# Calls that run alone

A call that finds what it waits for (`Call.Ready`) and the lock free returns when its thread runs
alone (`Inv.returns`): every statement lowers its `Call.rank`, and a sleep ends with its time-out.
A call that has the lock comes to release it (`Inv.unlocks`). So the getters that are counted can
leave, whatever the threads do that are not counted (`getters_leave`). -/

namespace DnsResolver
open Function Tally

variable {T α : Type} {N : Nat} {t : T} {s : ArrayState T α} {o : Out T α} {c : Call α}

def PutPc.rank : PutPc → Nat
  | .asleep => 10
  | .woken => 9
  | .lock => 8
  | .recheck | .entry => 7
  | .guard => 6
  | .store => 5
  | .signal => 4
  | .unlock | .refuse => 3

def GetPc.rank : GetPc α → Nat
  | .fetchAdd | .asleep => 14
  | .lock | .woken => 13
  | .recheck => 12
  | .guard => 11
  | .check => 10
  | .take => 9
  | .signalEmptied _ => 8
  | .signalNotFull _ => 7
  | .unlock _ => 6
  | .fetchSubLast _ => 5
  | .fetchSub _ => 4
  | .signalDone _ => 3
  | .refuse _ => 2

def FreePc.rank : FreePc → Nat
  | .lock => 14
  | .setShutdown => 13
  | .asleepEmptied => 15
  | .wokenEmptied _ => 14
  | .retestEmptied _ => 13
  | .drain => 12
  | .drainWakeGetters => 11
  | .drainWakePutters => 10
  | .waitEmptied => 9
  | .wakeGetters => 8
  | .wakePutters | .asleepDone => 7
  | .wokenDone _ => 6
  | .retestDone _ => 5
  | .load => 4
  | .waitDone | .unlock => 3
  | .destroy => 2

/-- More than the statements that the call makes before it sleeps or returns. -/
def Call.rank : Call α → Nat
  | .put _ pc => pc.rank
  | .get pc => pc.rank
  | .free pc => pc.rank
  | _ => 0

/-- A put finds room and a get an element, or the queue is shut down. -/
def Call.Ready (N : Nat) (s : ArrayState T α) : Call α → Prop
  | .put _ pc => pc.stored = true ∨ s.shutdown = true ∨ s.full N = false
  | .get pc => pc.got.isSome = true ∨ s.shutdown = true ∨ s.empty = false
  | .free _ => False
  | _ => True

theorem Call.ready_put {x : α} (h : c.op = some (.put x))
    (hs : s.shutdown = true ∨ s.full N = false) : c.Ready N s := by
  cases c with
  | put y pc => exact .inr hs
  | putDone => trivial
  | _ => cases h

theorem Call.ready_get (h : c.op = some .get) (hs : s.shutdown = true ∨ s.empty = false) :
    c.Ready N s := by
  cases c with
  | get pc => exact .inr hs
  | getDone => trivial
  | _ => cases h

theorem CallStep.rank (h : CallStep N t s c o) :
    o.call.rank < c.rank ∨ o.call.asleepOn.isSome = true := by
  cases h with
  | put_sleep | get_sleep | free_waitEmptied | free_waitDone => exact .inr rfl
  | _ => exact .inl (by simp [Call.rank, PutPc.rank, GetPc.rank, FreePc.rank])

theorem Call.rank_wake {r : WaitResult} (h : c.asleepOn.isSome = true) :
    (c.wake r).rank < c.rank := by
  unfold Call.asleepOn at h
  split at h
  · exact Nat.lt_succ_self _
  · exact Nat.lt_succ_self _
  · exact Nat.lt_succ_self _
  · exact Nat.lt_succ_self _
  · cases h

/-- A call that is ready does not fall asleep. -/
theorem CallStep.ready (h : CallStep N t s c o) (hc : c.Ready N s) (ha : c.Asserts N s) :
    o.call.Ready N o.arr ∧ o.call.asleepOn = none := by
  cases h with
  | put_sleep h1 h2 => simp [Call.Ready, PutPc.stored, h1, h2] at hc
  | get_sleep h1 h2 => simp [Call.Ready, GetPc.got, h1, h2] at hc
  | put_store => exact ⟨.inl rfl, rfl⟩
  | get_take_last | get_take => exact ⟨.inl rfl, rfl⟩
  | put_unlock | put_refuse | get_refuse | get_fetchSubLast => exact ⟨trivial, rfl⟩
  | get_signalDone => exact ⟨hc, rfl⟩
  | _ => first | exact ⟨hc, rfl⟩ | exact hc.elim

theorem Call.Ready.wake {r : WaitResult} (h : c.Ready N s) : (c.wake r).Ready N s := by
  unfold Call.wake
  split <;> exact h

namespace Monitor
variable [DecidableEq T] [Fintype T] {m m' : Monitor T α} {mv : Move T} {P : T → Prop}

/-- The moves of the threads in `P` that no spurious wake-up makes. -/
def MovesOf (P : T → Prop) (_ : Monitor T α) : Act T α → Prop
  | .move t mv => P t ∧ mv ≠ .spurious
  | _ => False

theorem movesOf_cases {a : Act T α} (ha : MovesOf P m a) (h : (system T α N).step m a m') :
    ∃ t mv, a = .move t mv ∧ P t ∧ mv ≠ .spurious ∧ m.move N t mv = some m' := by
  cases a with
  | move t mv => exact ⟨t, mv, rfl, ha.1, ha.2, h⟩
  | _ => cases ha

theorem movesOf_leads (hP : P t) (hmv : mv ≠ .spurious) (h : m.move N t mv = some m') :
    ((system T α N).restrict (MovesOf P)).Leads m m' :=
  .single (a := Act.move t mv) ⟨⟨hP, hmv⟩, h⟩

/-- The call of another thread changes only by waking up. -/
theorem move_awake (h : m.move N t mv = some m') {u : T} (hu : u ≠ t)
    (ha : (m.call u).asleepOn = none) : m'.call u = m.call u := by
  rcases move_cases h with ⟨o, w, call', -, hw, -, rfl⟩ | ⟨r, v, -, -, -, rfl⟩
  · simp only [update_of_ne hu]
    rcases wakeUp_apply hw u with h1 | ⟨v, -, hv, -⟩
    · exact h1
    · simp [ha] at hv
  · simp only [update_of_ne hu]

/-- What no wake-up changes of a call, the moves of other threads leave alone. -/
theorem move_congr {β : Type} {f : Call α → β} (hf : ∀ (r : WaitResult) c, f (c.wake r) = f c)
    (h : m.move N t mv = some m') {u : T} (hu : u ≠ t) : f (m'.call u) = f (m.call u) :=
  (move_stable hf h u).resolve_right fun h0 => hu h0.1

/-- The next move of a call that has the lock, or can take it, or sleeps until its time-out. -/
theorem Inv.next (H : m.Inv N) (hr : (m.call t).running = true)
    (hl : m.arr.lock = none ∨ m.arr.lock = some t) :
    ∃ mv m', mv ≠ .spurious ∧ m.move N t mv = some m' ∧
      ((∃ o, CallStep N t m.arr (m.call t) o ∧ m'.arr = o.arr ∧ m'.call t = o.call) ∨
        ((m.call t).asleepOn.isSome = true ∧ m'.arr = m.arr ∧
          m'.call t = (m.call t).wake .timedOut)) := by
  by_cases hs : (m.call t).asleepOn = none
  · obtain ⟨o, ho⟩ := H.callStep hr hs (hl.symm.imp_left (H.lock t).1)
    obtain ⟨w, call', h⟩ := move_of_callStep ho
    exact ⟨.run w, _, by simp, h, .inl ⟨o, ho, rfl, update_self ..⟩⟩
  · have hs := Option.isSome_iff_ne_none.2 hs
    have h : m.move N t .timeout = some _ := if_pos hs
    exact ⟨.timeout, _, by simp, h, .inr ⟨hs, rfl, update_self ..⟩⟩

theorem lock_move (h : m.move N t mv = some m')
    (hl : m.arr.lock = none ∨ m.arr.lock = some t) :
    m'.arr.lock = none ∨ m'.arr.lock = some t := by
  rcases move_cases h with ⟨o, w, call', hs, -, -, rfl⟩ | ⟨r, v, -, -, -, rfl⟩
  · rcases hs.lock with ⟨-, h1⟩ | ⟨-, -, -, h1⟩ | ⟨-, -, h1⟩
    · rwa [← h1] at hl
    · exact .inr h1
    · exact .inl h1
  · exact hl

/-- A call that is ready returns when its thread runs alone. -/
theorem Inv.returns (H : m.Inv N) (hr : (m.call t).running = true)
    (hl : m.arr.lock = none ∨ m.arr.lock = some t) (hc : (m.call t).Ready N m.arr) :
    ∃ m', ((system T α N).restrict (MovesOf (· = t))).Leads m m' ∧ (m'.call t).done = true ∧
      m'.arr.lock = none := by
  induction hn : (m.call t).rank using Nat.strong_induction_on generalizing m with
  | _ n ih =>
    obtain ⟨mv, m₁, hmv, h, hm⟩ := H.next hr hl
    have hready : (m₁.call t).Ready N m₁.arr ∧ (m₁.call t).rank < n := by
      rcases hm with ⟨o, ho, harr, hcall⟩ | ⟨hs, harr, hcall⟩
      · rw [harr, hcall, ← hn]
        obtain ⟨h1, h2⟩ := ho.ready hc (H.asserts t)
        exact ⟨h1, ho.rank.resolve_right (by simp [h2])⟩
      · rw [harr, hcall, ← hn]
        exact ⟨hc.wake, Call.rank_wake hs⟩
    have hl₁ := lock_move h hl
    have hop : (m₁.call t).op ≠ none := by
      rw [move_op h]
      generalize m.call t = c at hr
      cases c <;> first | (cases hr; done) | simp [Call.op]
    obtain ⟨p, hp⟩ := Option.ne_none_iff_exists'.1 hop
    have hlead := movesOf_leads (P := (· = t)) rfl hmv h
    rcases Call.running_of_op hp with hr₁ | hd
    · obtain ⟨m₂, h₂, h3⟩ := ih _ hready.2 (H.move h) hr₁ hl₁ hready.1 rfl
      exact ⟨m₂, hlead.trans h₂, h3⟩
    · refine ⟨m₁, hlead, hd, hl₁.resolve_right fun h0 => ?_⟩
      have := ((H.move h).lock t).1 h0
      rw [Call.holdsLock_of_done hd] at this
      cases this

/-- The call that has the lock comes to release it. -/
theorem Inv.unlocks (H : m.Inv N) (hP : ∀ u, m.arr.lock = some u → P u) :
    ∃ m', ((system T α N).restrict (MovesOf P)).Leads m m' ∧ m'.arr.lock = none := by
  cases hl : m.arr.lock with
  | none => exact ⟨m, .refl, hl⟩
  | some t =>
    have hPt := hP t hl
    clear hP
    induction hn : (m.call t).rank using Nat.strong_induction_on generalizing m with
    | _ n ih =>
      have ht := (H.lock t).1 hl
      have hr : (m.call t).running = true := by
        generalize m.call t = c at ht
        cases c <;> first | rfl | cases ht
      obtain ⟨mv, m₁, hmv, h, hm⟩ := H.next hr (.inr hl)
      have hlead := movesOf_leads hPt hmv h
      rcases lock_move h (.inr hl) with hl₁ | hl₁
      · exact ⟨m₁, hlead, hl₁⟩
      · have ht₁ := awake_of_holdsLock (((H.move h).lock t).1 hl₁)
        have hlt : (m₁.call t).rank < n := by
          rcases hm with ⟨o, ho, -, hcall⟩ | ⟨hs, -, -⟩
          · rw [hcall] at ht₁
            rw [hcall, ← hn]
            exact ho.rank.resolve_right (by simp [ht₁])
          · simp [awake_of_holdsLock ht] at hs
        obtain ⟨m₂, h₂, h3⟩ := ih _ hlt (H.move h) hl₁ rfl
        exact ⟨m₂, hlead.trans h₂, h3⟩

/-! ## What such a run leaves alone -/

/-- A thread that runs alone only passes pointers on between the queue and its call. -/
theorem contents_alone (hN : 2 ≤ N) (H : (system T α N).Reachable m)
    (h : ((system T α N).restrict (MovesOf (· = t))).Leads m m') :
    (m'.items : Multiset α) + (m'.call t).carries = m.items + (m.call t).carries := by
  refine h.keeps (I := fun m' => (m'.items : Multiset α) + (m'.call t).carries =
    m.items + (m.call t).carries) (fun m₁ a m₂ H₁ ha hs hI => ?_) H rfl
  obtain ⟨u, mv, -, rfl, -, hs⟩ := movesOf_cases ha hs
  rw [((inv_reachable hN H₁).contents_move hs).1, hI]

/-- An `array_get` that runs alone to its end takes an element, if there is one and it has not yet
taken one. -/
theorem get_alone (hN : 2 ≤ N) (H : (system T α N).Reachable m)
    (h : ((system T α N).restrict (MovesOf (· = t))).Leads m m')
    (hop : (m'.call t).op = some .get) (hd : (m'.call t).done = true) :
    m'.items.length ≤ m.items.length ∧
    (m.call t = .get .fetchAdd → m.items ≠ [] → m'.items.length < m.items.length) := by
  have hc := congrArg Multiset.card (contents_alone hN H h)
  have ha := (inv_reachable hN (H.leads h.of_restrict)).asserts t
  have he := (inv_reachable hN (H.leads h.of_restrict)).empty_iff
  simp only [Multiset.card_add, Multiset.coe_card] at hc
  generalize m'.call t = c at hc hop hd ha
  cases c with
  | getDone r =>
    cases r with
    | none =>
      have h0 := he.1 ha.2
      rw [h0] at hc ⊢
      refine ⟨Nat.zero_le _, fun hb hne => ?_⟩
      have : m.items.length = 0 := by simpa [hb, Call.carries, Call.holds, GetPc.got] using hc.symm
      exact absurd (List.length_eq_zero_iff.1 this) hne
    | some x =>
      have hx : Multiset.card (m.call t).carries ≤ 1 := by
        rw [Call.carries]
        cases (m.call t).holds <;> simp
      simp only [Call.carries_getDone, Option.toList_some, Multiset.coe_singleton,
        Multiset.card_singleton] at hc
      refine ⟨by omega, fun hb _ => ?_⟩
      rw [hb] at hc
      simp [Call.carries, Call.holds, GetPc.got] at hc
      omega
  | _ => first | (cases hd; done) | cases hop

theorem op_moves (H : (system T α N).Reachable m)
    (h : ((system T α N).restrict (MovesOf P)).Leads m m') (u : T) :
    (m'.call u).op = (m.call u).op := by
  refine h.keeps (I := fun m' => (m'.call u).op = (m.call u).op)
    (fun m₁ a m₂ _ ha hs hI => ?_) H rfl
  obtain ⟨t, mv, -, -, -, hs⟩ := movesOf_cases ha hs
  rw [move_op hs, hI]

theorem counted_moves (H : (system T α N).Reachable m)
    (h : ((system T α N).restrict (MovesOf P)).Leads m m') {u : T} (hu : ¬ P u) :
    (m'.call u).counted = (m.call u).counted := by
  refine h.keeps (I := fun m' => (m'.call u).counted = (m.call u).counted)
    (fun m₁ a m₂ _ hok hs hI => ?_) H rfl
  obtain ⟨t, mv, -, ht, -, hs⟩ := movesOf_cases hok hs
  have hut : u ≠ t := fun e => hu (e ▸ ht)
  rw [move_congr (fun _ _ => Call.counted_wake) hs hut, hI]

theorem shutdown_moves (H : (system T α N).Reachable m)
    (h : ((system T α N).restrict (MovesOf P)).Leads m m') (hs : m.arr.shutdown = true) :
    m'.arr.shutdown = true :=
  h.keeps (I := fun m => m.arr.shutdown = true) (fun _ _ _ _ _ h hs => shutdown_step h hs) H hs

theorem movesOf_mono {Q : T → Prop} (hQ : ∀ u, Q u → P u)
    (h : ((system T α N).restrict (MovesOf Q)).Leads m m') :
    ((system T α N).restrict (MovesOf P)).Leads m m' := by
  refine h.restrict_mono fun m a ha => ?_
  cases a with
  | move t mv => exact ⟨hQ t ha.1, ha.2⟩
  | _ => cases ha

/-! ## The getters leave -/

/-- Only threads in `P` become getters that are counted. -/
theorem counted_keeps {Q : T → Prop} (H : (system T α N).Reachable m) (hQ : ∀ u, Q u → P u)
    (hP : ∀ u, (m.call u).counted = true → P u)
    (h : ((system T α N).restrict (MovesOf Q)).Leads m m') (u : T)
    (hu : (m'.call u).counted = true) : P u := by
  by_contra hn
  rw [counted_moves H h fun h0 => hn (hQ u h0)] at hu
  exact hn (hP u hu)

/-- A getter that is counted leaves a queue that is shut down. -/
theorem getter_leaves (hN : 2 ≤ N) (H : (system T α N).Reachable m)
    (hs : m.arr.shutdown = true) (hl : m.arr.lock = none) (ht : (m.call t).counted = true) :
    ∃ m', ((system T α N).restrict (MovesOf (· = t))).Leads m m' ∧ m'.arr.lock = none ∧
      tally Call.counted m'.call < tally Call.counted m.call := by
  have hc : (m.call t).running = true ∧ (m.call t).Ready N m.arr := by
    generalize m.call t = c at ht
    cases c <;> first | exact ⟨rfl, .inr (.inl hs)⟩ | cases ht
  obtain ⟨m', h, hd, hl'⟩ := (inv_reachable hN H).returns hc.1 (.inl hl) hc.2
  refine ⟨m', h, hl', ?_⟩
  have ht' : (m'.call t).counted = false := by
    generalize m'.call t = c at hd
    cases c <;> first | rfl | cases hd
  have hsum := sum_of_ne (f := fun u => (m.call u).counted.toNat)
    (g := fun u => (m'.call u).counted.toNat) (t := t) fun u hu => by rw [counted_moves H h hu]
  simp only [ht, ht', Bool.toNat_true, Bool.toNat_false] at hsum
  simp only [tally]
  omega

/-- Where the queue is shut down and only threads in `P` are counted as getters, these threads can
bring `active_getters` to 0. -/
theorem getters_leave (hN : 2 ≤ N) (H : (system T α N).Reachable m)
    (hs : m.arr.shutdown = true) (hl : ∀ u, m.arr.lock = some u → P u)
    (hP : ∀ u, (m.call u).counted = true → P u) :
    ∃ m', ((system T α N).restrict (MovesOf P)).Leads m m' ∧ m'.arr.activeGetters = 0 := by
  obtain ⟨m₁, h₁, hl₁⟩ := (inv_reachable hN H).unlocks hl
  obtain ⟨m₂, h₂, -, h₃⟩ := TransitionSystem.Leads.until
    (S := (system T α N).restrict (MovesOf P)) (G := fun m => m.arr.activeGetters = 0)
    (I := fun m => (system T α N).Reachable m ∧ m.arr.shutdown = true ∧ m.arr.lock = none ∧
      ∀ u, (m.call u).counted = true → P u)
    (fun m => tally Call.counted m.call) (fun m hI hG => by
      obtain ⟨H, hs, hl, hP⟩ := hI
      have hcount : m.arr.activeGetters = tally Call.counted m.call := activeGetters_exact H
      obtain ⟨u, hu⟩ := tally_pos.1 (by omega : 0 < tally Call.counted m.call)
      obtain ⟨m', h, hl', hlt⟩ := getter_leaves hN H hs hl hu
      have hsub : ∀ x, x = u → P x := fun x hx => hx ▸ hP u hu
      exact ⟨m', movesOf_mono hsub h, ⟨H.leads h.of_restrict, shutdown_moves H h hs, hl',
        counted_keeps H hsub hP h⟩, hlt⟩)
    ⟨H.leads h₁.of_restrict, shutdown_moves H h₁ hs, hl₁, counted_keeps H (fun _ h => h) hP h₁⟩
  exact ⟨m₂, h₁.trans h₂, h₃⟩

end Monitor
end DnsResolver
