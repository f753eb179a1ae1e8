import DnsResolver.Stress.StressSteps
import DnsResolver.Lib.Tally
import Mathlib.Algebra.BigOperators.Fin
import Mathlib.Algebra.Module.NatInt

/-!
# Where the items of the stress test are

Two accounts of the strings: by what becomes of the items (`places`: still to be made, in the queue,
in a consumer's hands, marked, dropped or left behind), and by who holds the memory (`memory`, where
a string ends as freed or left behind). No step changes either (`Step.total_eq`), so in every
reachable state each item is in exactly one place and no string is freed twice or lost
(`one_place`). -/

namespace DnsResolver.Stress
open Function

variable {P C : Nat} {cfg : Config P C} {s s' : State P C} {t u : Tid P C} {c : Choice}

/-! ## The strings -/

theorem hostname_injective : Function.Injective hostname := fun _ _ h =>
  decimal_injective (List.append_cancel_left h)

/-- What a producer prints a consumer reads. -/
theorem scanHostname_hostname (i : Nat) : scanHostname (hostname i) = some (i : Int) := by
  have h : scanInt (decimal i ++ []) = some (i : Int) := scanInt_decimal i (by simp)
  rw [List.append_nil] at h
  rw [scanHostname, hostname, List.take_left, if_pos rfl, List.drop_left, h]

/-- The string and its terminator fit into `malloc(MAX_NAME_LENGTH)`. -/
theorem hostname_length {i : Nat} (h : i < 2 ^ 31) : (hostname i).length + 1 ≤ maxNameLength := by
  have := decimal_length (k := 10) (by decide) (h.trans (by decide))
  rw [hostname, List.length_append]
  change 5 + (decimal i).length + 1 ≤ 256
  omega

/-- The strings of a producer from item `i` on. -/
def Config.rest (cfg : Config P C) (p : Fin P) (i : Nat) : Multiset Bytes :=
  (List.range' i (cfg.stop p - i)).map hostname

theorem Config.rest_cons {p : Fin P} {i : Nat} (h : i < cfg.stop p) :
    cfg.rest p i = {hostname i} + cfg.rest p (i + 1) := by
  obtain ⟨n, hn⟩ := Nat.exists_eq_add_of_lt h
  have h1 : cfg.stop p - i = n + 1 := by omega
  have h2 : cfg.stop p - (i + 1) = n := by omega
  rw [rest, rest, h1, h2, List.range'_succ]
  rfl

theorem Config.rest_eq_zero {p : Fin P} {i : Nat} (h : cfg.stop p ≤ i) : cfg.rest p i = 0 := by
  rw [rest, Nat.sub_eq_zero_of_le h]
  rfl

/-- All strings. -/
def Config.strings (cfg : Config P C) : Multiset Bytes := (Multiset.range cfg.total).map hostname

/-- The shares of the producers are all there is to make. -/
theorem Config.sum_rest (cfg : Config P C) : ∑ p, cfg.rest p (cfg.start p) = cfg.strings := by
  have h (k : Nat) (n : Nat) :
      ∑ p : Fin n, (((List.range' (p * k) k).map hostname : List Bytes) : Multiset Bytes) =
        (Multiset.range (n * k)).map hostname := by
    induction n with
    | zero => simp
    | succ n ih =>
      rw [Fin.sum_univ_castSucc]
      have hr : List.range' 0 (n * k) ++ List.range' (n * k) k = List.range' 0 (n * k + k) := by
        rw [← List.range'_append_1, Nat.zero_add]
      simp only [Fin.val_castSucc, Fin.val_last]
      rw [ih, Nat.succ_mul, ← Multiset.coe_range, ← Multiset.coe_range, Multiset.map_coe,
        Multiset.map_coe, Multiset.coe_add, ← List.map_append, List.range_eq_range',
        List.range_eq_range', hr]
  have hr (p : Fin P) : cfg.rest p (cfg.start p) =
      ((List.range' (p * cfg.itemsPerProducer) cfg.itemsPerProducer).map hostname : List Bytes) := by
    rw [rest, stop, Nat.add_sub_cancel_left]
    rfl
  simp only [hr]
  exact h _ _

theorem Config.strings_nodup (cfg : Config P C) : cfg.strings.Nodup :=
  (Multiset.nodup_range _).map hostname_injective

theorem Config.mem_strings {x : Bytes} (h : x ∈ cfg.strings) : ∃ i < cfg.total, x = hostname i := by
  obtain ⟨i, hi, rfl⟩ := Multiset.mem_map.1 h
  exact ⟨i, Multiset.mem_range.1 hi, rfl⟩

/-! ## Accounts -/

/-- A sum over the threads, by kind. -/
theorem sum_tid {M : Type} [AddCommMonoid M] (f : Tid P C → M) : ∑ t, f t =
    f .main + (∑ p, f (.producer p) + (∑ j, f (.consumer j) + f .handler)) := by
  have h := Fintype.sum_equiv (Tid.equiv P C) (fun x => f (Tid.equiv P C x)) f fun _ => rfl
  rw [← h]
  simp [Tid.equiv]

/-- What a producer has still to make. -/
def ProducerLoc.toMake (cfg : Config P C) (p : Fin P) : ProducerLoc → Multiset Bytes
  | .idle => cfg.rest p (cfg.start p)
  | .next i | .finished i => cfg.rest p i
  | .alloc i => {hostname i} + cfg.rest p (i + 1)
  | .put i _ | .refused i _ | .lockCount i | .count i | .unlockCount i => cfg.rest p (i + 1)

/-- The string that a refused producer has still to free. -/
def ProducerLoc.refusedString : ProducerLoc → Multiset Bytes
  | .refused _ x => {x}
  | _ => 0

/-- The string of a consumer that is not yet marked. -/
def ConsumerLoc.hand : ConsumerLoc → Multiset Bytes
  | .parse x | .lockCount x _ | .mark x _ => {x}
  | _ => 0

/-- The string that a consumer has still to free. -/
def ConsumerLoc.held : ConsumerLoc → Multiset Bytes
  | .parse x | .lockCount x _ | .mark x _ | .count x | .test x | .unlockCount x => {x}
  | .freeItem x | .unlockLast x | .freeLast x => {x}
  | .idle | .next | .get | .finished => 0

/-- Says which strings a producer and a consumer have, and which ones have left the program. -/
structure Account (P C : Nat) where
  producer : Fin P → ProducerLoc → Multiset Bytes
  consumer : ConsumerLoc → Multiset Bytes
  gone : State P C → Multiset Bytes

namespace Account
variable (A : Account P C)

def own (s : State P C) : Tid P C → Multiset Bytes
  | .producer p => A.producer p (s.producer p)
  | .consumer j => A.consumer (s.consumer j)
  | .main | .handler => 0

def total (s : State P C) : Multiset Bytes :=
  ∑ t, A.own s t + s.queue.contents + A.gone s

/-- Creation, the calls and the alarm move no string. -/
structure Quiet (cfg : Config P C) : Prop where
  producer : ∀ p, A.producer p (.next (cfg.start p)) = A.producer p .idle
  consumer : A.consumer .next = A.consumer .idle
  setQueue : ∀ s m, A.gone (s.setQueue m) = A.gone s
  ring : ∀ s v, A.gone (s.ring v) = A.gone s

end Account

/-- The argument of the call that is entered. -/
def putting : Option (Op Bytes) → Multiset Bytes
  | some p => p.arg
  | none => 0

/-- The account of the items. -/
def itemsAccount (cfg : Config P C) : Account P C where
  producer p l := l.toMake cfg p
  consumer := ConsumerLoc.hand
  gone s := s.marked.map hostname + s.dropped + s.left

/-- The account of the memory. -/
def memoryAccount (cfg : Config P C) : Account P C where
  producer p l := l.toMake cfg p + l.refusedString
  consumer := ConsumerLoc.held
  gone s := s.freed + s.left

namespace State

theorem switch_contents {m : Monitor (Tid P C) Bytes} {o o' : Option (Op Bytes)}
    (hi : o = none → m.call t = .idle) :
    (switch m t o o').contents + (m.call t).carries = m.contents + putting o' := by
  have h := Tally.sum_of_ne (f := fun u => (m.call u).carries)
    (g := fun u => ((switch m t o o').call u).carries) (t := t) fun u hu => by
      rw [switch_call hi, if_neg hu]
  have ht : ((switch m t o o').call t).carries = putting o' := by
    rw [switch_call hi, if_pos rfl]
    cases o' with
    | none => rfl
    | some p => exact Op.start_carries p
  rw [ht] at h
  rw [Monitor.contents, Monitor.contents, switch_items, add_assoc, h, add_assoc]

end State

open State

/-- Another thread keeps its strings. -/
theorem Stmt.own_of_ne {A : Account P C} (hA : A.Quiet cfg) (H : s.Synced) (h : Stmt cfg s t s')
    (hu : u ≠ t) : A.own s' u = A.own s u := by
  have ho := h.other H.fresh hu
  cases u with
  | producer p =>
    rcases ho with ho | ⟨h1, h2⟩
    · exact congrArg (A.producer p) ho
    · simp only [Account.own, h1, h2]
      exact hA.producer p
  | consumer j =>
    rcases ho with ho | ⟨h1, h2⟩
    · exact congrArg A.consumer ho
    · simp only [Account.own, h1, h2]
      exact hA.consumer
  | main | handler => rfl

/-- Where a statement passes the strings of its thread on, none is lost or made up. -/
theorem Stmt.total_eq {A : Account P C} (hA : A.Quiet cfg) (H : s.Synced) (h : Stmt cfg s t s')
    (ht : A.own s' t + putting (s'.op t) + A.gone s' =
      A.own s t + (s.queue.call t).carries + A.gone s) : A.total s' = A.total s := by
  have h1 := Tally.sum_of_ne fun u hu => h.own_of_ne hA H (u := u) hu
  have h2 : s'.queue.contents + (s.queue.call t).carries = s.queue.contents + putting (s'.op t) := by
    rw [h.queue_eq]
    exact switch_contents H.idle
  refine add_right_cancel (b := A.own s t + (s.queue.call t).carries) ?_
  calc A.total s' + (A.own s t + (s.queue.call t).carries)
      = (∑ u, A.own s' u + A.own s t) + (s'.queue.contents + (s.queue.call t).carries) +
          A.gone s' := by
        rw [Account.total]
        abel
    _ = ∑ u, A.own s u + s.queue.contents + (A.own s' t + putting (s'.op t) + A.gone s') := by
        rw [h1, h2]
        abel
    _ = A.total s + (A.own s t + (s.queue.call t).carries) := by
        rw [ht, Account.total]
        abel

/-- So no step changes the account, if its statements pass the strings on. -/
theorem Step.total_eq {A : Account P C} (hA : A.Quiet cfg) (H : s.Synced)
    (hi : s.queue.Inv cfg.arraySize) {a : Act P C} (h : Step cfg s a s')
    (hs : ∀ t s', Stmt cfg s t s' → A.own s' t + putting (s'.op t) + A.gone s' =
      A.own s t + (s.queue.call t).carries + A.gone s) : A.total s' = A.total s := by
  cases h with
  | stmt _ _ h => exact h.total_eq hA H (hs _ _ h)
  | @call w mv m _ _ h =>
    have ho (u : Tid P C) : A.own (s.setQueue m) u = A.own s u := by cases u <;> rfl
    rw [Account.total, Account.total, hA.setQueue, ← hi.contents_eq h]
    simp only [ho]
    rfl
  | @ring v _ _ hh =>
    have ho (u : Tid P C) : A.own (s.ring v) u = A.own s u := by cases u <;> rfl
    have hop : s.op .handler = none := by simp [State.op, hh]
    have hq : (switch s.queue .handler none (some .free)).contents +
        (s.queue.call .handler).carries = s.queue.contents + putting (some .free) :=
      switch_contents fun _ => H.idle hop
    rw [H.idle hop, Call.carries_idle, add_zero] at hq
    rw [Account.total, Account.total, hA.ring]
    simp only [ho]
    congr 2
    exact hq.trans (add_zero _)

/-! ## The two accounts -/

theorem quiet_items (cfg : Config P C) : (itemsAccount cfg).Quiet cfg where
  producer _ := rfl
  consumer := rfl
  setQueue _ _ := rfl
  ring _ _ := rfl

theorem quiet_memory (cfg : Config P C) : (memoryAccount cfg).Quiet cfg where
  producer _ := rfl
  consumer := rfl
  setQueue _ _ := rfl
  ring _ _ := rfl

/-- What is returned by a refused put is what was put. -/
theorem State.Synced.refused (H : s.Synced) {p : Fin P} {i : Nat} {x y : Bytes} {r : RetCode}
    (hp : s.producer p = .put i x) (hc : s.queue.call (.producer p) = .putDone y r) : y = x := by
  have h := H.op (.producer p)
  rw [hc, State.op, hp] at h
  simpa [Call.op, ProducerLoc.op] using h

/-- `main` has no strings. -/
theorem MainStep.strings {l l' : MainLoc} {e : Effect P C} (h : MainStep cfg s l l' e) :
    putting l'.op = 0 ∧ e.mark = none ∧ e.free = [] ∧ e.drop = [] ∧ e.leave = [] := by
  cases h <;> exact ⟨rfl, rfl, rfl, rfl, rfl⟩

theorem HandlerStep.strings {l l' : HandlerLoc} {e : Effect P C} (h : HandlerStep s l l' e) :
    putting l'.op = 0 ∧ e.mark = none ∧ e.free = [] ∧ e.drop = [] ∧ e.leave = [] := by
  cases h <;> exact ⟨rfl, rfl, rfl, rfl, rfl⟩

/-- A producer passes its items on. -/
theorem ProducerStep.strings {p : Fin P} {l' : ProducerLoc} {e : Effect P C} (H : s.Synced)
    (h : ProducerStep cfg s p (s.producer p) l' e) :
    e.mark = none ∧ e.leave = [] ∧
    l'.toMake cfg p + putting l'.op + e.drop =
      (s.producer p).toMake cfg p + (s.queue.call (.producer p)).carries ∧
    l'.toMake cfg p + l'.refusedString + putting l'.op + e.free =
      (s.producer p).toMake cfg p + (s.producer p).refusedString +
        (s.queue.call (.producer p)).carries := by
  have hidle : (s.producer p).op = none → (s.queue.call (.producer p)).carries = 0 := fun hp => by
    rw [H.idle (t := .producer p) hp, Call.carries_idle]
  generalize hl : s.producer p = l at h hidle
  cases h with
  | next hi =>
    rw [hidle rfl]
    simp [ProducerLoc.op, ProducerLoc.toMake, ProducerLoc.refusedString, putting, cfg.rest_cons hi]
  | alloc =>
    rw [hidle rfl]
    simp [ProducerLoc.op, ProducerLoc.toMake, ProducerLoc.refusedString, putting, Op.arg, add_comm]
  | put hc =>
    rw [hc, Call.carries_putDone_success]
    simp [ProducerLoc.op, ProducerLoc.toMake, ProducerLoc.refusedString, putting]
  | put_refused hc =>
    rw [hc, Call.carries_putDone_shutdown, H.refused hl hc]
    simp [ProducerLoc.op, ProducerLoc.toMake, ProducerLoc.refusedString, putting]
  | refused | stop | alloc_fail | lockCount | count | unlockCount =>
    rw [hidle rfl]
    simp [ProducerLoc.op, ProducerLoc.toMake, ProducerLoc.refusedString, putting]

/-- A consumer passes its item on, and marks the one it has. -/
theorem ConsumerStep.strings {j : Fin C} {l' : ConsumerLoc} {e : Effect P C} (H : s.Synced)
    (h : ConsumerStep cfg s j (s.consumer j) l' e)
    (hm : ∀ x item, s.consumer j = .mark x item → hostname item.toNat = x) :
    putting l'.op = 0 ∧
    l'.hand + e.mark.toList.map hostname + e.drop + e.leave =
      (s.consumer j).hand + (s.queue.call (.consumer j)).carries ∧
    l'.held + e.free + e.leave =
      (s.consumer j).held + (s.queue.call (.consumer j)).carries := by
  have hidle : (s.consumer j).op = none → (s.queue.call (.consumer j)).carries = 0 := fun hp => by
    rw [H.idle (t := .consumer j) hp, Call.carries_idle]
  generalize hl : s.consumer j = l at h hidle hm
  cases h with
  | shutdown hc | forced hc | item hc =>
    rw [hc, Call.carries_getDone]
    simp [ConsumerLoc.op, ConsumerLoc.hand, ConsumerLoc.held, putting]
  | mark =>
    rw [hidle rfl]
    simp [ConsumerLoc.op, ConsumerLoc.hand, ConsumerLoc.held, putting, hm _ _ rfl]
  | next =>
    rw [hidle rfl]
    simp [ConsumerLoc.op, ConsumerLoc.hand, ConsumerLoc.held, putting, Op.arg]
  | _ =>
    rw [hidle rfl]
    simp [ConsumerLoc.op, ConsumerLoc.hand, ConsumerLoc.held, putting]

/-- What a consumer is about to mark is the number of the item that it has. -/
def State.Marks (s : State P C) : Prop :=
  ∀ j x item, s.consumer j = .mark x item → hostname item.toNat = x

theorem MainLoc.op_cases (l : MainLoc) : l.op = none ∨ l.op = some .free := by
  cases l <;> simp [MainLoc.op]

theorem HandlerLoc.op_cases (l : HandlerLoc) : l.op = none ∨ l.op = some .free := by
  cases l <;> simp [HandlerLoc.op]

/-- A thread that frees the queue carries nothing. -/
theorem State.Synced.carries_eq_zero (H : s.Synced) (h : s.op t = none ∨ s.op t = some .free) :
    (s.queue.call t).carries = 0 := by
  rcases h with h | h
  · rw [H.idle h, Call.carries_idle]
  · exact Call.carries_free ((H.op t).trans h)

/-- What a statement marks, frees, drops and leaves behind, and that it passes the other strings of
its thread on. -/
theorem Stmt.strings (H : s.Synced) (hm : s.Marks) (h : Stmt cfg s t s') :
    ∃ e : Effect P C, Performs s s' e ∧
    (itemsAccount cfg).own s' t + putting (s'.op t) +
        (e.mark.toList.map hostname + e.drop + e.leave) =
      (itemsAccount cfg).own s t + (s.queue.call t).carries ∧
    (memoryAccount cfg).own s' t + putting (s'.op t) + (e.free + e.leave) =
      (memoryAccount cfg).own s t + (s.queue.call t).carries := by
  obtain ⟨e, hd, hp⟩ := h.effect
  refine ⟨e, hp, ?_⟩
  cases t with
  | main =>
    obtain ⟨h1, h2, h3, h4, h5⟩ := MainStep.strings hd
    rw [H.carries_eq_zero (t := .main) s.main.op_cases, h2, h3, h4, h5]
    simp [Account.own, State.op, h1]
  | producer i =>
    obtain ⟨h1, h2, h3, h4⟩ := ProducerStep.strings H hd
    rw [h1, h2]
    simp only [Account.own, State.op, itemsAccount, memoryAccount, ← h3, ← h4]
    exact ⟨by simp, by simp⟩
  | consumer j =>
    obtain ⟨h1, h2, h3⟩ := ConsumerStep.strings H hd (hm j)
    simp only [Account.own, State.op, itemsAccount, memoryAccount, ← h2, ← h3, h1]
    exact ⟨by abel, by abel⟩
  | handler =>
    obtain ⟨v, l, l', hh, hh', hd⟩ := hd
    obtain ⟨h1, h2, h3, h4, h5⟩ := hd.strings
    have hop : s.op .handler = none ∨ s.op .handler = some .free := by
      rw [State.op, hh]
      exact l.op_cases
    have hop' : putting (s'.op .handler) = 0 := by
      rw [State.op, hh']
      exact h1
    rw [H.carries_eq_zero hop, hop', h2, h3, h4, h5]
    exact ⟨rfl, rfl⟩

theorem Stmt.passes_items (H : s.Synced) (hm : s.Marks) (h : Stmt cfg s t s') :
    (itemsAccount cfg).own s' t + putting (s'.op t) + (itemsAccount cfg).gone s' =
      (itemsAccount cfg).own s t + (s.queue.call t).carries + (itemsAccount cfg).gone s := by
  obtain ⟨e, he, hp, -⟩ := h.strings H hm
  rw [← hp]
  simp only [itemsAccount, he.marked, he.dropped, he.left, List.map_append, ← Multiset.coe_add]
  abel

theorem Stmt.passes_memory (H : s.Synced) (hm : s.Marks) (h : Stmt cfg s t s') :
    (memoryAccount cfg).own s' t + putting (s'.op t) + (memoryAccount cfg).gone s' =
      (memoryAccount cfg).own s t + (s.queue.call t).carries + (memoryAccount cfg).gone s := by
  obtain ⟨e, he, -, hp⟩ := h.strings H hm
  rw [← hp]
  simp only [memoryAccount, he.freed, he.left, ← Multiset.coe_add]
  abel

/-! ## Every item in one place -/

/-- The number that a consumer has read is that of its string. -/
def ConsumerLoc.Parsed : ConsumerLoc → Prop
  | .lockCount x item | .mark x item => scanHostname x = some item
  | _ => True

theorem ConsumerStep.parsed {j : Fin C} {l l' : ConsumerLoc} {e : Effect P C}
    (h : ConsumerStep cfg s j l l' e) (hl : l.Parsed) : l'.Parsed := by
  cases h with
  | parse hx => exact hx
  | lockCount => exact hl
  | _ => trivial

namespace State

/-- Where the items are. -/
def places (cfg : Config P C) (s : State P C) : Multiset Bytes := (itemsAccount cfg).total s

/-- Where the strings are, as far as memory goes. -/
def memory (cfg : Config P C) (s : State P C) : Multiset Bytes := (memoryAccount cfg).total s

structure Accounted (cfg : Config P C) (s : State P C) : Prop where
  places : s.places cfg = cfg.strings
  memory : s.memory cfg = cfg.strings
  parsed : ∀ j, (s.consumer j).Parsed

theorem Accounted.own_mem (H : s.Accounted cfg) {x : Bytes} (h : x ∈ (itemsAccount cfg).own s t) :
    ∃ i < cfg.total, x = hostname i := by
  refine cfg.mem_strings (H.places ▸ ?_)
  have hx : x ∈ ∑ u, (itemsAccount cfg).own s u := Multiset.mem_sum.2 ⟨t, Finset.mem_univ t, h⟩
  exact Multiset.mem_add.2 (.inl (Multiset.mem_add.2 (.inl hx)))

/-- A consumer that has read a number has the string of that item. -/
theorem Accounted.item (H : s.Accounted cfg) {j : Fin C} {x : Bytes} {item : Int}
    (h : s.consumer j = .lockCount x item ∨ s.consumer j = .mark x item) :
    ∃ i < cfg.total, x = hostname i ∧ item = i := by
  have hx : x ∈ (itemsAccount cfg).own s (.consumer j) := by
    rcases h with h | h <;> simp [Account.own, itemsAccount, h, ConsumerLoc.hand]
  obtain ⟨i, hi, rfl⟩ := H.own_mem hx
  have hp := H.parsed j
  have hs : scanHostname (hostname i) = some item := by
    rcases h with h | h <;> simpa [h, ConsumerLoc.Parsed] using hp
  rw [scanHostname_hostname, Option.some.injEq] at hs
  exact ⟨i, hi, rfl, hs.symm⟩

theorem Accounted.marks (H : s.Accounted cfg) : s.Marks := fun j x item h => by
  obtain ⟨i, -, rfl, rfl⟩ := H.item (.inr h)
  rfl

theorem accounted_reachable (H : cfg.system.Reachable s) : s.Accounted cfg := by
  induction H with
  | init h =>
    rw [h]
    have hi : (itemsAccount cfg).total .init = ∑ p, cfg.rest p (cfg.start p) := by
      rw [Account.total, sum_tid]
      simp [Account.own, itemsAccount, init, ProducerLoc.toMake, ConsumerLoc.hand,
        Monitor.contents, Monitor.items, Monitor.init]
    have hm : (memoryAccount cfg).total .init = ∑ p, cfg.rest p (cfg.start p) := by
      rw [Account.total, sum_tid]
      simp [Account.own, memoryAccount, init, ProducerLoc.toMake, ProducerLoc.refusedString,
        ConsumerLoc.held, Monitor.contents, Monitor.items, Monitor.init]
    exact ⟨hi.trans cfg.sum_rest, hm.trans cfg.sum_rest, fun _ => trivial⟩
  | step H h ih =>
    have hs := synced_reachable H
    have h := step_cases h
    refine ⟨?_, ?_, fun j => ?_⟩
    · exact (h.total_eq (quiet_items cfg) hs (queue_inv H) fun _ _ h =>
        h.passes_items hs ih.marks).trans ih.places
    · exact (h.total_eq (quiet_memory cfg) hs (queue_inv H) fun _ _ h =>
        h.passes_memory hs ih.marks).trans ih.memory
    · rcases h.consumer hs.fresh j with he | ⟨-, he⟩ | ⟨e, he⟩
      · exact he ▸ ih.parsed j
      · rw [he]
        trivial
      · exact he.parsed (ih.parsed j)

/-- **Every item is in one place and every string has one owner**: in every reachable state each of
the strings to make is once among the places of the items, and once among the owners of memory, and
nothing else is there. -/
theorem one_place (H : cfg.system.Reachable s) :
    (∀ i < cfg.total, (s.places cfg).count (hostname i) = 1 ∧
      (s.memory cfg).count (hostname i) = 1) ∧
    ∀ x, x ∈ s.places cfg ∨ x ∈ s.memory cfg → ∃ i < cfg.total, x = hostname i := by
  have ha := accounted_reachable H
  rw [ha.places, ha.memory]
  refine ⟨fun i hi => ?_, fun x hx => cfg.mem_strings (or_self_iff.1 hx)⟩
  have hm : hostname i ∈ cfg.strings := Multiset.mem_map_of_mem _ (Multiset.mem_range.2 hi)
  exact and_self_iff.2 (Multiset.count_eq_one_of_mem cfg.strings_nodup hm)

/-- One item is in the queue, and the other is with a producer that waits. -/
theorem one_place_sample : ∃ s, sample.system.Reachable s ∧ s.queue.items = [hostname 0] ∧
    s.producer 1 = .put 1 (hostname 1) ∧ (s.places sample).count (hostname 1) = 1 := by
  have h : ∃ s ∈ schedule sample ((sampleRun 0 1 0).take 4), s.queue.items = [hostname 0] ∧
      s.producer 1 = .put 1 (hostname 1) := by decide +kernel
  obtain ⟨s, hs, h1, h2⟩ := h
  have H := schedule_reachable hs
  exact ⟨s, H, h1, h2, ((one_place H).1 1 (by decide)).1⟩

end State
end DnsResolver.Stress
