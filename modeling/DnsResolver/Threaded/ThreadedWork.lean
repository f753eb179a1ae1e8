import DnsResolver.Threaded.ThreadedSolo
import DnsResolver.Array.ArrayWork

/-!
# The work left in the program

A run of `dnsthreaded` makes only so many steps outside the timed waits, whatever fails and however
the threads are interleaved: `State.work` prices what each thread has still to do, what each string
in a queue will cost its consumer and what each byte of a file will cost its reader, and no step
raises it (`work_step`). The price of a whole run is linear in the sizes of the files
(`bounded_work`). Where moreover the program cannot get stuck, every reachable state leads to one in
which `main` has returned (`can_return`). -/

namespace DnsResolver
open Function Finset

variable {R S : Nat} {cfg : Config R S} {s s' : State R S} {t u : Tid R S} {q : QName}
  {e : Effect R S}

/-! ## Prices -/

namespace Config

/-- The length of a data file. -/
def size (cfg : Config R S) (name : Bytes) : Nat := ((cfg.fs name).getD []).length

/-- What a string in a queue costs the threads that get it, and those behind them. -/
def price (cfg : Config R S) : QName → Str → Nat
  | .filenameQueue, f => 14 + 67 * cfg.size f.bytes
  | .hostnameQueue, _ => 35
  | .requesterLogfileQueue, _ | .resolverLogfileQueue, _ => 13

@[simp] theorem price_logger (cfg : Config R S) (k : Logger) (x : Str) : cfg.price k.queue x = 13 := by
  cases k <;> rfl

/-- What it costs to put the filenames from the `i`-th on and to read the files. -/
def filesWork (cfg : Config R S) (i : Nat) : Nat :=
  ((cfg.files.drop i).map fun name => 24 + 67 * cfg.size name).sum

/-- What a call costs that a thread enters. -/
def owed (cfg : Config R S) : Option (QName × Op Str) → Nat
  | some (q, p) => p.start.load (cfg.price q)
  | none => 0

theorem filesWork_eq {i : Nat} {name : Bytes} (h : cfg.files[i]? = some name) :
    cfg.filesWork i = 24 + 67 * cfg.size name + cfg.filesWork (i + 1) := by
  obtain ⟨hi, rfl⟩ := List.getElem?_eq_some_iff.1 h
  rw [filesWork, filesWork, List.drop_eq_getElem_cons hi, List.map_cons, List.sum_cons]

theorem filesWork_end {i : Nat} (h : cfg.files[i]? = none) : cfg.filesWork i = 0 := by
  rw [filesWork, List.drop_eq_nil_of_le (List.getElem?_eq_none_iff.1 h)]
  rfl

end Config

/-- What a requester has still to do outside its call. -/
def RequesterLoc.work (cfg : Config R S) : RequesterLoc → Nat
  | .idle | .next => 40
  | .getFile => 30
  | .openFile f => 43 + 67 * cfg.size f.bytes
  | .invalidFile _ | .closeFile _ => 41
  | .readLine r => 42 + 67 * r.rest.length
  | .dupLog r _ => 108 + 67 * r.rest.length
  | .putLog r _ _ => 88 + 67 * r.rest.length
  | .logRefused r _ _ => 87 + 67 * r.rest.length
  | .dupHost r _ => 86 + 67 * r.rest.length
  | .putHost r _ => 44 + 67 * r.rest.length
  | .hostRefused r _ => 43 + 67 * r.rest.length
  | .lockReaders => 29
  | .decrement => 28
  | .freeHostname => 15
  | .freeRequesterLog => 2
  | .unlockReaders => 1
  | .failed | .finished => 0

def ResolverLoc.work : ResolverLoc → Nat
  | .idle | .next => 11
  | .getHost => 1
  | .resolve _ => 35
  | .format .. => 34
  | .putRecord .. => 14
  | .recordRefused .. => 13
  | .freeHost _ => 12
  | .finished => 0

def LoggerLoc.work : LoggerLoc → Nat
  | .idle | .next => 11
  | .get => 1
  | .write _ => 13
  | .freeString _ => 12
  | .finished => 0

def MainLoc.work (cfg : Config R S) : MainLoc → Nat
  | .createLogger .requesterLog => 107 + 2 * S + 3 * R + cfg.filesWork 0
  | .createLogger .resolverLog => 106 + 2 * S + 3 * R + cfg.filesWork 0
  | .allocTables => 105 + 2 * S + 3 * R + cfg.filesWork 0
  | .abort qs => 1 + 14 * qs.length
  | .abortFree _ qs => 2 + 14 * qs.length
  | .setReaders => 47 + 2 * S + 3 * R + cfg.filesWork 0
  | .createRequester i => 46 + 2 * S + R + cfg.filesWork 0 + 2 * (R - i)
  | .createFailed i => 47 + 2 * S + R + cfg.filesWork 0 + 2 * (R - (i + 1))
  | .enqueue i => 45 + 2 * S + R + cfg.filesWork i
  | .dupFile i name => 68 + 2 * S + R + 67 * cfg.size name + cfg.filesWork (i + 1)
  | .putFile i _ => 47 + 2 * S + R + cfg.filesWork (i + 1)
  | .fileRefused i _ => 46 + 2 * S + R + cfg.filesWork (i + 1)
  | .createResolver j => 44 + S + R + (S - j)
  | .freeFilename => 31 + S + R
  | .joinRequester i => 30 + S + (R - i)
  | .joinResolver j => 29 + (S - j)
  | .freeRequesterLog => 16
  | .freeResolverLog => 3
  | .joinLogger .requesterLog => 2
  | .joinLogger .resolverLog => 1
  | .exited | .returned => 0

namespace State

/-- What a thread has still to do outside its call. -/
def workOf (cfg : Config R S) (s : State R S) : Tid R S → Nat
  | .main => s.main.work cfg
  | .requester i => (s.requester i).loc.work cfg
  | .resolver j => (s.resolver j).loc.work
  | .logger k => (s.logger k).work
  | .outsider _ => 0

/-- What is left to do in the whole program. -/
def work (cfg : Config R S) (s : State R S) : Nat :=
  ∑ t, s.workOf cfg t + ∑ q, (s.queue q).work (cfg.price q)

/-- What a call costs that a thread is in. -/
def paid (cfg : Config R S) (s : State R S) (t : Tid R S) : Option (QName × Op Str) → Nat
  | some (q, _) => ((s.queue q).call t).load (cfg.price q)
  | none => 0

end State

open State

/-! ## One statement -/

@[simp] theorem Call.load_getDone {α : Type} (price : α → Nat) (r : Option α) :
    (Call.getDone r).load price = (r.toList.map price).sum := rfl

@[simp] theorem Op.load_get {α : Type} (price : α → Nat) : (Op.get.start : Call α).load price = 9 :=
  rfl

@[simp] theorem Op.load_free {α : Type} (price : α → Nat) :
    (Op.free.start : Call α).load price = 12 := rfl

@[simp] theorem Op.load_put {α : Type} (price : α → Nat) (x : α) :
    (Op.put x).start.load price = price x + 6 := rfl

/-- A requester pays for the lines of a file with its bytes. -/
theorem RequesterStep.work {i : Fin R} {l l' : RequesterLoc} (h : RequesterStep cfg s i l l' e) :
    l'.work cfg + cfg.owed l'.op < l.work cfg + s.paid cfg (.requester i) l.op := by
  cases h with
  | file hc =>
    simp [RequesterLoc.work, RequesterLoc.op, Config.owed, paid, hc, Config.price]
    omega
  | openFile hf => simp [RequesterLoc.work, RequesterLoc.op, Config.owed, paid, Config.size, hf]
  | emptyLine hg | line hg =>
    have := getline_length hg
    simp [RequesterLoc.work, RequesterLoc.op, Config.owed, paid]
    omega
  | _ => simp [RequesterLoc.work, RequesterLoc.op, Config.owed, paid, Config.price] <;> omega

theorem ResolverStep.work {j : Fin S} {l l' : ResolverLoc} (h : ResolverStep cfg s j l l' e) :
    l'.work + cfg.owed l'.op < l.work + s.paid cfg (.resolver j) l.op := by
  cases h with
  | host hc => simp [ResolverLoc.work, ResolverLoc.op, Config.owed, paid, hc, Config.price]
  | _ => simp [ResolverLoc.work, ResolverLoc.op, Config.owed, paid, Config.price] <;> omega

theorem LoggerStep.work {k : Logger} {l l' : LoggerLoc} (h : LoggerStep s k l l' e) :
    l'.work + cfg.owed (l'.op k) < l.work + s.paid cfg (.logger k) (l.op k) := by
  cases h with
  | string hc => simp [LoggerLoc.work, LoggerLoc.op, Config.owed, paid, hc]
  | _ => simp [LoggerLoc.work, LoggerLoc.op, Config.owed, paid]

/-- `main` pays for a requester to give up and for every thread it creates. -/
theorem MainStep.work {l l' : MainLoc} (h : MainStep cfg s l l' e) :
    l'.work cfg + cfg.owed l'.op < l.work cfg + s.paid cfg .main l.op := by
  cases h with
  | enqueue hn | enqueue_skip hn =>
    simp only [MainLoc.work, MainLoc.op, Config.owed, paid, Config.filesWork_eq hn]
    omega
  | enqueued hn =>
    simp only [MainLoc.work, MainLoc.op, Config.owed, paid, Config.filesWork_end hn]
    omega
  | @createLogger_fail k _ =>
    cases k <;> simp [MainLoc.work, MainLoc.op, Config.owed, paid, allQueues] <;> omega
  | _ =>
    simp [MainLoc.work, MainLoc.op, Config.owed, paid, allQueues, Config.price] <;> omega

namespace Stmt

/-- A statement leaves the others as much to do as before. -/
theorem workOf_of_ne (H : s.Fresh) (h : Stmt cfg s t s') (hu : u ≠ t) :
    s'.workOf cfg u ≤ s.workOf cfg u := by
  have ho := h.other H hu
  cases u with
  | main => exact (congrArg (MainLoc.work cfg) ho).le
  | requester i =>
    rcases ho.2 with he | ⟨he, h' | h'⟩
    · exact (congrArg (RequesterLoc.work cfg) he).le
    all_goals
      simp only [workOf, he, h']
      simp [RequesterLoc.work]
  | resolver j =>
    rcases ho.2 with he | ⟨he, h'⟩
    · exact (congrArg ResolverLoc.work he).le
    · simp [workOf, he, h', ResolverLoc.work]
  | logger k =>
    rcases ho with he | ⟨he, h'⟩
    · exact (congrArg LoggerLoc.work he).le
    · simp [workOf, he, h', LoggerLoc.work]
  | outsider q => exact le_rfl

/-- A statement lowers the work of its thread, with the calls that it leaves and enters. -/
theorem workOf_self (ho : cfg.outsiders = false) (h : Stmt cfg s t s') :
    s'.workOf cfg t + cfg.owed (s'.op t) < s.workOf cfg t + s.paid cfg t (s.op t) := by
  cases h with
  | main h => exact h.work
  | requester h =>
    simp only [workOf, State.op, setRequester, update_self]
    exact h.work
  | resolver h =>
    simp only [workOf, State.op, setResolver, update_self]
    exact h.work
  | logger h =>
    simp only [workOf, State.op, update_self]
    exact h.work
  | outsiderFree hc | outsiderDone hc =>
    rw [ho] at hc
    cases hc

/-- What a thread has paid for is the call it is in. -/
theorem paid_eq (H : s.Synced) (t : Tid R S) :
    s.paid cfg t (s.op t) = ∑ q, ((s.queue q).call t).load (cfg.price q) := by
  have h0 (q : QName) (h : opAt (s.op t) q = none) :
      ((s.queue q).call t).load (cfg.price q) = 0 := by
    rw [H.call_idle h]
    rfl
  unfold paid
  cases ho : s.op t with
  | none => exact (sum_eq_zero fun q _ => h0 q (by rw [ho]; rfl)).symm
  | some p =>
    refine (sum_eq_single p.1 (fun q _ hq => h0 q ?_) (by simp)).symm
    rw [ho]
    simp [opAt, Ne.symm hq]

theorem owed_eq (H : s.Synced) (h : Stmt cfg s t s') :
    cfg.owed (s'.op t) = s'.paid cfg t (s'.op t) := by
  have hc := H.call_self h
  unfold Config.owed paid
  cases ho : s'.op t with
  | none => rfl
  | some p =>
    dsimp only
    rw [hc, ho]
    simp [opAt]

/-- The queues change with the calls that a statement leaves and enters. -/
theorem queue_work (H : s.Synced) (h : Stmt cfg s t s') :
    ∑ q, (s'.queue q).work (cfg.price q) + s.paid cfg t (s.op t) =
      ∑ q, (s.queue q).work (cfg.price q) + cfg.owed (s'.op t) := by
  rw [owed_eq H h, paid_eq H, paid_eq (H.stmt h), ← sum_add_distrib, ← sum_add_distrib]
  refine sum_congr rfl fun q _ => Monitor.work_of_ne ?_ fun u hu => call_of_ne h hu q
  rw [h.queue_eq, switch_items]

/-- A statement lowers the work. -/
theorem work_lt (ho : cfg.outsiders = false) (H : s.Synced) (h : Stmt cfg s t s') :
    s'.work cfg < s.work cfg := by
  have hq := h.queue_work H
  have ht := h.workOf_self ho
  have hs : ∑ u, s'.workOf cfg u + s.workOf cfg t ≤ ∑ u, s.workOf cfg u + s'.workOf cfg t := by
    rw [← add_sum_erase univ _ (mem_univ t), ← add_sum_erase univ (s.workOf cfg) (mem_univ t)]
    have := sum_le_sum fun u hu => h.workOf_of_ne H.fresh (ne_of_mem_erase (s := univ) hu)
    omega
  unfold State.work
  omega

end Stmt

namespace State

/-! ## One step -/

/-- A step of a call that stays inside a timed wait. -/
def inWait : State R S × Act R S × State R S → Bool
  | (_, .stmt .., _) => false
  | (s, .call q t _, s') => ((s.queue q).call t).inWait && ((s'.queue q).call t).inWait

variable (cfg s q) in
/-- The work of the program changes with that of the queue that a call is on. -/
theorem work_setQueue (m : Monitor (Tid R S) Str) :
    (s.setQueue q m).work cfg + (s.queue q).work (cfg.price q) =
      s.work cfg + m.work (cfg.price q) := by
  have h := Tally.sum_of_ne (f := fun q => (s.queue q).work (cfg.price q))
    (g := fun k => ((s.setQueue q m).queue k).work (cfg.price k)) (t := q) fun k hk => by
      rw [setQueue_of_ne m hk]
  have ht (u : Tid R S) : (s.setQueue q m).workOf cfg u = s.workOf cfg u := by
    cases u <;> rfl
  simp only [setQueue_self] at h
  simp only [work, ht]
  omega

/-- No step raises the work, and one outside the waits lowers it. -/
theorem work_step {a : Act R S} (ho : cfg.outsiders = false) (H : cfg.system.Reachable s)
    (h : s.step cfg a = some s') : (!inWait (s, a, s')).toNat + s'.work cfg ≤ s.work cfg := by
  obtain ⟨-, ⟨t, c, rfl, h'⟩ | ⟨q, t, mv, m, rfl, h', rfl⟩⟩ := step_cases h
  · have := h'.work_lt ho (synced_reachable H)
    simp only [inWait, Bool.not_false, Bool.toNat_true]
    omega
  · have hq := work_setQueue cfg s q m
    have hi := queue_inv H q
    have hle : m.work (cfg.price q) ≤ (s.queue q).work (cfg.price q) := hi.work_le h'
    simp only [inWait, setQueue_self]
    cases hw : ((s.queue q).call t).inWait && (m.call t).inWait with
    | false =>
      have hlt : m.work (cfg.price q) < (s.queue q).work (cfg.price q) := hi.work_lt h' hw
      simp only [Bool.not_false, Bool.toNat_true]
      omega
    | true =>
      simp only [Bool.not_true, Bool.toNat_false]
      omega

theorem work_init (cfg : Config R S) : (init : State R S).work cfg =
    129 + 43 * R + 13 * S + (cfg.files.map fun name => 24 + 67 * cfg.size name).sum := by
  have ht : ∑ t, (init : State R S).workOf cfg t =
      129 + 43 * R + 13 * S + cfg.filesWork 0 := by
    rw [← (Tid.equiv R S).sum_comp]
    simp [Fintype.sum_sum_type, Tid.equiv, workOf, init, MainLoc.work, RequesterLoc.work,
      ResolverLoc.work, LoggerLoc.work, show Fintype.card Logger = 2 from rfl]
    omega
  have hq (q : QName) : ((init : State R S).queue q).work (cfg.price q) = 0 := by
    simp [init, Monitor.init, Monitor.work, Monitor.contents, Monitor.items, Call.work]
  rw [work, ht, sum_congr rfl fun q _ => hq q, sum_const_zero, Config.filesWork]
  rfl

/-- **The work of a run.** Whatever fails and in whatever order the threads run, the steps of a run
that are not inside one of the timed waits are at most so many: linear in the sizes of the files
and in the numbers of files and threads. -/
theorem bounded_work {tr : List (State R S × Act R S × State R S)} (ho : cfg.outsiders = false)
    (h : cfg.system.Path .init tr s) : tr.countP (fun x => !inWait x) ≤
      129 + 43 * R + 13 * S + (cfg.files.map fun name => 24 + 67 * cfg.size name).sum := by
  have := h.count_le (p := fun x => !inWait x) (work cfg) (fun s a s' H h => work_step ho H h)
    (.init rfl)
  rw [work_init] at this
  omega

/-- The two readable files of `sample` have four bytes and two. -/
theorem bounded_work_sample : ∃ s tr, sample.system.Path .init tr s ∧ s.main = .returned ∧
    tr.countP (fun x => !inWait x) ≤ 659 := by
  have h : ∃ s ∈ schedule sample sampleDns (sampleRun 0 0), s.main = .returned := by decide +kernel
  obtain ⟨s, hs, hm⟩ := h
  obtain ⟨i, tr, hi, hp⟩ := (schedule_reachable hs).path
  obtain rfl : i = .init := hi
  have hsum : (sample.files.map fun name => 24 + 67 * sample.size name).sum = 474 := by decide
  have hle := bounded_work rfl hp
  rw [hsum] at hle
  exact ⟨s, tr, hp, hm, hle⟩

/-! ## The program comes to its end -/

/-- The work left, and then how far the waits whose conditions hold are from their ends. -/
def remaining (cfg : Config R S) (s : State R S) : ℕ ×ₗ ℕ :=
  toLex (s.work cfg, ∑ q, (s.queue q).toGo cfg.arraySize)

theorem remaining_setQueue {m : Monitor (Tid R S) Str} {P : ℕ → ℕ → Prop}
    (hP : ∀ a b c, P a b → P (a + c) (b + c))
    (h : m.work (cfg.price q) < (s.queue q).work (cfg.price q) ∨
      m.work (cfg.price q) = (s.queue q).work (cfg.price q) ∧
        P (m.toGo cfg.arraySize) ((s.queue q).toGo cfg.arraySize)) :
    (s.setQueue q m).work cfg < s.work cfg ∨ (s.setQueue q m).work cfg = s.work cfg ∧
      P (∑ k, ((s.setQueue q m).queue k).toGo cfg.arraySize)
        (∑ k, (s.queue k).toGo cfg.arraySize) := by
  have hw := work_setQueue cfg s q m
  refine h.imp (fun h => by omega) fun ⟨h1, h2⟩ => ⟨by omega, ?_⟩
  rw [← add_sum_erase univ _ (mem_univ q), setQueue_self,
    ← add_sum_erase univ (fun k => (s.queue k).toGo cfg.arraySize) (mem_univ q),
    sum_congr rfl fun k hk => by rw [setQueue_of_ne m (ne_of_mem_erase hk)]]
  exact hP _ _ _ h2

/-- A productive step brings the program nearer to its end. -/
theorem remaining_lt {a : Act R S} (ho : cfg.outsiders = false) (H : cfg.system.Reachable s)
    (ha : Productive cfg s a) (h : s.step cfg a = some s') : s'.remaining cfg < s.remaining cfg := by
  refine Prod.Lex.toLex_lt_toLex.2 ?_
  obtain ⟨-, ⟨t, c, rfl, h'⟩ | ⟨q, t, mv, m, rfl, h', rfl⟩⟩ := step_cases h
  · exact .inl (h'.work_lt ho (synced_reachable H))
  · exact remaining_setQueue (fun _ _ c h => Nat.add_lt_add_right h c)
      ((queue_inv H q).productive_move h' ha.1 ha.2)

/-- A futile step takes the program no farther from its end. -/
theorem remaining_le {a : Act R S} (H : cfg.system.Reachable s) (ha : Futile cfg s a)
    (h : s.step cfg a = some s') : s'.remaining cfg ≤ s.remaining cfg := by
  refine Prod.Lex.toLex_le_toLex.2 ?_
  obtain ⟨-, ⟨t, c, rfl, h'⟩ | ⟨q, t, mv, m, rfl, h', rfl⟩⟩ := step_cases h
  · exact ha.elim
  · exact remaining_setQueue (fun _ _ c h => Nat.add_le_add_right h c)
      ((queue_inv H q).futile_move h' ha.1 ha.2)

theorem remaining_leads (H : cfg.system.Reachable s)
    (h : (cfg.system.restrict (Futile cfg)).Leads s s') : s'.remaining cfg ≤ s.remaining cfg :=
  h.keeps (I := fun u => u.remaining cfg ≤ s.remaining cfg)
    (fun _ _ _ H ha h hle => (remaining_le H ha h).trans hle) H le_rfl

/-- Every step that no spurious wake-up makes is productive or futile. -/
theorem productive_or_futile {a : Act R S} (ha : StepsOf (fun _ => True) s a) :
    Productive cfg s a ∨ Futile cfg s a := by
  cases a with
  | stmt t c => exact .inl trivial
  | call q t mv =>
    cases hw : ((s.queue q).call t).waiting cfg.arraySize (s.queue q).arr with
    | false => exact .inl ⟨ha.2, hw⟩
    | true => exact .inr ⟨ha.2, hw⟩

theorem stepsOf_productive {a : Act R S} (ha : Productive cfg s a) : StepsOf (fun _ => True) s a := by
  cases a with
  | stmt t c => trivial
  | call q t mv => exact ⟨trivial, ha.1⟩

theorem stepsOf_futile {a : Act R S} (ha : Futile cfg s a) : StepsOf (fun _ => True) s a := by
  cases a with
  | stmt t c => trivial
  | call q t mv => exact ⟨trivial, ha.1⟩

/-- **The end is always in reach.** Where the files do not overfill the queues and nothing fails,
every reachable state leads, without a signal and without a spurious wake-up, to one in which `main`
has returned. -/
theorem can_return (ho : cfg.outsiders = false) (ha : cfg.allocFails = false)
    (hc : cfg.createFails = false) (hans : ∀ host, ∃ a, cfg.answers host a = true)
    (hf : ¬ cfg.Overfilled) (H : cfg.system.Reachable s) :
    ∃ s', (cfg.system.restrict (StepsOf fun _ => True)).Leads s s' ∧ s'.main = .returned := by
  have hstep (s : State R S) (H : cfg.system.Reachable s) (hm : s.main ≠ .returned) :
      ∃ s', (cfg.system.restrict (StepsOf fun _ => True)).Leads s s' ∧
        cfg.system.Reachable s' ∧ s'.remaining cfg < s.remaining cfg := by
    have hp : s.CanProgress cfg := by
      by_contra hn
      exact hf (((deadlock_iff ho ha hc hans H hm).2 hn).overfilled ho ha H)
    obtain ⟨s₁, h1, a, s₂, ha', h2⟩ := hp
    have H1 := H.leads h1.of_restrict
    have h2' : (cfg.system.restrict (StepsOf fun _ => True)).step s₁ a s₂ :=
      ⟨stepsOf_productive ha', h2⟩
    exact ⟨s₂, (h1.restrict_mono fun _ _ => stepsOf_futile).tail h2', H1.step h2,
      (remaining_lt ho H1 ha' h2).trans_le (remaining_leads H h1)⟩
  obtain ⟨s', h, -, hm⟩ := TransitionSystem.Leads.until (remaining cfg) hstep H
  exact ⟨s', h, hm⟩

theorem can_return_sample : ∃ s', (sample.system.restrict (StepsOf fun _ => True)).Leads .init s' ∧
    s'.main = .returned :=
  can_return rfl rfl rfl (fun _ => ⟨_, decide_eq_true rfl⟩) (by decide +kernel) (.init rfl)

end State
end DnsResolver
