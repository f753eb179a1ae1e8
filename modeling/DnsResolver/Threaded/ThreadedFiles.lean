import DnsResolver.Threaded.ThreadedStrings
import DnsResolver.Lib.Merge

/-!
# The way of the files

`main` puts the readable files on `filename_queue` in the order of the command line; what the
requesters dequeue is an order-preserving merge of what each of them dequeues, and each opens what
it dequeues (`FilePath`). So no file is opened twice, and the files of one requester come in the
order of the command line. -/

namespace DnsResolver
open Function

variable {R S : Nat} {cfg : Config R S} {s s' : State R S} {t u : Tid R S} {q : QName}
  {e : Effect R S} {x : Str}

namespace Config

/-- The file can be opened. -/
def readable (cfg : Config R S) (i : Nat) : Bool :=
  match cfg.files[i]? with
  | some name => (cfg.fs name).isSome
  | none => false

/-- The readable files among the first `k` of the command line. -/
def enqueued (cfg : Config R S) (k : Nat) : List Nat := (List.range k).filter cfg.readable

theorem enqueued_succ (k : Nat) :
    cfg.enqueued (k + 1) = cfg.enqueued k ++ if cfg.readable k then [k] else [] := by
  rw [enqueued, List.range_succ, List.filter_append, List.filter_singleton]
  cases cfg.readable k <;> rfl

theorem enqueued_mono {k n : Nat} (h : k ≤ n) : (cfg.enqueued k).Sublist (cfg.enqueued n) := by
  induction h with
  | refl => exact List.Sublist.refl _
  | step _ ih =>
    rw [enqueued_succ]
    exact ih.trans (List.sublist_append_left ..)

theorem enqueued_nodup (k : Nat) : (cfg.enqueued k).Nodup := List.nodup_range.filter _

end Config

/-- The places on the command line of a string, if there is one. -/
def placesOf (x : Option Str) : List Nat := x.toList.map fun x => x.src.place

/-- How many of the `n` files `main` has tried to put. -/
def MainLoc.considered (n : Nat) : MainLoc → Nat
  | .enqueue i | .dupFile i _ => i
  | .putFile i _ | .fileRefused i _ => i + 1
  | .createResolver _ | .freeFilename | .joinRequester _ | .joinResolver _ => n
  | .freeRequesterLog | .freeResolverLog | .joinLogger _ | .returned => n
  | _ => 0

/-- The file that the requester is about to open. -/
def RequesterLoc.opening : RequesterLoc → List Nat
  | .openFile f => [f.src.place]
  | _ => []

/-- `main` puts the files in order, readable ones only. -/
theorem MainStep.considered {l l' : MainLoc} (h : MainStep cfg s l l' e) (hl : l.Typed cfg) :
    let n := cfg.files.length
    l.considered n ≤ l'.considered n ∧
    (∀ x, l'.op = some (.filenameQueue, .put x) → l.op = none ∧
      cfg.readable (l.considered n) = true ∧ x.src.place = l.considered n ∧
      l'.considered n = l.considered n + 1) ∧
    (cfg.allocFails = false → cfg.openFails = false →
      (∀ x, l'.op ≠ some (.filenameQueue, .put x)) →
      cfg.enqueued (l'.considered n) = cfg.enqueued (l.considered n)) := by
  cases h with
  | enqueue_skip h1 h2 =>
    refine ⟨Nat.le_succ _, nofun, fun _ ho _ => ?_⟩
    have hr : cfg.fs _ = none := h2.resolve_right (by rw [ho]; nofun)
    simp [MainLoc.considered, Config.enqueued_succ, Config.readable, h1, hr]
  | @enqueued i h1 =>
    have hi : i = cfg.files.length := Nat.le_antisymm hl (List.getElem?_eq_none_iff.1 h1)
    simp [MainLoc.considered, hi, MainLoc.op]
  | @dupFile i name =>
    refine ⟨Nat.le_succ _, ?_, fun _ _ h => absurd rfl (h _)⟩
    rintro x ⟨⟩
    exact ⟨rfl, by simp [Config.readable, MainLoc.considered, hl.1, hl.2], rfl, rfl⟩
  | dupFile_fail h =>
    refine ⟨Nat.le_succ _, nofun, fun ha => ?_⟩
    exact absurd (ha.symm.trans h) nofun
  | @resolversCreated j hj => simp [MainLoc.considered, MainLoc.op]
  | _ => simp [MainLoc.considered, MainLoc.op]

/-- What a requester opens it has dequeued, in the same order. -/
theorem RequesterStep.opening {i : Fin R} {l l' : RequesterLoc} (h : RequesterStep cfg s i l l' e) :
    (l.opening ++ e.dequeued = e.opened ++ l'.opening) ∨
    (l'.opening = [] ∧ e.dequeued = [] ∧ e.opened = [] ∧
      ∃ f, l = .openFile f ∧ (cfg.fs f.bytes = none ∨ cfg.openFails = true)) := by
  cases h <;> simp_all [RequesterLoc.opening]

open State

@[simp] theorem Op.start_got {α : Type} (o : Op α) : o.start.got = none := by
  cases o <;> rfl

/-- A requester counts as dequeued what its `array_get` has returned. -/
theorem RequesterStep.dequeued {i : Fin R} {l l' : RequesterLoc} (h : RequesterStep cfg s i l l' e)
    (H : ((s.queue .filenameQueue).call (.requester i)).op = opAt l.op .filenameQueue) :
    e.dequeued = placesOf ((s.queue .filenameQueue).call (.requester i)).got := by
  cases h with
  | file hf => simp [hf, placesOf, Call.got]
  | noFile hf => simp [hf, placesOf, Call.got]
  | _ =>
    rw [Call.op_eq_none.1 H]
    rfl

namespace State

/-- The places of the filenames that `main` has put or is about to store. -/
def offered (s : State R S) : List Nat :=
  (s.queue .filenameQueue).ghost.accepted.map (fun x => x.src.place) ++
    placesOf ((s.queue .filenameQueue).call .main).holds

/-- The places of the files a requester has got, in order. -/
def got (s : State R S) (i : Fin R) : List Nat :=
  (s.requester i).dequeued ++ placesOf ((s.queue .filenameQueue).call (.requester i)).got

/-- The places of all filenames that `array_get` has taken, in order. -/
def taken (s : State R S) : List Nat :=
  (s.queue .filenameQueue).ghost.delivered.map fun x => x.src.place

/-- The order in which the files go from `main` to the requesters. -/
structure FilePath (cfg : Config R S) (s : State R S) : Prop where
  offered : s.offered.Sublist (cfg.enqueued (s.main.considered cfg.files.length))
  merge : IsMerge s.got s.taken
  opened : ∀ i, ((s.requester i).opened ++ (s.requester i).loc.opening).Sublist
    (s.requester i).dequeued

theorem Synced.got_self (H : s.Synced) (h : Stmt cfg s t s') (q : QName) :
    ((s'.queue q).call t).got = none := by
  rw [H.call_self h]
  cases opAt (s'.op t) q with
  | none => rfl
  | some p => exact Op.start_got p

/-- After a statement a thread holds in a call what it has handed to it. -/
theorem Synced.holds_self (H : s.Synced) (h : Stmt cfg s t s') (q : QName) :
    (∃ x, s'.op t = some (q, .put x) ∧ ((s'.queue q).call t).holds = some x) ∨
    ((∀ x, s'.op t ≠ some (q, .put x)) ∧ ((s'.queue q).call t).holds = none) := by
  rw [H.call_self h]
  cases ho : opAt (s'.op t) q with
  | none => exact .inr ⟨fun x hx => by simp [opAt_eq_some.2 hx] at ho, rfl⟩
  | some p =>
    cases p with
    | put x => exact .inl ⟨x, opAt_eq_some.1 ho, rfl⟩
    | get | free =>
      rw [opAt_eq_some] at ho
      exact .inr ⟨fun x hx => by simp [ho] at hx, rfl⟩

theorem FilePath.offered_stmt (H : s.FilePath cfg) (hs : s.Synced) (ht : s.WellTyped cfg)
    (h : Stmt cfg s t s') :
    s'.offered.Sublist (cfg.enqueued (s'.main.considered cfg.files.length)) := by
  have hacc : (s'.queue .filenameQueue).ghost.accepted =
      (s.queue .filenameQueue).ghost.accepted := by rw [h.queue_eq, switch_accepted]
  by_cases hm : Tid.main = t
  · subst hm
    have ho := H.offered
    have hc := hs.op .filenameQueue .main
    have hh := hs.holds_self h .filenameQueue
    rw [State.offered, hacc]
    unfold State.offered at ho
    obtain ⟨e, hl, -⟩ := main_step h
    obtain ⟨h1, h2, -⟩ := hl.considered ht.main
    rcases hh with ⟨x, hx, hh⟩ | ⟨-, hh⟩
    · obtain ⟨h3, h4, h5, h6⟩ := h2 x hx
      have h0 : (s.queue .filenameQueue).call .main = .idle := by
        rw [← Call.op_eq_none, hc]
        simp [op, h3]
      rw [h6, Config.enqueued_succ, h4, if_pos rfl, hh]
      rw [h0] at ho
      simp only [placesOf, Call.holds, Option.toList_none, List.map_nil, List.append_nil] at ho
      exact ho.append (by simp [placesOf, h5])
    · rw [hh]
      simp only [placesOf, Option.toList_none, List.map_nil, List.append_nil]
      exact (List.sublist_append_left ..).trans (ho.trans (cfg.enqueued_mono h1))
  · have h1 : s'.main = s.main := h.other hs.fresh hm
    rw [State.offered, hacc, call_of_ne h hm, h1]
    exact H.offered

/-- Who the other threads are, a statement leaves what they have dequeued and opened. -/
theorem other_files (hf : s.Fresh) (h : Stmt cfg s t s') {i : Fin R} (hi : .requester i ≠ t) :
    (s'.requester i).dequeued = (s.requester i).dequeued ∧
    (s'.requester i).opened = (s.requester i).opened ∧
    (s'.requester i).loc.opening = (s.requester i).loc.opening := by
  obtain ⟨h1, h2⟩ := h.other hf hi
  have hd := congrArg Requester.dequeued h1
  have ho := congrArg Requester.opened h1
  refine ⟨hd, ho, ?_⟩
  rcases h2 with h2 | ⟨h2, h3 | h3⟩
  · rw [h2]
  · rw [h2, h3]
    rfl
  · rw [h2, h3]
    rfl

theorem got_stmt (hs : s.Synced) (h : Stmt cfg s t s') (i : Fin R) : s'.got i = s.got i := by
  by_cases hi : .requester i = t
  · subst hi
    have hg := hs.got_self h .filenameQueue
    have hc := hs.op .filenameQueue (.requester i)
    rw [got, got, hg]
    cases h with
    | requester h =>
      rw [setRequester_self, ← h.dequeued hc]
      simp [placesOf]
  · rw [got, got, (other_files hs.fresh h hi).1, call_of_ne h hi]

theorem FilePath.stmt (H : s.FilePath cfg) (hs : s.Synced) (ht : s.WellTyped cfg)
    (h : Stmt cfg s t s') : s'.FilePath cfg := by
  refine ⟨H.offered_stmt hs ht h, ?_, fun i => ?_⟩
  · have htk : s'.taken = s.taken := by rw [taken, h.queue_eq, switch_delivered, taken]
    rw [htk]
    exact H.merge.congr (got_stmt hs h)
  · by_cases hi : .requester i = t
    · subst hi
      have ho := H.opened i
      cases h with
      | @requester _ l e h =>
        rw [setRequester_self]
        dsimp only
        rcases h.opening with h1 | ⟨h1, h2, h3, -⟩
        · rw [List.append_assoc, ← h1, ← List.append_assoc]
          exact ho.append (List.Sublist.refl _)
        · rw [h1, h2, h3]
          simpa using (List.sublist_append_left ..).trans ho
    · obtain ⟨h1, h2, h3⟩ := other_files hs.fresh h hi
      rw [h1, h2, h3]
      exact H.opened i

section
variable {mv : Move (Tid R S)} {m : Monitor (Tid R S) Str} (hs : s.Synced)
  (hi : (s.queue q).Inv cfg.arraySize) (h : (s.queue q).move cfg.arraySize t mv = some m)
include hs hi h

/-- A move passes a filename from the `array_put` of `main` into the queue. -/
theorem offered_call : (s.setQueue q m).offered = s.offered := by
  by_cases hq : q = .filenameQueue
  · subst hq
    have hop := hs.op .filenameQueue t
    rw [offered, setQueue_self]
    cases hi.moveView h with
    | stay _ ha hd hh =>
      rw [ha, (hh .main).1]
      rfl
    | accept x hc hc' _ _ _ ha hd hh =>
      rw [hc] at hop
      obtain ⟨rfl, -⟩ := op_put (opAt_eq_some.1 hop.symm)
      rw [ha, hc', offered, hc]
      simp [placesOf, Call.holds, PutPc.stored]
    | deliver x hc _ hg _ _ ha hd hh =>
      rw [hc] at hop
      obtain ⟨i, rfl, -⟩ := op_get (opAt_eq_some.1 hop.symm)
      rw [ha, (hh .main (by simp)).1]
      rfl
  · rw [offered, setQueue_of_ne m (Ne.symm hq)]
    rfl

/-- A move passes the oldest filename to the requester that gets it. -/
theorem merge_call (H : IsMerge s.got s.taken) :
    IsMerge (s.setQueue q m).got (s.setQueue q m).taken := by
  by_cases hq : q = .filenameQueue
  · subst hq
    have hop := hs.op .filenameQueue t
    have hself : (s.setQueue .filenameQueue m).queue .filenameQueue = m := setQueue_self m
    rw [taken, hself]
    cases hi.moveView h with
    | stay _ ha hd hh =>
      rw [hd]
      refine H.congr fun i => ?_
      rw [got, hself, (hh _).2]
      rfl
    | accept x hc hc' _ _ _ ha hd hh =>
      rw [hc] at hop
      obtain ⟨rfl, -⟩ := op_put (opAt_eq_some.1 hop.symm)
      rw [hd]
      refine H.congr fun i => ?_
      rw [got, hself, (hh (.requester i) nofun).2]
      rfl
    | deliver x hc _ hg _ _ ha hd hh =>
      rw [hc] at hop
      obtain ⟨i, rfl, -⟩ := op_get (opAt_eq_some.1 hop.symm)
      rw [hd, List.map_append]
      refine H.push (i := i) ?_ fun k hk => ?_
      · rw [got, hself, hg, got, hc]
        simp [placesOf, Call.got, GetPc.got, setQueue]
      · rw [got, hself, (hh _ fun h => hk (Tid.requester.inj h)).2]
        rfl
  · have hne : (s.setQueue q m).queue .filenameQueue = s.queue .filenameQueue :=
      setQueue_of_ne m (Ne.symm hq)
    rw [taken, hne]
    refine H.congr fun i => ?_
    rw [got, hne]
    rfl

end

theorem filePath_reachable (H : cfg.system.Reachable s) : s.FilePath cfg := by
  induction H with
  | init h =>
    rw [h]
    exact ⟨List.nil_sublist _, IsMerge.nil, fun _ => List.Sublist.refl _⟩
  | step H h ih =>
    rcases (step_cases h).2 with ⟨t, c, -, h'⟩ | ⟨q, t, mv, m, -, h', rfl⟩
    · exact ih.stmt (synced_reachable H) (wellTyped_reachable H) h'
    · obtain ⟨h1, h2, h3⟩ := ih
      refine ⟨?_, merge_call (synced_reachable H) (queue_inv H q) h' h2, h3⟩
      rw [offered_call (synced_reachable H) (queue_inv H q) h']
      exact h1

/-! ## The files of the requesters -/

theorem considered_le (ht : s.WellTyped cfg) :
    s.main.considered cfg.files.length ≤ cfg.files.length := by
  have hm := ht.main
  generalize s.main = l at hm
  cases l with
  | enqueue i => exact hm
  | dupFile => exact (List.getElem?_eq_some_iff.1 hm.1).1.le
  | putFile | fileRefused => exact (List.getElem?_eq_some_iff.1 hm.2.1).1
  | _ => simp [MainLoc.considered]

/-- What has been taken from `filename_queue` is in the order of the command line. -/
theorem taken_sublist (H : cfg.system.Reachable s) :
    s.taken.Sublist (cfg.enqueued (s.main.considered cfg.files.length)) := by
  have h1 : s.taken.Sublist ((s.queue .filenameQueue).ghost.accepted.map fun x => x.src.place) :=
    ((queue_inv H .filenameQueue).split.map _).sublist
  exact (h1.trans (List.sublist_append_left ..)).trans (filePath_reachable H).offered

/-- The files of one requester come in the order of the command line. -/
theorem dequeued_sublist (H : cfg.system.Reachable s) (i : Fin R) :
    (s.requester i).dequeued.Sublist (cfg.enqueued cfg.files.length) :=
  have h1 : (s.requester i).dequeued.Sublist s.taken :=
    (List.sublist_append_left ..).trans ((filePath_reachable H).merge.sublist i)
  h1.trans ((taken_sublist H).trans (cfg.enqueued_mono (considered_le (wellTyped_reachable H))))

/-- No file is opened twice. -/
theorem opened_nodup (H : cfg.system.Reachable s) :
    (∑ i, ((s.requester i).opened : Multiset Nat)).Nodup := by
  have hf := filePath_reachable H
  have hle : ∑ i, ((s.requester i).opened : Multiset Nat) ≤ s.taken := by
    rw [← hf.merge.sum_eq]
    refine Finset.sum_le_sum fun i _ => Multiset.coe_le.2 (List.Sublist.subperm ?_)
    exact ((List.sublist_append_left ..).trans (hf.opened i)).trans (List.sublist_append_left ..)
  exact Multiset.nodup_of_le hle
    (Multiset.coe_nodup.2 ((taken_sublist H).nodup (cfg.enqueued_nodup _)))

/-! ## Without failures -/

theorem Call.holds_of_done {c : Call α} (h : c.done = true) (hg : c.op ≠ some .get)
    (hr : ∀ x, c ≠ .putDone x .shutdown) : c.holds = none := by
  cases c with
  | putDone x r =>
    cases r with
    | success => rfl
    | shutdown => exact absurd rfl (hr x)
  | getDone r => exact absurd rfl hg
  | freeDone => rfl
  | _ => cases h

/-- When nothing fails `main` puts every readable file. -/
theorem offered_eq (ho : cfg.outsiders = false) (ha : cfg.allocFails = false)
    (hopen : cfg.openFails = false) (H : cfg.system.Reachable s) :
    s.offered = cfg.enqueued (s.main.considered cfg.files.length) := by
  induction H with
  | init h =>
    rw [h]
    rfl
  | @step s _ s' H h ih =>
    have hs := synced_reachable H
    rcases (step_cases h).2 with ⟨t, c, -, h'⟩ | ⟨q, t, mv, m, -, h', rfl⟩
    · have hacc : (s'.queue .filenameQueue).ghost.accepted =
          (s.queue .filenameQueue).ghost.accepted := by rw [h'.queue_eq, switch_accepted]
      by_cases hm : Tid.main = t
      · subst hm
        obtain ⟨e, hl, -⟩ := main_step h'
        obtain ⟨-, h2, h3⟩ := hl.considered (wellTyped_reachable H).main
        -- the call that `main` comes from, if any, has given nothing back
        have h0 : ((s.queue .filenameQueue).call .main).holds = none := by
          have hc := hs.op .filenameQueue .main
          cases hop : opAt (s.op .main) .filenameQueue with
          | none => rw [hs.call_idle hop]; rfl
          | some p =>
            refine Call.holds_of_done (h'.done (opAt_eq_some.1 hop)) ?_ (not_refused ho H _ _)
            rw [hc]
            intro hg
            obtain ⟨_, hg, -⟩ := op_get (opAt_eq_some.1 hg)
            cases hg
        rw [offered, h0] at ih
        rw [offered, hacc]
        simp only [placesOf, Option.toList_none, List.map_nil, List.append_nil] at ih
        rcases hs.holds_self h' .filenameQueue with ⟨x, hx, hh⟩ | ⟨hx, hh⟩
        · obtain ⟨-, h4, h5, h6⟩ := h2 x hx
          rw [ih, h6, Config.enqueued_succ, h4, if_pos rfl, hh]
          simp [placesOf, h5]
        · rw [hh, h3 ha hopen hx, ← ih]
          simp [placesOf]
      · have h1 : s'.main = s.main := h'.other hs.fresh hm
        rw [offered, hacc, call_of_ne h' hm, h1]
        exact ih
    · rw [offered_call hs (queue_inv H q) h']
      exact ih

/-- When every readable file can be opened, the requesters open what they dequeue. -/
theorem opened_eq (hopen : cfg.openFails = false) (H : cfg.system.Reachable s) (i : Fin R) :
    (s.requester i).opened ++ (s.requester i).loc.opening = (s.requester i).dequeued := by
  induction H with
  | init h =>
    rw [h]
    rfl
  | @step s _ s' H h ih =>
    have hs := synced_reachable H
    rcases (step_cases h).2 with ⟨t, c, -, h'⟩ | ⟨q, t, mv, m, -, h', rfl⟩
    · by_cases hi : .requester i = t
      · subst hi
        have ht := (wellTyped_reachable H).requester i
        cases h' with
        | @requester _ l e hl =>
          rw [setRequester_self]
          dsimp only
          rcases hl.opening with h1 | ⟨-, -, -, f, hf, h1⟩
          · rw [List.append_assoc, ← h1, ← List.append_assoc]
            exact congrArg (· ++ e.dequeued) ih
          · rw [hf] at ht
            obtain ⟨_, -, -, h2⟩ := ht
            rcases h1 with h1 | h1
            · rw [h1] at h2
              cases h2
            · exact absurd (hopen.symm.trans h1) nofun
      · obtain ⟨h1, h2, h3⟩ := other_files hs.fresh h' hi
        rw [h1, h2, h3, ih]
    · exact ih

end State
end DnsResolver
