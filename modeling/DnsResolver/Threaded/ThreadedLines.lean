import DnsResolver.Threaded.ThreadedFiles

/-!
# Every line is logged exactly once

The lines of the opened files are followed on two paths: to the requester log through
`requester_logfile_queue`, and to the resolver log through `hostname_queue`, a resolver and
`resolver_logfile_queue`. On each path every line is in one place (`linesAt_sum`); a line is
dropped only where an allocation fails. -/

namespace DnsResolver
open Function

variable {R S : Nat} {cfg : Config R S} {s s' : State R S} {t u : Tid R S} {q : QName}
  {e : Effect R S} {x : Str}

/-! ## The lines of a file -/

/-- The non-empty lines among `segs`, which come after `n` others in their file. -/
def linesFrom (reader file : Nat) : Nat → List Bytes → List Line
  | _, [] => []
  | n, seg :: segs =>
    if hostOf seg = [] then linesFrom reader file (n + 1) segs
    else ⟨reader, file, n, hostOf seg⟩ :: linesFrom reader file (n + 1) segs

theorem linesFrom_host (reader file n : Nat) (segs : List Bytes) :
    (linesFrom reader file n segs).map Line.host = (segs.map hostOf).filter (· ≠ []) := by
  induction segs generalizing n with
  | nil => rfl
  | cons seg segs ih =>
    unfold linesFrom
    split <;> simp_all

theorem mem_linesFrom {reader file n : Nat} {segs : List Bytes} {l : Line}
    (h : l ∈ linesFrom reader file n segs) : l.reader = reader ∧ l.file = file ∧ n ≤ l.no := by
  induction segs generalizing n with
  | nil => cases h
  | cons seg segs ih =>
    unfold linesFrom at h
    split at h
    · have := ih h
      exact ⟨this.1, this.2.1, by omega⟩
    · rcases List.mem_cons.1 h with rfl | h
      · exact ⟨rfl, rfl, Nat.le_refl _⟩
      · have := ih h
        exact ⟨this.1, this.2.1, by omega⟩

/-- A line is told by its place in the file. -/
theorem linesFrom_nodup (reader file n : Nat) (segs : List Bytes) :
    ((linesFrom reader file n segs).map Line.no).Nodup := by
  induction segs generalizing n with
  | nil => exact List.nodup_nil
  | cons seg segs ih =>
    unfold linesFrom
    split
    · exact ih _
    · refine List.nodup_cons.2 ⟨fun h => ?_, ih _⟩
      obtain ⟨l, hl, hn⟩ := List.mem_map.1 h
      have := (mem_linesFrom hl).2.2
      dsimp only at hn
      omega

namespace Config

/-- The contents of a file of the command line. -/
def contents (cfg : Config R S) (i : Nat) : Option Bytes := cfg.files[i]?.bind cfg.fs

/-- The non-empty lines of a file, as one requester reads them. -/
def fileLines (cfg : Config R S) (reader i : Nat) : List Line :=
  match cfg.contents i with
  | some bytes => linesFrom reader i 0 (segments bytes)
  | none => []

/-- The hostnames of a file. -/
def hosts (cfg : Config R S) (i : Nat) : List Bytes :=
  match cfg.contents i with
  | some bytes => ((segments bytes).map hostOf).filter (· ≠ [])
  | none => []

theorem fileLines_host (cfg : Config R S) (reader i : Nat) :
    (cfg.fileLines reader i).map Line.host = cfg.hosts i := by
  unfold fileLines hosts
  split
  · exact linesFrom_host ..
  · rfl

end Config

/-! ## Where lines are -/

/-- The queues on the way to a log. -/
def Logger.path : Logger → QName → Bool
  | .requesterLog, .requesterLogfileQueue => true
  | .resolverLog, .hostnameQueue => true
  | .resolverLog, .resolverLogfileQueue => true
  | _, _ => false

/-- The lines that strings stand for. -/
def linesIn (xs : List Str) : List Line := xs.flatMap fun x => x.src.lines

@[simp] theorem linesIn_nil : linesIn [] = [] := rfl

theorem linesIn_cons (x : Str) (xs : List Str) : linesIn (x :: xs) = x.src.lines ++ linesIn xs :=
  List.flatMap_cons

@[simp] theorem linesIn_singleton (x : Str) : linesIn [x] = x.src.lines := List.append_nil _

@[simp] theorem linesIn_append (xs ys : List Str) : linesIn (xs ++ ys) = linesIn xs ++ linesIn ys :=
  List.flatMap_append

/-- There is a line for each string that is not a filename. -/
theorem linesIn_countP (xs : List Str) :
    (linesIn xs).length = xs.countP fun x => x.src.lines ≠ [] := by
  induction xs with
  | nil => rfl
  | cons x xs ih =>
    rw [linesIn_cons, List.length_append, List.countP_cons, ih, Nat.add_comm]
    cases x.src <;> rfl

theorem linesIn_length_le (xs : List Str) : (linesIn xs).length ≤ xs.length :=
  (linesIn_countP xs).trans_le List.countP_le_length

theorem linesIn_length {xs : List Str} (h : ∀ x ∈ xs, ∃ l, x.src = .line l) :
    (linesIn xs).length = xs.length := by
  rw [linesIn_countP, List.countP_eq_length]
  intro x hx
  obtain ⟨l, hl⟩ := h x hx
  rw [hl]
  rfl

def linesOf (xs : Multiset Str) : Multiset Line := xs.bind fun x => x.src.lines

@[simp] theorem linesOf_zero : linesOf 0 = 0 := rfl

@[simp] theorem linesOf_add (xs ys : Multiset Str) : linesOf (xs + ys) = linesOf xs + linesOf ys :=
  Multiset.add_bind ..

theorem linesOf_coe (xs : List Str) : linesOf xs = linesIn xs := Multiset.coe_bind ..

/-- The lines of the open file that the requester has still to read. -/
def RequesterLoc.unread (i : Nat) : RequesterLoc → List Line
  | .readLine r | .dupLog r _ | .putLog r _ _ | .logRefused r _ _ | .dupHost r _ | .putHost r _ |
    .hostRefused r _ => linesFrom i r.file.src.place r.no (segments r.rest)
  | _ => []

/-- The line that the requester has read and not yet handed on, on the way to a log. -/
def RequesterLoc.holds : Logger → RequesterLoc → List Line
  | _, .dupLog _ l => [l]
  | .resolverLog, .putLog _ l _ | .resolverLog, .logRefused _ l _ | .resolverLog, .dupHost _ l => [l]
  | _, _ => []

def ResolverLoc.holds : Logger → ResolverLoc → List Line
  | .resolverLog, .resolve h | .resolverLog, .format h _ => h.src.lines
  | _, _ => []

def LoggerLoc.holds : LoggerLoc → List Line
  | .write x => x.src.lines
  | _ => []

/-- The lines of a statement's ghost effects. -/
def Effect.written (e : Effect R S) (p : Logger) : List Line :=
  match e.write with
  | some (k, x) => if k = p then x.src.lines else []
  | none => []

def Effect.lost (e : Effect R S) (p : Logger) : List Line :=
  match e.drop with
  | some (k, ls) => if k = p then ls else []
  | none => []

namespace State

/-- The lines in a call on the way to a log. When the call has returned it hands them back. -/
def handedBack (s : State R S) (p : Logger) (t : Tid R S) : Option (QName × Op Str) → List Line
  | some (q, _) => if p.path q then linesIn ((s.queue q).call t).holds.toList else []
  | none => []

/-- The lines handed to a call. -/
def handedOver (p : Logger) : Option (QName × Op Str) → List Line
  | some (q, o) => if p.path q then linesIn o.start.holds.toList else []
  | none => []

end State

open State

/-- A requester hands on every line it reads, in order. -/
theorem RequesterStep.lines {i : Fin R} {l l' : RequesterLoc} (h : RequesterStep cfg s i l l' e)
    (hl : l.Typed cfg) (H : s.InCall (.requester i) l.op) (p : Logger) :
    s.handedBack p (.requester i) l.op ++ (l.holds p ++ l.unread i) ++
        e.opened.flatMap (cfg.fileLines i) =
      handedOver p l'.op ++ e.lost p ++ (l'.holds p ++ l'.unread i) := by
  unfold InCall at H
  cases h with
  | @openFile bytes f hb =>
    obtain ⟨k, hk, hn, -⟩ := hl
    have hf : cfg.fileLines i f.src.place = linesFrom i f.src.place 0 (segments bytes) := by
      simp [Config.fileLines, Config.contents, hk, Src.place, hn, hb]
    simp [RequesterLoc.holds, RequesterLoc.unread, handedBack, handedOver, RequesterLoc.op,
      Effect.lost, hf]
  | eof hr =>
    rw [getline_eq_none] at hr
    simp [RequesterLoc.holds, RequesterLoc.unread, handedBack, handedOver, RequesterLoc.op,
      Effect.lost, hr, segments, linesFrom]
  | emptyLine hr h0 | line hr h0 =>
    simp [RequesterLoc.holds, RequesterLoc.unread, handedBack, handedOver, RequesterLoc.op,
      Effect.lost, segments_getline hr, linesFrom, h0]
  | putLog hc | putHost hc | freeHostname hc | freeRequesterLog hc =>
    cases p <;> simp [RequesterLoc.holds, RequesterLoc.unread, handedBack, handedOver,
      RequesterLoc.op, Effect.lost, Logger.path, Call.holds, Op.start, hc]
  | putLog_refused hc =>
    obtain ⟨-, hs, -⟩ := hl
    have hy := H _ _ rfl
    rw [hc, Call.op, Option.some.injEq, Op.put.injEq] at hy
    cases p <;> simp [RequesterLoc.holds, RequesterLoc.unread, handedBack, handedOver,
      RequesterLoc.op, Effect.lost, Logger.path, Call.holds, hc, hy, hs, Src.lines]
  | putHost_refused hc =>
    have hy := H _ _ rfl
    rw [hc, Call.op, Option.some.injEq, Op.put.injEq] at hy
    cases p <;> simp [RequesterLoc.holds, RequesterLoc.unread, handedBack, handedOver,
      RequesterLoc.op, Effect.lost, Logger.path, Call.holds, hc, hy]
  | _ =>
    cases p <;> simp [RequesterLoc.holds, RequesterLoc.unread, handedBack, handedOver,
      RequesterLoc.op, Effect.lost, Logger.path, Op.start, Call.holds, PutPc.stored, Src.lines]

/-- A resolver hands on every line it gets, as a record. -/
theorem ResolverStep.lines {j : Fin S} {l l' : ResolverLoc} (h : ResolverStep cfg s j l l' e)
    (hl : l.Typed cfg) (H : s.InCall (.resolver j) l.op) (p : Logger) :
    s.handedBack p (.resolver j) l.op ++ l.holds p =
      handedOver p l'.op ++ e.lost p ++ l'.holds p := by
  unfold InCall at H
  cases h with
  | putRecord_refused hc =>
    have hy := H _ _ rfl
    rw [hc, Call.op, Option.some.injEq, Op.put.injEq] at hy
    cases p <;> simp [ResolverLoc.holds, handedBack, handedOver, ResolverLoc.op, Effect.lost,
      Logger.path, Call.holds, hc, hy]
  | noHost hc | host hc | putRecord hc =>
    cases p <;> simp [ResolverLoc.holds, handedBack, handedOver, ResolverLoc.op, Effect.lost,
      Logger.path, Call.holds, hc]
  | _ =>
    cases p <;> simp [ResolverLoc.holds, handedBack, handedOver, ResolverLoc.op, Effect.lost,
      Logger.path, Op.start, Call.holds, PutPc.stored, GetPc.got]

/-- A log thread writes every line it gets, in order. -/
theorem LoggerStep.lines {k : Logger} {l l' : LoggerLoc} (h : LoggerStep s k l l' e) (p : Logger) :
    (if k = p then l.holds else []) ++ s.handedBack p (.logger k) (l.op k) =
      e.written p ++ (if k = p then l'.holds else []) ++ handedOver p (l'.op k) := by
  cases h with
  | noString hc | string hc =>
    cases p <;> cases k <;> simp_all [LoggerLoc.holds, handedBack, handedOver, LoggerLoc.op,
      Effect.written, Logger.path, Logger.queue, Call.holds]
  | _ =>
    cases p <;> cases k <;> simp [LoggerLoc.holds, handedBack, handedOver, LoggerLoc.op,
      Effect.written, Logger.path, Logger.queue, Op.start, Call.holds, GetPc.got]

/-- No line is in the hands of a thread that puts filenames or frees queues. -/
theorem State.handed_free {o : Option (QName × Op Str)} (p : Logger)
    (h : ∀ q a, o = some (q, a) → a = .free ∨ q = .filenameQueue) :
    (s.InCall t o → s.handedBack p t o = []) ∧ handedOver p o = [] := by
  rcases o with _ | ⟨q, a⟩
  · exact ⟨fun _ => rfl, rfl⟩
  · rcases h q a rfl with rfl | rfl
    · refine ⟨fun H => ?_, ?_⟩
      · rw [handedBack, Call.holds_free (H q .free rfl)]
        exact ite_self _
      · simp [handedOver, Op.start, Call.holds]
    · cases p <;> simp [handedBack, handedOver, Logger.path]

theorem MainLoc.op_cases {l : MainLoc} {a : Op Str} (h : l.op = some (q, a)) :
    a = .free ∨ q = .filenameQueue := by
  cases l <;> cases h <;> simp

/-- Lines are dropped by requesters and resolvers only. -/
theorem MainStep.drop {l l' : MainLoc} (h : MainStep cfg s l l' e) : e.drop = none := by
  cases h <;> rfl

theorem LoggerStep.drop {k : Logger} {l l' : LoggerLoc} (h : LoggerStep s k l l' e) :
    e.drop = none := by
  cases h <;> rfl

namespace State

/-- The lines in the hands of a thread. -/
def inHand (s : State R S) (p : Logger) : Tid R S → List Line
  | .requester i => (s.requester i).loc.holds p
  | .resolver j => (s.resolver j).loc.holds p
  | .logger k => if k = p then (s.logger k).holds else []
  | _ => []

/-- The lines that a thread has still to read. -/
def unread (s : State R S) : Tid R S → List Line
  | .requester i => (s.requester i).loc.unread i
  | _ => []

def ownLines (s : State R S) (p : Logger) (t : Tid R S) : List Line := s.inHand p t ++ s.unread t

/-- The lines in the call that a thread is in. -/
def inCall (s : State R S) (p : Logger) (t : Tid R S) : List Line := s.handedBack p t (s.op t)

/-- The lines of strings in a queue or in a call on it, if it is on the way to the log. -/
def onPath (p : Logger) (q : QName) (xs : Multiset Str) : Multiset Line :=
  if p.path q then linesOf xs else 0

@[simp] theorem onPath_zero (p : Logger) (q : QName) : onPath p q 0 = 0 := by
  simp [onPath]

@[simp] theorem onPath_add (p : Logger) (q : QName) (xs ys : Multiset Str) :
    onPath p q (xs + ys) = onPath p q xs + onPath p q ys := by
  unfold onPath
  split <;> simp

theorem onPath_sum {ι : Type} [Fintype ι] (p : Logger) (q : QName) (f : ι → Multiset Str) :
    onPath p q (∑ i, f i) = ∑ i, onPath p q (f i) :=
  map_sum (⟨⟨onPath p q, onPath_zero p q⟩, onPath_add p q⟩ : Multiset Str →+ Multiset Line) f _

/-- The lines of the files that have been opened. -/
def openedLines (cfg : Config R S) (s : State R S) : Multiset Line :=
  ∑ i, ((s.requester i).opened.flatMap (cfg.fileLines i) : List Line)

/-- All lines on the way to a log. -/
def allLines (s : State R S) (p : Logger) : Multiset Line :=
  ∑ t, (s.ownLines p t : Multiset Line) + ∑ q, onPath p q (s.queue q).contents +
    linesIn (s.logfile p) + s.dropped p

theorem onPath_carries (p : Logger) (q : QName) (c : Call Str) :
    onPath p q c.carries = if p.path q then linesIn c.holds.toList else [] := by
  unfold onPath
  split
  · exact linesOf_coe _
  · rfl

/-- A thread is in one call only. -/
theorem Synced.inCall_eq (H : s.Synced) (p : Logger) (t : Tid R S) :
    (s.inCall p t : Multiset Line) = ∑ q, onPath p q ((s.queue q).call t).carries := by
  have h0 : ∀ q, opAt (s.op t) q = none → onPath p q ((s.queue q).call t).carries = 0 :=
    fun q h => by rw [H.call_idle h, Call.carries_idle, onPath_zero]
  unfold State.inCall
  cases ho : s.op t with
  | none => exact (Finset.sum_eq_zero fun q _ => h0 q (by rw [ho]; rfl)).symm
  | some a =>
    obtain ⟨q, a⟩ := a
    rw [Finset.sum_eq_single (f := fun q => onPath p q ((s.queue q).call t).carries) q
      (fun q' _ hq => h0 q' (by rw [ho]; simp [opAt, Ne.symm hq]))
      fun h => absurd (Finset.mem_univ q) h]
    exact (onPath_carries p q _).symm

/-- After a statement a thread has in its call what it has handed over. -/
theorem Synced.inCall_self (H : s.Synced) (h : Stmt cfg s t s') (p : Logger) :
    s'.inCall p t = handedOver p (s'.op t) := by
  unfold State.inCall
  cases ho : s'.op t with
  | none => rfl
  | some a =>
    obtain ⟨q, a⟩ := a
    rw [handedBack, H.call_self h, ho]
    simp [opAt, handedOver]

theorem inCall_of_ne (H : s.Fresh) (h : Stmt cfg s t s') (p : Logger) (hu : u ≠ t) :
    s'.inCall p u = s.inCall p u := by
  rw [inCall, h.op_of_ne H hu, inCall]
  unfold handedBack
  split
  · rw [call_of_ne h hu]
  · rfl

/-- A statement takes out of the queues' reach what it hands back, and brings in what it hands
over. -/
theorem Synced.onPath_stmt (H : s.Synced) (h : Stmt cfg s t s') (p : Logger) :
    ∑ q, onPath p q (s'.queue q).contents + s.inCall p t =
      ∑ q, onPath p q (s.queue q).contents + handedOver p (s'.op t) := by
  rw [H.inCall_eq, ← H.inCall_self h, (H.stmt h).inCall_eq, ← Finset.sum_add_distrib,
    ← Finset.sum_add_distrib]
  refine Finset.sum_congr rfl fun q _ => ?_
  rw [← onPath_add, ← onPath_add]
  have hc := Tally.sum_of_ne (f := fun u => ((s.queue q).call u).carries)
    (g := fun u => ((s'.queue q).call u).carries) (t := t)
    fun u hu => by rw [call_of_ne h hu]
  refine congrArg _ ?_
  have hi : (s'.queue q).items = (s.queue q).items := by rw [h.queue_eq, switch_items]
  rw [Monitor.contents, Monitor.contents, hi, add_assoc, hc, ← add_assoc]

theorem ownLines_of_ne (H : s.Fresh) (h : Stmt cfg s t s') (p : Logger) (hu : u ≠ t) :
    s'.ownLines p u = s.ownLines p u := by
  have ho := h.other H hu
  cases u with
  | requester i =>
    rcases ho.2 with he | ⟨he, h' | h'⟩
    · simp only [ownLines, inHand, unread, he]
    all_goals
      simp only [ownLines, inHand, unread, he, h']
      cases p <;> rfl
  | resolver j =>
    rcases ho.2 with he | ⟨he, h'⟩
    · simp only [ownLines, inHand, unread, he]
    · simp only [ownLines, inHand, unread, he, h']
      cases p <;> rfl
  | logger k =>
    rcases ho with he | ⟨he, h'⟩
    · simp only [ownLines, inHand, unread, he]
    · simp only [ownLines, inHand, unread, he, h']
      rfl
  | main | outsider q => rfl

variable (s) in
theorem perform_dropped (t : Tid R S) (o o' : Option (QName × Op Str)) (e : Effect R S)
    (p : Logger) : (s.perform t o o' e).dropped p = s.dropped p ++ e.lost p := by
  unfold perform Effect.lost
  rcases e.drop with _ | ⟨k, ls⟩
  · exact (List.append_nil _).symm
  · by_cases hk : k = p
    · subst hk
      simp
    · simp [hk, Ne.symm hk]

variable (s) in
theorem perform_logfile (t : Tid R S) (o o' : Option (QName × Op Str)) (e : Effect R S)
    (p : Logger) : linesIn ((s.perform t o o' e).logfile p) = linesIn (s.logfile p) ++ e.written p := by
  unfold perform Effect.written
  rcases e.write with _ | ⟨k, x⟩
  · exact (List.append_nil _).symm
  · by_cases hk : k = p
    · subst hk
      simp
    · simp [hk, Ne.symm hk]

/-- The lines that a statement reads, hands over, writes and drops. -/
theorem stmt_lines (H : s.Synced) (ht : s.WellTyped cfg) (h : Stmt cfg s t s') (p : Logger) :
    ∃ o w d : List Line,
      (s.inCall p t + s.ownLines p t + o : Multiset Line) =
        handedOver p (s'.op t) + s'.ownLines p t + w + d ∧
      s'.openedLines cfg = s.openedLines cfg + o ∧
      linesIn (s'.logfile p) = linesIn (s.logfile p) ++ w ∧ s'.dropped p = s.dropped p ++ d := by
  have hin := H.inCall t
  cases h with
  | @main l e h =>
    refine ⟨[], [], [], ?_, ?_, ?_, ?_⟩
    · have h1 := (handed_free (s := s) p fun _ _ => MainLoc.op_cases).1 hin
      have h2 := (handed_free (s := s) (t := .main) (o := l.op) p fun _ _ => MainLoc.op_cases).2
      simp only [inCall, State.op] at h1 ⊢
      rw [h1, h2]
      rfl
    · simp only [openedLines, perform_spawn, (spawn_last H.fresh h _).2.2.1]
      exact (add_zero _).symm
    · simp only [spawn_same]
      rw [perform_logfile, Effect.written, h.write]
    · simp only [spawn_same]
      rw [perform_dropped, Effect.lost, h.drop]
  | @requester i l e h =>
    refine ⟨e.opened.flatMap (cfg.fileLines i), [], e.lost p, ?_, ?_, ?_,
      perform_dropped s (.requester i) (s.requester i).loc.op l.op e p⟩
    · have hl := congrArg Multiset.ofList (h.lines (ht.requester i) hin p)
      simp only [inCall, State.op, ownLines, inHand, unread, setRequester_self,
        ← Multiset.coe_add] at hl ⊢
      rw [hl, Multiset.coe_nil]
      abel
    · generalize hs' : (s.perform (.requester i) (s.requester i).loc.op l.op e).setRequester i l e = s'
      have hi : (s'.requester i).opened = (s.requester i).opened ++ e.opened := by
        rw [← hs', setRequester_self]
        rfl
      have hs := Tally.sum_of_ne (t := i)
        (f := fun k => ((s.requester k).opened.flatMap (cfg.fileLines k) : Multiset Line))
        (g := fun k => ((s'.requester k).opened.flatMap (cfg.fileLines k) : Multiset Line))
        fun k hk => by rw [← hs', setRequester_of_ne _ _ hk]; rfl
      simp only [hi, List.flatMap_append, ← Multiset.coe_add] at hs
      rw [← add_assoc, add_right_comm] at hs
      exact add_right_cancel hs
    · have := perform_logfile s (.requester i) (s.requester i).loc.op l.op e p
      rwa [Effect.written, h.write] at this
  | @resolver j l e h =>
    refine ⟨[], [], e.lost p, ?_, ?_, ?_,
      perform_dropped s (.resolver j) (s.resolver j).loc.op l.op e p⟩
    · have hl := congrArg Multiset.ofList (h.lines (ht.resolver j) hin p)
      simp only [inCall, State.op, ownLines, inHand, unread, setResolver_self, List.append_nil,
        ← Multiset.coe_add] at hl ⊢
      rw [hl, Multiset.coe_nil]
      abel
    · exact (add_zero _).symm
    · have := perform_logfile s (.resolver j) (s.resolver j).loc.op l.op e p
      rwa [Effect.written, h.write] at this
  | @logger k l e h =>
    refine ⟨[], e.written p, [], ?_, ?_,
      perform_logfile s (.logger k) ((s.logger k).op k) (l.op k) e p, ?_⟩
    · have hl := congrArg Multiset.ofList (h.lines p)
      simp only [inCall, State.op, ownLines, inHand, unread, update_self, List.append_nil,
        ← Multiset.coe_add] at hl ⊢
      rw [add_comm (Multiset.ofList _), hl, Multiset.coe_nil]
      abel
    · exact (add_zero _).symm
    · have := perform_dropped s (.logger k) ((s.logger k).op k) (l.op k) e p
      rwa [Effect.lost, h.drop] at this
  | @outsiderFree q | @outsiderDone q =>
    refine ⟨[], [], [], ?_, (add_zero _).symm, (List.append_nil _).symm, (List.append_nil _).symm⟩
    have hf {b : State R S} : ∀ q' a, b.op (.outsider q) = some (q', a) →
        a = .free ∨ q' = .filenameQueue := fun q' a ha => by
      simp only [State.op] at ha
      split at ha <;> cases ha
      exact .inl rfl
    rw [inCall, (handed_free (s := s) p hf).1 hin,
      (handed_free (s := s) (t := .outsider q) p hf).2]
    rfl

theorem allLines_stmt (H : s.Synced) (ht : s.WellTyped cfg) (h : Stmt cfg s t s') (p : Logger)
    (ha : s.allLines p = s.openedLines cfg) : s'.allLines p = s'.openedLines cfg := by
  obtain ⟨o, w, d, h1, h2, h3, h4⟩ := stmt_lines H ht h p
  have hA := Tally.sum_of_ne (f := fun u => (s.ownLines p u : Multiset Line))
    (g := fun u => (s'.ownLines p u : Multiset Line)) (t := t)
    fun u hu => by rw [ownLines_of_ne H.fresh h p hu]
  have hC := H.onPath_stmt h p
  rw [h2, ← ha, allLines, allLines, h3, h4, ← Multiset.coe_add, ← Multiset.coe_add]
  generalize ∑ u, (s.ownLines p u : Multiset Line) = A at *
  generalize ∑ u, (s'.ownLines p u : Multiset Line) = A' at *
  generalize ∑ q, onPath p q (s.queue q).contents = C at *
  generalize ∑ q, onPath p q (s'.queue q).contents = C' at *
  refine add_right_cancel (b := (s.inCall p t + s.ownLines p t : Multiset Line)) ?_
  calc A' + C' + (linesIn (s.logfile p) + w) + (s.dropped p + d) +
        (s.inCall p t + s.ownLines p t : Multiset Line)
      = (A' + s.ownLines p t) + (C' + s.inCall p t) + linesIn (s.logfile p) +
          s.dropped p + w + d := by abel
    _ = A + C + linesIn (s.logfile p) + s.dropped p +
          (handedOver p (s'.op t) + s'.ownLines p t + w + d) := by
        rw [hA, hC]
        abel
    _ = A + C + linesIn (s.logfile p) + s.dropped p + o +
          (s.inCall p t + s.ownLines p t) := by
        rw [← h1]
        abel

/-- On the way to each log are exactly the lines of the opened files. -/
theorem allLines_reachable (H : cfg.system.Reachable s) (p : Logger) :
    s.allLines p = s.openedLines cfg := by
  induction H with
  | init h =>
    have ho : ∀ u, (init : State R S).ownLines p u = [] := fun u => by
      cases u <;> cases p <;> simp [init, ownLines, inHand, unread, RequesterLoc.holds, RequesterLoc.unread,
        ResolverLoc.holds, LoggerLoc.holds]
    have hc : ∀ q, ((init : State R S).queue q).contents = 0 := fun q => by
      simp [Monitor.contents, init, Monitor.init, Monitor.items]
    rw [h, allLines]
    simp only [ho, hc, onPath_zero]
    simp [openedLines, init]
  | @step s _ _ H h ih =>
    rcases (step_cases h).2 with ⟨t, c, -, h'⟩ | ⟨q, t, mv, m, -, h', rfl⟩
    · exact allLines_stmt (synced_reachable H) (wellTyped_reachable H) h' p ih
    · rw [allLines] at ih ⊢
      refine Eq.trans ?_ ih
      have ho : ∀ u, (s.setQueue q m).ownLines p u = s.ownLines p u := fun u => by cases u <;> rfl
      simp only [ho, contents_call (queue_inv H q) h']
      rfl

end State

/-! ## Places -/

/-- Where a line can be on its way to a log. A thread's place is what it holds outside the
queues; the log threads' is the last one before the file. -/
inductive Place (R S : Nat)
  | unread (i : Fin R)
  | thread (t : Tid R S)
  | queue (q : QName)
  | written
  | dropped
  deriving DecidableEq

/-- The places by kind. -/
def Place.equiv (R S : Nat) : Fin R ⊕ Tid R S ⊕ QName ⊕ Bool ≃ Place R S where
  toFun
    | .inl i => .unread i
    | .inr (.inl t) => .thread t
    | .inr (.inr (.inl q)) => .queue q
    | .inr (.inr (.inr b)) => if b then .written else .dropped
  invFun
    | .unread i => .inl i
    | .thread t => .inr (.inl t)
    | .queue q => .inr (.inr (.inl q))
    | .written => .inr (.inr (.inr true))
    | .dropped => .inr (.inr (.inr false))
  left_inv x := by rcases x with _ | _ | _ | _ | _ <;> rfl
  right_inv x := by cases x <;> rfl

instance : Fintype (Place R S) := .ofEquiv _ (Place.equiv R S)

theorem Place.sum_eq {M : Type} [AddCommMonoid M] (f : Place R S → M) :
    ∑ x, f x = ∑ i, f (.unread i) + (∑ t, f (.thread t) + (∑ q, f (.queue q) +
      (f .written + f .dropped))) := by
  rw [← (Place.equiv R S).sum_comp, Fintype.sum_sum_type, Fintype.sum_sum_type,
    Fintype.sum_sum_type, Fintype.sum_bool]
  rfl

/-- The places on the way to a log. -/
def Place.on (p : Logger) : Place R S → Bool
  | .thread .main | .thread (.outsider _) => false
  | .thread (.resolver _) => p = .resolverLog
  | .thread (.logger k) => k = p
  | .queue q => p.path q
  | _ => true

theorem Tid.sum_requester {M : Type} [AddCommMonoid M] {f : Tid R S → M}
    (h : ∀ t, (∀ i, t ≠ .requester i) → f t = 0) : ∑ t, f t = ∑ i, f (.requester i) := by
  rw [← (Tid.equiv R S).sum_comp, Fintype.sum_sum_type, Fintype.sum_sum_type,
    Fintype.sum_sum_type, Fintype.sum_sum_type]
  have h0 : ∀ x : Fin S ⊕ Logger ⊕ QName, f (Tid.equiv R S (.inr (.inr x))) = 0 := fun x =>
    h _ (by rcases x with _ | _ | _ <;> nofun)
  have h1 : ∀ x : Unit, f (Tid.equiv R S (.inl x)) = 0 := fun x => h _ nofun
  simp only [h0, h1, Finset.sum_const_zero, add_zero, zero_add]
  rfl

namespace State

/-- The lines in a place on the way to a log. -/
def linesAt (s : State R S) (p : Logger) : Place R S → Multiset Line
  | .unread i => (s.requester i).loc.unread i
  | .thread t => s.inHand p t ++ s.inCall p t
  | .queue q => onPath p q (s.queue q).items
  | .written => linesIn (s.logfile p)
  | .dropped => s.dropped p

theorem linesAt_sum (H : s.Synced) (p : Logger) : ∑ pl, s.linesAt p pl = s.allLines p := by
  have hu : ∑ t, (s.unread t : Multiset Line) =
      ∑ i, ((s.requester i).loc.unread i : Multiset Line) :=
    Tid.sum_requester fun t ht => by
      cases t with
      | requester i => exact absurd rfl (ht i)
      | _ => rfl
  have hc : ∑ q, onPath p q (s.queue q).contents =
      ∑ q, onPath p q (s.queue q).items + ∑ t, (s.inCall p t : Multiset Line) := by
    simp only [H.inCall_eq, Monitor.contents, onPath_add, onPath_sum, Finset.sum_add_distrib]
    rw [Finset.sum_comm]
  rw [Place.sum_eq, allLines, hc]
  simp only [linesAt, ownLines, ← Multiset.coe_add, Finset.sum_add_distrib, hu]
  abel

/-! ## No line is opened twice -/

theorem fileLines_mem {i k : Nat} {l : Line} (h : l ∈ cfg.fileLines i k) :
    l.reader = i ∧ l.file = k := by
  unfold Config.fileLines at h
  split at h
  · exact ⟨(mem_linesFrom h).1, (mem_linesFrom h).2.1⟩
  · cases h

theorem fileLines_nodup (cfg : Config R S) (i k : Nat) :
    ((cfg.fileLines i k).map fun l => (l.file, l.no)).Nodup := by
  refine List.Nodup.of_map Prod.snd ?_
  rw [List.map_map]
  unfold Config.fileLines
  split
  · exact linesFrom_nodup ..
  · exact List.nodup_nil

/-- Where the lines of a file are does not depend on who reads them. -/
theorem fileLines_places (cfg : Config R S) (i j k : Nat) :
    ((cfg.fileLines i k).map fun l => (l.file, l.no)) =
      (cfg.fileLines j k).map fun l => (l.file, l.no) := by
  unfold Config.fileLines
  split
  · rename_i bytes _
    generalize segments bytes = segs
    generalize 0 = n
    induction segs generalizing n with
    | nil => rfl
    | cons seg segs ih =>
      unfold linesFrom
      split
      · exact ih _
      · exact congrArg (_ :: ·) (ih _)
  · rfl

theorem sum_bind {ι α β : Type} [Fintype ι] (X : ι → Multiset α) (f : α → Multiset β) :
    (∑ i, X i).bind f = ∑ i, (X i).bind f :=
  map_sum (⟨⟨(·.bind f), Multiset.zero_bind f⟩, fun x y => Multiset.add_bind x y f⟩ :
    Multiset α →+ Multiset β) X _

/-- Different lines of opened files have different places in the files. -/
theorem openedLines_nodup (H : cfg.system.Reachable s) :
    ((s.openedLines cfg).map fun l => (l.file, l.no)).Nodup := by
  have he : (s.openedLines cfg).map (fun l => (l.file, l.no)) =
      (∑ i, ((s.requester i).opened : Multiset Nat)).bind fun k =>
        (((cfg.fileLines 0 k).map fun l => (l.file, l.no) : List (Nat × Nat)) :
          Multiset (Nat × Nat)) := by
    have h := map_sum (Multiset.mapAddMonoidHom fun l : Line => (l.file, l.no))
      (fun i => ((s.requester i).opened.flatMap (cfg.fileLines i) : Multiset Line)) Finset.univ
    rw [sum_bind]
    refine h.trans (Finset.sum_congr rfl fun i _ => ?_)
    simp only [Multiset.coe_mapAddMonoidHom, Multiset.map_coe, List.map_flatMap,
      Multiset.coe_bind, fileLines_places cfg i 0]
  rw [he, Multiset.nodup_bind]
  refine ⟨fun k _ => Multiset.coe_nodup.2 (fileLines_nodup cfg 0 k), ?_⟩
  refine Multiset.Nodup.pairwise (fun k _ k' _ hk => ?_) (opened_nodup H)
  rw [Function.onFun, Multiset.disjoint_left]
  intro x hx hx'
  obtain ⟨l, hl, rfl⟩ := List.mem_map.1 (Multiset.mem_coe.1 hx)
  obtain ⟨l', hl', h⟩ := List.mem_map.1 (Multiset.mem_coe.1 hx')
  rw [Prod.mk.injEq, (fileLines_mem hl).2, (fileLines_mem hl').2] at h
  exact hk h.1.symm

theorem linesAt_eq (H : cfg.system.Reachable s) (p : Logger) :
    ∑ pl, s.linesAt p pl = s.openedLines cfg := by
  rw [linesAt_sum (synced_reachable H), allLines_reachable H]

theorem linesAt_le (H : cfg.system.Reachable s) (p : Logger) (pl : Place R S) :
    s.linesAt p pl ≤ s.openedLines cfg := by
  rw [← linesAt_eq H p]
  exact Finset.single_le_sum (f := s.linesAt p) (fun _ _ => Multiset.zero_le _) (Finset.mem_univ pl)

/-- A line is in one place only. -/
theorem linesAt_inj (H : cfg.system.Reachable s) {p : Logger} {pl pl' : Place R S} {l : Line}
    (h : l ∈ s.linesAt p pl) (h' : l ∈ s.linesAt p pl') : pl = pl' := by
  have hn : (s.openedLines cfg).Nodup := Multiset.Nodup.of_map _ (openedLines_nodup H)
  refine Tally.eq_of_sum_le_one (f := fun pl => (s.linesAt p pl).count l) ?_
    (Multiset.count_pos.2 h) (Multiset.count_pos.2 h')
  rw [← Multiset.count_sum', linesAt_eq H]
  exact Multiset.nodup_iff_count_le_one.1 hn l

/-- A line is only at a place that is on its way. -/
theorem linesAt_on (H : cfg.system.Reachable s) {p : Logger} {pl : Place R S} {l : Line}
    (h : l ∈ s.linesAt p pl) : pl.on p = true := by
  have hs := synced_reachable H
  have hn {t : Tid R S} (hh : s.inHand p t = []) (ho : ∀ q a, s.op t = some (q, a) →
      a = .free ∨ p.path q = false) : l ∉ s.linesAt p (.thread t) := by
    rw [linesAt, hh, inCall]
    cases hop : s.op t with
    | none => exact Multiset.notMem_zero l
    | some o =>
      obtain ⟨q, a⟩ := o
      rcases ho q a hop with rfl | hq
      · simp [handedBack, Call.holds_free (hs.inCall t q _ hop)]
      · simp [handedBack, hq]
  cases pl with
  | unread | written | dropped => rfl
  | queue q =>
    rw [linesAt, onPath] at h
    split at h
    · assumption
    · exact absurd h (Multiset.notMem_zero l)
  | thread t =>
    cases t with
    | requester i => rfl
    | main =>
      refine absurd h (hn rfl fun q a ho => ?_)
      rcases MainLoc.op_cases ho with ha | rfl
      · exact .inl ha
      · exact .inr (by cases p <;> rfl)
    | resolver j =>
      cases p with
      | resolverLog => rfl
      | requesterLog =>
        refine absurd h (hn ?_ fun q a ho => .inr ?_)
        · rw [inHand]
          cases (s.resolver j).loc <;> rfl
        · simp only [op] at ho
          cases hl : (s.resolver j).loc <;> rw [hl] at ho <;> cases ho <;> rfl
    | logger k =>
      by_cases hk : k = p
      · exact decide_eq_true hk
      · refine absurd h (hn (if_neg hk) fun q a ho => .inr ?_)
        simp only [op] at ho
        cases hl : s.logger k <;> rw [hl] at ho <;> cases ho
        cases k <;> cases p <;> first | rfl | exact absurd rfl hk
    | outsider q =>
      refine absurd h (hn rfl fun q' a ho => .inl ?_)
      simp only [op] at ho
      split at ho <;> cases ho
      rfl

/-! ## Dropped lines -/

end State

/-- A line is dropped when an allocation fails or a put is refused. -/
theorem RequesterStep.drop {i : Fin R} {l l' : RequesterLoc} (h : RequesterStep cfg s i l l' e) :
    e.drop = none ∨ cfg.allocFails = true ∨
      ∃ q x, (s.queue q).call (.requester i) = .putDone x .shutdown := by
  cases h with
  | dupLog_fail h | dupHost_fail h => exact .inr (.inl h)
  | putLog_refused h | putHost_refused h => exact .inr (.inr ⟨_, _, h⟩)
  | _ => exact .inl rfl

theorem ResolverStep.drop {j : Fin S} {l l' : ResolverLoc} (h : ResolverStep cfg s j l l' e) :
    e.drop = none ∨ cfg.allocFails = true ∨
      ∃ q x, (s.queue q).call (.resolver j) = .putDone x .shutdown := by
  cases h with
  | format_fail h => exact .inr (.inl h)
  | putRecord_refused h => exact .inr (.inr ⟨_, _, h⟩)
  | _ => exact .inl rfl

namespace State

theorem dropped_nil (ho : cfg.outsiders = false) (ha : cfg.allocFails = false)
    (H : cfg.system.Reachable s) (p : Logger) : s.dropped p = [] := by
  induction H with
  | init h =>
    rw [h]
    rfl
  | @step s _ _ H h ih =>
    have hr : ∀ {e : Effect R S} {t : Tid R S}, (e.drop = none ∨ cfg.allocFails = true ∨
        ∃ q x, (s.queue q).call t = .putDone x .shutdown) → e.drop = none := by
      rintro e t (h | h | ⟨q, x, h⟩)
      · exact h
      · exact absurd (ha.symm.trans h) nofun
      · exact absurd h (not_refused ho H q t x)
    have hp (t : Tid R S) (o o' : Option (QName × Op Str)) (e : Effect R S) (he : e.drop = none) :
        (s.perform t o o' e).dropped p = [] := by
      rw [perform_dropped, ih, Effect.lost, he]
      rfl
    rcases (step_cases h).2 with ⟨t, c, -, h'⟩ | ⟨q, t, mv, m, -, h', rfl⟩
    · cases h' with
      | @main l e hl =>
        simp only [spawn_same]
        exact hp .main s.main.op l.op e hl.drop
      | @requester i l e hl => exact hp (.requester i) (s.requester i).loc.op l.op e (hr hl.drop)
      | @resolver j l e hl => exact hp (.resolver j) (s.resolver j).loc.op l.op e (hr hl.drop)
      | @logger k l e hl => exact hp (.logger k) ((s.logger k).op k) (l.op k) e hl.drop
      | outsiderFree | outsiderDone => exact ih
    · exact ih

/-! ## The end of a run -/

end State

theorem RequesterLoc.over_lines {l : RequesterLoc} (h : l.over = true) (i : Nat) (p : Logger) :
    l.unread i = [] ∧ l.holds p = [] ∧ l.op = none := by
  cases l <;> cases p <;> first | exact ⟨rfl, rfl, rfl⟩ | cases h

theorem ResolverLoc.over_lines {l : ResolverLoc} (h : l.over = true) (p : Logger) :
    l.holds p = [] ∧ l.op = none := by
  cases l <;> cases p <;> first | exact ⟨rfl, rfl⟩ | cases h

namespace State

/-- When `main` has returned, no thread has a line, neither in its hands nor in a call. -/
theorem returned_idle (H : cfg.system.Reachable s) (hm : s.main = .returned) (p : Logger)
    (t : Tid R S) : s.inCall p t = [] ∧ s.ownLines p t = [] := by
  have hp := phases_reachable H
  have hreq : ∀ i, (s.requester i).loc.over = true := fun i => hp.joinedRequester i (by rw [hm]; rfl)
  have hres : ∀ j, (s.resolver j).loc.over = true := fun j => hp.joinedResolver j (by rw [hm]; rfl)
  have hlog : ∀ k, s.logger k = .finished := fun k => hp.joinedLogger k (by rw [hm]; rfl)
  constructor
  · refine (handed_free p fun q a h => .inl ?_).1 ((synced_reachable H).inCall t)
    cases t with
    | main => simp [op, hm, MainLoc.op] at h
    | requester i => simp [op, (RequesterLoc.over_lines (hreq i) i p).2.2] at h
    | resolver j => simp [op, (ResolverLoc.over_lines (hres j) p).2] at h
    | logger k => simp [op, hlog k, LoggerLoc.op] at h
    | outsider q' =>
      simp only [op] at h
      split at h <;> cases h
      rfl
  · cases t with
    | requester i =>
      obtain ⟨h1, h2, -⟩ := RequesterLoc.over_lines (hreq i) i p
      rw [ownLines, inHand, unread, h1, h2]
      rfl
    | resolver j =>
      rw [ownLines, inHand, (ResolverLoc.over_lines (hres j) p).1]
      rfl
    | logger k =>
      rw [ownLines, inHand, hlog k]
      simp [LoggerLoc.holds, unread]
    | main | outsider q => rfl

/-- When `main` has returned, every line has been written or dropped. -/
theorem returned_lines (H : cfg.system.Reachable s) (hm : s.main = .returned)
    (hv : ∃ j, (s.resolver j).loc ≠ .idle) (p : Logger) :
    (linesIn (s.logfile p) + s.dropped p : Multiset Line) = s.openedLines cfg := by
  have hp := phases_reachable H
  have hlog : ∀ k, s.logger k = .finished := fun k => hp.joinedLogger k (by rw [hm]; rfl)
  obtain ⟨j, hj⟩ := hv
  have hdone : (s.resolver j).loc = .finished := by
    have := hp.joinedResolver j (by rw [hm]; rfl)
    generalize (s.resolver j).loc = l at hj this
    cases l <;> first | rfl | exact absurd rfl hj | cases this
  have hq : ∀ q, s.linesAt p (.queue q) = 0 := by
    intro q
    have hd : p.path q = true → (s.queue q).items = [] := fun hq => by
      refine (drained_of_left H (q := q) ?_).2
      cases q with
      | filenameQueue => cases p <;> cases hq
      | hostnameQueue => exact ⟨j, hdone⟩
      | requesterLogfileQueue => exact hlog _
      | resolverLogfileQueue => exact hlog _
    rw [linesAt, onPath]
    split
    · rename_i hq
      rw [hd hq]
      rfl
    · rfl
  have hu : ∀ i, s.linesAt p (.unread i) = 0 := fun i =>
    congrArg _ (List.append_eq_nil_iff.1 (returned_idle H hm p (.requester i)).2).2
  have ht : ∀ t, s.linesAt p (.thread t) = 0 := fun t => by
    obtain ⟨h1, h2⟩ := returned_idle H hm p t
    rw [linesAt, h1, (List.append_eq_nil_iff.1 h2).1]
    rfl
  rw [← linesAt_eq H p, Place.sum_eq]
  simp only [hu, ht, hq, Finset.sum_const_zero, zero_add]
  rfl

/-- The bytes of strings that stand for lines. -/
theorem linesIn_bytes {f : Line → Bytes} {xs : List Str}
    (h : ∀ x ∈ xs, ∃ l, x.src = .line l ∧ x.bytes = f l) :
    xs.map Str.bytes = (linesIn xs).map f := by
  induction xs with
  | nil => rfl
  | cons x xs ih =>
    obtain ⟨l, hs, hb⟩ := h x (List.mem_cons_self ..)
    have ih := ih fun y hy => h y (List.mem_cons_of_mem _ hy)
    rw [linesIn_cons, hs, List.map_cons, ih, hb]
    rfl

/-- The records of lines, with the answers they were made from. -/
theorem linesIn_records {P : Bytes → Option Bytes → Prop} {xs : List Str}
    (h : ∀ x ∈ xs, ∃ l ip, x.src = .line l ∧ x.bytes = record l.host ip ∧ P l.host ip) :
    ∃ recs : List (Line × Option Bytes), recs.map Prod.fst = linesIn xs ∧
      xs.map Str.bytes = recs.map (fun r => record r.1.host r.2) ∧
      ∀ r ∈ recs, P r.1.host r.2 := by
  induction xs with
  | nil => exact ⟨[], rfl, rfl, nofun⟩
  | cons x xs ih =>
    obtain ⟨l, ip, hs, hb, hp⟩ := h x (List.mem_cons_self ..)
    obtain ⟨recs, h1, h2, h3⟩ := ih fun y hy => h y (List.mem_cons_of_mem _ hy)
    refine ⟨(l, ip) :: recs, ?_, ?_, ?_⟩
    · rw [List.map_cons, h1, linesIn_cons, hs]
      rfl
    · rw [List.map_cons, List.map_cons, h2, hb]
    · rintro r (_ | ⟨_, hr⟩)
      · exact hp
      · exact h3 r hr

/-- On the way to each log every line of the opened files is in one place and none is there
twice; without allocation failures none is dropped. When `main` has returned, each log has each
line once. -/
theorem exactly_once (H : cfg.system.Reachable s) (ho : cfg.outsiders = false) :
    ((s.openedLines cfg).map fun l => (l.file, l.no)).Nodup ∧
    (∀ p, (∀ l ∈ s.openedLines cfg, ∃! pl : Place R S, l ∈ s.linesAt p pl) ∧
      (∀ pl, (s.linesAt p pl).Nodup ∧
        ∀ l ∈ s.linesAt p pl, l ∈ s.openedLines cfg ∧ pl.on p = true) ∧
      (cfg.allocFails = false → s.linesAt p .dropped = 0)) ∧
    (∀ q, ∀ x ∈ (s.queue q).items, cfg.Typed q x) ∧
    (s.main = .returned → cfg.allocFails = false →
      (cfg.createFails = false ∨ ∃ j, (s.resolver j).loc ≠ .idle) →
      ((s.logfile .requesterLog).map Str.bytes : Multiset Bytes) =
        (s.openedLines cfg).map Line.host ∧
      ∃ recs : List (Line × Option Bytes),
        (recs.map Prod.fst : Multiset Line) = s.openedLines cfg ∧
        (s.logfile .resolverLog).map Str.bytes = recs.map (fun r => record r.1.host r.2) ∧
        ∀ r ∈ recs, cfg.answers r.1.host r.2 = true) := by
  have hn : (s.openedLines cfg).Nodup := Multiset.Nodup.of_map _ (openedLines_nodup H)
  have ht := wellTyped_reachable H
  have hd : cfg.allocFails = false → ∀ p, s.dropped p = [] := fun ha p => dropped_nil ho ha H p
  refine ⟨openedLines_nodup H, fun p => ⟨fun l hl => ?_, fun pl => ⟨?_, fun l hl => ?_⟩, ?_⟩,
    fun q x hx => ht.queue q x (Monitor.mem_contents.2 (.inl hx)), fun hm ha hc => ?_⟩
  · rw [← linesAt_eq H p, Multiset.mem_sum] at hl
    obtain ⟨pl, -, hl⟩ := hl
    exact ⟨pl, hl, fun pl' hl' => linesAt_inj H hl' hl⟩
  · exact Multiset.nodup_of_le (linesAt_le H p pl) hn
  · exact ⟨Multiset.mem_of_le (linesAt_le H p pl) hl, linesAt_on H hl⟩
  · intro ha
    rw [linesAt, hd ha p]
    rfl
  · have hv : ∃ j, (s.resolver j).loc ≠ .idle := by
      rcases hc with hc | hv
      · exact ⟨⟨0, cfg.resolvers_pos⟩, (created_reachable hc H).resolver _ (by rw [hm]; rfl)⟩
      · exact hv
    have hw : ∀ p, (linesIn (s.logfile p) : Multiset Line) = s.openedLines cfg := fun p => by
      have := returned_lines H hm hv p
      rwa [hd ha p, Multiset.coe_nil, add_zero] at this
    refine ⟨?_, ?_⟩
    · rw [← hw .requesterLog, linesIn_bytes (ht.written .requesterLog)]
      rfl
    · obtain ⟨recs, h1, h2, h3⟩ := linesIn_records (ht.written .resolverLog)
      refine ⟨recs, ?_, h2, fun r hr => ?_⟩
      · rw [h1, ← hw .resolverLog]
      · rcases h3 r hr with h | ⟨-, h⟩
        · exact h
        · exact absurd (ha.symm.trans h) nofun

/-- One requester and one resolver read three files, the second of which is not readable; the
first has an empty line and no newline at its end. -/
def sample : Config 1 1 where
  arraySize := 8
  two_le := two_le_arraySize
  requesters_pos := Nat.one_pos
  resolvers_pos := Nat.one_pos
  files := [[102], [103], [104]]
  fs n := if n = [102] then some [97, 10, 10, 98] else if n = [104] then some [99, 10] else none
  answers h a := a = if h = [97] then some [49] else none

def sampleDns (host : Bytes) : Option Bytes := if host = [97] then some [49] else none

/-- A run to the end of `main`. -/
def sampleRun (i j : Fin 1) : List (Tid 1 1 × Nat) := [
  (.main, 1), (.logger .requesterLog, 4), (.main, 1), (.logger .resolverLog, 4), (.main, 3),
  (.requester i, 4), (.main, 9), (.requester i, 19), (.logger .requesterLog, 16),
  (.requester i, 18), (.logger .requesterLog, 16), (.requester i, 15), (.main, 10),
  (.requester i, 19), (.logger .requesterLog, 16), (.requester i, 15), (.main, 3),
  (.resolver j, 18), (.logger .resolverLog, 16), (.resolver j, 20), (.logger .resolverLog, 16),
  (.resolver j, 21), (.logger .resolverLog, 16), (.resolver j, 6), (.main, 8),
  (.requester i, 15), (.resolver j, 6), (.requester i, 12), (.logger .requesterLog, 6),
  (.requester i, 6), (.main, 25), (.logger .resolverLog, 6), (.main, 7)]

theorem exactly_once_complete : ∃ s, sample.system.Reachable s ∧ s.main = .returned ∧
    (s.logfile .requesterLog).map Str.bytes = [[97], [98], [99]] ∧
    (s.openedLines sample).map Line.host = ([[97], [98], [99]] : List Bytes) ∧
    ∃ recs : List (Line × Option Bytes),
      (recs.map Prod.fst : Multiset Line) = s.openedLines sample ∧
      (s.logfile .resolverLog).map Str.bytes = recs.map fun r => record r.1.host r.2 := by
  have h : ∃ s ∈ schedule sample sampleDns (sampleRun 0 0), s.main = .returned ∧
      (s.logfile .requesterLog).map Str.bytes = [[97], [98], [99]] := by decide +kernel
  obtain ⟨s, hs, h1, h2⟩ := h
  have hr := schedule_reachable hs
  obtain ⟨h3, recs, h4, h5, -⟩ := (exactly_once hr rfl).2.2.2 h1 rfl (.inl rfl)
  refine ⟨s, hr, h1, h2, ?_, recs, h4, h5⟩
  rw [← h3, h2]

end State
end DnsResolver
