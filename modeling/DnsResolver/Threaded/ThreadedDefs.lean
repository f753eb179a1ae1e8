import DnsResolver.Array.ArrayDefs
import DnsResolver.Text.Lines
import Mathlib.Data.Fintype.Sum

/-!
# The threads of `dnsthreaded.c`

`main`, the requesters (`process_files_from_queue`), the resolvers (`resolver_thread`) and the two
log threads, one statement at a time, over the four queues of `array.c`. Every thread is at a
control point named after what it does next; a control point inside a call of `array.h` has that
call as its `op`, and the call's own statements are steps of the queue (`Monitor.move`).

The model starts when `main` has checked its arguments, opened the log files and initialised the
queues. What the environment decides is a `Choice`; `Config` says which choices there are: which
allocations, file openings and thread creations can fail, what the system resolver answers, and
whether `array_free` is called from outside these threads (as a signal handler does). Start and
end times are left out, as is `thread_id_mutex`, which only `main` takes.

A string is an address with its contents. For the proofs it also carries where it comes from
(`Src`), and the state records what was opened, freed, dropped and written. -/

namespace DnsResolver
open Function

/-- The four global queues. -/
inductive QName
  | filenameQueue
  | hostnameQueue
  | requesterLogfileQueue
  | resolverLogfileQueue
  deriving DecidableEq

/-- The two log threads. -/
inductive Logger
  | requesterLog
  | resolverLog
  deriving DecidableEq

def Logger.queue : Logger → QName
  | .requesterLog => .requesterLogfileQueue
  | .resolverLog => .resolverLogfileQueue

/-- The threads, for `R` requesters and `S` resolvers. An outsider calls `array_free` on its
queue. -/
inductive Tid (R S : Nat)
  | main
  | requester (i : Fin R)
  | resolver (j : Fin S)
  | logger (l : Logger)
  | outsider (q : QName)
  deriving DecidableEq

/-- A non-empty line of a data file: the requester that reads it, the file's place on the command
line, the line's place in the file, and the hostname. -/
structure Line where
  reader : Nat
  file : Nat
  no : Nat
  host : Bytes
  deriving DecidableEq

/-- Where a string comes from. -/
inductive Src
  | file (i : Nat)
  | line (l : Line)
  deriving DecidableEq

/-- The place of a string's file on the command line. -/
def Src.place : Src → Nat
  | .file k => k
  | .line l => l.file

/-- The line a string stands for, if it is not a filename. -/
def Src.lines : Src → List Line
  | .file _ => []
  | .line l => [l]

/-- A heap string. -/
structure Str where
  addr : Nat
  bytes : Bytes
  src : Src
  deriving DecidableEq

/-- The messages on the standard error output. -/
inductive Diag
  | invalidFile (thread : Nat) (name : Bytes)
  | requesterLogPut (thread : Nat) (host : Bytes)
  | requesterLogAlloc (thread : Nat)
  | hostnameAlloc (thread : Nat)
  | hostnamePut (thread : Nat) (host : Bytes)
  | getaddrinfo (thread : Nat) (host : Bytes)
  | recordAlloc (thread : Nat)
  | recordPut (thread : Nat) (record : Bytes)
  | createLogger (l : Logger)
  | createRequester
  | createResolver
  | allocTables
  | filenameAlloc
  | filenamePut (name : Bytes)
  deriving DecidableEq

/-- The statistics that `main` prints after it has joined a thread. -/
inductive Report
  | serviced (thread files : Nat)
  | resolved (thread hosts : Nat)
  deriving DecidableEq

/-- What the run depends on. -/
structure Config (R S : Nat) where
  arraySize : Nat
  two_le : 2 ≤ arraySize
  requesters_pos : 0 < R
  resolvers_pos : 0 < S
  /-- `argv[5]`, … -/
  files : List Bytes
  /-- The contents of the readable files. -/
  fs : Bytes → Option Bytes
  /-- The possible answers for a hostname: the first address as a string, or an error. -/
  answers : Bytes → Option Bytes → Bool
  allocFails : Bool := false
  openFails : Bool := false
  createFails : Bool := false
  outsiders : Bool := false

/-- `ARRAY_SIZE` of the source is 8. -/
theorem two_le_arraySize : 2 ≤ 8 := by decide

/-- A choice of the environment: a statement goes through or fails, or the resolver answers. -/
inductive Choice
  | ok
  | fail
  | answer (ip : Option Bytes)
  deriving DecidableEq

/-! ## Control points -/

/-- An open data file. -/
structure Reading where
  file : Str
  rest : Bytes
  no : Nat
  deriving DecidableEq

inductive RequesterLoc
  | idle
  | failed
  | next
  | getFile
  | openFile (f : Str)
  | invalidFile (f : Str)
  | readLine (c : Reading)
  | dupLog (c : Reading) (l : Line)
  | putLog (c : Reading) (l : Line) (s : Str)
  | logRefused (c : Reading) (l : Line) (s : Str)
  | dupHost (c : Reading) (l : Line)
  | putHost (c : Reading) (s : Str)
  | hostRefused (c : Reading) (s : Str)
  | closeFile (f : Str)
  | lockReaders
  | decrement
  | freeHostname
  | freeRequesterLog
  | unlockReaders
  | finished
  deriving DecidableEq

inductive ResolverLoc
  | idle
  | next
  | getHost
  | resolve (h : Str)
  | format (h : Str) (ip : Option Bytes)
  | putRecord (h s : Str)
  | recordRefused (h s : Str)
  | freeHost (h : Str)
  | finished
  deriving DecidableEq

inductive LoggerLoc
  | idle
  | next
  | get
  | write (s : Str)
  | freeString (s : Str)
  | finished
  deriving DecidableEq

inductive MainLoc
  | createLogger (l : Logger)
  | allocTables
  | abort (qs : List QName)
  | abortFree (q : QName) (qs : List QName)
  | exited
  | setReaders
  | createRequester (i : Nat)
  | createFailed (i : Nat)
  | enqueue (i : Nat)
  | dupFile (i : Nat) (name : Bytes)
  | putFile (i : Nat) (s : Str)
  | fileRefused (i : Nat) (s : Str)
  | createResolver (j : Nat)
  | freeFilename
  | joinRequester (i : Nat)
  | joinResolver (j : Nat)
  | freeRequesterLog
  | freeResolverLog
  | joinLogger (l : Logger)
  | returned
  deriving DecidableEq

/-- The call a thread is in. -/
def RequesterLoc.op : RequesterLoc → Option (QName × Op Str)
  | .getFile => some (.filenameQueue, .get)
  | .putLog _ _ s => some (.requesterLogfileQueue, .put s)
  | .putHost _ s => some (.hostnameQueue, .put s)
  | .freeHostname => some (.hostnameQueue, .free)
  | .freeRequesterLog => some (.requesterLogfileQueue, .free)
  | _ => none

def ResolverLoc.op : ResolverLoc → Option (QName × Op Str)
  | .getHost => some (.hostnameQueue, .get)
  | .putRecord _ s => some (.resolverLogfileQueue, .put s)
  | _ => none

def LoggerLoc.op (l : Logger) : LoggerLoc → Option (QName × Op Str)
  | .get => some (l.queue, .get)
  | _ => none

def MainLoc.op : MainLoc → Option (QName × Op Str)
  | .abortFree q _ => some (q, .free)
  | .putFile _ s => some (.filenameQueue, .put s)
  | .freeFilename => some (.filenameQueue, .free)
  | .freeRequesterLog => some (.requesterLogfileQueue, .free)
  | .freeResolverLog => some (.resolverLogfileQueue, .free)
  | _ => none

/-! ## States -/

/-- A requester and its statistics; `dequeued` and `opened` are the places on the command line of
the files it has got and opened, and `last` says that it has brought `active_file_readers` to 0. -/
structure Requester where
  loc : RequesterLoc := .idle
  seqId : Nat := 0
  filesServiced : Nat := 0
  dequeued : List Nat := []
  opened : List Nat := []
  last : Bool := false

structure Resolver where
  loc : ResolverLoc := .idle
  seqId : Nat := 0
  hostsResolved : Nat := 0

structure State (R S : Nat) where
  queue : QName → Monitor (Tid R S) Str
  main : MainLoc
  requester : Fin R → Requester
  resolver : Fin S → Resolver
  logger : Logger → LoggerLoc
  outsider : QName → Bool
  fileReaderMutex : Option (Tid R S)
  activeFileReaders : Int
  nextThreadId : Nat
  nextAddr : Nat
  freed : List Str
  logfile : Logger → List Str
  stderr : List Diag
  reports : List Report
  joined : List (Tid R S)
  dropped : Logger → List Line

/-- Which thread `main` creates, or has failed to create. -/
inductive Spawn (R S : Nat)
  | nobody
  | logger (l : Logger)
  | requester (i : Fin R) (created : Bool)
  | failed (i : Fin R)
  | resolver (j : Fin S) (created : Bool)

/-- What one statement does besides moving its thread on. -/
structure Effect (R S : Nat) where
  reads : List Str := []
  alloc : Option Str := none
  free : List Str := []
  mutex : Option (Option (Tid R S)) := none
  activeFileReaders : Option Int := none
  spawn : Spawn R S := .nobody
  dequeued : List Nat := []
  opened : List Nat := []
  serviced : Nat := 0
  last : Bool := false
  resolved : Nat := 0
  write : Option (Logger × Str) := none
  drop : Option (Logger × List Line) := none
  say : List Diag := []
  report : List Report := []
  join : List (Tid R S) := []

variable {R S : Nat}

/-! ## Statements -/

section
variable (cfg : Config R S) (s : State R S)

/-- `process_files_from_queue` -/
def requesterStep (i : Fin R) (c : Choice) : RequesterLoc → Option (RequesterLoc × Effect R S)
  | .next => some (.getFile, {})
  | .getFile =>
    match (s.queue .filenameQueue).call (.requester i) with
    | .getDone none => some (.lockReaders, {})
    | .getDone (some f) => some (.openFile f, { dequeued := [f.src.place] })
    | _ => none
  | .openFile f =>
    match c, cfg.fs f.bytes with
    | .ok, some bytes => some (.readLine ⟨f, bytes, 0⟩, {
        reads := [f], serviced := 1, opened := [f.src.place] })
    | .ok, none => some (.invalidFile f, { reads := [f] })
    | .fail, _ => if cfg.openFails then some (.invalidFile f, { reads := [f] }) else none
    | _, _ => none
  | .invalidFile f => some (.next, {
      reads := [f], say := [.invalidFile (s.requester i).seqId f.bytes], free := [f] })
  | .readLine c =>
    match getline c.rest with
    | none => some (.closeFile c.file, {})
    | some (line, rest) =>
      if hostOf line = [] then some (.readLine ⟨c.file, rest, c.no + 1⟩, {})
      else some (.dupLog ⟨c.file, rest, c.no + 1⟩ ⟨i, c.file.src.place, c.no, hostOf line⟩, {})
  | .dupLog cur l =>
    match c with
    | .ok =>
      let x : Str := ⟨s.nextAddr, l.host, .line l⟩
      some (.putLog cur l x, { alloc := some x })
    | .fail =>
      if cfg.allocFails then some (.dupHost cur l, {
        say := [.requesterLogAlloc (s.requester i).seqId], drop := some (.requesterLog, [l]) })
      else none
    | _ => none
  | .putLog cur l x =>
    match (s.queue .requesterLogfileQueue).call (.requester i) with
    | .putDone _ .success => some (.dupHost cur l, {})
    | .putDone _ .shutdown => some (.logRefused cur l x, { drop := some (.requesterLog, [l]) })
    | _ => none
  | .logRefused cur l x => some (.dupHost cur l, {
      reads := [x], say := [.requesterLogPut (s.requester i).seqId x.bytes], free := [x] })
  | .dupHost cur l =>
    match c with
    | .ok =>
      let x : Str := ⟨s.nextAddr, l.host, .line l⟩
      some (.putHost cur x, { alloc := some x })
    | .fail =>
      if cfg.allocFails then some (.readLine cur, {
        say := [.hostnameAlloc (s.requester i).seqId], drop := some (.resolverLog, [l]) })
      else none
    | _ => none
  | .putHost cur x =>
    match (s.queue .hostnameQueue).call (.requester i) with
    | .putDone _ .success => some (.readLine cur, {})
    | .putDone _ .shutdown =>
      some (.hostRefused cur x, { drop := some (.resolverLog, x.src.lines) })
    | _ => none
  | .hostRefused cur x => some (.readLine cur, {
      reads := [x], say := [.hostnamePut (s.requester i).seqId x.bytes], free := [x] })
  | .closeFile f => some (.next, { free := [f] })
  | .lockReaders =>
    if s.fileReaderMutex = none then
      some (.decrement, { mutex := some (some (.requester i)) })
    else none
  | .decrement =>
    if s.activeFileReaders - 1 = 0 then some (.freeHostname, {
      activeFileReaders := some (s.activeFileReaders - 1), last := true })
    else some (.unlockReaders, { activeFileReaders := some (s.activeFileReaders - 1) })
  | .freeHostname =>
    match (s.queue .hostnameQueue).call (.requester i) with
    | .freeDone => some (.freeRequesterLog, {})
    | _ => none
  | .freeRequesterLog =>
    match (s.queue .requesterLogfileQueue).call (.requester i) with
    | .freeDone => some (.unlockReaders, {})
    | _ => none
  | .unlockReaders => some (.finished, { mutex := some none })
  | .idle | .failed | .finished => none

/-- `resolver_thread` and `resolve_then_log`. `ip_string`, the copy of the address, is the `ip` of
`.format`: `dns_resolve` allocates it, and it is freed once the record is made, so it never leaves
the thread and has no address here (`State.buffers` counts it). When it cannot be allocated the host
counts as not resolved. -/
def resolverStep (j : Fin S) (c : Choice) : ResolverLoc → Option (ResolverLoc × Effect R S)
  | .next => some (.getHost, {})
  | .getHost =>
    match (s.queue .hostnameQueue).call (.resolver j) with
    | .getDone none => some (.finished, {})
    | .getDone (some h) => some (.resolve h, {})
    | _ => none
  | .resolve h =>
    match c with
    | .answer (some ip) =>
      if cfg.answers h.bytes (some ip) then some (.format h (some ip), { reads := [h] }) else none
    | .answer none =>
      if cfg.answers h.bytes none then some (.format h none, {
        reads := [h], say := [.getaddrinfo (s.resolver j).seqId h.bytes] }) else none
    | .fail => if cfg.allocFails then some (.format h none, { reads := [h] }) else none
    | .ok => none
  | .format h ip =>
    match c with
    | .ok =>
      let x : Str := ⟨s.nextAddr, record h.bytes ip, h.src⟩
      some (.putRecord h x, { reads := [h], alloc := some x })
    | .fail =>
      if cfg.allocFails then some (.freeHost h, {
        reads := [h], say := [.recordAlloc (s.resolver j).seqId]
        drop := some (.resolverLog, h.src.lines) })
      else none
    | _ => none
  | .putRecord h x =>
    match (s.queue .resolverLogfileQueue).call (.resolver j) with
    | .putDone _ .success => some (.freeHost h, { resolved := 1 })
    | .putDone _ .shutdown =>
      some (.recordRefused h x, { drop := some (.resolverLog, x.src.lines) })
    | _ => none
  | .recordRefused h x => some (.freeHost h, {
      reads := [x], say := [.recordPut (s.resolver j).seqId x.bytes], free := [x] })
  | .freeHost h => some (.next, { free := [h] })
  | .idle | .finished => none

/-- The body of both log threads. -/
def loggerStep (l : Logger) : LoggerLoc → Option (LoggerLoc × Effect R S)
  | .next => some (.get, {})
  | .get =>
    match (s.queue l.queue).call (.logger l) with
    | .getDone none => some (.finished, {})
    | .getDone (some x) => some (.write x, {})
    | _ => none
  | .write x => some (.freeString x, { reads := [x], write := some (l, x) })
  | .freeString x => some (.next, { free := [x] })
  | .idle | .finished => none

/-- `requester_logfile_thread_func` -/
def requesterLogfileThread := loggerStep s .requesterLog

/-- `resolver_logfile_thread_func` -/
def resolverLogfileThread := loggerStep s .resolverLog

/-- The queues that `main` frees, in this order, when it gives up. -/
def allQueues : List QName :=
  [.hostnameQueue, .requesterLogfileQueue, .resolverLogfileQueue, .filenameQueue]

/-- `main` after the queues are initialised. A join waits for its thread; on a thread that was
not created it is undefined, and the model lets `main` go on (`State.Defined` has the runs up to
there). -/
def mainStep (c : Choice) : MainLoc → Option (MainLoc × Effect R S)
  | .createLogger l =>
    match c with
    | .ok => some (
        match l with
        | .requesterLog => .createLogger .resolverLog
        | .resolverLog => .allocTables,
        { spawn := .logger l })
    | .fail =>
      if cfg.createFails then some (.abort allQueues, { say := [.createLogger l] }) else none
    | _ => none
  | .allocTables =>
    match c with
    | .ok => some (.setReaders, {})
    | .fail => if cfg.allocFails then some (.abort allQueues, { say := [.allocTables] }) else none
    | _ => none
  | .abort (q :: qs) => some (.abortFree q qs, {})
  | .abort [] => some (.exited, {})
  | .abortFree q qs =>
    match (s.queue q).call .main with
    | .freeDone => some (.abort qs, {})
    | _ => none
  | .setReaders =>
    if s.fileReaderMutex = none then some (.createRequester 0, { activeFileReaders := some R })
    else none
  | .createRequester i =>
    if h : i < R then
      match c with
      | .ok => some (.createRequester (i + 1), { spawn := .requester ⟨i, h⟩ true })
      | .fail =>
        if cfg.createFails then some (.createFailed i, {
          spawn := .requester ⟨i, h⟩ false, say := [.createRequester] }) else none
      | _ => none
    else some (.enqueue 0, {})
  | .createFailed i =>
    if h : i < R ∧ s.fileReaderMutex = none then some (.createRequester (i + 1), {
      activeFileReaders := some (s.activeFileReaders - 1), spawn := .failed ⟨i, h.1⟩ })
    else none
  | .enqueue i =>
    match c, cfg.files[i]? with
    | .ok, some name =>
      if (cfg.fs name).isSome then some (.dupFile i name, {}) else some (.enqueue (i + 1), {})
    | .fail, some _ => if cfg.openFails then some (.enqueue (i + 1), {}) else none
    | .ok, none => some (.createResolver 0, {})
    | _, _ => none
  | .dupFile i name =>
    match c with
    | .ok =>
      let x : Str := ⟨s.nextAddr, name, .file i⟩
      some (.putFile i x, { alloc := some x })
    | .fail => if cfg.allocFails then some (.enqueue (i + 1), { say := [.filenameAlloc] }) else none
    | _ => none
  | .putFile i x =>
    match (s.queue .filenameQueue).call .main with
    | .putDone _ .success => some (.enqueue (i + 1), {})
    | .putDone _ .shutdown => some (.fileRefused i x, {})
    | _ => none
  | .fileRefused i x => some (.enqueue (i + 1), {
      say := (cfg.files[i]?.map Diag.filenamePut).toList, free := [x] })
  | .createResolver j =>
    if h : j < S then
      match c with
      | .ok => some (.createResolver (j + 1), { spawn := .resolver ⟨j, h⟩ true })
      | .fail =>
        if cfg.createFails then some (.createResolver (j + 1), {
          spawn := .resolver ⟨j, h⟩ false, say := [.createResolver] }) else none
      | _ => none
    else some (.freeFilename, {})
  | .freeFilename =>
    match (s.queue .filenameQueue).call .main with
    | .freeDone => some (.joinRequester 0, {})
    | _ => none
  | .joinRequester i =>
    if h : i < R then
      let r := s.requester ⟨i, h⟩
      if r.loc = .finished ∨ r.loc = .failed then some (.joinRequester (i + 1), {
        join := [.requester ⟨i, h⟩], report := [.serviced r.seqId r.filesServiced] })
      else none
    else some (.joinResolver 0, {})
  | .joinResolver j =>
    if h : j < S then
      let r := s.resolver ⟨j, h⟩
      if r.loc = .finished ∨ r.loc = .idle then some (.joinResolver (j + 1), {
        join := [.resolver ⟨j, h⟩], report := [.resolved r.seqId r.hostsResolved] })
      else none
    else some (.freeRequesterLog, {})
  | .freeRequesterLog =>
    match (s.queue .requesterLogfileQueue).call .main with
    | .freeDone => some (.freeResolverLog, {})
    | _ => none
  | .freeResolverLog =>
    match (s.queue .resolverLogfileQueue).call .main with
    | .freeDone => some (.joinLogger .requesterLog, {})
    | _ => none
  | .joinLogger l =>
    if s.logger l = .finished then some (
      match l with
      | .requesterLog => .joinLogger .resolverLog
      | .resolverLog => .returned,
      { join := [.logger l] })
    else none
  | .exited | .returned => none

end

/-! ## The step of the program -/

namespace State
variable (s : State R S)

/-- The call a thread is in. -/
def op : Tid R S → Option (QName × Op Str)
  | .main => s.main.op
  | .requester i => (s.requester i).loc.op
  | .resolver j => (s.resolver j).loc.op
  | .logger l => (s.logger l).op l
  | .outsider q => if s.outsider q then some (q, .free) else none

/-- A thread goes on after the call it was in, if any. -/
def leave (queue : QName → Monitor (Tid R S) Str) (t : Tid R S) :
    Option (QName × Op Str) → QName → Monitor (Tid R S) Str
  | some (q, _) => update queue q ((queue q).leave t)
  | none => queue

/-- A thread enters a call, if any. -/
def enter (queue : QName → Monitor (Tid R S) Str) (t : Tid R S) :
    Option (QName × Op Str) → QName → Monitor (Tid R S) Str
  | some (q, p) => update queue q ((queue q).begin t p)
  | none => queue

/-- The shared effects of a statement of `t` that takes it from the call `o` to the call `o'`. -/
def perform (t : Tid R S) (o o' : Option (QName × Op Str)) (e : Effect R S) : State R S :=
  { s with
    queue := enter (leave s.queue t o) t o'
    fileReaderMutex := e.mutex.getD s.fileReaderMutex
    activeFileReaders := e.activeFileReaders.getD s.activeFileReaders
    nextAddr := if e.alloc.isSome then s.nextAddr + 1 else s.nextAddr
    freed := s.freed ++ e.free
    logfile := match e.write with
      | some (l, x) => update s.logfile l (s.logfile l ++ [x])
      | none => s.logfile
    dropped := match e.drop with
      | some (l, ls) => update s.dropped l (s.dropped l ++ ls)
      | none => s.dropped
    stderr := s.stderr ++ e.say
    reports := s.reports ++ e.report
    joined := s.joined ++ e.join }

/-- `pthread_create`, or its failure; each requester and resolver gets a sequential number. -/
def spawn : Spawn R S → State R S
  | .nobody => s
  | .logger l => { s with logger := update s.logger l .next }
  | .requester i created => { s with
      requester := update s.requester i { s.requester i with
        seqId := s.nextThreadId
        loc := if created then .next else (s.requester i).loc }
      nextThreadId := s.nextThreadId + 1 }
  | .failed i => { s with
      requester := update s.requester i { s.requester i with loc := .failed } }
  | .resolver j created => { s with
      resolver := update s.resolver j { s.resolver j with
        seqId := s.nextThreadId
        loc := if created then .next else (s.resolver j).loc }
      nextThreadId := s.nextThreadId + 1 }

def setRequester (i : Fin R) (l : RequesterLoc) (e : Effect R S) : State R S :=
  let r := s.requester i
  { s with requester := update s.requester i { r with
      loc := l
      filesServiced := r.filesServiced + e.serviced
      dequeued := r.dequeued ++ e.dequeued
      opened := r.opened ++ e.opened
      last := r.last || e.last } }

def setResolver (j : Fin S) (l : ResolverLoc) (e : Effect R S) : State R S :=
  let r := s.resolver j
  { s with resolver := update s.resolver j { r with
      loc := l
      hostsResolved := r.hostsResolved + e.resolved } }

/-- The next statement of `t` outside the queues. -/
def stmt (cfg : Config R S) (c : Choice) : Tid R S → Option (State R S)
  | .main => (mainStep cfg s c s.main).map fun (l, e) =>
      { (s.perform .main s.main.op l.op e).spawn e.spawn with main := l }
  | .requester i => (requesterStep cfg s i c (s.requester i).loc).map fun (l, e) =>
      (s.perform (.requester i) (s.requester i).loc.op l.op e).setRequester i l e
  | .resolver j => (resolverStep cfg s j c (s.resolver j).loc).map fun (l, e) =>
      (s.perform (.resolver j) (s.resolver j).loc.op l.op e).setResolver j l e
  | .logger l => (loggerStep s l (s.logger l)).map fun (l', e) =>
      let s' := s.perform (.logger l) ((s.logger l).op l) (l'.op l) e
      { s' with logger := update s'.logger l l' }
  | .outsider q =>
    if !cfg.outsiders then none
    else if s.outsider q then
      match (s.queue q).call (.outsider q) with
      | .freeDone => some { s.perform (.outsider q) (some (q, .free)) none {} with
          outsider := update s.outsider q false }
      | _ => none
    else some { s.perform (.outsider q) none (some (q, .free)) {} with
      outsider := update s.outsider q true }

end State

instance : Fintype Logger := ⟨{.requesterLog, .resolverLog}, fun l => by cases l <;> decide⟩

instance : Fintype QName :=
  ⟨{.filenameQueue, .hostnameQueue, .requesterLogfileQueue, .resolverLogfileQueue},
    fun q => by cases q <;> decide⟩

/-- The threads by kind. -/
def Tid.equiv (R S : Nat) : Unit ⊕ Fin R ⊕ Fin S ⊕ Logger ⊕ QName ≃ Tid R S where
  toFun
    | .inl _ => .main
    | .inr (.inl i) => .requester i
    | .inr (.inr (.inl j)) => .resolver j
    | .inr (.inr (.inr (.inl l))) => .logger l
    | .inr (.inr (.inr (.inr q))) => .outsider q
  invFun
    | .main => .inl ()
    | .requester i => .inr (.inl i)
    | .resolver j => .inr (.inr (.inl j))
    | .logger l => .inr (.inr (.inr (.inl l)))
    | .outsider q => .inr (.inr (.inr (.inr q)))
  left_inv x := by rcases x with _ | _ | _ | _ | _ <;> rfl
  right_inv t := by cases t <;> rfl

instance : Fintype (Tid R S) := .ofEquiv _ (Tid.equiv R S)

/-- A statement of a thread outside the queues, or a move inside the call it is in. -/
inductive Act (R S : Nat)
  | stmt (t : Tid R S) (c : Choice)
  | call (q : QName) (t : Tid R S) (mv : Move (Tid R S))

/-- Who makes a step. -/
def Act.thread : Act R S → Tid R S
  | .stmt t _ => t
  | .call _ t _ => t

namespace State

def setQueue (s : State R S) (q : QName) (m : Monitor (Tid R S) Str) : State R S :=
  { s with queue := update s.queue q m }

/-- When `main` returns or exits the process ends. -/
def ended (s : State R S) : Bool := s.main == .returned || s.main == .exited

def step (cfg : Config R S) (s : State R S) : Act R S → Option (State R S)
  | .stmt t c => if s.ended then none else s.stmt cfg c t
  | .call q t mv =>
    if s.ended then none
    else ((s.queue q).move cfg.arraySize t mv).map (s.setQueue q)

/-- All queues are initialised and `main` is about to create the first thread. -/
def init : State R S where
  queue _ := .init
  main := .createLogger .requesterLog
  requester _ := {}
  resolver _ := {}
  logger _ := .idle
  outsider _ := false
  fileReaderMutex := none
  activeFileReaders := 0
  nextThreadId := 1
  nextAddr := 0
  freed := []
  logfile _ := []
  stderr := []
  reports := []
  joined := []
  dropped _ := []

end State

/-- `dnsthreaded`, in any interleaving. -/
def Config.system (cfg : Config R S) : TransitionSystem (State R S) (Act R S) :=
  .ofFun .init (State.step cfg)

/-! ## Schedules -/

/-- The threads in a fixed order. -/
def Tid.all (R S : Nat) : List (Tid R S) :=
  .main :: (List.finRange R).map .requester ++ (List.finRange S).map .resolver ++
  [.logger .requesterLog, .logger .resolverLog]

namespace State

/-- The first thread asleep on a condition variable. -/
def sleeper (s : State R S) (q : QName) (v : Cond) : Option (Tid R S) :=
  (Tid.all R S).find? fun u => ((s.queue q).call u).asleepOn = some v

/-- The next step of a thread when nothing fails, with the answers `dns`; a signal wakes the
first sleeper. -/
def nextAct (cfg : Config R S) (dns : Bytes → Option Bytes) (s : State R S) (t : Tid R S) :
    Act R S :=
  match s.op t, t with
  | some (q, _), t =>
    match callStep cfg.arraySize t (s.queue q).arr ((s.queue q).call t) with
    | some ⟨_, _, .signal v, _⟩ => .call q t (.run (s.sleeper q v))
    | some _ => .call q t (.run none)
    | none => .stmt t .ok
  | none, .resolver j =>
    match (s.resolver j).loc with
    | .resolve h => .stmt (.resolver j) (.answer (dns h.bytes))
    | _ => .stmt (.resolver j) .ok
  | none, t => .stmt t .ok

/-- The run in which the threads of a list, each with a number of steps, take turns. -/
def schedule (cfg : Config R S) (dns : Bytes → Option Bytes) (turns : List (Tid R S × Nat)) :
    Option (State R S) :=
  TransitionSystem.exec (fun s t => s.step cfg (s.nextAct cfg dns t))
    (turns.flatMap fun p => List.replicate p.2 p.1) .init

theorem schedule_reachable {cfg : Config R S} {dns : Bytes → Option Bytes}
    {turns : List (Tid R S × Nat)} {s : State R S} (h : s ∈ schedule cfg dns turns) :
    cfg.system.Reachable s :=
  TransitionSystem.reachable_choose h

end State
end DnsResolver
