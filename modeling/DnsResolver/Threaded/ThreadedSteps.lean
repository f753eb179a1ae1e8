import DnsResolver.Threaded.ThreadedDefs

/-!
# What one statement of a thread can do

`RequesterStep`, `ResolverStep`, `LoggerStep` and `MainStep` list the statements of each thread
with the condition under which each is taken and its effect; the `_cases` lemmas say that the
executable definitions do nothing else. `Stmt` puts the threads together. -/

namespace DnsResolver
open Function

variable {R S : Nat} {cfg : Config R S} {s s' : State R S} {c : Choice}

/-- The statements of `process_files_from_queue`. -/
inductive RequesterStep (cfg : Config R S) (s : State R S) (i : Fin R) :
    RequesterLoc → RequesterLoc → Effect R S → Prop
  | next : RequesterStep cfg s i .next .getFile {}
  | noFile : (s.queue .filenameQueue).call (.requester i) = .getDone none →
    RequesterStep cfg s i .getFile .lockReaders {}
  | file : (s.queue .filenameQueue).call (.requester i) = .getDone (some f) →
    RequesterStep cfg s i .getFile (.openFile f) { dequeued := [f.src.place] }
  | openFile : cfg.fs f.bytes = some bytes →
    RequesterStep cfg s i (.openFile f) (.readLine ⟨f, bytes, 0⟩)
      { reads := [f], serviced := 1, opened := [f.src.place] }
  | openFile_fail : (cfg.fs f.bytes = none ∨ cfg.openFails = true) →
    RequesterStep cfg s i (.openFile f) (.invalidFile f) { reads := [f] }
  | invalidFile : RequesterStep cfg s i (.invalidFile f) .next {
      reads := [f], say := [.invalidFile (s.requester i).seqId f.bytes], free := [f] }
  | eof : getline r.rest = none →
    RequesterStep cfg s i (.readLine r) (.closeFile r.file) {}
  | emptyLine : getline r.rest = some (line, rest) → hostOf line = [] →
    RequesterStep cfg s i (.readLine r) (.readLine ⟨r.file, rest, r.no + 1⟩) {}
  | line : getline r.rest = some (line, rest) → hostOf line ≠ [] →
    RequesterStep cfg s i (.readLine r)
      (.dupLog ⟨r.file, rest, r.no + 1⟩ ⟨i, r.file.src.place, r.no, hostOf line⟩) {}
  | dupLog : RequesterStep cfg s i (.dupLog r l) (.putLog r l ⟨s.nextAddr, l.host, .line l⟩)
      { alloc := some ⟨s.nextAddr, l.host, .line l⟩ }
  | dupLog_fail : cfg.allocFails = true →
    RequesterStep cfg s i (.dupLog r l) (.dupHost r l) {
      say := [.requesterLogAlloc (s.requester i).seqId], drop := some (.requesterLog, [l]) }
  | putLog : (s.queue .requesterLogfileQueue).call (.requester i) = .putDone y .success →
    RequesterStep cfg s i (.putLog r l x) (.dupHost r l) {}
  | putLog_refused : (s.queue .requesterLogfileQueue).call (.requester i) = .putDone y .shutdown →
    RequesterStep cfg s i (.putLog r l x) (.logRefused r l x) { drop := some (.requesterLog, [l]) }
  | logRefused : RequesterStep cfg s i (.logRefused r l x) (.dupHost r l) {
      reads := [x], say := [.requesterLogPut (s.requester i).seqId x.bytes], free := [x] }
  | dupHost : RequesterStep cfg s i (.dupHost r l) (.putHost r ⟨s.nextAddr, l.host, .line l⟩)
      { alloc := some ⟨s.nextAddr, l.host, .line l⟩ }
  | dupHost_fail : cfg.allocFails = true →
    RequesterStep cfg s i (.dupHost r l) (.readLine r) {
      say := [.hostnameAlloc (s.requester i).seqId], drop := some (.resolverLog, [l]) }
  | putHost : (s.queue .hostnameQueue).call (.requester i) = .putDone y .success →
    RequesterStep cfg s i (.putHost r x) (.readLine r) {}
  | putHost_refused : (s.queue .hostnameQueue).call (.requester i) = .putDone y .shutdown →
    RequesterStep cfg s i (.putHost r x) (.hostRefused r x)
      { drop := some (.resolverLog, x.src.lines) }
  | hostRefused : RequesterStep cfg s i (.hostRefused r x) (.readLine r) {
      reads := [x], say := [.hostnamePut (s.requester i).seqId x.bytes], free := [x] }
  | closeFile : RequesterStep cfg s i (.closeFile f) .next { free := [f] }
  | lockReaders : s.fileReaderMutex = none →
    RequesterStep cfg s i .lockReaders .decrement { mutex := some (some (.requester i)) }
  | decrement_last : s.activeFileReaders - 1 = 0 →
    RequesterStep cfg s i .decrement .freeHostname {
      activeFileReaders := some (s.activeFileReaders - 1), last := true }
  | decrement : s.activeFileReaders - 1 ≠ 0 →
    RequesterStep cfg s i .decrement .unlockReaders {
      activeFileReaders := some (s.activeFileReaders - 1) }
  | freeHostname : (s.queue .hostnameQueue).call (.requester i) = .freeDone →
    RequesterStep cfg s i .freeHostname .freeRequesterLog {}
  | freeRequesterLog : (s.queue .requesterLogfileQueue).call (.requester i) = .freeDone →
    RequesterStep cfg s i .freeRequesterLog .unlockReaders {}
  | unlockReaders : RequesterStep cfg s i .unlockReaders .finished { mutex := some none }

/-- The statements of `resolver_thread`. -/
inductive ResolverStep (cfg : Config R S) (s : State R S) (j : Fin S) :
    ResolverLoc → ResolverLoc → Effect R S → Prop
  | next : ResolverStep cfg s j .next .getHost {}
  | noHost : (s.queue .hostnameQueue).call (.resolver j) = .getDone none →
    ResolverStep cfg s j .getHost .finished {}
  | host : (s.queue .hostnameQueue).call (.resolver j) = .getDone (some h) →
    ResolverStep cfg s j .getHost (.resolve h) {}
  | answer : cfg.answers h.bytes (some ip) = true →
    ResolverStep cfg s j (.resolve h) (.format h (some ip)) { reads := [h] }
  | noAnswer : cfg.answers h.bytes none = true →
    ResolverStep cfg s j (.resolve h) (.format h none) {
      reads := [h], say := [.getaddrinfo (s.resolver j).seqId h.bytes] }
  | answer_fail : cfg.allocFails = true →
    ResolverStep cfg s j (.resolve h) (.format h none) { reads := [h] }
  | format : ResolverStep cfg s j (.format h ip)
      (.putRecord h ⟨s.nextAddr, record h.bytes ip, h.src⟩)
      { reads := [h], alloc := some ⟨s.nextAddr, record h.bytes ip, h.src⟩ }
  | format_fail : cfg.allocFails = true →
    ResolverStep cfg s j (.format h ip) (.freeHost h) {
      reads := [h], say := [.recordAlloc (s.resolver j).seqId]
      drop := some (.resolverLog, h.src.lines) }
  | putRecord : (s.queue .resolverLogfileQueue).call (.resolver j) = .putDone y .success →
    ResolverStep cfg s j (.putRecord h x) (.freeHost h) { resolved := 1 }
  | putRecord_refused :
    (s.queue .resolverLogfileQueue).call (.resolver j) = .putDone y .shutdown →
    ResolverStep cfg s j (.putRecord h x) (.recordRefused h x)
      { drop := some (.resolverLog, x.src.lines) }
  | recordRefused : ResolverStep cfg s j (.recordRefused h x) (.freeHost h) {
      reads := [x], say := [.recordPut (s.resolver j).seqId x.bytes], free := [x] }
  | freeHost : ResolverStep cfg s j (.freeHost h) .next { free := [h] }

/-- The statements of the two log threads. -/
inductive LoggerStep (s : State R S) (l : Logger) : LoggerLoc → LoggerLoc → Effect R S → Prop
  | next : LoggerStep s l .next .get {}
  | noString : (s.queue l.queue).call (.logger l) = .getDone none →
    LoggerStep s l .get .finished {}
  | string : (s.queue l.queue).call (.logger l) = .getDone (some x) →
    LoggerStep s l .get (.write x) {}
  | write : LoggerStep s l (.write x) (.freeString x) { reads := [x], write := some (l, x) }
  | freeString : LoggerStep s l (.freeString x) .next { free := [x] }

/-- The statements of `main`. -/
inductive MainStep (cfg : Config R S) (s : State R S) : MainLoc → MainLoc → Effect R S → Prop
  | createRequesterLog : MainStep cfg s (.createLogger .requesterLog) (.createLogger .resolverLog)
      { spawn := .logger .requesterLog }
  | createResolverLog : MainStep cfg s (.createLogger .resolverLog) .allocTables
      { spawn := .logger .resolverLog }
  | createLogger_fail : cfg.createFails = true →
    MainStep cfg s (.createLogger l) (.abort allQueues) { say := [.createLogger l] }
  | allocTables : MainStep cfg s .allocTables .setReaders {}
  | allocTables_fail : cfg.allocFails = true →
    MainStep cfg s .allocTables (.abort allQueues) { say := [.allocTables] }
  | abort : MainStep cfg s (.abort (q :: qs)) (.abortFree q qs) {}
  | exit : MainStep cfg s (.abort []) .exited {}
  | abortFree : (s.queue q).call .main = .freeDone →
    MainStep cfg s (.abortFree q qs) (.abort qs) {}
  | setReaders : s.fileReaderMutex = none →
    MainStep cfg s .setReaders (.createRequester 0) { activeFileReaders := some R }
  | createRequester (h : i < R) :
    MainStep cfg s (.createRequester i) (.createRequester (i + 1))
      { spawn := .requester ⟨i, h⟩ true }
  | createRequester_fail (h : i < R) : cfg.createFails = true →
    MainStep cfg s (.createRequester i) (.createFailed i)
      { spawn := .requester ⟨i, h⟩ false, say := [.createRequester] }
  | requestersCreated : R ≤ i → MainStep cfg s (.createRequester i) (.enqueue 0) {}
  | createFailed (h : i < R) : s.fileReaderMutex = none →
    MainStep cfg s (.createFailed i) (.createRequester (i + 1)) {
      activeFileReaders := some (s.activeFileReaders - 1), spawn := .failed ⟨i, h⟩ }
  | enqueue : cfg.files[i]? = some name → (cfg.fs name).isSome = true →
    MainStep cfg s (.enqueue i) (.dupFile i name) {}
  | enqueue_skip : cfg.files[i]? = some name → (cfg.fs name = none ∨ cfg.openFails = true) →
    MainStep cfg s (.enqueue i) (.enqueue (i + 1)) {}
  | enqueued : cfg.files[i]? = none → MainStep cfg s (.enqueue i) (.createResolver 0) {}
  | dupFile : MainStep cfg s (.dupFile i name) (.putFile i ⟨s.nextAddr, name, .file i⟩)
      { alloc := some ⟨s.nextAddr, name, .file i⟩ }
  | dupFile_fail : cfg.allocFails = true →
    MainStep cfg s (.dupFile i name) (.enqueue (i + 1)) { say := [.filenameAlloc] }
  | putFile : (s.queue .filenameQueue).call .main = .putDone y .success →
    MainStep cfg s (.putFile i x) (.enqueue (i + 1)) {}
  | putFile_refused : (s.queue .filenameQueue).call .main = .putDone y .shutdown →
    MainStep cfg s (.putFile i x) (.fileRefused i x) {}
  | fileRefused : MainStep cfg s (.fileRefused i x) (.enqueue (i + 1))
      { say := (cfg.files[i]?.map Diag.filenamePut).toList, free := [x] }
  | createResolver (h : j < S) : MainStep cfg s (.createResolver j) (.createResolver (j + 1))
      { spawn := .resolver ⟨j, h⟩ true }
  | createResolver_fail (h : j < S) : cfg.createFails = true →
    MainStep cfg s (.createResolver j) (.createResolver (j + 1))
      { spawn := .resolver ⟨j, h⟩ false, say := [.createResolver] }
  | resolversCreated : S ≤ j → MainStep cfg s (.createResolver j) .freeFilename {}
  | freeFilename : (s.queue .filenameQueue).call .main = .freeDone →
    MainStep cfg s .freeFilename (.joinRequester 0) {}
  | joinRequester (h : i < R) :
    ((s.requester ⟨i, h⟩).loc = .finished ∨ (s.requester ⟨i, h⟩).loc = .failed) →
    MainStep cfg s (.joinRequester i) (.joinRequester (i + 1)) {
      join := [.requester ⟨i, h⟩]
      report := [.serviced (s.requester ⟨i, h⟩).seqId (s.requester ⟨i, h⟩).filesServiced] }
  | requestersJoined : R ≤ i → MainStep cfg s (.joinRequester i) (.joinResolver 0) {}
  | joinResolver (h : j < S) :
    ((s.resolver ⟨j, h⟩).loc = .finished ∨ (s.resolver ⟨j, h⟩).loc = .idle) →
    MainStep cfg s (.joinResolver j) (.joinResolver (j + 1)) {
      join := [.resolver ⟨j, h⟩]
      report := [.resolved (s.resolver ⟨j, h⟩).seqId (s.resolver ⟨j, h⟩).hostsResolved] }
  | resolversJoined : S ≤ j → MainStep cfg s (.joinResolver j) .freeRequesterLog {}
  | freeRequesterLog : (s.queue .requesterLogfileQueue).call .main = .freeDone →
    MainStep cfg s .freeRequesterLog .freeResolverLog {}
  | freeResolverLog : (s.queue .resolverLogfileQueue).call .main = .freeDone →
    MainStep cfg s .freeResolverLog (.joinLogger .requesterLog) {}
  | joinRequesterLog : s.logger .requesterLog = .finished →
    MainStep cfg s (.joinLogger .requesterLog) (.joinLogger .resolverLog)
      { join := [.logger .requesterLog] }
  | joinResolverLog : s.logger .resolverLog = .finished →
    MainStep cfg s (.joinLogger .resolverLog) .returned { join := [.logger .resolverLog] }

theorem requesterStep_cases {i : Fin R} {l l' : RequesterLoc} {e : Effect R S}
    (h : requesterStep cfg s i c l = some (l', e)) : RequesterStep cfg s i l l' e := by
  revert h
  fun_cases requesterStep cfg s i c l <;> intro h <;> cases h
  all_goals constructor <;> first | assumption | (left; assumption) | (right; assumption)

theorem resolverStep_cases {j : Fin S} {l l' : ResolverLoc} {e : Effect R S}
    (h : resolverStep cfg s j c l = some (l', e)) : ResolverStep cfg s j l l' e := by
  revert h
  fun_cases resolverStep cfg s j c l <;> intro h <;> cases h
  all_goals constructor <;> assumption

theorem loggerStep_cases {l : Logger} {k k' : LoggerLoc} {e : Effect R S}
    (h : loggerStep s l k = some (k', e)) : LoggerStep s l k k' e := by
  revert h
  fun_cases loggerStep s l k <;> intro h <;> cases h
  all_goals constructor <;> assumption

theorem mainStep_cases {l l' : MainLoc} {e : Effect R S} (h : mainStep cfg s c l = some (l', e)) :
    MainStep cfg s l l' e := by
  revert h
  fun_cases mainStep cfg s c l <;> intro h <;> cases h
  case case1 l => cases l <;> constructor
  case case53 l h => cases l <;> constructor <;> exact h
  case case20 h => exact .createFailed h.1 h.2
  case case23 hn h => exact .enqueue_skip hn (.inl (by simpa using h))
  all_goals constructor <;> first | assumption | omega | (right; assumption)

/-- The statements of all threads. -/
inductive Stmt (cfg : Config R S) (s : State R S) : Tid R S → State R S → Prop
  | main : MainStep cfg s s.main l e →
    Stmt cfg s .main { (s.perform .main s.main.op l.op e).spawn e.spawn with main := l }
  | requester : RequesterStep cfg s i (s.requester i).loc l e →
    Stmt cfg s (.requester i)
      ((s.perform (.requester i) (s.requester i).loc.op l.op e).setRequester i l e)
  | resolver : ResolverStep cfg s j (s.resolver j).loc l e →
    Stmt cfg s (.resolver j)
      ((s.perform (.resolver j) (s.resolver j).loc.op l.op e).setResolver j l e)
  | logger : LoggerStep s l (s.logger l) k e →
    Stmt cfg s (.logger l) { s.perform (.logger l) ((s.logger l).op l) (k.op l) e with
      logger := update s.logger l k }
  | outsiderFree : cfg.outsiders = true → s.outsider q = false →
    Stmt cfg s (.outsider q) { s.perform (.outsider q) none (some (q, .free)) {} with
      outsider := update s.outsider q true }
  | outsiderDone : cfg.outsiders = true → s.outsider q = true →
    (s.queue q).call (.outsider q) = .freeDone →
    Stmt cfg s (.outsider q) { s.perform (.outsider q) (some (q, .free)) none {} with
      outsider := update s.outsider q false }

theorem stmt_cases {t : Tid R S} (h : s.stmt cfg c t = some s') : Stmt cfg s t s' := by
  cases t with
  | main =>
    obtain ⟨⟨l, e⟩, hl, rfl⟩ := Option.map_eq_some_iff.1 h
    exact .main (mainStep_cases hl)
  | requester i =>
    obtain ⟨⟨l, e⟩, hl, rfl⟩ := Option.map_eq_some_iff.1 h
    exact .requester (requesterStep_cases hl)
  | resolver j =>
    obtain ⟨⟨l, e⟩, hl, rfl⟩ := Option.map_eq_some_iff.1 h
    exact .resolver (resolverStep_cases hl)
  | logger l =>
    obtain ⟨⟨k, e⟩, hk, rfl⟩ := Option.map_eq_some_iff.1 h
    exact .logger (loggerStep_cases hk)
  | outsider q =>
    simp only [State.stmt] at h
    split at h
    · cases h
    · rename_i hc
      rw [Bool.not_eq_true, Bool.not_eq_false'] at hc
      split at h
      · rename_i hq
        split at h <;> cases h
        exact .outsiderDone hc hq (by assumption)
      · rename_i hq
        cases h
        exact .outsiderFree hc (by simpa using hq)

end DnsResolver
