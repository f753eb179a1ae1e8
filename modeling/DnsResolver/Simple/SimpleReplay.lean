import DnsResolver.Simple.SimpleAgreement
import DnsResolver.Threaded.ThreadedErrors
import DnsResolver.Text.LogFormat

/-!
# The log files as data

The bytes that the log threads write (`logText`) stand for what they were made from: the resolver
log tells the hostnames and their answers, and the requester log is a data file with the same
hostnames. So a run on the requester log of a run writes the same logs again. -/

namespace DnsResolver
open Function

variable {R S : Nat} {cfg : Config R S} {s : State R S} {dns : Bytes → Option Bytes}

namespace State

/-- The bytes of a log file. -/
def logText (s : State R S) (k : Logger) : Bytes := logBytes ((s.logfile k).map Str.bytes)

/-! ## The hostnames in the logs -/

/-- The hostname of a line is a text, and not empty. -/
theorem openedLines_text {l : Line} (h : l ∈ s.openedLines cfg) : IsText l.host ∧ l.host ≠ [] := by
  obtain ⟨i, -, hi⟩ := Multiset.mem_sum.1 h
  obtain ⟨k, -, hk⟩ := List.mem_flatMap.1 (Multiset.mem_coe.1 hi)
  have hh : l.host ∈ cfg.hosts k := cfg.fileLines_host i k ▸ List.mem_map_of_mem hk
  unfold Config.hosts at hh
  split at hh
  · obtain ⟨hm, hne⟩ := List.mem_filter.1 hh
    obtain ⟨seg, hs, he⟩ := List.mem_map.1 hm
    exact ⟨he ▸ isText_hostOf hs, by simpa using hne⟩
  · cases hh

theorem written_opened (H : cfg.system.Reachable s) {k : Logger} {x : Str} {l : Line}
    (hx : x ∈ s.logfile k) (hl : x.src = .line l) : l ∈ s.openedLines cfg := by
  have hm : l ∈ linesIn (s.logfile k) := by
    apply List.mem_flatMap.2
    refine ⟨x, hx, ?_⟩
    rw [hl]
    exact List.mem_singleton.2 rfl
  rw [← allLines_reachable H k, allLines]
  exact Multiset.mem_add.2 (.inl (Multiset.mem_add.2 (.inr hm)))

theorem requesterLog_text (H : cfg.system.Reachable s) :
    ∀ h ∈ (s.logfile .requesterLog).map Str.bytes, IsText h ∧ h ≠ [] := by
  intro h hh
  obtain ⟨x, hx, rfl⟩ := List.mem_map.1 hh
  obtain ⟨l, hl, hb⟩ := (wellTyped_reachable H).written .requesterLog x hx
  rw [hb]
  exact openedLines_text (written_opened H hx hl)

/-- What `getline` and `chomp` read from the requester log are the hostnames written to it, none of
them empty. -/
theorem requesterLog_reads (H : cfg.system.Reachable s) {fs : Bytes → Option Bytes} {name : Bytes}
    (hf : fs name = some (s.logText .requesterLog)) :
    hostnames fs [name] = (s.logfile .requesterLog).map Str.bytes ∧
    (hostnames fs [name]).filter (· ≠ []) = hostnames fs [name] := by
  have ht := requesterLog_text H
  have hh : hostnames fs [name] = (s.logfile .requesterLog).map Str.bytes := by
    rw [hostnames, List.flatMap_cons, List.flatMap_nil, List.append_nil, fileHostnames, hf]
    exact hosts_logBytes fun h hh => (ht h hh).1
  refine ⟨hh, ?_⟩
  rw [hh]
  apply List.filter_eq_self.2
  intro h hm
  exact decide_eq_true (ht h hm).2

/-! ## The records in the resolver log -/

/-- The bytes of the resolver log tell which hostnames were looked up and what came of it. -/
theorem resolver_log_unique (hip : ∀ h ip, cfg.answers h (some ip) = true → IsAddress ip)
    (H : cfg.system.Reachable s) : ∃ recs : List (Bytes × Option Bytes),
    recs.map Prod.fst = (linesIn (s.logfile .resolverLog)).map Line.host ∧
    (∀ r ∈ recs, cfg.Resolves r.1 r.2) ∧
    ∀ recs' : List (Bytes × Option Bytes), (∀ r ∈ recs', IsText r.1 ∧ ∀ ip ∈ r.2, IsAddress ip) →
      (s.logText .resolverLog = logBytes (recs'.map fun r => record r.1 r.2) ↔ recs' = recs) := by
  obtain ⟨recs, h1, h2, h3⟩ := linesIn_records ((wellTyped_reachable H).written .resolverLog)
  have hips {h : Bytes} {ip : Option Bytes} (hr : cfg.Resolves h ip) : ∀ a ∈ ip, IsAddress a := by
    rintro a rfl
    rcases hr with hr | ⟨hr, -⟩
    · exact hip _ _ hr
    · cases hr
  have htext : ∀ r ∈ recs, IsText r.1.host := by
    intro r hr
    have hl : r.1 ∈ linesIn (s.logfile .resolverLog) := h1 ▸ List.mem_map_of_mem hr
    obtain ⟨x, hx, hs⟩ := List.mem_flatMap.1 hl
    obtain ⟨l, -, hsrc, -⟩ := (wellTyped_reachable H).written .resolverLog x hx
    rw [hsrc] at hs
    obtain rfl := List.mem_singleton.1 hs
    exact (openedLines_text (written_opened H hx hsrc)).1
  let pairs := recs.map fun r => (r.1.host, r.2)
  have hpairs : ∀ r ∈ pairs, IsText r.1 ∧ cfg.Resolves r.1 r.2 := by
    intro r hr
    obtain ⟨r', hr', rfl⟩ := List.mem_map.1 hr
    exact ⟨htext r' hr', h3 r' hr'⟩
  have hlog : s.logText .resolverLog = logBytes (pairs.map fun r => record r.1 r.2) := by
    rw [logText, h2, List.map_map]
    rfl
  refine ⟨pairs, ?_, fun r hr => (hpairs r hr).2, fun recs' hw => ⟨fun he => ?_, ?_⟩⟩
  · rw [← h1, List.map_map, List.map_map]
    rfl
  · have ha : ∀ r ∈ pairs, ∀ a ∈ r.2, IsAddress a := fun r hr => hips (hpairs r hr).2
    have hrec (rs : List (Bytes × Option Bytes))
        (h : ∀ r ∈ rs, IsText r.1 ∧ ∀ a ∈ r.2, IsAddress a) :
        ∀ m ∈ rs.map fun r => record r.1 r.2, IsText m := by
      intro m hm
      obtain ⟨r, hr, rfl⟩ := List.mem_map.1 hm
      exact record_isText (h r hr).1 (h r hr).2
    have hb := logBytes_inj (hrec pairs fun r hr => ⟨(hpairs r hr).1, ha r hr⟩) (hrec recs' hw)
      (hlog.symm.trans he)
    exact records_inj (fun r hr => (hw r hr).2) ha hb.symm
  · rintro rfl
    exact hlog

/-- The three records of `sample`. -/
theorem resolver_log_unique_sample : ∃ s, sample.system.Reachable s ∧ s.main = .returned ∧
    ∃ recs : List (Bytes × Option Bytes), recs.map Prod.fst = [[97], [98], [99]] ∧
      s.logText .resolverLog = logBytes (recs.map fun r => record r.1 r.2) := by
  have h : ∃ s ∈ schedule sample sampleDns (sampleRun 0 0), s.main = .returned ∧
      (linesIn (s.logfile .resolverLog)).map Line.host = [[97], [98], [99]] := by decide +kernel
  obtain ⟨s, hs, hm, hl⟩ := h
  have H := schedule_reachable hs
  have hip : ∀ h ip, sample.answers h (some ip) = true → IsAddress ip := by
    intro h ip ha
    have hd := sample_reliable.answers _ _ ha
    unfold sampleDns at hd
    split at hd
    · cases hd
      intro b hb
      rw [List.mem_singleton.1 hb]
      rfl
    · cases hd
  obtain ⟨recs, h1, h2, h3⟩ := resolver_log_unique hip H
  rw [hl] at h1
  have hw : ∀ r ∈ recs, IsText r.1 ∧ ∀ ip ∈ r.2, IsAddress ip := by
    intro r hr
    constructor
    · have hm : r.1 ∈ ([[97], [98], [99]] : List Bytes) := h1 ▸ List.mem_map_of_mem hr
      have ht : ∀ h ∈ ([[97], [98], [99]] : List Bytes), newline ∉ h ∧ 0 ∉ h := by decide
      exact ⟨(ht _ hm).1, (ht _ hm).2⟩
    · intro ip hi
      rcases h2 r hr with ha | ⟨hn, -⟩
      · exact hip _ _ (hi ▸ ha)
      · rw [hn] at hi
        cases hi
  exact ⟨s, H, hm, recs, h1, (h3 recs hw).2 rfl⟩

/-! ## A run on the requester log -/

/-- The requester log of a finished run has the hostnames of the data files. -/
theorem returned_requesterLog (hr : cfg.Reliable dns) (H : cfg.system.Reachable s)
    (hm : s.main = .returned) : ((s.logfile .requesterLog).map Str.bytes).Perm
      ((hostnames cfg.fs cfg.files).filter (· ≠ [])) := by
  have hl := returned_lines H hm ⟨⟨0, cfg.resolvers_pos⟩,
    (created_reachable hr.createFails H).resolver _ (by rw [hm]; rfl)⟩ .requesterLog
  have hh := returned_hosts hr.outsiders hr.allocFails hr.createFails hr.openFails H hm
  rw [dropped_nil hr.outsiders hr.allocFails H, Multiset.coe_nil, add_zero] at hl
  rw [← Multiset.coe_eq_coe, ← hh, ← hl, Multiset.map_coe,
    linesIn_bytes ((wellTyped_reachable H).written .requesterLog)]

/-- The requester log is a merge of what the requesters have read. -/
theorem requesterLog_merge (hr : cfg.Reliable dns) (H : cfg.system.Reachable s)
    (hm : s.main = .returned) : IsMerge (fun i => (s.requester i).opened.flatMap cfg.hosts)
      ((s.logfile .requesterLog).map Str.bytes) := by
  have hd := delivered_of_drained H (returned_drained hr.createFails H hm .requesterLogfileQueue)
  have hw := written_lines hr.outsiders hr.allocFails H hm .requesterLog
  have he := (entry_merge hr.outsiders hr.allocFails H hm .requesterLog).map Line.host
  rw [linesIn_bytes ((wellTyped_reachable H).written .requesterLog), hw, deliveredLines]
  change IsMerge _ ((linesIn (s.queue .requesterLogfileQueue).ghost.delivered).map _)
  rw [hd]
  exact he.congr fun i => (hosts_of_lines _ _).symm

/-- A single readable file is read by one requester, in its order. -/
theorem requesterLog_single (hr : cfg.Reliable dns) (H : cfg.system.Reachable s)
    (hm : s.main = .returned) {name : Bytes} (hf : cfg.files = [name])
    (hn : (cfg.fs name).isSome = true) : (s.logfile .requesterLog).map Str.bytes =
      (hostnames cfg.fs [name]).filter (· ≠ []) := by
  have ht := taken_returned hr.outsiders hr.allocFails hr.createFails hr.openFails H hm
  have he : cfg.enqueued cfg.files.length = [0] := by
    rw [hf]
    have h0 : cfg.readable 0 = true := by simp [Config.readable, hf, hn]
    simp [Config.enqueued, h0]
  have hmg := (filePath_reachable H).merge
  rw [ht, he] at hmg
  obtain ⟨i, hi, hk⟩ := hmg.of_singleton
  have ho (k : Fin R) : (s.requester k).opened = s.got k :=
    (opened_returned hr.openFails H hm k).trans (got_returned H hm k).symm
  have hl := (requesterLog_merge hr H hm).eq_of_nil (i := i) ?_
  · rw [hl, ho, hi, ← hf, ← Config.enqueued_hosts, he]
  · intro k hne
    rw [ho, hk k hne]
    rfl

/-- A run on the requester log of a run writes the same requester log again, byte for byte, and the
same records in some order; so does `dnssimple`. -/
theorem replay {R' S' : Nat} {cfg' : Config R' S'} {s' : State R' S'} {name : Bytes}
    (hr : cfg.Reliable dns) (hr' : cfg'.Reliable dns) (H : cfg.system.Reachable s)
    (hm : s.main = .returned) (H' : cfg'.system.Reachable s') (hm' : s'.main = .returned)
    (hf : cfg'.files = [name]) (hfs : cfg'.fs name = some (s.logText .requesterLog)) :
    s'.logText .requesterLog = s.logText .requesterLog ∧
    ((s'.logfile .resolverLog).map Str.bytes).Perm ((s.logfile .resolverLog).map Str.bytes) ∧
    ((s.logfile .resolverLog).map Str.bytes).Perm
      (Simple.main dns cfg'.fs [name]).output.logfile := by
  obtain ⟨hn, hne⟩ := requesterLog_reads H hfs
  have hlog := returned_log hr.answers hr.outsiders hr.allocFails hr.createFails hr.openFails H hm
  have hlog' :=
    returned_log hr'.answers hr'.outsiders hr'.allocFails hr'.createFails hr'.openFails H' hm'
  have hreq := (returned_requesterLog hr H hm).map fun h => record h (dns h)
  rw [hf, hne, hn] at hlog'
  refine ⟨?_, hlog'.trans (hreq.trans hlog.symm), ?_⟩
  · have hs := requesterLog_single hr' H' hm' hf (by rw [hfs]; rfl)
    rw [logText, hs, hne, hn]
    rfl
  · rw [Simple.main_hostnames, hn]
    exact hlog.trans hreq.symm

/-- One requester and one resolver read what `sample` has written to its requester log. -/
def replayed : Config 1 1 where
  arraySize := 8
  two_le := two_le_arraySize
  requesters_pos := Nat.one_pos
  resolvers_pos := Nat.one_pos
  files := [[114]]
  fs n := if n = [114] then some [97, 10, 98, 10, 99, 10] else none
  answers h a := a = sampleDns h

def replayedRun (i j : Fin 1) : List (Tid 1 1 × Nat) := [
  (.main, 24), (.requester i, 82), (.logger .requesterLog, 41), (.resolver j, 70),
  (.logger .resolverLog, 41), (.main, 8), (.requester i, 15), (.logger .requesterLog, 6),
  (.requester i, 6), (.main, 20), (.logger .resolverLog, 6), (.main, 7)]

theorem replayed_reliable : replayed.Reliable sampleDns where
  outsiders := rfl
  allocFails := rfl
  createFails := rfl
  openFails := rfl
  answers _ _ h := of_decide_eq_true h

theorem replay_sample : ∃ s s', sample.system.Reachable s ∧ replayed.system.Reachable s' ∧
    s'.main = .returned ∧ s'.logText .requesterLog = s.logText .requesterLog ∧
    ((s'.logfile .resolverLog).map Str.bytes).Perm ((s.logfile .resolverLog).map Str.bytes) := by
  have h : ∃ s ∈ schedule sample sampleDns (sampleRun 0 0), s.main = .returned ∧
      s.logText .requesterLog = [97, 10, 98, 10, 99, 10] := by decide +kernel
  have h' : ∃ s ∈ schedule replayed sampleDns (replayedRun 0 0), s.main = .returned := by
    decide +kernel
  obtain ⟨s, hs, hm, hl⟩ := h
  obtain ⟨s', hs', hm'⟩ := h'
  have H := schedule_reachable hs
  have H' := schedule_reachable hs'
  obtain ⟨h1, h2, -⟩ := replay sample_reliable replayed_reliable H hm H' hm' rfl
    (congrArg some hl.symm)
  exact ⟨s, s', H, H', hm', h1, h2⟩

end State
end DnsResolver
