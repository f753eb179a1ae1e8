import DnsResolver.Simple.SimpleErrors

/-!
# The two programs from their command lines

`command` is `dnssimple` from its arguments, with the opening of the log file. Given the same data
files the two programs run on the same command lines but for the thread counts, and their log files
are compared as bytes (`end_to_end`). -/

namespace DnsResolver
open Function

theorem emptied_of_not_mem {fs : Bytes → Option Bytes} {created : List Bytes} {name : Bytes}
    (h : name ∉ created) : emptied fs created name = fs name := if_neg h

theorem hostnames_congr {fs fs' : Bytes → Option Bytes} {files : List Bytes}
    (h : ∀ name ∈ files, fs' name = fs name) : hostnames fs' files = hostnames fs files := by
  rw [hostnames, hostnames]
  apply List.flatMap_congr
  intro name hn
  rw [fileHostnames, fileHostnames, h name hn]

namespace Simple

/-- How the program ends: `openLog` says that it has printed that the log file cannot be opened,
and `created` are the files that `fopen` has created or emptied. -/
structure Command where
  result : Result
  openLog : Bool
  created : List Bytes
  deriving DecidableEq

variable (dns fs : Bytes → Option Bytes) (writable : Bytes → Bool)

/-- `main`, for the arguments `argv`. The log file is none of the data files: what the program does
when it comes to read back its own log is left out. -/
def command : List Bytes → Command
  | _ :: log :: files =>
    if files = [] then ⟨⟨.failure, true, {}⟩, false, []⟩
    else
      let r := checkFiles fs files (0, {})
      if r.1 = 0 then ⟨⟨.failure, true, r.2⟩, false, []⟩
      else if writable log = false then ⟨⟨.failure, false, r.2⟩, true, []⟩
      else ⟨⟨.success, false,
        files.foldl (fun o name => (processFile dns fs name o).2) r.2⟩, false, [log]⟩
  | _ => ⟨⟨.failure, true, {}⟩, false, []⟩

variable {dns fs writable}

/-- Where the log file can be opened, the arguments matter only by the data files. -/
theorem command_result {prog log : Bytes} {files : List Bytes} (h : writable log = true) :
    (command dns fs writable (prog :: log :: files)).result = main dns fs files := by
  rw [command, main, h]
  split
  · rfl
  · dsimp only
    split <;> rfl

/-- The program comes to its end when a data file can be read and the log file be written. -/
theorem command_success {argv : List Bytes} :
    (command dns fs writable argv).result.status = .success ↔ ∃ prog log files,
      argv = prog :: log :: files ∧ (∃ name ∈ files, (fs name).isSome = true) ∧
      writable log = true := by
  have hc (files : List Bytes) : (checkFiles fs files (0, {})).1 = 0 ↔
      ¬ ∃ name ∈ files, (fs name).isSome = true := by
    rw [(checkFiles_eq fs files 0 {}).2, Nat.zero_add, List.countP_eq_zero]
    simp
  fun_cases command dns fs writable argv with
  | case1 prog log => simp
  | case2 prog log files hne r hr =>
    rw [show r = _ from rfl, hc] at hr
    simp only [reduceCtorEq, false_iff]
    rintro ⟨prog', log', files', he, hv, -⟩
    simp only [List.cons.injEq] at he
    exact hr (he.2.2 ▸ hv)
  | case3 prog log files hne r hr hw =>
    simp only [reduceCtorEq, false_iff]
    rintro ⟨prog', log', files', he, -, hw'⟩
    simp only [List.cons.injEq] at he
    rw [he.2.1, hw'] at hw
    cases hw
  | case4 prog log files hne r hr hw =>
    rw [show r = _ from rfl, hc, not_not] at hr
    simp only [true_iff]
    exact ⟨prog, log, files, rfl, hr, by simpa using hw⟩
  | case5 argv hn =>
    simp only [reduceCtorEq, false_iff]
    rintro ⟨prog, log, files, rfl, -⟩
    exact hn _ _ _ rfl

end Simple

/-! ## From the command lines to the log files -/

/-- The lines of a file, without their newlines. -/
def linesOfFile (file : Bytes) : List Bytes := (segments file).map hostOf

namespace State

variable {R S : Nat} {cfg : Config R S} {s : State R S} {dns fs : Bytes → Option Bytes}
  {writable : Bytes → Bool}

/-- The lines of the resolver log are the records that have been written to it. -/
theorem resolverLog_lines (hr : cfg.Reliable dns) (hip : ∀ h ip, dns h = some ip → IsAddress ip)
    (H : cfg.system.Reachable s) :
    linesOfFile (s.logText .resolverLog) = (s.logfile .resolverLog).map Str.bytes := by
  apply hosts_logBytes
  intro m hm
  obtain ⟨x, hx, rfl⟩ := List.mem_map.1 hm
  obtain ⟨l, ip, hl, hb, ha⟩ := (wellTyped_reachable H).written .resolverLog x hx
  rw [hb]
  refine record_isText (openedLines_text (written_opened H hx hl)).1 ?_
  rintro a rfl
  rcases ha with ha | ⟨ha, -⟩
  · exact hip _ _ (hr.answers _ _ ha).symm
  · cases ha

/-- The file system when the threads have written the two log files. -/
def filesAfter (s : State R S) (fs : Bytes → Option Bytes) (requesterLog resolverLog : Bytes) :
    Bytes → Option Bytes :=
  update (update fs resolverLog (some (s.logText .resolverLog))) requesterLog
    (some (s.logText .requesterLog))

/-- Where the log files are different files and none is a data file, `dnsthreaded` starts on a
command line with positive thread counts whenever `dnssimple` runs on the same data files, with as
many threads as the numbers say. When its `main` has returned, the file of the requester log has the
lines of the data files that are not empty, and the log of `dnssimple` has the lines of the file of
the resolver log and one for each empty line. -/
theorem end_to_end (prog prog' log requesterLog resolverLog : Bytes) {n m : Nat} {x y : Bytes}
    {files : List Bytes} (hn : 0 < n ∧ n < 2 ^ 31) (hm : 0 < m ∧ m < 2 ^ 31)
    (hx : ∀ b ∈ x.head?, isDigit b = false) (hy : ∀ b ∈ y.head?, isDigit b = false)
    (hlogs : writable requesterLog = true ∧ writable resolverLog = true)
    (hne : requesterLog ≠ resolverLog)
    (hdata : ∀ name ∈ files, name ∉ [requesterLog, resolverLog, log])
    (hip : ∀ h ip, dns h = some ip → IsAddress ip)
    (hs : (Simple.command dns fs writable (prog' :: log :: files)).result.status = .success) :
    (∃ (o : StartOutput) (a : Args fs), start fs writable (prog :: (decimal n ++ x) ::
        (decimal m ++ y) :: requesterLog :: resolverLog :: files) = (o, some a) ∧
      a.requesters = n ∧ a.resolvers = m ∧ a.files = files ∧
      o.created = [requesterLog, resolverLog]) ∧
    ∀ (cfg : Config n m) (s : State n m), cfg.files = files →
      cfg.fs = emptied fs [requesterLog, resolverLog] → cfg.Reliable dns →
      cfg.system.Reachable s → s.main = .returned →
      ∃ r v, s.filesAfter cfg.fs requesterLog resolverLog requesterLog = some r ∧
        s.filesAfter cfg.fs requesterLog resolverLog resolverLog = some v ∧
        (linesOfFile r).Perm ((hostnames fs files).filter (· ≠ [])) ∧
        (Simple.command dns fs writable (prog' :: log :: files)).result.output.logfile.Perm
          (linesOfFile v ++ List.replicate (emptyLines fs files) (record [] (dns []))) := by
  obtain ⟨_, _, _, he, hv, hw⟩ := Simple.command_success.1 hs
  simp only [List.cons.injEq] at he
  obtain ⟨-, rfl, rfl⟩ := he
  constructor
  · let a : Args fs := ⟨n, m, requesterLog, resolverLog, files, hn.1, hm.1, hv⟩
    have hstart := start_of_accepted (a := a) ⟨⟨prog, _, _, rfl, atoi_decimal hn.2 hx,
      atoi_decimal hm.2 hy⟩, hlogs.1, hlogs.2⟩
    refine ⟨_, a, Prod.ext rfl hstart, rfl, rfl, rfl, ?_⟩
    exact congrArg StartOutput.created (start_some (Prod.ext rfl hstart)).2
  intro cfg s hf hfs hr H hret
  have hhost : hostnames cfg.fs files = hostnames fs files := by
    apply hostnames_congr
    intro name hname
    have := hdata name hname
    rw [hfs]
    apply emptied_of_not_mem
    simp only [List.mem_cons, not_or] at this ⊢
    exact ⟨this.1, this.2.1, by simp⟩
  have ht := requesterLog_text H
  have hreq : linesOfFile (s.logText .requesterLog) = (s.logfile .requesterLog).map Str.bytes :=
    hosts_logBytes fun h hh => (ht h hh).1
  have hperm := returned_requesterLog hr H hret
  have hlog := returned_log hr.answers hr.outsiders hr.allocFails hr.createFails hr.openFails H hret
  rw [hf, hhost] at hperm hlog
  refine ⟨_, _, update_self .., (update_of_ne hne.symm ..).trans (update_self ..), hreq ▸ hperm, ?_⟩
  rw [Simple.command_result hw, Simple.main_hostnames, resolverLog_lines hr hip H]
  refine ((hostnames_perm fs files).map _).trans ?_
  rw [List.map_append, List.map_replicate]
  exact hlog.symm.append_right _

/-- `sample` after its log files `r` and `v` have been created. -/
def sampleStarted : Config 1 1 := { sample with fs := emptied sample.fs [[114], [118]] }

theorem end_to_end_sample : ∃ s r v, sampleStarted.system.Reachable s ∧ s.main = .returned ∧
    s.filesAfter sampleStarted.fs [114] [118] [114] = some r ∧
    s.filesAfter sampleStarted.fs [114] [118] [118] = some v ∧
    (linesOfFile r).Perm [[97], [98], [99]] ∧
    (Simple.command sampleDns sample.fs (fun _ => true) ([] :: [108] :: sample.files)
      ).result.output.logfile.Perm (linesOfFile v ++ [record [] none]) := by
  have h : ∃ s ∈ schedule sampleStarted sampleDns (sampleRun 0 0), s.main = .returned := by
    decide +kernel
  obtain ⟨s, hs, hm⟩ := h
  have hr : sampleStarted.Reliable sampleDns := ⟨rfl, rfl, rfl, rfl, sample_reliable.answers⟩
  have hip : ∀ h ip, sampleDns h = some ip → IsAddress ip := by
    intro h ip hd
    unfold sampleDns at hd
    split at hd
    · cases hd
      intro b hb
      rw [List.mem_singleton.1 hb]
      rfl
    · cases hd
  have hv : (Simple.command sampleDns sample.fs (fun _ => true)
      ([] :: [108] :: sample.files)).result.status = .success :=
    Simple.command_success.2 ⟨_, _, _, rfl, ⟨[102], by decide, rfl⟩, rfl⟩
  have he : emptyLines sample.fs sample.files = 1 := by decide +kernel
  have hh : (hostnames sample.fs sample.files).filter (· ≠ []) = [[97], [98], [99]] := by
    decide +kernel
  obtain ⟨-, hall⟩ := end_to_end [] [] [108] [114] [118] (n := 1) (m := 1) (x := []) (y := [])
    (by decide) (by decide) (by simp) (by simp) ⟨rfl, rfl⟩ (by decide) (by decide) hip hv
  obtain ⟨r, v, h1, h2, h3, h4⟩ := hall sampleStarted s rfl rfl hr (schedule_reachable hs) hm
  rw [hh] at h3
  rw [he] at h4
  exact ⟨s, r, v, schedule_reachable hs, hm, h1, h2, h3, h4⟩

end State
end DnsResolver
