import DnsResolver.Simple.SimpleReplay
import DnsResolver.Threaded.ThreadedMain

/-!
# What the two programs print and write for the same files

`dnssimple` has a record, and a message if there is no address, for every line of its files, and
two messages for every file that it cannot open (`main_stderr`). `dnsthreaded` leaves out the empty
lines and has one such message, before it starts its threads. -/

namespace DnsResolver
open Function

/-- How many lines of the data files are empty as C strings. -/
def emptyLines (fs : Bytes → Option Bytes) (files : List Bytes) : Nat :=
  (hostnames fs files).count []

namespace Simple

variable {dns fs : Bytes → Option Bytes}

/-- The hostname of a message of `dns_resolve`. -/
def Diag.unresolved : Diag → Option Bytes
  | .getaddrinfo host => some host
  | .invalidFile _ => none

/-- The name in a message about a file that cannot be opened. -/
def Diag.unopened : Diag → Option Bytes
  | .getaddrinfo _ => none
  | .invalidFile name => some name

/-- The messages about the hostnames of a list that have no address. -/
def lookupErrors (dns : Bytes → Option Bytes) (hosts : List Bytes) : List Diag :=
  (hosts.filter fun h => dns h = none).map .getaddrinfo

/-- The messages of `process_file`. -/
def fileErrors (dns fs : Bytes → Option Bytes) (name : Bytes) : List Diag :=
  match fs name with
  | some file => lookupErrors dns ((segments file).map hostOf)
  | none => [.invalidFile name]

/-! ## The messages of `dnssimple` -/

theorem dnsResolve_stderr (dns : Bytes → Option Bytes) (hostname : Bytes) (o : Output) :
    (dnsResolve dns hostname o).2.stderr = o.stderr ++ lookupErrors dns [hostname] := by
  unfold dnsResolve lookupErrors
  cases h : dns hostname <;> simp [h]

theorem processLines_stderr (file : Bytes) (o : Output) : (processLines dns file o).stderr =
    o.stderr ++ lookupErrors dns ((segments file).map hostOf) := by
  fun_induction processLines dns file o with
  | case1 file o h =>
    rw [getline_eq_none] at h
    subst h
    exact (List.append_nil _).symm
  | case2 file o line rest h _ hostname ip o' ho ih =>
    have h1 := dnsResolve_stderr dns (hostOf line) o
    rw [ho] at h1
    have h2 : lookupErrors dns ((segments file).map hostOf) =
        lookupErrors dns [hostOf line] ++ lookupErrors dns ((segments rest).map hostOf) := by
      rw [segments_getline h, lookupErrors, lookupErrors, lookupErrors, ← List.map_append,
        ← List.filter_append]
      rfl
    rw [ih, h2, ← List.append_assoc, ← h1]

theorem processFile_stderr (name : Bytes) (o : Output) :
    (processFile dns fs name o).2.stderr = o.stderr ++ fileErrors dns fs name := by
  unfold processFile fileErrors
  cases fs name with
  | none => rfl
  | some file => exact processLines_stderr ..

theorem processFiles_stderr (files : List Bytes) (o : Output) :
    (files.foldl (fun o name => (processFile dns fs name o).2) o).stderr =
      o.stderr ++ files.flatMap (fileErrors dns fs) := by
  induction files generalizing o with
  | nil => exact (List.append_nil _).symm
  | cons name files ih =>
    rw [List.foldl_cons, ih, processFile_stderr, List.flatMap_cons, List.append_assoc]

theorem checkFiles_stderr (fs : Bytes → Option Bytes) (files : List Bytes) (valid : Nat)
    (o : Output) : (checkFiles fs files (valid, o)).2.stderr =
      o.stderr ++ (unreadable fs files).map .invalidFile := by
  induction files generalizing valid o with
  | nil => exact (List.append_nil _).symm
  | cons name files ih =>
    rw [checkFiles, unreadable, List.filter_cons]
    cases h : fs name with
    | none => simp [ih, unreadable]
    | some file => simp [ih, unreadable]

/-- All messages of a run of `dnssimple`. -/
theorem main_stderr {files : List Bytes} (h : ∃ name ∈ files, (fs name).isSome = true) :
    (main dns fs files).output.stderr =
      (unreadable fs files).map .invalidFile ++ files.flatMap (fileErrors dns fs) := by
  obtain ⟨name, hm, hn⟩ := h
  obtain ⟨-, h2⟩ := checkFiles_eq fs files 0 {}
  have h3 := checkFiles_stderr fs files 0 {}
  have hpos : 0 < files.countP fun name => (fs name).isSome := List.countP_pos_iff.2 ⟨name, hm, hn⟩
  unfold main
  rw [if_neg (List.ne_nil_of_mem hm)]
  generalize checkFiles fs files (0, {}) = r at h2 h3
  obtain ⟨valid, o⟩ := r
  dsimp only at h2 h3 ⊢
  rw [if_neg (by omega), processFiles_stderr, h3]
  rfl

theorem lookupErrors_unresolved (dns : Bytes → Option Bytes) (hosts : List Bytes) :
    (lookupErrors dns hosts).filterMap Diag.unresolved = hosts.filter fun h => dns h = none := by
  rw [lookupErrors, List.filterMap_map]
  exact List.filterMap_some

theorem lookupErrors_unopened (dns : Bytes → Option Bytes) (hosts : List Bytes) :
    (lookupErrors dns hosts).filterMap Diag.unopened = [] := by
  rw [lookupErrors, List.filterMap_map]
  exact List.filterMap_eq_nil_iff.2 fun _ _ => rfl

theorem invalidFile_unresolved (names : List Bytes) :
    (names.map Diag.invalidFile).filterMap Diag.unresolved = [] := by
  rw [List.filterMap_map]
  exact List.filterMap_eq_nil_iff.2 fun _ _ => rfl

theorem invalidFile_unopened (names : List Bytes) :
    (names.map Diag.invalidFile).filterMap Diag.unopened = names := by
  rw [List.filterMap_map]
  exact List.filterMap_some

/-- The hostnames that `dnssimple` reports, and the files. -/
theorem main_errors {files : List Bytes} (h : ∃ name ∈ files, (fs name).isSome = true) :
    (main dns fs files).output.stderr.filterMap Diag.unresolved =
      (hostnames fs files).filter (fun h => dns h = none) ∧
    (main dns fs files).output.stderr.filterMap Diag.unopened =
      unreadable fs files ++ unreadable fs files := by
  rw [main_stderr h, List.filterMap_append, List.filterMap_append, invalidFile_unresolved,
    invalidFile_unopened, List.nil_append]
  clear h
  have hf (name : Bytes) : (fileErrors dns fs name).filterMap Diag.unresolved =
      (fileHostnames fs name).filter (fun h => dns h = none) ∧
      (fileErrors dns fs name).filterMap Diag.unopened = unreadable fs [name] := by
    unfold fileErrors fileHostnames unreadable
    cases hn : fs name with
    | none => simp [hn, Diag.unresolved, Diag.unopened]
    | some file =>
      exact ⟨lookupErrors_unresolved .., by simp [hn, lookupErrors_unopened]⟩
  constructor
  · rw [hostnames, List.filterMap_flatMap, List.filter_flatMap]
    simp only [hf]
  · rw [List.filterMap_flatMap, List.append_cancel_left_eq]
    simp only [hf]
    induction files with
    | nil => rfl
    | cons name files ih =>
      rw [List.flatMap_cons, ih, unreadable, unreadable, unreadable, ← List.filter_append]
      rfl

end Simple

/-! ## Both programs -/

/-- The hostnames of the data files are those of the lines that are not empty, and the empty
ones. -/
theorem hostnames_perm (fs : Bytes → Option Bytes) (files : List Bytes) : (hostnames fs files).Perm
    ((hostnames fs files).filter (· ≠ []) ++ List.replicate (emptyLines fs files) []) := by
  have h := (List.filter_append_perm (fun h : Bytes => decide (h ≠ [])) (hostnames fs files)).symm
  refine h.trans (List.Perm.of_eq ?_)
  congr 1
  rw [emptyLines, ← List.filter_beq]
  apply List.filter_congr
  intro x _
  cases x <;> simp

namespace State

variable {R S : Nat} {cfg : Config R S} {s : State R S} {dns : Bytes → Option Bytes}

/-- For the same files `dnssimple` writes the records of `dnsthreaded`, and one for each empty line;
it reports the same hostnames without an address. Before it goes on `dnsthreaded` names each
unreadable file, and after that nothing but hostnames without an address; `dnssimple` names each
unreadable file twice. -/
theorem same_files (hr : cfg.Reliable dns) (H : cfg.system.Reachable s) (hm : s.main = .returned)
    (hv : ∃ name ∈ cfg.files, (cfg.fs name).isSome = true) :
    let o := (Simple.main dns cfg.fs cfg.files).output
    let empty := emptyLines cfg.fs cfg.files
    o.logfile.Perm ((s.logfile .resolverLog).map Str.bytes ++
      List.replicate empty (record [] (dns []))) ∧
    (∀ argv writable o a, start cfg.fs writable argv = (o, some a) → a.files = cfg.files →
      o.stderr = (unreadable cfg.fs cfg.files).map .invalidFile) ∧
    (∀ d ∈ s.stderr, d.unresolved.isSome = true) ∧
    (o.stderr.filterMap Simple.Diag.unresolved).Perm
      (s.unresolved ++ List.replicate (if dns [] = none then empty else 0) []) ∧
    o.stderr.filterMap Simple.Diag.unopened =
      unreadable cfg.fs cfg.files ++ unreadable cfg.fs cfg.files := by
  obtain ⟨h1, h2⟩ := Simple.main_errors hv
  have hp := hostnames_perm cfg.fs cfg.files
  refine ⟨?_, ?_, (reliable_reachable hr H).2, ?_, h2⟩
  · have hlog := returned_log hr.answers hr.outsiders hr.allocFails hr.createFails hr.openFails H hm
    rw [Simple.main_hostnames]
    refine (hp.map _).trans ?_
    rw [List.map_append, List.map_replicate]
    exact hlog.symm.append_right _
  · intro argv writable o a hstart hf
    rw [← hf]
    exact congrArg StartOutput.stderr (start_some hstart).2
  · have hu := returned_unresolved hr H hm
    rw [returned_hosts hr.outsiders hr.allocFails hr.createFails hr.openFails H hm,
      Multiset.filter_coe, Multiset.coe_eq_coe] at hu
    rw [h1]
    refine (hp.filter _).trans ?_
    rw [List.filter_append]
    refine (hu.symm.append_right _).trans (List.Perm.of_eq (congrArg _ ?_))
    split
    · rename_i h0
      apply List.filter_eq_self.2
      intro x hx
      rw [List.eq_of_mem_replicate hx]
      simpa using h0
    · rename_i h0
      apply List.filter_eq_nil_iff.2
      intro x hx
      rw [List.eq_of_mem_replicate hx]
      simpa using h0

/-- The first file of `sample` has an empty line, and the second cannot be read. -/
theorem same_files_sample : ∃ s, sample.system.Reachable s ∧ s.main = .returned ∧
    (Simple.main sampleDns sample.fs sample.files).output.logfile.Perm
      ((s.logfile .resolverLog).map Str.bytes ++ [record [] none]) ∧
    (∀ argv writable o a, start sample.fs writable argv = (o, some a) → a.files = sample.files →
      o.stderr = [.invalidFile [103]]) ∧
    (Simple.main sampleDns sample.fs sample.files).output.stderr.filterMap Simple.Diag.unopened =
      [[103], [103]] := by
  have h : ∃ s ∈ schedule sample sampleDns (sampleRun 0 0), s.main = .returned := by decide +kernel
  obtain ⟨s, hs, hm⟩ := h
  have H := schedule_reachable hs
  have he : emptyLines sample.fs sample.files = 1 := by decide +kernel
  obtain ⟨h1, h2, -, -, h3⟩ := same_files sample_reliable H hm ⟨[102], by decide, rfl⟩
  rw [he] at h1
  exact ⟨s, H, hm, h1, h2, h3⟩

end State
end DnsResolver
