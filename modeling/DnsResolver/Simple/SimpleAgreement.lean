import DnsResolver.Simple.SimpleDefs
import DnsResolver.Threaded.ThreadedOrder

/-!
# The two programs

For one answer of the system resolver to each hostname, the logs of `dnsthreaded` and of
`dnssimple` for the same files are compared. `dnssimple` logs a record for an empty line too. -/

namespace DnsResolver
open Function

variable {R S : Nat} {cfg : Config R S} {s : State R S}

/-- What the lines of a file stand for, empty lines included. -/
def fileHostnames (fs : Bytes → Option Bytes) (name : Bytes) : List Bytes :=
  match fs name with
  | some file => (segments file).map hostOf
  | none => []

def hostnames (fs : Bytes → Option Bytes) (files : List Bytes) : List Bytes :=
  files.flatMap (fileHostnames fs)

/-- No line of a readable file is empty as a C string. -/
def NoEmptyLine (fs : Bytes → Option Bytes) (files : List Bytes) : Prop :=
  ∀ name ∈ files, ∀ file, fs name = some file → ∀ line ∈ segments file, hostOf line ≠ []

theorem noEmptyLine_iff {fs : Bytes → Option Bytes} {files : List Bytes} :
    NoEmptyLine fs files ↔ ∀ h ∈ hostnames fs files, h ≠ [] := by
  constructor
  · intro H h hh
    obtain ⟨name, hn, hh⟩ := List.mem_flatMap.1 hh
    unfold fileHostnames at hh
    split at hh
    · rename_i file hf
      obtain ⟨line, hl, rfl⟩ := List.mem_map.1 hh
      exact H name hn file hf line hl
    · cases hh
  · intro H name hn file hf line hl
    refine H _ (List.mem_flatMap.2 ⟨name, hn, ?_⟩)
    rw [fileHostnames, hf]
    exact List.mem_map_of_mem hl

theorem Simple.main_hostnames (dns fs : Bytes → Option Bytes) (files : List Bytes) :
    (Simple.main dns fs files).output.logfile =
      (hostnames fs files).map fun h => record h (dns h) := by
  rw [Simple.main_logfile, hostnames, List.map_flatMap]
  refine congrArg (List.flatMap · files) (funext fun name => ?_)
  unfold Simple.fileRecords fileHostnames
  cases fs name with
  | none => rfl
  | some file =>
    rw [List.map_map]
    rfl

theorem flatMap_range {α β : Type} (xs : List α) (f : α → List β) :
    (List.range xs.length).flatMap (fun i => xs[i]?.elim [] f) = xs.flatMap f := by
  induction xs using List.reverseRecOn with
  | nil => rfl
  | append_singleton xs x ih =>
    rw [List.length_append, List.length_singleton, List.range_succ, List.flatMap_append,
      List.flatMap_append, ← ih]
    congr 1
    · refine List.flatMap_congr fun i hi => ?_
      rw [List.getElem?_append_left (List.mem_range.1 hi)]
    · simp

namespace Config

/-- The hostnames of a file of the command line. -/
theorem hosts_eq (cfg : Config R S) (i : Nat) : cfg.hosts i =
    cfg.files[i]?.elim [] fun name => (fileHostnames cfg.fs name).filter (· ≠ []) := by
  unfold hosts contents fileHostnames
  cases cfg.files[i]? with
  | none => rfl
  | some name =>
    rw [Option.bind_some, Option.elim_some]
    cases cfg.fs name <;> rfl

/-- The readable files in their order have the hostnames of all files. -/
theorem enqueued_hosts (cfg : Config R S) : (cfg.enqueued cfg.files.length).flatMap cfg.hosts =
    (hostnames cfg.fs cfg.files).filter (· ≠ []) := by
  have h0 : ∀ i, cfg.readable i = false → cfg.hosts i = [] := fun i hr => by
    unfold readable at hr
    unfold hosts contents
    cases hf : cfg.files[i]? with
    | none => rfl
    | some name =>
      rw [hf] at hr
      simp_all
  calc (cfg.enqueued cfg.files.length).flatMap cfg.hosts
      = (List.range cfg.files.length).flatMap cfg.hosts := by
        rw [enqueued]
        induction List.range cfg.files.length with
        | nil => rfl
        | cons i is ih =>
          rw [List.filter_cons, List.flatMap_cons, ← ih]
          split
          · rfl
          · rename_i hr
            rw [h0 i (Bool.not_eq_true _ ▸ hr)]
            rfl
    _ = cfg.files.flatMap fun name => (fileHostnames cfg.fs name).filter (· ≠ []) := by
        rw [funext (hosts_eq cfg), flatMap_range]
    _ = (hostnames cfg.fs cfg.files).filter (· ≠ []) := by
        rw [hostnames, List.filter_flatMap]

end Config

namespace State

theorem openedLines_host (cfg : Config R S) (s : State R S) :
    (s.openedLines cfg).map Line.host = (∑ i, ((s.requester i).opened : Multiset Nat)).bind
      fun k => (cfg.hosts k : Multiset Bytes) := by
  have h := map_sum (Multiset.mapAddMonoidHom Line.host)
    (fun i => ((s.requester i).opened.flatMap (cfg.fileLines i) : Multiset Line)) Finset.univ
  rw [sum_bind]
  refine h.trans (Finset.sum_congr rfl fun i _ => ?_)
  rw [Multiset.coe_mapAddMonoidHom, Multiset.map_coe, hosts_of_lines, Multiset.coe_bind]

/-- The hostnames of a finished run in which nothing has failed. -/
theorem returned_hosts (ho : cfg.outsiders = false) (ha : cfg.allocFails = false)
    (hc : cfg.createFails = false) (hopen : cfg.openFails = false) (H : cfg.system.Reachable s)
    (hm : s.main = .returned) :
    (s.openedLines cfg).map Line.host = (hostnames cfg.fs cfg.files).filter (· ≠ []) := by
  have h : ∑ i, ((s.requester i).opened : Multiset Nat) = cfg.enqueued cfg.files.length := by
    rw [← taken_returned ho ha hc hopen H hm, ← (filePath_reachable H).merge.sum_eq]
    refine Finset.sum_congr rfl fun i _ => ?_
    rw [got_returned H hm, opened_returned hopen H hm]
  rw [openedLines_host, h, Multiset.coe_bind, Config.enqueued_hosts]

/-- The resolver log of a finished run, for one answer to each hostname. -/
theorem returned_log {dns : Bytes → Option Bytes}
    (hdns : ∀ h ip, cfg.answers h ip = true → ip = dns h) (ho : cfg.outsiders = false)
    (ha : cfg.allocFails = false) (hc : cfg.createFails = false) (hopen : cfg.openFails = false)
    (H : cfg.system.Reachable s) (hm : s.main = .returned) :
    ((s.logfile .resolverLog).map Str.bytes).Perm
      (((hostnames cfg.fs cfg.files).filter (· ≠ [])).map fun h => record h (dns h)) := by
  have hw : ∀ x ∈ s.logfile .resolverLog,
      ∃ l, x.src = .line l ∧ x.bytes = record l.host (dns l.host) := fun x hx => by
    obtain ⟨l, ip, h1, h2, h3⟩ := (wellTyped_reachable H).written .resolverLog x hx
    rcases h3 with h3 | ⟨-, h3⟩
    · exact ⟨l, h1, hdns _ _ h3 ▸ h2⟩
    · exact absurd (ha.symm.trans h3) nofun
  have hl := returned_lines H hm ⟨⟨0, cfg.resolvers_pos⟩,
    (created_reachable hc H).resolver _ (by rw [hm]; rfl)⟩ .resolverLog
  rw [dropped_nil ho ha H, Multiset.coe_nil, add_zero] at hl
  rw [linesIn_bytes hw, ← Multiset.coe_eq_coe]
  calc ((linesIn (s.logfile .resolverLog)).map fun l => record l.host (dns l.host) : Multiset Bytes)
      = ((s.openedLines cfg).map Line.host).map fun h => record h (dns h) := by
        rw [← hl, Multiset.map_coe, Multiset.map_coe, List.map_map]
        rfl
    _ = ((hostnames cfg.fs cfg.files).filter (· ≠ [])).map fun h => record h (dns h) := by
        rw [returned_hosts ho ha hc hopen H hm, Multiset.map_coe]

/-- The two logs have the same lines exactly when no line of the files is empty. -/
theorem logs_agree_iff {dns : Bytes → Option Bytes}
    (hdns : ∀ h ip, cfg.answers h ip = true → ip = dns h) (ho : cfg.outsiders = false)
    (ha : cfg.allocFails = false) (hc : cfg.createFails = false) (hopen : cfg.openFails = false)
    (H : cfg.system.Reachable s) (hm : s.main = .returned) :
    ((s.logfile .resolverLog).map Str.bytes).Perm
      (Simple.main dns cfg.fs cfg.files).output.logfile ↔ NoEmptyLine cfg.fs cfg.files := by
  have hlog := returned_log hdns ho ha hc hopen H hm
  rw [Simple.main_hostnames, noEmptyLine_iff]
  constructor
  · intro hp
    have hlen := (hlog.symm.trans hp).length_eq
    rw [List.length_map, List.length_map, List.length_filter_eq_length_iff] at hlen
    intro h hh
    exact of_decide_eq_true (hlen h hh)
  · intro hne
    refine hlog.trans (List.Perm.of_eq (congrArg _ ?_))
    exact List.filter_eq_self.2 fun h hh => decide_eq_true (hne h hh)

/-- One requester and one resolver read one data file; no hostname has an address. -/
def oneFile (file : Bytes) : Config 1 1 where
  arraySize := 8
  two_le := two_le_arraySize
  requesters_pos := Nat.one_pos
  resolvers_pos := Nat.one_pos
  files := [[102]]
  fs n := if n = [102] then some file else none
  answers _ a := a = none

/-- A run of `oneFile` to its end for a file with one hostname, on line 1; `n` is the number of
steps that the requester takes to the end of the file after that line. -/
def oneFileRun (i j : Fin 1) (n : Nat) : List (Tid 1 1 × Nat) := [
  (.main, 1), (.logger .requesterLog, 4), (.main, 1), (.logger .resolverLog, 4), (.main, 3),
  (.requester i, 4), (.main, 9), (.requester i, 19), (.logger .requesterLog, 16),
  (.requester i, n), (.main, 3), (.resolver j, 19), (.logger .resolverLog, 16), (.resolver j, 6),
  (.main, 8), (.requester i, 15), (.resolver j, 6), (.requester i, 12),
  (.logger .requesterLog, 6), (.requester i, 6), (.main, 25), (.logger .resolverLog, 6),
  (.main, 7)]

theorem logs_agree_one_line : ∃ s, (oneFile [97, 10]).system.Reachable s ∧ s.main = .returned ∧
    ((s.logfile .resolverLog).map Str.bytes).Perm
      (Simple.main (fun _ => none) (oneFile [97, 10]).fs (oneFile [97, 10]).files).output.logfile := by
  have h : ∃ s ∈ schedule (oneFile [97, 10]) (fun _ => none) (oneFileRun 0 0 15),
      s.main = .returned := by decide +kernel
  obtain ⟨s, hs, hm⟩ := h
  have hr := schedule_reachable hs
  have hn : NoEmptyLine (oneFile [97, 10]).fs (oneFile [97, 10]).files :=
    noEmptyLine_iff.2 (by decide +kernel)
  exact ⟨s, hr, hm, (logs_agree_iff (fun _ _ => of_decide_eq_true) rfl rfl rfl rfl hr hm).2 hn⟩

/-- For a file with an empty line `dnssimple` writes a record more. -/
theorem not_always_agree : ¬ ∀ (cfg : Config 1 1) (dns : Bytes → Option Bytes) (s : State 1 1),
    (∀ name ∈ cfg.files, (cfg.fs name).isSome = true) →
    (∀ h ip, cfg.answers h ip = true ↔ ip = dns h) → cfg.outsiders = false →
    cfg.allocFails = false → cfg.createFails = false → cfg.openFails = false →
    cfg.system.Reachable s → s.main = .returned →
    ((s.logfile .resolverLog).map Str.bytes).Perm
      (Simple.main dns cfg.fs cfg.files).output.logfile := by
  intro H
  have h : ∃ s ∈ schedule (oneFile [97, 10, 10]) (fun _ => none) (oneFileRun 0 0 16),
      s.main = .returned ∧ (s.logfile .resolverLog).length = 1 := by decide +kernel
  obtain ⟨s, hs, hm, hlen⟩ := h
  have hp := H (oneFile [97, 10, 10]) (fun _ => none) s (by decide)
    (fun _ _ => decide_eq_true_iff) rfl rfl rfl rfl (schedule_reachable hs) hm
  rw [Simple.main_hostnames] at hp
  have hlen' := hp.length_eq
  rw [List.length_map, hlen, List.length_map] at hlen'
  revert hlen'
  decide +kernel

end State
end DnsResolver
