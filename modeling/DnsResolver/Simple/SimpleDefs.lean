import DnsResolver.Text.Lines

/-!
# `dnssimple.c`

The sequential program, from its arguments to its log file and error output. What `getaddrinfo`
answers is the function `dns` (the first address as a string, or an error), and `fs` gives the
contents of the readable files. The log file can be opened and no allocation fails; signals and
the time report are left out. -/

namespace DnsResolver.Simple

/-- The messages on the standard error output. -/
inductive Diag
  | getaddrinfo (hostname : Bytes)
  | invalidFile (filename : Bytes)
  deriving DecidableEq

/-- What has been written; a line of the log file is without its newline. -/
structure Output where
  logfile : List Bytes := []
  stderr : List Diag := []
  deriving DecidableEq

/-- The exit status. -/
inductive Status
  | success
  | failure
  deriving DecidableEq

/-- How the program ends; `usage` says that it has printed the usage line. -/
structure Result where
  status : Status
  usage : Bool
  output : Output
  deriving DecidableEq

section
variable (dns fs : Bytes → Option Bytes)

/-- `dns_resolve` -/
def dnsResolve (hostname : Bytes) (o : Output) : Option Bytes × Output :=
  match dns hostname with
  | some ip => (some ip, o)
  | none => (none, { o with stderr := o.stderr ++ [.getaddrinfo hostname] })

/-- The loop of `process_file`. -/
def processLines (file : Bytes) (o : Output) : Output :=
  match h : getline file with
  | none => o
  | some (line, rest) =>
    have := getline_length h
    let hostname := hostOf line
    let (ip, o) := dnsResolve dns hostname o
    processLines rest { o with logfile := o.logfile ++ [record hostname ip] }
termination_by file.length

/-- `process_file` -/
def processFile (filename : Bytes) (o : Output) : Int × Output :=
  match fs filename with
  | none => (-1, { o with stderr := o.stderr ++ [.invalidFile filename] })
  | some file => (0, processLines dns file o)

/-- The test of the data files before the log file is opened; it counts `valid_files`. -/
def checkFiles : List Bytes → Nat × Output → Nat × Output
  | [], r => r
  | name :: files, (valid, o) =>
    if (fs name).isSome then checkFiles files (valid + 1, o)
    else checkFiles files (valid, { o with stderr := o.stderr ++ [.invalidFile name] })

/-- `main`, with the data files `argv[2]`, … -/
def main (files : List Bytes) : Result :=
  if files = [] then ⟨.failure, true, {}⟩
  else
    let (valid, o) := checkFiles fs files (0, {})
    if valid = 0 then ⟨.failure, true, o⟩
    else ⟨.success, false, files.foldl (fun o name => (processFile dns fs name o).2) o⟩

end

/-! ## The log -/

variable {dns fs : Bytes → Option Bytes}

/-- The records that `process_file` writes for a file. -/
def fileRecords (dns fs : Bytes → Option Bytes) (name : Bytes) : List Bytes :=
  match fs name with
  | some file => (segments file).map fun line => record (hostOf line) (dns (hostOf line))
  | none => []

theorem dnsResolve_eq (dns : Bytes → Option Bytes) (hostname : Bytes) (o : Output) :
    (dnsResolve dns hostname o).1 = dns hostname ∧
    (dnsResolve dns hostname o).2.logfile = o.logfile := by
  unfold dnsResolve
  split <;> rename_i h <;> exact ⟨h.symm, rfl⟩

/-- The loop writes one record for each line of the file, empty or not. -/
theorem processLines_logfile (file : Bytes) (o : Output) : (processLines dns file o).logfile =
    o.logfile ++ (segments file).map fun line => record (hostOf line) (dns (hostOf line)) := by
  fun_induction processLines dns file o with
  | case1 file o h =>
    rw [getline_eq_none] at h
    subst h
    exact (List.append_nil _).symm
  | case2 file o line rest h _ hostname ip o' ho ih =>
    obtain ⟨h1, h2⟩ := dnsResolve_eq dns (hostOf line) o
    rw [ho] at h1 h2
    rw [ih, segments_getline h, List.map_cons, List.append_assoc, ← h1, ← h2]
    rfl

theorem processFile_logfile (name : Bytes) (o : Output) :
    (processFile dns fs name o).2.logfile = o.logfile ++ fileRecords dns fs name := by
  unfold processFile fileRecords
  cases fs name with
  | none => exact (List.append_nil _).symm
  | some file => exact processLines_logfile ..

theorem processFiles_logfile (files : List Bytes) (o : Output) :
    (files.foldl (fun o name => (processFile dns fs name o).2) o).logfile =
      o.logfile ++ files.flatMap (fileRecords dns fs) := by
  induction files generalizing o with
  | nil => exact (List.append_nil _).symm
  | cons name files ih =>
    rw [List.foldl_cons, ih, processFile_logfile, List.flatMap_cons, List.append_assoc]

/-- The test counts the readable files and leaves the log file alone. -/
theorem checkFiles_eq (fs : Bytes → Option Bytes) (files : List Bytes) (valid : Nat) (o : Output) :
    (checkFiles fs files (valid, o)).2.logfile = o.logfile ∧
    (checkFiles fs files (valid, o)).1 = valid + files.countP fun name => (fs name).isSome := by
  induction files generalizing valid o with
  | nil => exact ⟨rfl, rfl⟩
  | cons name files ih =>
    rw [checkFiles, List.countP_cons]
    split
    · have := ih (valid + 1) o
      exact ⟨this.1, this.2.trans (by omega)⟩
    · exact ih valid _

/-- The log of `dnssimple` is the records of its files in their order. -/
theorem main_logfile (files : List Bytes) :
    (main dns fs files).output.logfile = files.flatMap (fileRecords dns fs) := by
  obtain ⟨h1, h2⟩ := checkFiles_eq fs files 0 {}
  unfold main
  split
  · rename_i h
    rw [h]
    rfl
  · generalize checkFiles fs files (0, {}) = r at h1 h2
    obtain ⟨valid, o⟩ := r
    dsimp only at h1 h2 ⊢
    split
    · rename_i hv
      rw [h1, eq_comm, List.flatMap_eq_nil_iff]
      intro name hname
      rw [hv, eq_comm, Nat.zero_add, List.countP_eq_zero] at h2
      have := h2 name hname
      unfold fileRecords
      split
      · simp_all
      · rfl
    · rw [processFiles_logfile, h1]
      rfl

end DnsResolver.Simple
