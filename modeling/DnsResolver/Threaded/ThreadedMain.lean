import DnsResolver.Threaded.ThreadedFiles
import DnsResolver.Text.Decimal

/-!
# How `main` begins

What `main` of `dnsthreaded.c` does with its arguments before it initialises the queues: it checks
them, tries to open each data file, and opens the two log files for writing. The file system is
given by the contents of the readable files and by the files that can be written. `Args` are the
arguments with which it goes on. -/

namespace DnsResolver

/-- The messages of `main` on the standard error output before it creates threads. -/
inductive StartDiag
  | notPositive
  | noDataFiles
  | invalidFile (name : Bytes)
  | openRequesterLog
  | openResolverLog
  deriving DecidableEq

/-- What `main` has done: `usage` says that it has printed the usage line, and `created` are the
files that `fopen` has created or emptied. -/
structure StartOutput where
  usage : Bool := false
  stderr : List StartDiag := []
  created : List Bytes := []
  deriving DecidableEq

/-- The arguments with which `main` goes on: there are threads of both kinds, and a data file that
can be read. -/
structure Args (fs : Bytes → Option Bytes) where
  requesters : Nat
  resolvers : Nat
  requesterLog : Bytes
  resolverLog : Bytes
  files : List Bytes
  requesters_pos : 0 < requesters
  resolvers_pos : 0 < resolvers
  readable : ∃ name ∈ files, (fs name).isSome = true

section
variable (fs : Bytes → Option Bytes)

/-- The loop that counts `valid_files`. -/
def countValid : List Bytes → Nat × StartOutput → Nat × StartOutput
  | [], r => r
  | name :: files, (valid, o) =>
    if (fs name).isSome then countValid files (valid + 1, o)
    else countValid files (valid, { o with stderr := o.stderr ++ [.invalidFile name] })

theorem countValid_eq (files : List Bytes) (valid : Nat) (o : StartOutput) :
    countValid fs files (valid, o) = (valid + files.countP fun name => (fs name).isSome,
      { o with stderr := o.stderr ++
        (files.filter fun name => fs name = none).map .invalidFile }) := by
  induction files generalizing valid o with
  | nil => simp [countValid]
  | cons name files ih =>
    rw [countValid]
    cases h : fs name with
    | none => simp [ih, h]
    | some file =>
      simp only [ih, h, Option.isSome_some, if_true, List.countP_cons, Prod.mk.injEq]
      exact ⟨by omega, by simp [h]⟩

variable {fs} in
theorem countValid_readable {files : List Bytes} (h : (countValid fs files (0, {})).1 ≠ 0) :
    ∃ name ∈ files, (fs name).isSome = true := by
  rw [countValid_eq, Nat.zero_add] at h
  exact List.countP_pos_iff.1 (Nat.pos_of_ne_zero h)

variable (writable : Bytes → Bool)

/-- `main` up to the opening of the log files, for the arguments `argv`. -/
def start : List Bytes → StartOutput × Option (Args fs)
  | _ :: requesters :: resolvers :: requesterLog :: resolverLog :: files =>
    if hpos : atoi requesters ≤ 0 ∨ atoi resolvers ≤ 0 then
      ({ usage := true, stderr := [.notPositive] }, none)
    else if files = [] then ({ usage := true, stderr := [.noDataFiles] }, none)
    else
      let o := (countValid fs files (0, {})).2
      if hv : (countValid fs files (0, {})).1 = 0 then ({ o with usage := true }, none)
      else if writable requesterLog = false then
        ({ o with stderr := o.stderr ++ [.openRequesterLog] }, none)
      else if writable resolverLog = false then
        ({ o with stderr := o.stderr ++ [.openResolverLog], created := [requesterLog] }, none)
      else ({ o with created := [requesterLog, resolverLog] }, some {
        requesters := (atoi requesters).toNat
        resolvers := (atoi resolvers).toNat
        requesterLog, resolverLog, files
        requesters_pos := by omega
        resolvers_pos := by omega
        readable := countValid_readable hv })
  | _ => ({ usage := true }, none)

/-- The data files that cannot be opened. -/
def unreadable (files : List Bytes) : List Bytes := files.filter fun name => fs name = none

/-- The file system after files have been created or emptied. -/
def emptied (created : List Bytes) (name : Bytes) : Option Bytes :=
  if name ∈ created then some [] else fs name

/-! ## With which arguments `main` goes on -/

/-- `main` goes on with arguments that say how many threads there are and which files to use. -/
structure Accepted (argv : List Bytes) (a : Args fs) : Prop where
  argv : ∃ prog x y, argv = prog :: x :: y :: a.requesterLog :: a.resolverLog :: a.files ∧
    atoi x = a.requesters ∧ atoi y = a.resolvers
  requesterLog : writable a.requesterLog = true
  resolverLog : writable a.resolverLog = true

/-- When `main` exits it has printed the usage line and touched no file, or it could not open the
requester log and has touched no file, or it could not open the resolver log and has touched the
requester log only. -/
def StartOutput.Exits (argv : List Bytes) (o : StartOutput) : Prop :=
  (o.usage = true ∧ o.created = []) ∨
  (o.usage = false ∧ o.created = [] ∧ o.stderr.getLast? = some .openRequesterLog) ∨
  (o.usage = false ∧ (∃ requesterLog, argv[3]? = some requesterLog ∧ o.created = [requesterLog]) ∧
    o.stderr.getLast? = some .openResolverLog)

variable {fs writable}

/-- What is known of the output when all data files have been tried. -/
theorem countValid_output (files : List Bytes) : (countValid fs files (0, {})).2 =
    ⟨false, (unreadable fs files).map .invalidFile, []⟩ := by
  rw [countValid_eq]
  rfl

theorem start_some {argv : List Bytes} {a : Args fs} {o : StartOutput}
    (h : start fs writable argv = (o, some a)) : Accepted fs writable argv a ∧
      o = ⟨false, (unreadable fs a.files).map .invalidFile, [a.requesterLog, a.resolverLog]⟩ := by
  revert h
  fun_cases start fs writable argv with
  | case6 prog x y requesterLog resolverLog files hpos _ o' hv hr hw =>
    intro h
    simp only [Prod.mk.injEq, Option.some.injEq] at h
    obtain ⟨rfl, rfl⟩ := h
    refine ⟨⟨⟨prog, x, y, rfl, ?_, ?_⟩, by simpa using hr, by simpa using hw⟩, ?_⟩
    · exact (Int.toNat_of_nonneg (by omega)).symm
    · exact (Int.toNat_of_nonneg (by omega)).symm
    · rw [show o' = _ from countValid_output files]
  | _ => simp

theorem start_none {argv : List Bytes} {o : StartOutput}
    (h : start fs writable argv = (o, none)) : o.Exits argv := by
  revert h
  fun_cases start fs writable argv with
  | case3 prog x y requesterLog resolverLog files _ _ o' =>
    intro h
    obtain ⟨rfl, -⟩ := Prod.mk.inj h
    rw [show o' = _ from countValid_output files]
    exact .inl ⟨rfl, rfl⟩
  | case4 prog x y requesterLog resolverLog files _ _ o' =>
    intro h
    obtain ⟨rfl, -⟩ := Prod.mk.inj h
    rw [show o' = _ from countValid_output files]
    exact .inr (.inl ⟨rfl, rfl, by simp⟩)
  | case5 prog x y requesterLog resolverLog files _ _ o' =>
    intro h
    obtain ⟨rfl, -⟩ := Prod.mk.inj h
    rw [show o' = _ from countValid_output files]
    exact .inr (.inr ⟨rfl, ⟨requesterLog, rfl, rfl⟩, by simp⟩)
  | case6 => simp
  | case1 | case2 | case7 =>
    intro h
    obtain ⟨rfl, -⟩ := Prod.mk.inj h
    exact .inl ⟨rfl, rfl⟩

/-- `main` goes on with every argument vector of the right kind. -/
theorem start_of_accepted {argv : List Bytes} {a : Args fs} (h : Accepted fs writable argv a) :
    (start fs writable argv).2 = some a := by
  obtain ⟨⟨prog, x, y, rfl, hx, hy⟩, hr, hv⟩ := h
  obtain ⟨name, hm, hn⟩ := a.readable
  have hpos : ¬ (atoi x ≤ 0 ∨ atoi y ≤ 0) := by
    have := a.requesters_pos
    have := a.resolvers_pos
    omega
  have hvalid : ¬ (countValid fs a.files (0, {})).1 = 0 := by
    rw [countValid_eq, Nat.zero_add]
    exact (List.countP_pos_iff.2 ⟨name, hm, hn⟩).ne'
  rw [start, dif_neg hpos, if_neg (List.ne_nil_of_mem hm)]
  dsimp only
  rw [dif_neg hvalid, if_neg (by simp [hr]), if_neg (by simp [hv])]
  simp [hx, hy]

/-- `main` goes on exactly with the right kind of arguments, whose numbers are of type `int`; it has
then named every data file that cannot be opened and has emptied both log files. Otherwise it
exits, and no file has been touched but the requester log, where the resolver log could not be
opened. -/
theorem start_spec (argv : List Bytes) : ∃ o r, start fs writable argv = (o, r) ∧
    (∀ a, r = some a ↔ Accepted fs writable argv a) ∧
    (∀ a, r = some a → a.requesters < 2 ^ 31 ∧ a.resolvers < 2 ^ 31 ∧
      o = ⟨false, (unreadable fs a.files).map .invalidFile, [a.requesterLog, a.resolverLog]⟩) ∧
    (r = none → o.Exits argv) := by
  refine ⟨_, _, rfl, fun a => ⟨fun h => ?_, start_of_accepted⟩, fun a h => ?_, fun h => ?_⟩
  · exact (start_some (Prod.ext rfl h)).1
  · obtain ⟨⟨⟨prog, x, y, -, hx, hy⟩, -, -⟩, ho⟩ := start_some (Prod.ext rfl h)
    have h1 := (atoi_range x).2
    have h2 := (atoi_range y).2
    exact ⟨by omega, by omega, ho⟩
  · exact start_none (Prod.ext rfl h)

end

end DnsResolver
