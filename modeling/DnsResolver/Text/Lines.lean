import Mathlib.Data.List.Basic

/-!
# Lines of a data file

Both programs read a data file with `getline`, overwrite one trailing newline by NUL and use the
buffer as a C string; `getline` and `chomp` are these statements. `segments` is the list of all
lines that successive calls return, by recursion on the bytes, so that proofs about a file are
inductions on its lines. -/

namespace DnsResolver

/-- A file's contents, a buffer, or a C string without its NUL. -/
abbrev Bytes := List UInt8

def newline : UInt8 := 10

/-- The bytes up to and with the first newline, and what is left. -/
def takeLine : Bytes → Bytes × Bytes
  | [] => ([], [])
  | b :: bs => if b = newline then ([b], bs) else (b :: (takeLine bs).1, (takeLine bs).2)

/-- `getline(&line, &len, file)`: the next line and the rest of the stream, or nothing at its
end. The -1 of a read error or of a buffer that cannot be allocated is left out. -/
def getline (stream : Bytes) : Option (Bytes × Bytes) :=
  if stream = [] then none else some (takeLine stream)

/-- `if (read > 0 && line[read - 1] == '\n') line[read - 1] = '\0'` -/
def chomp (line : Bytes) : Bytes :=
  if line.getLast? = some newline then line.dropLast ++ [0] else line

/-- What the C string functions see of a buffer. -/
def cString (buffer : Bytes) : Bytes := buffer.takeWhile (· ≠ 0)

/-- The string a line of a data file stands for. -/
def hostOf (line : Bytes) : Bytes := cString (chomp line)

/-- All lines that successive calls of `getline` return. -/
def segments : Bytes → List Bytes
  | [] => []
  | b :: bs =>
    if b = newline then [b] :: segments bs
    else match segments bs with
      | [] => [[b]]
      | seg :: segs => (b :: seg) :: segs

@[simp] theorem getline_nil : getline [] = none := rfl

theorem getline_eq_none : getline bs = none ↔ bs = [] := by
  unfold getline
  split <;> simp_all

theorem takeLine_append (bs : Bytes) : (takeLine bs).1 ++ (takeLine bs).2 = bs := by
  induction bs with
  | nil => rfl
  | cons b bs ih =>
    unfold takeLine
    split
    · rfl
    · simp [ih]

theorem segments_takeLine (h : bs ≠ []) :
    segments bs = (takeLine bs).1 :: segments (takeLine bs).2 := by
  induction bs with
  | nil => exact absurd rfl h
  | cons b bs ih =>
    by_cases hb : b = newline
    · simp [segments, takeLine, hb]
    · cases bs with
      | nil => simp [segments, takeLine, hb]
      | cons b' bs =>
        rw [segments, if_neg hb, ih (by simp)]
        conv => rhs; rw [takeLine, if_neg hb]

/-- Reading one line takes the first segment. -/
theorem segments_getline (h : getline bs = some (line, rest)) :
    segments bs = line :: segments rest := by
  unfold getline at h
  split at h
  · cases h
  · rename_i hne
    rw [Option.some.injEq, Prod.ext_iff] at h
    rw [segments_takeLine hne, h.1, h.2]

theorem segments_ne_nil (h : seg ∈ segments bs) : seg ≠ [] := by
  induction bs generalizing seg with
  | nil => cases h
  | cons b bs ih =>
    unfold segments at h
    split at h
    · rcases List.mem_cons.1 h with rfl | h
      · simp
      · exact ih h
    · split at h <;> rename_i hs <;> rcases List.mem_cons.1 h with rfl | h
      · simp
      · cases h
      · simp
      · exact ih (hs ▸ List.mem_cons_of_mem _ h)

theorem takeLine_length (h : bs ≠ []) : (takeLine bs).2.length < bs.length := by
  have h1 := segments_takeLine h
  have hm : (takeLine bs).1 ∈ segments bs := h1 ▸ List.mem_cons_self
  have h2 := segments_ne_nil hm
  have h3 := congrArg List.length (takeLine_append bs)
  have h4 := List.length_pos_iff.2 h2
  rw [List.length_append] at h3
  omega

theorem getline_length (h : getline bs = some (line, rest)) : rest.length < bs.length := by
  unfold getline at h
  split at h
  · cases h
  · rename_i hne
    have := takeLine_length hne
    rw [Option.some.injEq] at h
    rwa [h] at this

/-- A newline ends its line. -/
theorem segments_newline (h : seg ∈ segments bs) : newline ∉ seg.dropLast := by
  induction bs generalizing seg with
  | nil => cases h
  | cons b bs ih =>
    unfold segments at h
    split at h
    · rcases List.mem_cons.1 h with rfl | h
      · simp
      · exact ih h
    · rename_i hb
      split at h <;> rename_i hs <;> rcases List.mem_cons.1 h with rfl | h
      · simp
      · cases h
      · rename_i s ss
        have hm : s ∈ segments bs := hs ▸ List.mem_cons_self
        rw [List.dropLast_cons_of_ne_nil (segments_ne_nil hm), List.mem_cons, not_or]
        exact ⟨Ne.symm hb, ih hm⟩
      · exact ih (hs ▸ List.mem_cons_of_mem _ h)

theorem cString_append_nul (bs : Bytes) : cString (bs ++ [0]) = cString bs := by
  induction bs with
  | nil => rfl
  | cons b bs ih => simp_all [cString, List.takeWhile_cons]

/-- The string of a line is the line without one trailing newline, cut at its first NUL. -/
theorem hostOf_newline (line : Bytes) : hostOf (line ++ [newline]) = cString line := by
  rw [hostOf, show chomp (line ++ [newline]) = line ++ [0] by simp [chomp], cString_append_nul]

/-! ## Records of the resolver log -/

/-- `", "` -/
def comma : Bytes := [44, 32]

/-- `"NOT_RESOLVED"` -/
def notResolved : Bytes := [78, 79, 84, 95, 82, 69, 83, 79, 76, 86, 69, 68]

/-- `sprintf(log_message, "%s, %s", hostname, ip_string)`, or
`sprintf(log_message, "%s, NOT_RESOLVED", hostname)` where there is no address. -/
def record (host : Bytes) : Option Bytes → Bytes
  | some ip => host ++ comma ++ ip
  | none => host ++ comma ++ notResolved

end DnsResolver
