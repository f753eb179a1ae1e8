import DnsResolver.Text.Decimal
import Mathlib.Data.List.TakeWhile

/-!
# Log files

What the log threads write with `write_logfile`, as the bytes of a file. Every message is on a line
of its own, so the messages can be read back as lines (`hosts_logBytes`). A record tells the
hostname from the answer, since no address has a comma in it (`record_inj`). -/

namespace DnsResolver

/-- `write_logfile`: `fprintf(file, "%s\n", message)`. -/
def writeLogfile (file message : Bytes) : Bytes := file ++ cString message ++ [newline]

/-- A log file, message by message. -/
def logBytes (messages : List Bytes) : Bytes := messages.foldl writeLogfile []

/-- A C string that is on one line. -/
structure IsText (bs : Bytes) : Prop where
  newline : newline ∉ bs
  nul : 0 ∉ bs

/-- The bytes that `inet_ntop` writes: digits, the letters from `a` to `f`, `.` and `:`. -/
def isAddressByte (b : UInt8) : Bool := isDigit b || 97 ≤ b && b ≤ 102 || b = 46 || b = 58

/-- An address as `inet_ntop` writes it. -/
def IsAddress (ip : Bytes) : Prop := ∀ b ∈ ip, isAddressByte b = true

/-- What `resolve_then_log` passes to `malloc` for the record. -/
def recordSize (host : Bytes) : Option Bytes → Nat
  | some ip => host.length + ip.length + 3
  | none => host.length + 20

/-! ## Texts -/

theorem IsText.append {as bs : Bytes} (ha : IsText as) (hb : IsText bs) : IsText (as ++ bs) where
  newline := by simp [ha.newline, hb.newline]
  nul := by simp [ha.nul, hb.nul]

theorem IsText.cString {bs : Bytes} (h : IsText bs) : cString bs = bs := by
  apply List.takeWhile_eq_self_iff.2
  intro b hb
  have h0 : b ≠ 0 := by
    rintro rfl
    exact h.nul hb
  simpa

theorem isText_comma : IsText comma := ⟨by decide, by decide⟩

theorem isText_notResolved : IsText notResolved := ⟨by decide, by decide⟩

theorem IsAddress.not_mem {ip : Bytes} (h : IsAddress ip) {b : UInt8}
    (hb : isAddressByte b = false) : b ∉ ip := by
  intro hm
  rw [h b hm] at hb
  cases hb

theorem IsAddress.isText {ip : Bytes} (h : IsAddress ip) : IsText ip :=
  ⟨h.not_mem rfl, h.not_mem rfl⟩

theorem mem_cString {bs : Bytes} {b : UInt8} (h : b ∈ cString bs) : b ∈ bs ∧ b ≠ 0 := by
  have hp := List.mem_takeWhile_imp h
  exact ⟨(List.takeWhile_sublist _).subset h, by simpa using hp⟩

/-- The string of a line has no newline, and ends before the first NUL. -/
theorem isText_hostOf {seg bs : Bytes} (h : seg ∈ segments bs) : IsText (hostOf seg) := by
  constructor
  case nul =>
    intro h0
    exact (mem_cString h0).2 rfl
  case newline =>
    intro hn
    have hm := (mem_cString hn).1
    have hd := segments_newline h
    unfold chomp at hm
    split at hm
    · rcases List.mem_append.1 hm with hm | hm
      · exact hd hm
      · exact absurd (List.mem_singleton.1 hm) (by decide)
    · rename_i hl
      have hne := segments_ne_nil h
      rw [← List.dropLast_append_getLast hne, List.mem_append] at hm
      rcases hm with hm | hm
      · exact hd hm
      · rw [List.getLast?_eq_some_getLast hne] at hl
        exact hl (congrArg some (List.mem_singleton.1 hm).symm)

/-! ## Messages are read back -/

theorem segments_line {line : Bytes} (h : newline ∉ line) (rest : Bytes) :
    segments (line ++ newline :: rest) = (line ++ [newline]) :: segments rest := by
  induction line with
  | nil => simp [segments]
  | cons b line ih =>
    rw [List.mem_cons, not_or] at h
    rw [List.cons_append, segments, if_neg (Ne.symm h.1), ih h.2]
    rfl

theorem logBytes_append (ms : List Bytes) (m : Bytes) :
    logBytes (ms ++ [m]) = writeLogfile (logBytes ms) m := by
  simp [logBytes]

theorem logBytes_eq {ms : List Bytes} (h : ∀ m ∈ ms, IsText m) :
    logBytes ms = ms.flatMap fun m => m ++ [newline] := by
  induction ms using List.reverseRecOn with
  | nil => rfl
  | append_singleton ms m ih =>
    have hm : cString m = m := (h m (by simp)).cString
    have ih := ih fun x hx => h x (by simp [hx])
    rw [logBytes_append, writeLogfile, hm, ih, List.flatMap_append, List.append_assoc]
    simp

theorem segments_logBytes {ms : List Bytes} (h : ∀ m ∈ ms, IsText m) :
    segments (logBytes ms) = ms.map fun m => m ++ [newline] := by
  rw [logBytes_eq h]
  induction ms with
  | nil => rfl
  | cons m ms ih =>
    have hm := (h m (by simp)).newline
    have ih := ih fun x hx => h x (by simp [hx])
    rw [List.flatMap_cons, List.append_assoc, List.singleton_append, segments_line hm, ih]
    rfl

/-- A log file read as a data file gives the messages back. -/
theorem hosts_logBytes {ms : List Bytes} (h : ∀ m ∈ ms, IsText m) :
    (segments (logBytes ms)).map hostOf = ms := by
  rw [segments_logBytes h, List.map_map]
  conv => rhs; rw [← List.map_id ms]
  apply List.map_congr_left
  intro m hm
  exact (hostOf_newline m).trans (h m hm).cString

theorem logBytes_inj {ms ns : List Bytes} (hm : ∀ m ∈ ms, IsText m) (hn : ∀ n ∈ ns, IsText n)
    (h : logBytes ms = logBytes ns) : ms = ns := by
  rw [← hosts_logBytes hm, h, hosts_logBytes hn]

/-! ## Records -/

theorem record_isText {host : Bytes} {ip : Option Bytes} (h : IsText host)
    (hip : ∀ a ∈ ip, IsAddress a) : IsText (record host ip) := by
  cases ip with
  | none => exact (h.append isText_comma).append isText_notResolved
  | some a => exact (h.append isText_comma).append (hip a rfl).isText

/-- The last place of an element splits a list in one way. -/
theorem append_cons_inj_of_last {α : Type} {xs ys xs' ys' : List α} {a : α} (h : a ∉ ys)
    (h' : a ∉ ys') (he : xs ++ a :: ys = xs' ++ a :: ys') : xs = xs' ∧ ys = ys' := by
  rw [List.append_eq_append_iff] at he
  obtain ⟨zs, rfl, hz⟩ | ⟨zs, rfl, hz⟩ := he
  · cases zs with
    | nil => simpa using hz
    | cons z zs =>
      rw [List.cons_append, List.cons.injEq] at hz
      exact absurd (hz.2 ▸ by simp) h
  · cases zs with
    | nil => simpa using hz.symm
    | cons z zs =>
      rw [List.cons_append, List.cons.injEq] at hz
      exact absurd (hz.2 ▸ by simp) h'

/-- What comes after the last comma of a record. -/
theorem record_eq (host : Bytes) (ip : Option Bytes) :
    record host ip = host ++ 44 :: 32 :: ip.getD notResolved := by
  cases ip <;> simp [record, comma]

/-- A record is of one hostname and one answer. -/
theorem record_inj {host host' : Bytes} {ip ip' : Option Bytes} (hip : ∀ a ∈ ip, IsAddress a)
    (hip' : ∀ a ∈ ip', IsAddress a) (h : record host ip = record host' ip') :
    host = host' ∧ ip = ip' := by
  have hc (o : Option Bytes) (ho : ∀ a ∈ o, IsAddress a) : 44 ∉ 32 :: o.getD notResolved := by
    cases o with
    | none => decide
    | some a => simpa using (ho a rfl).not_mem rfl
  rw [record_eq, record_eq] at h
  obtain ⟨h1, h2⟩ := append_cons_inj_of_last (hc ip hip) (hc ip' hip') h
  refine ⟨h1, ?_⟩
  -- `N` is in no address
  have hN (a : Bytes) (ha : IsAddress a) (he : a = notResolved) : False := by
    apply ha.not_mem (b := 78) rfl
    rw [he]
    decide
  rw [List.cons.injEq] at h2
  cases ip with
  | none =>
    cases ip' with
    | none => rfl
    | some a' => exact (hN a' (hip' a' rfl) h2.2.symm).elim
  | some a =>
    cases ip' with
    | none => exact (hN a (hip a rfl) h2.2).elim
    | some a' => exact congrArg some h2.2

theorem records_inj {rs ns : List (Bytes × Option Bytes)} (hr : ∀ r ∈ rs, ∀ a ∈ r.2, IsAddress a)
    (hn : ∀ n ∈ ns, ∀ a ∈ n.2, IsAddress a)
    (h : rs.map (fun r => record r.1 r.2) = ns.map fun r => record r.1 r.2) : rs = ns := by
  induction rs generalizing ns with
  | nil => exact (List.map_eq_nil_iff.1 h.symm).symm
  | cons r rs ih =>
    cases ns with
    | nil => cases h
    | cons n ns =>
      rw [List.map_cons, List.map_cons, List.cons.injEq] at h
      rw [List.forall_mem_cons] at hr hn
      obtain ⟨h1, h2⟩ := record_inj hr.1 hn.1 h.1
      rw [Prod.ext h1 h2, ih hr.2 hn.2 h.2]

/-- The record and its NUL fit into the buffer. -/
theorem record_fits (host : Bytes) (ip : Option Bytes) :
    (record host ip).length + 1 ≤ recordSize host ip := by
  cases ip with
  | none =>
    rw [record, recordSize, List.length_append, List.length_append]
    change host.length + 2 + 12 + 1 ≤ host.length + 20
    omega
  | some a =>
    rw [record, recordSize, List.length_append, List.length_append]
    change host.length + 2 + a.length + 1 ≤ host.length + a.length + 3
    omega

end DnsResolver
