import DnsResolver.Lib.Signed

/-!
# The deadlines of the waits

`get_timeout` of `src/array.c` and of `src/turnin/array.c`. They agree, and give the clock reading
plus the duration, exactly where the sum of the nanoseconds is neither negative nor two seconds or
more: the first carries one second at most. So they do for the only duration that is used, 100
milliseconds. -/

namespace DnsResolver

/-- `struct timespec`, with 64 bits for both members. -/
structure Timespec where
  sec : Int
  nsec : Int
  deriving DecidableEq

namespace Timespec

/-- The time in nanoseconds. -/
def value (ts : Timespec) : Int := ts.sec * 1000000000 + ts.nsec

def Normalised (ts : Timespec) : Prop := 0 ≤ ts.nsec ∧ ts.nsec < 1000000000

/-- Whatever `int` duration is added, the seconds stay in range. -/
def FarFromLimits (ts : Timespec) : Prop := -2 ^ 63 + 2 ^ 22 ≤ ts.sec ∧ ts.sec < 2 ^ 63 - 2 ^ 22

instance (ts : Timespec) : Decidable ts.Normalised := inferInstanceAs (Decidable (_ ∧ _))

instance (ts : Timespec) : Decidable ts.FarFromLimits := inferInstanceAs (Decidable (_ ∧ _))

end Timespec

open Signed

/-- `get_timeout(ts, milliseconds)` of `src/array.c`; `clock` is what `clock_gettime` stores in
`*ts`, if it succeeds. The product is one of type `int`. -/
def getTimeout (clock : Option Timespec) (ts : Timespec) (milliseconds : Int) :
    Option Timespec := do
  let ts := clock.getD ts
  let ns ← mul 32 milliseconds 1000000
  let nsec ← add 64 ts.nsec ns
  if nsec ≥ 1000000000 then
    let sec ← add 64 ts.sec 1
    let nsec ← sub 64 nsec 1000000000
    return ⟨sec, nsec⟩
  else
    return ⟨ts.sec, nsec⟩

/-- `get_timeout(ts, milliseconds)` of `src/turnin/array.c`. A failure of `clock_gettime` is only
reported. -/
def Turnin.getTimeout (clock : Option Timespec) (ts : Timespec) (milliseconds : Int) :
    Option Timespec := do
  let ts := clock.getD ts
  let nsToAdd ← mul 64 milliseconds 1000000
  let nsec ← add 64 ts.nsec nsToAdd
  let sec ← add 64 ts.sec (← div 64 nsec 1000000000)
  let nsec ← rem 64 nsec 1000000000
  if nsec < 0 then
    let nsec ← add 64 nsec 1000000000
    let sec ← sub 64 sec 1
    return ⟨sec, nsec⟩
  else
    return ⟨sec, nsec⟩

variable {now ts r : Timespec} {ms : Int}

/-- A normalised time is told by its value. -/
theorem Timespec.ext_value {a b : Timespec} (ha : a.Normalised) (hb : b.Normalised)
    (h : a.value = b.value) : a = b := by
  obtain ⟨s, n⟩ := a
  obtain ⟨s', n'⟩ := b
  simp only [Normalised, value] at ha hb h
  obtain ⟨rfl, rfl⟩ : s = s' ∧ n = n' := by omega
  rfl

/-- The sum of the clock's nanoseconds and the duration, split by a truncated division. -/
theorem truncated (x : Int) :
    x = x.tdiv 1000000000 * 1000000000 + x.tmod 1000000000 ∧
    -1000000000 < x.tmod 1000000000 ∧ x.tmod 1000000000 < 1000000000 := by
  have h1 := Int.mul_tdiv_add_tmod x 1000000000
  have h2 := Int.lt_tmod_of_pos x (show (0 : Int) < 1000000000 by decide)
  have h3 := Int.tmod_lt_of_pos x (show (0 : Int) < 1000000000 by decide)
  omega

/-- The computation in `long long` is exact for every duration. -/
theorem Turnin.getTimeout_exact (hn : now.Normalised) (hs : now.FarFromLimits)
    (hms : InRange 32 ms) : ∃ r, Turnin.getTimeout (some now) ts ms = some r ∧ r.Normalised ∧
      r.value = now.value + ms * 1000000 := by
  rw [inRange_32] at hms
  simp only [Timespec.Normalised, Timespec.FarFromLimits] at hn hs
  obtain ⟨e, hlo, hhi⟩ := truncated (now.nsec + ms * 1000000)
  have h1 : mul 64 ms 1000000 = some (ms * 1000000) := fit_of_inRange (inRange_64.2 (by omega))
  have h2 : InRange 64 (now.nsec + ms * 1000000) := inRange_64.2 (by omega)
  have h3 := div_of_pos h2 (show (0 : Int) < 1000000000 by decide)
  have h4 := rem_of_pos h2 (show (0 : Int) < 1000000000 by decide)
  have h5 : InRange 64 (now.sec + (now.nsec + ms * 1000000).tdiv 1000000000) :=
    inRange_64.2 (by omega)
  simp only [Turnin.getTimeout, Option.getD_some, h1, Option.bind_eq_bind, Option.bind_some,
    add, fit_of_inRange h2, h3, fit_of_inRange h5, h4, pure]
  generalize (now.nsec + ms * 1000000).tmod 1000000000 = n at *
  generalize (now.nsec + ms * 1000000).tdiv 1000000000 = k at *
  split
  · have h6 : InRange 64 (n + 1000000000) := inRange_64.2 (by omega)
    have h7 : InRange 64 (now.sec + k - 1) := inRange_64.2 (by omega)
    simp only [fit_of_inRange h6, sub, fit_of_inRange h7, Option.bind_some]
    refine ⟨_, rfl, ?_, ?_⟩ <;> simp only [Timespec.Normalised, Timespec.value] <;> omega
  · refine ⟨_, rfl, ?_, ?_⟩ <;> simp only [Timespec.Normalised, Timespec.value] <;> omega

/-- The product in `int` overflows or the one carry is not enough, or the result is the sum. -/
theorem getTimeout_normalised (h : getTimeout (some now) ts ms = some r) (hr : r.Normalised) :
    0 ≤ now.nsec + ms * 1000000 ∧ now.nsec + ms * 1000000 < 2000000000 := by
  simp only [getTimeout, Option.getD_some, Option.bind_eq_bind, Option.bind_eq_some_iff, mul, add,
    fit_eq_some] at h
  obtain ⟨_, ⟨-, rfl⟩, n, ⟨-, rfl⟩, h⟩ := h
  simp only [Timespec.Normalised] at hr
  split at h
  · simp only [sub, Option.bind_eq_some_iff, fit_eq_some] at h
    obtain ⟨s, -, n, ⟨-, rfl⟩, h⟩ := h
    cases h
    dsimp only at hr
    omega
  · cases h
    dsimp only at hr
    omega

/-- Where one carry is enough nothing overflows and the result is exact. -/
theorem getTimeout_exact (hn : now.Normalised) (hs : now.FarFromLimits)
    (h : 0 ≤ now.nsec + ms * 1000000 ∧ now.nsec + ms * 1000000 < 2000000000) :
    ∃ r, getTimeout (some now) ts ms = some r ∧ r.Normalised ∧
      r.value = now.value + ms * 1000000 := by
  simp only [Timespec.Normalised, Timespec.FarFromLimits] at hn hs
  have h1 : mul 32 ms 1000000 = some (ms * 1000000) := fit_of_inRange (inRange_32.2 (by omega))
  have h2 : InRange 64 (now.nsec + ms * 1000000) := inRange_64.2 (by omega)
  simp only [getTimeout, Option.getD_some, h1, Option.bind_eq_bind, Option.bind_some, add,
    fit_of_inRange h2, pure]
  split
  · have h3 : InRange 64 (now.sec + 1) := inRange_64.2 (by omega)
    have h4 : InRange 64 (now.nsec + ms * 1000000 - 1000000000) := inRange_64.2 (by omega)
    simp only [fit_of_inRange h3, sub, fit_of_inRange h4, Option.bind_some]
    refine ⟨_, rfl, ?_, ?_⟩ <;> simp only [Timespec.Normalised, Timespec.value] <;> omega
  · refine ⟨_, rfl, ?_, ?_⟩ <;> simp only [Timespec.Normalised, Timespec.value] <;> omega

theorem deadlines_agree (hn : now.Normalised) (hs : now.FarFromLimits) (hms : InRange 32 ms)
    (h : 0 ≤ now.nsec + ms * 1000000 ∧ now.nsec + ms * 1000000 < 2000000000) :
    ∃ r, getTimeout (some now) ts ms = some r ∧ Turnin.getTimeout (some now) ts ms = some r ∧
      r.Normalised ∧ r.value = now.value + ms * 1000000 := by
  obtain ⟨r, hr, hr1, hr2⟩ := @getTimeout_exact now ts ms hn hs h
  obtain ⟨r', hr', hr1', hr2'⟩ := @Turnin.getTimeout_exact now ts ms hn hs hms
  obtain rfl := Timespec.ext_value hr1 hr1' (hr2.trans hr2'.symm)
  exact ⟨r, hr, hr', hr1, hr2⟩

/-- The waits of `array_put` and `array_get`: the deadline is 100 milliseconds ahead. -/
theorem getTimeout_100 (hn : now.Normalised) (hs : now.FarFromLimits) :
    ∃ r, getTimeout (some now) ts 100 = some r ∧ Turnin.getTimeout (some now) ts 100 = some r ∧
      r.Normalised ∧ r.value = now.value + 100 * 1000000 := by
  apply deadlines_agree hn hs (by decide)
  simp only [Timespec.Normalised] at hn
  omega

/-- **When the two deadlines agree and are exact.** For every normalised clock reading and every
`int` duration, no operation of either computation overflows and both give the normalised sum if
and only if the nanoseconds of the clock and of the duration add up to no less than 0 and to less
than two seconds. -/
theorem deadlines_agree_iff (hn : now.Normalised) (hs : now.FarFromLimits)
    (hms : InRange 32 ms) :
    (∃ r, getTimeout (some now) ts ms = some r ∧ Turnin.getTimeout (some now) ts ms = some r ∧
      r.Normalised ∧ r.value = now.value + ms * 1000000) ↔
    0 ≤ now.nsec + ms * 1000000 ∧ now.nsec + ms * 1000000 < 2 * 1000000000 := by
  constructor
  · rintro ⟨r, h, -, hr, -⟩
    exact getTimeout_normalised h hr
  · exact deadlines_agree hn hs hms

theorem deadlines_agree_negative : ∃ r,
    getTimeout (some ⟨7, 500000000⟩) ⟨0, 0⟩ (-500) = some r ∧
    Turnin.getTimeout (some ⟨7, 500000000⟩) ⟨0, 0⟩ (-500) = some r ∧ r.Normalised ∧
    r.value = Timespec.value ⟨7, 500000000⟩ + -500 * 1000000 :=
  (deadlines_agree_iff (by decide) (by decide) (by decide)).2 (by decide)

/-- For two seconds the carry of one second leaves a second in the nanoseconds, and from 2148
milliseconds on the product overflows. -/
theorem deadlines_not_always : ¬ ∀ (now ts : Timespec) (ms : Int), now.Normalised →
    now.FarFromLimits → InRange 32 ms → ∃ r, getTimeout (some now) ts ms = some r ∧
      Turnin.getTimeout (some now) ts ms = some r ∧ r.Normalised ∧
      r.value = now.value + ms * 1000000 := by
  intro h
  obtain ⟨r, h1, -, h2, -⟩ := h ⟨0, 0⟩ ⟨0, 0⟩ 2000 (by decide) (by decide) (by decide)
  obtain rfl : (⟨1, 1000000000⟩ : Timespec) = r := by
    rw [← Option.some.injEq, ← h1]
    rfl
  exact absurd h2 (by decide)

end DnsResolver
