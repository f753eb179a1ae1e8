import DnsResolver.Text.Lines
import Mathlib.Data.Nat.Digits.Lemmas

/-!
# Decimal numbers

`%d` of `printf` for numbers that are not negative (`decimal`), and the reading of a number by `atoi`
and by `%d` of `sscanf` (`scanInt`): white space, a sign, digits, and nothing else is looked at.
What is printed is read back (`scanInt_decimal`). -/

namespace DnsResolver

/-- `isspace` -/
def isSpace (b : UInt8) : Bool := b = 32 || 9 ≤ b && b ≤ 13

/-- `isdigit` -/
def isDigit (b : UInt8) : Bool := 48 ≤ b && b ≤ 57

def digit (d : Nat) : UInt8 := .ofNat (48 + d)

/-- `%d` -/
def decimal (n : Nat) : Bytes :=
  if n = 0 then [digit 0] else ((Nat.digits 10 n).map digit).reverse

/-- The value of a sequence of digits. -/
def digitsValue (bs : Bytes) : Nat := bs.foldl (fun v b => 10 * v + (b.toNat - 48)) 0

/-- The number that the digits at the start stand for, if there are any. -/
def scanDigits (bs : Bytes) : Option Nat :=
  if bs.takeWhile isDigit = [] then none else some (digitsValue (bs.takeWhile isDigit))

/-- The number at the start of a string, after white space and a sign. -/
def scanInt (bs : Bytes) : Option Int :=
  match bs.dropWhile isSpace with
  | 45 :: rest => (scanDigits rest).map fun n => -(n : Int)
  | 43 :: rest => (scanDigits rest).map fun n => (n : Int)
  | rest => (scanDigits rest).map fun n => (n : Int)

/-- `atoi`: `strtol` stops at the bounds of a `long`, and the result is cut to 32 bits. -/
def atoi (s : Bytes) : Int :=
  Int.bmod (max (-2 ^ 63) (min (2 ^ 63 - 1) ((scanInt s).getD 0))) (2 ^ 32)

theorem digit_toNat {d : Nat} (h : d < 10) : (digit d).toNat = 48 + d :=
  UInt8.toNat_ofNat_of_lt (by rw [UInt8.size]; omega)

theorem isDigit_iff {b : UInt8} : isDigit b = true ↔ 48 ≤ b.toNat ∧ b.toNat ≤ 57 := by
  simp [isDigit, UInt8.le_iff_toNat_le]

theorem isDigit_digit {d : Nat} (h : d < 10) : isDigit (digit d) = true := by
  rw [isDigit_iff, digit_toNat h]
  omega

theorem isDigit_decimal {n : Nat} {b : UInt8} (h : b ∈ decimal n) : isDigit b = true := by
  unfold decimal at h
  split at h
  · rw [List.mem_singleton.1 h]
    rfl
  · obtain ⟨d, hd, rfl⟩ := List.mem_map.1 (List.mem_reverse.1 h)
    exact isDigit_digit (Nat.digits_lt_base (by decide) hd)

theorem decimal_ne_nil (n : Nat) : decimal n ≠ [] := by
  unfold decimal
  split
  · simp
  · simpa [Nat.digits_eq_nil_iff_eq_zero]

theorem digitsValue_decimal (n : Nat) : digitsValue (decimal n) = n := by
  unfold decimal
  split
  · rename_i h
    rw [h]
    rfl
  · have hf (ds : List Nat) (h : ∀ d ∈ ds, d < 10) :
        digitsValue (ds.map digit).reverse = Nat.ofDigits 10 ds := by
      unfold digitsValue
      rw [List.foldl_reverse]
      induction ds with
      | nil => rfl
      | cons d ds ih =>
        have hd := digit_toNat (h d List.mem_cons_self)
        rw [List.map_cons, List.foldr_cons, ih fun d hd => h d (List.mem_cons_of_mem _ hd), hd,
          Nat.ofDigits_cons]
        omega
    rw [hf _ fun d hd => Nat.digits_lt_base (by decide) hd, Nat.ofDigits_digits]

/-- What is printed is read back, whatever comes after it but a digit. -/
theorem scanInt_decimal (n : Nat) {rest : Bytes} (h : ∀ b ∈ rest.head?, isDigit b = false) :
    scanInt (decimal n ++ rest) = some (n : Int) := by
  have hd : (decimal n ++ rest).takeWhile isDigit = decimal n := by
    rw [List.takeWhile_append_of_pos fun b => isDigit_decimal]
    cases rest with
    | nil => simp
    | cons b rest => simp [h b rfl]
  have hs : scanDigits (decimal n ++ rest) = some n := by
    rw [scanDigits, hd, if_neg (decimal_ne_nil n), digitsValue_decimal]
  obtain ⟨b, ds, hb⟩ := List.exists_cons_of_ne_nil (decimal_ne_nil n)
  have hdigit := isDigit_iff.1 (isDigit_decimal (hb ▸ List.mem_cons_self : b ∈ decimal n))
  have hsp : isSpace b = false := by
    rw [isSpace, ← Bool.not_eq_true]
    simp [UInt8.le_iff_toNat_le, ← UInt8.toNat_inj]
    omega
  unfold scanInt
  rw [hb, List.cons_append, List.dropWhile_cons, hsp, if_neg Bool.false_ne_true]
  split
  · rename_i heq
    simp only [List.cons.injEq] at heq
    rw [heq.1] at hdigit
    exact absurd hdigit (by decide)
  · rename_i heq
    simp only [List.cons.injEq] at heq
    rw [heq.1] at hdigit
    exact absurd hdigit (by decide)
  · rw [← List.cons_append, ← hb, hs]
    rfl

theorem atoi_range (s : Bytes) : -2 ^ 31 ≤ atoi s ∧ atoi s < 2 ^ 31 := by
  have h1 (n : Int) : -2 ^ 31 ≤ Int.bmod n (2 ^ 32) := Int.le_bmod (by decide)
  have h2 (n : Int) : Int.bmod n (2 ^ 32) < 2 ^ 31 := Int.bmod_lt (by decide)
  exact ⟨h1 _, h2 _⟩

/-- A printed `int` that is not negative is read back. -/
theorem atoi_decimal {n : Nat} (hn : n < 2 ^ 31) {rest : Bytes}
    (h : ∀ b ∈ rest.head?, isDigit b = false) : atoi (decimal n ++ rest) = n := by
  rw [atoi, scanInt_decimal n h, Option.getD_some, min_eq_right (by omega), max_eq_right (by omega)]
  exact Int.bmod_eq_of_le (by omega) (by omega)

theorem decimal_injective : Function.Injective decimal := fun m n h => by
  rw [← digitsValue_decimal m, h, digitsValue_decimal]

theorem decimal_length {n k : Nat} (hk : 0 < k) (h : n < 10 ^ k) : (decimal n).length ≤ k := by
  unfold decimal
  split
  · exact hk
  · rw [List.length_reverse, List.length_map]
    exact (Nat.digits_length_le_iff (by decide) n).2 h

end DnsResolver
