import Ztest.Lib.Decimal
import Ztest.Lib.Saturating
import Mathlib.Data.Int.Log
import Mathlib.Data.Rat.Floor
import Mathlib.Tactic.Ring
import Mathlib.Tactic.Positivity
import Mathlib.Tactic.NormNum

/-!
This module contains binary64 numbers by their value, with the sign of a zero left out: rounding to
the nearest with ties to even, the operations, and the grammar of `f64::from_str`.
-/

inductive Binary64 where
  | nan
  | inf (negative : Bool)
  | finite (value : ℚ)
  deriving DecidableEq

namespace Binary64

-- The nearest integer, the even one of two.
def roundEven (q : ℚ) : ℤ :=
  if q - ⌊q⌋ < 1 / 2 then ⌊q⌋
  else if 1 / 2 < q - ⌊q⌋ then ⌊q⌋ + 1
  else if ⌊q⌋ % 2 = 0 then ⌊q⌋
  else ⌊q⌋ + 1

-- The distance of two neighbours at the magnitude of `q`.
def quantum (q : ℚ) : ℚ := 2 ^ (max (Int.log 2 |q|) (-1022) - 52)

def ofRat (q : ℚ) : Binary64 :=
  let value := roundEven (q / quantum q) * quantum q
  if 2 ^ 1024 ≤ |value| then inf (q < 0) else finite value

def isNegative : Binary64 → Bool
  | nan => false
  | inf negative => negative
  | finite q => q < 0

def mul : Binary64 → Binary64 → Binary64
  | finite a, finite b => ofRat (a * b)
  | nan, _ => nan
  | _, nan => nan
  | x, y => if x = finite 0 ∨ y = finite 0 then nan else inf (x.isNegative != y.isNegative)

def add : Binary64 → Binary64 → Binary64
  | finite a, finite b => ofRat (a + b)
  | nan, _ => nan
  | _, nan => nan
  | inf n, inf m => if n = m then inf n else nan
  | inf n, finite _ => inf n
  | finite _, inf n => inf n

def neg : Binary64 → Binary64
  | nan => nan
  | inf negative => inf !negative
  | finite q => finite (-q)

def sub (x y : Binary64) : Binary64 := x.add y.neg

def div (x : Binary64) (d : ℚ) : Binary64 :=
  match x with
  | nan => nan
  | inf negative => inf (negative != decide (d < 0))
  | finite a => ofRat (a / d)

def quot (x y : Binary64) : Binary64 :=
  match x, y with
  | x, finite d => x.div d
  | finite _, inf _ => finite 0
  | _, _ => nan

def maxZero : Binary64 → Binary64
  | nan => finite 0
  | inf negative => if negative then finite 0 else inf false
  | finite q => finite (max q 0)

-- `round() as u64`: half away from zero, then saturating.
def roundToU64 : Binary64 → UInt64
  | nan => 0
  | inf negative => if negative then 0 else .maxValue
  | finite q => if q < 0 then 0 else UInt64.ofNat (min ⌊q + 1 / 2⌋.toNat (2 ^ 64 - 1))

-- `ceil() as u32`: saturating.
def ceilToU32 : Binary64 → UInt32
  | nan => 0
  | inf negative => if negative then 0 else .ofNat (2 ^ 32 - 1)
  | finite q => .ofNat (min ⌈q⌉.toNat (2 ^ 32 - 1))

-- `ceil() as usize`, of 64 bits.
def ceilToUsize : Binary64 → Nat
  | nan => 0
  | inf negative => if negative then 0 else 2 ^ 64 - 1
  | finite q => min ⌈q⌉.toNat (2 ^ 64 - 1)

def lt : Binary64 → Binary64 → Bool
  | nan, _ => false
  | _, nan => false
  | finite a, finite b => a < b
  | finite _, inf negative => !negative
  | inf negative, finite _ => negative
  | inf n, inf m => n && !m

def le : Binary64 → Binary64 → Bool
  | nan, _ => false
  | _, nan => false
  | finite a, finite b => a ≤ b
  | finite _, inf negative => !negative
  | inf negative, finite _ => negative
  | inf n, inf m => n || !m

/--
The root is scaled to more than 54 bits, and a half is added where it is not exact. That rounds as the root does.
-/
def sqrt : Binary64 → Binary64
  | nan => nan
  | inf negative => if negative then nan else inf false
  | finite q =>
    if q < 0 then nan
    else
      let scale := (110 - Int.log 2 q).toNat
      let root := ⌊q * 4 ^ scale⌋.toNat.sqrt
      if (root * root : ℚ) = q * 4 ^ scale then ofRat (root / 2 ^ scale) else ofRat ((root + 1 / 2) / 2 ^ scale)

-- `/`, where a zero to divide by is a positive one.
def divide (x y : Binary64) : Binary64 :=
  if y = finite 0 then
    match x with
    | nan => nan
    | inf negative => inf negative
    | finite a => if a = 0 then nan else inf (a < 0)
  else
    x.quot y

-- `Duration::as_secs_f64`
def ofNanos (nanos : Nat) : Binary64 :=
  (ofRat (nanos / 1000000000 : Nat)).add ((ofRat (nanos % 1000000000 : Nat)).div 1000000000)

section Parse

def signed : List Char → Bool × List Char
  | '-' :: rest => (true, rest)
  | '+' :: rest => (false, rest)
  | rest => (false, rest)

def isExponent (c : Char) : Bool := c = 'e' || c = 'E'

def digitsValue (cs : List Char) : Option ℕ :=
  if cs ≠ [] ∧ cs.all Char.isDigit then some (Nat.ofDigitChars 10 cs 0) else none

def exponent : List Char → Option ℤ
  | [] => some 0
  | _ :: rest =>
    match digitsValue (signed rest).2 with
    | none => none
    | some n => some (if (signed rest).1 then -n else n)

def mantissa (cs : List Char) : Option ℚ :=
  let whole := cs.takeWhile (· ≠ '.')
  let fraction := (cs.dropWhile (· ≠ '.')).drop 1
  match digitsValue (whole ++ fraction) with
  | none => none
  | some n => some (n / 10 ^ fraction.length)

def number (cs : List Char) : Option ℚ :=
  match mantissa (cs.takeWhile (!isExponent ·)), exponent (cs.dropWhile (!isExponent ·)) with
  | some q, some e => some (q * 10 ^ e)
  | _, _ => none

def special (negative : Bool) (cs : List Char) : Option Binary64 :=
  let lower := cs.map Char.toLower
  if lower = ['i', 'n', 'f'] ∨ lower = ['i', 'n', 'f', 'i', 'n', 'i', 't', 'y'] then some (inf negative)
  else if lower = ['n', 'a', 'n'] then some nan
  else none

def parse (cs : List Char) : Option Binary64 :=
  let (negative, body) := signed cs
  match number body with
  | some q => some (ofRat (if negative then -q else q))
  | none => special negative body

end Parse

theorem roundEven_intCast (z : ℤ) : roundEven z = z := by
  simp [roundEven]

/--
Every natural number with at most 53 bits is a binary64 number.
-/
theorem ofRat_natCast {n : ℕ} (h : n < 2 ^ 53) : ofRat n = finite n := by
  have hlog : Int.log 2 |(n : ℚ)| = Nat.log 2 n := by
    rw [Nat.abs_cast, Int.log_natCast]
  have hle : Nat.log 2 n ≤ 52 := Nat.lt_succ_iff.mp (Nat.log_lt_of_lt_pow' (by omega) h)
  have hexp : max (Int.log 2 |(n : ℚ)|) (-1022) - 52 = -((52 - Nat.log 2 n : ℕ) : ℤ) := by
    rw [hlog]
    omega
  have hquantum : quantum n = (2 ^ (52 - Nat.log 2 n))⁻¹ := by
    rw [quantum, hexp, zpow_neg, zpow_natCast]
  have hdiv : (n : ℚ) / quantum n = ((n * 2 ^ (52 - Nat.log 2 n) : ℤ) : ℚ) := by
    rw [hquantum, div_inv_eq_mul]
    push_cast
    rfl
  have hvalue : (roundEven (n / quantum n) : ℚ) * quantum n = n := by
    rw [hdiv, roundEven_intCast, hquantum]
    push_cast
    rw [mul_assoc, mul_inv_cancel₀ (by positivity), mul_one]
  have hsmall : |(n : ℚ)| < 2 ^ 1024 := by
    rw [Nat.abs_cast]
    calc (n : ℚ) < 2 ^ 53 := by exact_mod_cast h
      _ ≤ 2 ^ 1024 := by gcongr <;> norm_num
  unfold ofRat
  rw [hvalue, if_neg (not_le.mpr hsmall)]

section Digits

variable {cs : List Char} (hdigits : ∀ c ∈ cs, c.isDigit = true)
include hdigits

theorem signed_of_digits : signed cs = (false, cs) := by
  unfold signed
  split
  . cases hdigits '-' List.mem_cons_self
  . cases hdigits '+' List.mem_cons_self
  . rfl

theorem isExponent_of_digits : ∀ c ∈ cs, (!isExponent c) = true := by
  intro c hc
  have hdigit := hdigits c hc
  simp only [isExponent, Bool.not_eq_true', Bool.or_eq_false_iff, decide_eq_false_iff_not]
  constructor
  . rintro rfl
    cases hdigit
  . rintro rfl
    cases hdigit

theorem mantissa_of_digits (hne : cs ≠ []) : mantissa cs = some (Nat.ofDigitChars 10 cs 0 : ℚ) := by
  have hdot : ∀ c ∈ cs, decide (c ≠ '.') = true := by
    intro c hc
    rw [decide_eq_true_iff]
    rintro rfl
    cases hdigits '.' hc
  have hwhole : cs.takeWhile (· ≠ '.') = cs := List.takeWhile_eq_self_iff.mpr hdot
  have hfraction : cs.dropWhile (· ≠ '.') = [] := List.dropWhile_eq_nil_iff.mpr hdot
  have hall : cs.all Char.isDigit = true := List.all_eq_true.mpr hdigits
  have hvalue : digitsValue cs = some (Nat.ofDigitChars 10 cs 0) := if_pos ⟨hne, hall⟩
  unfold mantissa
  simp only [hwhole, hfraction, List.drop_nil, List.append_nil, hvalue, List.length_nil, pow_zero,
    div_one]

theorem parse_of_digits (hne : cs ≠ []) : parse cs = some (ofRat (Nat.ofDigitChars 10 cs 0)) := by
  have htake := List.takeWhile_eq_self_iff.mpr (isExponent_of_digits hdigits)
  have hdrop := List.dropWhile_eq_nil_iff.mpr (isExponent_of_digits hdigits)
  simp [parse, signed_of_digits hdigits, number, htake, hdrop, mantissa_of_digits hdigits hne, exponent]

end Digits

theorem roundToU64_natCast {n : ℕ} (h : n < 2 ^ 64) : roundToU64 (finite n) = UInt64.ofNat n := by
  have hnonneg : ¬ (n : ℚ) < 0 := not_lt.mpr (Nat.cast_nonneg n)
  have hfloor : ⌊(n : ℚ) + 1 / 2⌋ = n := by
    rw [Int.floor_eq_iff]
    constructor
    . push_cast
      linarith
    . push_cast
      linarith
  simp only [roundToU64]
  rw [if_neg hnonneg, hfloor, Int.toNat_natCast, Nat.min_eq_left (by omega)]

section Order

-- The value that `ofRat` takes where it does not overflow.
def round (q : ℚ) : ℚ := roundEven (q / quantum q) * quantum q

theorem ofRat_eq (q : ℚ) : ofRat q = if 2 ^ 1024 ≤ |round q| then inf (q < 0) else finite (round q) := rfl

theorem quantum_pos (q : ℚ) : 0 < quantum q := by
  exact zpow_pos (by norm_num) _

theorem floor_le_roundEven (q : ℚ) : ⌊q⌋ ≤ roundEven q ∧ roundEven q ≤ ⌊q⌋ + 1 := by
  unfold roundEven
  split
  . omega
  . split
    . omega
    . split <;> omega

theorem roundEven_mono {p q : ℚ} (h : p ≤ q) : roundEven p ≤ roundEven q := by
  rcases (Int.floor_le_floor h).lt_or_eq with hlt | heq
  . have hp := (floor_le_roundEven p).2
    have hq := (floor_le_roundEven q).1
    omega
  . unfold roundEven
    rw [heq]
    have hfract : p - ⌊q⌋ ≤ q - ⌊q⌋ := by linarith
    split_ifs <;> first | omega | (exfalso; linarith)

theorem round_nonneg {q : ℚ} (h : 0 ≤ q) : 0 ≤ round q := by
  have hquot : 0 ≤ q / quantum q := div_nonneg h (quantum_pos q).le
  have hround := roundEven_mono hquot
  rw [show (0 : ℚ) = ((0 : ℤ) : ℚ) by simp, roundEven_intCast] at hround
  unfold round
  have : (0 : ℚ) ≤ roundEven (q / quantum q) := by exact_mod_cast hround
  exact mul_nonneg this (quantum_pos q).le

-- A number that is a multiple of the quantum is not passed by rounding.
theorem round_le_of_le {q t : ℚ} {z : ℤ} (ht : t = z * quantum q) (h : q ≤ t) : round q ≤ t := by
  have hquot : q / quantum q ≤ z := by
    rw [div_le_iff₀ (quantum_pos q), ← ht]
    exact h
  have hround := roundEven_mono hquot
  rw [roundEven_intCast] at hround
  rw [ht, round]
  exact mul_le_mul_of_nonneg_right (by exact_mod_cast hround) (quantum_pos q).le

theorem le_round_of_le {q t : ℚ} {z : ℤ} (ht : t = z * quantum q) (h : t ≤ q) : t ≤ round q := by
  have hquot : z ≤ q / quantum q := by
    rw [le_div_iff₀ (quantum_pos q), ← ht]
    exact h
  have hround := roundEven_mono hquot
  rw [roundEven_intCast] at hround
  rw [ht, round]
  exact mul_le_mul_of_nonneg_right (by exact_mod_cast hround) (quantum_pos q).le

-- A power of two is a multiple of the quantum of every number up to it.
theorem exists_zpow_eq {q : ℚ} {e : ℤ} (h : max (Int.log 2 |q|) (-1022) - 52 ≤ e) : ∃ z : ℤ, (2 : ℚ) ^ e = z * quantum q := by
  obtain ⟨n, hn⟩ := Int.eq_ofNat_of_zero_le (sub_nonneg.mpr h)
  refine ⟨2 ^ n, ?_⟩
  rw [quantum]
  push_cast
  rw [← zpow_natCast, ← zpow_add₀ (by norm_num : (2 : ℚ) ≠ 0)]
  congr 1
  omega

/--
Rounding keeps the order.
-/
theorem round_mono {p q : ℚ} (hp : 0 < p) (h : p ≤ q) : round p ≤ round q := by
  have hlog : Int.log 2 |p| ≤ Int.log 2 |q| := by
    rw [abs_of_pos hp, abs_of_pos (hp.trans_le h)]
    exact Int.log_mono_right hp h
  by_cases heq : max (Int.log 2 |p|) (-1022) = max (Int.log 2 |q|) (-1022)
  . have hquantum : quantum p = quantum q := by
      rw [quantum, quantum, heq]
    unfold round
    rw [hquantum]
    have hround := roundEven_mono (div_le_div_of_nonneg_right h (quantum_pos q).le)
    exact mul_le_mul_of_nonneg_right (by exact_mod_cast hround) (quantum_pos q).le
  . -- The power of two in between is a fixed point of both roundings.
    have hq : (2 : ℚ) ^ Int.log 2 |q| ≤ q := by
      rw [abs_of_pos (hp.trans_le h)]
      exact Int.zpow_log_le_self (by norm_num) (hp.trans_le h)
    have hp' : p ≤ (2 : ℚ) ^ Int.log 2 |q| := by
      have hlt : p < (2 : ℚ) ^ (Int.log 2 |p| + 1) := by
        have := Int.lt_zpow_succ_log_self (b := 2) (by norm_num) |p|
        rw [abs_of_pos hp] at this ⊢
        exact_mod_cast this
      exact hlt.le.trans (zpow_le_zpow_right₀ (by norm_num) (by omega))
    obtain ⟨z, hz⟩ := exists_zpow_eq (q := p) (e := Int.log 2 |q|) (by omega)
    obtain ⟨y, hy⟩ := exists_zpow_eq (q := q) (e := Int.log 2 |q|) (by omega)
    exact (round_le_of_le hz hp').trans (le_round_of_le hy hq)

theorem ofRat_le_ofRat {p q : ℚ} (hp : 0 < p) (h : p ≤ q) : (ofRat p).le (ofRat q) = true := by
  have hround := round_mono hp h
  have hnonneg := round_nonneg hp.le
  rw [ofRat_eq, ofRat_eq, abs_of_nonneg hnonneg, abs_of_nonneg (hnonneg.trans hround)]
  have hp' : ¬p < 0 := not_lt.mpr hp.le
  have hq' : ¬q < 0 := not_lt.mpr (hp.le.trans h)
  split_ifs with h1 h2 h2
  . simp [le, hq']
  . exact absurd (h1.trans hround) h2
  . simp [le, hq']
  . simpa [le] using hround

theorem zero_le_ofRat {q : ℚ} (h : 0 ≤ q) : (finite 0).le (ofRat q) = true := by
  rw [ofRat_eq]
  split_ifs
  . simp [le, not_lt.mpr h]
  . simpa [le] using round_nonneg h

-- The smallest number that is not rounded with fewer digits.
def tiny : ℚ := 2 ^ (-1022 : ℤ)

theorem tiny_pos : 0 < tiny := zpow_pos (by norm_num) _

theorem tiny_le_one : tiny ≤ 1 := zpow_le_one_of_nonpos₀ (by norm_num) (by norm_num)

theorem tiny_le_ofRat {q : ℚ} (h : tiny ≤ q) : (finite tiny).le (ofRat q) = true := by
  have hlog : Int.log 2 |tiny| = -1022 := by
    rw [abs_of_pos tiny_pos]
    exact Int.log_zpow (by norm_num) _
  obtain ⟨z, hz⟩ := exists_zpow_eq (q := tiny) (e := -1022) (by rw [hlog]; omega)
  have hround := (le_round_of_le hz le_rfl).trans (round_mono tiny_pos h)
  rw [ofRat_eq]
  split_ifs
  . simp [le, not_lt.mpr (tiny_pos.le.trans h)]
  . exact decide_eq_true hround

theorem zero_lt_of_tiny_le {x : Binary64} (h : (finite tiny).le x = true) : (finite 0).lt x = true := by
  cases x with
  | nan => exact h
  | inf => exact h
  | finite q =>
    have hq : tiny ≤ q := by simpa [le] using h
    simpa [lt] using tiny_pos.trans_le hq

theorem tiny_le_add {x y : Binary64} (hx : (finite tiny).le x = true) (hy : (finite 0).le y = true)
    : (finite tiny).le (x.add y) = true ∧ (finite tiny).le (y.add x) = true := by
  cases x with
  | nan => cases hx
  | inf n => cases n <;> cases y <;> simp_all [le, add]
  | finite p =>
    cases y with
    | nan => cases hy
    | inf m => cases m <;> simp_all [le, add]
    | finite q =>
      have hp : tiny ≤ p := by simpa [le] using hx
      have hq : 0 ≤ q := by simpa [le] using hy
      exact ⟨tiny_le_ofRat (by linarith), tiny_le_ofRat (by linarith)⟩

theorem ofRat_of_le {q : ℚ} (hq : 0 ≤ q) (h : q ≤ 2 ^ 64) : ∃ v, ofRat q = finite v ∧ 0 ≤ v ∧ v ≤ 2 ^ 64 := by
  have hlog : Int.log 2 |q| ≤ 64 := by
    rw [abs_of_nonneg hq]
    rcases hq.eq_or_lt with rfl | hpos
    . simp
    . have := Int.log_mono_right (b := 2) hpos h
      rwa [show (2 : ℚ) ^ 64 = 2 ^ (64 : ℤ) by norm_cast, show (2 : ℚ) = ((2 : ℕ) : ℚ) by norm_num,
        Int.log_zpow (by norm_num)] at this
  obtain ⟨z, hz⟩ := exists_zpow_eq (q := q) (e := 64) (by omega)
  have hle : round q ≤ 2 ^ 64 := by
    apply round_le_of_le (z := z)
    . rw [← hz]
      norm_cast
    . exact h
  refine ⟨round q, ?_, round_nonneg hq, hle⟩
  rw [ofRat_eq, abs_of_nonneg (round_nonneg hq), if_neg]
  exact not_le.mpr (hle.trans_lt (pow_lt_pow_right₀ (by norm_num) (by norm_num)))

/--
A span that is not empty is a positive number of seconds.
-/
theorem zero_lt_ofNanos {nanos : Nat} (h : 0 < nanos) : (finite 0).lt (ofNanos nanos) = true := by
  have hrest : nanos % 1000000000 < 1000000000 := Nat.mod_lt _ (by norm_num)
  have hfraction : (ofRat (nanos % 1000000000 : Nat)).div 1000000000 =
      ofRat ((nanos % 1000000000 : Nat) / 1000000000) := by
    rw [ofRat_natCast (by omega)]
    rfl
  apply zero_lt_of_tiny_le
  rw [ofNanos, hfraction]
  by_cases hsecs : nanos / 1000000000 = 0
  . have hpos : 1 ≤ nanos % 1000000000 := by omega
    have hnano : tiny ≤ ((nanos % 1000000000 : Nat) : ℚ) / 1000000000 := by
      have hone : (1 : ℚ) ≤ (nanos % 1000000000 : Nat) := by exact_mod_cast hpos
      have : tiny ≤ 1 / 1000000000 := by
        calc tiny ≤ 2 ^ (-30 : ℤ) := zpow_le_zpow_right₀ (by norm_num) (by norm_num)
          _ ≤ 1 / 1000000000 := by norm_num
      linarith [div_le_div_of_nonneg_right hone (by norm_num : (0 : ℚ) ≤ 1000000000)]
    exact (tiny_le_add (tiny_le_ofRat hnano) (zero_le_ofRat (Nat.cast_nonneg _))).2
  . have hone : (1 : ℚ) ≤ (nanos / 1000000000 : Nat) := by exact_mod_cast Nat.pos_of_ne_zero hsecs
    refine (tiny_le_add (tiny_le_ofRat (tiny_le_one.trans hone)) (zero_le_ofRat ?_)).1
    positivity

theorem zero_le_divide {v : ℚ} {y : Binary64} (hv : 0 ≤ v) (hy : (finite 0).lt y = true)
    : (finite 0).le ((finite v).divide y) = true := by
  cases y with
  | nan => cases hy
  | inf negative =>
    cases negative with
    | true => cases hy
    | false => rfl
  | finite d =>
    have hd : 0 < d := by simpa [lt] using hy
    rw [divide, if_neg (by simpa using hd.ne')]
    exact zero_le_ofRat (div_nonneg hv hd.le)

end Order

end Binary64
