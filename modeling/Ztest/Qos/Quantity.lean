import Ztest.Lib.Binary64
import Ztest.Lib.Lines
import Ztest.Qos.Resources

/-!
This module contains Kubernetes quantities: the parser that `attr/src/footprint.rs` and `qos/units.rs`
share, and the texts that `component.rs` and `qos/mod.rs` render.
-/

namespace Qos

section Parse

def memUnits : List (Text × UInt64) :=
  [(['K', 'i'], 1024), (['M', 'i'], 1048576), (['G', 'i'], 1073741824), (['T', 'i'], 1099511627776),
    (['P', 'i'], 1125899906842624), (['E', 'i'], 1152921504606846976), (['k'], 1000), (['K'], 1000),
    (['M'], 1000000), (['G'], 1000000000), (['T'], 1000000000000), (['P'], 1000000000000000),
    (['E'], 1000000000000000000)]

-- The number before the first unit that `s` ends with.
def splitUnit (s : Text) : List (Text × UInt64) → Text × UInt64
  | [] => (s, 1)
  | (suffix, mult) :: rest =>
    match s.dropSuffix? suffix with
    | some num => (num, mult)
    | none => splitUnit s rest

def parseMemBytesOpt (s : Text) : Option UInt64 :=
  let (num, mult) := splitUnit (Decimal.trim s) memUnits
  let num := Decimal.trim num
  match Decimal.parse num with
  | some v => some (v.saturatingMul mult)
  | none =>
    match Binary64.parse num with
    | some f => some (f.maxZero.mul (.ofRat mult.toNat)).roundToU64
    | none => none

def parseMemBytes (s : Text) : UInt64 := (parseMemBytesOpt s).getD 0

def scaled (body : Text) (perMilli : ℚ) : Option UInt64 :=
  match Binary64.parse (Decimal.trim body) with
  | some v => some (v.div perMilli).roundToU64
  | none => none

def parseCpuMilliOpt (s : Text) : Option UInt64 :=
  let s := Decimal.trim s
  match s.dropSuffix? ['m'], s.dropSuffix? ['u'], s.dropSuffix? ['n'] with
  | some n, _, _ => Decimal.parse (Decimal.trim n)
  | none, some n, _ => scaled n 1000
  | none, none, some n => scaled n 1000000
  | none, none, none =>
    match Binary64.parse s with
    | some cores => some (cores.mul (.ofRat 1000)).roundToU64
    | none => none

def parseCpuMilli (s : Text) : UInt64 := (parseCpuMilliOpt s).getD 0

end Parse

section Render

def digits (n : UInt64) : Text := Nat.toDigits 10 n.toNat

structure Cpu where
  millicores : UInt64
  pos : 0 < millicores

def Cpu.toQuantity (c : Cpu) : Text :=
  if c.millicores % 1000 = 0 then digits (c.millicores / 1000) else digits c.millicores ++ ['m']

structure Mem where
  bytes : UInt64
  pos : 0 < bytes

def renderUnits : List (UInt64 × Text) := [(GIB, ['G', 'i']), (MIB, ['M', 'i']), (1024, ['K', 'i'])]

def renderBytes (bytes : UInt64) : List (UInt64 × Text) → Text
  | [] => digits bytes
  | (unit, suffix) :: rest =>
    if bytes % unit = 0 then digits (bytes / unit) ++ suffix else renderBytes bytes rest

def Mem.toQuantity (m : Mem) : Text := renderBytes m.bytes renderUnits

-- The CPU and memory quantities of a Guaranteed container.
def Resources.guaranteedCpuMem (r : Resources) : Option (Text × Text) :=
  if r.podSchedulable then
    let cores := (r.cpuMilli.toNat + 999) / 1000
    some (Nat.toDigits 10 (max cores 1), digits r.memBytes)
  else
    none

end Render

section Suffix

theorem dropSuffix?_append {num u v : Text} (hlen : u.length = v.length)
    : (num ++ u).dropSuffix? v = if u = v then some num else none := by
  split
  next h =>
    exact List.dropSuffix?_eq_some_iff.mpr ⟨u, rfl, by rw [h]; exact beq_self_eq_true v⟩
  next h =>
    cases hdrop : (num ++ u).dropSuffix? v with
    | none => rfl
    | some num' =>
      rcases List.dropSuffix?_eq_some_iff.mp hdrop with ⟨v', happ, heq⟩
      rw [beq_iff_eq] at heq
      subst heq
      exact absurd (List.append_inj_right' happ hlen) h

theorem dropSuffix?_of_getLast? {num v : Text} {c : Char} (hlast : v.getLast? = some c)
    (hnotMem : c ∉ num)
    : num.dropSuffix? v = none := by
  cases hdrop : num.dropSuffix? v with
  | none => rfl
  | some num' =>
    rcases List.dropSuffix?_eq_some_iff.mp hdrop with ⟨v', rfl, heq⟩
    rw [beq_iff_eq] at heq
    subst heq
    exact absurd (List.mem_append_right num' (List.mem_of_getLast? hlast)) hnotMem

theorem digit_notMem {n : Nat} {c : Char} (h : c.isDigit = false) : c ∉ Nat.toDigits 10 n := by
  intro hc
  rw [Decimal.isDigit_of_mem_toDigits hc] at h
  cases h

end Suffix

section RoundTrip

theorem trim_toDigits_append {n : Nat} {u : Text} (h : u.any Decimal.isWhitespace = false)
    : Decimal.trim (Nat.toDigits 10 n ++ u) = Nat.toDigits 10 n ++ u := by
  apply Decimal.trim_of_isWhitespace_eq_false
  intro c hc
  rcases List.mem_append.mp hc with hc | hc
  . exact Decimal.isWhitespace_of_isDigit (Decimal.isDigit_of_mem_toDigits hc)
  . exact Bool.eq_false_iff.mpr (List.any_eq_false.mp h c hc)

theorem trim_toDigits (n : Nat) : Decimal.trim (Nat.toDigits 10 n) = Nat.toDigits 10 n :=
  Decimal.trim_eq_self fun _ hc => Decimal.isDigit_of_mem_toDigits hc

theorem splitUnit_of_none {text : Text} {units : List (Text × UInt64)}
    (h : ∀ entry ∈ units, text.dropSuffix? entry.1 = none)
    : splitUnit text units = (text, 1) := by
  induction units with
  | nil => rfl
  | cons entry rest ih =>
    unfold splitUnit
    rw [h entry List.mem_cons_self]
    exact ih fun e he => h e (List.mem_cons_of_mem _ he)

theorem splitUnit_toDigits (n : Nat) : splitUnit (Nat.toDigits 10 n) memUnits = (Nat.toDigits 10 n, 1) := by
  have hletter : ∀ entry ∈ memUnits, ((entry.1.getLast?.getD '0').isDigit = false) := by decide
  apply splitUnit_of_none
  intro entry hentry
  have hdigit := hletter entry hentry
  cases hlast : entry.1.getLast? with
  | none =>
    rw [hlast] at hdigit
    cases hdigit
  | some c =>
    rw [hlast] at hdigit
    exact dropSuffix?_of_getLast? hlast (digit_notMem hdigit)

theorem parseMemBytes_digits (n : UInt64) : parseMemBytes (digits n) = n := by
  have hfit : n.toNat * (1 : UInt64).toNat < 2 ^ 64 := by
    rw [UInt64.toNat_one, mul_one]
    exact n.toNat_lt
  have hmul : n.saturatingMul 1 = n := by
    apply UInt64.toNat_inj.mp
    rw [UInt64.toNat_saturatingMul_of_lt hfit, UInt64.toNat_one, mul_one]
  simp [parseMemBytes, parseMemBytesOpt, digits, trim_toDigits, splitUnit_toDigits,
    Decimal.parse_toDigits, hmul]

theorem parseMemBytesOpt_unit {unit : UInt64} {suffix : Text} (hunit : (unit, suffix) ∈ renderUnits)
    (bytes : UInt64)
    : parseMemBytesOpt (digits (bytes / unit) ++ suffix) = some (bytes / unit * unit) := by
  have hsplit : ∀ ds : Text, splitUnit (ds ++ suffix) memUnits = (ds, unit) := by
    intro ds
    simp only [renderUnits, List.mem_cons, Prod.mk.injEq, List.not_mem_nil, or_false] at hunit
    rcases hunit with ⟨rfl, rfl⟩ | ⟨rfl, rfl⟩ | ⟨rfl, rfl⟩ <;>
      simp [splitUnit, memUnits, dropSuffix?_append, GIB, MIB]
  have hspace : suffix.any Decimal.isWhitespace = false := by
    simp only [renderUnits, List.mem_cons, Prod.mk.injEq, List.not_mem_nil, or_false] at hunit
    rcases hunit with ⟨rfl, rfl⟩ | ⟨rfl, rfl⟩ | ⟨rfl, rfl⟩ <;> decide
  have hfit : (bytes / unit).toNat * unit.toNat < 2 ^ 64 := by
    rw [UInt64.toNat_div]
    exact Nat.lt_of_le_of_lt (Nat.div_mul_le_self _ _) bytes.toNat_lt
  have hmul : (bytes / unit).saturatingMul unit = bytes / unit * unit := by
    apply UInt64.toNat_inj.mp
    rw [UInt64.toNat_saturatingMul_of_lt hfit, UInt64.toNat_mul, Nat.mod_eq_of_lt hfit]
  simp only [parseMemBytesOpt, digits, trim_toDigits_append hspace, hsplit, trim_toDigits,
    Decimal.parse_toDigits, hmul]

theorem div_mul_eq_iff {bytes unit : UInt64} : bytes / unit * unit = bytes ↔ bytes % unit = 0 := by
  have hdiv := Nat.div_add_mod' bytes.toNat unit.toNat
  have hfit : bytes.toNat / unit.toNat * unit.toNat < 2 ^ 64 :=
    Nat.lt_of_le_of_lt (Nat.div_mul_le_self _ _) bytes.toNat_lt
  rw [← UInt64.toNat_inj, ← UInt64.toNat_inj, UInt64.toNat_mul, UInt64.toNat_div,
    Nat.mod_eq_of_lt hfit, UInt64.toNat_mod, UInt64.toNat_zero]
  omega

theorem parseMemBytes_unit {unit : UInt64} {suffix : Text} (hunit : (unit, suffix) ∈ renderUnits)
    {bytes : UInt64} (hdvd : bytes % unit = 0)
    : parseMemBytes (digits (bytes / unit) ++ suffix) = bytes := by
  unfold parseMemBytes
  rw [parseMemBytesOpt_unit hunit, Option.getD_some, div_mul_eq_iff.mpr hdvd]

theorem parseMemBytes_renderBytes (bytes : UInt64) {units : List (UInt64 × Text)}
    (hunits : units ⊆ renderUnits)
    : parseMemBytes (renderBytes bytes units) = bytes := by
  induction units with
  | nil => exact parseMemBytes_digits bytes
  | cons entry rest ih =>
    unfold renderBytes
    split
    next hdvd => exact parseMemBytes_unit (hunits List.mem_cons_self) hdvd
    next => exact ih fun e he => hunits (List.mem_cons_of_mem _ he)

theorem parseMemBytes_toQuantity (m : Mem) : parseMemBytes m.toQuantity = m.bytes :=
  parseMemBytes_renderBytes m.bytes (List.Subset.refl _)

theorem parseCpuMilli_toDigits {cores : Nat} (h : cores * 1000 < 2 ^ 53)
    : parseCpuMilli (Nat.toDigits 10 cores) = UInt64.ofNat (cores * 1000) := by
  have hnone : ∀ c : Char, c.isDigit = false → (Nat.toDigits 10 cores).dropSuffix? [c] = none :=
    fun c hc => dropSuffix?_of_getLast? rfl (digit_notMem hc)
  have hparse : Binary64.parse (Nat.toDigits 10 cores) = some (.finite cores) := by
    rw [Binary64.parse_of_digits (fun _ hc => Decimal.isDigit_of_mem_toDigits hc) Nat.toDigits_ne_nil,
      Nat.ofDigitChars_ten_toDigits, Binary64.ofRat_natCast (by omega)]
  have hthousand : Binary64.ofRat 1000 = .finite 1000 := Binary64.ofRat_natCast (n := 1000) (by decide)
  have hmul : Binary64.mul (.finite cores) (.finite 1000) = .finite ((cores * 1000 : ℕ) : ℚ) := by
    have hexact := Binary64.ofRat_natCast h
    rw [← hexact]
    simp [Binary64.mul]
  simp only [parseCpuMilli, parseCpuMilliOpt, trim_toDigits, hnone 'm' rfl, hnone 'u' rfl, hnone 'n' rfl,
    hparse, hthousand, hmul, Option.getD_some]
  exact Binary64.roundToU64_natCast (by omega)

theorem parseCpuMilli_milli (n : UInt64) : parseCpuMilli (digits n ++ ['m']) = n := by
  have hspace : List.any ['m'] Decimal.isWhitespace = false := by decide
  simp [parseCpuMilli, parseCpuMilliOpt, digits, trim_toDigits_append hspace, dropSuffix?_append,
    trim_toDigits, Decimal.parse_toDigits]

theorem parseCpuMilli_toQuantity {c : Cpu} (h : c.millicores.toNat < 2 ^ 53)
    : parseCpuMilli c.toQuantity = c.millicores := by
  unfold Cpu.toQuantity
  split
  next hwhole =>
    have hmod := congrArg UInt64.toNat hwhole
    rw [UInt64.toNat_mod] at hmod
    have hprod : c.millicores.toNat / 1000 * 1000 = c.millicores.toNat :=
      Nat.div_mul_cancel (Nat.dvd_of_mod_eq_zero hmod)
    have hcores : (c.millicores / 1000).toNat = c.millicores.toNat / 1000 := UInt64.toNat_div ..
    have hfit : c.millicores.toNat / 1000 * 1000 < 2 ^ 53 := by
      rw [hprod]
      exact h
    unfold digits
    rw [hcores, parseCpuMilli_toDigits hfit, hprod, UInt64.ofNat_toNat]
  next => exact parseCpuMilli_milli c.millicores

end RoundTrip

end Qos
