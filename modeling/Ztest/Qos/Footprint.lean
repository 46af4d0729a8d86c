import Ztest.Qos.Quantity

/-!
This module contains the grammar of `footprint = "<cpu>/<mem>[/<disk>]"` (`attr/src/footprint.rs`), that
what it accepts sizes a pod, and which of the dense cells that `Resources::compact` renders (`qos/mod.rs`)
it reads back.
-/

namespace Qos

structure Footprint where
  cpuMilli : UInt64
  memBytes : UInt64
  diskBytes : Option UInt64
  diskBps : Option UInt64
  diskIops : Option UInt64
  deriving DecidableEq

inductive FootprintError where
  | segments (s : Text)
  | tooManySegments (s : Text)
  | cpuNotWhole (s number : Text)
  | cpuOverflows (s : Text)
  | cpuUnit (s : Text)
  | cpuZero
  | cpuFractional (s : Text) (milli : UInt64)
  | memUnit (s : Text)
  | memNotQuantity (s : Text)
  | memZero
  | diskUnit (s : Text)
  | diskNotQuantity (s : Text)
  | diskZero
  deriving DecidableEq

def Resources.fromFootprint (f : Footprint) : Resources :=
  (Resources.new f.cpuMilli f.memBytes (f.diskBps.getD 0) (f.diskIops.getD 0)).withDisk (f.diskBytes.getD 0)

-- `{:.1}` of a number, the nearest tenth with ties to even.
def fixed1 : Binary64 → Text
  | .nan => ['N', 'a', 'N']
  | .inf negative => (if negative then ['-'] else []) ++ ['i', 'n', 'f']
  | .finite q =>
    let tenths := (Binary64.roundEven (|q| * 10)).toNat
    (if q < 0 then ['-'] else []) ++ Nat.toDigits 10 (tenths / 10) ++ '.' :: Nat.toDigits 10 (tenths % 10)

def compactBytes (b : UInt64) : Text :=
  if GIB ≤ b then digits (b / GIB) ++ ['G', 'i'] else digits (b / MIB) ++ ['M', 'i']

namespace Resources

def compactCpu (r : Resources) : Text :=
  if r.cpuMilli = 0 ∨ r.cpuMilli % 1000 = 0 then digits (r.cpuMilli / 1000) ++ ['c']
  else fixed1 ((Binary64.ofRat r.cpuMilli.toNat).div 1000) ++ ['c']

def compactMem (r : Resources) : Text := compactBytes r.memBytes

def compact (r : Resources) : Text :=
  if r.diskBytes = 0 ∨ r.diskBytes = .maxValue then r.compactCpu ++ '/' :: r.compactMem
  else r.compactCpu ++ '/' :: (r.compactMem ++ '/' :: compactBytes r.diskBytes)

end Resources

-- The unit that `compactBytes` counts in.
def compactUnit (b : UInt64) : UInt64 := if GIB ≤ b then GIB else MIB

theorem compactBytes_eq (b : UInt64)
    : ∃ suffix, (compactUnit b, suffix) ∈ renderUnits
        ∧ compactBytes b = digits (b / compactUnit b) ++ suffix := by
  unfold compactBytes compactUnit
  split
  next => exact ⟨['G', 'i'], by simp [renderUnits], rfl⟩
  next => exact ⟨['M', 'i'], by simp [renderUnits], rfl⟩

theorem slash_notMem_append {n : UInt64} {suffix : Text} (h : '/' ∉ suffix) : '/' ∉ digits n ++ suffix := by
  rw [List.mem_append, not_or]
  exact ⟨digit_notMem rfl, h⟩

namespace Footprint

def cpuMilliOf (s : Text) : Except FootprintError UInt64 :=
  match s.dropSuffix? ['c'], s.dropSuffix? ['m'] with
  | some n, _ =>
    match Decimal.parse (Decimal.trim n) with
    | none => .error (.cpuNotWhole s (Decimal.trim n))
    | some cores => if cores.toNat * 1000 < 2 ^ 64 then .ok (cores * 1000) else .error (.cpuOverflows s)
  | none, some n =>
    match Decimal.parse (Decimal.trim n) with
    | none => .error (.cpuNotWhole s (Decimal.trim n))
    | some milli => .ok milli
  | none, none => .error (.cpuUnit s)

def parseCpu (s : Text) : Except FootprintError UInt64 :=
  match cpuMilliOf s with
  | .error e => .error e
  | .ok milli =>
    if milli = 0 then .error .cpuZero
    else if milli % 1000 ≠ 0 then .error (.cpuFractional s milli)
    else .ok milli

def endsInUnit (s : Text) : Bool :=
  match s.getLast? with
  | none => false
  | some c => c.isAlpha

-- Memory and disk differ in what they report.
def parseBytes (unit notQuantity : Text → FootprintError) (zero : FootprintError) (s : Text)
    : Except FootprintError UInt64 :=
  if endsInUnit s then
    match parseMemBytesOpt s with
    | none => .error (notQuantity s)
    | some bytes => if bytes = 0 then .error zero else .ok bytes
  else
    .error (unit s)

def parseMem : Text → Except FootprintError UInt64 := parseBytes .memUnit .memNotQuantity .memZero

def parseDisk : Text → Except FootprintError UInt64 := parseBytes .diskUnit .diskNotQuantity .diskZero

def parseSegments (cpu mem : Text) (disk : Option Text) : Except FootprintError Footprint :=
  match parseCpu (Decimal.trim cpu), parseMem (Decimal.trim mem) with
  | .error e, _ => .error e
  | .ok _, .error e => .error e
  | .ok cpuMilli, .ok memBytes =>
    match disk with
    | none => .ok ⟨cpuMilli, memBytes, none, none, none⟩
    | some d =>
      match parseDisk (Decimal.trim d) with
      | .error e => .error e
      | .ok diskBytes => .ok ⟨cpuMilli, memBytes, some diskBytes, none, none⟩

def parse (s : Text) : Except FootprintError Footprint :=
  match s.splitOn '/' with
  | [cpu, mem] => parseSegments cpu mem none
  | [cpu, mem, disk] => parseSegments cpu mem (some disk)
  | _ :: _ :: _ :: _ :: _ => .error (.tooManySegments s)
  | _ => .error (.segments s)

theorem parseCpu_ok {s : Text} {milli : UInt64} (h : parseCpu s = .ok milli)
    : 0 < milli ∧ milli % 1000 = 0 := by
  unfold parseCpu at h
  split at h
  next => cases h
  next =>
    split at h
    next => cases h
    next hpos =>
      split at h
      next => cases h
      next hwhole =>
        injection h with heq
        subst heq
        exact ⟨UInt64.pos_iff_ne_zero.mpr hpos, Classical.not_not.mp hwhole⟩

theorem parseBytes_ok {unit notQuantity : Text → FootprintError} {zero : FootprintError} {s : Text}
    {bytes : UInt64} (h : parseBytes unit notQuantity zero s = .ok bytes)
    : 0 < bytes := by
  unfold parseBytes at h
  split at h
  next =>
    split at h
    next => cases h
    next =>
      split at h
      next => cases h
      next hpos =>
        injection h with heq
        subst heq
        exact UInt64.pos_iff_ne_zero.mpr hpos
  next => cases h

def DiskReads : Option Text → Option UInt64 → Prop
  | none, bytes => bytes = none
  | some _, none => False
  | some disk, some bytes => parseDisk (Decimal.trim disk) = .ok bytes

theorem parseSegments_eq_ok {cpu mem : Text} {disk : Option Text} {f : Footprint}
    : parseSegments cpu mem disk = .ok f
        ↔ parseCpu (Decimal.trim cpu) = .ok f.cpuMilli ∧ parseMem (Decimal.trim mem) = .ok f.memBytes
          ∧ DiskReads disk f.diskBytes ∧ f.diskBps = none ∧ f.diskIops = none := by
  rcases f with ⟨cpuMilli, memBytes, diskBytes, diskBps, diskIops⟩
  unfold parseSegments
  cases hcpu : parseCpu (Decimal.trim cpu) with
  | error e => simp
  | ok =>
    cases hmem : parseMem (Decimal.trim mem) with
    | error e => simp
    | ok =>
      cases disk with
      | none => simp [DiskReads, eq_comm]
      | some disk =>
        cases hdisk : parseDisk (Decimal.trim disk) with
        | error e => cases diskBytes <;> simp [DiskReads, hdisk]
        | ok => cases diskBytes <;> simp [DiskReads, hdisk, eq_comm]

theorem parse_eq_ok {s : Text} {f : Footprint} (h : parse s = .ok f)
    : ∃ cpu mem disk, parseSegments cpu mem disk = .ok f := by
  unfold parse at h
  split at h
  next cpu mem _ => exact ⟨cpu, mem, none, h⟩
  next cpu mem disk _ => exact ⟨cpu, mem, some disk, h⟩
  next => cases h
  next => cases h

-- What the grammar promises of every footprint it accepts.
structure Accepted (f : Footprint) : Prop where
  cpuPos : 0 < f.cpuMilli
  cpuWhole : f.cpuMilli % 1000 = 0
  memPos : 0 < f.memBytes
  diskPos : ∀ bytes ∈ f.diskBytes, 0 < bytes
  bps : f.diskBps = none
  iops : f.diskIops = none

theorem accepted_of_parse {s : Text} {f : Footprint} (h : parse s = .ok f) : f.Accepted := by
  rcases parse_eq_ok h with ⟨cpu, mem, disk, hf⟩
  rcases parseSegments_eq_ok.mp hf with ⟨hcpu, hmem, hdisk, hbps, hiops⟩
  rcases parseCpu_ok hcpu with ⟨hpos, hwhole⟩
  refine ⟨hpos, hwhole, parseBytes_ok hmem, ?_, hbps, hiops⟩
  intro bytes hbytes
  rw [Option.mem_def.mp hbytes] at hdisk
  cases disk with
  | none => cases hdisk
  | some disk => exact parseBytes_ok hdisk

/--
What the grammar accepts is a whole number of cores and sizes a Guaranteed pod, so no tier refuses it.
-/
theorem profileWith_of_parse {s : Text} {f : Footprint} (h : parse s = .ok f) (tier : QosClass)
    : (Resources.fromFootprint f).cpuMilli % 1000 = 0
        ∧ tier.profileWith (some (.fromFootprint f))
          = some { tier.profile with footprint := .fromFootprint f } := by
  have hacc := accepted_of_parse h
  have hpod : (Resources.fromFootprint f).podSchedulable = true := by
    unfold Resources.podSchedulable
    rw [Bool.and_eq_true, decide_eq_true_iff, decide_eq_true_iff]
    exact ⟨hacc.cpuPos, hacc.memPos⟩
  have hne : Resources.fromFootprint f ≠ .zero := by
    intro hzero
    rw [hzero] at hpod
    cases hpod
  refine ⟨hacc.cpuWhole, ?_⟩
  simp [QosClass.profileWith, QosProfile.withFootprint, hpod, hne]

theorem renderUnits_suffix {unit : UInt64} {suffix : Text} (h : (unit, suffix) ∈ renderUnits)
    : suffix.any Decimal.isWhitespace = false ∧ '/' ∉ suffix
        ∧ ∀ ds : Text, endsInUnit (ds ++ suffix) = true := by
  simp only [renderUnits, List.mem_cons, Prod.mk.injEq, List.not_mem_nil, or_false] at h
  rcases h with ⟨_, rfl⟩ | ⟨_, rfl⟩ | ⟨_, rfl⟩
  all_goals
    refine ⟨by decide, by decide, fun ds => ?_⟩
    unfold endsInUnit
    rw [List.getLast?_append]
    rfl

theorem slash_notMem_compactBytes (b : UInt64) : '/' ∉ compactBytes b := by
  rcases compactBytes_eq b with ⟨suffix, hunit, heq⟩
  rw [heq]
  exact slash_notMem_append (renderUnits_suffix hunit).2.1

theorem parseBytes_compactBytes {unit notQuantity : Text → FootprintError} {zero : FootprintError}
    {b : UInt64} (hpos : 0 < b)
    : parseBytes unit notQuantity zero (Decimal.trim (compactBytes b)) = .ok b
        ↔ b % compactUnit b = 0 := by
  rcases compactBytes_eq b with ⟨suffix, hunit, heq⟩
  rcases renderUnits_suffix hunit with ⟨hspace, _, hletter⟩
  have htrim : Decimal.trim (compactBytes b) = digits (b / compactUnit b) ++ suffix := by
    rw [heq]
    exact trim_toDigits_append hspace
  unfold parseBytes
  rw [htrim, if_pos (hletter _)]
  simp only [parseMemBytesOpt_unit hunit]
  rw [← div_mul_eq_iff]
  split
  next hzero =>
    rw [hzero]
    simp [(UInt64.pos_iff_ne_zero.mp hpos).symm]
  next => simp

theorem parseCpu_compactCpu {r : Resources} (hpos : 0 < r.cpuMilli) (hwhole : r.cpuMilli % 1000 = 0)
    : parseCpu (Decimal.trim r.compactCpu) = .ok r.cpuMilli := by
  have htrim : Decimal.trim r.compactCpu = digits (r.cpuMilli / 1000) ++ ['c'] := by
    unfold Resources.compactCpu
    rw [if_pos (Or.inr hwhole)]
    exact trim_toDigits_append (by decide)
  have hfit : (r.cpuMilli / 1000).toNat * 1000 < 2 ^ 64 := by
    rw [UInt64.toNat_div]
    exact Nat.lt_of_le_of_lt (Nat.div_mul_le_self _ _) r.cpuMilli.toNat_lt
  have hcores : cpuMilliOf (digits (r.cpuMilli / 1000) ++ ['c']) = .ok r.cpuMilli := by
    unfold cpuMilliOf
    rw [dropSuffix?_append rfl, if_pos rfl]
    simp only [digits, trim_toDigits, Decimal.parse_toDigits]
    rw [if_pos hfit, div_mul_eq_iff.mpr hwhole]
  unfold parseCpu
  rw [htrim, hcores]
  simp [UInt64.pos_iff_ne_zero.mp hpos, hwhole]

theorem parse_two {cpu mem : Text} (hcpu : '/' ∉ cpu) (hmem : '/' ∉ mem)
    : parse (cpu ++ '/' :: mem) = parseSegments cpu mem none := by
  unfold parse
  rw [List.splitOn_append_cons_self_of_not_mem hcpu, List.splitOn_eq_singleton hmem]

theorem parse_three {cpu mem disk : Text} (hcpu : '/' ∉ cpu) (hmem : '/' ∉ mem) (hdisk : '/' ∉ disk)
    : parse (cpu ++ '/' :: (mem ++ '/' :: disk)) = parseSegments cpu mem (some disk) := by
  unfold parse
  rw [List.splitOn_append_cons_self_of_not_mem hcpu, List.splitOn_append_cons_self_of_not_mem hmem,
    List.splitOn_eq_singleton hdisk]

theorem maxValue_mod_compactUnit : UInt64.maxValue % compactUnit .maxValue ≠ 0 := by
  decide

theorem parse_compact_eq {f : Footprint} (hacc : f.Accepted)
    : parse (Resources.fromFootprint f).compact
        =
      parseSegments (Resources.fromFootprint f).compactCpu (compactBytes f.memBytes)
        (if f.diskBytes = some .maxValue then none else f.diskBytes.map compactBytes) := by
  have hcpu : '/' ∉ (Resources.fromFootprint f).compactCpu := by
    unfold Resources.compactCpu
    rw [if_pos (Or.inr (show (Resources.fromFootprint f).cpuMilli % 1000 = 0 from hacc.cpuWhole))]
    exact slash_notMem_append (by decide)
  have hmem := slash_notMem_compactBytes f.memBytes
  have hdisk : (Resources.fromFootprint f).diskBytes = f.diskBytes.getD 0 := rfl
  unfold Resources.compact
  rw [hdisk]
  cases hbytes : f.diskBytes with
  | none => exact parse_two hcpu hmem
  | some bytes =>
    have hpos := UInt64.pos_iff_ne_zero.mp (hacc.diskPos bytes hbytes)
    by_cases hmax : bytes = .maxValue
    . simp only [Option.getD_some, hmax, or_true, if_true]
      exact parse_two hcpu hmem
    . simp only [Option.getD_some, hpos, hmax, or_self, if_false, Option.some.injEq, Option.map_some]
      exact parse_three hcpu hmem (slash_notMem_compactBytes bytes)

/--
The dense cell of an accepted footprint is read back as it exactly when each of its byte counts is a
whole number of gibibytes from one gibibyte up, and of mebibytes below.
-/
theorem parse_compact_iff {s : Text} {f : Footprint} (h : parse s = .ok f)
    : parse (Resources.fromFootprint f).compact = .ok f
        ↔ f.memBytes % compactUnit f.memBytes = 0
          ∧ ∀ bytes ∈ f.diskBytes, bytes % compactUnit bytes = 0 := by
  have hacc := accepted_of_parse h
  have hcpu : parseCpu (Decimal.trim (Resources.fromFootprint f).compactCpu) = .ok f.cpuMilli :=
    parseCpu_compactCpu hacc.cpuPos hacc.cpuWhole
  have hmem : parseMem (Decimal.trim (compactBytes f.memBytes)) = .ok f.memBytes
      ↔ f.memBytes % compactUnit f.memBytes = 0 := parseBytes_compactBytes hacc.memPos
  have hdisk : DiskReads (if f.diskBytes = some .maxValue then none else f.diskBytes.map compactBytes)
      f.diskBytes ↔ ∀ bytes ∈ f.diskBytes, bytes % compactUnit bytes = 0 := by
    cases hbytes : f.diskBytes with
    | none => simp [DiskReads]
    | some bytes =>
      by_cases hmax : bytes = .maxValue
      . simp [DiskReads, hmax, maxValue_mod_compactUnit]
      . have hread : parseDisk (Decimal.trim (compactBytes bytes)) = .ok bytes
            ↔ bytes % compactUnit bytes = 0 := parseBytes_compactBytes (hacc.diskPos bytes hbytes)
        simp [DiskReads, hmax, hread]
  rw [parse_compact_eq hacc, parseSegments_eq_ok, hmem, hdisk]
  simp [hcpu, hacc.bps, hacc.iops]

theorem parse_compact_whole
    : parse (Resources.fromFootprint ⟨15000, 29 * GIB, some (400 * GIB), none, none⟩).compact
        = .ok ⟨15000, 29 * GIB, some (400 * GIB), none, none⟩
        ↔ (29 * GIB) % compactUnit (29 * GIB) = 0
          ∧ ∀ bytes ∈ some (400 * GIB), bytes % compactUnit bytes = 0 :=
  parse_compact_iff (s := "15c/29Gi/400Gi".toList) (by decide +kernel)

-- `1500Mi` is printed as `1Gi`.
theorem compact_loses_mebibytes
    : ¬∀ (s : Text) (f : Footprint), parse s = .ok f
        → parse (Resources.fromFootprint f).compact = .ok f := by
  intro h
  have hread := h "1c/1500Mi".toList ⟨1000, 1500 * MIB, none, none, none⟩ (by decide +kernel)
  have hcell : parse (Resources.fromFootprint ⟨1000, 1500 * MIB, none, none, none⟩).compact
      = .ok ⟨1000, GIB, none, none, none⟩ := by
    decide +kernel
  rw [hcell] at hread
  exact absurd hread (by decide)

end Footprint
end Qos
