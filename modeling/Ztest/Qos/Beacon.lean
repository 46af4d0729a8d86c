import Ztest.Lib.Decimal
import Ztest.Qos.Ledger.Impl

/-!
This module contains the run status of `qos/beacon.rs` as it is published on a lease, and the part of
`Reservation::adopt` that reads it back. JSON is the parameter `Json`. Instants and durations are
`Nat`.

The round trip of a run status goes through its lease. The record carries all of it, and the reserve is read from
the index annotations nonetheless, which have no disk dimension.
-/

namespace Qos

namespace Ledger.LeaseKind

def asStr : LeaseKind → String
  | .run => "run"
  | .build => "build"
  | .sync => "sync"
  | .claim => "claim"

def parse (s : String) : LeaseKind :=
  if s = "build" then .build
  else if s = "sync" then .sync
  else if s = "claim" then .claim
  else .run

end Ledger.LeaseKind

structure Beacon.RunningTest where
  name : String
  footprint : Resources
  startedAt : Nat

structure Beacon where
  runId : String
  user : String
  kind : Ledger.LeaseKind
  reserve : Resources
  startedAt : Nat
  total : UInt32
  queued : UInt32
  failed : UInt32
  running : List Beacon.RunningTest
  runningCount : UInt32
  runningFootprint : Resources
  needs : Option Resources
  etaOverride : Option Nat

structure Json where
  toText : Beacon → String
  ofText : String → Option Beacon

-- The metadata and the holder of a `Lease` as the API server keeps it.
structure LeaseObject where
  name : Option String
  labels : Option (AList fun _ : String => String)
  annotations : Option (AList fun _ : String => String)
  creationTimestamp : Option Nat
  holderIdentity : Option String

def labelRunId : String := "ztest.io/run-id"

def labelUser : String := "ztest.io/user"

namespace Beacon

def annReserveCpu : String := "ztest.io/reserve-cpu-milli"

def annReserveMem : String := "ztest.io/reserve-mem-bytes"

def annKind : String := "ztest.io/kind"

def annBeacon : String := "ztest.io/beacon"

def maxRunning : Nat := 8

structure Progress where
  total : UInt32
  queued : UInt32
  failed : UInt32
  running : List RunningTest
  etaOverride : Option Nat

def new (runId user : String) (kind : Ledger.LeaseKind) (reserve : Resources) (now : Nat)
    : Beacon where
  runId := runId
  user := user
  kind := kind
  reserve := reserve
  startedAt := now
  total := 0
  queued := 0
  failed := 0
  running := []
  runningCount := 0
  runningFootprint := .zero
  needs := none
  etaOverride := none

def footprintOf (running : List RunningTest) : Resources :=
  running.foldl (fun acc t => acc.saturatingAdd t.footprint) .zero

def apply (b : Beacon) (p : Progress) : Beacon :=
  { b with
    total := p.total
    queued := p.queued
    failed := p.failed
    etaOverride := p.etaOverride
    runningCount := .ofNat p.running.length
    runningFootprint := footprintOf p.running
    running := p.running }

def elided (b : Beacon) : Option (UInt32 × Resources) :=
  let listed := UInt32.ofNat b.running.length
  let n := if listed ≤ b.runningCount then b.runningCount - listed else 0
  if n > 0 then
    some (n, b.runningFootprint.saturatingSub (footprintOf b.running))
  else
    none

def wire (b : Beacon) : Beacon := { b with running := b.running.take maxRunning }

def annotations (json : Json) (b : Beacon) : AList fun _ : String => String :=
  ((((∅ : AList fun _ : String => String).insert annReserveCpu (Decimal.toText b.reserve.cpuMilli)).insert
    annReserveMem (Decimal.toText b.reserve.memBytes)).insert
    annKind b.kind.asStr).insert
    annBeacon (json.toText b.wire)

def num (ann : AList fun _ : String => String) (k : String) : UInt64 :=
  ((ann.lookup k).bind Decimal.parseU64).getD 0

def kindOf (ann : AList fun _ : String => String) : Ledger.LeaseKind :=
  ((ann.lookup annKind).map .parse).getD .run

def indexedReserve (ann : AList fun _ : String => String) : Resources :=
  .new (num ann annReserveCpu) (num ann annReserveMem) 0 0

def record (json : Json) (ann : AList fun _ : String => String) (creationTimestamp : Option Nat)
    : Option Beacon :=
  match (ann.lookup annBeacon).bind json.ofText with
  | some b => some b
  | none =>
    creationTimestamp.map fun startedAt => new "" "?" (kindOf ann) (indexedReserve ann) startedAt

def decode (json : Json) (lease : LeaseObject) : Option Beacon := do
  let runId ← lease.name
  let ann ← lease.annotations
  let beacon ← record json ann lease.creationTimestamp
  let user := (lease.labels.bind (·.lookup labelUser)).getD "?"
  return { beacon with runId, user, reserve := indexedReserve ann }

end Beacon

def leaseObject (json : Json) (runId user holder : String) (beacon : Beacon) : LeaseObject where
  name := some runId
  labels := some (((∅ : AList fun _ : String => String).insert labelRunId runId).insert labelUser user)
  annotations := some (beacon.annotations json)
  creationTimestamp := none
  holderIdentity := some holder

structure Adoption where
  -- What the adopter renews from here on.
  reserve : Resources
  written : LeaseObject

/--
`Reservation::adopt` once the lease has been read. A lease that does not decode is its panic.
-/
def adopt (json : Json) (id holder : String) (lease : LeaseObject) : Option Adoption := do
  let beacon ← Beacon.decode json lease
  return ⟨beacon.reserve, leaseObject json id beacon.user holder beacon⟩

end Qos

namespace Qos.Beacon

variable {json : Json} {b : Beacon}

theorem lookup_annotations_cpu
    : (b.annotations json).lookup annReserveCpu = some (Decimal.toText b.reserve.cpuMilli) := by
  unfold annotations
  rw [AList.lookup_insert_ne (by decide), AList.lookup_insert_ne (by decide),
    AList.lookup_insert_ne (by decide), AList.lookup_insert]

theorem lookup_annotations_mem
    : (b.annotations json).lookup annReserveMem = some (Decimal.toText b.reserve.memBytes) := by
  unfold annotations
  rw [AList.lookup_insert_ne (by decide), AList.lookup_insert_ne (by decide), AList.lookup_insert]

theorem lookup_annotations_beacon
    : (b.annotations json).lookup annBeacon = some (json.toText b.wire) := by
  unfold annotations
  rw [AList.lookup_insert]

theorem indexedReserve_annotations
    : indexedReserve (b.annotations json) = .new b.reserve.cpuMilli b.reserve.memBytes 0 0 := by
  unfold indexedReserve num
  rw [lookup_annotations_cpu, lookup_annotations_mem]
  simp

/--
`lease` is named after the run of `b`, labelled with its user and carries its annotations.
-/
structure Carries (json : Json) (b : Beacon) (lease : LeaseObject) : Prop where
  name : lease.name = some b.runId
  label : lease.labels.bind (·.lookup labelUser) = some b.user
  annotations : lease.annotations = some (b.annotations json)

theorem decode_eq {lease : LeaseObject} (h : Carries json b lease)
    (hjson : json.ofText (json.toText b.wire) = some b.wire)
    : decode json lease
        =
      some { b.wire with reserve := .new b.reserve.cpuMilli b.reserve.memBytes 0 0 } := by
  have hrecord : record json (b.annotations json) lease.creationTimestamp = some b.wire := by
    unfold record
    rw [lookup_annotations_beacon, Option.bind_some, hjson]
  unfold decode
  rw [h.name, h.annotations, h.label]
  simp only [Option.bind_eq_bind, Option.bind_some, hrecord, indexedReserve_annotations]
  rfl

theorem amt_footprintOf (running : List RunningTest) (d : Dim)
    : (footprintOf running).amt d
        =
      min ((running.map fun t => t.footprint.amt d).sum) (2 ^ 64 - 1) := by
  unfold footprintOf
  rw [Resources.amt_foldl_saturatingAdd]
  simp

/--
What `elided` has to say when the entries of `cut` are not on the list: how many they are and what
they hold together.
-/
def ElidedExactly (cut : List RunningTest) (e : Option (UInt32 × Resources)) : Prop :=
  match e with
  | none => cut = []
  | some (n, held) =>
    cut ≠ [] ∧ n.toNat = cut.length ∧
      ∀ d, held.amt d = (cut.map fun t => t.footprint.amt d).sum

theorem elidedExactly_take {b₀ : Beacon} {p : Progress} (reserve : Resources)
    (hcount : p.running.length < 2 ^ 32)
    (hfootprint : ∀ d, (p.running.map fun t => t.footprint.amt d).sum < 2 ^ 64)
    : ElidedExactly (p.running.drop maxRunning)
        ({ (b₀.apply p).wire with reserve } : Beacon).elided := by
  have hsum : ∀ d, ((p.running.take maxRunning).map fun t => t.footprint.amt d).sum
      + ((p.running.drop maxRunning).map fun t => t.footprint.amt d).sum
      = (p.running.map fun t => t.footprint.amt d).sum := by
    intro d
    rw [← List.sum_append, ← List.map_append, List.take_append_drop]
  have hlisted : (p.running.take maxRunning).length = min maxRunning p.running.length :=
    List.length_take
  have hdropped : (p.running.drop maxRunning).length = p.running.length - maxRunning :=
    List.length_drop
  have hlt : (p.running.take maxRunning).length < 2 ^ 32 := by omega
  have hle : UInt32.ofNat (p.running.take maxRunning).length ≤ UInt32.ofNat p.running.length := by
    rw [UInt32.le_iff_toNat_le, UInt32.toNat_ofNat_of_lt' hlt, UInt32.toNat_ofNat_of_lt' hcount]
    omega
  have hn : (UInt32.ofNat p.running.length
      - UInt32.ofNat (p.running.take maxRunning).length).toNat
      = (p.running.drop maxRunning).length := by
    rw [UInt32.toNat_sub_of_le _ _ hle, UInt32.toNat_ofNat_of_lt' hlt,
      UInt32.toNat_ofNat_of_lt' hcount]
    omega
  unfold elided wire apply
  simp only [if_pos hle]
  split
  . next hpos =>
    rw [gt_iff_lt, UInt32.lt_iff_toNat_lt, hn] at hpos
    refine ⟨List.ne_nil_of_length_pos hpos, hn, ?_⟩
    intro d
    have h₁ := hsum d
    have h₂ := hfootprint d
    rw [Resources.amt_saturatingSub, amt_footprintOf, amt_footprintOf]
    omega
  . next hzero =>
    rw [gt_iff_lt, UInt32.lt_iff_toNat_lt, hn] at hzero
    apply List.eq_nil_of_length_eq_zero
    simp at hzero
    omega

/--
The lease gives the status back: equal in every field but for the list, which is cut to its first
`maxRunning` entries, with the cut entries accounted for, and an adopter renews the same reserve.
-/
structure RoundTrips (json : Json) (b : Beacon) (lease : LeaseObject) (holder : String) : Prop where
  decoded : decode json lease = some { b with running := b.running.take maxRunning }
  elided : ∀ d, decode json lease = some d → ElidedExactly (b.running.drop maxRunning) d.elided
  adopted : (adopt json b.runId holder lease).map (·.reserve) = some b.reserve

theorem new_eq_iff (r : Resources)
    : Resources.new r.cpuMilli r.memBytes 0 0 = r ↔
        r.diskBps = 0 ∧ r.diskIops = 0 ∧ r.diskBytes = 0 := by
  rcases r with ⟨cpuMilli, memBytes, diskBps, diskIops, diskBytes⟩
  simp only [Resources.new, Resources.mk.injEq, true_and]
  constructor
  . rintro ⟨rfl, rfl, rfl⟩
    exact ⟨rfl, rfl, rfl⟩
  . rintro ⟨rfl, rfl, rfl⟩
    exact ⟨rfl, rfl, rfl⟩

theorem roundTrips_iff (json : Json) (b₀ : Beacon) (p : Progress) (lease : LeaseObject)
    (holder : String) (hcarries : Carries json (b₀.apply p) lease)
    (hjson : json.ofText (json.toText (b₀.apply p).wire) = some (b₀.apply p).wire)
    (hcount : p.running.length < 2 ^ 32)
    (hfootprint : ∀ d, (p.running.map fun t => t.footprint.amt d).sum < 2 ^ 64)
    : RoundTrips json (b₀.apply p) lease holder ↔
        b₀.reserve.diskBps = 0 ∧ b₀.reserve.diskIops = 0 ∧ b₀.reserve.diskBytes = 0 := by
  have hdecode := decode_eq hcarries hjson
  rw [← new_eq_iff]
  constructor
  . intro h
    have hdecoded := h.decoded
    rw [hdecode, Option.some.injEq] at hdecoded
    exact congrArg reserve hdecoded
  . intro hreserve
    have hsame : ({ (b₀.apply p).wire with
        reserve := .new b₀.reserve.cpuMilli b₀.reserve.memBytes 0 0 } : Beacon)
        = (b₀.apply p).wire := by
      rw [hreserve]
      rfl
    constructor
    . rw [hdecode]
      exact congrArg some hsame
    . intro d hd
      rw [hdecode, Option.some.injEq] at hd
      rw [← hd]
      exact elidedExactly_take _ hcount hfootprint
    . unfold adopt
      rw [hdecode]
      exact congrArg some hreserve

-- A run right after its acquisition, and the JSON text of its record.
def acquired (disk : UInt64) : Beacon :=
  new "r" "u" .run (.withDisk (.new 1000 1024 disk disk) disk) 0

def noProgress : Progress := ⟨0, 0, 0, [], none⟩

def jsonOf (text : String) (b : Beacon) : Json where
  toText := fun _ => text
  ofText := fun s => if s = text then some b else none

def calibratedText : String :=
  "\x7b\"run_id\":\"r\",\"user\":\"u\",\"kind\":\"Run\",\"reserve\":\x7b\"cpu_milli\":1000,"
    ++ "\"mem_bytes\":1024\x7d,"
    ++ "\"started_at\":\"1970-01-01T00:00:00Z\",\"total\":0,\"queued\":0,\"failed\":0,\"running\":[],"
    ++ "\"running_count\":0,\"running_footprint\":\x7b\"cpu_milli\":0,\"mem_bytes\":0\x7d,"
    ++ "\"needs\":null,\"eta_override\":null\x7d"

def elasticText : String :=
  "\x7b\"run_id\":\"r\",\"user\":\"u\",\"kind\":\"Run\",\"reserve\":\x7b\"cpu_milli\":1000,"
    ++ "\"mem_bytes\":1024,\"disk_bps\":18446744073709551615,"
    ++ "\"disk_iops\":18446744073709551615,\"disk_bytes\":18446744073709551615\x7d,"
    ++ "\"started_at\":\"1970-01-01T00:00:00Z\",\"total\":0,\"queued\":0,\"failed\":0,\"running\":[],"
    ++ "\"running_count\":0,\"running_footprint\":\x7b\"cpu_milli\":0,\"mem_bytes\":0\x7d,"
    ++ "\"needs\":null,\"eta_override\":null\x7d"

theorem ofText_jsonOf (text : String) (b b' : Beacon)
    : (jsonOf text b).ofText ((jsonOf text b).toText b') = some b := by
  simp [jsonOf]

theorem carries_leaseObject (json : Json) (b : Beacon) (holder : String)
    : Carries json b (leaseObject json b.runId b.user holder b) := by
  constructor
  . rfl
  . unfold leaseObject
    rw [Option.bind_some, AList.lookup_insert]
  . rfl

theorem roundTrips_noDisk
    : let json := jsonOf calibratedText ((acquired 0).apply noProgress).wire
      let lease := leaseObject json "r" "u" "r" ((acquired 0).apply noProgress)
      Carries json ((acquired 0).apply noProgress) lease ∧
        RoundTrips json ((acquired 0).apply noProgress) lease "driver" := by
  intro json lease
  have hcarries : Carries json ((acquired 0).apply noProgress) lease := carries_leaseObject _ _ _
  refine ⟨hcarries, (roundTrips_iff json _ _ _ _ hcarries ?_ ?_ ?_).mpr ?_⟩
  . apply ofText_jsonOf
  . decide
  . intro d
    simp [noProgress]
  . decide

theorem not_roundTrips_elastic
    : let json := jsonOf elasticText ((acquired .maxValue).apply noProgress).wire
      let lease := leaseObject json "r" "u" "r" ((acquired .maxValue).apply noProgress)
      Carries json ((acquired .maxValue).apply noProgress) lease ∧
        json.ofText (json.toText ((acquired .maxValue).apply noProgress).wire)
          = some ((acquired .maxValue).apply noProgress).wire ∧
        ¬RoundTrips json ((acquired .maxValue).apply noProgress) lease "driver" := by
  intro json lease
  have hcarries : Carries json ((acquired .maxValue).apply noProgress) lease :=
    carries_leaseObject _ _ _
  have hjson : json.ofText (json.toText ((acquired .maxValue).apply noProgress).wire)
      = some ((acquired .maxValue).apply noProgress).wire := ofText_jsonOf _ _ _
  refine ⟨hcarries, hjson, ?_⟩
  intro h
  have hdecoded := h.decoded
  rw [decode_eq hcarries hjson, Option.some.injEq] at hdecoded
  have hdisk := congrArg (fun b : Beacon => b.reserve.diskBps) hdecoded
  revert hdisk
  decide

end Qos.Beacon
