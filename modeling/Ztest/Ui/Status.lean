import Ztest.Lib.Lines
import Ztest.Qos.Beacon

/-!
This module contains the rows that `ztest status` draws for the running tests of a run (`ui/src/status.rs`).
What a row says is kept apart: its indent, its stem, the name and the footprint of its test and the overflow
that the last row carries.

The list of running tests is cut twice, on the lease and here, and the overflow counts what the first cut
takes away.
-/

namespace Ui
namespace Status

open Qos (Beacon Json LeaseObject Resources Dim)
open Qos.Beacon (RunningTest Progress Carries ElidedExactly maxRunning decode decode_eq elidedExactly_take jsonOf ofText_jsonOf
  carries_leaseObject)

def pastSecs : Nat := 20 * 60

def futureSecs : Nat := 60 * 60

def gutter : Nat := 15

def testSlots : Nat := 3

structure Axis where
  width : Nat

def Axis.now (axis : Axis) : Nat := pastSecs * axis.width / (pastSecs + futureSecs)

-- The glyphs of a theme that a row is drawn with.
structure ThemeChars where
  arrow : Text
  ellipsis : Text
  stemMid : Text
  stemLast : Text

def stem (last : Bool) (chars : ThemeChars) : Text := (if last then chars.stemLast else chars.stemMid) ++ chars.arrow

def truncateTail (s : Text) (w : Nat) (chars : ThemeChars) : Text :=
  if s.length ≤ w then
    s
  else
    let keep := w - chars.ellipsis.length
    chars.ellipsis ++ s.drop (s.length - keep)

inductive Row where
  -- `CONNECTOR`
  | test (indent : Nat) (stem name : Text) (footprint : Resources) (overflow : Option (UInt32 × Resources))
  -- `CONNECTOR_NONE`
  | note (indent : Nat) (stem : Text)

def connectorRows (b : Beacon) (axis : Axis) (chars : ThemeChars) : List Row :=
  if b.kind = .build ∨ b.kind = .claim then
    []
  else
    let indent := gutter + axis.now
    if b.running = [] then
      if b.reserve = .zero then [] else [.note indent (stem true chars)]
    else
      let shown := min b.running.length testSlots
      (b.running.take shown).mapIdx fun i t =>
        let last := i + 1 = shown
        .test indent (stem last chars) (truncateTail t.name.toList 26 chars) t.footprint (if last then b.elided else none)

section Accounts

namespace Row

def tests : Row → Nat
  | test .. => 1
  | note .. => 0

-- The figure of `+ N more`.
def more : Row → Nat
  | test _ _ _ _ (some (n, _)) => n.toNat
  | _ => 0

def drawn (d : Dim) : Row → Nat
  | test _ _ _ footprint _ => footprint.amt d
  | note .. => 0

def held (d : Dim) : Row → Nat
  | test _ _ _ _ (some (_, held)) => held.amt d
  | _ => 0

end Row

/--
The rows account for every running test: one by one or in the overflow, and so for what it holds.
-/
structure Accounts (running : List RunningTest) (rows : List Row) : Prop where
  tests : (rows.map Row.tests).sum + (rows.map Row.more).sum = running.length
  footprints : ∀ d, d = .cpuMilli ∨ d = .memBytes →
    (rows.map (Row.drawn d)).sum + (rows.map (Row.held d)).sum = (running.map fun t => t.footprint.amt d).sum

variable {b : Beacon} {axis : Axis} {chars : ThemeChars} {cut : List RunningTest}

def testRow (axis : Axis) (chars : ThemeChars) (last : Bool) (overflow : Option (UInt32 × Resources)) (t : RunningTest) : Row :=
  .test (gutter + axis.now) (stem last chars) (truncateTail t.name.toList 26 chars) t.footprint overflow

theorem mapIdx_eq_map {α β : Type} {f : Nat → α → β} {g : α → β} {l : List α} (h : ∀ i a, i < l.length → f i a = g a)
    : l.mapIdx f = l.map g := by
  apply List.ext_getElem
  . simp
  . intro i hi _
    rw [List.length_mapIdx] at hi
    rw [List.getElem_mapIdx, List.getElem_map, h i _ hi]

theorem connectorRows_eq (hkind : b.kind = .run ∨ b.kind = .sync) (hrunning : b.running ≠ [])
    : ∃ init t, b.running.take testSlots = init ++ [t] ∧
        connectorRows b axis chars = init.map (testRow axis chars false none) ++ [testRow axis chars true b.elided t] := by
  have hdrawn : ¬(b.kind = .build ∨ b.kind = .claim) := by
    rcases hkind with h | h
    . simp [h]
    . simp [h]
  have hne : b.running.take testSlots ≠ [] := by simp [testSlots, hrunning]
  have hshown : b.running.take (min b.running.length testSlots) = b.running.take testSlots := by
    rw [Nat.min_comm, ← List.take_eq_take_min]
  rcases List.eq_nil_or_concat' (b.running.take testSlots) with hnil | ⟨init, t, happ⟩
  . exact absurd hnil hne
  . have hlength : min b.running.length testSlots = init.length + 1 := by
      rw [Nat.min_comm, ← List.length_take, happ, List.length_append, List.length_singleton]
    refine ⟨init, t, happ, ?_⟩
    rw [connectorRows, if_neg hdrawn]
    dsimp only
    rw [if_neg hrunning, hshown, happ, hlength, List.mapIdx_concat]
    congr 1
    . apply mapIdx_eq_map
      intro i t' hi
      have hlast : i ≠ init.length := by omega
      simp [testRow, hlast]
    . simp [testRow]

/--
What the rows show: the tests of `shown` one by one, and those of `cut` in the overflow.
-/
structure Shows (shown cut : List RunningTest) (rows : List Row) : Prop where
  tests : (rows.map Row.tests).sum = shown.length
  more : (rows.map Row.more).sum = cut.length
  drawn : ∀ d, (rows.map (Row.drawn d)).sum = (shown.map fun t => t.footprint.amt d).sum
  held : ∀ d, (rows.map (Row.held d)).sum = (cut.map fun t => t.footprint.amt d).sum

theorem more_testRow {last : Bool} {t : RunningTest} {overflow : Option (UInt32 × Resources)}
    (h : ElidedExactly cut overflow) : (testRow axis chars last overflow t).more = cut.length := by
  cases overflow with
  | none => exact (congrArg List.length h).symm
  | some figures => exact h.2.1

theorem held_testRow {last : Bool} {t : RunningTest} {overflow : Option (UInt32 × Resources)}
    (h : ElidedExactly cut overflow) (d : Dim)
    : (testRow axis chars last overflow t).held d = (cut.map fun t => t.footprint.amt d).sum := by
  cases overflow with
  | none =>
    have hcut : cut = [] := h
    rw [hcut]
    rfl
  | some figures => exact h.2.2 d

theorem sum_rows (f : Row → Nat) (init : List RunningTest) (last : Row)
    : ((init.map (testRow axis chars false none) ++ [last]).map f).sum
        = (init.map fun t => f (testRow axis chars false none t)).sum + f last := by
  rw [List.map_append, List.sum_append, List.map_map]
  rfl

theorem shows_connectorRows (axis : Axis) (chars : ThemeChars) (hkind : b.kind = .run ∨ b.kind = .sync)
    (hcut : b.running = [] → cut = []) (helided : ElidedExactly cut b.elided)
    : Shows (b.running.take testSlots) cut (connectorRows b axis chars) := by
  by_cases hrunning : b.running = []
  . have hnone : connectorRows b axis chars = [] ∨
        connectorRows b axis chars = [.note (gutter + axis.now) (stem true chars)] := by
      unfold connectorRows
      rw [hrunning]
      dsimp only
      split
      . exact .inl rfl
      . split
        . split
          . exact .inl rfl
          . exact .inr rfl
        . contradiction
    rw [hcut hrunning, hrunning, List.take_nil]
    rcases hnone with hnone | hnone
    . rw [hnone]
      exact ⟨rfl, rfl, fun _ => rfl, fun _ => rfl⟩
    . rw [hnone]
      exact ⟨rfl, rfl, fun _ => rfl, fun _ => rfl⟩
  . rcases @connectorRows_eq b axis chars hkind hrunning with ⟨init, t, happ, hrows⟩
    have hone : (init.map fun _ => 1).sum = init.length := by
      rw [List.map_const', List.sum_replicate_nat, Nat.mul_one]
    have hzero : (init.map fun _ => 0).sum = 0 := by simp
    rw [hrows, happ]
    constructor
    . rw [sum_rows, List.length_append]
      exact congrArg (· + 1) hone
    . rw [sum_rows, more_testRow helided]
      exact Nat.add_eq_right.mpr hzero
    . intro d
      rw [sum_rows, List.map_append, List.sum_append]
      rfl
    . intro d
      rw [sum_rows, held_testRow helided d]
      exact Nat.add_eq_right.mpr hzero

-- The tests between the two cuts are shown nowhere.
def lost (running : List RunningTest) : List RunningTest := (running.take maxRunning).drop testSlots

theorem lost_eq_nil_iff (running : List RunningTest) : lost running = [] ↔ running.length ≤ testSlots := by
  rw [lost, List.drop_eq_nil_iff, List.length_take, testSlots, maxRunning]
  omega

theorem append_lost (running : List RunningTest)
    : (running.take maxRunning).take testSlots ++ (lost running ++ running.drop maxRunning) = running := by
  rw [lost, ← List.append_assoc, List.take_append_drop, List.take_append_drop]

theorem accounts_iff_lost {running : List RunningTest} {rows : List Row}
    (h : Shows ((running.take maxRunning).take testSlots) (running.drop maxRunning) rows)
    : Accounts running rows ↔ lost running = [] := by
  have hlength := congrArg List.length (append_lost running)
  rw [List.length_append, List.length_append] at hlength
  constructor
  . intro haccounts
    have htests := haccounts.tests
    rw [h.tests, h.more] at htests
    exact List.eq_nil_of_length_eq_zero (by omega)
  . intro hlost
    constructor
    . rw [h.tests, h.more, ← hlength, hlost]
      simp
    . intro d _
      have hsum := congrArg (fun l => (l.map fun t : RunningTest => t.footprint.amt d).sum) (append_lost running)
      simp only [hlost, List.nil_append, List.map_append, List.sum_append] at hsum
      rw [h.drawn, h.held, hsum]

theorem accounts_iff (json : Json) (b₀ : Beacon) (p : Progress) (lease : LeaseObject) (axis : Axis)
    (chars : ThemeChars) (hkind : b₀.kind = .run ∨ b₀.kind = .sync) (hcarries : Carries json (b₀.apply p) lease)
    (hjson : json.ofText (json.toText (b₀.apply p).wire) = some (b₀.apply p).wire)
    (hcount : p.running.length < 2 ^ 32)
    (hfootprint : ∀ d, (p.running.map fun t => t.footprint.amt d).sum < 2 ^ 64)
    : ∃ b, decode json lease = some b ∧
        (Accounts p.running (connectorRows b axis chars) ↔ p.running.length ≤ testSlots) := by
  refine ⟨_, decode_eq hcarries hjson, ?_⟩
  have hcut : p.running.take maxRunning = [] → p.running.drop maxRunning = [] := by
    simp only [List.take_eq_nil_iff, maxRunning]
    rintro (h | h)
    . cases h
    . rw [h, List.drop_nil]
  have helided := @elidedExactly_take b₀ p (.new b₀.reserve.cpuMilli b₀.reserve.memBytes 0 0) hcount hfootprint
  rw [← lost_eq_nil_iff]
  apply accounts_iff_lost
  exact @shows_connectorRows { (b₀.apply p).wire with reserve := .new b₀.reserve.cpuMilli b₀.reserve.memBytes 0 0 } _
    axis chars hkind hcut helided

def unicode : ThemeChars := ⟨['→'], ['…'], ['├'], ['└']⟩

def acquired : Beacon :=
  { Qos.Beacon.new "eli-4711" "eli" .run (.new 6000 (12 * Qos.GIB) 0 0) 1699999400 with
    needs := some (.new 8000 (16 * Qos.GIB) 0 0) }

def progress (names : List String) : Progress where
  total := 12
  queued := 3
  failed := 1
  running := names.map fun name => ⟨name, .new 2000 (4 * Qos.GIB) 0 0, 1699999700⟩
  etaOverride := none

def testText (name : String) : String :=
  "\x7b\"name\":\"" ++ name ++ "\",\"footprint\":\x7b\"cpu_milli\":2000,\"mem_bytes\":4294967296\x7d,"
    ++ "\"started_at\":\"2023-11-14T22:08:20Z\"\x7d"

-- What is written for some tests, which are `count` and hold `footprint`.
def recordText (names : List String) (count footprint : String) : String :=
  "\x7b\"run_id\":\"eli-4711\",\"user\":\"eli\",\"kind\":\"Run\",\"reserve\":\x7b\"cpu_milli\":6000,"
    ++ "\"mem_bytes\":12884901888\x7d,\"started_at\":\"2023-11-14T22:03:20Z\",\"total\":12,\"queued\":3,"
    ++ "\"failed\":1,\"running\":[" ++ ",".intercalate (names.map testText) ++ "],\"running_count\":" ++ count
    ++ ",\"running_footprint\":\x7b" ++ footprint ++ "\x7d,\"needs\":\x7b\"cpu_milli\":8000,"
    ++ "\"mem_bytes\":17179869184\x7d,\"eta_override\":null\x7d"

def threeNames : List String :=
  ["sync::feat_nu6_3_topology_and_a_long_tail", "wallet::send_to_orchard", "wallet::shield_transparent"]

def fourNames : List String := threeNames ++ ["wallet::elided_extra"]

theorem accounts_three
    : let p := progress threeNames
      let json :=
        jsonOf (recordText threeNames "3" "\"cpu_milli\":6000,\"mem_bytes\":12884901888")
          (acquired.apply p).wire
      ∃ b, decode json (Qos.leaseObject json "eli-4711" "eli" "eli" (acquired.apply p)) = some b ∧
        Accounts p.running (connectorRows b ⟨60⟩ unicode) := by
  intro p json
  have hfootprint : ∀ d, (p.running.map fun t => t.footprint.amt d).sum < 2 ^ 64 := by
    intro d
    cases d <;> decide
  rcases accounts_iff json acquired p _ ⟨60⟩ unicode (.inl rfl) (carries_leaseObject json _ "eli")
    (ofText_jsonOf _ _ _) (by decide) hfootprint with ⟨b, hb, hiff⟩
  exact ⟨b, hb, hiff.mpr (by decide)⟩

theorem not_accounts_four
    : let p := progress fourNames
      let json :=
        jsonOf (recordText fourNames "4" "\"cpu_milli\":8000,\"mem_bytes\":17179869184")
          (acquired.apply p).wire
      let lease := Qos.leaseObject json "eli-4711" "eli" "eli" (acquired.apply p)
      Carries json (acquired.apply p) lease ∧
        json.ofText (json.toText (acquired.apply p).wire) = some (acquired.apply p).wire ∧
        ∃ b, decode json lease = some b ∧ ¬Accounts p.running (connectorRows b ⟨60⟩ unicode) := by
  intro p json lease
  have hcarries : Carries json (acquired.apply p) lease := carries_leaseObject json _ "eli"
  have hjson : json.ofText (json.toText (acquired.apply p).wire) = some (acquired.apply p).wire :=
    ofText_jsonOf _ _ _
  refine ⟨hcarries, hjson, _, decode_eq hcarries hjson, ?_⟩
  intro h
  have htests := h.tests
  revert htests
  decide

end Accounts

end Status
end Ui
