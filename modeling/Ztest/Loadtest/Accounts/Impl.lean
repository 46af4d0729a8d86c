import Mathlib.Algebra.Ring.Nat
import Ztest.Loadtest.Differential.Impl

/-!
This module contains the accounts of a load run: the histograms of its tallies and which answers went
through the oracle, beside the driver's own steps.
-/

namespace Loadtest
namespace Load

abbrev Answer := Except String (List CompactBlock)

inductive OpKind where
  | connect
  | getLatestBlock
  | getBlock
  | getBlockRange
  deriving DecidableEq

def opKind : OpKind := .getBlockRange

-- A histogram is the samples it holds.
abbrev Hists := OpKind → List Nat

def Hists.record (hists : Hists) (op : OpKind) (micros : Nat) : Hists :=
  Function.update hists op (hists op ++ [micros])

def Hists.merge (hists other : Hists) : Hists := fun op => hists op ++ other op

inductive Who where
  | a
  | b
  deriving DecidableEq

structure Pass where
  blocks : List CompactBlock
  findings : List Violation

-- `passes` is kept to speak about the answers the oracle was given.
structure Meter where
  hists : Hists
  passes : List Pass

namespace Meter

def sample (m : Meter) (op : OpKind) (micros : Nat) : Meter :=
  { m with hists := m.hists.record op micros }

def pass (m : Meter) (blocks : List CompactBlock) (findings : List Violation) : Meter :=
  { m with passes := m.passes ++ [⟨blocks, findings⟩] }

end Meter

structure Metered where
  core : State
  meters : Nat → Who → Meter

structure TimedEvent where
  event : Event
  micros : Who → Nat

namespace Driver

variable (d : Driver)

def findings (s : State) (i : Nat) (blocks : List CompactBlock) : List Violation :=
  ((d.observed s i blocks).map (·.2)).getD []

def dialed (micros : Who → Nat) (who : Who) : Meter :=
  let m : Meter := ⟨fun _ => [], []⟩
  if who = .a ∨ d.paired = true then m.sample .connect (micros who) else m

-- What the arms of a round record.
def meterRound (s : State) (i : Nat) (ra rb : Answer) (micros : Who → Nat) (m : Who → Meter)
    : Who → Meter :=
  match d.paired, ra, rb with
  | false, .ok ba, _ => fun
    | .a => ((m .a).sample opKind (micros .a)).pass (blockRange ba) (d.findings s i (blockRange ba))
    | .b => m .b
  | true, .ok ba, .ok _ => fun
    | .a => ((m .a).sample opKind (micros .a)).pass (blockRange ba) (d.findings s i (blockRange ba))
    | .b => (m .b).sample opKind (micros .b)
  | _, _, _ => m

def meterSecond (s : State) (i : Nat) (blocks : List CompactBlock) (m : Who → Meter) : Who → Meter
  | .a => m .a
  | .b => (m .b).pass blocks (d.findings s i blocks)

def meter (s : Metered) (e : TimedEvent) : Nat → Who → Meter :=
  match e.event with
  | .round i elapsed ra rb =>
    if elapsed < d.duration then
      Function.update s.meters i (d.meterRound s.core i ra rb e.micros (s.meters i))
    else
      s.meters
  | .second i =>
    match (s.core.tasks i).pending with
    | some (_, b) => Function.update s.meters i (d.meterSecond s.core i b (s.meters i))
    | none => s.meters

def timedInit (dials : Nat → Who → Nat) : Metered where
  core := .init
  meters i := d.dialed (dials i)

def timedStep (s : Metered) (e : TimedEvent) : Except Stop (Metered × Unit) :=
  match d.step s.core e.event with
  | .ok (core, _) => .ok (⟨core, d.meter s e⟩, ())
  | .error stop => .error stop

def merged (s : Metered) (who : Who) : Hists :=
  (List.range d.connections).foldl (fun hists i => hists.merge (s.meters i who).hists) fun _ => []

end Driver

def Task.tally (t : Task) : Who → Tally
  | .a => t.ta
  | .b => t.tb

def Task.seenOf (t : Task) : Who → List (Nat × String)
  | .a => t.seenA
  | .b => t.seenB

def LoadReport.side (r : LoadReport) : Who → Option Side
  | .a => some r.a
  | .b => r.b

-- The rounds in which a connection sent its requests, with the answers to them.
def sent (d : Driver) (events : List TimedEvent) (i : Nat) : List (Answer × Answer) :=
  events.filterMap fun e =>
    match e.event with
    | .round conn elapsed ra rb => if conn = i ∧ elapsed < d.duration then some (ra, rb) else none
    | .second _ => none

def answer (who : Who) (r : Answer × Answer) : Option (List CompactBlock) :=
  match who with
  | .a => r.1.toOption.map blockRange
  | .b => r.2.toOption.map blockRange

/--
The report charges a side with exactly the requests sent to it and the answers it gave.
-/
structure Charged (d : Driver) (events : List TimedEvent) (s : Metered) (who : Who) (side : Side) : Prop where
  issued : side.totalOps + side.errors
      = ((List.range d.connections).map fun i => (sent d events i).length).sum
  sampled : (d.merged s who opKind).length
      = ((List.range d.connections).map fun i => ((sent d events i).filterMap (answer who)).length).sum
  passed : ∀ i < d.connections,
    (s.meters i who).passes.map (·.blocks) = (sent d events i).filterMap (answer who)
  attributed : side.violations = (List.range d.connections).flatMap fun i =>
    (keepNew Driver.violationKey [] ((s.meters i who).passes.flatMap (·.findings))).2

end Load
end Loadtest
