import Ztest.Lib.Binary64
import Ztest.Sync.Runner.Impl

/-!
This module contains the course of one `always` probe through the ticks of a phase: when its body is
called, what it answers and what is recorded. It is the probe's own part of `evalTick`.
-/

namespace Sync

namespace Duration

def ceilQuotient (hold period : Nat) : Nat :=
  ((Binary64.ofNanos hold).quot (Binary64.ofNanos period)).ceilToU32.toNat

end Duration

def ProbeBuilder.everyBlocks (b : ProbeBuilder) (n : Nat) : ProbeBuilder :=
  { b with cadence := .everyBlocks n }

/--
A tick that gets to the probes, with the answer the body gives if it is called.
-/
structure Look where
  snap : Snapshot
  now : Nat
  verdict : Verdict

structure Visit where
  look : Look
  evaluated : Bool

-- The ticks stand newest first.
structure Course where
  spec : ProbeSpec
  past : List Visit

namespace Course

def start (b : ProbeBuilder) : Course := ⟨b.check, []⟩

section Step

variable (ceilQuotient : Nat → Nat → Nat) (c : Course) (l : Look)

def turn : ProbeSpec × Bench × Option Flow :=
  alwaysStep (fun _ => l.verdict) ceilQuotient l.snap l.now 0 c.spec ⟨0, [], []⟩

def evaluates : Bool := !(c.turn ceilQuotient l).2.1.judged.isEmpty

def records : Bool := !(c.turn ceilQuotient l).2.1.violations.isEmpty

def step : Except Flow (Course × Unit) :=
  match c.turn ceilQuotient l with
  | (spec, bench, none) => .ok (⟨spec, ⟨l, !bench.judged.isEmpty⟩ :: c.past⟩, ())
  | (_, _, some flow) => .error flow

end Step

def evaluations (c : Course) : List Look := (c.past.filter (·.evaluated)).map (·.look)

/--
The unbroken run of violated evaluations that ends with `l` reaches back at least `hold`.
-/
def Persisted (hold : Nat) (c : Course) (l : Look) : Prop :=
  ∃ first ∈ (l :: c.evaluations).takeWhile (·.verdict.isViolated), first.now + hold ≤ l.now

-- The ticks back to the last evaluation, that one included.
def sinceEvaluation : List Visit → List Visit
  | [] => []
  | v :: vs => if v.evaluated then [v] else v :: sinceEvaluation vs

-- Over heights that stand newest first.
def climb : List Nat → Nat
  | h :: h' :: hs => (h - h') + climb (h' :: hs)
  | _ => 0

def fall : List Nat → Nat
  | h :: h' :: hs => (h' - h) + fall (h' :: hs)
  | _ => 0

def heights (c : Course) (l : Look) : List Nat :=
  l.snap.height :: (sinceEvaluation c.past).map (·.look.snap.height)

end Course
end Sync
