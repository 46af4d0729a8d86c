import Ztest.Lib.Run
import Mathlib.Logic.Function.Basic

/-!
This module contains the bursts of the steady wallets: the coordinator of `loadtest/load.rs` announces
them on a channel where the latest value wins, the sessions of `steady` in `loadtest/wallet.rs` take
them and acknowledge them. A step of the model is one access to what they share: the channel, the
counter of the connected sessions or the counter of a burst. The requests of a session are left out.
-/

namespace Loadtest
namespace Steady

structure Reading where
  now : Nat
  used : Option Nat

-- The arguments of `Measure::burst`. Of the share that `EngineCpu::busy` computes, the time on-CPU.
structure Drain where
  drain : Nat
  busy : Option Nat

/--
The last three fields are for the proofs: the sessions that the count saw, those whose
acknowledgement was counted off and those that got to the end of the burst.
-/
structure Burst where
  started : Nat
  engineCpu : Option Nat
  pending : Nat
  measured : List Drain
  counted : List Nat
  acked : List Nat
  finished : List Nat

def Burst.new (wallets : Nat) (counted : List Nat) (r : Reading) : Burst :=
  ⟨r.now, r.used, wallets, [], counted, [], []⟩

def Burst.drained (b : Burst) : Bool := b.pending = 0

def Burst.busy (b : Burst) (r : Reading) : Option Nat :=
  match b.engineCpu, r.used with
  | some before, some after => some (after - before)
  | _, _ => none

def Burst.drain (b : Burst) (r : Reading) : Drain := ⟨r.now - b.started, b.busy r⟩

-- `checked_sub` fails at 0, and the one which finds 1 measures.
def Burst.done (b : Burst) (wallet : Nat) (r : Reading) : Burst :=
  match b.pending with
  | 0 => b
  | 1 => { b with pending := 0, acked := wallet :: b.acked, measured := b.measured ++ [b.drain r] }
  | left + 2 => { b with pending := left + 1, acked := wallet :: b.acked }

def Burst.finish (b : Burst) (wallet : Nat) (r : Reading) : Burst :=
  { b.done wallet r with finished := wallet :: b.finished }

inductive Phase where
  -- Before `borrow_and_update`: the dial and the burst of its own.
  | opening
  | marked
  | waiting
  -- Holds the `Taken` of this announcement.
  | bursting (burst : Nat)
  -- Out of the loop, still among the connected.
  | leaving
  | gone
  deriving DecidableEq

-- `seen` is the version of the channel that the receiver last saw.
structure Session where
  phase : Phase
  seen : Nat

-- The channel holds nothing at first, then the last of `bursts`; its version is their number.
structure State where
  sessions : Nat → Session
  -- The counter, and for the proofs the sessions behind it.
  connected : Nat
  roll : List Nat
  bursts : List Burst
  -- What `coordinator` read of them, up to its `send_replace`.
  counting : Option (Nat × List Nat)

def State.init : State := ⟨fun _ => ⟨.opening, 0⟩, 0, [], [], none⟩

inductive Event where
  -- `coordinator` reads the number of the connected. It is past twice its tick or it is not.
  | count (late : Bool)
  | send (r : Reading)
  | mark (wallet : Nat)
  | join (wallet : Nat)
  | take (wallet : Nat)
  | finish (wallet : Nat) (r : Reading)
  -- Its token is cancelled or the coordinator is gone.
  | stop (wallet : Nat)
  | depart (wallet : Nat)
  -- The task is dropped, by `abort_all` or because the dial failed.
  | abort (wallet : Nat) (r : Reading)

def State.set (s : State) (wallet : Nat) (session : Session) : State :=
  { s with sessions := Function.update s.sessions wallet session }

def State.enter (s : State) (wallet : Nat) (phase : Phase) : State :=
  s.set wallet { s.sessions wallet with phase }

def State.acknowledge (s : State) (burst : Nat) (f : Burst → Burst) : State :=
  { s with bursts := s.bursts.modify burst f }

-- Not over a burst that is not drained, unless it is late.
def State.busy (s : State) : Bool := s.bursts.getLast?.any fun b => !b.drained

def step (s : State) : Event → Except Run.Disabled (State × Unit)
  | .count late =>
    if s.counting = none ∧ ¬(s.busy ∧ late = false) then
      .ok ({ s with counting := some (s.connected, s.roll) }, ())
    else
      .error .disabled
  | .send r =>
    match s.counting with
    | some (wallets, counted) =>
      .ok ({ s with bursts := s.bursts ++ [.new wallets counted r], counting := none }, ())
    | none => .error .disabled
  | .mark wallet =>
    match (s.sessions wallet).phase with
    | .opening => .ok (s.set wallet ⟨.marked, s.bursts.length⟩, ())
    | _ => .error .disabled
  | .join wallet =>
    match (s.sessions wallet).phase with
    | .marked =>
      .ok ({ s.enter wallet .waiting with connected := s.connected + 1, roll := wallet :: s.roll }, ())
    | _ => .error .disabled
  | .take wallet =>
    match s.sessions wallet with
    | ⟨.waiting, seen⟩ =>
      if seen < s.bursts.length then
        .ok (s.set wallet ⟨.bursting (s.bursts.length - 1), s.bursts.length⟩, ())
      else
        .error .disabled
    | _ => .error .disabled
  | .finish wallet r =>
    match (s.sessions wallet).phase with
    | .bursting burst =>
      .ok ((s.acknowledge burst fun b => b.finish wallet r).enter wallet .waiting, ())
    | _ => .error .disabled
  | .stop wallet =>
    match (s.sessions wallet).phase with
    | .waiting => .ok (s.enter wallet .leaving, ())
    | _ => .error .disabled
  | .depart wallet =>
    match (s.sessions wallet).phase with
    | .leaving =>
      .ok ({ s.enter wallet .gone with connected := s.connected - 1, roll := s.roll.erase wallet }, ())
    | _ => .error .disabled
  | .abort wallet r =>
    match (s.sessions wallet).phase with
    | .gone => .error .disabled
    | .bursting burst =>
      .ok ((s.acknowledge burst fun b => b.done wallet r).enter wallet .gone, ())
    | _ => .ok (s.enter wallet .gone, ())

end Steady
end Loadtest
