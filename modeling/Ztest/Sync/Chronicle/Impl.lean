import Ztest.Lib.Trace
import Ztest.Sync.Snapshot

/-!
This module contains the snapshots of a run as what they are built from: one beat a tick, with the
kills fired before its reading.
-/

namespace Sync

structure Beat extends Pulse where
  restarts : Nat
  restarting : Bool

structure Chronicle where
  builder : SnapshotBuilder
  lastFaultAt : Option Nat

namespace Chronicle

def new (startedAt : Nat) : Chronicle where
  builder := .new startedAt
  lastFaultAt := none

-- `apply_faults`, as far as a snapshot shows it.
def fault (c : Chronicle) (b : Beat) : Chronicle :=
  if b.faulted then { c with lastFaultAt := some b.now } else c

def beat (c : Chronicle) (b : Beat) : Chronicle × Option Snapshot :=
  let c := c.fault b
  match b.progress with
  | none => (c, none)
  | some p =>
    let (builder, snap) := c.builder.build p b.now ⟨c.lastFaultAt, b.restarts, b.restarting⟩
    ({ c with builder }, some snap)

def after (startedAt : Nat) (beats : List Beat) : Chronicle :=
  beats.foldl (fun c b => (c.beat b).1) (new startedAt)

end Chronicle

-- A reading that a snapshot was built from.
structure HeightAt where
  height : Nat
  atInstant : Nat

def Beat.heightAt (b : Beat) : Option HeightAt := b.progress.map fun p => ⟨p.height, b.now⟩

def heights (beats : List Beat) : List HeightAt := beats.filterMap Beat.heightAt

/--
After the latest fault a height was read, at a later tick, that exceeds one read at or after it.
-/
def Recovered (beats : List Beat) : Prop :=
  ∃ pre fb post a b, beats = pre ++ fb :: post ∧ fb.faulted = true ∧ (∀ x ∈ post, x.faulted = false) ∧
    List.Sublist [a, b] (heights (fb :: post)) ∧ a.height < b.height

/--
What the flags of the snapshot built at the last of `beats` must say about all of them.
-/
structure Truthful (beats : List Beat) (snap : Snapshot) : Prop where
  reorg : snap.observedReorg = true ↔
    ∃ a b, List.Sublist [a, b] (heights beats) ∧ b.height < a.height
  depth : ∃ m, ((heights beats).map (·.height)).max? = some m ∧ snap.reorgDepth = m - snap.height
  progress : ∃ r, Rises.Latest (·.height) (heights beats) r ∧
    ∀ window, snap.progressedWithin window = true ↔ snap.atInstant - r.atInstant ≤ window
  recovery : snap.lastFaultAt.isSome = true → snap.progressedSinceFault = true → Recovered beats

def TellsTruth (startedAt : Nat) (beats : List Beat) : Prop :=
  ∀ pre b post snap, beats = pre ++ b :: post →
    ((Chronicle.after startedAt pre).beat b).2 = some snap → Truthful (pre ++ [b]) snap

/--
The first reading at or after a fault opens no phase, rises over nothing, and whatever rose before it
did so before the instant of the fault.
-/
def FaultsApart (beats : List Beat) : Prop :=
  ∀ pre fb rest l, pre ++ fb :: rest <+: beats → fb.faulted = true → (∀ x ∈ rest, x.faulted = false) →
    heights (fb :: rest) = [l] →
    ∃ q, (heights pre).getLast? = some q ∧ l.height ≤ q.height ∧
      ∀ r, Rises.Latest (·.height) (heights pre) r → r.atInstant < fb.now

end Sync
