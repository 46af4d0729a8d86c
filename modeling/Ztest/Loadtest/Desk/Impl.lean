import Ztest.Lib.Run
import Ztest.Loadtest.Ledger
import Mathlib.Data.Set.Function

/-!
This module contains what the ledger counts, in every order of the wallets' calls. `answer` holds one lock to
compare an answer with the one before it and another to mark it as queued: calls of other wallets may come
in between.
-/

namespace Loadtest

namespace Desk

structure State where
  ledger : Ledger
  -- The calls between their two locks.
  pending : List (Entry × Audit)

inductive Call where
  | answer (key : Key) (digest : Nat) (stable : Bool) (audit : Audit)
  -- The second lock of a pending call.
  | mark (i : Nat)
  | shielded (height : Nat) (message : Bytes)

def State.new (stableBelow : Nat) (auditEvery : UInt64) (capacity : Nat) : State :=
  ⟨.new stableBelow auditEvery capacity, []⟩

def step (wire : Wire) (s : State) : Call → Except Run.Disabled (State × Unit)
  | .answer key digest stable audit =>
    match s.ledger.look key digest stable with
    | (l, some entry) => .ok (⟨l, s.pending ++ [(entry, audit)]⟩, ())
    | (l, none) => .ok (⟨l, s.pending⟩, ())
  | .mark i =>
    match s.pending[i]? with
    | some (entry, audit) => .ok (⟨s.ledger.queueOnce entry audit, s.pending.eraseIdx i⟩, ())
    | none => .error .disabled
  | .shielded height message => .ok (⟨s.ledger.shieldedBlock wire height message, s.pending⟩, ())

-- The audits that were handed to the queue, whether it had room for them or not.
def handed (l : Ledger) : Nat := l.tallies.queued + l.tallies.dropped

-- What a call for `key` hands to the queue.
def handedFor (key : Key) (s : State) (c : Call) (s' : State) : Nat :=
  match c with
  | .mark i => if (s.pending[i]?.map fun p => p.1.1) = some key then handed s'.ledger - handed s.ledger else 0
  | _ => 0

-- The answers to `key`, in the order of the first lock.
def asked (key : Key) (calls : List Call) : List Nat :=
  calls.filterMap fun
    | .answer key' digest _ _ => if key' = key then some digest else none
    | _ => none

def shown (height : Nat) (calls : List Call) : List Bytes :=
  calls.filterMap fun
    | .shielded height' message => if height' = height then some message else none
    | _ => none

def StableAs (stable : Bool) (key : Key) (calls : List Call) : Prop :=
  ∀ digest stable' audit, .answer key digest stable' audit ∈ calls → stable' = stable

def kept (wire : Wire) (message : Bytes) : Nat := max (Ledger.low (wire.digest message)) 1

/--
`x` comes in the list behind something else.
-/
def Later {α : Type} (xs : List α) (x : α) : Prop := ∃ pre post, xs = pre ++ x :: post ∧ ∃ y ∈ pre, y ≠ x

end Desk
end Loadtest
