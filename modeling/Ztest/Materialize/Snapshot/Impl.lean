import Ztest.Lib.Decimal
import Ztest.Lib.Lines
import Ztest.Lib.Run
import Ztest.Materialize.Watch.Impl
import Mathlib.Data.List.Infix

/-!
This module contains `watch` of `materialize/snapshot.rs`: a machine whose inputs are its iterations, that is
the readings of the clock, of the snapshot object and of the meter. It aborts with the fault that `watch`
returns.
-/

namespace Materialize
namespace Snapshot

open Watch (Nanos secs)

def hostpathDriver : Text := "hostpath.csi.k8s.io".toList

def meteredStall : Nanos := secs (10 * 60)

def blindStall : Nanos := secs (20 * 60)

def fatalCodes : List Text :=
  ["InvalidArgument".toList, "OutOfRange".toList, "PermissionDenied".toList, "AlreadyExists".toList]

def fatalText : List Text := ["no space left on device".toList, "quota exceeded".toList]

inductive SnapFault where
  | unbound (last : Option Text)
  | noProgress (copied total : UInt64)
  | silent (last : Option Text)
  | driver (reason : Text)

-- What `readyToUse` would settle, if it came.
def SnapFault.isStall : SnapFault → Bool
  | .driver _ => false
  | _ => true

def fatal (msg : Text) : Option Text :=
  match fatalText.find? fun text => text <:+: msg.map Char.toLower with
  | some text => some (text ++ " — snapshot is a full copy beside its source volume".toList)
  | none => (fatalCodes.find? fun code => "code = ".toList ++ code <:+: msg).map fun _ => Decimal.trim msg

structure Snap where
  name : Text
  bytes : UInt64

-- `<name> <bytes>`
def parseSnap (out : Text) : Option Snap :=
  let trimmed := Decimal.trim out
  (Lines.rposition (· = ' ') trimmed).bind fun idx =>
    (Decimal.parse (Decimal.trim (trimmed.drop (idx + 1)))).map fun bytes => ⟨Decimal.trim (trimmed.take idx), bytes⟩

inductive Meter where
  | hostPath (pod : Text)
  | blind

namespace Meter

-- The names of the pods that are listed, `none` when the request fails.
def attach (driver : Text) (pods : Option (List (Option Text))) : Meter :=
  if driver ≠ hostpathDriver then .blind
  else
    match (pods.bind fun items => items.findSome? id).filter (· ≠ []) with
    | some pod => .hostPath pod
    | none => .blind

def metered : Meter → Bool
  | .hostPath _ => true
  | .blind => false

-- What the `exec` in the pod gives. An error blinds the meter for good.
def sample (m : Meter) (exec : Except Text Text) : Meter × Option Snap :=
  match m with
  | .blind => (.blind, none)
  | .hostPath pod =>
    match exec with
    | .ok out => (.hostPath pod, parseSnap out)
    | .error _ => (.blind, none)

end Meter

structure Liveness where
  copied : UInt64
  total : UInt64
  idleSince : Nanos
  bound : Bool
  lastStamp : Option Text
  lastError : Option Text
  snap : Option Snap

structure Status where
  boundContent : Option Text
  message : Option Text
  time : Option Text

namespace Liveness

def new (total : UInt64) (now : Nanos) : Liveness := ⟨0, total, now, false, none, none, none⟩

def moved (c : Liveness) (now : Nanos) : Liveness := { c with idleSince := now }

def motion (prev : Option Snap) (snap : Snap) : Bool :=
  match prev with
  | none => false
  | some prev => prev.name ≠ snap.name || prev.bytes < snap.bytes

def meter (c : Liveness) (snap : Snap) (now : Nanos) : Liveness :=
  let c' := if motion c.snap snap then { c with copied := snap.bytes }.moved now else c
  { c' with snap := some snap }

def expired (c : Liveness) (now window : Nanos) : Bool := window ≤ now - c.idleSince

def errorRaised (c : Liveness) (stamp : Option Text) (now : Nanos) : Liveness :=
  let c' := if stamp.isSome && stamp ≠ c.lastStamp then c.moved now else c
  { c' with lastStamp := stamp }

def window (c : Liveness) (metered : Bool) : Nanos := if metered && c.bound then meteredStall else blindStall

def fault (c : Liveness) (metered : Bool) : SnapFault :=
  match c.bound, metered with
  | false, _ => .unbound c.lastError
  | true, true => .noProgress c.copied c.total
  | true, false => .silent c.lastError

def bind (c : Liveness) (status : Status) (now : Nanos) : Liveness :=
  if !c.bound && status.boundContent.isSome then { c with bound := true }.moved now else c

-- The object, `none` when it is not there or not to be read.
def observe (c : Liveness) (object : Option Status) (now : Nanos) : Except SnapFault Liveness :=
  match object with
  | none => .ok c
  | some status =>
    match status.message.bind fatal with
    | some reason => .error (.driver reason)
    | none => .ok { (c.bind status now).errorRaised status.time now with lastError := status.message }

end Liveness

structure Look where
  now : Nanos
  object : Option Status
  exec : Except Text Text

structure State where
  clock : Liveness
  meter : Meter

def State.init (driver : Text) (pods : Option (List (Option Text))) (total : UInt64) (started : Nanos) : State :=
  ⟨.new total started, .attach driver pods⟩

-- The iteration up to the check of the window.
def State.advance (s : State) (look : Look) : Except SnapFault State :=
  match s.clock.observe look.object look.now with
  | .error fault => .error fault
  | .ok clock =>
    match s.meter.sample look.exec with
    | (meter, some snap) => .ok ⟨clock.meter snap look.now, meter⟩
    | (meter, none) => .ok ⟨clock, meter⟩

def State.step (s : State) (look : Look) : Except SnapFault (State × Unit) :=
  match s.advance look with
  | .error fault => .error fault
  | .ok t =>
    if t.clock.expired look.now (t.clock.window t.meter.metered) then .error (t.clock.fault t.meter.metered)
    else .ok (t, ())

-- An error ends the wait.
def watch (driver : Text) (pods : Option (List (Option Text))) (total : UInt64) (started : Nanos) (looks : List Look)
    : Except SnapFault State := Run.exec State.step (.init driver pods total started) looks

end Snapshot
end Materialize
