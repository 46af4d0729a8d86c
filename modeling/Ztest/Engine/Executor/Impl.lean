import Ztest.Engine.Events
import Ztest.Lib.Dialog
import Ztest.Libtest.Impl
import Ztest.Materialize.Watch.Impl

/-!
This module contains the two executors of a test: `run_in_pod` of `engine/pod_runner.rs` and `LocalExecutor` of
`engine/local_runner.rs`, with the namespace of the test (`engine/test_ns.rs`) around both. Each is a dialog
with the cluster, the operating system and the clock. The names come from outside: each has a random part.
-/

namespace Engine
namespace Executor

open Materialize.Watch (Pod PodStatus)

-- `POLL_INTERVAL`, in nanoseconds like every time here.
def pollInterval : Nat := 250000000

structure Item where
  testName : String
  binaryPath : String
  hardCap : Nat

structure EngineEnv where
  noCleanup : Bool
  capture : Bool

inductive Turn where
  | slept
  | cancelled
  deriving DecidableEq

/--
How a wait for the child ends. An exit has a code unless a signal ended the child, and `wait` itself may fail.
-/
inductive Race where
  | exited (status : Except String (Option Int))
  | capped
  | cancelled

inductive Ask where
  | now
  | createNamespace (ns : String)
  | bindDriver (ns : String)
  | waitForDefaultSa (ns : String)
  | createPod (name ns : String)
  | turn
  | getPod (name : String)
  | podLogs (name : String)
  | deadPodReport (ns : String)
  | componentLog (ns : String)
  | deleteNamespace (ns : String)
  | deleteSeedBindings (ns : String)
  | deletePod (name : String)
  | attachStdio
  | spawn (ns : String)
  | race (hardCap : Nat)
  | killGroup
  | reap
  | drain
  deriving DecidableEq

-- An error is its text.
abbrev Ask.Answer : Ask → Type
  | .now => Nat
  | .createNamespace _ => Except String Unit
  | .bindDriver _ => Except String Unit
  | .waitForDefaultSa _ => Except String Unit
  | .createPod _ _ => Except String Unit
  | .turn => Turn
  -- `none` when the request fails.
  | .getPod _ => Option Pod
  | .podLogs _ => Except String Bytes
  | .deadPodReport _ => Bytes
  | .componentLog _ => Bytes
  | .deleteNamespace _ => Except String Unit
  | .deleteSeedBindings _ => Unit
  | .deletePod _ => Except String Unit
  | .attachStdio => Except String Unit
  | .spawn _ => Except String Unit
  | .race _ => Race
  | .killGroup => Unit
  | .reap => Unit
  | .drain => Bytes

abbrev Program := Dialog Ask Ask.Answer

def ask (q : Ask) : Program q.Answer := .ask q .done

section Namespace

-- `create_test_namespace`: the requests in order, up to the first that fails.
def createTestNamespace (ns : String) : Program (Except String Unit) := do
  match ← ask (.createNamespace ns) with
  | .error e => pure (.error e)
  | .ok () =>
    match ← ask (.bindDriver ns) with
    | .error e => pure (.error e)
    | .ok () => ask (.waitForDefaultSa ns)

def openNs (ns : String) : Program (Except String Unit) := do
  let created ← createTestNamespace ns
  pure (created.mapError fun e => "create test namespace " ++ ns ++ ": " ++ e)

structure Harvest where
  dead : Bytes
  components : Bytes

def deleteNs (ns : String) (noCleanup : Bool) : Program Unit := do
  if noCleanup then
    pure ()
  else
    match ← ask (.deleteNamespace ns) with
    | .error _ => pure ()
    | .ok () => ask (.deleteSeedBindings ns)

def closeNs (ns : String) (noCleanup : Bool) : Program Harvest := do
  let dead ← ask (.deadPodReport ns)
  let components ← ask (.componentLog ns)
  deleteNs ns noCleanup
  pure ⟨dead, components⟩

end Namespace

def runnerOutput (raw : Bytes) (testName : String) (dead : Bytes) : Bytes :=
  let out := Libtest.stripLibtestFrame raw testName
  if dead = [] then out
  else if out ≠ [] ∧ out.getLast? ≠ some 10 then out ++ 10 :: dead
  else out ++ dead

section Pod

inductive TerminalState where
  | passed
  | failed (code : Int)
  | imageError (reason : String)

inductive Done where
  | reached (state : TerminalState)
  | timeout
  | cancelled

def terminalState (pod : Pod) : Option TerminalState :=
  pod.status.bind fun status =>
    if status.phase = some "Succeeded" then some .passed
    else if status.phase = some "Failed" then some (.failed (status.exitCode.getD (-1)))
    else none

-- The image error of a pod that is not done.
def pullError (pod : Pod) : Option String := pod.status.bind PodStatus.imageError

def firstSeen (pullErrorSince : Option Nat) : Program Nat :=
  match pullErrorSince with
  | some first => pure first
  | none => ask .now

-- What a poll says: the wait is over, or where the window of the pull error stands.
def judge (pod : Pod) (pullErrorSince : Option Nat) : Program (Except TerminalState (Option Nat)) := do
  match terminalState pod with
  | some state => pure (.error state)
  | none =>
    match pullError pod with
    | none => pure (.ok none)
    | some reason =>
      let first ← firstSeen pullErrorSince
      let now ← ask .now
      if PodStatus.pullErrorIsTerminal reason first now PodStatus.imagePullGrace then
        pure (.error (.imageError reason))
      else
        pure (.ok (some first))

def look (name : String) (pullErrorSince : Option Nat) : Program (Except TerminalState (Option Nat)) := do
  match ← ask (.getPod name) with
  | none => pure (.ok pullErrorSince)
  | some pod => judge pod pullErrorSince

def checkCap (started hardCap : Nat) (judged : Except TerminalState (Option Nat))
    : Program (Except Done (Option Nat)) := do
  match judged with
  | .error state => pure (.error (.reached state))
  | .ok since =>
    let now ← ask .now
    pure (if hardCap ≤ now - started then .error .timeout else .ok since)

-- One turn of the loop of `run_in_pod`.
def poll (name : String) (started hardCap : Nat) (pullErrorSince : Option Nat)
    : Program (Except Done (Option Nat)) := do
  match ← ask .turn with
  | .cancelled => pure (.error .cancelled)
  | .slept =>
    let judged ← look name pullErrorSince
    checkCap started hardCap judged

def await (name : String) (started hardCap : Nat) : Nat → Option Nat → Program (Option Done)
  | 0, _ => pure none
  | fuel + 1, pullErrorSince => do
    match ← poll name started hardCap pullErrorSince with
    | .error done => pure (some done)
    | .ok since => await name started hardCap fuel since

def unavailable (name e : String) : Bytes :=
  Libtest.utf8 ("ztest: runner pod " ++ name ++ " logs unavailable: " ++ e ++ "\n")

def settled (done : Done) (runner : Bytes) : Verdict × Bytes :=
  match done with
  | .reached .passed => (.pass, runner)
  | .reached (.failed code) => (.fail code, runner)
  | .reached (.imageError reason) => (.spawnError, Libtest.utf8 ("runner image error: " ++ reason))
  | .timeout => (.timeout, runner)
  | .cancelled => (.terminated, runner)

def spawnError (started : Nat) (output : String) : Program TestOutcome := do
  let now ← ask .now
  pure ⟨.spawnError, Libtest.utf8 output, [], now - started⟩

def deleteRunner (name : String) (noCleanup : Bool) : Program Unit := do
  if noCleanup then
    pure ()
  else
    let _ ← ask (.deletePod name)
    pure ()

-- The end of `run_in_pod`: what the pod left is fetched before anything is deleted.
def settle (env : EngineEnv) (item : Item) (ns name : String) (started : Nat) (done : Done)
    : Program TestOutcome := do
  let logs ← ask (.podLogs name)
  let raw := match logs with | .ok logs => logs | .error e => unavailable name e
  let harvest ← closeNs ns env.noCleanup
  deleteRunner name env.noCleanup
  let now ← ask .now
  let result := settled done (runnerOutput raw item.testName harvest.dead)
  pure ⟨result.1, result.2, harvest.components, now - started⟩

-- `run_in_pod` past `test_ns::open`.
def podRun (env : EngineEnv) (item : Item) (ns name : String) (started : Nat) (fuel : Nat)
    : Program (Option TestOutcome) := do
  match ← ask (.createPod name ns) with
  | .error e =>
    let _ ← closeNs ns env.noCleanup
    some <$> spawnError started ("create runner pod " ++ name ++ ": " ++ e)
  | .ok () =>
    match ← await name started item.hardCap fuel none with
    | none => pure none
    | some done => some <$> settle env item ns name started done

end Pod

section Local

def exited : Except String (Option Int) → Verdict
  | .error _ => .spawnError
  | .ok code => if code = some 0 then .pass else .fail (code.getD (-1))

-- The whole process group.
def kill : Program Unit := do
  ask .killGroup
  ask .reap

def raceChild (hardCap : Nat) : Program Verdict := do
  match ← ask (.race hardCap) with
  | .exited status => pure (exited status)
  | .capped =>
    kill
    pure .timeout
  | .cancelled =>
    kill
    pure .terminated

def attach (capture : Bool) : Program (Except String Unit) :=
  if capture then ask .attachStdio else pure (.ok ())

def collect (capture : Bool) : Program Bytes := if capture then ask .drain else pure []

def spawnTest (env : EngineEnv) (item : Item) (ns : String) : Program (Verdict × Bytes) := do
  let failed (e : String) : Verdict × Bytes :=
    (.spawnError, Libtest.utf8 ("cannot execute " ++ item.binaryPath ++ ": " ++ e))
  match ← attach env.capture with
  | .error e => pure (failed e)
  | .ok () =>
    match ← ask (.spawn ns) with
    | .error e => pure (failed e)
    | .ok () =>
      let verdict ← raceChild item.hardCap
      let output ← collect env.capture
      pure (verdict, output)

-- `LocalExecutor::run` past `test_ns::open`.
def localRun (env : EngineEnv) (item : Item) (ns : String) (started : Nat) : Program TestOutcome := do
  let out ← spawnTest env item ns
  let harvest ← closeNs ns env.noCleanup
  let now ← ask .now
  pure ⟨out.1, runnerOutput out.2 item.testName harvest.dead, harvest.components, now - started⟩

end Local

inductive Kind where
  | inPod (name : String) (fuel : Nat)
  | inProcess

def body (kind : Kind) (env : EngineEnv) (item : Item) (ns : String) (started : Nat)
    : Program (Option TestOutcome) :=
  match kind with
  | .inPod name fuel => podRun env item ns name started fuel
  | .inProcess => some <$> localRun env item ns started

/--
`Executor::run`. There is no outcome when the turns of a wait for a pod are used up.
-/
def run (kind : Kind) (env : EngineEnv) (item : Item) (ns : String) : Program (Option TestOutcome) := do
  let started ← ask .now
  match ← openNs ns with
  | .error e => some <$> spawnError started e
  | .ok () => body kind env item ns started

end Executor
end Engine
