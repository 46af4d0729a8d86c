import Ztest.Qos.Resources

/-!
This module contains the vocabulary of a run: the verdict of a test process, the running tally, the
lifecycle events of `engine/events.rs` and the exit mapping of `engine::run`.

The tallies are `u32` in the source. They count tests of one run, so they are `Nat` here. Instants
and durations are `Nat` as well.
-/

namespace Engine

abbrev Bytes := List UInt8

inductive Verdict where
  | pass
  | fail (code : Int)
  | timeout
  | spawnError
  | terminated
  deriving DecidableEq

namespace Verdict

def isPass : Verdict → Bool
  | .pass => true
  | _ => false

def retryable : Verdict → Bool
  | .fail _ => true
  | .timeout => true
  | _ => false

end Verdict

inductive CancelReason where
  | interrupt
  deriving DecidableEq

def CancelReason.asStr : CancelReason → String
  | .interrupt => "interrupt"

inductive SkipReason where
  | exceedsClusterCapacity
  | exceedsSaBudget
  | dependencyUnavailable (resource : String)
  deriving DecidableEq

structure RunStats where
  passed : Nat := 0
  failed : Nat := 0
  terminated : Nat := 0
  skipped : Nat := 0
  total : Nat := 0
  deriving DecidableEq

namespace RunStats

def ran (s : RunStats) : Nat := s.passed + s.failed + s.terminated

def finished (s : RunStats) : Nat := s.ran + s.skipped

def notRun (s : RunStats) : Nat := s.total - s.finished

def anyFailed (s : RunStats) : Bool := s.failed > 0 || s.terminated > 0

def tally (s : RunStats) : List (Nat × String) :=
  [(s.passed, "passed")] ++ (if s.failed > 0 then [(s.failed, "failed")] else [])
    ++ (if s.terminated > 0 then [(s.terminated, "sigkilled")] else []) ++ [(s.skipped, "skipped")]

end RunStats

inductive QosClass where
  | integration
  | wallet
  | testnet
  | sync
  deriving DecidableEq

structure TestOutcome where
  verdict : Verdict
  output : List UInt8
  components : List UInt8
  duration : Nat

inductive TestEvent where
  | runStarted (total : Nat) (runId : String)
  | testStarted (binaryId testName : String) (cls : QosClass) (attempt : Nat)
  | testSlow (binaryId testName : String) (elapsed : Nat) (willTerminate : Bool) (attempt : Nat)
  | testRetrying (binaryId testName : String) (nextAttempt delay : Nat) (verdict : Verdict)
      (duration : Nat)
  | testFinished (binaryId testName : String) (verdict : Verdict) (duration attempt : Nat)
      (output components : List UInt8)
  | testSkipped (binaryId testName : String) (reason : SkipReason)
  | runCancelling (reason : CancelReason) (running : Nat)
  | runFinished (stats : RunStats) (elapsed : Nat)
  deriving DecidableEq

namespace TestEvent

def terminalKey : TestEvent → Option (String × String)
  | .testFinished binaryId testName .. => some (binaryId, testName)
  | .testSkipped binaryId testName _ => some (binaryId, testName)
  | _ => none

-- The attempt an event reports as completed, with its verdict.
def completion : TestEvent → Option ((String × String) × Verdict)
  | .testFinished binaryId testName verdict .. => some ((binaryId, testName), verdict)
  | .testRetrying binaryId testName _ _ verdict _ => some ((binaryId, testName), verdict)
  | _ => none

end TestEvent

inductive NextestExitCode where
  | ok
  | setupError
  | testRunFailed
  deriving DecidableEq

-- The end of `engine::run`, `cancelled` being the flag as read once the loop returned.
def exitCode (stats : RunStats) (cancelled : Bool) : NextestExitCode :=
  if stats.anyFailed || cancelled then
    .testRunFailed
  else if stats.skipped > 0 then
    .setupError
  else
    .ok

end Engine
