import Ztest.Lib.Decimal

/-!
This module contains how the arguments of `ztest run` are classified (`cli/run.rs`).
-/

namespace Cli

inductive RunSelector where
  | latest
  | id (id : String)
  | path (path : String)
  deriving DecidableEq

-- `slowAfter` is in seconds.
structure RunOptions where
  listArgs : List String := []
  testThreads : Option UInt32 := none
  noTests : Option String := none
  noCleanup : Bool := false
  retries : UInt32 := 0
  failFast : Bool := false
  slowAfter : Option UInt64 := none
  successOutput : Option String := none
  failureOutput : Option String := none
  logTail : Option String := none
  noCapture : Bool := false
  unsupported : List String := []
  rerun : Option RunSelector := none
  deriving DecidableEq

@[irreducible]
def runValue : List String :=
  ["--log-tail", "-j", "--test-threads", "--jobs", "--retries", "--message-format", "--no-tests", "--slow-timeout",
    "--success-output", "--failure-output"]

@[irreducible]
def runBool : List String :=
  ["--no-cleanup", "--no-capture", "--nocapture", "--fail-fast", "--ff", "--no-fail-fast", "--nff"]

@[irreducible]
def ignoredValue : List String :=
  ["--max-fail", "--debugger", "--tracer", "--stress-count", "--stress-duration", "--status-level",
    "--final-status-level", "--show-progress", "--max-progress-running", "--message-format-version",
    "--archive-file", "--archive-format", "--extract-to", "--cargo-metadata", "--workspace-remap",
    "--binaries-metadata", "--target-dir-remap"]

@[irreducible]
def ignoredBool : List String :=
  ["--no-run", "--hide-progress-bar", "--no-output-indent", "--no-input-handler", "--extract-overwrite",
    "--persist-extract-tempdir"]

def warnUnsupported : List String :=
  ["--max-fail", "--debugger", "--tracer", "--stress-count", "--stress-duration", "--archive-file", "--extract-to",
    "--cargo-metadata", "--binaries-metadata", "--no-run"]

def splitEq (arg : String) : String × Option String :=
  match arg.toList.span (· ≠ '=') with
  | (flag, _ :: value) => (String.ofList flag, some (String.ofList value))
  | (_, []) => (arg, none)

def parseU32 (s : String) : Option UInt32 :=
  (Decimal.parse s.toList).bind fun n => if n.toNat < 2 ^ 32 then some n.toUInt32 else none

def parseDurationSecs (s : String) : Option UInt64 :=
  let cs := s.toList
  Decimal.parse (if cs.getLast? = some 's' then cs.dropLast else cs)

def parseFlag (flag : String) (value : Option String) (parse : String → Option β) : Except String β :=
  match value with
  | none => .error (flag ++ " needs a value")
  | some value =>
    match parse value with
    | none => .error (flag ++ ": invalid value `" ++ value ++ "`")
    | some b => .ok b

namespace RunOptions

def warn (o : RunOptions) (flag : String) : RunOptions :=
  if flag ∈ warnUnsupported then { o with unsupported := o.unsupported ++ [flag] } else o

def setBool (o : RunOptions) (flag : String) : RunOptions :=
  match flag with
  | "--no-cleanup" => { o with noCleanup := true }
  | "--no-fail-fast" | "--nff" => { o with failFast := false }
  | "--fail-fast" | "--ff" => { o with failFast := true }
  | "--no-capture" | "--nocapture" => { o with noCapture := true }
  | _ => o

def setValue (o : RunOptions) (flag : String) (value : Option String) : Except String RunOptions :=
  match flag with
  | "-j" | "--test-threads" | "--jobs" =>
    match value with
    | some "num-cpus" => .ok { o with testThreads := none }
    | v => do .ok { o with testThreads := some (← parseFlag flag v parseU32) }
  | "--no-tests" => .ok { o with noTests := value }
  | "--retries" => do .ok { o with retries := ← parseFlag flag value parseU32 }
  | "--slow-timeout" => do .ok { o with slowAfter := some (← parseFlag flag value parseDurationSecs) }
  | "--success-output" => .ok { o with successOutput := value }
  | "--failure-output" => .ok { o with failureOutput := value }
  | "--log-tail" => .ok { o with logTail := value }
  | _ => .ok (o.warn flag)

-- The loop of `parse`.
def parseFrom (o : RunOptions) : List String → Except String RunOptions
  | [] => .ok o
  | arg :: it =>
    if arg = "--" then
      .ok { o with listArgs := o.listArgs ++ arg :: it }
    else if (splitEq arg).1 ∈ runBool then
      parseFrom (o.setBool (splitEq arg).1) it
    else if (splitEq arg).1 ∈ ignoredBool then
      parseFrom (o.warn (splitEq arg).1) it
    else if (splitEq arg).1 ∈ runValue ∨ (splitEq arg).1 ∈ ignoredValue then
      match (splitEq arg).2, it with
      | some inline, it => do parseFrom (← o.setValue (splitEq arg).1 (some inline)) it
      | none, value :: it => do parseFrom (← o.setValue (splitEq arg).1 (some value)) it
      | none, [] => o.setValue (splitEq arg).1 none
    else
      parseFrom { o with listArgs := o.listArgs ++ [arg] } it

def parse (args : List String) : Except String RunOptions := parseFrom {} args

end RunOptions

end Cli
