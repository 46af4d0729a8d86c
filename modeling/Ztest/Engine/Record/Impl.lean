import Ztest.Engine.Events
import Ztest.Lib.AList
import Ztest.Engine.Reporter
import Ztest.Lib.Decimal
import Ztest.Engine.Schedule.Impl

/-!
This module contains the recordings of `engine/record`: the store of captured outputs beside the event log,
the writer of the log, the reading of a recording, and `ztest run --rerun`.

The store keeps content-addressed, deduplicated, compressed blobs. `blake3` and `zstd` are parameters
(`Codec`), and so is `serde_json` (`Json`). The log is the text under its compression. What can go wrong is
an input (`Fault`, `Faults`): the compression fails, the file cannot be opened, or a write stops before the
last byte and leaves what was written so far.
-/

namespace Engine
namespace Record

inductive StoreRef where
  | empty
  | full (name : String)
  | truncated (name : String) (originalSize : Nat)
  deriving DecidableEq

inductive BlobKind where
  | combined
  | components
  deriving DecidableEq

def BlobKind.suffix : BlobKind → String
  | .combined => "combined"
  | .components => "components"

def truncationNotice (omitted : Nat) : String := s!"\n... <{omitted} bytes of output omitted> ...\n"

def truncate (data : Bytes) (max : Nat) : Bytes × Option Nat :=
  if max = 0 || data.length ≤ max then
    (data, none)
  else
    let notice := (truncationNotice (data.length - max)).toUTF8.data.toList
    let keep := max - notice.length
    let head := keep / 2
    let tail := keep - head
    (data.take head ++ notice ++ data.drop (data.length - tail), some data.length)

structure Codec where
  -- The first 32 hexadecimal digits of the hash.
  hash : Bytes → String
  encode : Bytes → Bytes
  decode : Bytes → Option Bytes

def Codec.blobName (codec : Codec) (payload : Bytes) (kind : BlobKind) : String :=
  codec.hash payload ++ "-" ++ kind.suffix

inductive Fault where
  | encode
  | create
  | write (written : Nat)
  deriving DecidableEq

structure OutputStore where
  seen : List String
  files : AList (fun _ : String => Bytes)

namespace OutputStore

def create : OutputStore := ⟨[], ∅⟩

def write (s : OutputStore) (codec : Codec) (name : String) (payload : Bytes)
    : Option Fault → OutputStore × Option Fault
  | some .encode => (s, some .encode)
  | some .create => (s, some .create)
  | some (.write written) =>
    if written < (codec.encode payload).length then
      ({ s with files := s.files.insert name ((codec.encode payload).take written) },
        some (.write written))
    else
      ({ s with files := s.files.insert name (codec.encode payload) }, none)
  | none => ({ s with files := s.files.insert name (codec.encode payload) }, none)

def refOf (name : String) : Option Nat → StoreRef
  | some originalSize => .truncated name originalSize
  | none => .full name

def put (s : OutputStore) (codec : Codec) (data : Bytes) (kind : BlobKind) (maxOutput : Nat)
    (fault : Option Fault) : OutputStore × Except Fault StoreRef :=
  if data = [] then
    (s, .ok .empty)
  else
    let (payload, originalSize) := truncate data maxOutput
    let name := codec.blobName payload kind
    if name ∈ s.seen then
      (s, .ok (refOf name originalSize))
    else
      match { s with seen := name :: s.seen }.write codec name payload fault with
      | (s, none) => (s, .ok (refOf name originalSize))
      | (s, some e) => (s, .error e)

-- A blob that is not there reads as empty, one that does not decode is an error.
def read (s : OutputStore) (codec : Codec) (name : String) : Option Bytes :=
  match s.files.lookup name with
  | none => some []
  | some file => codec.decode file

def get (s : OutputStore) (codec : Codec) : StoreRef → Option Bytes
  | .empty => some []
  | .full name => s.read codec name
  | .truncated name _ => s.read codec name

end OutputStore

structure Put where
  data : Bytes
  kind : BlobKind
  maxOutput : Nat
  fault : Option Fault
  deriving DecidableEq

namespace Put

def payload (c : Put) : Bytes := (truncate c.data c.maxOutput).1

def blob (c : Put) : Option (Bytes × BlobKind) :=
  if c.data = [] then none else some (c.payload, c.kind)

def run (c : Put) (codec : Codec) (s : OutputStore) : OutputStore × Except Fault StoreRef :=
  s.put codec c.data c.kind c.maxOutput c.fault

-- Whether the call fails, should it be the one that writes the blob.
def strikes (c : Put) (codec : Codec) : Prop :=
  match c.fault with
  | none => False
  | some .encode => True
  | some .create => True
  | some (.write written) => written < (codec.encode c.payload).length

end Put

def OutputStore.puts (codec : Codec) (s : OutputStore) (calls : List Put) : OutputStore :=
  calls.foldl (fun s c => (c.run codec s).1) s

inductive RecordedEvent where
  | runStarted (total : Nat) (runId : String)
  | testStarted (binaryId testName : String) (cls : QosClass) (attempt : Nat)
  | testSlow (binaryId testName : String) (elapsed : Nat) (willTerminate : Bool) (attempt : Nat)
  | testRetrying (binaryId testName : String) (nextAttempt delay : Nat) (verdict : Verdict)
      (duration : Nat)
  | testFinished (binaryId testName : String) (verdict : Verdict) (duration attempt : Nat)
      (output components : StoreRef)
  | testSkipped (binaryId testName : String) (reason : SkipReason)
  | runCancelling (reason : CancelReason) (running : Nat)
  | runFinished (stats : RunStats) (elapsed : Nat)
  deriving DecidableEq

structure Json where
  toStr : RecordedEvent → List Char
  fromStr : List Char → Option RecordedEvent

structure Faults where
  output : Option Fault := none
  components : Option Fault := none
  log : Option Nat := none

def maxOutput : Nat := 4 * 1024 * 1024

/--
The recording of one run. `captured` is that field of `meta.json`, the rest of it is not read back.
-/
structure RunRecorder where
  captured : Bool
  log : List Char
  store : OutputStore

namespace RunRecorder

def create (captured : Bool) : RunRecorder := ⟨captured, [], .create⟩

variable (codec : Codec) (json : Json)

def buildFinished (r : RunRecorder) (mk : StoreRef → StoreRef → RecordedEvent)
    (output components : Bytes) (faults : Faults) : RunRecorder × Option RecordedEvent :=
  match r.store.put codec output .combined maxOutput faults.output with
  | (store, .error _) => ({ r with store }, none)
  | (store, .ok outputRef) =>
    match store.put codec components .components 0 faults.components with
    | (store, .error _) => ({ r with store }, none)
    | (store, .ok componentsRef) => ({ r with store }, some (mk outputRef componentsRef))

def buildRecorded (r : RunRecorder) (faults : Faults)
    : TestEvent → RunRecorder × Option RecordedEvent
  | .runStarted total runId => (r, some (.runStarted total runId))
  | .testStarted binaryId testName cls attempt =>
    (r, some (.testStarted binaryId testName cls attempt))
  | .testSlow binaryId testName elapsed willTerminate attempt =>
    (r, some (.testSlow binaryId testName elapsed willTerminate attempt))
  | .testRetrying binaryId testName nextAttempt delay verdict duration =>
    (r, some (.testRetrying binaryId testName nextAttempt delay verdict duration))
  | .testFinished binaryId testName verdict duration attempt output components =>
    r.buildFinished codec (.testFinished binaryId testName verdict duration attempt) output components
      faults
  | .testSkipped binaryId testName reason => (r, some (.testSkipped binaryId testName reason))
  | .runCancelling reason running => (r, some (.runCancelling reason running))
  | .runFinished stats elapsed => (r, some (.runFinished stats elapsed))

def writeLine (r : RunRecorder) (line : List Char) : Option Nat → RunRecorder × Bool
  | none => ({ r with log := r.log ++ line }, true)
  | some written => ({ r with log := r.log ++ line.take written }, false)

-- Whether the event was recorded without an error comes with what is on disk then.
def record (r : RunRecorder) (ev : TestEvent) (faults : Faults) : RunRecorder × Bool :=
  match r.buildRecorded codec faults ev with
  | (r, none) => (r, false)
  | (r, some rec) => r.writeLine (json.toStr rec ++ ['\n']) faults.log

end RunRecorder

/--
The decorator that records and then forwards. `recording` is false from the first error on.
-/
structure RecordingReporter where
  inner : StyledReporter
  recorder : RunRecorder
  recording : Bool

def RecordingReporter.new (inner : StyledReporter) (recorder : RunRecorder) : RecordingReporter :=
  ⟨inner, recorder, true⟩

def RecordingReporter.handle (leaf : Leaf) (codec : Codec) (json : Json) (r : RecordingReporter)
    (ev : TestEvent) (faults : Faults) : RecordingReporter :=
  if r.recording then
    let (recorder, ok) := r.recorder.record codec json ev faults
    ⟨r.inner.handle leaf ev, recorder, ok⟩
  else
    { r with inner := r.inner.handle leaf ev }

/--
What the reporter goes through in a live run: the events of the loop, each with what fails while it is
recorded, and the ticks at which the scrollback is taken.
-/
inductive LiveStep where
  | event (ev : TestEvent) (faults : Faults)
  | drain

def LiveStep.event? : LiveStep → Option TestEvent
  | .event ev _ => some ev
  | .drain => none

structure Live where
  reporter : RecordingReporter
  -- The scrollback, piece by piece.
  taken : List Bytes

namespace Live

variable (leaf : Leaf) (codec : Codec) (json : Json)

def drain (l : Live) : Live :=
  let (bytes, inner) := l.reporter.inner.takeScrollback
  { reporter := { l.reporter with inner := inner }, taken := l.taken ++ [bytes] }

-- `run_tty` gives the console a string, `run_inherited` writes the bytes.
def shown (tty : Bool) (piece : Bytes) : Bytes := if tty then Utf8.encode (Utf8.lossy piece) else piece

def screen (l : Live) (tty : Bool) : Bytes := l.taken.flatMap (shown tty)

def step (l : Live) : LiveStep → Live
  | .event ev faults => { l with reporter := l.reporter.handle leaf codec json ev faults }
  | .drain => l.drain

/--
A live run from its first event to the drain of what the last tick left.
-/
def run (color unicode : Bool) (output : OutputConfig) (steps : List LiveStep) : Live :=
  (steps.foldl (step leaf codec json)
    ⟨.new (.new color unicode output) (.create output.captures), []⟩).drain

end Live

inductive ReplayError where
  | corruptEvent
  | blob
  deriving DecidableEq

-- `BufRead::lines`: a line ends at a newline, a carriage return before it is dropped.
def stripCr (line : List Char) : List Char :=
  if line.getLast? = some '\r' then line.dropLast else line

def lines (cur : List Char) : List Char → List (List Char)
  | [] => if cur = [] then [] else [cur]
  | c :: rest => if c = '\n' then stripCr cur :: lines [] rest else lines (cur ++ [c]) rest

def notCaptured : Bytes := "(output not captured)".toUTF8.data.toList

structure ReplayState where
  reporter : StyledReporter
  finalStats : Option RunStats
  out : Bytes
  -- The events the reporter was driven with.
  fed : List TestEvent

def resolveExit (mirrorOriginal : Bool) (stats : Option RunStats) : NextestExitCode :=
  if mirrorOriginal then
    match stats with
    | some s => if s.anyFailed then .testRunFailed else if s.skipped > 0 then .setupError else .ok
    | none => .ok
  else
    .ok

variable (leaf : Leaf) (codec : Codec) (json : Json)

def rebuildFinished (store : OutputStore) (captured : Bool) (mk : Bytes → Bytes → TestEvent)
    (output components : StoreRef) : Except ReplayError TestEvent :=
  match store.get codec components with
  | none => .error .blob
  | some components =>
    match store.get codec output with
    | none => .error .blob
    | some bytes =>
      .ok (mk (if bytes = [] && !captured then notCaptured else bytes) components)

-- The event `feed` hands to the reporter.
def rebuild (store : OutputStore) (captured : Bool) : RecordedEvent → Except ReplayError TestEvent
  | .runStarted total runId => .ok (.runStarted total runId)
  | .testStarted binaryId testName cls attempt => .ok (.testStarted binaryId testName cls attempt)
  | .testSlow binaryId testName elapsed willTerminate attempt =>
    .ok (.testSlow binaryId testName elapsed willTerminate attempt)
  | .testRetrying binaryId testName nextAttempt delay verdict duration =>
    .ok (.testRetrying binaryId testName nextAttempt delay verdict duration)
  | .testFinished binaryId testName verdict duration attempt output components =>
    rebuildFinished codec store captured (.testFinished binaryId testName verdict duration attempt)
      output components
  | .testSkipped binaryId testName reason => .ok (.testSkipped binaryId testName reason)
  | .runCancelling reason running => .ok (.runCancelling reason running)
  | .runFinished stats elapsed => .ok (.runFinished stats elapsed)

namespace ReplayState

def feed (s : ReplayState) (ev : TestEvent) : ReplayState :=
  let (bytes, reporter) := (s.reporter.handle leaf ev).takeScrollback
  { s with reporter := reporter, out := s.out ++ bytes, fed := s.fed ++ [ev] }

def noteStats (s : ReplayState) : RecordedEvent → ReplayState
  | .runFinished stats _ => { s with finalStats := some stats }
  | _ => s

def readLine (store : OutputStore) (captured : Bool) (s : ReplayState) (line : List Char)
    : Except ReplayError ReplayState :=
  if Decimal.trim line = [] then
    .ok s
  else
    match json.fromStr line with
    | none => .error .corruptEvent
    | some rec =>
      match rebuild codec store captured rec with
      | .error e => .error e
      | .ok ev => .ok ((s.noteStats rec).feed leaf ev)

def readLines (store : OutputStore) (captured : Bool) (s : ReplayState)
    : List (List Char) → Except ReplayError ReplayState
  | [] => .ok s
  | line :: rest =>
    match s.readLine leaf codec json store captured line with
    | .error e => .error e
    | .ok s => s.readLines store captured rest

end ReplayState

def replay (recording : RunRecorder) (output : OutputConfig) (color unicode exitCode : Bool)
    : Except ReplayError (ReplayState × NextestExitCode) :=
  match ReplayState.readLines leaf codec json recording.store recording.captured
      ⟨.new color unicode output, none, [], []⟩ (lines [] recording.log) with
  | .error e => .error e
  | .ok s => .ok (s, resolveExit exitCode s.finalStats)

-- The test that an event of the log ends with a pass.
def RecordedEvent.passKey : RecordedEvent → Option (String × String)
  | .testFinished binaryId testName .pass .. => some (binaryId, testName)
  | _ => none

variable (json : Json)

def readPassed : List (List Char) → Except ReplayError (List (String × String))
  | [] => .ok []
  | line :: rest =>
    if Decimal.trim line = [] then
      readPassed rest
    else
      match json.fromStr line with
      | none => .error .corruptEvent
      | some rec => (readPassed rest).map (rec.passKey.toList ++ ·)

def passedTests (recording : RunRecorder) : Except ReplayError (List (String × String)) :=
  readPassed json (lines [] recording.log)

-- What `run_loop` is given of a work list.
def rerunItems (rerunPassed : List (String × String)) (items : List WorkItem) : List WorkItem :=
  if rerunPassed ≠ [] then items.filter fun item => key item ∉ rerunPassed else items

end Record
end Engine
