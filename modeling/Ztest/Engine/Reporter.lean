import Mathlib.Data.Char
import Mathlib.Data.List.Lex
import Ztest.Engine.Events
import Ztest.Lib.Collect
import Ztest.Lib.Lines
import Ztest.Lib.Utf8

/-!
This module contains the reporter of `engine/reporter.rs`, which turns the events of a run into the
scrollback, and the output policy of `engine/output.rs` it obeys.

The texts of colours and of durations in seconds come from outside (`Leaf`), so do the libtest frame
and the component section: they are pure functions of what they are given. `write!` into a vector
does not fail.

The component section itself, and the log that it shows, are those of `logstream.rs`: the lines of all pods are
staged with their stamps, merged by them and kept whole, and only the section drops some.

The theory of the reporter does not depend on any text: it only appends to its buffer and never reads it, so the
text of a run does not depend on when the scrollback is taken.
-/

namespace Engine

inductive TestOutputDisplay where
  | immediate
  | immediateFinal
  | final
  | never
  deriving DecidableEq

def TestOutputDisplay.isImmediate : TestOutputDisplay → Bool
  | .immediate => true
  | .immediateFinal => true
  | _ => false

def TestOutputDisplay.isFinal : TestOutputDisplay → Bool
  | .final => true
  | .immediateFinal => true
  | _ => false

inductive CaptureStrategy where
  | combined
  | none
  deriving DecidableEq

inductive LogTail where
  | lines (n : Nat)
  | all

def LogTail.keep (tail : LogTail) (available : Nat) : Nat :=
  match tail with
  | .lines n => min n available
  | .all => available

theorem LogTail.keep_le (tail : LogTail) (available : Nat) : tail.keep available ≤ available := by
  cases tail with
  | lines n => exact Nat.min_le_right n available
  | all => exact Nat.le_refl available

structure OutputConfig where
  success : TestOutputDisplay := .never
  failure : TestOutputDisplay := .immediate
  capture : CaptureStrategy := .combined
  logTail : LogTail := .lines 30

namespace OutputConfig

def displayFor (c : OutputConfig) (passed : Bool) : TestOutputDisplay :=
  if passed then c.success else c.failure

def captures (c : OutputConfig) : Bool := c.capture = .combined

def withNoCapture (c : OutputConfig) : OutputConfig :=
  { c with capture := .none, success := .immediate, failure := .immediate }

end OutputConfig

inductive Ink where
  | pass
  | fail
  | retry
  | skip
  deriving DecidableEq

structure Leaf where
  ink : Ink → String → String
  bold : String → String
  -- The binary and the test of an instance, in colour.
  styled : String → String → String
  -- A duration in seconds with three digits, right-aligned in a field of the given width.
  secs : Nat → Nat → String
  stripLibtestFrame : Bytes → String → Bytes
  componentSection : Bytes → LogTail → Bool → Option String

namespace Leaf

def paintWord (leaf : Leaf) (s : String) (ink : Ink) (color : Bool) : String :=
  if color then leaf.ink ink s else s

def boldCount (leaf : Leaf) (n : Nat) (color : Bool) : String :=
  if color then leaf.bold n.repr else n.repr

def instanceStr (leaf : Leaf) (bin test : String) (color : Bool) : String :=
  if color then leaf.styled bin test else s!"{bin} {test}"

def bracketDur (leaf : Leaf) (d : Nat) : String :=
  let secs := leaf.secs 8 d
  s!"[{secs}s] "

def bracketSlow (leaf : Leaf) (d : Nat) : String :=
  let secs := leaf.secs 7 d
  s!"[>{secs}s] "

def countsTail (leaf : Leaf) (stats : RunStats) (color : Bool) : String :=
  ", ".intercalate (stats.tally.map fun (n, word) =>
    let ink :=
      if word = "passed" then .pass
      else if word = "failed" || word = "sigkilled" then .fail
      else .skip
    leaf.boldCount n color ++ " " ++ leaf.paintWord word ink color)

end Leaf

def bracketSkip : String := "[         ] "

def longStatus : Verdict → String
  | .fail _ => "FAIL"
  | .timeout => "TIMEOUT"
  | .spawnError => "XFAIL"
  | .pass => "PASS"
  | .terminated => "SIGKILL"

def shortStatus : Verdict → String
  | .fail _ => "FAIL"
  | .timeout => "TMT"
  | .spawnError => "XFAIL"
  | .pass => "PASS"
  | .terminated => "SIGKILL"

def skipNote : SkipReason → String
  | .dependencyUnavailable resource => s!"resource unavailable: {resource}"
  | .exceedsClusterCapacity => "exceeds cluster capacity (raise the cluster ceiling or lower the tier)"
  | .exceedsSaBudget => "exceeds ServiceAccount budget"

def pad (word : String) : String := "".pushn ' ' (12 - word.length) ++ word

/--
The lines of `output`, the non-empty ones indented by four, each with a newline; `cur` is the part of
the current line that was read.
-/
def indentLines (cur : Bytes) : Bytes → Bytes
  | [] => if cur = [] then [] else "    ".toUTF8.data.toList ++ cur ++ [10]
  | b :: rest =>
    if b = 10 then
      (if cur = [] then [] else "    ".toUTF8.data.toList) ++ cur ++ [10] ++ indentLines [] rest
    else
      indentLines (cur ++ [b]) rest

structure StyledReporter where
  color : Bool
  unicode : Bool
  buf : Bytes
  stats : RunStats
  cancelled : Option CancelReason
  failures : List String
  output : OutputConfig
  finalOutputs : List (String × Bytes × Bool)

namespace StyledReporter

section Rendering

def new (color unicode : Bool) (output : OutputConfig) : StyledReporter where
  color := color
  unicode := unicode
  buf := []
  stats := {}
  cancelled := none
  failures := []
  output := output
  finalOutputs := []

variable (leaf : Leaf)

def write (r : StyledReporter) (bytes : Bytes) : StyledReporter := { r with buf := r.buf ++ bytes }

def writeln (r : StyledReporter) (line : String) : StyledReporter :=
  r.write (line.toUTF8.data.toList ++ [10])

def paint (r : StyledReporter) (s : String) (ink : Ink) : String := leaf.paintWord s ink r.color

def status (r : StyledReporter) (word : String) (ink : Ink) : String := r.paint leaf (pad word) ink

def hbar (r : StyledReporter) (n : Nat) : String := "".pushn (if r.unicode then '─' else '-') n

def styledInstance (r : StyledReporter) (bin test : String) : String :=
  leaf.instanceStr bin test r.color

def formatLine (r : StyledReporter) (word : String) (ink : Ink) (bracket bin test : String)
    : String :=
  r.status leaf word ink ++ " " ++ bracket ++ r.styledInstance leaf bin test

def line (r : StyledReporter) (word : String) (ink : Ink) (bracket bin test : String)
    : StyledReporter :=
  r.writeln (r.formatLine leaf word ink bracket bin test)

def replayOutput (r : StyledReporter) (output : Bytes) (ink : Ink) : StyledReporter :=
  if output = [] then
    r
  else
    let header := r.paint leaf " " ink ++ " " ++ r.paint leaf "output" ink ++ " "
      ++ r.paint leaf (r.hbar 3) ink
    (r.writeln header).write (indentLines [] output)

def emitFinalOutputs (r : StyledReporter) : StyledReporter :=
  r.finalOutputs.foldl
    (fun r (line, output, passed) =>
      (r.writeln line).replayOutput leaf output (if passed then .pass else .fail))
    { r with finalOutputs := [] }

def notRunWarning (r : StyledReporter) (stats : RunStats) : StyledReporter :=
  if stats.notRun = 0 then
    r
  else
    let plural := stats.total ≠ 1 || stats.notRun ≠ 1
    let dueTo :=
      match r.cancelled with
      | some reason => " due to " ++ r.paint leaf reason.asStr .skip
      | none => ""
    r.writeln (r.paint leaf "warning" .skip ++ ": " ++ leaf.boldCount stats.notRun r.color ++ "/"
      ++ leaf.boldCount stats.total r.color ++ " " ++ (if plural then "tests" else "test") ++ " "
      ++ (if plural then "were" else "was") ++ " not run" ++ dueTo)

def summaryLine (r : StyledReporter) (stats : RunStats) (elapsed : Nat) : String :=
  let ink :=
    if stats.failed > 0 || r.cancelled.isSome then .fail
    else if stats.finished = 0 then .skip
    else .pass
  let ran :=
    if stats.ran ≠ stats.total then
      leaf.boldCount stats.ran r.color ++ "/" ++ leaf.boldCount stats.total r.color
    else
      leaf.boldCount stats.ran r.color
  let tests := if stats.total ≠ 1 || stats.ran ≠ 1 then "tests" else "test"
  r.paint leaf (pad "Summary") ink ++ " " ++ leaf.bracketDur elapsed ++ ran ++ " " ++ tests
    ++ " run: " ++ leaf.countsTail stats r.color

def recap (r : StyledReporter) : StyledReporter :=
  r.failures.foldl writeln { r with failures := [] }

def canceledLine (r : StyledReporter) : StyledReporter :=
  match r.cancelled with
  | some reason => r.writeln (r.status leaf "Canceled" .fail ++ " due to " ++ reason.asStr)
  | none => r

def summary (r : StyledReporter) (stats : RunStats) (elapsed : Nat) : StyledReporter :=
  ((((r.writeln (r.hbar 12)).writeln (r.summaryLine leaf stats elapsed)).recap).canceledLine
    leaf).notRunWarning leaf stats

def finishedWord (verdict : Verdict) (attempt : Nat) : String × Ink :=
  if verdict = .pass then
    ("PASS", .pass)
  else if attempt > 1 then
    (s!"TRY {attempt} " ++ shortStatus verdict, .fail)
  else
    (longStatus verdict, .fail)

def countFinished (r : StyledReporter) (verdict : Verdict) (line : String) : StyledReporter :=
  if verdict = .pass then
    { r with stats := { r.stats with passed := r.stats.passed + 1 } }
  else if verdict = .terminated then
    { r with stats := { r.stats with terminated := r.stats.terminated + 1 } }
  else
    { r with
      failures := r.failures ++ [line]
      stats := { r.stats with failed := r.stats.failed + 1 } }

def shownBytes (r : StyledReporter) (testName : String) (output components : Bytes) : Bytes :=
  match leaf.componentSection components r.output.logTail r.color with
  | some s => leaf.stripLibtestFrame output testName ++ s.toUTF8.data.toList
  | none => leaf.stripLibtestFrame output testName

def showOutput (r : StyledReporter) (line testName : String) (passed : Bool) (ink : Ink)
    (output components : Bytes) : StyledReporter :=
  let display := r.output.displayFor passed
  let shown := r.shownBytes leaf testName output components
  let r := if display.isImmediate then r.replayOutput leaf shown ink else r
  if display.isFinal && shown ≠ [] then
    { r with finalOutputs := r.finalOutputs ++ [(line, shown, passed)] }
  else
    r

def handleFinished (r : StyledReporter) (binaryId testName : String) (verdict : Verdict)
    (duration attempt : Nat) (output components : Bytes) : StyledReporter :=
  let (word, ink) := finishedWord verdict attempt
  let line := r.formatLine leaf word ink (leaf.bracketDur duration) binaryId testName
  let r := (r.writeln line).countFinished verdict line
  if verdict = .terminated then
    r
  else
    r.showOutput leaf line testName (verdict = .pass) ink output components

def handle (r : StyledReporter) : TestEvent → StyledReporter
  | .runStarted total _ =>
    let r := { r with stats := { r.stats with total := total } }
    r.writeln (r.status leaf "Starting" .pass ++ " " ++ leaf.boldCount total r.color ++ " "
      ++ (if total = 1 then "test" else "tests"))
  | .testStarted .. => r
  | .testSlow binaryId testName elapsed willTerminate attempt =>
    if willTerminate then
      r.line leaf "TERMINATING" .fail (leaf.bracketSlow elapsed) binaryId testName
    else if attempt > 1 then
      r.line leaf s!"TRY {attempt} SLOW" .skip (leaf.bracketSlow elapsed) binaryId testName
    else
      r.line leaf "SLOW" .skip (leaf.bracketSlow elapsed) binaryId testName
  | .testRetrying binaryId testName nextAttempt _ verdict duration =>
    let failedAttempt := max (nextAttempt - 1) 1
    r.line leaf (s!"TRY {failedAttempt} " ++ shortStatus verdict) .retry (leaf.bracketDur duration)
      binaryId testName
  | .testFinished binaryId testName verdict duration attempt output components =>
    r.handleFinished leaf binaryId testName verdict duration attempt output components
  | .testSkipped binaryId testName reason =>
    let r := r.writeln (r.status leaf "SKIP" .skip ++ " " ++ bracketSkip
      ++ r.styledInstance leaf binaryId testName ++ " "
      ++ r.paint leaf ("(" ++ skipNote reason ++ ")") .skip)
    { r with stats := { r.stats with skipped := r.stats.skipped + 1 } }
  | .runCancelling reason running =>
    let r := { r with cancelled := some reason }
    r.writeln (r.status leaf "Canceling" .fail ++ " due to " ++ reason.asStr ++ ": "
      ++ leaf.boldCount running r.color ++ " " ++ (if running = 1 then "test" else "tests")
      ++ " still running")
  | .runFinished stats elapsed => (r.emitFinalOutputs leaf).summary leaf stats elapsed

def takeScrollback (r : StyledReporter) : Bytes × StyledReporter := (r.buf, { r with buf := [] })

end Rendering

variable {leaf : Leaf}

def prepend (r : StyledReporter) (pre : Bytes) : StyledReporter := { r with buf := pre ++ r.buf }

@[simp]
theorem prepend_nil (r : StyledReporter) : r.prepend [] = r := rfl

@[simp]
theorem write_prepend (r : StyledReporter) (pre bytes : Bytes)
    : (r.prepend pre).write bytes = (r.write bytes).prepend pre := by
  simp [prepend, write]

@[simp]
theorem writeln_prepend (r : StyledReporter) (pre : Bytes) (line : String)
    : (r.prepend pre).writeln line = (r.writeln line).prepend pre := by
  simp [writeln]

@[simp]
theorem formatLine_prepend (r : StyledReporter) (pre : Bytes) (word : String) (ink : Ink)
    (bracket bin test : String)
    : (r.prepend pre).formatLine leaf word ink bracket bin test
      = r.formatLine leaf word ink bracket bin test := rfl

@[simp]
theorem line_prepend (r : StyledReporter) (pre : Bytes) (word : String) (ink : Ink)
    (bracket bin test : String)
    : (r.prepend pre).line leaf word ink bracket bin test
      = (r.line leaf word ink bracket bin test).prepend pre := by
  simp [line]

@[simp]
theorem replayOutput_prepend (r : StyledReporter) (pre output : Bytes) (ink : Ink)
    : (r.prepend pre).replayOutput leaf output ink
      = (r.replayOutput leaf output ink).prepend pre := by
  unfold replayOutput
  split
  . rfl
  . simp only [writeln_prepend, write_prepend]
    rfl

theorem emitFinalOutputs_prepend (r : StyledReporter) (pre : Bytes)
    : (r.prepend pre).emitFinalOutputs leaf = (r.emitFinalOutputs leaf).prepend pre := by
  unfold emitFinalOutputs
  change List.foldl _ (prepend { r with finalOutputs := [] } pre) r.finalOutputs = _
  generalize StyledReporter.mk r.color r.unicode r.buf r.stats r.cancelled r.failures r.output [] = t
  induction r.finalOutputs generalizing t with
  | nil => rfl
  | cons o os ih =>
    simp only [List.foldl_cons, writeln_prepend, replayOutput_prepend]
    apply ih

theorem recap_prepend (r : StyledReporter) (pre : Bytes)
    : (r.prepend pre).recap = r.recap.prepend pre := by
  unfold recap
  change List.foldl _ (prepend { r with failures := [] } pre) r.failures = _
  generalize StyledReporter.mk r.color r.unicode r.buf r.stats r.cancelled [] r.output
    r.finalOutputs = t
  induction r.failures generalizing t with
  | nil => rfl
  | cons line lines ih =>
    simp only [List.foldl_cons, writeln_prepend]
    apply ih

theorem canceledLine_prepend (r : StyledReporter) (pre : Bytes)
    : (r.prepend pre).canceledLine leaf = (r.canceledLine leaf).prepend pre := by
  unfold canceledLine
  rw [show (r.prepend pre).cancelled = r.cancelled from rfl]
  cases r.cancelled with
  | none => rfl
  | some reason => apply writeln_prepend

theorem notRunWarning_prepend (r : StyledReporter) (pre : Bytes) (stats : RunStats)
    : (r.prepend pre).notRunWarning leaf stats = (r.notRunWarning leaf stats).prepend pre := by
  unfold notRunWarning
  split
  . rfl
  . apply writeln_prepend

theorem summary_prepend (r : StyledReporter) (pre : Bytes) (stats : RunStats) (elapsed : Nat)
    : (r.prepend pre).summary leaf stats elapsed = (r.summary leaf stats elapsed).prepend pre := by
  unfold summary
  rw [← notRunWarning_prepend, ← canceledLine_prepend, ← recap_prepend, ← writeln_prepend,
    ← writeln_prepend]
  rfl

theorem countFinished_prepend (r : StyledReporter) (pre : Bytes) (verdict : Verdict) (line : String)
    : (r.prepend pre).countFinished verdict line = (r.countFinished verdict line).prepend pre := by
  unfold countFinished
  split
  . rfl
  . split <;> rfl

theorem showOutput_prepend (r : StyledReporter) (pre : Bytes) (line testName : String) (passed : Bool)
    (ink : Ink) (output components : Bytes)
    : (r.prepend pre).showOutput leaf line testName passed ink output components
      = (r.showOutput leaf line testName passed ink output components).prepend pre := by
  unfold showOutput
  rw [show (r.prepend pre).output = r.output from rfl,
    show (r.prepend pre).shownBytes leaf testName output components
      = r.shownBytes leaf testName output components from rfl]
  generalize r.shownBytes leaf testName output components = shown
  by_cases himmediate : (r.output.displayFor passed).isImmediate = true
  . simp only [himmediate, if_true, replayOutput_prepend]
    split <;> rfl
  . simp only [himmediate]
    split <;> rfl

theorem handleFinished_prepend (r : StyledReporter) (pre : Bytes) (binaryId testName : String)
    (verdict : Verdict) (duration attempt : Nat) (output components : Bytes)
    : (r.prepend pre).handleFinished leaf binaryId testName verdict duration attempt output components
      = (r.handleFinished leaf binaryId testName verdict duration attempt output components).prepend
          pre := by
  unfold handleFinished
  simp only [formatLine_prepend, writeln_prepend, countFinished_prepend, showOutput_prepend]
  split <;> rfl

/--
What an event adds to the buffer does not depend on what is in it.
-/
theorem handle_prepend (r : StyledReporter) (pre : Bytes) (ev : TestEvent)
    : (r.prepend pre).handle leaf ev = (r.handle leaf ev).prepend pre := by
  cases ev with
  | runStarted total runId =>
    apply writeln_prepend { r with stats := { r.stats with total := total } }
  | testStarted => rfl
  | testSlow binaryId testName elapsed willTerminate attempt =>
    simp only [handle, line_prepend]
    split
    . rfl
    . split <;> rfl
  | testRetrying binaryId testName nextAttempt delay verdict duration => apply line_prepend
  | testFinished => apply handleFinished_prepend
  | testSkipped binaryId testName reason =>
    simp only [handle, writeln_prepend]
    rfl
  | runCancelling reason running => apply writeln_prepend { r with cancelled := some reason }
  | runFinished stats elapsed =>
    simp only [handle, emitFinalOutputs_prepend, summary_prepend]

def handleAll (leaf : Leaf) (r : StyledReporter) (evs : List TestEvent) : StyledReporter :=
  evs.foldl (handle leaf) r

/--
The text of a sequence of events.
-/
def render (leaf : Leaf) (color unicode : Bool) (output : OutputConfig) (evs : List TestEvent)
    : Bytes :=
  ((new color unicode output).handleAll leaf evs).buf

end StyledReporter

namespace Logstream

-- The stamp that a line is merged by, and what is shown of it.
abbrev TsLine := Text × Text

-- A pod as it is listed, with what its log is when it is asked for.
structure Listed where
  name : Option Text
  logs : Option Text

def decode (line : Bytes) : Text := Lines.chomp '\r' (Utf8.lossy line)

def stage (name line : Text) : TsLine :=
  let (ts, body) := (Lines.cut [' '] line).getD ([], line)
  (ts, '[' :: name ++ ']' :: ' ' :: decode (Utf8.encode body))

def stagePod (pod : Listed) : List TsLine :=
  match pod.name with
  | none => []
  | some name => (Lines.rows '\n' '\r' (pod.logs.getD [])).map (stage name)

def merge (lines : List TsLine) : Bytes := (sortOn Prod.fst lines).flatMap fun line => Utf8.encode line.2 ++ [10]

-- `none` when the pods cannot be listed.
def fetchComponentLog (list : Option (List Listed)) : Bytes :=
  match list with
  | none => []
  | some list => merge (list.flatMap stagePod)

def componentHeader : Text := "  ── component logs ──\n".toList

def droppedNote (dropped kept : Nat) : Text :=
  if dropped > 0 then
    (s!"  ⋯ {dropped} earlier line(s) dropped (showing the most recent {kept}; " ++
      "`--log-tail all` shows every line)\n").toList
  else
    []

variable (stripAnsiCodes : Text → Text)

def emit (line : Text) (color : Bool) : Text :=
  ' ' :: ' ' :: (if color then line else stripAnsiCodes line) ++ ['\n']

def componentSection (log : Bytes) (tail : LogTail) (color : Bool) : Option Text :=
  let lines := Lines.rows '\n' '\r' (Utf8.lossy log)
  let kept := tail.keep lines.length
  if kept = 0 then
    none
  else
    let dropped := lines.length - kept
    some (componentHeader ++ droppedNote dropped kept
      ++ (lines.drop dropped).flatMap fun line => emit stripAnsiCodes line color)

variable {list : Option (List Listed)} {name line : Text}

theorem not_mem_decode_encode (h : '\n' ∉ line) : '\n' ∉ decode (Utf8.encode line) := by
  unfold decode
  rw [Utf8.lossy_encode]
  exact fun hmem => h ((Lines.chomp_prefix '\r' line).subset hmem)

theorem not_mem_stage (hname : '\n' ∉ name) (hline : '\n' ∉ line) : '\n' ∉ (stage name line).2 := by
  have hbody : '\n' ∉ ((Lines.cut [' '] line).getD ([], line)).2 := by
    cases hcut : Lines.cut [' '] line with
    | none => exact hline
    | some parts =>
      have happend := Lines.append_of_cut hcut
      intro hmem
      refine hline ?_
      rw [happend]
      exact List.mem_append_right _ hmem
  have hdecode := not_mem_decode_encode hbody
  simp [stage, hname, hdecode]

theorem not_mem_stagePod {pod : Listed} (hname : ∀ name, pod.name = some name → '\n' ∉ name)
    : ∀ staged ∈ stagePod pod, '\n' ∉ staged.2 := by
  unfold stagePod
  split
  . simp
  . next name heq =>
    intro staged hstaged
    rcases List.mem_map.mp hstaged with ⟨line, hline, rfl⟩
    exact not_mem_stage (hname name heq) (Lines.not_mem_of_mem_rows hline)

theorem fetchComponentLog_eq (list : Option (List Listed))
    : fetchComponentLog list = merge ((list.getD []).flatMap stagePod) := by
  cases list with
  | none => exact (List.flatMap_eq_nil_iff.mpr fun line hline => by cases mem_sortOn.mp hline).symm
  | some list => rfl

theorem lossy_merge (lines : List TsLine)
    : Utf8.lossy (merge lines) = ((sortOn Prod.fst lines).map Prod.snd).flatMap (· ++ ['\n']) := by
  have hencode : ∀ sorted : List TsLine, (sorted.flatMap fun line => Utf8.encode line.2 ++ [10])
      = Utf8.encode ((sorted.map Prod.snd).flatMap (· ++ ['\n'])) := by
    intro sorted
    induction sorted with
    | nil => rfl
    | cons line sorted ih =>
      rw [List.flatMap_cons, ih, List.map_cons, List.flatMap_cons, Utf8.encode_append, Utf8.encode_append]
      rfl
  rw [merge, hencode, Utf8.lossy_encode]

theorem rows_merge {lines : List TsLine} (h : ∀ line ∈ lines, '\n' ∉ line.2)
    : Lines.rows '\n' '\r' (Utf8.lossy (merge lines))
      = (sortOn Prod.fst lines).map fun line => Lines.chomp '\r' line.2 := by
  rw [lossy_merge, Lines.rows_flatMap_chomp]
  . exact List.map_map
  . intro text htext
    rcases List.mem_map.mp htext with ⟨line, hline, rfl⟩
    exact h line (mem_sortOn.mp hline)

/--
What the lines of several logs are merged to: none is lost and none is made up, they stand in the order of their
stamps, and a log whose stamps do not fall keeps its order.
-/
structure Merged (logs : List (List TsLine)) (merged : List TsLine) : Prop where
  perm : merged.Perm logs.flatten
  sorted : merged.Pairwise fun a b => a.1 ≤ b.1
  ordered : ∀ log ∈ logs, (log.Pairwise fun a b => a.1 ≤ b.1) → log.Sublist merged

theorem merged_sortOn (logs : List (List TsLine)) : Merged logs (sortOn Prod.fst logs.flatten) where
  perm := List.mergeSort_perm _ _
  sorted := sortOn_pairwise _ _
  ordered _ hlog hsorted := sublist_sortOn hsorted (List.sublist_flatten_of_mem hlog)

/--
The section shows the last of the merged lines, so no line that it drops is later than one that it shows.
-/
theorem componentSection_spec (hnames : ∀ pod ∈ list.getD [], ∀ name, pod.name = some name → '\n' ∉ name)
    : ∃ merged, Merged ((list.getD []).map stagePod) merged ∧
        ∀ (tail : LogTail) (color : Bool),
          (tail.keep merged.length = 0 →
            componentSection stripAnsiCodes (fetchComponentLog list) tail color = none) ∧
          (tail.keep merged.length ≠ 0 →
            ∃ old recent, merged = old ++ recent ∧ recent.length = tail.keep merged.length ∧
              (∀ dropped ∈ old, ∀ shown ∈ recent, dropped.1 ≤ shown.1) ∧
              componentSection stripAnsiCodes (fetchComponentLog list) tail color
                =
              some (componentHeader ++ droppedNote old.length recent.length
                ++ recent.flatMap fun line => emit stripAnsiCodes (Lines.chomp '\r' line.2) color)) := by
  have hmerged := merged_sortOn ((list.getD []).map stagePod)
  have hflat : ((list.getD []).map stagePod).flatten = (list.getD []).flatMap stagePod := List.flatMap_def.symm
  have hrows : Lines.rows '\n' '\r' (Utf8.lossy (fetchComponentLog list))
      = (sortOn Prod.fst ((list.getD []).map stagePod).flatten).map fun line => Lines.chomp '\r' line.2 := by
    rw [fetchComponentLog_eq, hflat]
    apply rows_merge
    intro line hline
    rcases List.mem_flatMap.mp hline with ⟨pod, hpod, hline⟩
    exact not_mem_stagePod (hnames pod hpod) line hline
  refine ⟨_, hmerged, ?_⟩
  generalize sortOn Prod.fst ((list.getD []).map stagePod).flatten = merged at hmerged hrows
  intro tail color
  have hkeep := tail.keep_le merged.length
  unfold componentSection
  rw [hrows]
  dsimp only
  rw [List.length_map]
  constructor
  . intro hnone
    rw [if_pos hnone]
  . intro hsome
    have hsorted := hmerged.sorted
    rw [← List.take_append_drop (merged.length - tail.keep merged.length) merged] at hsorted
    refine ⟨merged.take (merged.length - tail.keep merged.length), merged.drop (merged.length - tail.keep merged.length),
      (List.take_append_drop _ _).symm, ?_, (List.pairwise_append.mp hsorted).2.2, ?_⟩
    . rw [List.length_drop, Nat.sub_sub_self hkeep]
    . rw [if_neg hsome, List.length_take_of_le (Nat.sub_le _ _), List.length_drop, Nat.sub_sub_self hkeep,
        ← List.map_drop, List.flatMap_map]

theorem componentSection_spec_two
    : ∃ old recent : List TsLine, old.length = 1 ∧ recent.length = 2 ∧
        componentSection id
            (fetchComponentLog
              (some [⟨some ['a'], some ['2', ' ', 'x', '\n', '1', ' ', 'y']⟩, ⟨some ['b'], some ['3', ' ', 'z', '\n']⟩]))
            (.lines 2) true
          =
        some (componentHeader ++ droppedNote 1 2
          ++ recent.flatMap fun line => emit id (Lines.chomp '\r' line.2) true) := by
  obtain ⟨merged, hmerged, hsection⟩ := @componentSection_spec id
    (some [⟨some ['a'], some ['2', ' ', 'x', '\n', '1', ' ', 'y']⟩, ⟨some ['b'], some ['3', ' ', 'z', '\n']⟩]) (by simp)
  have hlen : merged.length = 3 := hmerged.perm.length_eq
  have hkeep : (LogTail.lines 2).keep merged.length = 2 := by
    rw [hlen]
    rfl
  obtain ⟨old, recent, happend, hrecent, _, heq⟩ := (hsection (.lines 2) true).2 (by rw [hkeep]; decide)
  rw [hkeep] at hrecent
  have hold : old.length = 1 := by
    have htotal := congrArg List.length happend
    rw [List.length_append] at htotal
    omega
  rw [hold, hrecent] at heq
  exact ⟨old, recent, hold, hrecent, heq⟩

end Logstream
end Engine
