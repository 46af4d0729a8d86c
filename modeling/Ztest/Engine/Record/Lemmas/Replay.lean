import Ztest.Engine.Record.Impl
import Ztest.Engine.Record.Lemmas.Store
import Ztest.Engine.Reporter
import Ztest.Engine.Schedule.Impl

/-!
This module proves that a recording that hit no error replays: the events the reporter is driven with,
the text it renders and the exit status are those of the live run. What the replay adds is the note
that stands for the output of a run that did not capture any, and the bytes that a terminal is not shown.
-/

namespace Engine
namespace Record

/--
What the log relies on, for the events that are recorded: an event reads back as itself, and its text
is an object on a line of its own.
-/
structure Json.Lawful (json : Json) (recs : List RecordedEvent) : Prop where
  fromStr_toStr : ∀ rec ∈ recs, json.fromStr (json.toStr rec) = some rec
  head : ∀ rec ∈ recs, (json.toStr rec).head? = some '\x7b'
  last : ∀ rec ∈ recs, (json.toStr rec).getLast? = some '\x7d'
  oneLine : ∀ rec ∈ recs, '\n' ∉ json.toStr rec

theorem Json.Lawful.mono {json : Json} {recs recs' : List RecordedEvent} (h : json.Lawful recs)
    (hsub : ∀ rec ∈ recs', rec ∈ recs)
    : json.Lawful recs' := by
  constructor
  . exact fun rec hrec => h.fromStr_toStr rec (hsub rec hrec)
  . exact fun rec hrec => h.head rec (hsub rec hrec)
  . exact fun rec hrec => h.last rec (hsub rec hrec)
  . exact fun rec hrec => h.oneLine rec (hsub rec hrec)

def Put.ref (c : Put) (codec : Codec) : StoreRef :=
  if c.data = [] then
    .empty
  else
    OutputStore.refOf (codec.blobName c.payload c.kind) (truncate c.data c.maxOutput).2

theorem Put.run_ok (c : Put) (codec : Codec) (s : OutputStore) (h : c.fault = none)
    : c.run codec s = ((c.run codec s).1, .ok (c.ref codec)) := by
  have hstrikes : ¬c.strikes codec := by simp [strikes, h]
  rcases OutputStore.run_cases c codec s with
    ⟨hdata, hrun⟩ | ⟨name, hname, -, hrun⟩ | ⟨name, hname, -, -, ⟨hs, -⟩ | ⟨-, hrun⟩⟩
  . rw [hrun]
    simp [ref, hdata]
  . obtain ⟨hdata, rfl⟩ := name?_eq_some hname
    rw [hrun]
    simp [ref, hdata]
  . exact absurd hs hstrikes
  . obtain ⟨hdata, rfl⟩ := name?_eq_some hname
    apply Prod.ext
    . rfl
    . rw [hrun]
      simp [ref, hdata]

theorem get_ref {codec : Codec} {calls : List Put} (hcodec : codec.Lawful (calls.map Put.payload))
    (hfault : ∀ c ∈ calls, c.fault = none) (c : Put) (hc : c ∈ calls)
    : (OutputStore.create.puts codec calls).get codec (c.ref codec) = some c.payload := by
  by_cases hdata : c.data = []
  . simp [Put.ref, hdata, OutputStore.get, Put.payload, truncate_of_le]
  . have hresolves : Resolves codec calls := by
      apply resolves_of_noFailedFirst hcodec
      intro pre b mid b' hpre _ _ _ hstrikes
      have hb : b.fault = none := hfault b (hpre.subset (by simp))
      simp [Put.strikes, hb] at hstrikes
    obtain ⟨pre, mid, rfl⟩ := List.append_of_mem hc
    apply hresolves pre c mid (List.prefix_refl _)
    . rw [c.run_ok codec _ (hfault c hc)]
    . unfold Put.ref OutputStore.refOf
      rw [if_neg hdata]
      split <;> simp

def outputPut (output : Bytes) : Put := ⟨output, .combined, maxOutput, none⟩

def componentsPut (components : Bytes) : Put := ⟨components, .components, 0, none⟩

def putsOf : TestEvent → List Put
  | .testFinished _ _ _ _ _ output components => [outputPut output, componentsPut components]
  | _ => []

theorem fault_of_mem_putsOf {ev : TestEvent} {c : Put} (h : c ∈ putsOf ev) : c.fault = none := by
  cases ev with
  | testFinished =>
    simp only [putsOf, List.mem_cons, List.not_mem_nil, or_false] at h
    rcases h with rfl | rfl <;> rfl
  | _ => cases h

-- The line an event gets when nothing fails.
def recorded (codec : Codec) : TestEvent → RecordedEvent
  | .runStarted total runId => .runStarted total runId
  | .testStarted binaryId testName cls attempt => .testStarted binaryId testName cls attempt
  | .testSlow binaryId testName elapsed willTerminate attempt =>
    .testSlow binaryId testName elapsed willTerminate attempt
  | .testRetrying binaryId testName nextAttempt delay verdict duration =>
    .testRetrying binaryId testName nextAttempt delay verdict duration
  | .testFinished binaryId testName verdict duration attempt output components =>
    .testFinished binaryId testName verdict duration attempt ((outputPut output).ref codec)
      ((componentsPut components).ref codec)
  | .testSkipped binaryId testName reason => .testSkipped binaryId testName reason
  | .runCancelling reason running => .runCancelling reason running
  | .runFinished stats elapsed => .runFinished stats elapsed

def line (codec : Codec) (json : Json) (ev : TestEvent) : List Char :=
  json.toStr (recorded codec ev) ++ ['\n']

/--
One event, nothing failing: its line is appended, its output is put into the store.
-/
theorem record_clean (codec : Codec) (json : Json) (r : RunRecorder) (ev : TestEvent)
    : r.record codec json ev {}
      = ({ r with log := r.log ++ line codec json ev, store := r.store.puts codec (putsOf ev) },
        true) := by
  cases ev with
  | testFinished binaryId testName verdict duration attempt output components =>
    have ho : r.store.put codec output .combined maxOutput none
        = (((outputPut output).run codec r.store).1, .ok ((outputPut output).ref codec)) :=
      (outputPut output).run_ok codec r.store rfl
    have hc : ∀ store : OutputStore, store.put codec components .components 0 none
        = (((componentsPut components).run codec store).1,
          .ok ((componentsPut components).ref codec)) :=
      fun store => (componentsPut components).run_ok codec store rfl
    simp only [RunRecorder.record, RunRecorder.buildRecorded, RunRecorder.buildFinished, ho, hc]
    rfl
  | _ => rfl

/--
The recording of a sequence of events that hit no error.
-/
def recordingOf (codec : Codec) (json : Json) (captured : Bool) (evs : List TestEvent)
    : RunRecorder where
  captured := captured
  log := evs.flatMap (line codec json)
  store := OutputStore.create.puts codec (evs.flatMap putsOf)

theorem record_recordingOf (codec : Codec) (json : Json) (captured : Bool) (evs : List TestEvent)
    (ev : TestEvent)
    : (recordingOf codec json captured evs).record codec json ev {}
      = (recordingOf codec json captured (evs ++ [ev]), true) := by
  rw [record_clean]
  simp [recordingOf, OutputStore.puts_append]

namespace Live

open StyledReporter

variable (leaf : Leaf) (codec : Codec) (json : Json)

theorem inner_handle (r : RecordingReporter) (ev : TestEvent) (faults : Faults)
    : (r.handle leaf codec json ev faults).inner = r.inner.handle leaf ev := by
  unfold RecordingReporter.handle
  split <;> rfl

theorem drain_prepend (l : Live)
    : l.drain.reporter.inner.prepend l.drain.taken.flatten = l.reporter.inner.prepend l.taken.flatten := by
  simp [drain, takeScrollback, prepend]

/--
What was taken and what waits in the buffer are the text of the events so far, whatever failed to be
recorded.
-/
theorem foldl_step_prepend (l : Live) (steps : List LiveStep)
    : (steps.foldl (step leaf codec json) l).reporter.inner.prepend
          (steps.foldl (step leaf codec json) l).taken.flatten
      = (l.reporter.inner.prepend l.taken.flatten).handleAll leaf (steps.filterMap LiveStep.event?) := by
  induction steps generalizing l with
  | nil => rfl
  | cons i is ih =>
    rw [List.foldl_cons, ih]
    cases i with
    | drain =>
      rw [show step leaf codec json l .drain = l.drain from rfl, drain_prepend]
      rfl
    | event ev faults =>
      simp only [step, inner_handle, ← handle_prepend]
      rfl

theorem taken_run (color unicode : Bool) (output : OutputConfig) (steps : List LiveStep)
    : (run leaf codec json color unicode output steps).taken.flatten
      = render leaf color unicode output (steps.filterMap LiveStep.event?) := by
  have h := foldl_step_prepend leaf codec json
    ⟨.new (.new color unicode output) (.create output.captures), []⟩ steps
  rw [← drain_prepend] at h
  exact (List.append_nil _).symm.trans (congrArg StyledReporter.buf h)

theorem screen_eq_taken {l : Live} {tty : Bool} (h : tty = true → ∀ piece ∈ l.taken, Utf8.decode piece ≠ none)
    : l.screen tty = l.taken.flatten := by
  rw [screen, List.flatMap_def, List.map_congr_left (g := id), List.map_id]
  intro piece hpiece
  cases tty with
  | false => rfl
  | true =>
    rcases Option.ne_none_iff_exists'.mp (h rfl piece hpiece) with ⟨text, htext⟩
    rw [← Utf8.decode_eq_some_iff.mp htext, shown, if_pos rfl, Utf8.lossy_encode]
    rfl

def Clean (steps : List LiveStep) : Prop := ∀ ev faults, .event ev faults ∈ steps → faults = {}

theorem foldl_step_recorder {captured : Bool} (evs : List TestEvent) (l : Live)
    {steps : List LiveStep} (hclean : Clean steps)
    (hl : l.reporter.recorder = recordingOf codec json captured evs)
    (hrecording : l.reporter.recording = true)
    : (steps.foldl (step leaf codec json) l).reporter.recorder
      = recordingOf codec json captured (evs ++ steps.filterMap LiveStep.event?) := by
  induction steps generalizing l evs with
  | nil => simpa using hl
  | cons i is ih =>
    have his : Clean is := fun ev faults h => hclean ev faults (List.mem_cons_of_mem _ h)
    cases i with
    | drain => exact ih evs l.drain his hl hrecording
    | event ev faults =>
      cases hclean ev faults List.mem_cons_self
      have hstep : l.reporter.handle leaf codec json ev {}
          = ⟨l.reporter.inner.handle leaf ev, recordingOf codec json captured (evs ++ [ev]), true⟩ := by
        simp only [RecordingReporter.handle, hrecording, if_true, hl, record_recordingOf]
      rw [List.foldl_cons, ih (evs ++ [ev]) _ his]
      . simp [LiveStep.event?]
      . simp only [step, hstep]
      . simp only [step, hstep]

theorem recorder_run {steps : List LiveStep} (hclean : Clean steps) (color unicode : Bool)
    (output : OutputConfig)
    : (run leaf codec json color unicode output steps).reporter.recorder
      = recordingOf codec json output.captures (steps.filterMap LiveStep.event?) := by
  exact foldl_step_recorder leaf codec json [] _ hclean rfl rfl

end Live

/--
The event the replay drives the reporter with: the note stands for the output of a run without
capture.
-/
def replayed (captured : Bool) : TestEvent → TestEvent
  | .testFinished binaryId testName verdict duration attempt output components =>
    .testFinished binaryId testName verdict duration attempt
      (if output = [] && !captured then notCaptured else output) components
  | ev => ev

@[simp]
theorem replayed_true (ev : TestEvent) : replayed true ev = ev := by
  cases ev <;> simp [replayed]

def WithinCap (evs : List TestEvent) : Prop :=
  ∀ binaryId testName verdict duration attempt output components,
    .testFinished binaryId testName verdict duration attempt output components ∈ evs →
      output.length ≤ maxOutput

theorem rebuild_recorded {codec : Codec} {evs : List TestEvent}
    (hcodec : codec.Lawful ((evs.flatMap putsOf).map Put.payload)) (hcap : WithinCap evs)
    (captured : Bool) {ev : TestEvent} (hev : ev ∈ evs)
    : rebuild codec (OutputStore.create.puts codec (evs.flatMap putsOf)) captured (recorded codec ev)
      = .ok (replayed captured ev) := by
  cases ev with
  | testFinished binaryId testName verdict duration attempt output components =>
    have hfault : ∀ c ∈ evs.flatMap putsOf, c.fault = none := by
      intro c hc
      obtain ⟨ev, -, hmem⟩ := List.mem_flatMap.mp hc
      exact fault_of_mem_putsOf hmem
    have ho := get_ref hcodec hfault (outputPut output)
      (List.mem_flatMap_of_mem hev (by simp [putsOf]))
    have hc := get_ref hcodec hfault (componentsPut components)
      (List.mem_flatMap_of_mem hev (by simp [putsOf]))
    have hpayload : (outputPut output).payload = output := by
      simp [Put.payload, outputPut, truncate_of_le (.inr (hcap _ _ _ _ _ _ _ hev))]
    have hpayload' : (componentsPut components).payload = components := by
      simp [Put.payload, componentsPut, truncate_of_le]
    rw [hpayload] at ho
    rw [hpayload'] at hc
    simp only [rebuild, recorded, rebuildFinished, ho, hc]
    rfl
  | _ => rfl

theorem lines_append {l : List Char} (h : '\n' ∉ l) (cur rest : List Char)
    : lines cur (l ++ '\n' :: rest) = stripCr (cur ++ l) :: lines [] rest := by
  induction l generalizing cur with
  | nil => simp [lines]
  | cons c l ih =>
    have hc : c ≠ '\n' := by
      intro heq
      apply h
      simp [heq]
    have hl : '\n' ∉ l := fun hmem => h (List.mem_cons_of_mem _ hmem)
    simp only [List.cons_append, lines, if_neg hc]
    rw [ih hl]
    simp

theorem stripCr_toStr {json : Json} {recs : List RecordedEvent} (hjson : json.Lawful recs)
    {rec : RecordedEvent} (hrec : rec ∈ recs)
    : stripCr (json.toStr rec) = json.toStr rec := by
  unfold stripCr
  rw [hjson.last rec hrec]
  simp

theorem trim_toStr_ne_nil {json : Json} {recs : List RecordedEvent} (hjson : json.Lawful recs)
    {rec : RecordedEvent} (hrec : rec ∈ recs)
    : Decimal.trim (json.toStr rec) ≠ [] := by
  have hhead := hjson.head rec hrec
  obtain ⟨rest, hrest⟩ : ∃ rest, json.toStr rec = '\x7b' :: rest := by
    cases h : json.toStr rec with
    | nil => simp [h] at hhead
    | cons c rest =>
      rw [h] at hhead
      cases hhead
      exact ⟨rest, rfl⟩
  have hfront : (json.toStr rec).dropWhile Decimal.isWhitespace = json.toStr rec := by
    rw [hrest]
    rfl
  unfold Decimal.trim
  rw [hfront]
  intro hnil
  have hall := List.rdropWhile_eq_nil_iff.mp hnil '\x7b' (by simp [hrest])
  cases hall

theorem lines_log {codec : Codec} {json : Json} {evs : List TestEvent}
    (hjson : json.Lawful (evs.map (recorded codec)))
    : lines [] (evs.flatMap (line codec json)) = evs.map fun ev => json.toStr (recorded codec ev) := by
  induction evs with
  | nil => rfl
  | cons ev evs ih =>
    have hrest : json.Lawful (evs.map (recorded codec)) :=
      hjson.mono fun rec hrec => List.mem_cons_of_mem _ hrec
    have hmem : recorded codec ev ∈ (ev :: evs).map (recorded codec) := by simp
    simp only [List.flatMap_cons, List.map_cons, line, List.append_assoc, List.singleton_append]
    rw [lines_append (hjson.oneLine _ hmem), List.nil_append, stripCr_toStr hjson hmem]
    rw [← ih hrest]

namespace ReplayState

open StyledReporter

-- The statistics of the last `RunFinished` read.
def statsAfter (stats : Option RunStats) (ev : TestEvent) : Option RunStats :=
  match ev with
  | .runFinished stats _ => some stats
  | _ => stats

/--
The reporter of a replay is the one that was driven with the events fed so far.
-/
structure Driven (leaf : Leaf) (color unicode : Bool) (output : OutputConfig) (s : ReplayState)
    : Prop where
  reporter : s.reporter.prepend s.out = (new color unicode output).handleAll leaf s.fed
  buf : s.reporter.buf = []

variable {leaf : Leaf} {codec : Codec} {json : Json} {color unicode : Bool} {output : OutputConfig}
  {s : ReplayState}

theorem Driven.feed (h : Driven leaf color unicode output s) (ev : TestEvent)
    : Driven leaf color unicode output (s.feed leaf ev) := by
  constructor
  . have hstep : (s.feed leaf ev).reporter.prepend (s.feed leaf ev).out
        = (s.reporter.prepend s.out).handle leaf ev := by
      rw [handle_prepend]
      simp [ReplayState.feed, takeScrollback, prepend]
    rw [hstep, h.reporter]
    simp [ReplayState.feed, handleAll]
  . rfl

theorem Driven.out_eq (h : Driven leaf color unicode output s)
    : s.out = render leaf color unicode output s.fed := by
  have := congrArg StyledReporter.buf h.reporter
  simpa [prepend, h.buf, render] using this

theorem noteStats_feed (captured : Bool) (ev : TestEvent)
    : (s.noteStats (recorded codec ev)).feed leaf (replayed captured ev)
      = { s.feed leaf (replayed captured ev) with finalStats := statsAfter s.finalStats ev } := by
  cases ev <;> rfl

theorem readLine_recorded (leaf : Leaf) {store : OutputStore} {captured : Bool} {recs : List RecordedEvent}
    (hjson : json.Lawful recs) {ev : TestEvent} (hrec : recorded codec ev ∈ recs)
    (hrebuild : rebuild codec store captured (recorded codec ev) = .ok (replayed captured ev))
    : s.readLine leaf codec json store captured (json.toStr (recorded codec ev))
      = .ok { s.feed leaf (replayed captured ev) with finalStats := statsAfter s.finalStats ev } := by
  unfold readLine
  rw [if_neg (trim_toStr_ne_nil hjson hrec)]
  simp only [hjson.fromStr_toStr _ hrec, hrebuild, noteStats_feed]

theorem readLines_recorded {store : OutputStore} {captured : Bool} {recs : List RecordedEvent}
    (hjson : json.Lawful recs) {evs : List TestEvent}
    (hrecs : ∀ ev ∈ evs, recorded codec ev ∈ recs)
    (hrebuild : ∀ ev ∈ evs,
      rebuild codec store captured (recorded codec ev) = .ok (replayed captured ev))
    (h : Driven leaf color unicode output s)
    : ∃ s', s.readLines leaf codec json store captured
          (evs.map fun ev => json.toStr (recorded codec ev)) = .ok s'
        ∧ Driven leaf color unicode output s' ∧ s'.fed = s.fed ++ evs.map (replayed captured)
        ∧ s'.finalStats = evs.foldl statsAfter s.finalStats := by
  induction evs generalizing s with
  | nil => exact ⟨s, rfl, h, by simp, rfl⟩
  | cons ev evs ih =>
    have hline := readLine_recorded leaf (s := s) hjson (hrecs ev List.mem_cons_self)
      (hrebuild ev List.mem_cons_self)
    have hfed := h.feed (replayed captured ev)
    obtain ⟨s', hok, hdriven, hs', hstats⟩ := ih
      (fun ev' h' => hrecs ev' (List.mem_cons_of_mem _ h'))
      (fun ev' h' => hrebuild ev' (List.mem_cons_of_mem _ h'))
      (s := { s.feed leaf (replayed captured ev) with finalStats := statsAfter s.finalStats ev })
      ⟨hfed.reporter, hfed.buf⟩
    refine ⟨s', ?_, hdriven, ?_, hstats⟩
    . simp only [List.map_cons, readLines, hline]
      exact hok
    . rw [hs']
      simp [ReplayState.feed]

end ReplayState

theorem replay_recordingOf (leaf : Leaf) {codec : Codec} {json : Json} {evs : List TestEvent}
    (hcodec : codec.Lawful ((evs.flatMap putsOf).map Put.payload))
    (hjson : json.Lawful (evs.map (recorded codec))) (hcap : WithinCap evs)
    (captured color unicode exitCode : Bool) (output : OutputConfig)
    : ∃ st, replay leaf codec json (recordingOf codec json captured evs) output color unicode exitCode
          = .ok (st, resolveExit exitCode (evs.foldl ReplayState.statsAfter none))
        ∧ st.fed = evs.map (replayed captured)
        ∧ st.out = StyledReporter.render leaf color unicode output st.fed := by
  obtain ⟨st, hok, hdriven, hfed, hstats⟩ := ReplayState.readLines_recorded hjson
    (fun ev hev => List.mem_map_of_mem hev)
    (fun ev hev => rebuild_recorded hcodec hcap captured hev)
    (s := ⟨.new color unicode output, none, [], []⟩)
    (⟨rfl, rfl⟩ : ReplayState.Driven leaf color unicode output _)
  refine ⟨st, ?_, hfed, hdriven.out_eq⟩
  unfold replay
  rw [show (recordingOf codec json captured evs).log = evs.flatMap (line codec json) from rfl,
    lines_log hjson]
  simp only [recordingOf, hok, hstats]

theorem resolveExit_eq_exitCode {stats : RunStats} {cancelled : Bool}
    (h : cancelled = true → stats.anyFailed = true)
    : resolveExit true (some stats) = exitCode stats cancelled := by
  cases hfailed : stats.anyFailed with
  | true => simp [resolveExit, exitCode, hfailed]
  | false =>
    have hcancelled : cancelled = false := by
      cases cancelled with
      | false => rfl
      | true => simp [hfailed] at h
    simp [resolveExit, exitCode, hfailed, hcancelled]

/--
A run whose recording hit no error and whose outputs fit the cap, `s` being the loop when it ended and
`cancelled` the flag as read then. The replay drives the reporter with the events of the run, the note
standing for the missing output of a run without capture. With capture it renders what was taken of the
live run, which a terminal is shown where it is UTF-8, and its exit status is that of the live run unless the
run was cancelled with nothing failed.
-/
theorem replay_live (leaf : Leaf) (codec : Codec) (json : Json) (s : LoopState) (now : Nat)
    (steps : List LiveStep) (tty color unicode : Bool) (output : OutputConfig) (cancelled : Bool)
    (hsteps : steps.filterMap LiveStep.event? = (s.finish now).events) (hclean : Live.Clean steps)
    (hcap : WithinCap (s.finish now).events)
    (hcodec : codec.Lawful (((s.finish now).events.flatMap putsOf).map Put.payload))
    (hjson : json.Lawful ((s.finish now).events.map (recorded codec)))
    : ∃ st code,
        replay leaf codec json (Live.run leaf codec json color unicode output steps).reporter.recorder
          output color unicode true = .ok (st, code)
        ∧ st.fed = (s.finish now).events.map (replayed output.captures)
        ∧ st.out = StyledReporter.render leaf color unicode output st.fed
        ∧ (output.captures = true → st.fed = (s.finish now).events
            ∧ st.out = (Live.run leaf codec json color unicode output steps).taken.flatten
            ∧ ((tty = true → ∀ piece ∈ (Live.run leaf codec json color unicode output steps).taken,
                Utf8.decode piece ≠ none)
              → st.out = (Live.run leaf codec json color unicode output steps).screen tty))
        ∧ ((cancelled = true → s.stats.anyFailed = true) → code = exitCode s.stats cancelled) := by
  obtain ⟨st, hok, hfed, hout⟩ :=
    replay_recordingOf leaf hcodec hjson hcap output.captures color unicode true output
  have hstats : (s.finish now).events.foldl ReplayState.statsAfter none = some s.stats := by
    simp [LoopState.finish, LoopState.emit, ReplayState.statsAfter]
  rw [hstats] at hok
  refine ⟨st, resolveExit true (some s.stats), ?_, hfed, hout, ?_, resolveExit_eq_exitCode⟩
  . rw [Live.recorder_run leaf codec json hclean, hsteps]
    exact hok
  . intro hcaptures
    have hsame : st.fed = (s.finish now).events := by
      rw [hfed, hcaptures, List.map_congr_left (fun ev _ => replayed_true ev), List.map_id']
    have htext : st.out = (Live.run leaf codec json color unicode output steps).taken.flatten := by
      rw [hout, hsame, Live.taken_run, hsteps]
    refine ⟨hsame, htext, ?_⟩
    intro hvalid
    rw [htext, Live.screen_eq_taken hvalid]

-- Leaves of a run without colour whose durations are zero. The frame of libtest is what is left of an
-- output when its trailing newline goes.
def plain : Leaf where
  ink _ s := s
  bold s := s
  styled bin test := bin ++ " " ++ test
  secs width _ := "".pushn ' ' (width - 5) ++ "0.000"
  stripLibtestFrame output _ := if output = ok then output.dropLast else output
  componentSection _ _ _ := none

def fullRef : StoreRef := .full "b576bf327e110a373629f7f0c0ae4aa9-combined"

def garbledRef : StoreRef := .full "99d44d377bc5936d8cb7f5df90713d84-combined"

def lineOf : RecordedEvent → String
  | .runStarted .. => "\x7b\"kind\":\"run-started\",\"total\":1,\"run_id\":\"run\"\x7d"
  | .testStarted .. =>
    "\x7b\"kind\":\"test-started\",\"binary_id\":\"bin\",\"test_name\":\"ok\","
      ++ "\"class\":\"Integration\",\"attempt\":1\x7d"
  | .testFinished _ _ _ _ _ .empty _ =>
    "\x7b\"kind\":\"test-finished\",\"binary_id\":\"bin\",\"test_name\":\"ok\","
      ++ "\"verdict\":\"Pass\",\"duration\":\x7b\"secs\":0,\"nanos\":0\x7d,\"attempt\":1,"
      ++ "\"output\":\x7b\"status\":\"empty\"\x7d,"
      ++ "\"components\":\x7b\"status\":\"empty\"\x7d\x7d"
  | .testFinished _ _ _ _ _ (.full name) _ =>
    "\x7b\"kind\":\"test-finished\",\"binary_id\":\"bin\",\"test_name\":\"ok\","
      ++ "\"verdict\":\"Pass\",\"duration\":\x7b\"secs\":0,\"nanos\":0\x7d,\"attempt\":1,"
      ++ "\"output\":\x7b\"status\":\"full\","
      ++ "\"name\":\"" ++ name ++ "\"\x7d,"
      ++ "\"components\":\x7b\"status\":\"empty\"\x7d\x7d"
  | .runFinished .. =>
    "\x7b\"kind\":\"run-finished\",\"stats\":\x7b\"passed\":1,\"failed\":0,"
      ++ "\"terminated\":0,\"skipped\":0,\"total\":1\x7d,\"elapsed\":\x7b\"secs\":0,"
      ++ "\"nanos\":0\x7d\x7d"
  | _ => ""

def recordedPassing : List RecordedEvent :=
  [.runStarted 1 "run", .testStarted "bin" "ok" .integration 1,
    .testFinished "bin" "ok" .pass 0 1 .empty .empty,
    .testFinished "bin" "ok" .pass 0 1 fullRef .empty, .testFinished "bin" "ok" .pass 0 1 garbledRef .empty,
    .runFinished ⟨1, 0, 0, 0, 1⟩ 0]

def ascii (text : String) : List Char := text.toUTF8.data.toList.map fun b => .ofNat b.toNat

-- The lines of the events of the runs below.
def tableJson : Json where
  toStr rec := ascii (lineOf rec)
  fromStr text := recordedPassing.find? fun rec => ascii (lineOf rec) = text

def passing (output : Bytes) : List TestEvent :=
  [.runStarted 1 "run", .testStarted "bin" "ok" .integration 1,
    .testFinished "bin" "ok" .pass 0 1 output [], .runFinished ⟨1, 0, 0, 0, 1⟩ 0]

-- The scrollback is taken at the start of the test and at the end.
def passingSteps (output : Bytes) : List LiveStep :=
  [.event (.runStarted 1 "run") {}, .event (.testStarted "bin" "ok" .integration 1) {}, .drain,
    .event (.testFinished "bin" "ok" .pass 0 1 output []) {},
    .event (.runFinished ⟨1, 0, 0, 0, 1⟩ 0) {}]

theorem clean_passingSteps (output : Bytes) : Live.Clean (passingSteps output) := by
  intro ev faults hmem
  simp [passingSteps] at hmem
  rcases hmem with ⟨_, h⟩ | ⟨_, h⟩ | ⟨_, h⟩ | ⟨_, h⟩ <;> exact h

theorem withinCap_passing {output : Bytes} (h : output.length ≤ maxOutput)
    : WithinCap (passing output) := by
  intro _ _ _ _ _ _ _ hmem
  simp only [passing, List.mem_cons, List.not_mem_nil, reduceCtorEq, or_false, false_or,
    TestEvent.testFinished.injEq] at hmem
  rw [hmem.2.2.2.2.2.1]
  exact h

theorem rawFrame_lawful (output : Bytes) (h : output ∈ [ok, [], garbled])
    : rawFrame.Lawful (((passing output).flatMap putsOf).map Put.payload) := by
  simp only [List.mem_cons, List.not_mem_nil, or_false] at h
  rcases h with rfl | rfl | rfl
  . constructor <;> decide
  . constructor <;> decide
  . constructor <;> decide

theorem mem_recordedPassing {output : Bytes} (h : output ∈ [ok, [], garbled]) {rec : RecordedEvent}
    (hrec : rec ∈ (passing output).map (recorded rawFrame))
    : rec ∈ recordedPassing := by
  simp only [List.mem_cons, List.not_mem_nil, or_false] at h
  rcases h with rfl | rfl | rfl
  . revert rec
    decide
  . revert rec
    decide
  . revert rec
    decide

theorem tableJson_lawful {output : Bytes} (h : output ∈ [ok, [], garbled])
    : tableJson.Lawful ((passing output).map (recorded rawFrame)) := by
  have hall : ∀ rec ∈ recordedPassing, tableJson.fromStr (tableJson.toStr rec) = some rec
      ∧ (tableJson.toStr rec).head? = some '\x7b' ∧ (tableJson.toStr rec).getLast? = some '\x7d'
      ∧ '\n' ∉ tableJson.toStr rec := by
    decide +kernel
  have hlawful : tableJson.Lawful recordedPassing := by
    constructor
    . exact fun rec hrec => (hall rec hrec).1
    . exact fun rec hrec => (hall rec hrec).2.1
    . exact fun rec hrec => (hall rec hrec).2.2.1
    . exact fun rec hrec => (hall rec hrec).2.2.2
  exact hlawful.mono fun rec => mem_recordedPassing h

-- A test that passes with the output, run on its own where it may not be captured.
def passingRun (output : Bytes) (serial : Option Nat) : Except Stop LoopState :=
  LoopState.run ⟨false, none, "acme", "run", ∅, serial, false, false⟩
    [⟨"bin", "ok", .integration, ⟨1, 1, 0, 0, 0⟩, 0, []⟩] ⟨4, 4, 0, 0, 0⟩ false 0
    [.select (.complete ⟨0⟩ ⟨.pass, output, [], 0⟩ false false) 0]

def shownPassed : OutputConfig := { success := .immediate }

def live (output : Bytes) (config : OutputConfig) : Live :=
  Live.run plain rawFrame tableJson false true config (passingSteps output)

theorem live_ok_decodes : ∀ piece ∈ (live ok shownPassed).taken, Utf8.decode piece ≠ none := by
  have hlossy : ∀ piece ∈ (live ok shownPassed).taken, Utf8.encode (Utf8.lossy piece) = piece := by
    decide +kernel
  intro piece hpiece
  rw [Utf8.decode_eq_some_iff.mpr (hlossy piece hpiece)]
  exact Option.some_ne_none _

theorem replay_live_passing
    : ∃ s, passingRun ok none = .ok s ∧ s.futs = []
        ∧ ∃ st, replay plain rawFrame tableJson (live ok shownPassed).reporter.recorder shownPassed false true true
              = .ok (st, exitCode s.stats false)
            ∧ st.fed = (s.finish 0).events
            ∧ st.out = (live ok shownPassed).screen true := by
  obtain ⟨s, hrun, hidle, hevents⟩ :
      ∃ s, passingRun ok none = .ok s ∧ s.futs = [] ∧ (s.finish 0).events = passing ok := ⟨_, rfl, rfl, rfl⟩
  obtain ⟨st, code, hok, -, -, hsame, hcode⟩ := replay_live plain rawFrame tableJson s 0
    (passingSteps ok) true false true shownPassed false (by rw [hevents]; rfl) (clean_passingSteps ok)
    (by rw [hevents]; exact withinCap_passing (by decide))
    (by rw [hevents]; exact rawFrame_lawful _ (by decide))
    (by rw [hevents]; exact tableJson_lawful (by decide))
  obtain ⟨hfed, -, hout⟩ := hsame rfl
  rw [hcode (fun h => by cases h)] at hok
  exact ⟨s, hrun, hidle, st, hok, hfed, hout fun _ => live_ok_decodes⟩

theorem no_capture_differs
    : ∃ s, passingRun [] (some 1) = .ok s ∧ s.futs = []
        ∧ (passingSteps []).filterMap LiveStep.event? = (s.finish 0).events
        ∧ ∃ st code, replay plain rawFrame tableJson (live [] (.withNoCapture {})).reporter.recorder
              (.withNoCapture {}) false true true = .ok (st, code)
            ∧ st.fed ≠ (s.finish 0).events
            ∧ st.out ≠ (live [] (.withNoCapture {})).screen false := by
  obtain ⟨st, hok, hfed, hout⟩ := replay_recordingOf plain (rawFrame_lawful [] (by decide))
    (tableJson_lawful (by decide)) (withinCap_passing (by decide)) false false true true (.withNoCapture {})
  refine ⟨_, rfl, rfl, rfl, st, .ok, ?_, ?_, ?_⟩
  . rw [live, Live.recorder_run plain rawFrame tableJson (clean_passingSteps [])]
    exact hok
  . rw [hfed]
    decide
  . rw [hout, hfed, Live.screen_eq_taken (fun h => by cases h), live, Live.taken_run]
    decide +kernel

theorem terminal_differs
    : ∃ s, passingRun garbled none = .ok s ∧ s.futs = []
        ∧ (passingSteps garbled).filterMap LiveStep.event? = (s.finish 0).events
        ∧ ∃ st code, replay plain rawFrame tableJson (live garbled shownPassed).reporter.recorder
              shownPassed false true true = .ok (st, code)
            ∧ st.fed = (s.finish 0).events
            ∧ st.out ≠ (live garbled shownPassed).screen true := by
  obtain ⟨st, hok, hfed, hout⟩ := replay_recordingOf plain (rawFrame_lawful garbled (by decide))
    (tableJson_lawful (by decide)) (withinCap_passing (by decide)) true false true true shownPassed
  have hsame : st.fed = passing garbled := by
    rw [hfed, List.map_congr_left (fun ev _ => replayed_true ev), List.map_id']
  refine ⟨_, rfl, rfl, rfl, st, .ok, ?_, ?_, ?_⟩
  . rw [live, Live.recorder_run plain rawFrame tableJson (clean_passingSteps garbled)]
    exact hok
  . exact hsame
  . rw [hout, hsame]
    decide +kernel

/--
A run without capture replays with other events, and the replay of a run on a terminal with another text.
-/
theorem replay_differs
    : (∃ s, passingRun [] (some 1) = .ok s ∧ s.futs = []
        ∧ (passingSteps []).filterMap LiveStep.event? = (s.finish 0).events
        ∧ ∃ st code, replay plain rawFrame tableJson (live [] (.withNoCapture {})).reporter.recorder
              (.withNoCapture {}) false true true = .ok (st, code)
            ∧ st.fed ≠ (s.finish 0).events
            ∧ st.out ≠ (live [] (.withNoCapture {})).screen false) ∧
      ∃ s, passingRun garbled none = .ok s ∧ s.futs = []
        ∧ (passingSteps garbled).filterMap LiveStep.event? = (s.finish 0).events
        ∧ ∃ st code, replay plain rawFrame tableJson (live garbled shownPassed).reporter.recorder
              shownPassed false true true = .ok (st, code)
            ∧ st.fed = (s.finish 0).events
            ∧ st.out ≠ (live garbled shownPassed).screen true :=
  ⟨no_capture_differs, terminal_differs⟩

end Record
end Engine
