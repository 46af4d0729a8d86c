import Ztest.Engine.Record.Impl
import Ztest.Engine.Record.Lemmas.Replay
import Ztest.Engine.Schedule.Lemmas.Selected

namespace Engine

def TestEvent.passKey : TestEvent → Option (String × String)
  | .testFinished binaryId testName .pass .. => some (binaryId, testName)
  | _ => none

namespace Record

-- One run of a chain: what `run_loop` was given, what it emitted, and what is on disk.
structure Link where
  items : List WorkItem
  events : List TestEvent
  recording : RunRecorder

def Link.passed (link : Link) : List (String × String) := link.events.filterMap TestEvent.passKey

section Chain

variable (leaf : Leaf) (codec : Codec) (json : Json)

/--
The link is a run of the loop to its end, recorded without an error.
-/
structure Link.Ran (link : Link) : Prop where
  run : ∃ cfg ceiling cancelFlag now inputs s now', LoopState.run cfg link.items ceiling cancelFlag now inputs = .ok s ∧
    s.futs = [] ∧ link.events = (s.finish now').events
  saved : ∃ color unicode output steps, steps.filterMap LiveStep.event? = link.events ∧ Live.Clean steps ∧
    link.recording = (Live.run leaf codec json color unicode output steps).reporter.recorder

/--
A run of the whole selection, and reruns of it, each of the recording before it. The newest is the first.
-/
inductive Chain (selection : List WorkItem) : List Link → Prop where
  | first (link : Link) (hran : link.Ran leaf codec json) (hitems : link.items = selection)
    : Chain selection [link]
  | rerun (link prev : Link) (older : List Link) (passed : List (String × String))
    (hchain : Chain selection (prev :: older)) (hpassed : passedTests json prev.recording = .ok passed)
    (hran : link.Ran leaf codec json) (hitems : link.items = rerunItems passed selection)
    : Chain selection (link :: prev :: older)

end Chain

-- Each run is given what has not passed before, in the order of the work list.
def Converges (selection : List WorkItem) : List Link → Prop
  | [] => True
  | link :: older =>
    link.items = selection.filter (fun item => older.all fun l => !l.passed.contains (key item)) ∧ Converges selection older

/--
A rerun of any link is given the tests that this link did not pass, and the chain converges.
-/
structure RerunsConverge (json : Json) (selection : List WorkItem) (links : List Link) : Prop where
  single : ∀ link ∈ links, ∀ items, ∃ passed, passedTests json link.recording = .ok passed ∧
    rerunItems passed items = items.filter fun item => key item ∉ link.passed
  chain : Converges selection links

section Passed

variable {codec : Codec} {json : Json}

theorem passKey_recorded (codec : Codec) (ev : TestEvent) : (recorded codec ev).passKey = ev.passKey := by
  cases ev with
  | testFinished binaryId testName verdict duration attempt output components => cases verdict <;> rfl
  | _ => rfl

theorem readPassed_recorded {recs : List RecordedEvent} (hjson : json.Lawful recs) {evs : List TestEvent}
    (hrecs : ∀ ev ∈ evs, recorded codec ev ∈ recs)
    : readPassed json (evs.map fun ev => json.toStr (recorded codec ev)) = .ok (evs.filterMap TestEvent.passKey) := by
  induction evs with
  | nil => rfl
  | cons ev evs ih =>
    rw [List.forall_mem_cons] at hrecs
    rw [List.map_cons, readPassed, if_neg (trim_toStr_ne_nil hjson hrecs.1), hjson.fromStr_toStr _ hrecs.1]
    dsimp only
    rw [ih hrecs.2, passKey_recorded]
    cases h : ev.passKey <;> simp [h, Except.map]

theorem rerunItems_eq (passed : List (String × String)) (items : List WorkItem)
    : rerunItems passed items = items.filter fun item => key item ∉ passed := by
  unfold rerunItems
  split
  . rfl
  . next h =>
    have hnil : passed = [] := by simpa using h
    subst hnil
    simp

variable {leaf : Leaf} {link : Link}

theorem Link.Ran.passedTests (hran : link.Ran leaf codec json) (hjson : json.Lawful (link.events.map (recorded codec)))
    : passedTests json link.recording = .ok link.passed := by
  rcases hran.saved with ⟨color, unicode, output, steps, hevents, hclean, hrecording⟩
  rw [Record.passedTests, hrecording, Live.recorder_run leaf codec json hclean, hevents]
  rw [show (recordingOf codec json output.captures link.events).log = link.events.flatMap (line codec json) from rfl,
    lines_log hjson]
  exact readPassed_recorded hjson fun ev hev => List.mem_map_of_mem hev

theorem Link.Ran.passed_subset (hran : link.Ran leaf codec json) {k : String × String} (hk : k ∈ link.passed)
    : k ∈ link.items.map key := by
  rcases hran.run with ⟨cfg, ceiling, cancelFlag, now, inputs, s, now', hrun, _, hevents⟩
  apply (LoopState.run_selected hrun).ended
  rw [Link.passed, hevents] at hk
  rcases List.mem_filterMap.mp hk with ⟨ev, hev, hpass⟩
  rcases List.mem_append.mp hev with hev | hev
  . apply List.mem_filterMap.mpr ⟨ev, hev, ?_⟩
    cases ev with
    | testFinished binaryId testName verdict duration attempt output components =>
      cases verdict with
      | pass => exact hpass
      | _ => cases hpass
    | _ => cases hpass
  . cases List.mem_singleton.mp hev
    cases hpass

end Passed

section Converges

variable {leaf : Leaf} {codec : Codec} {json : Json} {selection : List WorkItem} {links : List Link}

theorem Chain.ran (hchain : Chain leaf codec json selection links) : ∀ link ∈ links, link.Ran leaf codec json := by
  induction hchain with
  | first link hran _ =>
    intro l hl
    cases List.mem_singleton.mp hl
    exact hran
  | rerun link prev older passed _ _ hran _ ih =>
    intro l hl
    rcases List.mem_cons.mp hl with rfl | hl
    . exact hran
    . exact ih l hl

theorem Chain.not_passed_again {link prev : Link} {older : List Link}
    (hchain : Chain leaf codec json selection (link :: prev :: older))
    (hjson : ∀ l ∈ link :: prev :: older, json.Lawful (l.events.map (recorded codec))) {k : String × String}
    (hk : k ∈ prev.passed)
    : k ∉ link.passed := by
  intro hagain
  have hmem := (hchain.ran link List.mem_cons_self).passed_subset hagain
  cases hchain with
  | rerun _ _ _ passed hprev hpassed _ hitems =>
    have hran := hprev.ran prev List.mem_cons_self
    have heq := hran.passedTests (hjson prev (List.mem_cons_of_mem _ List.mem_cons_self))
    cases heq.symm.trans hpassed
    rw [hitems, rerunItems_eq] at hmem
    rcases List.mem_map.mp hmem with ⟨item, hitem, rfl⟩
    simp [hk] at hitem

theorem filter_key_eq_iff {prev : Link} {older : List Link}
    : selection.filter (fun item => key item ∉ prev.passed) =
          selection.filter (fun item => (prev :: older).all fun l => !l.passed.contains (key item)) ↔
        ∀ item ∈ selection, key item ∉ prev.passed → ∀ l ∈ older, key item ∉ l.passed := by
  constructor
  . intro h item hitem hprev
    have hmem : item ∈ selection.filter (fun item => key item ∉ prev.passed) :=
      List.mem_filter.mpr ⟨hitem, decide_eq_true hprev⟩
    rw [h] at hmem
    have hnone := List.all_eq_true.mp (List.mem_filter.mp hmem).2
    intro l hl
    have hlater := hnone l (List.mem_cons_of_mem _ hl)
    simpa using hlater
  . intro h
    apply List.filter_congr
    intro item hitem
    rw [Bool.eq_iff_iff, List.all_eq_true, decide_eq_true_eq, List.forall_mem_cons]
    simp only [Bool.not_eq_true', List.contains_eq_mem, decide_eq_false_iff_not]
    exact ⟨fun hprev => ⟨hprev, h item hitem hprev⟩, fun hnone => hnone.1⟩

theorem Chain.converges_iff (hchain : Chain leaf codec json selection links)
    (hjson : ∀ l ∈ links, json.Lawful (l.events.map (recorded codec)))
    : Converges selection links ↔ ∀ l ∈ links.drop 2, ∀ item ∈ selection, key item ∉ l.passed := by
  induction hchain with
  | first link hran hitems => simp [Converges, hitems]
  | rerun link prev older passed hprev hpassed hran hitems ih =>
    have hjson' : ∀ l ∈ prev :: older, json.Lawful (l.events.map (recorded codec)) := fun l hl =>
      hjson l (List.mem_cons_of_mem _ hl)
    have heq := (hprev.ran prev List.mem_cons_self).passedTests (hjson' prev List.mem_cons_self)
    cases heq.symm.trans hpassed
    rw [Converges, hitems, rerunItems_eq, filter_key_eq_iff, ih hjson']
    show _ ∧ (∀ l ∈ older.drop 1, _) ↔ ∀ l ∈ older, _
    constructor
    . rintro ⟨hnew, holder⟩
      cases older with
      | nil =>
        intro l hl
        cases hl
      | cons second older =>
        intro l hl item hitem hk
        rcases List.mem_cons.mp hl with rfl | hl
        -- What passed there is left out of the run before, so that it runs again now.
        . have hagain := hprev.not_passed_again hjson' hk
          exact hnew item hitem hagain l List.mem_cons_self hk
        . exact holder l hl item hitem hk
    . intro hnone
      refine ⟨fun item hitem _ l hl => hnone l hl item hitem, ?_⟩
      intro l hl
      exact hnone l (List.mem_of_mem_drop hl)

/--
The reruns of a chain execute what has not passed in it exactly when no test of the selection passed before
the last two runs.
-/
theorem reruns_converge_iff (hchain : Chain leaf codec json selection links)
    (hjson : ∀ l ∈ links, json.Lawful (l.events.map (recorded codec)))
    : RerunsConverge json selection links ↔ ∀ l ∈ links.drop 2, ∀ item ∈ selection, key item ∉ l.passed := by
  rw [← hchain.converges_iff hjson]
  constructor
  . intro h
    exact h.chain
  . intro h
    refine ⟨?_, h⟩
    intro link hlink items
    exact ⟨link.passed, (hchain.ran link hlink).passedTests (hjson link hlink), rerunItems_eq _ _⟩

end Converges

namespace Sample

def test (name : String) : WorkItem := ⟨"bin", name, .integration, ⟨1, 1, 0, 0, 0⟩, 0, []⟩

def started (total : Nat) (names : List String) : List TestEvent :=
  .runStarted total "run" :: names.map fun name => .testStarted "bin" name .integration 1

def finished (name : String) (verdict : Verdict) : TestEvent := .testFinished "bin" name verdict 0 1 [] []

-- `a` passes and `b` fails, then `b` passes, and then `a` runs again.
def both : List TestEvent :=
  started 2 ["a", "b"] ++ [finished "a" .pass, finished "b" (.fail 1), .runFinished ⟨1, 1, 0, 0, 2⟩ 0]

def alone (name : String) : List TestEvent :=
  started 1 [name] ++ [finished name .pass, .runFinished ⟨1, 0, 0, 0, 1⟩ 0]

def finishedText (name verdict : String) : String :=
  "\x7b\"kind\":\"test-finished\",\"binary_id\":\"bin\",\"test_name\":\"" ++ name ++ "\",\"verdict\":" ++ verdict
    ++ ",\"duration\":\x7b\"secs\":0,\"nanos\":0\x7d,\"attempt\":1,\"output\":\x7b\"status\":\"empty\"\x7d,"
    ++ "\"components\":\x7b\"status\":\"empty\"\x7d\x7d"

def statsText (failed total : String) : String :=
  "\x7b\"kind\":\"run-finished\",\"stats\":\x7b\"passed\":1,\"failed\":" ++ failed
    ++ ",\"terminated\":0,\"skipped\":0,\"total\":" ++ total ++ "\x7d,\"elapsed\":\x7b\"secs\":0,\"nanos\":0\x7d\x7d"

def lineText : RecordedEvent → String
  | .runStarted total _ =>
    "\x7b\"kind\":\"run-started\",\"total\":" ++ (if total = 1 then "1" else "2") ++ ",\"run_id\":\"run\"\x7d"
  | .testStarted _ name _ _ =>
    "\x7b\"kind\":\"test-started\",\"binary_id\":\"bin\",\"test_name\":\"" ++ name
      ++ "\",\"class\":\"Integration\",\"attempt\":1\x7d"
  | .testFinished _ name .pass .. => finishedText name "\"Pass\""
  | .testFinished _ name .. => finishedText name "\x7b\"Fail\":1\x7d"
  | .runFinished stats _ => if stats.total = 1 then statsText "0" "1" else statsText "1" "2"
  | _ => ""

def recs : List RecordedEvent := (both ++ alone "b" ++ alone "a").map (recorded rawFrame)

def json : Json where
  toStr rec := ascii (lineText rec)
  fromStr text := recs.find? fun rec => ascii (lineText rec) = text

theorem json_lawful : json.Lawful recs := by
  have hall : ∀ rec ∈ recs, json.fromStr (json.toStr rec) = some rec ∧ (json.toStr rec).head? = some '\x7b' ∧
      (json.toStr rec).getLast? = some '\x7d' ∧ '\n' ∉ json.toStr rec := by
    decide +kernel
  constructor
  . exact fun rec hrec => (hall rec hrec).1
  . exact fun rec hrec => (hall rec hrec).2.1
  . exact fun rec hrec => (hall rec hrec).2.2.1
  . exact fun rec hrec => (hall rec hrec).2.2.2

def steps (events : List TestEvent) : List LiveStep := events.map fun ev => .event ev {}

def link (items : List WorkItem) (events : List TestEvent) : Link :=
  ⟨items, events, (Live.run plain rawFrame json false true {} (steps events)).reporter.recorder⟩

theorem link_saved (items : List WorkItem) (events : List TestEvent)
    : ∃ color unicode output steps, steps.filterMap LiveStep.event? = (link items events).events ∧ Live.Clean steps ∧
        (link items events).recording = (Live.run plain rawFrame json color unicode output steps).reporter.recorder := by
  refine ⟨false, true, {}, steps events, ?_, ?_, rfl⟩
  . simp [steps, link, LiveStep.event?, List.filterMap_map, Function.comp_def]
  . intro ev faults hmem
    rcases List.mem_map.mp hmem with ⟨_, _, heq⟩
    cases heq
    rfl

def cfg : LoopConfig := ⟨false, none, "acme", "run", ∅, none, false, false⟩

def r0 : Link := link [test "a", test "b"] both

def r1 : Link := link [test "b"] (alone "b")

def r2 : Link := link [test "a"] (alone "a")

def completes (slot : Nat) (verdict : Verdict) : LoopState.Input :=
  .select (.complete ⟨slot⟩ ⟨verdict, [], [], 0⟩ false false) 0

theorem r0_ran : r0.Ran plain rawFrame json :=
  ⟨⟨cfg, ⟨4, 4, 0, 0, 0⟩, false, 0, [completes 0 .pass, completes 1 (.fail 1)], _, 0, rfl, rfl, rfl⟩, link_saved _ _⟩

theorem r1_ran : r1.Ran plain rawFrame json :=
  ⟨⟨cfg, ⟨4, 4, 0, 0, 0⟩, false, 0, [completes 0 .pass], _, 0, rfl, rfl, rfl⟩, link_saved _ _⟩

theorem r2_ran : r2.Ran plain rawFrame json :=
  ⟨⟨cfg, ⟨4, 4, 0, 0, 0⟩, false, 0, [completes 0 .pass], _, 0, rfl, rfl, rfl⟩, link_saved _ _⟩

theorem lawful : ∀ l ∈ [r2, r1, r0], json.Lawful (l.events.map (recorded rawFrame)) := by
  have hsub : ∀ l ∈ [r2, r1, r0], ∀ rec ∈ l.events.map (recorded rawFrame), rec ∈ recs := by decide
  intro l hl
  exact json_lawful.mono (hsub l hl)

theorem chain_two : Chain plain rawFrame json [test "a", test "b"] [r1, r0] := by
  apply Chain.rerun r1 r0 [] r0.passed (.first r0 r0_ran rfl) ?_ r1_ran rfl
  exact r0_ran.passedTests (lawful r0 (by simp))

theorem chain_three : Chain plain rawFrame json [test "a", test "b"] [r2, r1, r0] := by
  apply Chain.rerun r2 r1 [r0] r1.passed chain_two ?_ r2_ran rfl
  exact r1_ran.passedTests (lawful r1 (by simp))

end Sample

theorem one_rerun_converges : RerunsConverge Sample.json [Sample.test "a", Sample.test "b"] [Sample.r1, Sample.r0] := by
  apply (reruns_converge_iff Sample.chain_two fun l hl => Sample.lawful l (List.mem_cons_of_mem _ hl)).mpr
  intro l hl
  cases hl

/--
A test that passed in the first run, and not in its rerun, is run by the rerun of the rerun.
-/
theorem second_rerun_runs_passed_again
    : Chain plain rawFrame Sample.json [Sample.test "a", Sample.test "b"] [Sample.r2, Sample.r1, Sample.r0] ∧
        ¬RerunsConverge Sample.json [Sample.test "a", Sample.test "b"] [Sample.r2, Sample.r1, Sample.r0] := by
  refine ⟨Sample.chain_three, ?_⟩
  intro h
  have hitems := h.chain.1
  revert hitems
  decide

end Record
end Engine
