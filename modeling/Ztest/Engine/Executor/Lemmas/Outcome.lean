import Ztest.Engine.Executor.Lemmas.Session

namespace Engine
namespace Executor

open Materialize.Watch (Pod PodStatus)

variable {env : EngineEnv} {item : Item} {ns name : String} {started hardCap fuel : Nat}
  {since since' : Option Nat} {answers : List Answered} {out : TestOutcome} {pod : Pod}

theorem outside_of_opens {x : Answered} (h : x.1.opens = true) : Outside x := by
  apply outside_of_ne
  . intro name heq
    rw [heq] at h
    cases h
  . intro heq
    rw [heq] at h
    cases h

theorem outside_of_deletes {x : Answered} (h : x.1.deletes = true) : Outside x := by
  apply outside_of_ne
  . intro name heq
    rw [heq] at h
    cases h
  . intro heq
    rw [heq] at h
    cases h

theorem Deleted.outside {noCleanup : Bool} (h : Deleted ns noCleanup answers) : ∀ x ∈ answers, Outside x :=
  fun x hx => outside_of_deletes (h.deletes x hx)

theorem Opening.outside {opened : Except String Unit} (h : Opening ns answers opened) : ∀ x ∈ answers, Outside x :=
  fun x hx => outside_of_opens (h.opens x hx)

/--
A run in a pod that waits for it: what the wait was answered, between answers that say nothing of the pod.
-/
structure Waited (name : String) (hardCap : Nat) (fuel : Nat) (answers : List Answered) (out : TestOutcome) (ended : Done)
    : Prop where
  shape : ∃ started before waiting after, answers = ⟨.now, started⟩ :: (before ++ (waiting ++ after)) ∧
    (∀ x ∈ before, Outside x) ∧ (∀ x ∈ after, Outside x) ∧
    Dialog.Runs (await name started hardCap fuel none) waiting (some ended)
  verdict : out.verdict = (settled ended []).1
  output : ∀ reason, ended = .reached (.imageError reason) → out.output = Libtest.utf8 ("runner image error: " ++ reason)

theorem runs_inPod (h : Dialog.Runs (run (.inPod name fuel) env item ns) answers (some out))
    : ((∀ x ∈ answers, Outside x) ∧ ⟨.createPod name ns, .ok ()⟩ ∉ answers ∧ out.verdict = .spawnError) ∨
        ∃ ended, Waited name item.hardCap fuel answers out ended := by
  obtain ⟨started, opening, rest, rfl, hrest⟩ := runs_run h
  rcases hrest with ⟨e, now, hopening, rfl, rfl⟩ | ⟨hopening, hbody⟩
  . refine .inl ⟨?_, ?_, rfl⟩
    . simpa [or_imp, forall_and, outside_now] using hopening.outside
    . intro hmem
      cases hopening <;> simp at hmem
  . have hopening' := hopening.outside
    cases runs_podRun hbody with
    | @uncreated e dead components deleting now out hdeleted hverdict =>
      have hdeleted' := hdeleted.outside
      refine .inl ⟨?_, ?_, hverdict⟩
      . simp only [List.mem_cons, List.mem_append, List.not_mem_nil, or_false]
        rintro x (rfl | hx | rfl | rfl | rfl | hx | rfl)
        . exact outside_now _
        . exact hopening' x hx
        . exact ⟨rfl, nofun⟩
        . exact ⟨rfl, nofun⟩
        . exact ⟨rfl, nofun⟩
        . exact hdeleted' x hx
        . exact outside_now _
      . simp only [List.mem_cons, List.mem_append, List.not_mem_nil, or_false]
        rintro (heq | hmem | heq | heq | heq | hmem | heq)
        . cases heq
        . cases hopening.opens _ hmem
        . cases heq
        . cases heq
        . cases heq
        . cases hdeleted.deletes _ hmem
        . cases heq
    | @waited waiting settling ended out hwait hsettle =>
      obtain ⟨logs, dead, components, deleting, runner, now, rfl, hdeleted, hrunner, hverdict, _, houtput⟩ := runs_settle hsettle
      refine .inr ⟨ended, ⟨started, opening ++ [⟨.createPod name ns, .ok ()⟩], waiting,
        ⟨.podLogs name, logs⟩ :: ⟨.deadPodReport ns, dead⟩ :: ⟨.componentLog ns, components⟩ ::
          (deleting ++ (runner ++ [⟨.now, now⟩])), by simp, ?_, ?_, hwait⟩, hverdict, houtput⟩
      . intro x hx
        rcases List.mem_append.mp hx with hx | hx
        . exact hopening' x hx
        . rw [List.mem_singleton.mp hx]
          exact ⟨rfl, nofun⟩
      . have hdeleted' := hdeleted.outside
        have hrunner' : ∀ x ∈ runner, Outside x := by
          rcases hrunner with ⟨_, rfl⟩ | ⟨_, r, rfl⟩
          . simp
          . intro x hx
            rw [List.mem_singleton.mp hx]
            exact ⟨rfl, nofun⟩
        simp only [List.mem_cons, List.mem_append, List.not_mem_nil, or_false]
        rintro x (rfl | rfl | rfl | hx | hx | rfl)
        . exact ⟨rfl, nofun⟩
        . exact ⟨rfl, nofun⟩
        . exact ⟨rfl, nofun⟩
        . exact hdeleted' x hx
        . exact hrunner' x hx
        . exact outside_now _

-- The last look shows the test over in this way.
def LastSeen (answers : List Answered) (state : TerminalState) : Prop :=
  ∃ pod, (looks answers).getLast? = some (some pod) ∧ terminalState pod = some state

theorem not_lastSeen_of_unsettled (h : ∀ look ∈ looks answers, Unsettled look) (state : TerminalState) : ¬LastSeen answers state := by
  rintro ⟨pod, hlast, hstate⟩
  have := h _ (List.mem_of_getLast? hlast) pod rfl
  rw [hstate] at this
  cases this

/--
What a wait has seen by its end.
-/
structure Saw (started hardCap : Nat) (answers : List Answered) (ended : Done) : Prop where
  unsettled : ∀ look ∈ (looks answers).dropLast, Unsettled look
  passed : ended = .reached .passed ↔ LastSeen answers .passed
  failed : ∀ code, ended = .reached (.failed code) ↔ LastSeen answers (.failed code)
  cancelled : ended = .cancelled ↔ Cancelled answers
  timeout : ended = .timeout → (∀ look ∈ looks answers, Unsettled look) ∧ ∃ now, ⟨.now, now⟩ ∈ answers ∧ hardCap ≤ now - started

theorem Ends.saw {before last : List Answered} {ended : Done} (hbefore : ∀ look ∈ looks before, Unsettled look)
    (hcancelled : ¬Cancelled before) (h : Ends started hardCap last ended)
    : Saw started hardCap (before ++ last) ended := by
  cases ended with
  | cancelled =>
    obtain rfl := h
    have hlooks : ∀ look ∈ looks (before ++ [⟨.turn, .cancelled⟩]), Unsettled look := by
      rw [looks_append]
      simpa using hbefore
    refine ⟨fun look hlook => hlooks look ((List.dropLast_sublist _).mem hlook), ?_, ?_, ?_, nofun⟩
    . exact iff_of_false nofun (not_lastSeen_of_unsettled hlooks _)
    . exact fun code => iff_of_false nofun (not_lastSeen_of_unsettled hlooks _)
    . exact iff_of_true rfl (List.mem_append_right _ (List.mem_singleton_self _))
  | timeout =>
    obtain ⟨hlast, ⟨look, hlook, hunsettled⟩, now, hmem, hcap⟩ := h
    have hlooks : ∀ look ∈ looks (before ++ last), Unsettled look := by
      rw [looks_append, hlook]
      intro look' hlook'
      rcases List.mem_append.mp hlook' with hlook' | hlook'
      . exact hbefore look' hlook'
      . rwa [List.mem_singleton.mp hlook']
    refine ⟨fun look hlook => hlooks look ((List.dropLast_sublist _).mem hlook), ?_, ?_, ?_, fun _ => ⟨hlooks, now, ?_, hcap⟩⟩
    . exact iff_of_false nofun (not_lastSeen_of_unsettled hlooks _)
    . exact fun code => iff_of_false nofun (not_lastSeen_of_unsettled hlooks _)
    . apply iff_of_false nofun
      rw [cancelled_append]
      exact not_or.mpr ⟨hcancelled, hlast⟩
    . exact List.mem_append_right _ hmem
  | reached state =>
    obtain ⟨hlast, pod, hlook, hreaches⟩ := h
    have hseen (other : TerminalState) : LastSeen (before ++ last) other ↔ terminalState pod = some other := by
      rw [LastSeen, looks_append, hlook, List.getLast?_concat]
      constructor
      . rintro ⟨pod', heq, hstate⟩
        cases heq
        exact hstate
      . intro hstate
        exact ⟨pod, rfl, hstate⟩
    have hstate (other : TerminalState) (hother : ∀ reason, other ≠ .imageError reason)
        : Done.reached state = .reached other ↔ LastSeen (before ++ last) other := by
      rw [hseen, Done.reached.injEq]
      rcases hreaches with hterminal | ⟨hterminal, reason, _, rfl⟩
      . rw [hterminal, Option.some_inj]
      . rw [hterminal]
        exact iff_of_false (fun heq => hother reason heq.symm) nofun
    refine ⟨?_, hstate _ nofun, fun code => hstate _ nofun, ?_, nofun⟩
    . rw [looks_append, hlook, List.dropLast_concat]
      exact hbefore
    . apply iff_of_false nofun
      rw [cancelled_append]
      exact not_or.mpr ⟨hcancelled, hlast⟩

theorem Waited.saw {ended : Done} (h : Waited name hardCap fuel answers out ended)
    : ∃ started, answers.head? = some ⟨.now, started⟩ ∧ Saw started hardCap answers ended := by
  obtain ⟨started, front, waiting, after, rfl, hfront, hafter, hwait⟩ := h.shape
  obtain ⟨before, last, rfl, hbefore, hcancelled, hends⟩ := runs_await hwait
  have hsaw := hends.saw hbefore hcancelled
  have hlooks : looks (⟨.now, started⟩ :: (front ++ (before ++ last ++ after))) = looks (before ++ last) := by
    rw [looks_now, looks_append, looks_append, looks_eq_nil hfront, looks_eq_nil hafter, List.nil_append, List.append_nil]
  have hcancelled' : Cancelled (⟨.now, started⟩ :: (front ++ (before ++ last ++ after))) ↔ Cancelled (before ++ last) := by
    have hfront' : (⟨.turn, .cancelled⟩ : Answered) ∉ front := not_cancelled hfront
    have hafter' : (⟨.turn, .cancelled⟩ : Answered) ∉ after := not_cancelled hafter
    simp [Cancelled, hfront', hafter']
  have hlast (state : TerminalState)
      : LastSeen (⟨.now, started⟩ :: (front ++ (before ++ last ++ after))) state ↔ LastSeen (before ++ last) state := by
    rw [LastSeen, hlooks]
    rfl
  refine ⟨started, rfl, ?_, ?_, ?_, ?_, ?_⟩
  . rw [hlooks]
    exact hsaw.unsettled
  . rw [hlast]
    exact hsaw.passed
  . intro code
    rw [hlast]
    exact hsaw.failed code
  . rw [hcancelled']
    exact hsaw.cancelled
  . intro hended
    obtain ⟨hunsettled, now, hnow, hcap⟩ := hsaw.timeout hended
    rw [hlooks]
    exact ⟨hunsettled, now, List.mem_cons_of_mem _ (List.mem_append_right _ (List.mem_append_left _ hnow)), hcap⟩

theorem settled_iff {ended d : Done} (h : ∀ reason, d ≠ .reached (.imageError reason))
    : (settled ended []).1 = (settled d []).1 ↔ ended = d := by
  constructor
  . intro heq
    rcases ended with (_ | code | reason) | _ | _ <;> rcases d with (_ | code' | reason') | _ | _
    all_goals first | rfl | cases heq <;> first | rfl | exact absurd rfl (h _)
  . rintro rfl
    rfl

/--
The verdict of a pod is what the last look at it shows, and no earlier look shows it done. A pod that is done at the
last look has its own verdict, whatever the clock says.
-/
theorem inPod_verdict (h : Dialog.Runs (run (.inPod name fuel) env item ns) answers (some out))
    : (∀ look ∈ (looks answers).dropLast, Unsettled look) ∧
        (out.verdict = .pass ↔ LastSeen answers .passed) ∧
        (∀ code, out.verdict = .fail code ↔ LastSeen answers (.failed code)) ∧
        (out.verdict = .terminated ↔ Cancelled answers) ∧
        (out.verdict = .timeout → (∀ look ∈ looks answers, Unsettled look) ∧
          ∃ started now, answers.head? = some ⟨.now, started⟩ ∧ ⟨.now, now⟩ ∈ answers ∧ item.hardCap ≤ now - started) := by
  rcases runs_inPod h with ⟨houtside, _, hverdict⟩ | ⟨ended, hwaited⟩
  . have hlooks : ∀ look ∈ looks answers, Unsettled look := by simp [looks_eq_nil houtside]
    rw [hverdict]
    refine ⟨fun look hlook => hlooks look ((List.dropLast_sublist _).mem hlook), ?_, ?_, ?_, nofun⟩
    . exact iff_of_false nofun (not_lastSeen_of_unsettled hlooks _)
    . exact fun code => iff_of_false nofun (not_lastSeen_of_unsettled hlooks _)
    . exact iff_of_false nofun (not_cancelled houtside)
  . obtain ⟨started, hhead, hsaw⟩ := hwaited.saw
    rw [hwaited.verdict]
    refine ⟨hsaw.unsettled, ?_, ?_, ?_, ?_⟩
    . exact (settled_iff (d := .reached .passed) nofun).trans hsaw.passed
    . exact fun code => (settled_iff (d := .reached (.failed code)) nofun).trans (hsaw.failed code)
    . exact (settled_iff (d := .cancelled) nofun).trans hsaw.cancelled
    . intro hverdict
      have hended : ended = .timeout := (settled_iff (d := .timeout) nofun).mp hverdict
      obtain ⟨hunsettled, now, hnow, hcap⟩ := hsaw.timeout hended
      exact ⟨hunsettled, started, now, hhead, hnow, hcap⟩

-- The pod is done at the poll at which the cap is over.
theorem inPod_verdict_passing
    : ∃ (answers : List Answered) (out : TestOutcome), out.verdict = .pass ∧ LastSeen answers .passed ∧ ¬Cancelled answers := by
  have hrun : Dialog.Runs (run (.inPod "p" 2) ⟨true, true⟩ ⟨"t", "b", 0⟩ "n")
      [⟨.now, 0⟩, ⟨.createNamespace "n", .ok ()⟩, ⟨.bindDriver "n", .ok ()⟩, ⟨.waitForDefaultSa "n", .ok ()⟩,
        ⟨.createPod "p" "n", .ok ()⟩, ⟨.turn, .slept⟩, ⟨.getPod "p", some ⟨none, some ⟨some "Succeeded", none, none⟩⟩⟩,
        ⟨.podLogs "p", .ok []⟩, ⟨.deadPodReport "n", []⟩, ⟨.componentLog "n", []⟩, ⟨.now, 1⟩]
      (some ⟨.pass, runnerOutput [] "t" [], [], 1⟩) :=
    .ask (.ask (.ask (.ask (.ask (.ask (.ask (.ask (.ask (.ask (.ask .done))))))))))
  obtain ⟨_, hpass, _, hterminated, _⟩ := inPod_verdict hrun
  exact ⟨_, ⟨.pass, runnerOutput [] "t" [], [], 1⟩, rfl, hpass.mp rfl, fun hcancelled => (nomatch hterminated.mpr hcancelled)⟩

/--
A runner that was created is given up for its image only when the name of the image cannot be right, or every
answered look of a window as long as the grace showed an error.
-/
theorem inPod_imageError (h : Dialog.Runs (run (.inPod name fuel) env item ns) answers (some out))
    (hcreated : ⟨.createPod name ns, .ok ()⟩ ∈ answers) (hverdict : out.verdict = .spawnError)
    : ∃ reason upto after, out.output = Libtest.utf8 ("runner image error: " ++ reason) ∧ answers = upto ++ after ∧
        looks after = [] ∧ GraceOver name upto reason := by
  rcases runs_inPod h with ⟨_, hnot, _⟩ | ⟨ended, hwaited⟩
  . exact absurd hcreated hnot
  . have hended : ∃ reason, ended = .reached (.imageError reason) := by
      rw [hwaited.verdict] at hverdict
      cases ended with
      | reached state =>
        cases state with
        | imageError reason => exact ⟨reason, rfl⟩
        | passed => cases hverdict
        | failed code => cases hverdict
      | timeout => cases hverdict
      | cancelled => cases hverdict
    obtain ⟨reason, rfl⟩ := hended
    obtain ⟨started, before, waiting, after, rfl, _, hafter, hwait⟩ := hwaited.shape
    refine ⟨reason, ⟨.now, started⟩ :: before ++ waiting, after, hwaited.output reason rfl, by simp, looks_eq_nil hafter, ?_⟩
    have hwindow : Window name (⟨.now, started⟩ :: before) none := trivial
    exact graceOver_await hwindow hwait

theorem runs_judge_first {reason : String} {first now : Nat} (hstate : terminalState pod = none)
    (hpull : pullError pod = some reason)
    (hwaits : PodStatus.pullErrorIsTerminal reason first now PodStatus.imagePullGrace = false)
    : Dialog.Runs (judge pod none) [⟨.now, first⟩, ⟨.now, now⟩] (.ok (some first)) := by
  simp only [judge, hstate, hpull]
  refine .ask (.ask ?_)
  simp only [Dialog.pure_eq, Dialog.bind, hwaits]
  exact .done

theorem runs_judge_again {reason : String} {first now : Nat} (hstate : terminalState pod = none)
    (hpull : pullError pod = some reason)
    (hterminal : PodStatus.pullErrorIsTerminal reason first now PodStatus.imagePullGrace = true)
    : Dialog.Runs (judge pod (some first)) [⟨.now, now⟩] (.error (.imageError reason)) := by
  simp only [judge, hstate, hpull]
  refine .ask ?_
  simp only [Dialog.pure_eq, Dialog.bind, hterminal]
  exact .done

theorem runs_poll_first {reason : String} {first now later : Nat} (hstate : terminalState pod = none)
    (hpull : pullError pod = some reason)
    (hwaits : PodStatus.pullErrorIsTerminal reason first now PodStatus.imagePullGrace = false)
    (hcap : ¬hardCap ≤ later - started)
    : Dialog.Runs (poll name started hardCap none)
        [⟨.turn, .slept⟩, ⟨.getPod name, some pod⟩, ⟨.now, first⟩, ⟨.now, now⟩, ⟨.now, later⟩] (.ok (some first)) := by
  have hcheck : Dialog.Runs (checkCap started hardCap (.ok (some first))) [⟨.now, later⟩] (.ok (some first)) := by
    refine .ask ?_
    simp only [Dialog.pure_eq, Dialog.bind, if_neg hcap]
    exact .done
  exact .ask (.ask ((runs_judge_first hstate hpull hwaits).bind (f := checkCap started hardCap) hcheck))

theorem runs_poll_again {reason : String} {first now : Nat} (hstate : terminalState pod = none)
    (hpull : pullError pod = some reason)
    (hterminal : PodStatus.pullErrorIsTerminal reason first now PodStatus.imagePullGrace = true)
    : Dialog.Runs (poll name started hardCap (some first))
        [⟨.turn, .slept⟩, ⟨.getPod name, some pod⟩, ⟨.now, now⟩] (.error (.reached (.imageError reason))) :=
  .ask (.ask ((runs_judge_again hstate hpull hterminal).bind (f := checkCap started hardCap) .done))

def stuck (reason : String) : Answered :=
  ⟨.getPod "p", some ⟨none, some ⟨some "Pending", none, some [some ⟨some (some reason), none⟩]⟩⟩⟩

def waited (waiting : List Answered) (last : Nat) : List Answered :=
  [⟨.now, 0⟩, ⟨.createNamespace "n", .ok ()⟩, ⟨.bindDriver "n", .ok ()⟩, ⟨.waitForDefaultSa "n", .ok ()⟩,
    ⟨.createPod "p" "n", .ok ()⟩] ++ (waiting ++
    [⟨.podLogs "p", .ok []⟩, ⟨.deadPodReport "n", []⟩, ⟨.componentLog "n", []⟩, ⟨.now, last⟩])

def misnamed : List Answered :=
  waited [⟨.turn, .slept⟩, stuck "InvalidImageName", ⟨.now, 250000000⟩, ⟨.now, 250000000⟩] 300000000

-- Two looks, at the ends of a grace.
def backedOff : List Answered :=
  waited [⟨.turn, .slept⟩, stuck "ImagePullBackOff", ⟨.now, 250000000⟩, ⟨.now, 250000000⟩, ⟨.now, 250000000⟩,
    ⟨.turn, .slept⟩, stuck "ImagePullBackOff", ⟨.now, 90250000000⟩] 90300000000

theorem inPod_imageError_given_up
    : (∃ reason upto after, Libtest.utf8 ("runner image error: " ++ "InvalidImageName") =
            Libtest.utf8 ("runner image error: " ++ reason) ∧
          misnamed = upto ++ after ∧ looks after = [] ∧ GraceOver "p" upto reason) ∧
        ∃ upto after first now, backedOff = upto ++ after ∧ looks after = [] ∧ Window "p" upto (some first) ∧
          upto.getLast? = some ⟨.now, now⟩ ∧ PodStatus.imagePullGrace ≤ now - first := by
  have hmisnamed : Dialog.Runs (run (.inPod "p" 2) ⟨true, true⟩ ⟨"t", "b", 200000000000⟩ "n") misnamed
      (some ⟨.spawnError, Libtest.utf8 ("runner image error: " ++ "InvalidImageName"), [], 300000000⟩) :=
    .ask (.ask (.ask (.ask (.ask (.ask (.ask (.ask (.ask (.ask (.ask (.ask (.ask .done))))))))))))
  have hfirst : Dialog.Runs (poll "p" 0 200000000000 none)
      [⟨.turn, .slept⟩, stuck "ImagePullBackOff", ⟨.now, 250000000⟩, ⟨.now, 250000000⟩, ⟨.now, 250000000⟩]
      (.ok (some 250000000)) :=
    runs_poll_first rfl rfl (by decide) (by decide)
  have hagain : Dialog.Runs (poll "p" 0 200000000000 (some 250000000))
      [⟨.turn, .slept⟩, stuck "ImagePullBackOff", ⟨.now, 90250000000⟩]
      (.error (.reached (.imageError "ImagePullBackOff"))) :=
    runs_poll_again rfl rfl (by decide)
  have hawait : Dialog.Runs (await "p" 0 200000000000 2 none)
      [⟨.turn, .slept⟩, stuck "ImagePullBackOff", ⟨.now, 250000000⟩, ⟨.now, 250000000⟩, ⟨.now, 250000000⟩,
        ⟨.turn, .slept⟩, stuck "ImagePullBackOff", ⟨.now, 90250000000⟩]
      (some (.reached (.imageError "ImagePullBackOff"))) :=
    hfirst.bind (hagain.bind .done)
  have hbackedOff : Dialog.Runs (run (.inPod "p" 2) ⟨true, true⟩ ⟨"t", "b", 200000000000⟩ "n") backedOff
      (some ⟨.spawnError, Libtest.utf8 ("runner image error: " ++ "ImagePullBackOff"), [], 90300000000⟩) :=
    .ask (.ask (.ask (.ask (.ask (hawait.bind (.ask (.ask (.ask (.ask .done)))))))))
  refine ⟨inPod_imageError hmisnamed (by simp [misnamed, waited]) rfl, ?_⟩
  obtain ⟨reason, upto, after, houtput, heq, hafter, rfl | ⟨first, now, hwindow, hlast, hgrace⟩⟩ :=
    inPod_imageError hbackedOff (by simp [backedOff, waited]) rfl
  . exact absurd houtput (by decide)
  . exact ⟨upto, after, first, now, heq, hafter, hwindow, hlast, hgrace⟩

end Executor
end Engine
