import Ztest.Engine.Executor.Impl

namespace Engine
namespace Executor

open Materialize.Watch (Pod PodStatus)

abbrev Answered := Sigma Ask.Answer

variable {env : EngineEnv} {item : Item} {ns name : String} {started hardCap fuel : Nat}
  {since since' : Option Nat} {answers : List Answered} {out : TestOutcome} {pod : Pod}

theorem map_eq {α β : Type} (f : α → β) (d : Program α) : f <$> d = d >>= fun a => .done (f a) := rfl

theorem runs_map {α β : Type} {f : α → β} {d : Program α} {b : β}
    : Dialog.Runs (f <$> d) answers b ↔ ∃ a, Dialog.Runs d answers a ∧ b = f a := by
  rw [map_eq, Dialog.runs_bind]
  constructor
  . rintro ⟨before, after, a, rfl, hd, hdone⟩
    obtain ⟨rfl, rfl⟩ := Dialog.runs_done.mp hdone
    exact ⟨a, by rwa [List.append_nil], rfl⟩
  . rintro ⟨a, hd, rfl⟩
    exact ⟨answers, [], a, (List.append_nil _).symm, hd, .done⟩

section Looks

-- What was seen of the runner pod, `none` for a request that failed.
def seen : Answered → Option (Option Pod)
  | ⟨.getPod _, pod⟩ => some pod
  | _ => none

def looks (answers : List Answered) : List (Option Pod) := answers.filterMap seen

theorem looks_append (answers answers' : List Answered) : looks (answers ++ answers') = looks answers ++ looks answers' :=
  List.filterMap_append

@[simp]
theorem looks_nil : looks [] = [] := rfl

@[simp]
theorem looks_getPod (name : String) (pod : Option Pod) (answers : List Answered)
    : looks (⟨.getPod name, pod⟩ :: answers) = pod :: looks answers := rfl

theorem looks_cons (x : Answered) (answers : List Answered) (h : seen x = none) : looks (x :: answers) = looks answers :=
  List.filterMap_cons_none h

@[simp]
theorem looks_now (now : Nat) (answers : List Answered) : looks (⟨.now, now⟩ :: answers) = looks answers :=
  looks_cons _ _ rfl

@[simp]
theorem looks_turn (turn : Turn) (answers : List Answered) : looks (⟨.turn, turn⟩ :: answers) = looks answers :=
  looks_cons _ _ rfl

def Cancelled (answers : List Answered) : Prop := ⟨.turn, .cancelled⟩ ∈ answers

theorem cancelled_append (answers answers' : List Answered)
    : Cancelled (answers ++ answers') ↔ Cancelled answers ∨ Cancelled answers' := List.mem_append

-- The wait for the pod is the only one that asks for it, and the only one that takes turns.
def Outside (x : Answered) : Prop := seen x = none ∧ x.1 ≠ .turn

theorem looks_eq_nil (h : ∀ x ∈ answers, Outside x) : looks answers = [] :=
  List.filterMap_eq_nil_iff.mpr fun x hx => (h x hx).1

theorem not_cancelled (h : ∀ x ∈ answers, Outside x) : ¬Cancelled answers := fun hcancelled => (h _ hcancelled).2 rfl

theorem outside_of_ne {x : Answered} (hpod : ∀ name, x.1 ≠ .getPod name) (hturn : x.1 ≠ .turn) : Outside x := by
  rcases x with ⟨q, r⟩
  refine ⟨?_, hturn⟩
  cases q
  case getPod name => exact absurd rfl (hpod name)
  all_goals rfl

end Looks

section Await

def Unsettled (look : Option Pod) : Prop := ∀ pod ∈ look, terminalState pod = none

-- How a look at the pod ends the wait: the pod is done, or the error of its image is there to stay.
def Reaches (pod : Pod) (state : TerminalState) : Prop :=
  terminalState pod = some state ∨ terminalState pod = none ∧ ∃ reason, pullError pod = some reason ∧ state = .imageError reason

theorem runs_now {α : Type} {k : Nat → Program α} {a : α}
    : Dialog.Runs (ask .now >>= k) answers a ↔ ∃ (now : Nat) (rest : List Answered), answers = ⟨.now, now⟩ :: rest ∧ Dialog.Runs (k now) rest a :=
  Dialog.runs_call

theorem runs_firstSeen {first : Nat} (h : Dialog.Runs (firstSeen since) answers first)
    : since = some first ∧ answers = [] ∨ since = none ∧ answers = [⟨.now, first⟩] := by
  cases since with
  | some t =>
    obtain ⟨rfl, rfl⟩ := Dialog.runs_done.mp h
    exact .inl ⟨rfl, rfl⟩
  | none =>
    obtain ⟨r, rest, rfl, hrest⟩ := Dialog.runs_ask.mp h
    obtain ⟨rfl, rfl⟩ := Dialog.runs_done.mp hrest
    exact .inr ⟨rfl, rfl⟩

/--
What a poll that was answered with a pod makes of it.
-/
inductive Judged (pod : Pod) (since : Option Nat) : List Answered → Except TerminalState (Option Nat) → Prop where
  | settled {state : TerminalState} (hstate : terminalState pod = some state) : Judged pod since [] (.error state)
  | pulled (hstate : terminalState pod = none) (hpull : pullError pod = none) : Judged pod since [] (.ok none)
  | stuck {reason : String} {reading : List Answered} {first now : Nat} (hstate : terminalState pod = none)
    (hpull : pullError pod = some reason)
    (hfirst : since = some first ∧ reading = [] ∨ since = none ∧ reading = [⟨.now, first⟩])
    (hterminal : PodStatus.pullErrorIsTerminal reason first now PodStatus.imagePullGrace = true)
    : Judged pod since (reading ++ [⟨.now, now⟩]) (.error (.imageError reason))
  | waits {reason : String} {reading : List Answered} {first now : Nat} (hstate : terminalState pod = none)
    (hpull : pullError pod = some reason)
    (hfirst : since = some first ∧ reading = [] ∨ since = none ∧ reading = [⟨.now, first⟩])
    : Judged pod since (reading ++ [⟨.now, now⟩]) (.ok (some first))

theorem runs_judge {judged : Except TerminalState (Option Nat)} (h : Dialog.Runs (judge pod since) answers judged)
    : Judged pod since answers judged := by
  unfold judge at h
  cases hstate : terminalState pod with
  | some state =>
    rw [hstate] at h
    obtain ⟨rfl, rfl⟩ := Dialog.runs_done.mp h
    exact .settled hstate
  | none =>
    simp only [hstate] at h
    cases hpull : pullError pod with
    | none =>
      rw [hpull] at h
      obtain ⟨rfl, rfl⟩ := Dialog.runs_done.mp h
      exact .pulled hstate hpull
    | some reason =>
      simp only [hpull] at h
      obtain ⟨reading, rest, first, rfl, hreading, hrest⟩ := Dialog.runs_bind.mp h
      obtain ⟨now, judging, rfl, hjudge⟩ := runs_now.mp hrest
      split at hjudge
      next hterminal =>
        obtain ⟨rfl, rfl⟩ := Dialog.runs_done.mp hjudge
        exact .stuck hstate hpull (runs_firstSeen hreading) hterminal
      next =>
        obtain ⟨rfl, rfl⟩ := Dialog.runs_done.mp hjudge
        exact .waits hstate hpull (runs_firstSeen hreading)

theorem outside_now (now : Nat) : Outside ⟨.now, now⟩ := ⟨rfl, nofun⟩

theorem outside_reading {first : Nat} {reading : List Answered}
    (h : since = some first ∧ reading = [] ∨ since = none ∧ reading = [⟨.now, first⟩]) (now : Nat)
    : ∀ x ∈ reading ++ [⟨.now, now⟩], Outside x := by
  rcases h with ⟨_, rfl⟩ | ⟨_, rfl⟩
  . simp [outside_now]
  . simp [outside_now]

theorem Judged.outside {judged : Except TerminalState (Option Nat)} (h : Judged pod since answers judged)
    : ∀ x ∈ answers, Outside x := by
  cases h with
  | settled => simp
  | pulled => simp
  | stuck _ _ hfirst => exact outside_reading hfirst _
  | waits _ _ hfirst => exact outside_reading hfirst _

theorem Judged.reaches {state : TerminalState} (h : Judged pod since answers (.error state)) : Reaches pod state := by
  cases h with
  | settled hstate => exact .inl hstate
  | stuck hstate hpull => exact .inr ⟨hstate, _, hpull, rfl⟩

theorem Judged.unsettled (h : Judged pod since answers (.ok since')) : terminalState pod = none := by
  cases h with
  | pulled hstate => exact hstate
  | waits hstate => exact hstate

/--
A request for the pod, and what is made of the answer.
-/
inductive Looked (name : String) (since : Option Nat) : List Answered → Except TerminalState (Option Nat) → Prop where
  | failed : Looked name since [⟨.getPod name, none⟩] (.ok since)
  | answered {pod : Pod} {reading : List Answered} {judged : Except TerminalState (Option Nat)}
    (h : Judged pod since reading judged) : Looked name since (⟨.getPod name, some pod⟩ :: reading) judged

theorem runs_look {judged : Except TerminalState (Option Nat)} (h : Dialog.Runs (look name since) answers judged)
    : Looked name since answers judged := by
  obtain ⟨seen, reading, rfl, hreading⟩ := Dialog.runs_call.mp h
  cases seen with
  | none =>
    obtain ⟨rfl, rfl⟩ := Dialog.runs_done.mp hreading
    exact .failed
  | some pod => exact .answered (runs_judge hreading)

theorem Looked.not_cancelled {judged : Except TerminalState (Option Nat)} (h : Looked name since answers judged)
    : ¬Cancelled answers := by
  cases h with
  | failed => simp [Cancelled]
  | answered h =>
    intro hcancelled
    rcases List.mem_cons.mp hcancelled with heq | hmem
    . cases heq
    . exact (h.outside _ hmem).2 rfl

theorem Looked.reaches {state : TerminalState} (h : Looked name since answers (.error state))
    : ∃ pod, looks answers = [some pod] ∧ Reaches pod state := by
  cases h with
  | @answered pod reading _ h => exact ⟨pod, by rw [looks_getPod, looks_eq_nil h.outside], h.reaches⟩

theorem Looked.unsettled (h : Looked name since answers (.ok since'))
    : ∃ look, looks answers = [look] ∧ Unsettled look := by
  cases h with
  | failed => exact ⟨none, rfl, nofun⟩
  | @answered pod reading _ h =>
    refine ⟨some pod, by rw [looks_getPod, looks_eq_nil h.outside], ?_⟩
    intro pod' hpod
    rw [← Option.mem_some.mp hpod]
    exact h.unsettled

/--
One turn of the wait.
-/
inductive Polled (name : String) (started hardCap : Nat) (since : Option Nat)
    : List Answered → Except Done (Option Nat) → Prop where
  | cancelled : Polled name started hardCap since [⟨.turn, .cancelled⟩] (.error .cancelled)
  | reached {looking : List Answered} {state : TerminalState} (h : Looked name since looking (.error state))
    : Polled name started hardCap since (⟨.turn, .slept⟩ :: looking) (.error (.reached state))
  | timeout {looking : List Answered} {since' : Option Nat} {now : Nat} (h : Looked name since looking (.ok since'))
    (hcap : hardCap ≤ now - started)
    : Polled name started hardCap since (⟨.turn, .slept⟩ :: (looking ++ [⟨.now, now⟩])) (.error .timeout)
  | again {looking : List Answered} {since' : Option Nat} {now : Nat} (h : Looked name since looking (.ok since'))
    (hcap : now - started < hardCap)
    : Polled name started hardCap since (⟨.turn, .slept⟩ :: (looking ++ [⟨.now, now⟩])) (.ok since')

theorem runs_poll {polled : Except Done (Option Nat)}
    (h : Dialog.Runs (poll name started hardCap since) answers polled)
    : Polled name started hardCap since answers polled := by
  obtain ⟨turn, rest, rfl, hrest⟩ := Dialog.runs_call.mp h
  cases turn with
  | cancelled =>
    obtain ⟨rfl, rfl⟩ := Dialog.runs_done.mp hrest
    exact .cancelled
  | slept =>
    obtain ⟨looking, checking, judged, rfl, hlook, hcheck⟩ := Dialog.runs_bind.mp hrest
    cases judged with
    | error state =>
      obtain ⟨rfl, rfl⟩ := Dialog.runs_done.mp hcheck
      rw [List.append_nil]
      exact .reached (runs_look hlook)
    | ok since' =>
      obtain ⟨now, rest, rfl, hdone⟩ := runs_now.mp hcheck
      obtain ⟨rfl, rfl⟩ := Dialog.runs_done.mp hdone
      split_ifs with hcap
      . exact .timeout (runs_look hlook) hcap
      . exact .again (runs_look hlook) (Nat.lt_of_not_le hcap)

/--
The last turn of the wait, by what it ends with.
-/
def Ends (started hardCap : Nat) (last : List Answered) : Done → Prop
  | .cancelled => last = [⟨.turn, .cancelled⟩]
  | .reached state => ¬Cancelled last ∧ ∃ pod, looks last = [some pod] ∧ Reaches pod state
  | .timeout => ¬Cancelled last ∧ (∃ look, looks last = [look] ∧ Unsettled look) ∧
      ∃ now, ⟨.now, now⟩ ∈ last ∧ hardCap ≤ now - started

theorem not_cancelled_slept (h : ¬Cancelled answers) : ¬Cancelled (⟨.turn, .slept⟩ :: answers) := by
  intro hcancelled
  rcases List.mem_cons.mp hcancelled with heq | hmem
  . cases heq
  . exact h hmem

theorem not_cancelled_concat (h : ¬Cancelled answers) (now : Nat) : ¬Cancelled (answers ++ [⟨.now, now⟩]) := by
  rw [cancelled_append]
  exact not_or.mpr ⟨h, by simp [Cancelled]⟩

theorem Looked.unsettled_concat (h : Looked name since answers (.ok since')) (now : Nat)
    : ∃ look, looks (⟨.turn, .slept⟩ :: (answers ++ [⟨.now, now⟩])) = [look] ∧ Unsettled look := by
  obtain ⟨look, hlook, hunsettled⟩ := h.unsettled
  exact ⟨look, by rw [looks_turn, looks_append, hlook]; rfl, hunsettled⟩

theorem Polled.ends {ended : Done} (h : Polled name started hardCap since answers (.error ended))
    : Ends started hardCap answers ended := by
  cases h with
  | cancelled => rfl
  | reached h =>
    refine ⟨not_cancelled_slept h.not_cancelled, ?_⟩
    rw [looks_turn]
    exact h.reaches
  | @timeout looking since' now h hcap =>
    refine ⟨not_cancelled_slept (not_cancelled_concat h.not_cancelled now), h.unsettled_concat now, now, ?_, hcap⟩
    exact List.mem_cons_of_mem _ (List.mem_append_right _ (List.mem_singleton_self _))

theorem Polled.again_unsettled (h : Polled name started hardCap since answers (.ok since'))
    : ¬Cancelled answers ∧ ∃ look, looks answers = [look] ∧ Unsettled look := by
  cases h with
  | @again looking since' now h =>
    exact ⟨not_cancelled_slept (not_cancelled_concat h.not_cancelled now), h.unsettled_concat now⟩

theorem runs_await {ended : Done} (h : Dialog.Runs (await name started hardCap fuel since) answers (some ended))
    : ∃ before last, answers = before ++ last ∧ (∀ look ∈ looks before, Unsettled look) ∧ ¬Cancelled before ∧
        Ends started hardCap last ended := by
  induction fuel generalizing since answers with
  | zero => cases (Dialog.runs_done.mp h).2
  | succ fuel ih =>
    obtain ⟨turn, rest, polled, rfl, hturn, hrest⟩ := Dialog.runs_bind.mp h
    cases polled with
    | error d =>
      obtain ⟨rfl, heq⟩ := Dialog.runs_done.mp hrest
      cases heq
      exact ⟨[], turn, by simp, by simp, by simp [Cancelled], (runs_poll hturn).ends⟩
    | ok since' =>
      obtain ⟨hcancelled, look, hlook, hunsettled⟩ := (runs_poll hturn).again_unsettled
      obtain ⟨before, last, rfl, hbefore, hbefore', hlast⟩ := ih hrest
      refine ⟨turn ++ before, last, by rw [List.append_assoc], ?_, ?_, hlast⟩
      . rw [looks_append, hlook]
        intro look' hmem
        rcases List.mem_cons.mp hmem with rfl | hmem
        . exact hunsettled
        . exact hbefore look' hmem
      . rw [cancelled_append]
        exact not_or.mpr ⟨hcancelled, hbefore'⟩

end Await

section Pull

def Stuck (answers : List Answered) : Prop := ∀ look ∈ looks answers, ∀ pod ∈ look, pullError pod ≠ none

/--
Where the window of the pull error stands: it was opened right after a look that showed an error, and every
answered look since then showed one too.
-/
def Window (name : String) (answers : List Answered) : Option Nat → Prop
  | none => True
  | some first => ∃ before pod streak, answers = before ++ ⟨.getPod name, some pod⟩ :: ⟨.now, first⟩ :: streak ∧
      pullError pod ≠ none ∧ Stuck streak

theorem Stuck.append {answers' : List Answered} (h : Stuck answers) (h' : Stuck answers') : Stuck (answers ++ answers') := by
  intro look hlook
  rw [looks_append] at hlook
  rcases List.mem_append.mp hlook with hlook | hlook
  . exact h look hlook
  . exact h' look hlook

theorem stuck_of_looks_eq_nil (h : looks answers = []) : Stuck answers := by simp [Stuck, h]

theorem Window.append {before : List Answered} (h : Window name before since) (hstuck : Stuck answers)
    : Window name (before ++ answers) since := by
  cases since with
  | none => exact trivial
  | some first =>
    obtain ⟨earlier, pod, streak, rfl, hpod, hstreak⟩ := h
    exact ⟨earlier, pod, streak ++ answers, by simp, hpod, hstreak.append hstuck⟩

theorem Window.reading {before reading : List Answered} {reason : String} {first : Nat}
    (h : Window name before since) (hpull : pullError pod = some reason)
    (hfirst : since = some first ∧ reading = [] ∨ since = none ∧ reading = [⟨.now, first⟩]) (now : Nat)
    : Window name (before ++ ⟨.turn, .slept⟩ :: ⟨.getPod name, some pod⟩ :: (reading ++ [⟨.now, now⟩])) (some first) := by
  have hpod : pullError pod ≠ none := by simp [hpull]
  rcases hfirst with ⟨rfl, rfl⟩ | ⟨rfl, rfl⟩
  . apply h.append
    intro look hlook pod' hpod'
    have hlook : look = some pod := by simpa using hlook
    rw [hlook, Option.mem_some] at hpod'
    rwa [← hpod']
  . exact ⟨before ++ [⟨.turn, .slept⟩], pod, [⟨.now, now⟩], by simp, hpod, stuck_of_looks_eq_nil (by simp)⟩

theorem Window.polled {before : List Answered} (h : Window name before since)
    (hpoll : Polled name started hardCap since answers (.ok since'))
    : Window name (before ++ answers) since' := by
  cases hpoll with
  | @again looking since' later hlook hcap =>
    cases hlook with
    | failed => exact h.append (by simp [Stuck])
    | answered hjudged =>
      cases hjudged with
      | pulled => exact trivial
      | @waits reason reading first now _ hpull hfirst =>
        have hlater : Stuck [⟨.now, later⟩] := stuck_of_looks_eq_nil (by simp)
        simpa using (h.reading hpull hfirst now).append hlater

/--
When the error of an image ends the wait: at once for a name that cannot be right, else at the end of a window
that is as long as the grace.
-/
def GraceOver (name : String) (answers : List Answered) (reason : String) : Prop :=
  reason = "InvalidImageName" ∨ ∃ first now, Window name answers (some first) ∧ answers.getLast? = some ⟨.now, now⟩ ∧
    PodStatus.imagePullGrace ≤ now - first

theorem GraceOver.of_polled {before : List Answered} {reason : String} (h : Window name before since)
    (hpoll : Polled name started hardCap since answers (.error (.reached (.imageError reason))))
    : GraceOver name (before ++ answers) reason := by
  cases hpoll with
  | reached hlook =>
    cases hlook with
    | answered hjudged =>
      cases hjudged with
      | settled hstate =>
        unfold terminalState at hstate
        obtain ⟨status, _, hstatus⟩ := Option.bind_eq_some_iff.mp hstate
        split_ifs at hstatus
        . cases hstatus
        . cases hstatus
      | @stuck reason reading first now _ hpull hfirst hterminal =>
        rcases (decide_eq_true_iff.mp hterminal) with rfl | hgrace
        . exact .inl rfl
        . refine .inr ⟨first, now, h.reading hpull hfirst now, ?_, hgrace⟩
          rw [← List.cons_append, ← List.cons_append, ← List.append_assoc]
          exact List.getLast?_concat

theorem graceOver_await {before : List Answered} {reason : String} (h : Window name before since)
    (hawait : Dialog.Runs (await name started hardCap fuel since) answers (some (.reached (.imageError reason))))
    : GraceOver name (before ++ answers) reason := by
  induction fuel generalizing since answers before with
  | zero => cases (Dialog.runs_done.mp hawait).2
  | succ fuel ih =>
    obtain ⟨turn, rest, polled, rfl, hturn, hrest⟩ := Dialog.runs_bind.mp hawait
    cases polled with
    | error ended =>
      obtain ⟨rfl, heq⟩ := Dialog.runs_done.mp hrest
      cases heq
      rw [List.append_nil]
      exact .of_polled h (runs_poll hturn)
    | ok since' =>
      have := ih (h.polled (runs_poll hturn)) hrest
      rwa [List.append_assoc] at this

end Pull

end Executor
end Engine
