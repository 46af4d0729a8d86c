import Ztest.Engine.Executor.Lemmas.Wait

namespace Engine
namespace Executor

open Materialize.Watch (Pod PodStatus)

variable {env : EngineEnv} {item : Item} {ns name : String} {started hardCap fuel : Nat}
  {since since' : Option Nat} {answers : List Answered} {out : TestOutcome} {pod : Pod}

section Body

def Ask.opens : Ask → Bool
  | .createNamespace _ | .bindDriver _ | .waitForDefaultSa _ => true
  | _ => false

def Ask.awaits : Ask → Bool
  | .now | .turn | .getPod _ => true
  | _ => false

-- What an executor asks between the two ends of the namespace.
def Ask.worksPod : Ask → Bool
  | .createPod .. | .podLogs _ => true
  | q => q.awaits

def Ask.worksChild : Ask → Bool
  | .attachStdio | .spawn _ | .race _ | .killGroup | .reap | .drain => true
  | _ => false

def Kind.works : Kind → Ask → Bool
  | .inPod .. => Ask.worksPod
  | .inProcess => Ask.worksChild

def Ask.deletes : Ask → Bool
  | .deleteNamespace _ | .deleteSeedBindings _ | .deletePod _ => true
  | _ => false

def Ask.reads : Ask → Bool
  | .getPod _ | .podLogs _ | .deadPodReport _ | .componentLog _ | .drain => true
  | _ => false

inductive Deleted (ns : String) : Bool → List Answered → Prop where
  | kept : Deleted ns true []
  | failed (e : String) : Deleted ns false [⟨.deleteNamespace ns, .error e⟩]
  | deleted : Deleted ns false [⟨.deleteNamespace ns, .ok ()⟩, ⟨.deleteSeedBindings ns, ()⟩]

theorem runs_deleteNs {noCleanup : Bool} (h : Dialog.Runs (deleteNs ns noCleanup) answers ()) : Deleted ns noCleanup answers := by
  cases noCleanup with
  | true =>
    obtain ⟨rfl, _⟩ := Dialog.runs_done.mp h
    exact .kept
  | false =>
    obtain ⟨deleted, rest, rfl, hrest⟩ := Dialog.runs_call.mp h
    cases deleted with
    | error e =>
      obtain ⟨rfl, _⟩ := Dialog.runs_done.mp hrest
      exact .failed e
    | ok u =>
      obtain ⟨r, rest, rfl, hdone⟩ := Dialog.runs_ask.mp hrest
      obtain ⟨rfl, _⟩ := Dialog.runs_done.mp hdone
      exact .deleted

theorem runs_closeNs {noCleanup : Bool} {harvest : Harvest} (h : Dialog.Runs (closeNs ns noCleanup) answers harvest)
    : ∃ deleting, answers = ⟨.deadPodReport ns, harvest.dead⟩ :: ⟨.componentLog ns, harvest.components⟩ :: deleting ∧
        Deleted ns noCleanup deleting := by
  obtain ⟨dead, reading, rfl, hreading⟩ := Dialog.runs_call.mp h
  obtain ⟨components, rest, rfl, hrest⟩ := Dialog.runs_call.mp hreading
  obtain ⟨deleting, ending, u, rfl, hdelete, hending⟩ := Dialog.runs_bind.mp hrest
  obtain ⟨rfl, rfl⟩ := Dialog.runs_done.mp hending
  exact ⟨deleting, by rw [List.append_nil], runs_deleteNs hdelete⟩

/--
What an executor does with an open namespace: work that leaves the namespace alone, the harvest, the deletion, and
nothing after that but the deletion of a pod.
-/
def Closes (works : Ask → Bool) (ns : String) (noCleanup : Bool) (answers : List Answered) (out : TestOutcome) : Prop :=
  ∃ work dead components deleting rest,
    answers = work ++ ⟨.deadPodReport ns, dead⟩ :: ⟨.componentLog ns, components⟩ :: (deleting ++ rest) ∧
    (∀ x ∈ work, works x.1 = true) ∧ Deleted ns noCleanup deleting ∧
    (∀ x ∈ rest, x.1 = .now ∨ noCleanup = false ∧ ∃ name, x.1 = .deletePod name) ∧
    (out.components = components ∨ out.verdict = .spawnError ∧ out.components = [])

def Within (f : Ask → Bool) (q : Ask) : Prop := f q = true

theorem asks_within {f : Ask → Bool} {q : Ask} (h : f q = true) : (ask q).Asks (Within f) := Dialog.asks_call h

theorem asks_within_bind {α : Type} {f : Ask → Bool} {q : Ask} {k : q.Answer → Program α} (h : f q = true)
    (hk : ∀ r, (k r).Asks (Within f))
    : (ask q >>= k).Asks (Within f) := (asks_within h).bind hk

theorem asks_judge (pod : Pod) (since : Option Nat) : (judge pod since).Asks (Within Ask.awaits) := by
  unfold judge
  split
  . exact Dialog.asks_done _
  . split
    . exact Dialog.asks_done _
    . apply Dialog.Asks.bind
      . cases since with
        | some first => exact Dialog.asks_done _
        | none => exact asks_within (by rfl)
      . intro first
        apply asks_within_bind (by rfl)
        intro now
        split
        . exact Dialog.asks_done _
        . exact Dialog.asks_done _

theorem asks_poll (name : String) (started hardCap : Nat) (since : Option Nat)
    : (poll name started hardCap since).Asks (Within Ask.awaits) := by
  apply asks_within_bind (by rfl)
  intro turn
  cases turn with
  | cancelled => exact Dialog.asks_done _
  | slept =>
    apply Dialog.Asks.bind
    . apply asks_within_bind (by rfl)
      intro seen
      cases seen with
      | none => exact Dialog.asks_done _
      | some pod => exact asks_judge pod since
    . intro judged
      cases judged with
      | error state => exact Dialog.asks_done _
      | ok since =>
        apply asks_within_bind (by rfl)
        intro now
        exact Dialog.asks_done _

theorem asks_await (name : String) (started hardCap : Nat) (fuel : Nat) (since : Option Nat)
    : (await name started hardCap fuel since).Asks (Within Ask.awaits) := by
  induction fuel generalizing since with
  | zero => exact Dialog.asks_done _
  | succ fuel ih =>
    apply (asks_poll name started hardCap since).bind
    intro polled
    cases polled with
    | error ended => exact Dialog.asks_done _
    | ok since' => exact ih since'

theorem asks_spawnTest (env : EngineEnv) (item : Item) (ns : String)
    : (spawnTest env item ns).Asks (Within Ask.worksChild) := by
  have hkill (verdict : Verdict) : (kill >>= fun _ => pure verdict : Program Verdict).Asks (Within Ask.worksChild) :=
    (asks_within_bind (by rfl) fun _ => asks_within (by rfl)).bind fun _ => Dialog.asks_done _
  unfold spawnTest
  apply Dialog.Asks.bind
  . unfold attach
    split
    . exact asks_within (by rfl)
    . exact Dialog.asks_done _
  . intro attached
    cases attached with
    | error e => exact Dialog.asks_done _
    | ok u =>
      apply asks_within_bind (by rfl)
      intro spawned
      cases spawned with
      | error e => exact Dialog.asks_done _
      | ok u =>
        apply Dialog.Asks.bind
        . apply asks_within_bind (by rfl)
          intro race
          cases race with
          | exited status => exact Dialog.asks_done _
          | capped => exact hkill _
          | cancelled => exact hkill _
        . intro verdict
          apply Dialog.Asks.bind
          . unfold collect
            split
            . exact asks_within (by rfl)
            . exact Dialog.asks_done _
          . intro output
            exact Dialog.asks_done _

theorem runs_spawnError {e : String} (h : Dialog.Runs (spawnError started e) answers out)
    : ∃ now, answers = [⟨.now, now⟩] ∧ out = ⟨.spawnError, Libtest.utf8 e, [], now - started⟩ := by
  obtain ⟨now, rest, rfl, hrest⟩ := runs_now.mp h
  obtain ⟨rfl, rfl⟩ := Dialog.runs_done.mp hrest
  exact ⟨now, rfl, rfl⟩

theorem runs_deleteRunner {noCleanup : Bool} (h : Dialog.Runs (deleteRunner name noCleanup) answers ())
    : noCleanup = true ∧ answers = [] ∨ noCleanup = false ∧ ∃ r, answers = [⟨.deletePod name, r⟩] := by
  cases noCleanup with
  | true => exact .inl ⟨rfl, (Dialog.runs_done.mp h).1⟩
  | false =>
    obtain ⟨r, rest, rfl, hrest⟩ := Dialog.runs_call.mp h
    obtain ⟨rfl, _⟩ := Dialog.runs_done.mp hrest
    exact .inr ⟨rfl, r, rfl⟩

/--
`settle` in order: the log of the runner, the harvest, the deletion of the namespace, that of the runner.
-/
theorem runs_settle {ended : Done} (h : Dialog.Runs (settle env item ns name started ended) answers out)
    : ∃ logs dead components deleting runner now,
        answers = ⟨.podLogs name, logs⟩ :: ⟨.deadPodReport ns, dead⟩ :: ⟨.componentLog ns, components⟩ ::
          (deleting ++ (runner ++ [⟨.now, now⟩])) ∧
        Deleted ns env.noCleanup deleting ∧
        (env.noCleanup = true ∧ runner = [] ∨ env.noCleanup = false ∧ ∃ r, runner = [⟨.deletePod name, r⟩]) ∧
        out.verdict = (settled ended []).1 ∧ out.components = components ∧
        ∀ reason, ended = .reached (.imageError reason) → out.output = Libtest.utf8 ("runner image error: " ++ reason) := by
  obtain ⟨logs, rest, rfl, hrest⟩ := Dialog.runs_call.mp h
  obtain ⟨closing, ending, harvest, rfl, hclose, hending⟩ := Dialog.runs_bind.mp hrest
  obtain ⟨runner, last, u, rfl, hrunner, hlast⟩ := Dialog.runs_bind.mp hending
  obtain ⟨now, rest, rfl, hdone⟩ := runs_now.mp hlast
  obtain ⟨rfl, rfl⟩ := Dialog.runs_done.mp hdone
  obtain ⟨deleting, rfl, hdeleted⟩ := runs_closeNs hclose
  refine ⟨logs, harvest.dead, harvest.components, deleting, runner, now, by simp, hdeleted, runs_deleteRunner hrunner, ?_, rfl, ?_⟩
  . cases ended with
    | reached state => cases state <;> rfl
    | timeout => rfl
    | cancelled => rfl
  . rintro reason rfl
    rfl

theorem worksPod_of_awaits {q : Ask} (h : q.awaits = true) : q.worksPod = true := by cases q <;> first | rfl | exact h

/--
`podRun`: a pod that is not created, or one that is waited for.
-/
inductive RanPod (env : EngineEnv) (item : Item) (ns name : String) (started : Nat) (fuel : Nat)
    : List Answered → TestOutcome → Prop where
  | uncreated {e : String} {dead components : Bytes} {deleting : List Answered} {now : Nat} {out : TestOutcome}
    (hdeleted : Deleted ns env.noCleanup deleting) (hverdict : out.verdict = .spawnError) (hcomponents : out.components = [])
    : RanPod env item ns name started fuel
        (⟨.createPod name ns, .error e⟩ :: ⟨.deadPodReport ns, dead⟩ :: ⟨.componentLog ns, components⟩ ::
          (deleting ++ [⟨.now, now⟩])) out
  | waited {waiting settling : List Answered} {ended : Done} {out : TestOutcome}
    (hwait : Dialog.Runs (await name started item.hardCap fuel none) waiting (some ended))
    (hsettle : Dialog.Runs (settle env item ns name started ended) settling out)
    : RanPod env item ns name started fuel (⟨.createPod name ns, .ok ()⟩ :: (waiting ++ settling)) out

theorem runs_podRun (h : Dialog.Runs (podRun env item ns name started fuel) answers (some out))
    : RanPod env item ns name started fuel answers out := by
  obtain ⟨created, rest, rfl, hrest⟩ := Dialog.runs_call.mp h
  cases created with
  | error e =>
    obtain ⟨closing, ending, harvest, rfl, hclose, hending⟩ := Dialog.runs_bind.mp hrest
    obtain ⟨out', hout, heq⟩ := runs_map.mp hending
    cases heq
    obtain ⟨now, rfl, rfl⟩ := runs_spawnError hout
    obtain ⟨deleting, rfl, hdeleted⟩ := runs_closeNs hclose
    exact .uncreated hdeleted rfl rfl
  | ok u =>
    obtain ⟨waiting, ending, ended, rfl, hwait, hending⟩ := Dialog.runs_bind.mp hrest
    cases ended with
    | none => cases (Dialog.runs_done.mp hending).2
    | some ended =>
      obtain ⟨out', hout, heq⟩ := runs_map.mp hending
      cases heq
      exact .waited hwait hout

theorem RanPod.closes (h : RanPod env item ns name started fuel answers out)
    : Closes Ask.worksPod ns env.noCleanup answers out := by
  cases h with
  | @uncreated e dead components deleting now out hdeleted hverdict hcomponents =>
    exact ⟨[⟨.createPod name ns, .error e⟩], dead, components, deleting, [⟨.now, now⟩], by simp, by simp [Ask.worksPod],
      hdeleted, by simp, .inr ⟨hverdict, hcomponents⟩⟩
  | @waited waiting settling ended out hwait hsettle =>
    obtain ⟨logs, dead, components, deleting, runner, now, rfl, hdeleted, hrunner, _, hcomponents, _⟩ := runs_settle hsettle
    refine ⟨⟨.createPod name ns, .ok ()⟩ :: (waiting ++ [⟨.podLogs name, logs⟩]), dead, components, deleting,
      runner ++ [⟨.now, now⟩], by simp, ?_, hdeleted, ?_, .inl hcomponents⟩
    . have hawaits := hwait.asks (asks_await _ _ _ _ _)
      intro x hx
      rcases List.mem_cons.mp hx with rfl | hx
      . rfl
      . rcases List.mem_append.mp hx with hx | hx
        . exact worksPod_of_awaits (hawaits x hx)
        . rw [List.mem_singleton.mp hx]
          rfl
    . intro x hx
      rcases List.mem_append.mp hx with hx | hx
      . rcases hrunner with ⟨_, rfl⟩ | ⟨hnot, r, rfl⟩
        . cases hx
        . rw [List.mem_singleton.mp hx]
          exact .inr ⟨hnot, name, rfl⟩
      . rw [List.mem_singleton.mp hx]
        exact .inl rfl

theorem closes_localRun (h : Dialog.Runs (localRun env item ns started) answers out)
    : Closes Ask.worksChild ns env.noCleanup answers out := by
  obtain ⟨work, ending, result, rfl, hspawn, hending⟩ := Dialog.runs_bind.mp h
  obtain ⟨closing, last, harvest, rfl, hclose, hlast⟩ := Dialog.runs_bind.mp hending
  obtain ⟨now, rest, rfl, hdone⟩ := runs_now.mp hlast
  obtain ⟨rfl, rfl⟩ := Dialog.runs_done.mp hdone
  obtain ⟨deleting, rfl, hdeleted⟩ := runs_closeNs hclose
  exact ⟨work, harvest.dead, harvest.components, deleting, [⟨.now, now⟩], by simp, hspawn.asks (asks_spawnTest env item ns),
    hdeleted, by simp, .inl rfl⟩

theorem closes_body {kind : Kind} (h : Dialog.Runs (body kind env item ns started) answers (some out))
    : Closes kind.works ns env.noCleanup answers out := by
  cases kind with
  | inPod name fuel => exact (runs_podRun h).closes
  | inProcess =>
    obtain ⟨out', hout, heq⟩ := runs_map.mp h
    cases heq
    exact closes_localRun hout

end Body

section Run

-- The requests that open the namespace, up to the first that fails.
inductive Opening (ns : String) : List Answered → Except String Unit → Prop where
  | refused (e message : String) : Opening ns [⟨.createNamespace ns, .error e⟩] (.error message)
  | unbound (e message : String) : Opening ns [⟨.createNamespace ns, .ok ()⟩, ⟨.bindDriver ns, .error e⟩] (.error message)
  | unserved (e message : String)
    : Opening ns [⟨.createNamespace ns, .ok ()⟩, ⟨.bindDriver ns, .ok ()⟩, ⟨.waitForDefaultSa ns, .error e⟩] (.error message)
  | opened : Opening ns [⟨.createNamespace ns, .ok ()⟩, ⟨.bindDriver ns, .ok ()⟩, ⟨.waitForDefaultSa ns, .ok ()⟩] (.ok ())

theorem runs_openNs {opened : Except String Unit} (h : Dialog.Runs (openNs ns) answers opened) : Opening ns answers opened := by
  obtain ⟨creating, rest, created, rfl, hcreate, hrest⟩ := Dialog.runs_bind.mp h
  obtain ⟨rfl, rfl⟩ := Dialog.runs_done.mp hrest
  rw [List.append_nil]
  obtain ⟨created, binding, rfl, hbind⟩ := Dialog.runs_call.mp hcreate
  cases created with
  | error e =>
    obtain ⟨rfl, rfl⟩ := Dialog.runs_done.mp hbind
    exact .refused e _
  | ok u =>
    obtain ⟨bound, waiting, rfl, hwait⟩ := Dialog.runs_call.mp hbind
    cases bound with
    | error e =>
      obtain ⟨rfl, rfl⟩ := Dialog.runs_done.mp hwait
      exact .unbound e _
    | ok u =>
      obtain ⟨served, rest, rfl, hdone⟩ := Dialog.runs_ask.mp hwait
      obtain ⟨rfl, rfl⟩ := Dialog.runs_done.mp hdone
      cases created with
      | error e => exact .unserved e _
      | ok u => exact .opened

theorem runs_run {kind : Kind} (h : Dialog.Runs (run kind env item ns) answers (some out))
    : ∃ started opening rest, answers = ⟨.now, started⟩ :: (opening ++ rest) ∧
        ((∃ e now, Opening ns opening (.error e) ∧ rest = [⟨.now, now⟩] ∧
            out = ⟨.spawnError, Libtest.utf8 e, [], now - started⟩) ∨
          Opening ns opening (.ok ()) ∧ Dialog.Runs (body kind env item ns started) rest (some out)) := by
  obtain ⟨started, running, rfl, hrun⟩ := runs_now.mp h
  obtain ⟨opening, rest, opened, rfl, hopen, hrest⟩ := Dialog.runs_bind.mp hrun
  refine ⟨started, opening, rest, rfl, ?_⟩
  cases opened with
  | error e =>
    obtain ⟨out', hout, heq⟩ := runs_map.mp hrest
    cases heq
    obtain ⟨now, rfl, rfl⟩ := runs_spawnError hout
    exact .inl ⟨e, now, runs_openNs hopen, rfl, rfl⟩
  | ok u => exact .inr ⟨runs_openNs hopen, hrest⟩

def Opened (ns : String) (answers : List Answered) : Prop := ⟨.waitForDefaultSa ns, .ok ()⟩ ∈ answers

def asked (answers : List Answered) (q : Ask) : Nat := (answers.map Sigma.fst).count q

@[simp]
theorem asked_nil (q : Ask) : asked [] q = 0 := rfl

@[simp]
theorem asked_append (answers answers' : List Answered) (q : Ask) : asked (answers ++ answers') q = asked answers q + asked answers' q := by
  rw [asked, List.map_append, List.count_append]
  rfl

@[simp]
theorem asked_cons (x : Answered) (answers : List Answered) (q : Ask)
    : asked (x :: answers) q = asked answers q + if x.1 = q then 1 else 0 := by
  simp [asked, List.count_cons]

theorem asked_eq_zero {q : Ask} (h : ∀ x ∈ answers, x.1 ≠ q) : asked answers q = 0 := by
  rw [asked, List.count_eq_zero]
  intro hmem
  obtain ⟨x, hx, rfl⟩ := List.mem_map.mp hmem
  exact h x hx rfl

theorem deletes_of_works {kind : Kind} {q : Ask} (h : kind.works q = true) : q.deletes = false := by
  cases kind <;> cases q <;> first | rfl | cases h

theorem deletes_of_opens {q : Ask} (h : q.opens = true) : q.deletes = false := by cases q <;> first | rfl | cases h

theorem Opening.opens {opened : Except String Unit} (h : Opening ns answers opened) : ∀ x ∈ answers, x.1.opens = true := by
  cases h with
  | refused e => simp [Ask.opens]
  | unbound e => simp [Ask.opens]
  | unserved e => simp [Ask.opens]
  | opened => simp [Ask.opens]

theorem Opening.failed {message : String} (h : Opening ns answers (.error message))
    : ¬Opened ns answers ∧ asked answers (.createNamespace ns) = 1 := by
  cases h with
  | refused e => simp [Opened]
  | unbound e => simp [Opened]
  | unserved e => simp [Opened]

theorem Deleted.asked {noCleanup : Bool} (h : Deleted ns noCleanup answers)
    : asked answers (.deleteNamespace ns) = if noCleanup then 0 else 1 := by
  cases h with
  | kept => rfl
  | failed e => simp [Executor.asked]
  | deleted => simp [Executor.asked]

theorem Deleted.deletes {noCleanup : Bool} (h : Deleted ns noCleanup answers)
    : ∀ x ∈ answers, x.1.deletes = true := by
  cases h with
  | kept => simp
  | failed e => simp [Ask.deletes]
  | deleted => simp [Ask.deletes]

theorem Deleted.asked_eq_zero {noCleanup : Bool} {q : Ask} (h : Deleted ns noCleanup answers) (hq : q.deletes = false)
    : Executor.asked answers q = 0 := by
  apply Executor.asked_eq_zero
  rintro x hx rfl
  rw [h.deletes x hx] at hq
  cases hq

theorem reads_of_deletes {q : Ask} (h : q.deletes = true) : q.reads = false := by cases q <;> first | rfl | cases h

section Trailing

variable {noCleanup : Bool} {rest : List Answered}
  (h : ∀ x ∈ rest, x.1 = .now ∨ noCleanup = false ∧ ∃ name, x.1 = .deletePod name)
include h

theorem trailing_reads : ∀ x ∈ rest, x.1.reads = false := by
  intro x hx
  rcases h x hx with heq | ⟨_, name, heq⟩
  . rw [heq]
    rfl
  . rw [heq]
    rfl

theorem trailing_deletes (hkept : noCleanup = true) : ∀ x ∈ rest, x.1.deletes = false := by
  intro x hx
  rcases h x hx with heq | ⟨hnot, _⟩
  . rw [heq]
    rfl
  . rw [hkept] at hnot
    cases hnot

theorem trailing_asked {q : Ask} (hnow : q ≠ .now) (hpod : ∀ name, q ≠ .deletePod name) : asked rest q = 0 := by
  apply asked_eq_zero
  rintro x hx rfl
  rcases h x hx with heq | ⟨_, name, heq⟩
  . exact hnow heq
  . exact hpod name heq

end Trailing

theorem work_asked {works : Ask → Bool} {q : Ask} (h : ∀ x ∈ answers, works x.1 = true) (hq : works q = false) : asked answers q = 0 := by
  apply asked_eq_zero
  rintro x hx rfl
  rw [h x hx] at hq
  cases hq

theorem opening_asked {q : Ask} (h : Opening ns answers (.ok ())) (hq : q.opens = false) : asked answers q = 0 := by
  apply asked_eq_zero
  rintro x hx rfl
  cases h with
  | opened =>
    simp only [List.mem_cons, List.not_mem_nil, or_false] at hx
    rcases hx with rfl | rfl | rfl <;> cases hq

theorem Closes.asked {works : Ask → Bool} {noCleanup : Bool} {q : Ask} (h : Closes works ns noCleanup answers out)
    (hworks : works q = false) (hnow : q ≠ .now) (hpod : ∀ name, q ≠ .deletePod name)
    : ∃ deleting, Deleted ns noCleanup deleting ∧
        Executor.asked answers q = Executor.asked deleting q + Executor.asked [⟨.deadPodReport ns, []⟩, ⟨.componentLog ns, []⟩] q := by
  obtain ⟨work, dead, components, deleting, rest, rfl, hwork, hdeleted, hrest, _⟩ := h
  refine ⟨deleting, hdeleted, ?_⟩
  simp only [asked_append, asked_cons, asked_nil, work_asked hwork hworks, trailing_asked hrest hnow hpod]
  omega

/--
A run of an executor: the namespace did not open and the run ends there, or it did and the run closes it.
-/
inductive Session (works : Ask → Bool) (ns : String) (noCleanup : Bool) : List Answered → TestOutcome → Prop where
  | unopened {started now : Nat} {opening : List Answered} {message : String} (h : Opening ns opening (.error message))
    : Session works ns noCleanup (⟨.now, started⟩ :: (opening ++ [⟨.now, now⟩]))
        ⟨.spawnError, Libtest.utf8 message, [], now - started⟩
  | opened {started : Nat} {opening rest : List Answered} {out : TestOutcome} (h : Opening ns opening (.ok ()))
    (hcloses : Closes works ns noCleanup rest out) : Session works ns noCleanup (⟨.now, started⟩ :: (opening ++ rest)) out

theorem session_run {kind : Kind} (h : Dialog.Runs (run kind env item ns) answers (some out))
    : Session kind.works ns env.noCleanup answers out := by
  obtain ⟨started, opening, rest, rfl, hrest⟩ := runs_run h
  rcases hrest with ⟨e, now, hopening, rfl, rfl⟩ | ⟨hopening, hbody⟩
  . exact .unopened hopening
  . exact .opened hopening (closes_body hbody)

section Session

variable {kind : Kind} {noCleanup : Bool} (h : Session kind.works ns noCleanup answers out)
include h

theorem Session.asked_createNamespace : asked answers (.createNamespace ns) = 1 := by
  cases h with
  | unopened hopening => simp [hopening.failed.2]
  | opened hopening hcloses =>
    obtain ⟨deleting, hdeleted, hasked⟩ := hcloses.asked (q := .createNamespace ns) (by cases kind <;> rfl) nofun nofun
    rw [hdeleted.asked_eq_zero rfl] at hasked
    cases hopening with
    | opened => simp [hasked]

theorem Session.asked_of_opened (hopened : Opened ns answers)
    : asked answers (.deadPodReport ns) = 1 ∧ asked answers (.componentLog ns) = 1 ∧
        asked answers (.deleteNamespace ns) = if noCleanup then 0 else 1 := by
  cases h with
  | unopened hopening =>
    refine absurd ?_ hopening.failed.1
    simpa [Opened] using hopened
  | opened hopening hcloses =>
    refine ⟨?_, ?_, ?_⟩
    . obtain ⟨deleting, hdeleted, hasked⟩ := hcloses.asked (q := .deadPodReport ns) (by cases kind <;> rfl) nofun nofun
      simp [hasked, hdeleted.asked_eq_zero (q := .deadPodReport ns) rfl, opening_asked hopening (q := .deadPodReport ns) rfl]
    . obtain ⟨deleting, hdeleted, hasked⟩ := hcloses.asked (q := .componentLog ns) (by cases kind <;> rfl) nofun nofun
      simp [hasked, hdeleted.asked_eq_zero (q := .componentLog ns) rfl, opening_asked hopening (q := .componentLog ns) rfl]
    . obtain ⟨deleting, hdeleted, hasked⟩ := hcloses.asked (q := .deleteNamespace ns) (by cases kind <;> rfl) nofun nofun
      simp [hasked, hdeleted.asked, opening_asked hopening (q := .deleteNamespace ns) rfl]

theorem Session.of_not_opened (hopened : ¬Opened ns answers)
    : (∀ x ∈ answers, x.1 = .now ∨ x.1.opens = true) ∧ out.verdict = .spawnError := by
  cases h with
  | unopened hopening =>
    refine ⟨?_, rfl⟩
    simpa [or_imp, forall_and] using fun x hx => Or.inr (hopening.opens x hx)
  | opened hopening hcloses =>
    cases hopening with
    | opened => simp [Opened] at hopened

theorem Session.reads_then_deletes
    : ∃ front back, answers = front ++ back ∧ (∀ x ∈ front, x.1.deletes = false) ∧ (∀ x ∈ back, x.1.reads = false) ∧
        (noCleanup = true → ∀ x ∈ back, x.1.deletes = false) := by
  cases h with
  | @unopened started now opening message hopening =>
    refine ⟨_, [], (List.append_nil _).symm, ?_, by simp, by simp⟩
    simpa [or_imp, forall_and, Ask.deletes] using fun x hx => deletes_of_opens (hopening.opens x hx)
  | @opened started opening rest out hopening hcloses =>
    obtain ⟨work, dead, components, deleting, rest, rfl, hwork, hdeleted, hrest, _⟩ := hcloses
    refine ⟨⟨.now, started⟩ :: (opening ++ (work ++ [⟨.deadPodReport ns, dead⟩, ⟨.componentLog ns, components⟩])),
      deleting ++ rest, by simp, ?_, ?_, ?_⟩
    . simp only [List.mem_cons, List.mem_append, List.not_mem_nil, or_false]
      rintro x (rfl | hx | hx | rfl | rfl)
      . rfl
      . exact deletes_of_opens (hopening.opens x hx)
      . exact deletes_of_works (hwork x hx)
      . rfl
      . rfl
    . intro x hx
      rcases List.mem_append.mp hx with hx | hx
      . exact reads_of_deletes (hdeleted.deletes x hx)
      . exact trailing_reads hrest x hx
    . rintro rfl x hx
      cases hdeleted with
      | kept => exact trailing_deletes hrest rfl x hx

theorem Session.asks
    : ∀ x ∈ answers, x.1 = .now ∨ x.1.opens = true ∨ kind.works x.1 = true ∨ x.1.deletes = true ∨
        x.1 = .deadPodReport ns ∨ x.1 = .componentLog ns := by
  cases h with
  | unopened hopening =>
    simp only [List.mem_cons, List.mem_append, List.not_mem_nil, or_false]
    rintro x (rfl | hx | rfl)
    . exact .inl rfl
    . exact .inr (.inl (hopening.opens x hx))
    . exact .inl rfl
  | opened hopening hcloses =>
    obtain ⟨work, dead, components, deleting, rest, rfl, hwork, hdeleted, hrest, _⟩ := hcloses
    simp only [List.mem_cons, List.mem_append]
    rintro x (rfl | hx | hx | rfl | rfl | hx | hx)
    . exact .inl rfl
    . exact .inr (.inl (hopening.opens x hx))
    . exact .inr (.inr (.inl (hwork x hx)))
    . simp
    . simp
    . exact .inr (.inr (.inr (.inl (hdeleted.deletes x hx))))
    . rcases hrest x hx with heq | ⟨_, name, heq⟩
      . exact .inl heq
      . rw [heq]
        simp [Ask.deletes]

end Session

/--
Whatever the cluster answers, the namespace is requested once. Once it is open it is harvested once and deleted once, after
every read, unless it is to be kept; if it does not open, nothing is read or deleted.
-/
theorem closes_once {kind : Kind} (h : Dialog.Runs (run kind env item ns) answers (some out))
    : asked answers (.createNamespace ns) = 1 ∧
        (Opened ns answers → asked answers (.deadPodReport ns) = 1 ∧ asked answers (.componentLog ns) = 1 ∧
          asked answers (.deleteNamespace ns) = if env.noCleanup then 0 else 1) ∧
        (¬Opened ns answers → (∀ x ∈ answers, x.1 = .now ∨ x.1.opens = true) ∧ out.verdict = .spawnError) ∧
        ∃ front back, answers = front ++ back ∧ (∀ x ∈ front, x.1.deletes = false) ∧ (∀ x ∈ back, x.1.reads = false) ∧
          (env.noCleanup = true → ∀ x ∈ back, x.1.deletes = false) := by
  have hsession := session_run h
  exact ⟨hsession.asked_createNamespace, hsession.asked_of_opened, hsession.of_not_opened, hsession.reads_then_deletes⟩

theorem closes_once_passing
    : ∃ answers, asked answers (.deadPodReport "n") = 1 ∧ asked answers (.componentLog "n") = 1 ∧
        asked answers (.deleteNamespace "n") = 1 := by
  have hrun : Dialog.Runs (run .inProcess ⟨false, true⟩ ⟨"t", "b", 0⟩ "n")
      [⟨.now, 0⟩, ⟨.createNamespace "n", .ok ()⟩, ⟨.bindDriver "n", .ok ()⟩, ⟨.waitForDefaultSa "n", .ok ()⟩,
        ⟨.attachStdio, .ok ()⟩, ⟨.spawn "n", .ok ()⟩, ⟨.race 0, .exited (.ok (some 0))⟩, ⟨.drain, []⟩,
        ⟨.deadPodReport "n", []⟩, ⟨.componentLog "n", []⟩, ⟨.deleteNamespace "n", .ok ()⟩,
        ⟨.deleteSeedBindings "n", ()⟩, ⟨.now, 1⟩]
      (some ⟨.pass, runnerOutput [] "t" [], [], 1⟩) :=
    .ask (.ask (.ask (.ask (.ask (.ask (.ask (.ask (.ask (.ask (.ask (.ask (.ask .done))))))))))))
  exact ⟨_, (closes_once hrun).2.1 (by simp [Opened])⟩

end Run

end Executor
end Engine
