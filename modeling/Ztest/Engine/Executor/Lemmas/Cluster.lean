import Ztest.Engine.Executor.Lemmas.Outcome

namespace Engine
namespace Executor

open Materialize.Watch (Pod PodStatus)

variable {env : EngineEnv} {item : Item} {ns name : String} {started hardCap fuel : Nat}
  {since since' : Option Nat} {answers : List Answered} {out : TestOutcome} {pod : Pod}

section Resources

/--
What of the world is the test's: its namespace, its runner pod, its child process; and the clock.
-/
structure World where
  now : Nat
  ns : Bool
  pod : Bool
  child : Bool

-- The request ends the child: it was seen to exit, or it was killed and reaped.
def EndsChild (x : Answered) : Prop := x.1 = .reap ∨ ∃ hardCap code, x = ⟨.race hardCap, .exited (.ok code)⟩

/--
What happens to the world between two questions: time passes, and what is there may be gone, deleted by others or by
itself.
-/
structure World.Later (w w' : World) : Prop where
  now : w.now ≤ w'.now
  ns : w'.ns = true → w.ns = true
  pod : w'.pod = true → w.pod = true
  child : w'.child = true → w.child = true

/--
What is there after a question was there before and was not deleted by it, or was made by it. A refused request may have made
it all the same.
-/
structure World.Answers (ns name : String) (w : World) (x : Answered) (w' : World) : Prop where
  now : w.now ≤ w'.now
  ns : w'.ns = true → x.1 = .createNamespace ns ∨ w.ns = true ∧ x ≠ ⟨.deleteNamespace ns, .ok ()⟩
  pod : w'.pod = true → (∃ n, x.1 = .createPod name n) ∨ w.pod = true ∧ x ≠ ⟨.deletePod name, .ok ()⟩
  child : w'.child = true → (∃ n, x = ⟨.spawn n, .ok ()⟩) ∨ w.child = true ∧ ¬EndsChild x
  reading : ∀ t, x = ⟨.now, t⟩ → w.now ≤ t ∧ t ≤ w'.now
  slept : x = ⟨.turn, .slept⟩ → w.now + pollInterval ≤ w'.now

def cluster (ns name : String) : Dialog.Contract Ask Ask.Answer World where
  rely := World.Later
  pre _ _ := True
  post w q r w' := w.Answers ns name ⟨q, r⟩ w'
  refl _ := ⟨Nat.le_refl _, id, id, id⟩
  trans h h' := ⟨Nat.le_trans h.now h'.now, fun hns => h.ns (h'.ns hns), fun hpod => h.pod (h'.pod hpod),
    fun hchild => h.child (h'.child hchild)⟩

section Oblige

-- A cluster that does what it says, and nothing else.
def World.oblige (ns name : String) (w : World) : Answered → World
  | ⟨.now, t⟩ => { w with now := t }
  | ⟨.turn, .slept⟩ => { w with now := w.now + pollInterval }
  | ⟨.createNamespace n, .ok ()⟩ => { w with ns := w.ns || n = ns }
  | ⟨.deleteNamespace n, .ok ()⟩ => { w with ns := w.ns && n ≠ ns }
  | ⟨.createPod n _, .ok ()⟩ => { w with pod := w.pod || n = name }
  | ⟨.deletePod n, .ok ()⟩ => { w with pod := w.pod && n ≠ name }
  | ⟨.spawn _, .ok ()⟩ => { w with child := true }
  | ⟨.reap, ()⟩ => { w with child := false }
  | ⟨.race _, .exited (.ok _)⟩ => { w with child := false }
  | _ => w

def World.inOrder (ns name : String) (w : World) : List Answered → Bool
  | [] => true
  | ⟨.now, t⟩ :: rest => w.now ≤ t && (w.oblige ns name ⟨.now, t⟩).inOrder ns name rest
  | x :: rest => (w.oblige ns name x).inOrder ns name rest

theorem World.Later.refl (w : World) : w.Later w := ⟨Nat.le_refl _, id, id, id⟩

theorem World.oblige_answers {w : World} {x : Answered} (h : ∀ t, x = ⟨.now, t⟩ → w.now ≤ t)
    : w.Answers ns name x (w.oblige ns name x) := by
  rcases x with ⟨q, r⟩
  cases q with
  | now =>
    have := h r rfl
    constructor <;> simp [World.oblige, EndsChild, this]
  | turn => cases r <;> constructor <;> simp [World.oblige, EndsChild]
  | createNamespace n => rcases r with _ | ⟨⟨⟩⟩ <;> constructor <;> simp +contextual [World.oblige, EndsChild, or_comm]
  | deleteNamespace n => rcases r with _ | ⟨⟨⟩⟩ <;> constructor <;> simp +contextual [World.oblige, EndsChild]
  | createPod n m => rcases r with _ | ⟨⟨⟩⟩ <;> constructor <;> simp +contextual [World.oblige, EndsChild, or_comm]
  | deletePod n => rcases r with _ | ⟨⟨⟩⟩ <;> constructor <;> simp +contextual [World.oblige, EndsChild]
  | spawn n => rcases r with _ | ⟨⟨⟩⟩ <;> constructor <;> simp [World.oblige, EndsChild]
  | race n => rcases r with (_ | _) | _ | _ <;> constructor <;> simp [World.oblige, EndsChild]
  | _ => constructor <;> simp [World.oblige, EndsChild]

theorem World.inOrder_cons {w : World} {x : Answered} {answers : List Answered}
    (h : w.inOrder ns name (x :: answers) = true)
    : (∀ t, x = ⟨.now, t⟩ → w.now ≤ t) ∧ (w.oblige ns name x).inOrder ns name answers = true := by
  unfold World.inOrder at h
  split at h
  . next heq => cases heq
  . next t rest heq =>
    cases heq
    rw [Bool.and_eq_true, decide_eq_true_eq] at h
    refine ⟨?_, h.2⟩
    intro t' heq
    cases heq
    exact h.1
  . next hother heq =>
    cases heq
    exact ⟨fun t heq => absurd heq (hother t), h⟩

theorem plays_oblige {α : Type} {d : Program α} {a : α} (ns name : String) (h : Dialog.Runs d answers a) {w : World}
    (horder : w.inOrder ns name answers = true)
    : Dialog.Plays (cluster ns name) d w answers a (answers.foldl (World.oblige ns name) w) := by
  induction h generalizing w with
  | done => exact .done (.refl w)
  | ask _ ih =>
    rcases World.inOrder_cons horder with ⟨hnow, hrest⟩
    exact .ask (.refl w) (World.oblige_answers hnow) (ih hrest)

end Oblige

variable {kind : Kind} {w w' : World}

def Refused : Answered → Prop
  | ⟨.createNamespace _, .error _⟩ | ⟨.bindDriver _, .error _⟩ | ⟨.waitForDefaultSa _, .error _⟩ => True
  | ⟨.createPod .., .error _⟩ | ⟨.deleteNamespace _, .error _⟩ | ⟨.deletePod _, .error _⟩ => True
  | ⟨.race _, .exited (.error _)⟩ => True
  | _ => False

theorem suffix_of_notMem {α : Type} {l before after front back : List α} {x : α} (h : l = before ++ x :: after)
    (h' : l = front ++ back) (hx : x ∉ back) : back <:+ after := by
  rw [h] at h'
  rcases List.append_eq_append_iff.mp h' with ⟨mid, _, hafter⟩ | ⟨mid, _, hback⟩
  . cases mid with
    | nil =>
      rw [List.nil_append] at hafter
      rw [← hafter] at hx
      exact absurd List.mem_cons_self hx
    | cons y mid =>
      rw [List.cons_append, List.cons.injEq] at hafter
      exact ⟨mid, hafter.2.symm⟩
  . rw [hback] at hx
    exact absurd (List.mem_append_right mid List.mem_cons_self) hx

theorem Opening.exists_refused {message : String} (h : Opening ns answers (.error message))
    : ∃ x ∈ answers, Refused x ∧ x.1.opens = true := by
  cases h with
  | refused e => exact ⟨_, List.mem_singleton_self _, trivial, rfl⟩
  | unbound e => exact ⟨⟨.bindDriver ns, .error e⟩, by simp, trivial, rfl⟩
  | unserved e => exact ⟨⟨.waitForDefaultSa ns, .error e⟩, by simp, trivial, rfl⟩

section Made

variable {a : Option TestOutcome} (h : Dialog.Plays (cluster ns name) (run kind env item ns) w answers a w')
include h

theorem ns_made (hfresh : w.ns = false) (hend : w'.ns = true)
    : ∃ before x after, answers = before ++ x :: after ∧ x.1 = .createNamespace ns ∧
        ∀ y ∈ after, ¬y = ⟨.deleteNamespace ns, .ok ()⟩ := by
  rcases h.exists_made (fun w => w.ns = true) (fun x => x.1 = .createNamespace ns) (fun x => x = ⟨.deleteNamespace ns, .ok ()⟩)
    (fun _ _ hlater => hlater.ns) (fun _ _ _ _ hanswers => hanswers.ns) hend with ⟨hthere, _⟩ | hmade
  . rw [hfresh] at hthere
    cases hthere
  . exact hmade

theorem pod_made (hfresh : w.pod = false) (hend : w'.pod = true)
    : ∃ before x after, answers = before ++ x :: after ∧ (∃ n, x.1 = .createPod name n) ∧
        ∀ y ∈ after, ¬y = ⟨.deletePod name, .ok ()⟩ := by
  rcases h.exists_made (fun w => w.pod = true) (fun x => ∃ n, x.1 = .createPod name n) (fun x => x = ⟨.deletePod name, .ok ()⟩)
    (fun _ _ hlater => hlater.pod) (fun _ _ _ _ hanswers => hanswers.pod) hend with ⟨hthere, _⟩ | hmade
  . rw [hfresh] at hthere
    cases hthere
  . exact hmade

theorem child_made (hfresh : w.child = false) (hend : w'.child = true)
    : ∃ before x after, answers = before ++ x :: after ∧ (∃ n, x = ⟨.spawn n, .ok ()⟩) ∧ ∀ y ∈ after, ¬EndsChild y := by
  rcases h.exists_made (fun w => w.child = true) (fun x => ∃ n, x = ⟨.spawn n, .ok ()⟩) EndsChild
    (fun _ _ hlater => hlater.child) (fun _ _ _ _ hanswers => hanswers.child) hend with ⟨hthere, _⟩ | hmade
  . rw [hfresh] at hthere
    cases hthere
  . exact hmade

end Made

theorem Session.namespace_left {noCleanup : Bool} {before after : List Answered} {x : Answered}
    (h : Session kind.works ns noCleanup answers out) (heq : answers = before ++ x :: after) (hx : x.1 = .createNamespace ns)
    (hafter : ∀ y ∈ after, ¬y = ⟨.deleteNamespace ns, .ok ()⟩)
    : noCleanup = true ∨ ∃ x ∈ answers, Refused x ∧ (x.1.opens = true ∨ x.1 = .deleteNamespace ns) := by
  cases h with
  | @unopened started now opening message hopening =>
    obtain ⟨y, hy, hrefused, hopens⟩ := hopening.exists_refused
    exact .inr ⟨y, List.mem_cons_of_mem _ (List.mem_append_left _ hy), hrefused, .inl hopens⟩
  | @opened started opening rest out hopening hcloses =>
    have hnot : x ∉ rest := by
      intro hmem
      obtain ⟨deleting, hdeleted, hasked⟩ := hcloses.asked (q := .createNamespace ns) (by cases kind <;> rfl) nofun nofun
      rw [hdeleted.asked_eq_zero rfl] at hasked
      exact List.count_eq_zero.mp hasked (hx ▸ List.mem_map_of_mem hmem)
    have hsplit : ⟨.now, started⟩ :: (opening ++ rest) = (⟨.now, started⟩ :: opening) ++ rest := rfl
    have hsuffix := suffix_of_notMem heq hsplit hnot
    obtain ⟨work, dead, components, deleting, trailing, rfl, _, hdeleted, _⟩ := hcloses
    cases hdeleted with
    | kept => exact .inl rfl
    | failed e => exact .inr ⟨⟨.deleteNamespace ns, .error e⟩, by simp, trivial, .inr rfl⟩
    | deleted => exact absurd rfl (hafter _ (hsuffix.mem (by simp)))

theorem settle_deletes {ended : Done} (h : Dialog.Runs (settle env item ns name started ended) answers out)
    : (∀ x ∈ answers, ∀ n m, x.1 ≠ .createPod n m) ∧ (env.noCleanup = true ∨ ∃ r, ⟨.deletePod name, r⟩ ∈ answers) := by
  obtain ⟨logs, dead, components, deleting, runner, now, rfl, hdeleted, hrunner, _⟩ := runs_settle h
  constructor
  . intro x hx n m heq
    simp only [List.mem_append, List.mem_cons, List.not_mem_nil, or_false] at hx
    rcases hx with rfl | rfl | rfl | hx | hx | rfl
    . cases heq
    . cases heq
    . cases heq
    . have := hdeleted.deletes x hx
      rw [heq] at this
      cases this
    . rcases hrunner with ⟨_, rfl⟩ | ⟨_, r, rfl⟩
      . cases hx
      . rw [List.mem_singleton.mp hx] at heq
        cases heq
    . cases heq
  . rcases hrunner with ⟨hkept, _⟩ | ⟨_, r, rfl⟩
    . exact .inl hkept
    . exact .inr ⟨r, by simp⟩

theorem runner_left {before after : List Answered} {x : Answered}
    (h : Dialog.Runs (run (.inPod name fuel) env item ns) answers (some out)) (heq : answers = before ++ x :: after)
    (hx : ∃ n, x.1 = .createPod name n) (hafter : ∀ y ∈ after, ¬y = ⟨.deletePod name, .ok ()⟩)
    : env.noCleanup = true ∨ ∃ x ∈ answers, Refused x ∧ (x.1 = .createPod name ns ∨ x.1 = .deletePod name) := by
  obtain ⟨started, opening, rest, rfl, hrest⟩ := runs_run h
  obtain ⟨n, hx⟩ := hx
  have hopening' {opened : Except String Unit} (hopening : Opening ns opening opened) : x ∉ opening := by
    intro hmem
    have := hopening.opens x hmem
    rw [hx] at this
    cases this
  rcases hrest with ⟨e, now, hopening, rfl, rfl⟩ | ⟨hopening, hbody⟩
  . have hmem : x ∈ (⟨.now, started⟩ :: (opening ++ [⟨.now, now⟩]) : List Answered) := heq ▸ by simp
    rcases List.mem_cons.mp hmem with rfl | hmem
    . cases hx
    . rcases List.mem_append.mp hmem with hmem | hmem
      . exact absurd hmem (hopening' hopening)
      . rw [List.mem_singleton.mp hmem] at hx
        cases hx
  . cases runs_podRun hbody with
    | @uncreated e => exact .inr ⟨⟨.createPod name ns, .error e⟩, by simp, trivial, .inl rfl⟩
    | @waited waiting settling ended out hwait hsettle =>
      obtain ⟨hnot, hkept | ⟨r, hr⟩⟩ := settle_deletes hsettle
      . exact .inl hkept
      . cases r with
        | error e => exact .inr ⟨⟨.deletePod name, .error e⟩, by simp [hr], trivial, .inr rfl⟩
        | ok u =>
          have hback : x ∉ waiting ++ settling := by
            intro hmem
            rcases List.mem_append.mp hmem with hmem | hmem
            . have hawaits := hwait.asks (asks_await _ _ _ _ _) x hmem
              rw [Within, hx] at hawaits
              cases hawaits
            . exact hnot x hmem name n hx
          have hsplit : ⟨.now, started⟩ :: (opening ++ ⟨.createPod name ns, .ok ()⟩ :: (waiting ++ settling)) =
              (⟨.now, started⟩ :: (opening ++ [⟨.createPod name ns, .ok ()⟩])) ++ (waiting ++ settling) := by simp
          have hsuffix := suffix_of_notMem heq hsplit hback
          exact absurd rfl (hafter _ (hsuffix.mem (List.mem_append_right waiting hr)))

theorem runs_raceChild {verdict : Verdict} (h : Dialog.Runs (raceChild hardCap) answers verdict)
    : (∀ x ∈ answers, ∀ n, x.1 ≠ .spawn n) ∧
        ((∃ y ∈ answers, EndsChild y) ∨ ∃ e, ⟨.race hardCap, .exited (.error e)⟩ ∈ answers) := by
  obtain ⟨race, rest, rfl, hrest⟩ := Dialog.runs_call.mp h
  have hkill {v : Verdict} (hrest : Dialog.Runs (kill >>= fun _ => .done v) rest verdict)
      : rest = [⟨.killGroup, ()⟩, ⟨.reap, ()⟩] := by
    obtain ⟨killing, ending, u, rfl, hkilled, hending⟩ := Dialog.runs_bind.mp hrest
    obtain ⟨u, reaping, rfl, hreap⟩ := Dialog.runs_call.mp hkilled
    obtain ⟨u, last, rfl, hlast⟩ := Dialog.runs_ask.mp hreap
    obtain ⟨rfl, _⟩ := Dialog.runs_done.mp hlast
    obtain ⟨rfl, _⟩ := Dialog.runs_done.mp hending
    rfl
  cases race with
  | exited status =>
    obtain ⟨rfl, rfl⟩ := Dialog.runs_done.mp hrest
    refine ⟨by simp, ?_⟩
    cases status with
    | error e => exact .inr ⟨e, List.mem_singleton_self _⟩
    | ok code => exact .inl ⟨_, List.mem_singleton_self _, .inr ⟨hardCap, code, rfl⟩⟩
  | capped =>
    rw [hkill hrest]
    exact ⟨by simp, .inl ⟨⟨.reap, ()⟩, by simp, .inl rfl⟩⟩
  | cancelled =>
    rw [hkill hrest]
    exact ⟨by simp, .inl ⟨⟨.reap, ()⟩, by simp, .inl rfl⟩⟩

/--
`spawnTest`: there is no child, or it was spawned and waited for.
-/
theorem runs_spawnTest {result : Verdict × Bytes} (h : Dialog.Runs (spawnTest env item ns) answers result)
    : (∀ x ∈ answers, ∀ n, x ≠ ⟨.spawn n, .ok ()⟩) ∨
        ∃ front back, answers = front ++ back ∧ (∀ x ∈ back, ∀ n, x.1 ≠ .spawn n) ∧
          ((∃ y ∈ back, EndsChild y) ∨ ∃ e, ⟨.race item.hardCap, .exited (.error e)⟩ ∈ back) := by
  obtain ⟨attaching, rest, attached, rfl, hattach, hrest⟩ := Dialog.runs_bind.mp h
  have hattaching : ∀ x ∈ attaching, x.1 = .attachStdio := by
    unfold attach at hattach
    split at hattach
    . obtain ⟨r, last, rfl, hlast⟩ := Dialog.runs_ask.mp hattach
      obtain ⟨rfl, _⟩ := Dialog.runs_done.mp hlast
      simp
    . obtain ⟨rfl, _⟩ := Dialog.runs_done.mp hattach
      simp
  have hattaching' : ∀ x ∈ attaching, ∀ n, x ≠ ⟨.spawn n, .ok ()⟩ := by
    rintro x hx n rfl
    cases hattaching _ hx
  cases attached with
  | error e =>
    obtain ⟨rfl, _⟩ := Dialog.runs_done.mp hrest
    rw [List.append_nil]
    exact .inl hattaching'
  | ok u =>
    obtain ⟨spawned, running, rfl, hrun⟩ := Dialog.runs_call.mp hrest
    cases spawned with
    | error e =>
      obtain ⟨rfl, _⟩ := Dialog.runs_done.mp hrun
      refine .inl ?_
      intro x hx
      rcases List.mem_append.mp hx with hx | hx
      . exact hattaching' x hx
      . rw [List.mem_singleton.mp hx]
        nofun
    | ok u =>
      obtain ⟨racing, collecting, verdict, rfl, hrace, hcollect⟩ := Dialog.runs_bind.mp hrun
      obtain ⟨draining, last, output, rfl, hdrain, hlast⟩ := Dialog.runs_bind.mp hcollect
      obtain ⟨rfl, _⟩ := Dialog.runs_done.mp hlast
      obtain ⟨hnot, hends⟩ := runs_raceChild hrace
      have hdraining : ∀ x ∈ draining, ∀ n, x.1 ≠ .spawn n := by
        unfold collect at hdrain
        split at hdrain
        . obtain ⟨r, last, rfl, hlast⟩ := Dialog.runs_ask.mp hdrain
          obtain ⟨rfl, _⟩ := Dialog.runs_done.mp hlast
          simp
        . obtain ⟨rfl, _⟩ := Dialog.runs_done.mp hdrain
          simp
      refine .inr ⟨attaching ++ [⟨.spawn ns, .ok u⟩], racing ++ draining, by simp, ?_, ?_⟩
      . intro x hx
        rcases List.mem_append.mp hx with hx | hx
        . exact hnot x hx
        . exact hdraining x hx
      . rcases hends with ⟨y, hy, hends⟩ | ⟨e, he⟩
        . exact .inl ⟨y, List.mem_append_left _ hy, hends⟩
        . exact .inr ⟨e, List.mem_append_left _ he⟩

theorem child_left {before after : List Answered} {x : Answered}
    (h : Dialog.Runs (run .inProcess env item ns) answers (some out)) (heq : answers = before ++ x :: after)
    (hx : ∃ n, x = ⟨.spawn n, .ok ()⟩) (hafter : ∀ y ∈ after, ¬EndsChild y)
    : ∃ e, ⟨.race item.hardCap, .exited (.error e)⟩ ∈ answers := by
  obtain ⟨n, rfl⟩ := hx
  obtain ⟨started, opening, rest, rfl, hrest⟩ := runs_run h
  have hmem : (⟨.spawn n, .ok ()⟩ : Answered) ∈ (⟨.now, started⟩ :: (opening ++ rest) : List Answered) := heq ▸ by simp
  have hopening' {opened : Except String Unit} (hopening : Opening ns opening opened) : (⟨.spawn n, .ok ()⟩ : Answered) ∉ opening :=
    fun hmem => nomatch hopening.opens _ hmem
  rcases hrest with ⟨e, now, hopening, rfl, rfl⟩ | ⟨hopening, hbody⟩
  . simp [hopening' hopening] at hmem
  . obtain ⟨out', hout, hsome⟩ := runs_map.mp hbody
    obtain ⟨work, ending, result, rfl, hspawn, hending⟩ := Dialog.runs_bind.mp hout
    have hending' : ∀ x ∈ ending, ∀ n, x.1 ≠ .spawn n := by
      obtain ⟨closing, last, harvest, rfl, hclose, hlast⟩ := Dialog.runs_bind.mp hending
      obtain ⟨now, rest, rfl, hdone⟩ := runs_now.mp hlast
      obtain ⟨rfl, _⟩ := Dialog.runs_done.mp hdone
      obtain ⟨deleting, rfl, hdeleted⟩ := runs_closeNs hclose
      intro x hx n hn
      simp only [List.mem_append, List.mem_cons, List.not_mem_nil, or_false] at hx
      rcases hx with (rfl | rfl | hx) | rfl
      . cases hn
      . cases hn
      . have := hdeleted.deletes x hx
        rw [hn] at this
        cases this
      . cases hn
    rcases runs_spawnTest hspawn with hnone | ⟨front, back, rfl, hback, hends⟩
    . rcases List.mem_cons.mp hmem with hmem | hmem
      . cases hmem
      . rcases List.mem_append.mp hmem with hmem | hmem
        . exact absurd hmem (hopening' hopening)
        . rcases List.mem_append.mp hmem with hmem | hmem
          . exact absurd rfl (hnone _ hmem n)
          . exact absurd rfl (hending' _ hmem n)
    . have hnot : (⟨.spawn n, .ok ()⟩ : Answered) ∉ back ++ ending := by
        intro hmem
        rcases List.mem_append.mp hmem with hmem | hmem
        . exact hback _ hmem n rfl
        . exact hending' _ hmem n rfl
      have hsplit : ⟨.now, started⟩ :: (opening ++ (front ++ back ++ ending)) =
          (⟨.now, started⟩ :: (opening ++ front)) ++ (back ++ ending) := by simp
      have hsuffix := suffix_of_notMem heq hsplit hnot
      rcases hends with ⟨y, hy, hends⟩ | ⟨e, he⟩
      . exact absurd hends (hafter y (hsuffix.mem (List.mem_append_left _ hy)))
      . exact ⟨e, by simp [he]⟩

theorem Session.not_createPod {noCleanup : Bool} (h : Session (Kind.works .inProcess) ns noCleanup answers out)
    : ∀ x ∈ answers, ∀ name n, x.1 ≠ .createPod name n := by
  intro x hx name n heq
  have := h.asks x hx
  rw [heq] at this
  simp [Ask.opens, Ask.deletes, Kind.works, Ask.worksChild] at this

theorem Session.not_spawn {noCleanup : Bool} (h : Session (Kind.works (.inPod name fuel)) ns noCleanup answers out)
    : ∀ x ∈ answers, ∀ n, x.1 ≠ .spawn n := by
  intro x hx n heq
  have := h.asks x hx
  rw [heq] at this
  simp [Ask.opens, Ask.deletes, Kind.works, Ask.worksPod, Ask.awaits] at this

/--
A finished run leaves nothing of the test behind, whatever else happens in the cluster, unless it was told to, or a request
about what is left was refused.
-/
theorem leaves_nothing (h : Dialog.Plays (cluster ns name) (run kind env item ns) w answers (some out) w')
    (hname : ∀ n fuel, kind = .inPod n fuel → n = name) (hns : w.ns = false) (hpod : w.pod = false) (hchild : w.child = false)
    : (w'.ns = true → env.noCleanup = true ∨ ∃ x ∈ answers, Refused x ∧ (x.1.opens = true ∨ x.1 = .deleteNamespace ns)) ∧
        (w'.pod = true → env.noCleanup = true ∨
          ∃ x ∈ answers, Refused x ∧ (x.1 = .createPod name ns ∨ x.1 = .deletePod name)) ∧
        (w'.child = true → ∃ e, ⟨.race item.hardCap, .exited (.error e)⟩ ∈ answers) := by
  refine ⟨?_, ?_, ?_⟩
  . intro hend
    obtain ⟨before, x, after, heq, hx, hafter⟩ := ns_made h hns hend
    exact (session_run h.runs).namespace_left heq hx hafter
  . intro hend
    obtain ⟨before, x, after, heq, hx, hafter⟩ := pod_made h hpod hend
    cases kind with
    | inPod n fuel =>
      obtain rfl := hname n fuel rfl
      exact runner_left h.runs heq hx hafter
    | inProcess =>
      obtain ⟨n, hx⟩ := hx
      have hmem : x ∈ answers := heq ▸ by simp
      exact absurd hx ((session_run h.runs).not_createPod x hmem name n)
  . intro hend
    obtain ⟨before, x, after, heq, hx, hafter⟩ := child_made h hchild hend
    cases kind with
    | inPod n fuel =>
      obtain ⟨m, rfl⟩ := hx
      have hmem : (⟨.spawn m, .ok ()⟩ : Answered) ∈ answers := heq ▸ by simp
      exact absurd rfl ((session_run h.runs).not_spawn _ hmem m)
    | inProcess => exact child_left h.runs heq hx hafter

def undeleted : List Answered :=
  [⟨.now, 0⟩, ⟨.createNamespace "n", .ok ()⟩, ⟨.bindDriver "n", .ok ()⟩, ⟨.waitForDefaultSa "n", .ok ()⟩,
    ⟨.createPod "p" "n", .ok ()⟩, ⟨.turn, .slept⟩, ⟨.getPod "p", some ⟨none, some ⟨some "Succeeded", none, none⟩⟩⟩,
    ⟨.podLogs "p", .ok []⟩, ⟨.deadPodReport "n", []⟩, ⟨.componentLog "n", []⟩, ⟨.deleteNamespace "n", .ok ()⟩,
    ⟨.deleteSeedBindings "n", ()⟩, ⟨.deletePod "p", .error "timed out"⟩, ⟨.now, 300000000⟩]

theorem leaves_nothing_undeleted
    : ∃ out w', Dialog.Plays (cluster "n" "p") (run (.inPod "p" 1) ⟨false, true⟩ ⟨"t", "b", pollInterval⟩ "n")
          ⟨0, false, false, false⟩ undeleted (some out) w' ∧
        out.verdict = .pass ∧ w'.ns = false ∧ w'.pod = true ∧
        ∃ x ∈ undeleted, Refused x ∧ (x.1 = .createPod "p" "n" ∨ x.1 = .deletePod "p") := by
  have hrun : Dialog.Runs (run (.inPod "p" 1) ⟨false, true⟩ ⟨"t", "b", pollInterval⟩ "n") undeleted
      (some ⟨.pass, runnerOutput [] "t" [], [], 300000000⟩) :=
    .ask (.ask (.ask (.ask (.ask (.ask (.ask (.ask (.ask (.ask (.ask (.ask (.ask (.ask .done)))))))))))))
  have hplays := plays_oblige "n" "p" hrun (w := ⟨0, false, false, false⟩) (by decide)
  have hleft := leaves_nothing hplays (by rintro _ _ ⟨⟩; rfl) rfl rfl rfl
  exact ⟨_, _, hplays, rfl, rfl, rfl, (hleft.2.1 rfl).resolve_left nofun⟩

end Resources

section Clock

def isSlept : Answered → Bool
  | ⟨.turn, .slept⟩ => true
  | _ => false

def slept (answers : List Answered) : Nat := answers.countP isSlept

theorem slept_append (answers answers' : List Answered) : slept (answers ++ answers') = slept answers + slept answers' :=
  List.countP_append

@[simp]
theorem slept_nil : slept [] = 0 := rfl

theorem slept_cons (x : Answered) (answers : List Answered) : slept (x :: answers) = slept answers + if isSlept x then 1 else 0 :=
  List.countP_cons

theorem slept_eq_zero (h : ∀ x ∈ answers, Outside x) : slept answers = 0 := by
  rw [slept, List.countP_eq_zero]
  rintro ⟨q, r⟩ hx
  have := (h _ hx).2
  cases q <;> first | exact absurd rfl this | simp [isSlept]

/--
Every reading of the clock is as late as the sleeps before it make it.
-/
def Clocked (start : Nat) (answers : List Answered) : Prop :=
  ∀ before t after, answers = before ++ ⟨.now, t⟩ :: after → start + pollInterval * slept before ≤ t

variable {start : Nat}

theorem Clocked.mono {start' : Nat} (h : Clocked start' answers) (hle : start ≤ start') : Clocked start answers := by
  intro before t after heq
  have := h before t after heq
  omega

theorem Clocked.left {answers' : List Answered} (h : Clocked start (answers ++ answers')) : Clocked start answers := by
  intro before t after heq
  exact h before t (after ++ answers') (by simp [heq])

theorem Clocked.right {answers' : List Answered} (h : Clocked start (answers ++ answers'))
    : Clocked (start + pollInterval * slept answers) answers' := by
  intro before t after heq
  have := h (answers ++ before) t after (by simp [heq])
  rw [slept_append, Nat.mul_add] at this
  omega

theorem clocked_plays {α : Type} {d : Program α} {a : α} {w w' : World} (h : Dialog.Plays (cluster ns name) d w answers a w')
    : Clocked w.now answers := by
  induction h with
  | done => exact fun before t after heq => by simp at heq
  | @ask q k r rest a w w₁ w₂ w' hlater hanswers _ ih =>
    intro before t after heq
    have hnow := hlater.now
    cases before with
    | nil =>
      rw [List.nil_append, List.cons.injEq] at heq
      have := (hanswers.reading t heq.1).1
      simp only [slept, List.countP_nil]
      omega
    | cons x before =>
      rw [List.cons_append, List.cons.injEq] at heq
      have hrest := ih before t after heq.2
      have hmono := hanswers.now
      rw [slept_cons, Nat.mul_add]
      by_cases hslept : isSlept x = true
      . have hx : x = ⟨.turn, .slept⟩ := by
          unfold isSlept at hslept
          split at hslept
          . rfl
          . cases hslept
        have := hanswers.slept (heq.1.trans hx)
        rw [if_pos hslept]
        omega
      . rw [if_neg hslept]
        omega

theorem Polled.slept_le {polled : Except Done (Option Nat)} (h : Polled name started hardCap since answers polled)
    : slept answers ≤ 1 := by
  have hlooking {looking : List Answered} {judged : Except TerminalState (Option Nat)} (hlook : Looked name since looking judged)
      : slept looking = 0 := by
    cases hlook with
    | failed => rfl
    | answered hjudged =>
      rw [slept_cons, slept_eq_zero hjudged.outside]
      rfl
  cases h with
  | cancelled => simp [slept, isSlept]
  | reached hlook => simp [slept_cons, hlooking hlook, isSlept]
  | timeout hlook => simp [slept_cons, slept_append, hlooking hlook, isSlept]
  | again hlook => simp [slept_cons, slept_append, hlooking hlook, isSlept]

theorem Polled.again_clocked (h : Polled name started hardCap since answers (.ok since')) (hclocked : Clocked start answers)
    : slept answers = 1 ∧ start + pollInterval < started + hardCap := by
  have hle := h.slept_le
  cases h with
  | @again looking since' now hlook hcap =>
    have hreading := hclocked (⟨.turn, .slept⟩ :: looking) now [] (by simp)
    simp only [slept_cons, slept_append, isSlept, if_true] at hle hreading ⊢
    constructor
    . omega
    . have : pollInterval ≤ pollInterval * (slept looking + 1) := Nat.le_mul_of_pos_right _ (Nat.succ_pos _)
      omega

/--
The wait sleeps until the cap at most, and its turns are used up only before the cap.
-/
theorem slept_await {ended : Option Done} (h : Dialog.Runs (await name started hardCap fuel since) answers ended)
    (hclocked : Clocked start answers) (hstart : started ≤ start) (hcap : start < started + max hardCap 1)
    : start + pollInterval * slept answers < started + max hardCap 1 + pollInterval ∧
        (ended = none → start + pollInterval * fuel < started + max hardCap 1) := by
  induction fuel generalizing since answers start with
  | zero =>
    obtain ⟨rfl, rfl⟩ := Dialog.runs_done.mp h
    simp only [slept, List.countP_nil]
    omega
  | succ fuel ih =>
    obtain ⟨turn, rest, polled, rfl, hturn, hrest⟩ := Dialog.runs_bind.mp h
    have hpolled := runs_poll hturn
    cases polled with
    | error d =>
      obtain ⟨rfl, rfl⟩ := Dialog.runs_done.mp hrest
      have hle := Nat.mul_le_mul_left pollInterval hpolled.slept_le
      rw [List.append_nil]
      exact ⟨by omega, nofun⟩
    | ok since' =>
      obtain ⟨hslept, hbefore⟩ := hpolled.again_clocked hclocked.left
      have hclocked' := hclocked.right
      rw [hslept, Nat.mul_one] at hclocked'
      obtain ⟨hle, hnone⟩ := ih hrest hclocked' (by omega) (by omega)
      rw [slept_append, hslept, Nat.mul_add, Nat.mul_one]
      refine ⟨by omega, fun hended => ?_⟩
      have := hnone hended
      rw [Nat.mul_succ]
      omega

theorem runs_none (h : Dialog.Runs (run (.inPod name fuel) env item ns) answers none)
    : ∃ started front waiting, answers = ⟨.now, started⟩ :: (front ++ waiting) ∧ (∀ x ∈ front, Outside x) ∧
        Dialog.Runs (await name started item.hardCap fuel none) waiting none := by
  obtain ⟨started, running, rfl, hrun⟩ := runs_now.mp h
  obtain ⟨opening, rest, opened, rfl, hopen, hrest⟩ := Dialog.runs_bind.mp hrun
  have hopening := runs_openNs hopen
  cases opened with
  | error e =>
    obtain ⟨out, _, hnone⟩ := runs_map.mp hrest
    cases hnone
  | ok u =>
    obtain ⟨created, running, rfl, hcreated⟩ := Dialog.runs_call.mp hrest
    cases created with
    | error e =>
      obtain ⟨closing, ending, harvest, rfl, _, hending⟩ := Dialog.runs_bind.mp hcreated
      obtain ⟨out, _, hnone⟩ := runs_map.mp hending
      cases hnone
    | ok u =>
      obtain ⟨waiting, ending, ended, rfl, hwait, hending⟩ := Dialog.runs_bind.mp hcreated
      cases ended with
      | some ended =>
        obtain ⟨out, _, hnone⟩ := runs_map.mp hending
        cases hnone
      | none =>
        obtain ⟨rfl, _⟩ := Dialog.runs_done.mp hending
        refine ⟨started, opening ++ [⟨.createPod name ns, .ok u⟩], waiting, by simp, ?_, hwait⟩
        intro x hx
        rcases List.mem_append.mp hx with hx | hx
        . exact hopening.outside x hx
        . rw [List.mem_singleton.mp hx]
          exact ⟨rfl, nofun⟩

theorem slept_waiting {w w' : World} {o : Option TestOutcome} {front waiting after : List Answered} {ended : Option Done}
    (h : Dialog.Plays (cluster ns name) (run (.inPod name fuel) env item ns) w answers o w')
    (heq : answers = ⟨.now, started⟩ :: (front ++ (waiting ++ after))) (hfront : ∀ x ∈ front, Outside x)
    (hwait : Dialog.Runs (await name started item.hardCap fuel none) waiting ended)
    : slept waiting ≤ item.hardCap / pollInterval + 1 ∧ (ended = none → fuel ≤ item.hardCap / pollInterval) := by
  obtain ⟨started', rest, w₁, w₂, heq', _, hanswers, hrest⟩ := Dialog.plays_ask.mp h
  rw [heq, List.cons.injEq] at heq'
  obtain ⟨hstarted, rfl⟩ := heq'
  have hreading := (hanswers.reading started hstarted.symm).2
  have hclocked := ((clocked_plays hrest).mono hreading).right
  rw [slept_eq_zero hfront, Nat.mul_zero, Nat.add_zero] at hclocked
  obtain ⟨hle, hnone⟩ := slept_await hwait hclocked.left (Nat.le_refl _) (by omega)
  have hpoll : pollInterval = 250000000 := rfl
  rw [hpoll] at hle hnone ⊢
  exact ⟨by omega, fun hended => by have := hnone hended; omega⟩

/--
A wait for a pod ends: it sleeps once more than fits in the hard cap at most, and with turns for that the run has an outcome.
-/
theorem inPod_returns {w w' : World} {o : Option TestOutcome}
    (h : Dialog.Plays (cluster ns name) (run (.inPod name fuel) env item ns) w answers o w')
    : slept answers ≤ item.hardCap / pollInterval + 1 ∧ (item.hardCap / pollInterval < fuel → o ≠ none) := by
  cases o with
  | none =>
    obtain ⟨started, front, waiting, rfl, hfront, hwait⟩ := runs_none h.runs
    have heq : (⟨.now, started⟩ :: (front ++ waiting) : List Answered) = ⟨.now, started⟩ :: (front ++ (waiting ++ [])) := by simp
    obtain ⟨hle, hnone⟩ := slept_waiting h heq hfront hwait
    refine ⟨?_, fun hfuel => absurd (hnone rfl) (Nat.not_le.mpr hfuel)⟩
    rw [slept_cons, slept_append, slept_eq_zero hfront, Nat.zero_add]
    exact hle
  | some out =>
    refine ⟨?_, fun _ => nofun⟩
    rcases runs_inPod h.runs with ⟨houtside, _⟩ | ⟨ended, hwaited⟩
    . rw [slept_eq_zero houtside]
      exact Nat.zero_le _
    . obtain ⟨started, front, waiting, after, rfl, hfront, hafter, hwait⟩ := hwaited.shape
      rw [slept_cons, slept_append, slept_append, slept_eq_zero hfront, slept_eq_zero hafter, Nat.zero_add]
      exact (slept_waiting h rfl hfront hwait).1

def capped : List Answered :=
  [⟨.now, 0⟩, ⟨.createNamespace "n", .ok ()⟩, ⟨.bindDriver "n", .ok ()⟩, ⟨.waitForDefaultSa "n", .ok ()⟩,
    ⟨.createPod "p" "n", .ok ()⟩, ⟨.turn, .slept⟩, ⟨.getPod "p", none⟩, ⟨.now, 250000000⟩, ⟨.turn, .slept⟩,
    ⟨.getPod "p", some ⟨none, some ⟨some "Pending", none, none⟩⟩⟩, ⟨.now, 500000000⟩, ⟨.podLogs "p", .error "not found"⟩,
    ⟨.deadPodReport "n", []⟩, ⟨.componentLog "n", []⟩, ⟨.deleteNamespace "n", .ok ()⟩, ⟨.deleteSeedBindings "n", ()⟩,
    ⟨.deletePod "p", .ok ()⟩, ⟨.now, 500000000⟩]

theorem inPod_returns_capped
    : ∃ out w', Dialog.Plays (cluster "n" "p") (run (.inPod "p" 3) ⟨false, true⟩ ⟨"t", "b", 500000000⟩ "n")
          ⟨0, false, false, false⟩ capped (some out) w' ∧
        out.verdict = .timeout ∧ slept capped = 2 ∧ slept capped ≤ 500000000 / pollInterval + 1 ∧
        (500000000 / pollInterval < 3 → some out ≠ none) := by
  have hrun : ∃ out, Dialog.Runs (run (.inPod "p" 3) ⟨false, true⟩ ⟨"t", "b", 500000000⟩ "n") capped (some out) ∧
      out.verdict = .timeout :=
    ⟨_, .ask (.ask (.ask (.ask (.ask (.ask (.ask (.ask (.ask (.ask (.ask (.ask (.ask (.ask (.ask (.ask (.ask (.ask
      .done))))))))))))))))), rfl⟩
  obtain ⟨out, hrun, hverdict⟩ := hrun
  have hplays := plays_oblige "n" "p" hrun (w := ⟨0, false, false, false⟩) (by decide)
  exact ⟨out, _, hplays, hverdict, rfl, inPod_returns hplays⟩

end Clock

end Executor
end Engine
