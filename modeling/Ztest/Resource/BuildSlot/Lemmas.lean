import Ztest.Resource.BuildSlot.Impl

namespace Resource
namespace BuildSlot

-- The pod `uid` is the run's own, and is there until the run deletes it.
def Pc.keeps (pc : Pc) (uid : Nat) : Prop := pc = .created uid ∨ pc = .holding uid ∨ pc = .releasing uid

def Pc.owns (pc : Pc) (uid : Nat) : Prop := pc.keeps uid ∨ pc = .deleted (some uid)

def Pc.leased (pc : Pc) : Prop := pc = .reserved ∨ (∃ uid, pc.keeps uid) ∨ ∃ hit, pc = .deleted hit

namespace State

/--
A delete request takes the pod of a run with a live lease from nobody but that run.
-/
def DeletesDead (s : State) : Event → Prop
  | .reap r => ∀ uid p, (s.runs r).pc = .reaping uid → s.pod = some p → (s.runs p.creator).lease = false
  | .delete r => ∀ uid p, (s.runs r).pc = .releasing uid → s.pod = some p → (s.runs p.creator).lease = true → p.creator = r
  | _ => True

/--
A run that acquired the slot has its own pod in it, and a pod outlives the lease of its creator only when
that crashed.
-/
structure Held (s : State) : Prop where
  owned : ∀ r uid, (s.runs r).pc = .holding uid → ∃ p, s.pod = some p ∧ p.uid = uid ∧ p.creator = r
  leased : ∀ p, s.pod = some p → (s.runs p.creator).lease = true ∨ (s.runs p.creator).pc = .crashed

/--
A reaping delete hits the pod that was judged, or none.
-/
def OnTarget (s : State) : Event → Prop
  | .reap r => ∀ uid p, (s.runs r).pc = .reaping uid → s.pod = some p → p.uid = uid
  | _ => True

structure Inv (s : State) : Prop where
  fresh : ∀ p, s.pod = some p → p.uid < s.nextUid
  creator : ∀ p, s.pod = some p → (s.runs p.creator).pc = .crashed ∨ (s.runs p.creator).pc.owns p.uid
  kept : ∀ r uid, (s.runs r).pc.keeps uid → s.pod = some ⟨uid, r, false⟩
  leased : ∀ r, (s.runs r).pc.leased → (s.runs r).lease = true
  saw : ∀ r uid creator, (s.runs r).pc = .sawHolder uid creator →
    uid < s.nextUid ∧ ∀ p, s.pod = some p → p.uid = uid → p.creator = creator
  reaping : ∀ r uid, (s.runs r).pc = .reaping uid →
    uid < s.nextUid ∧ ∀ p, s.pod = some p → p.uid = uid →
      (s.runs p.creator).pc = .crashed ∧ (s.runs p.creator).lease = false

theorem Inv.init : State.init.Inv := by
  constructor
  all_goals grind [State.init, Pc.keeps, Pc.leased]

theorem set_self (s : State) (r : Nat) (run : Run) : (s.set r run).runs r = run := Function.update_self ..

theorem set_of_ne (s : State) {i r : Nat} (run : Run) (h : i ≠ r) : (s.set r run).runs i = s.runs i :=
  Function.update_of_ne h ..

-- What a run has to show for when it moves on, with the pod as it is.
structure Moves (s : State) (r : Nat) (run : Run) : Prop where
  creator : ∀ p, s.pod = some p → p.creator = r → run.pc = .crashed ∨ run.pc.owns p.uid
  kept : ∀ uid, run.pc.keeps uid → s.pod = some ⟨uid, r, false⟩
  leased : run.pc.leased → run.lease = true
  saw : ∀ uid creator, run.pc = .sawHolder uid creator →
    uid < s.nextUid ∧ ∀ p, s.pod = some p → p.uid = uid → p.creator = creator
  reaping : ∀ uid, run.pc = .reaping uid →
    uid < s.nextUid ∧ ∀ p, s.pod = some p → p.uid = uid →
      p.creator ≠ r ∧ (s.runs p.creator).pc = .crashed ∧ (s.runs p.creator).lease = false
  dead : (s.runs r).pc = .crashed → (s.runs r).lease = false → run.pc = .crashed ∧ run.lease = false

section Moves

variable {s s' : State} (h : s.Inv)
include h

theorem Inv.set {r : Nat} {run : Run} (hmoves : s.Moves r run) : (s.set r run).Inv := by
  refine ⟨h.fresh, ?_, ?_, ?_, ?_, ?_⟩
  . intro p hp
    by_cases hr : p.creator = r
    . rw [hr, set_self]
      exact hmoves.creator p hp hr
    . rw [set_of_ne s run hr]
      exact h.creator p hp
  . intro i uid hi
    by_cases hr : i = r
    . subst hr
      rw [set_self] at hi
      exact hmoves.kept uid hi
    . rw [set_of_ne s run hr] at hi
      exact h.kept i uid hi
  . intro i hi
    by_cases hr : i = r
    . subst hr
      rw [set_self] at hi ⊢
      exact hmoves.leased hi
    . rw [set_of_ne s run hr] at hi ⊢
      exact h.leased i hi
  . intro i uid creator hi
    by_cases hr : i = r
    . subst hr
      rw [set_self] at hi
      exact hmoves.saw uid creator hi
    . rw [set_of_ne s run hr] at hi
      exact h.saw i uid creator hi
  . intro i uid hi
    by_cases hr : i = r
    . subst hr
      rw [set_self] at hi
      rcases hmoves.reaping uid hi with ⟨hlt, hjudged⟩
      refine ⟨hlt, ?_⟩
      intro p hp huid
      rcases hjudged p hp huid with ⟨hne, hdead⟩
      rw [set_of_ne s run hne]
      exact hdead
    . rw [set_of_ne s run hr] at hi
      rcases h.reaping i uid hi with ⟨hlt, hjudged⟩
      refine ⟨hlt, ?_⟩
      intro p hp huid
      rcases hjudged p hp huid with ⟨hcrashed, hlease⟩
      by_cases hc : p.creator = r
      . rw [hc, set_self]
        rw [hc] at hcrashed hlease
        exact hmoves.dead hcrashed hlease
      . rw [set_of_ne s run hc]
        exact ⟨hcrashed, hlease⟩

theorem Inv.quiet {r : Nat} {run : Run} (hpc : (s.runs r).pc ≠ .crashed) (howns : ∀ uid, ¬(s.runs r).pc.owns uid)
    (hleased : run.pc.leased → run.lease = true) (hkept : ∀ uid, ¬run.pc.keeps uid)
    (hsaw : ∀ uid creator, run.pc ≠ .sawHolder uid creator) (hreaping : ∀ uid, run.pc ≠ .reaping uid)
    : (s.set r run).Inv := by
  apply h.set
  refine ⟨?_, fun uid hkeeps => absurd hkeeps (hkept uid), hleased, fun uid creator heq => absurd heq (hsaw uid creator),
    fun uid heq => absurd heq (hreaping uid), fun hcrashed => absurd hcrashed hpc⟩
  rintro p hp rfl
  rcases h.creator p hp with hcrashed | hown
  . exact absurd hcrashed hpc
  . exact absurd hown (howns p.uid)

theorem Inv.hold {r uid : Nat} {pc : Pc} (hfrom : (s.runs r).pc.keeps uid) (hto : pc.owns uid)
    (hkeeps : ∀ u, pc.keeps u → u = uid)
    : (s.setPc r pc).Inv := by
  have hpod := h.kept r uid hfrom
  have hlive : (s.runs r).lease = true := h.leased r (Or.inr (Or.inl ⟨uid, hfrom⟩))
  have hother : (∀ a b, pc ≠ .sawHolder a b) ∧ ∀ a, pc ≠ .reaping a := by
    rcases hto with (rfl | rfl | rfl) | rfl
    all_goals simp
  apply h.set
  refine ⟨?_, ?_, fun _ => hlive, fun a b heq => absurd heq (hother.1 a b), fun a heq => absurd heq (hother.2 a), ?_⟩
  . intro p hp _
    cases hpod.symm.trans hp
    exact Or.inr hto
  . intro u hu
    cases hkeeps u hu
    exact hpod
  . intro _ hdead
    rw [hlive] at hdead
    cases hdead

theorem Inv.deletePod (hnone : ∀ p, s.pod = some p → ∀ r uid, ¬(s.runs r).pc.keeps uid) : s.deletePod.Inv := by
  have hpod : ∀ p, s.deletePod.pod = some p → ∃ q, s.pod = some q ∧ q.uid = p.uid ∧ q.creator = p.creator := by
    intro p hp
    rcases Option.map_eq_some_iff.mp hp with ⟨q, hq, rfl⟩
    exact ⟨q, hq, rfl, rfl⟩
  refine ⟨?_, ?_, ?_, h.leased, ?_, ?_⟩
  . intro p hp
    rcases hpod p hp with ⟨q, hq, huid, _⟩
    rw [← huid]
    exact h.fresh q hq
  . intro p hp
    rcases hpod p hp with ⟨q, hq, huid, hcreator⟩
    rw [← huid, ← hcreator]
    exact h.creator q hq
  . intro r uid hkeeps
    exact absurd hkeeps (hnone _ (h.kept r uid hkeeps) r uid)
  . intro r uid creator hr
    refine ⟨(h.saw r uid creator hr).1, ?_⟩
    intro p hp hp'
    rcases hpod p hp with ⟨q, hq, huid, hcreator⟩
    rw [← hcreator]
    exact (h.saw r uid creator hr).2 q hq (huid.trans hp')
  . intro r uid hr
    refine ⟨(h.reaping r uid hr).1, ?_⟩
    intro p hp hp'
    rcases hpod p hp with ⟨q, hq, huid, hcreator⟩
    rw [← hcreator]
    exact (h.reaping r uid hr).2 q hq (huid.trans hp')

theorem Inv.removePod (hdeleting : s.pod.any (·.deleting) = true) : ({ s with pod := none } : State).Inv := by
  refine ⟨?_, ?_, ?_, h.leased, ?_, ?_⟩
  . intro p hp
    cases hp
  . intro p hp
    cases hp
  . intro r uid hkeeps
    rw [h.kept r uid hkeeps] at hdeleting
    cases hdeleting
  . intro r uid creator hr
    refine ⟨(h.saw r uid creator hr).1, ?_⟩
    intro p hp
    cases hp
  . intro r uid hr
    refine ⟨(h.reaping r uid hr).1, ?_⟩
    intro p hp
    cases hp

theorem Inv.createPod {r : Nat} (hpc : (s.runs r).pc = .reserved) : (s.createPod r).Inv := by
  unfold State.createPod
  split
  . next hnone =>
    have hlive : (s.runs r).lease = true := h.leased r (Or.inl hpc)
    have hkept : ∀ i uid, ¬(s.runs i).pc.keeps uid := by
      intro i uid hkeeps
      have := h.kept i uid hkeeps
      rw [hnone] at this
      cases this
    have hself : (s.setPc r (.created s.nextUid)).runs r = ⟨.created s.nextUid, (s.runs r).lease⟩ := set_self ..
    have hold : ∀ {i}, i ≠ r → (s.setPc r (.created s.nextUid)).runs i = s.runs i := set_of_ne s _
    have hbefore : ∀ i pc, ((s.setPc r (.created s.nextUid)).runs i).pc = pc → pc ≠ .created s.nextUid →
        (s.runs i).pc = pc := by
      intro i pc hi hne
      by_cases hr : i = r
      . subst hr
        rw [hself] at hi
        exact absurd hi.symm hne
      . rw [hold hr] at hi
        exact hi
    refine ⟨?_, ?_, ?_, ?_, ?_, ?_⟩
    . intro p hp
      cases hp
      exact Nat.lt_succ_self _
    . intro p hp
      cases hp
      dsimp only
      rw [hself]
      exact Or.inr (Or.inl (Or.inl rfl))
    . intro i uid hi
      dsimp only at hi
      by_cases hr : i = r
      . subst hr
        rw [hself] at hi
        rcases hi with heq | heq | heq
        . cases heq
          rfl
        . cases heq
        . cases heq
      . rw [hold hr] at hi
        exact absurd hi (hkept i uid)
    . intro i hi
      dsimp only at hi ⊢
      by_cases hr : i = r
      . subst hr
        rw [hself]
        exact hlive
      . rw [hold hr] at hi ⊢
        exact h.leased i hi
    . intro i uid creator hi
      rcases h.saw i uid creator (hbefore i _ hi Pc.noConfusion) with ⟨hlt, _⟩
      refine ⟨Nat.lt_succ_of_lt hlt, ?_⟩
      intro p hp huid
      cases hp
      exact absurd huid (Nat.ne_of_gt hlt)
    . intro i uid hi
      rcases h.reaping i uid (hbefore i _ hi Pc.noConfusion) with ⟨hlt, _⟩
      refine ⟨Nat.lt_succ_of_lt hlt, ?_⟩
      intro p hp huid
      cases hp
      exact absurd huid (Nat.ne_of_gt hlt)
  . apply h.quiet
    all_goals simp [hpc, Pc.owns, Pc.keeps, Pc.leased]

theorem Inv.getHolder {r : Nat} (hpc : (s.runs r).pc = .start) : (s.getHolder r).Inv := by
  unfold State.getHolder
  split
  . apply h.quiet
    all_goals simp [hpc, Pc.owns, Pc.keeps, Pc.leased]
  . next p hp =>
    apply h.set
    refine ⟨?_, ?_, ?_, ?_, ?_, ?_⟩
    . rintro q hq rfl
      have hcreator := h.creator q hq
      rw [hpc] at hcreator
      simp [Pc.owns, Pc.keeps] at hcreator
    . simp [Pc.keeps]
    . simp [Pc.leased, Pc.keeps]
    . intro uid creator heq
      cases heq
      refine ⟨h.fresh p hp, ?_⟩
      intro q hq _
      cases hp.symm.trans hq
      rfl
    . simp
    . simp [hpc]

-- The holder is a run without a lease, so that it crashed.
theorem Inv.getLease {r uid creator : Nat} (hpc : (s.runs r).pc = .sawHolder uid creator)
    : (s.setPc r (if (s.runs creator).lease then .waiting uid else .reaping uid)).Inv := by
  split
  . apply h.quiet
    all_goals simp [hpc, Pc.owns, Pc.keeps, Pc.leased]
  . next hdead =>
    rcases h.saw r uid creator hpc with ⟨hlt, hsaw⟩
    apply h.set
    refine ⟨?_, ?_, ?_, ?_, ?_, ?_⟩
    . rintro q hq rfl
      have hcreator := h.creator q hq
      rw [hpc] at hcreator
      simp [Pc.owns, Pc.keeps] at hcreator
    . simp [Pc.keeps]
    . simp [Pc.leased, Pc.keeps]
    . simp
    . intro uid' heq
      cases heq
      refine ⟨hlt, ?_⟩
      intro p hp huid
      cases hsaw p hp huid
      have hcrashed : (s.runs p.creator).pc = .crashed := by
        rcases h.creator p hp with hcrashed | hkeeps | hdeleted
        . exact hcrashed
        . exact absurd (h.leased p.creator (Or.inr (Or.inl ⟨_, hkeeps⟩))) hdead
        . exact absurd (h.leased p.creator (Or.inr (Or.inr ⟨_, hdeleted⟩))) hdead
      refine ⟨?_, hcrashed, by simpa using hdead⟩
      rintro rfl
      rw [hpc] at hcrashed
      cases hcrashed
    . simp [hpc]

theorem Inv.reap {r uid : Nat} (hpc : (s.runs r).pc = .reaping uid) (htarget : ∀ p, s.pod = some p → p.uid = uid)
    : (s.deletePod.setPc r (.reaped (s.pod.map Pod.uid))).Inv := by
  have hdeleted : s.deletePod.Inv := by
    apply h.deletePod
    intro p hp i uid' hkeeps
    have hown := h.kept i uid' hkeeps
    have hjudged := (h.reaping r uid hpc).2 p hp (htarget p hp)
    cases hown.symm.trans hp
    rw [hjudged.1] at hkeeps
    simp [Pc.keeps] at hkeeps
  apply Inv.quiet hdeleted
  . show (s.runs r).pc ≠ .crashed
    simp [hpc]
  . show ∀ uid, ¬(s.runs r).pc.owns uid
    simp [hpc, Pc.owns, Pc.keeps]
  all_goals simp [Pc.keeps, Pc.leased]

theorem Inv.delete {r uid : Nat} (hpc : (s.runs r).pc = .releasing uid)
    : (s.deletePod.setPc r (.deleted (s.pod.map Pod.uid))).Inv := by
  have hkeeps : (s.runs r).pc.keeps uid := Or.inr (Or.inr hpc)
  have hpod := h.kept r uid hkeeps
  have hset : (s.setPc r (.deleted (some uid))).Inv := by
    apply h.hold hkeeps (Or.inr rfl)
    simp [Pc.keeps]
  have hdeleted : (s.setPc r (.deleted (some uid))).deletePod.Inv := by
    apply Inv.deletePod hset
    intro p hp i uid' hi
    by_cases hr : i = r
    . subst hr
      rw [setPc, set_self] at hi
      simp [Pc.keeps] at hi
    . rw [setPc, set_of_ne s _ hr] at hi
      have hother := h.kept i uid' hi
      rw [hpod, Option.some.injEq, Pod.mk.injEq] at hother
      exact hr hother.2.1.symm
  rw [show s.pod.map Pod.uid = some uid by rw [hpod]; rfl]
  exact hdeleted

theorem Inv.releaseLease {r : Nat} {hit : Option Nat} (hpc : (s.runs r).pc = .deleted hit) (hgone : s.hitGone hit = true)
    : (s.set r ⟨.finished, false⟩).Inv := by
  apply h.set
  refine ⟨?_, ?_, ?_, ?_, ?_, ?_⟩
  . rintro p hp rfl
    have hcreator := h.creator p hp
    rw [hpc] at hcreator
    rcases hcreator with heq | heq | heq
    . cases heq
    . simp [Pc.keeps] at heq
    . cases heq
      simp [hitGone, State.gone, hp] at hgone
  . simp [Pc.keeps]
  . simp [Pc.leased, Pc.keeps]
  . simp
  . simp
  . simp [hpc]

theorem Inv.crash (r : Nat) : (s.setPc r .crashed).Inv := by
  apply h.set
  refine ⟨?_, ?_, ?_, ?_, ?_, ?_⟩
  . intro p _ _
    exact Or.inl rfl
  . simp [Pc.keeps]
  . simp [Pc.leased, Pc.keeps]
  . simp
  . simp
  . intro _ hdead
    exact ⟨rfl, hdead⟩

theorem Inv.expire {r : Nat} : (s.set r ⟨.crashed, false⟩).Inv := by
  apply h.set
  refine ⟨?_, ?_, ?_, ?_, ?_, ?_⟩
  . intro p _ _
    exact Or.inl rfl
  . simp [Pc.keeps]
  . simp [Pc.leased, Pc.keeps]
  . simp
  . simp
  . intro _ _
    exact ⟨rfl, rfl⟩

theorem Inv.act {event : Event} (htarget : s.OnTarget event) (hact : s.act event = some s') : s'.Inv := by
  cases event with
  | getHolder r =>
    simp only [State.act, Option.ite_none_right_eq_some, Option.some.injEq] at hact
    rcases hact with ⟨hpc, rfl⟩
    exact h.getHolder hpc
  | getLease r =>
    simp only [State.act] at hact
    split at hact
    . next uid creator hpc =>
      cases hact
      exact h.getLease hpc
    . cases hact
  | slotFreed r =>
    simp only [State.act] at hact
    split at hact
    . next uid hpc =>
      simp only [Option.ite_none_right_eq_some, Option.some.injEq] at hact
      rcases hact with ⟨_, rfl⟩
      apply h.quiet
      all_goals simp [hpc, Pc.owns, Pc.keeps, Pc.leased]
    . cases hact
  | reap r =>
    simp only [State.act] at hact
    split at hact
    . next uid hpc =>
      cases hact
      apply h.reap hpc
      intro p hp
      exact htarget uid p hpc hp
    . cases hact
  | reapedGone r =>
    simp only [State.act] at hact
    split at hact
    . next hit hpc =>
      simp only [Option.ite_none_right_eq_some, Option.some.injEq] at hact
      rcases hact with ⟨_, rfl⟩
      apply h.quiet
      all_goals simp [hpc, Pc.owns, Pc.keeps, Pc.leased]
    . cases hact
  | reserve r =>
    simp only [State.act, Option.ite_none_right_eq_some, Option.some.injEq] at hact
    rcases hact with ⟨hpc, rfl⟩
    apply h.quiet
    all_goals simp [hpc, Pc.owns, Pc.keeps]
  | create r =>
    simp only [State.act, Option.ite_none_right_eq_some, Option.some.injEq] at hact
    rcases hact with ⟨hpc, rfl⟩
    exact h.createPod hpc
  | ready r =>
    simp only [State.act] at hact
    split at hact
    . next uid hpc =>
      cases hact
      apply h.hold (Or.inl hpc) (Or.inl (Or.inr (Or.inl rfl)))
      simp [Pc.keeps]
    . cases hact
  | notReady r =>
    simp only [State.act] at hact
    split at hact
    . next uid hpc =>
      cases hact
      apply h.hold (Or.inl hpc) (Or.inl (Or.inr (Or.inr rfl)))
      simp [Pc.keeps]
    . cases hact
  | release r =>
    simp only [State.act] at hact
    split at hact
    . next uid hpc =>
      cases hact
      apply h.hold (Or.inr (Or.inl hpc)) (Or.inl (Or.inr (Or.inr rfl)))
      simp [Pc.keeps]
    . cases hact
  | delete r =>
    simp only [State.act] at hact
    split at hact
    . next uid hpc =>
      cases hact
      exact h.delete hpc
    . cases hact
  | releaseLease r =>
    simp only [State.act] at hact
    split at hact
    . next hit hpc =>
      simp only [Option.ite_none_right_eq_some, Option.some.injEq] at hact
      rcases hact with ⟨hgone, rfl⟩
      exact h.releaseLease hpc hgone
    . cases hact
  | crash r =>
    cases hact
    exact h.crash r
  | expire r =>
    simp only [State.act, Option.ite_none_right_eq_some, Option.some.injEq] at hact
    rcases hact with ⟨_, rfl⟩
    exact h.expire
  | removePod =>
    simp only [State.act, Option.ite_none_right_eq_some, Option.some.injEq] at hact
    rcases hact with ⟨hdeleting, rfl⟩
    exact h.removePod hdeleting

theorem Inv.held : s.Held := by
  constructor
  . intro r uid hpc
    exact ⟨_, h.kept r uid (Or.inr (Or.inl hpc)), rfl, rfl⟩
  . intro p hp
    rcases h.creator p hp with hcrashed | hkeeps | hdeleted
    . exact Or.inr hcrashed
    . exact Or.inl (h.leased p.creator (Or.inr (Or.inl ⟨_, hkeeps⟩)))
    . exact Or.inl (h.leased p.creator (Or.inr (Or.inr ⟨_, hdeleted⟩)))

theorem Inv.deletesDead {event : Event} (htarget : s.OnTarget event) : s.DeletesDead event := by
  cases event with
  | reap r =>
    intro uid p hpc hp
    exact ((h.reaping r uid hpc).2 p hp (htarget uid p hpc hp)).2
  | delete r =>
    intro uid p hpc hp _
    cases (h.kept r uid (Or.inr (Or.inr hpc))).symm.trans hp
    rfl
  | _ => trivial

end Moves

theorem Inv.step {s s' : State} {event : Event} {r : Unit} (h : s.Inv) (htarget : s.OnTarget event)
    (hstep : s.step event = .ok (s', r))
    : s'.Inv := by
  unfold State.step at hstep
  split at hstep
  . next t ht =>
    cases hstep
    exact h.act htarget ht
  . cases hstep

/--
In every run in which each reaping delete finds the pod that was judged, or none, the slot is taken from
no live holder.
-/
theorem slot_kept_from_live_holder (events : List Event) (htarget : Run.Along step OnTarget .init events)
    : Run.Along step DeletesDead .init events ∧
        ∀ pre post s, events = pre ++ post → Run.exec step .init pre = .ok s → s.Held := by
  have hinv : ∀ {pre post s}, events = pre ++ post → Run.exec step .init pre = .ok s → s.Inv := by
    rintro pre post s rfl hs
    apply Run.exec_invariant_along (I := Inv) ?_ Inv.init htarget.left hs
    intro t event t' r ht hin hstep
    exact ht.step hin hstep
  constructor
  . apply Run.along_of_get
    rintro pre event post s rfl hs
    exact (hinv rfl hs).deletesDead (htarget.get hs)
  . intro pre post s hsplit hs
    exact (hinv hsplit hs).held

namespace Sample

-- Run 0 crashes with its pod in the slot.
def orphaned : List Event :=
  [.getHolder 0, .reserve 0, .create 0, .ready 0, .crash 0, .expire 0]

-- Run 1 reaps the pod, and builds.
def reaped : List Event :=
  orphaned ++ [.getHolder 1, .getLease 1, .reap 1, .removePod, .reapedGone 1, .reserve 1, .create 1, .ready 1]

-- Run 2 judged the same pod, and is late with its delete.
def judgedTwice : List Event :=
  orphaned ++ [.getHolder 1, .getLease 1, .getHolder 2, .getLease 2, .reap 1, .removePod, .reapedGone 1, .reserve 1,
    .create 1, .ready 1]

theorem reaped_onTarget : Run.Along step OnTarget .init reaped := by
  have taking : ∀ {s t : State} {event : Event} {events : List Event},
      s.OnTarget event → s.step event = .ok (t, ()) → Run.Along step OnTarget t events →
      Run.Along step OnTarget s (event :: events) := Run.along_cons
  refine taking trivial rfl <| taking trivial rfl <| taking trivial rfl <| taking trivial rfl <| taking trivial rfl <|
    taking trivial rfl <| taking trivial rfl <| taking trivial rfl <| taking ?_ rfl <| taking trivial rfl <|
    taking trivial rfl <| taking trivial rfl <| taking trivial rfl <| taking trivial rfl trivial
  intro uid p hpc hp
  cases hpc
  cases hp
  rfl

end Sample

theorem reaped_slot_kept_from_live_holder
    : Run.Along step DeletesDead .init Sample.reaped ∧
        ∀ pre post s, Sample.reaped = pre ++ post → Run.exec step .init pre = .ok s → s.Held :=
  slot_kept_from_live_holder Sample.reaped Sample.reaped_onTarget

/--
Two runs judge one orphan: the first reaps it and builds, and the delete of the second takes the slot from
the first, which has a live lease.
-/
theorem live_pod_reaped
    : (∃ s, Run.exec step .init Sample.judgedTwice = .ok s ∧ ¬s.DeletesDead (.reap 2)) ∧
      ∃ s, Run.exec step .init (Sample.judgedTwice ++ [.reap 2, .removePod]) = .ok s ∧ ¬s.Held := by
  refine ⟨⟨_, rfl, ?_⟩, ⟨_, rfl, ?_⟩⟩
  . intro h
    cases h _ _ rfl rfl
  . intro h
    rcases h.owned 1 _ rfl with ⟨p, hp, _⟩
    cases hp

end State
end BuildSlot
end Resource
