import Ztest.Loadtest.Audit.Lemmas.Verdict
import Ztest.Lib.Trace

namespace Loadtest

open Dialog (Runs)

def answersOf (tr : List Event) : Answers :=
  tr.filterMap fun
    | .answered q r => some ⟨q, r⟩
    | _ => none

def receivedOf (tr : List Event) : List Audit :=
  tr.filterMap fun
    | .received audit => some audit
    | _ => none

def countedOf (tr : List Event) : List (Audit × Outcome) :=
  tr.filterMap fun
    | .counted audit basis => some (audit, basis.outcome)
    | _ => none

section History

variable (tr tr' : List Event) (audit : Audit) (q : Call) (r : q.Reply) (basis : Basis)

@[simp]
theorem answersOf_append : answersOf (tr ++ tr') = answersOf tr ++ answersOf tr' :=
  List.filterMap_append

@[simp]
theorem receivedOf_append : receivedOf (tr ++ tr') = receivedOf tr ++ receivedOf tr' :=
  List.filterMap_append

@[simp]
theorem countedOf_append : countedOf (tr ++ tr') = countedOf tr ++ countedOf tr' :=
  List.filterMap_append

@[simp]
theorem answersOf_received : answersOf [.received audit] = [] := rfl

@[simp]
theorem answersOf_answered : answersOf [.answered q r] = [⟨q, r⟩] := rfl

@[simp]
theorem answersOf_counted : answersOf [.counted audit basis] = [] := rfl

@[simp]
theorem receivedOf_received : receivedOf [.received audit] = [audit] := rfl

@[simp]
theorem receivedOf_answered : receivedOf [.answered q r] = [] := rfl

@[simp]
theorem receivedOf_counted : receivedOf [.counted audit basis] = [] := rfl

@[simp]
theorem countedOf_received : countedOf [.received audit] = [] := rfl

@[simp]
theorem countedOf_answered : countedOf [.answered q r] = [] := rfl

@[simp]
theorem countedOf_counted : countedOf [.counted audit basis] = [(audit, basis.outcome)] := rfl

end History

-- The height under which an audit is deferred.
def Audit.heldAt (wire : Wire) : Audit → Option Nat
  | .full height _ _ => some height
  | .treeState height _ _ => some height
  | .tip message =>
    match wire.blockId message with
    | .ok id => some (asU32 id.height)
    | .error _ => none
  | _ => none

/--
What must have happened before an audit is counted. The answers are the last ones that zebra gave.
-/
def Justified (wire : Wire) (pre : List Event) : Event → Prop
  | .counted audit basis =>
    (basis.outcome = .audited
      → ∃ answers, answers <:+ answersOf pre ∧ Matches wire (answersOf pre) answers audit)
    ∧ (basis.outcome = .skipped
      → basis = .drained ∨ ∃ answers, answers <:+ answersOf pre
        ∧ Missed wire (answersOf pre) answers audit)
    ∧ ∀ tip answers verdict h, basis = .judged tip answers verdict → audit.heldAt wire = some h
      → h + buried < u32Range → ∃ t, .answered .tip (.ok t) ∈ pre ∧ h + buried ≤ t
  | _ => True

def Pc.inFlight : Pc → List Audit
  | .judging audit none _ _ => [audit]
  | .judging audit (some release) _ _ => audit :: (release.todo ++ release.waiting).map Prod.snd
  | .releasing release => (release.todo ++ release.waiting).map Prod.snd
  | _ => []

theorem Pc.inFlight_judging (audit : Audit) (release : Option Release) (answers : Answers)
    (d : Ask (Auditor × Verdict)) (answers' : Answers) (d' : Ask (Auditor × Verdict))
    : (Pc.judging audit release answers d).inFlight = (Pc.judging audit release answers' d').inFlight := by
  cases release <;> rfl

def Pc.isOver : Pc → Bool
  | .settling => true
  | .returned => true
  | _ => false

namespace Auditing

variable {wire : Wire} {s s' : Auditing}

def Tipped (tr : List Event) (t : Nat) : Prop := t = 0 ∨ .answered .tip (.ok t) ∈ tr

def Held (wire : Wire) (l : List (Nat × Audit)) : Prop := ∀ e ∈ l, e.2.heldAt wire = some e.1

structure ReleaseOk (wire : Wire) (tr : List Event) (release : Release) : Prop where
  tip : Tipped tr release.tip
  todo : Held wire release.todo
  waiting : Held wire release.waiting

-- The rest of a dialog continues the answers given so far.
def PcOk (wire : Wire) (a : Auditor) (tr : List Event) : Pc → Prop
  | .judging audit release answers d =>
    (∃ pre, answersOf tr = pre ++ answers
      ∧ ∀ pool roots, a.roots pool = some roots → Listed pre pool roots)
    ∧ (∀ rest r, Runs d rest r → Runs (a.judgeBuried wire audit) (answers ++ rest) r)
    ∧ match release with
      | none => audit.heldAt wire = none
      | some release =>
        ReleaseOk wire tr release ∧ a.deferred = []
          ∧ ∃ h, audit.heldAt wire = some h ∧ asU32 (h + buried) ≤ release.tip
  | .readingTip d =>
    ∃ answers, answers <:+ answersOf tr
      ∧ ∀ rest r, Runs d rest r → Runs a.zebraTip (answers ++ rest) r
  | .releasing release => ReleaseOk wire tr release ∧ a.deferred = []
  | .returned => a.deferred = []
  | _ => True

structure Tallied (l : Ledger) (tr : List Event) : Prop where
  audited : l.tallies.audited = ((countedOf tr).map Prod.snd).count .audited
  skipped : l.tallies.skipped = ((countedOf tr).map Prod.snd).count .skipped
  violated : l.tallies.violations = ((countedOf tr).map Prod.snd).count .violated
  queued : l.tallies.queued = (receivedOf tr).length + l.audits.length

structure Core (wire : Wire) (a : Auditor) (l : Ledger) (tr : List Event) : Prop where
  roots : ∀ pool roots, a.roots pool = some roots → Listed (answersOf tr) pool roots
  tip : Tipped tr a.tip.1
  deferred : Held wire a.deferred
  justified : Trace.Before (Justified wire) tr
  tallied : Tallied l tr

structure Inv (wire : Wire) (s : Auditing) : Prop where
  core : Core wire s.auditor s.ledger s.trace
  pc : PcOk wire s.auditor s.trace s.pc
  settled : s.pc.isOver → s.ledger.closed = true ∧ s.ledger.audits = []
  conserved : ∀ audit, (receivedOf s.trace).count audit
    = ((countedOf s.trace).map Prod.fst).count audit
      + (s.auditor.deferred.map Prod.snd).count audit + s.pc.inFlight.count audit

theorem Tipped.append {tr : List Event} {t : Nat} (h : Tipped tr t) (ev : Event)
    : Tipped (tr ++ [ev]) t := h.imp_right (List.mem_append_left [ev])

theorem ReleaseOk.append {tr : List Event} {release : Release} (h : ReleaseOk wire tr release)
    (ev : Event) : ReleaseOk wire (tr ++ [ev]) release :=
  ⟨h.tip.append ev, h.todo, h.waiting⟩

theorem Held.append {l l' : List (Nat × Audit)} (h : Held wire l) (h' : Held wire l')
    : Held wire (l ++ l') := by
  intro e he
  rcases List.mem_append.mp he with he | he
  . exact h e he
  . exact h' e he

section Core

variable {a : Auditor} {l : Ledger} {tr : List Event}

theorem Core.quiet {l' : Ledger} {ev : Event} (h : Core wire a l tr)
    (hev : countedOf [ev] = []) (hjustified : Justified wire tr ev)
    (haudited : l'.tallies.audited = l.tallies.audited)
    (hskipped : l'.tallies.skipped = l.tallies.skipped)
    (hviolated : l'.tallies.violations = l.tallies.violations)
    (hqueued : l'.tallies.queued = (receivedOf (tr ++ [ev])).length + l'.audits.length)
    : Core wire a l' (tr ++ [ev]) := by
  have hcounted : countedOf (tr ++ [ev]) = countedOf tr := by
    rw [countedOf_append, hev, List.append_nil]
  constructor
  . intro pool roots hroots
    rw [answersOf_append]
    exact (h.roots pool roots hroots).append_right _
  . exact h.tip.append _
  . exact h.deferred
  . exact h.justified.concat hjustified
  . constructor
    . rw [hcounted, haudited]
      exact h.tallied.audited
    . rw [hcounted, hskipped]
      exact h.tallied.skipped
    . rw [hcounted, hviolated]
      exact h.tallied.violated
    . exact hqueued

theorem Core.received {audit : Audit} {rest : List Audit} (h : Core wire a l tr)
    (haudits : l.audits = audit :: rest)
    : Core wire a { l with audits := rest } (tr ++ [.received audit]) := by
  refine h.quiet rfl trivial rfl rfl rfl ?_
  have hqueued := h.tallied.queued
  rw [haudits, List.length_cons] at hqueued
  simp only [receivedOf_append, receivedOf_received, List.length_append, List.length_singleton,
    hqueued]
  omega

theorem Core.answered (h : Core wire a l tr) (q : Call) (r : q.Reply)
    : Core wire a l (tr ++ [.answered q r]) := by
  refine h.quiet rfl trivial rfl rfl rfl ?_
  simpa using h.tallied.queued

def CountedIn (l l' : Ledger) (outcome : Outcome) : Prop :=
  l'.audits = l.audits ∧ l'.closed = l.closed ∧ l'.tallies.queued = l.tallies.queued
    ∧ l'.tallies.audited = l.tallies.audited + [outcome].count .audited
    ∧ l'.tallies.skipped = l.tallies.skipped + [outcome].count .skipped
    ∧ l'.tallies.violations = l.tallies.violations + [outcome].count .violated

theorem countedIn_conclude {audit : Audit} {verdict : Verdict}
    : CountedIn l (conclude l audit verdict) verdict.outcome := by
  cases verdict with
  | holds => exact ⟨rfl, rfl, rfl, rfl, rfl, rfl⟩
  | reorged => exact ⟨rfl, rfl, rfl, rfl, rfl, rfl⟩
  | unjudged => exact ⟨rfl, rfl, rfl, rfl, rfl, rfl⟩
  | differs height detail => exact ⟨rfl, rfl, rfl, rfl, rfl, rfl⟩

theorem Core.counted {audit : Audit} {basis : Basis} {l' : Ledger} (h : Core wire a l tr)
    (hl : CountedIn l l' basis.outcome) (hjustified : Justified wire tr (.counted audit basis))
    : Core wire a l' (tr ++ [.counted audit basis]) := by
  obtain ⟨haudits, _, hqueued, haudited, hskipped, hviolated⟩ := hl
  have hcounted : countedOf (tr ++ [.counted audit basis])
      = countedOf tr ++ [(audit, basis.outcome)] := by simp
  have hreceived : receivedOf (tr ++ [.counted audit basis]) = receivedOf tr := by simp
  constructor
  . intro pool roots hroots
    simp only [answersOf_append]
    exact (h.roots pool roots hroots).append_right _
  . exact h.tip.append _
  . exact h.deferred
  . exact h.justified.concat hjustified
  . constructor
    . rw [hcounted, List.map_append, List.count_append, haudited, h.tallied.audited]
      rfl
    . rw [hcounted, List.map_append, List.count_append, hskipped, h.tallied.skipped]
      rfl
    . rw [hcounted, List.map_append, List.count_append, hviolated, h.tallied.violated]
      rfl
    . rw [hreceived, hqueued, haudits]
      exact h.tallied.queued

theorem Core.kept {a' : Auditor} {answers : Answers} (h : Core wire a l tr)
    (hkept : Auditor.Kept answers a a') (hanswers : answers <:+ answersOf tr)
    : Core wire a' l tr := by
  obtain ⟨pre, hpre⟩ := hanswers
  constructor
  . intro pool roots hroots
    rcases hkept.roots pool roots hroots with hold | hnew
    . exact h.roots pool roots hold
    . rw [← hpre]
      exact hnew.append_left pre
  . rcases hkept.tip with hold | hnew
    . rw [hold]
      exact h.tip
    . right
      have hmem : ⟨.tip, .ok a'.tip.1⟩ ∈ answersOf tr := by
        rw [← hpre]
        exact List.mem_append_right pre hnew
      obtain ⟨ev, hev, heq⟩ := List.mem_filterMap.mp hmem
      split at heq
      . cases heq
        exact hev
      . cases heq
  . rw [hkept.deferred]
    exact h.deferred
  . exact h.justified
  . exact h.tallied

end Core

theorem Inv.goto {pc : Pc} (h : Inv wire s) (hpc : PcOk wire s.auditor s.trace pc)
    (hover : pc.isOver → s.ledger.closed = true ∧ s.ledger.audits = [])
    (hflight : ∀ audit, pc.inFlight.count audit = s.pc.inFlight.count audit)
    : Inv wire (s.goto pc) := by
  constructor
  . exact h.core
  . exact hpc
  . exact hover
  . intro audit
    have := h.conserved audit
    rw [← hflight audit] at this
    exact this

theorem Inv.queue (h : Inv wire s) (audit : Audit)
    : Inv wire { s with ledger := s.ledger.queue audit } := by
  obtain ⟨⟨hroots, htip, hdeferred, hjustified, htallied⟩, hpc, hover, hconserved⟩ := h
  unfold Ledger.queue
  split
  . next hopen =>
    refine ⟨⟨hroots, htip, hdeferred, hjustified, ?_⟩, hpc, ?_, hconserved⟩
    . refine ⟨htallied.audited, htallied.skipped, htallied.violated, ?_⟩
      simp [htallied.queued, Nat.add_assoc]
    . intro hpc
      rw [(hover hpc).1] at hopen
      cases hopen.1
  . exact ⟨⟨hroots, htip, hdeferred, hjustified, ⟨htallied.audited, htallied.skipped,
      htallied.violated, htallied.queued⟩⟩, hpc, hover, hconserved⟩

theorem Inv.close (h : Inv wire s) : Inv wire { s with ledger := s.ledger.close } := by
  obtain ⟨⟨hroots, htip, hdeferred, hjustified, htallied⟩, hpc, hover, hconserved⟩ := h
  exact ⟨⟨hroots, htip, hdeferred, hjustified, ⟨htallied.audited, htallied.skipped, htallied.violated,
    htallied.queued⟩⟩, hpc, fun hpc => ⟨rfl, (hover hpc).2⟩, hconserved⟩

theorem Core.releaseBuried (hcore : Core wire s.auditor s.ledger s.trace)
    (hconserved : ∀ audit, (receivedOf s.trace).count audit
      = ((countedOf s.trace).map Prod.fst).count audit
        + (s.auditor.deferred.map Prod.snd).count audit)
    : Inv wire s.releaseBuried := by
  constructor
  . exact hcore
  . exact ⟨[], List.nil_suffix, fun rest r hr => hr⟩
  . nofun
  . exact hconserved

theorem Core.defer {audit : Audit} {height : Nat} (hcore : Core wire s.auditor s.ledger s.trace)
    (hheld : audit.heldAt wire = some height)
    (hconserved : ∀ audit', (receivedOf s.trace).count audit'
      = ((countedOf s.trace).map Prod.fst).count audit'
        + (s.auditor.deferred.map Prod.snd).count audit' + [audit].count audit')
    : Inv wire (s.defer height audit).releaseBuried := by
  apply Core.releaseBuried
  . refine ⟨hcore.roots, hcore.tip, ?_, hcore.justified, hcore.tallied⟩
    apply hcore.deferred.append
    intro e he
    rw [List.mem_singleton.mp he]
    exact hheld
  . intro audit'
    unfold Auditing.defer
    simp only [List.map_append, List.count_append]
    rw [hconserved audit']
    simp [Nat.add_assoc]

theorem heldAt_eq_none {audit : Audit} (hfull : ∀ height message tip, audit ≠ .full height message tip)
    (htree : ∀ height message tip, audit ≠ .treeState height message tip)
    (htip : ∀ message, audit ≠ .tip message)
    : audit.heldAt wire = none := by
  cases audit with
  | full height message tip => exact absurd rfl (hfull height message tip)
  | treeState height message tip => exact absurd rfl (htree height message tip)
  | tip message => exact absurd rfl (htip message)
  | _ => rfl

theorem Inv.recv (h : Inv wire s) (hpc : s.pc = .receiving) (hok : s.recv wire = .ok s')
    : Inv wire s' := by
  unfold Auditing.recv at hok
  split at hok
  . next audit rest haudits =>
    cases hok
    have hcore := h.core.received haudits
    have hconserved : ∀ audit', (receivedOf (s.trace ++ [.received audit])).count audit'
        = ((countedOf (s.trace ++ [.received audit])).map Prod.fst).count audit'
          + (s.auditor.deferred.map Prod.snd).count audit' + [audit].count audit' := by
      intro audit'
      have hold := h.conserved audit'
      rw [hpc] at hold
      simp [List.count_append, hold, Pc.inFlight]
    unfold Auditing.judge
    split
    . exact Core.defer hcore rfl hconserved
    . exact Core.defer hcore rfl hconserved
    . next message =>
      split
      . next id hid =>
        apply Core.defer hcore
        . simp [Audit.heldAt, hid]
        . exact hconserved
      . apply Core.releaseBuried
        . refine hcore.counted ⟨rfl, rfl, rfl, rfl, rfl, rfl⟩ ⟨?_, ?_, ?_⟩
          . intro houtcome
            cases houtcome
          . intro houtcome
            cases houtcome
          . intro tip answers verdict height hjudged
            cases hjudged
        . intro audit'
          have hcount := hconserved audit'
          simp only [Auditing.count, Auditing.log, receivedOf_append, countedOf_append,
            receivedOf_counted, countedOf_counted, List.append_nil, List.map_append,
            List.count_append] at hcount ⊢
          rw [hcount]
          exact Nat.add_right_comm _ _ _
    . next hfull htree htip =>
      constructor
      . exact hcore
      . refine ⟨⟨answersOf s.trace, ?_, h.core.roots⟩, fun rest r hr => hr, ?_⟩
        . simp [Auditing.log, Auditing.goto]
        . exact heldAt_eq_none hfull htree htip
      . intro hover
        cases hover
      . exact hconserved
  . next haudits =>
    split at hok
    . next hclosed =>
      cases hok
      apply h.goto
      . trivial
      . exact fun _ => ⟨hclosed, haudits⟩
      . intro audit
        rw [hpc]
        rfl
    . cases hok

theorem Inv.reply {answer : (q : Call) → q.Reply} (h : Inv wire s) (hok : s.reply answer = .ok s')
    : Inv wire s' := by
  have hpc := h.pc
  unfold Auditing.reply at hok
  split at hok
  . next audit release answers q k heq =>
    cases hok
    rw [heq] at hpc
    obtain ⟨⟨pre, hpre, hroots⟩, hruns, hrelease⟩ := hpc
    constructor
    . exact h.core.answered q (answer q)
    . refine ⟨⟨pre, ?_, hroots⟩, ?_, ?_⟩
      . simp [Auditing.log, Auditing.goto, hpre]
      . intro rest r hrest
        rw [List.append_assoc]
        exact hruns _ r (.ask hrest)
      . cases release with
        | none => exact hrelease
        | some release => exact ⟨hrelease.1.append _, hrelease.2⟩
    . nofun
    . intro audit'
      have hold := h.conserved audit'
      rw [heq] at hold
      rw [Pc.inFlight_judging _ _ _ _ (answers ++ [⟨q, answer q⟩]) (k (answer q))] at hold
      simp only [Auditing.log, Auditing.goto, receivedOf_append, countedOf_append,
        receivedOf_answered, countedOf_answered, List.append_nil]
      exact hold
  . next q k heq =>
    cases hok
    rw [heq] at hpc
    obtain ⟨answers, ⟨pre, hpre⟩, hruns⟩ := hpc
    constructor
    . exact h.core.answered q (answer q)
    . refine ⟨answers ++ [⟨q, answer q⟩], ⟨pre, ?_⟩, ?_⟩
      . simp [Auditing.log, Auditing.goto, ← hpre]
      . intro rest r hrest
        rw [List.append_assoc]
        exact hruns _ r (.ask hrest)
    . nofun
    . intro audit'
      have hold := h.conserved audit'
      rw [heq] at hold
      simp only [Auditing.log, Auditing.goto, receivedOf_append, countedOf_append,
        receivedOf_answered, countedOf_answered, List.append_nil]
      exact hold
  . cases hok

theorem Inv.wake (h : Inv wire s) (hok : s.wake = .ok s') : Inv wire s' := by
  unfold Auditing.wake at hok
  split at hok
  . next hpc =>
    split at hok
    . cases hok
    . cases hok
      apply Core.releaseBuried h.core
      intro audit
      have hold := h.conserved audit
      rw [hpc] at hold
      exact hold
  . cases hok

theorem Core.skipAll {l : List (Nat × Audit)} (h : Core wire s.auditor s.ledger s.trace)
    (hconserved : ∀ audit, (receivedOf s.trace).count audit
      = ((countedOf s.trace).map Prod.fst).count audit + (l.map Prod.snd).count audit)
    : Core wire (s.skipAll l).auditor (s.skipAll l).ledger (s.skipAll l).trace
      ∧ (s.skipAll l).auditor = s.auditor
      ∧ (s.skipAll l).ledger.closed = s.ledger.closed ∧ (s.skipAll l).ledger.audits = s.ledger.audits
      ∧ ∀ audit, (receivedOf (s.skipAll l).trace).count audit
        = ((countedOf (s.skipAll l).trace).map Prod.fst).count audit := by
  induction l generalizing s with
  | nil => exact ⟨h, rfl, rfl, rfl, hconserved⟩
  | cons e l ih =>
    apply ih
    . exact h.counted ⟨rfl, rfl, rfl, rfl, rfl, rfl⟩ ⟨nofun, fun _ => .inl rfl, nofun⟩
    . intro audit
      have hold := hconserved audit
      simp only [Auditing.count, Auditing.log, receivedOf_append, countedOf_append,
        receivedOf_counted, countedOf_counted, List.append_nil, List.map_append, List.count_append,
        List.map_cons, List.map_nil]
      rw [hold, List.map_cons, List.count_cons, List.count_cons, List.count_nil]
      omega

theorem Inv.deadline (h : Inv wire s) (hok : s.deadline = .ok s') : Inv wire s' := by
  unfold Auditing.deadline at hok
  split at hok
  . next hpc =>
    cases hok
    have hover := h.settled (by rw [hpc]; rfl)
    have hempty : Held wire [] := nofun
    obtain ⟨hcore, hauditor, hclosed, haudits, hcounts⟩ :=
      Core.skipAll (s := { s with auditor.deferred := [] })
        ⟨h.core.roots, h.core.tip, hempty, h.core.justified, h.core.tallied⟩ (by
          intro audit
          have hold := h.conserved audit
          rw [hpc] at hold
          exact hold)
    constructor
    . exact hcore
    . show (Auditing.skipAll _ _).auditor.deferred = []
      rw [hauditor]
    . intro _
      exact ⟨hclosed.trans hover.1, haudits.trans hover.2⟩
    . intro audit
      show _ = _ + ((Auditing.skipAll _ _).auditor.deferred.map Prod.snd).count audit + _
      rw [hauditor]
      exact hcounts audit
  . cases hok

theorem Core.released (hcore : Core wire s.auditor s.ledger s.trace)
    (hconserved : ∀ audit, (receivedOf s.trace).count audit
      = ((countedOf s.trace).map Prod.fst).count audit
        + (s.auditor.deferred.map Prod.snd).count audit)
    : Inv wire s.released := by
  unfold Auditing.released
  split
  . next hover =>
    exact ⟨hcore, trivial, fun _ => hover, hconserved⟩
  . exact ⟨hcore, trivial, nofun, hconserved⟩

theorem Tipped.buried {tr : List Event} {t h : Nat} (htip : Tipped tr t)
    (hle : asU32 (h + Loadtest.buried) ≤ t) (hlt : h + Loadtest.buried < u32Range)
    : ∃ t, .answered .tip (.ok t) ∈ tr ∧ h + Loadtest.buried ≤ t := by
  rw [asU32_of_lt hlt] at hle
  rcases htip with rfl | hmem
  . simp [Loadtest.buried] at hle
  . exact ⟨t, hmem, hle⟩

theorem Inv.conclude {audit : Audit} {release : Option Release} {answers : Answers} {auditor : Auditor}
    {verdict : Verdict} (h : Inv wire s)
    (hpc : s.pc = .judging audit release answers (.done (auditor, verdict)))
    : Core wire auditor (conclude s.ledger audit verdict)
        (s.trace ++ [.counted audit (.judged (release.map (·.tip)) answers verdict)])
      ∧ auditor.deferred = s.auditor.deferred := by
  have hok := h.pc
  rw [hpc] at hok
  obtain ⟨⟨pre, hpre, hroots⟩, hruns, hrelease⟩ := hok
  have hrun := hruns [] (auditor, verdict) .done
  rw [List.append_nil] at hrun
  have hkept := Auditor.kept_judgeBuried hrun
  have hmatches := Auditor.judgeBuried_matches hroots hrun
  rw [← hpre] at hmatches
  have hsuffix : answers <:+ answersOf s.trace := ⟨pre, hpre.symm⟩
  constructor
  . apply (h.core.kept hkept hsuffix).counted countedIn_conclude
    refine ⟨fun hv => ⟨answers, hsuffix, hmatches.1 hv⟩,
      fun hv => .inr ⟨answers, hsuffix, hmatches.2 hv⟩, ?_⟩
    intro _ _ _ height _ hheld hlt
    cases release with
    | none => cases hheld.symm.trans hrelease
    | some release =>
      obtain ⟨hrel, _, height', hheld', hle⟩ := hrelease
      cases hheld.symm.trans hheld'
      exact hrel.tip.buried hle hlt
  . exact hkept.deferred

theorem Inv.readTip {auditor : Auditor} {tip : Option Nat} (h : Inv wire s)
    (hpc : s.pc = .readingTip (.done (auditor, tip)))
    : Core wire auditor s.ledger s.trace ∧ auditor.deferred = s.auditor.deferred
      ∧ ∀ t, tip = some t → t = auditor.tip.1 := by
  have hok := h.pc
  rw [hpc] at hok
  obtain ⟨answers, hsuffix, hruns⟩ := hok
  have hrun := hruns [] (auditor, tip) .done
  rw [List.append_nil] at hrun
  obtain ⟨hkept, htip⟩ := Auditor.kept_zebraTip hrun
  exact ⟨h.core.kept hkept hsuffix, hkept.deferred, htip⟩

theorem Inv.go (h : Inv wire s) (hok : s.go wire = .ok s') : Inv wire s' := by
  have hpcOk := h.pc
  unfold Auditing.go at hok
  split at hok
  . next audit release answers auditor verdict hpc =>
    obtain ⟨hcore, hdeferred⟩ := h.conclude hpc
    rw [hpc] at hpcOk
    have hcount : ∀ audit', (receivedOf (s.trace ++ [.counted audit
          (.judged (release.map (·.tip)) answers verdict)])).count audit'
        = ((countedOf (s.trace ++ [.counted audit (.judged (release.map (·.tip)) answers
            verdict)])).map Prod.fst).count audit' + (auditor.deferred.map Prod.snd).count audit'
          + (match release with
            | none => []
            | some release => (release.todo ++ release.waiting).map Prod.snd).count audit' := by
      intro audit'
      have hold := h.conserved audit'
      rw [hpc] at hold
      rw [hdeferred]
      simp only [receivedOf_append, countedOf_append, receivedOf_counted, countedOf_counted,
        List.append_nil, List.map_append, List.count_append, List.map_cons, List.map_nil, hold]
      cases release with
      | none =>
        simp only [Pc.inFlight, List.count_nil]
        omega
      | some release =>
        simp only [Pc.inFlight, List.map_append, List.count_cons, List.count_append, List.count_nil]
        omega
    cases release with
    | none =>
      cases hok
      apply Core.releaseBuried hcore
      exact hcount
    | some release =>
      cases hok
      obtain ⟨_, _, hrelease, hempty, _⟩ := hpcOk
      constructor
      . exact hcore
      . exact ⟨hrelease.append _, hdeferred.trans hempty⟩
      . nofun
      . exact hcount
  . next auditor hpc =>
    cases hok
    obtain ⟨hcore, hdeferred, _⟩ := h.readTip hpc
    apply Core.released hcore
    intro audit
    have hold := h.conserved audit
    rw [hpc] at hold
    rw [hdeferred]
    exact hold
  . next auditor tip hpc =>
    cases hok
    obtain ⟨hcore, hdeferred, htip⟩ := h.readTip hpc
    have hempty : Held wire [] := nofun
    constructor
    . exact ⟨hcore.roots, hcore.tip, hempty, hcore.justified, hcore.tallied⟩
    . refine ⟨⟨?_, hcore.deferred, hempty⟩, rfl⟩
      rw [htip tip rfl]
      exact hcore.tip
    . nofun
    . intro audit
      have hold := h.conserved audit
      rw [hpc] at hold
      rw [← hdeferred] at hold
      simpa [Auditing.goto, Pc.inFlight] using hold
  . next tip height audit todo waiting hpc =>
    rw [hpc] at hpcOk
    obtain ⟨hrelease, hempty⟩ := hpcOk
    have htodo : Held wire todo := fun e he => hrelease.todo e (List.mem_cons_of_mem _ he)
    have hheld := hrelease.todo (height, audit) List.mem_cons_self
    split at hok
    . next hle =>
      cases hok
      apply h.goto
      . refine ⟨⟨answersOf s.trace, by simp, h.core.roots⟩, fun rest r hr => hr, ?_⟩
        exact ⟨⟨hrelease.tip, htodo, hrelease.waiting⟩, hempty, height, hheld, hle⟩
      . nofun
      . intro audit'
        rw [hpc]
        rfl
    . cases hok
      apply h.goto
      . refine ⟨⟨hrelease.tip, htodo, hrelease.waiting.append ?_⟩, hempty⟩
        intro e he
        rw [List.mem_singleton.mp he]
        exact hheld
      . nofun
      . intro audit'
        rw [hpc]
        simp only [Pc.inFlight, List.map_append, List.map_cons, List.map_nil, List.count_append,
          List.count_cons, List.count_nil, List.cons_append]
        omega
  . next tip waiting hpc =>
    cases hok
    rw [hpc] at hpcOk
    obtain ⟨hrelease, hempty⟩ := hpcOk
    apply Core.released
    . exact ⟨h.core.roots, h.core.tip, hrelease.waiting, h.core.justified, h.core.tallied⟩
    . intro audit
      have hold := h.conserved audit
      rw [hpc, hempty] at hold
      simpa [Pc.inFlight] using hold
  . cases hok

theorem Inv.step {input : Input} {u : Unit} (h : Inv wire s) (hok : s.step wire input = .ok (s', u))
    : Inv wire s' := by
  obtain ⟨t, hnext, heq⟩ := Run.map_ok hok
  cases heq
  cases input with
  | queue audit =>
    cases hnext
    exact h.queue audit
  | close =>
    cases hnext
    exact h.close
  | recv =>
    simp only [next] at hnext
    split at hnext
    . next hpc => exact h.recv hpc hnext
    . cases hnext
  | reply answer => exact h.reply hnext
  | go => exact h.go hnext
  | wake => exact h.wake hnext
  | deadline => exact h.deadline hnext

theorem inv_init (wire : Wire) (expect : Expect) (now stableBelow : Nat) (auditEvery : UInt64)
    (capacity : Nat) : Inv wire (init expect now (.new stableBelow auditEvery capacity)) := by
  constructor
  . exact ⟨nofun, .inl rfl, nofun, Trace.before_nil, ⟨rfl, rfl, rfl, rfl⟩⟩
  . trivial
  . nofun
  . exact fun _ => rfl

/--
Whatever zebra answers and whatever was served: every count of an audit is justified by zebra's answers
before it, the counters are those of the history, and at its end each audit that was accepted has been
counted once.
-/
theorem run_sound (wire : Wire) (expect : Expect) (now stableBelow : Nat) (auditEvery : UInt64)
    (capacity : Nat) (inputs : List Input) (s : Auditing)
    (hexec : Run.exec (step wire) (init expect now (.new stableBelow auditEvery capacity)) inputs = .ok s)
    : Trace.Before (Justified wire) s.trace ∧ Tallied s.ledger s.trace
      ∧ (s.pc = .returned → s.ledger.audits = []
        ∧ (receivedOf s.trace).Perm ((countedOf s.trace).map Prod.fst)) := by
  have h : Inv wire s :=
    Run.exec_invariant (fun _ _ _ _ h hok => h.step hok)
      (inv_init wire expect now stableBelow auditEvery capacity) hexec
  refine ⟨h.core.justified, h.core.tallied, ?_⟩
  intro hpc
  refine ⟨(h.settled (by rw [hpc]; rfl)).2, ?_⟩
  rw [List.perm_iff_count]
  intro audit
  have hempty := h.pc
  rw [hpc] at hempty
  rw [h.conserved audit, hpc, hempty]
  rfl

-- `BlockID` at height 5 and a `CompactBlock` of that height whose only transaction pays a fee of 7.
def sampleWire : Wire where
  blockId m :=
    if m = [0x08, 5, 0x12, 32] ++ List.replicate 32 1 then .ok ⟨5, List.replicate 32 1⟩
    else .error "not the sample"
  compactBlock m :=
    if m = [0x10, 5, 0x1a, 32] ++ List.replicate 32 1 ++ [0x22, 32] ++ List.replicate 32 2
        ++ [0x3a, 36, 0x12, 32] ++ List.replicate 32 3 ++ [0x18, 7, 0x42, 0] then
      .ok ⟨5, List.replicate 32 1, List.replicate 32 2, 0, [],
        [⟨0, List.replicate 32 3, 7, [], [], [], [], [], []⟩], some ⟨0, 0, 0⟩⟩
    else .error "not the sample"
  treeState _ := .error "not the sample"
  subtreeRoot _ := .error "not the sample"
  rawTransaction _ := .error "not the sample"
  lightdInfo _ := .error "not the sample"
  addressUtxos _ := .error "not the sample"
  digest _ := 0

-- Zebra with a coinbase as the only transaction of block 5.
def sampleZebra (tip : Nat) : (q : Call) → q.Reply
  | .now => (5000 : Nat)
  | .tip => .ok tip
  | .getblockhash _ => .ok (List.replicate 32 1)
  | .getblock height =>
    .ok ⟨List.replicate 32 1, height, 0, some (List.replicate 32 2),
      [⟨List.replicate 32 3, [.coinbase], [], [], [], [], none, none, none⟩], 0, 0, 0⟩
  | .prevout _ _ => .error .rpc
  | .gettreestate _ => .error .rpc
  | .getsubtreesbyindex _ => .error .rpc
  | .getaddressutxos _ => .error .rpc
  | .getrawmempool => .error .rpc
  | .getrawtransaction _ => .error .rpc

theorem run_sound_tip
    : ∃ s, Run.exec (step sampleWire) (init ⟨"main", 1⟩ 5000 (.new 0 1 8))
          [.queue (.tip ([0x08, 5, 0x12, 32] ++ List.replicate 32 1)), .close, .recv,
            .reply (sampleZebra 15), .reply (sampleZebra 15), .reply (sampleZebra 15), .go, .go,
            .reply (sampleZebra 15), .go, .go, .deadline] = .ok s
        ∧ s.pc = .returned ∧ s.ledger.tallies.audited = 1
        ∧ Trace.Before (Justified sampleWire) s.trace
        ∧ (receivedOf s.trace).Perm ((countedOf s.trace).map Prod.fst) := by
  refine ⟨_, rfl, rfl, rfl, ?_⟩
  have hsound := run_sound sampleWire ⟨"main", 1⟩ 5000 0 1 8
    [.queue (.tip ([0x08, 5, 0x12, 32] ++ List.replicate 32 1)), .close, .recv,
      .reply (sampleZebra 15), .reply (sampleZebra 15), .reply (sampleZebra 15), .go, .go,
      .reply (sampleZebra 15), .go, .go, .deadline] _ rfl
  exact ⟨hsound.1, (hsound.2.2 rfl).2⟩

-- A block is audited whose fee is not the one zebra comes to, and the tip that zebra holds is skipped
-- when the time to settle is over before it is buried.
theorem run_not_exact
    : (∃ s, Run.exec (step sampleWire) (init ⟨"main", 1⟩ 5000 (.new 0 1 8))
          [.queue (.full 5 ([0x10, 5, 0x1a, 32] ++ List.replicate 32 1 ++ [0x22, 32]
              ++ List.replicate 32 2 ++ [0x3a, 36, 0x12, 32] ++ List.replicate 32 3
              ++ [0x18, 7, 0x42, 0]) 5), .close, .recv, .reply (sampleZebra 15),
            .reply (sampleZebra 15), .reply (sampleZebra 15), .go, .go, .reply (sampleZebra 15),
            .reply (sampleZebra 15), .go, .go, .deadline] = .ok s
        ∧ s.ledger.tallies.audited = 1
        ∧ ∃ served expected, sampleWire.compactBlock ([0x10, 5, 0x1a, 32] ++ List.replicate 32 1
              ++ [0x22, 32] ++ List.replicate 32 2 ++ [0x3a, 36, 0x12, 32] ++ List.replicate 32 3
              ++ [0x18, 7, 0x42, 0]) = .ok served
          ∧ Runs (Zebra.compactBlock 5 .checked) [⟨.getblock 5, sampleZebra 15 (.getblock 5)⟩]
              (.ok expected)
          ∧ served ≠ expected)
      ∧ ∃ s, Run.exec (step sampleWire) (init ⟨"main", 1⟩ 5000 (.new 0 1 8))
          [.queue (.tip ([0x08, 5, 0x12, 32] ++ List.replicate 32 1)), .close, .recv,
            .reply (sampleZebra 14), .reply (sampleZebra 14), .reply (sampleZebra 14), .go, .go, .go,
            .deadline] = .ok s
        ∧ s.ledger.tallies.skipped = 1
        ∧ Runs (Zebra.blockHash 5) [⟨.getblockhash 5, sampleZebra 14 (.getblockhash 5)⟩]
            (.ok (List.replicate 32 1)) := by
  refine ⟨⟨_, rfl, rfl, _, _, rfl, .ask .done, by decide⟩, _, rfl, rfl, .ask .done⟩

end Auditing
end Loadtest
