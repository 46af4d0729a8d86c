import Ztest.Loadtest.World.Lemmas.Judge
import Ztest.Loadtest.World.Lemmas.Wallets

namespace Loadtest

open Dialog (Safe)

section Ledger

variable {cx : Cx} {node : Node} {chain chain' seen : Chain} {l l' : Ledger}

/--
What the ledger holds below `stableBelow` is what the server says of the chain.
-/
structure LedgerOk (cx : Cx) (node : Node) (chain : Chain) (l : Ledger) : Prop where
  stableBelow : l.stableBelow = cx.stableBelow
  violations : l.tallies.violations = 0
  blocks : ∀ height, height < cx.stableBelow → l.blocks height ≠ 0
    → ∃ b, node.blockAt chain height = some b
      ∧ l.blocks height = max (Ledger.low (cx.wire.digest b.shielded)) 1
  answers : ∀ key held, l.answers key = some held
    → ∃ digest, KeyOk cx node chain key digest ∧ held = Ledger.low digest

-- At most one answer is queued.
def Queues (P : Audit → Prop) (l l' : Ledger) : Prop :=
  l'.audits = l.audits ∨ ∃ audit, P audit ∧ l'.audits = l.audits ++ [audit]

theorem KeyOk.evolves {key : Key} {digest : Nat} (h : KeyOk cx node chain key digest)
    (hevolves : Evolves cx chain chain') : KeyOk cx node chain' key digest := by
  cases key with
  | treeState height =>
    intro hlt
    obtain ⟨b, hb, hdigest⟩ := h hlt
    exact ⟨b, blockAt_evolves hevolves hlt hb, hdigest⟩
  | _ => exact h

theorem KeyOk.unique {key : Key} {digest digest' : Nat} (hstable : Key.isStable cx key = true)
    (h : KeyOk cx node chain key digest) (h' : KeyOk cx node chain key digest') : digest = digest' := by
  cases key with
  | treeState height =>
    have hlt : height < cx.stableBelow := by simpa [Key.isStable] using hstable
    obtain ⟨b, hb, rfl⟩ := h hlt
    obtain ⟨b', hb', rfl⟩ := h' hlt
    cases hb.symm.trans hb'
    rfl
  | mempool d => exact h.trans h'.symm
  | _ => cases hstable

theorem Genuine.evolves {origin : Chain} {audit : Audit} (h : Genuine cx node chain origin audit)
    (hevolves : Evolves cx chain chain') : Genuine cx node chain' origin audit := by
  cases audit with
  | shielded height message =>
    obtain ⟨hlt, b, hb, hmessage⟩ := h
    exact ⟨hlt, b, blockAt_evolves hevolves hlt hb, hmessage⟩
  | _ => exact h

namespace LedgerOk

theorem evolves (h : LedgerOk cx node chain l) (hevolves : Evolves cx chain chain')
    : LedgerOk cx node chain' l := by
  refine ⟨h.stableBelow, h.violations, ?_, ?_⟩
  . intro height hlt hne
    obtain ⟨b, hb, hheld⟩ := h.blocks height hlt hne
    exact ⟨b, blockAt_evolves hevolves hlt hb, hheld⟩
  . intro key held hheld
    obtain ⟨digest, hkey, hlow⟩ := h.answers key held hheld
    exact ⟨digest, hkey.evolves hevolves, hlow⟩

theorem queue (h : LedgerOk cx node chain l) (audit : Audit) : LedgerOk cx node chain (l.queue audit) := by
  unfold Ledger.queue
  split
  . exact ⟨h.stableBelow, h.violations, h.blocks, h.answers⟩
  . exact ⟨h.stableBelow, h.violations, h.blocks, h.answers⟩

theorem queueOnce (h : LedgerOk cx node chain l) (key : Key × Option Nat) (audit : Audit)
    : LedgerOk cx node chain (l.queueOnce key audit) := by
  unfold Ledger.queueOnce
  split
  . exact h
  . apply LedgerOk.queue
    exact ⟨h.stableBelow, h.violations, h.blocks, h.answers⟩

theorem hold (h : LedgerOk cx node chain l) {key : Key} {digest : Nat}
    (hkey : KeyOk cx node chain key digest)
    : LedgerOk cx node chain
        { l with answers := Function.update l.answers key (some (Ledger.low digest)) } := by
  refine ⟨h.stableBelow, h.violations, h.blocks, ?_⟩
  intro key' held hheld
  dsimp only at hheld
  rcases eq_or_ne key' key with rfl | hne
  . rw [Function.update_self] at hheld
    cases hheld
    exact ⟨digest, hkey, rfl⟩
  . rw [Function.update_of_ne hne] at hheld
    exact h.answers key' held hheld

theorem answer (h : LedgerOk cx node chain l) {key : Key} {digest : Nat} {stable : Bool} {audit : Audit}
    (hkey : KeyOk cx node chain key digest) (hstable : stable = true → Key.isStable cx key = true)
    : LedgerOk cx node chain (l.answer key digest stable audit) := by
  have hlook : LedgerOk cx node chain (l.look key digest stable).1 := by
    unfold Ledger.look
    dsimp only
    split
    . next held hheld =>
      split
      . exact ⟨h.stableBelow, h.violations, h.blocks, h.answers⟩
      . next hne =>
        split
        . next hs =>
          obtain ⟨digest', hkey', rfl⟩ := h.answers key held hheld
          exact absurd (congrArg Ledger.low (hkey'.unique (hstable hs) hkey)) hne
        . exact h.hold hkey
    . exact h.hold hkey
  unfold Ledger.answer
  split
  . next hl =>
    rw [hl] at hlook
    exact hlook.queueOnce _ audit
  . next hl =>
    rw [hl] at hlook
    exact hlook

theorem shieldedBlock (h : LedgerOk cx node chain l) {height : Nat} {message : Bytes}
    (hblock : height < cx.stableBelow → ∃ b, node.blockAt chain height = some b ∧ message = b.shielded)
    : LedgerOk cx node chain (l.shieldedBlock cx.wire height message) := by
  unfold Ledger.shieldedBlock
  split
  . next hlt =>
    rw [h.stableBelow] at hlt
    obtain ⟨b, hb, rfl⟩ := hblock hlt
    have hheld : LedgerOk cx node chain { l with
        blocks := Function.update l.blocks height (max (Ledger.low (cx.wire.digest b.shielded)) 1)
        tallies.blocksHeld := l.tallies.blocksHeld + 1 } := by
      refine ⟨h.stableBelow, h.violations, ?_, h.answers⟩
      intro height' hlt' hne
      dsimp only at hne ⊢
      rcases eq_or_ne height' height with rfl | hother
      . exact ⟨b, hb, Function.update_self _ _ _⟩
      . rw [Function.update_of_ne hother] at hne ⊢
        exact h.blocks height' hlt' hne
    simp only
    split
    . split
      . exact hheld.queue _
      . exact hheld
    . next hne =>
      obtain ⟨b', hb', hsame⟩ := h.blocks height hlt hne
      cases hb.symm.trans hb'
      rw [if_pos hsame]
      exact ⟨h.stableBelow, h.violations, h.blocks, h.answers⟩
  . exact h

end LedgerOk

theorem queue_queues {P : Audit → Prop} {audit : Audit} (h : P audit) (l : Ledger)
    : Queues P l (l.queue audit) := by
  unfold Ledger.queue
  split
  . exact .inr ⟨audit, h, rfl⟩
  . exact .inl rfl

theorem queueOnce_queues {P : Audit → Prop} {audit : Audit} (h : P audit) (key : Key × Option Nat)
    (l : Ledger) : Queues P l (l.queueOnce key audit) := by
  unfold Ledger.queueOnce
  split
  . exact .inl rfl
  . exact queue_queues (P := P) h { l with queuedKeys := key :: l.queuedKeys }

theorem answer_queues {P : Audit → Prop} {audit : Audit} (h : P audit) (key : Key) (digest : Nat)
    (stable : Bool) (l : Ledger) : Queues P l (l.answer key digest stable audit) := by
  have hlook : (l.look key digest stable).1.audits = l.audits := by
    unfold Ledger.look
    dsimp only
    split
    . split
      . rfl
      . split <;> rfl
    . rfl
  unfold Ledger.answer
  split
  . next l' entry hl =>
    rw [hl] at hlook
    have hqueues := queueOnce_queues (P := P) h entry l'
    unfold Queues at hqueues ⊢
    rwa [hlook] at hqueues
  . next hl =>
    rw [hl] at hlook
    exact .inl hlook

theorem shieldedBlock_queues {P : Audit → Prop} {height : Nat} {message : Bytes}
    (h : height < l.stableBelow → P (.shielded height message)) (wire : Wire)
    : Queues P l (l.shieldedBlock wire height message) := by
  unfold Ledger.shieldedBlock
  split
  . next hlt =>
    simp only
    split
    . split
      . exact queue_queues (P := P) (h hlt) { l with blocks := _, tallies := _ }
      . exact .inl rfl
    . split
      . exact .inl rfl
      . exact .inl rfl
  . exact .inl rfl

theorem LedgerOk.tell (h : LedgerOk cx node chain l) {q : Request} (hq : TellOk cx node chain seen q)
    : LedgerOk cx node chain (l.tell cx.wire q)
      ∧ Queues (Genuine cx node chain seen) l (l.tell cx.wire q) := by
  cases q with
  | violated check height detail => exact absurd hq id
  | answer key digest stable audit =>
    obtain ⟨hgenuine, hkey, hstable⟩ := hq
    exact ⟨h.answer hkey hstable, answer_queues hgenuine key digest stable l⟩
  | shieldedBlock height message =>
    refine ⟨h.shieldedBlock hq, shieldedBlock_queues ?_ cx.wire⟩
    intro hlt
    rw [h.stableBelow] at hlt
    exact ⟨hlt, hq hlt⟩
  | queue audit => exact ⟨h.queue audit, queue_queues hq l⟩
  | _ => exact ⟨h, .inl rfl⟩

end Ledger

section Auditing

variable {cx : Cx} {node : Node} {chain chain' origin : Chain} {s s' : Auditing} {expect : Expect}

-- Where an answer that waits to be buried was computed does not matter.
def Waiting (cx : Cx) (node : Node) (held : List (Nat × Audit)) : Prop :=
  ∀ h ∈ held, ∀ chain origin a, Genuine cx node chain origin h.2 ∧ node.ListedWell a origin h.2

def PcOk (cx : Cx) (node : Node) (chain origin : Chain) (a : Auditor) : Pc → Prop
  | .judging audit release answers d =>
    Safe (auditContract cx node origin a audit) (Acquitted a) d (chain, answers)
      ∧ ∀ r, release = some r → Waiting cx node (r.todo ++ r.waiting)
  | .readingTip d =>
    ∃ answers, Safe (auditContract cx node [] a (.tip [])) (fun _ r => a.Same r.1) d (chain, answers)
  | .releasing r => Waiting cx node (r.todo ++ r.waiting)
  | _ => True

structure AuditingOk (cx : Cx) (node : Node) (expect : Expect) (chain origin : Chain) (s : Auditing)
    : Prop where
  ledger : LedgerOk cx node chain s.ledger
  expect : s.auditor.expect = expect
  deferred : Waiting cx node s.auditor.deferred
  pc : PcOk cx node chain origin s.auditor s.pc

theorem PcOk.evolves {a : Auditor} {pc : Pc} (h : PcOk cx node chain origin a pc)
    (hevolves : Evolves cx chain chain') : PcOk cx node chain' origin a pc := by
  cases pc with
  | judging audit release answers d => exact ⟨h.1.rely ⟨hevolves, rfl⟩, h.2⟩
  | readingTip d =>
    obtain ⟨answers, hsafe⟩ := h
    exact ⟨answers, hsafe.rely ⟨hevolves, rfl⟩⟩
  | _ => exact h

namespace AuditingOk

theorem evolves (h : AuditingOk cx node expect chain origin s) (hevolves : Evolves cx chain chain')
    : AuditingOk cx node expect chain' origin s :=
  ⟨h.ledger.evolves hevolves, h.expect, h.deferred, h.pc.evolves hevolves⟩

theorem releaseBuried (hledger : LedgerOk cx node chain s.ledger) (hexpect : s.auditor.expect = expect)
    (hdeferred : Waiting cx node s.auditor.deferred)
    : AuditingOk cx node expect chain origin s.releaseBuried := by
  refine ⟨hledger, hexpect, hdeferred, [], ?_⟩
  have hsafe : Safe (auditContract cx node [] s.auditor (.tip []))
      (fun _ r => s.auditor.Same r.1 ∧ ∀ tip, r.2 = some tip → True) s.auditor.zebraTip (chain, []) :=
    zebraTip_safe (fun _ _ _ _ => trivial) (fun _ _ _ _ => trivial)
  exact hsafe.imp fun _ _ hr => hr.1

theorem defer (h : AuditingOk cx node expect chain origin s) {audit : Audit} (height : Nat)
    (haudit : ∀ chain origin a, Genuine cx node chain origin audit ∧ node.ListedWell a origin audit)
    : AuditingOk cx node expect chain origin ((s.defer height audit).releaseBuried) := by
  apply releaseBuried (s := s.defer height audit) h.ledger h.expect
  intro held hheld
  rcases List.mem_append.mp hheld with hheld | hheld
  . exact h.deferred held hheld
  . cases List.mem_singleton.mp hheld
    exact haudit

theorem judge (hcorrect : node.Correct cx expect) (h : AuditingOk cx node expect chain origin s)
    {audit : Audit} (hgenuine : Genuine cx node chain origin audit)
    (hlisted : node.ListedWell s.auditor origin audit)
    : AuditingOk cx node expect chain origin (s.judge cx.wire audit) := by
  have hcorrect' : node.Correct cx s.auditor.expect := h.expect.symm ▸ hcorrect
  have hjudge : AuditingOk cx node expect chain origin
      (s.goto (.judging audit none [] (s.auditor.judgeBuried cx.wire audit))) :=
    ⟨h.ledger, h.expect, h.deferred, judgeBuried_safe hcorrect' hgenuine hlisted rfl, nofun⟩
  cases audit with
  | full height message tip => exact h.defer height fun _ _ _ => ⟨hgenuine, trivial⟩
  | treeState height message tip => exact h.defer height fun _ _ _ => ⟨hgenuine, trivial⟩
  | tip message =>
    obtain ⟨display, _, hblocks⟩ := hcorrect.blocks
    obtain ⟨hash, b, hdata, rfl⟩ := hgenuine
    simp only [Auditing.judge, (hblocks hash b hdata).id]
    exact h.defer _ fun _ _ _ => ⟨⟨hash, b, hdata, rfl⟩, trivial⟩
  | _ => exact hjudge

theorem released (hledger : LedgerOk cx node chain s.ledger) (hexpect : s.auditor.expect = expect)
    (hdeferred : Waiting cx node s.auditor.deferred)
    : AuditingOk cx node expect chain origin s.released := by
  refine ⟨hledger, hexpect, hdeferred, ?_⟩
  unfold Auditing.released Auditing.goto
  dsimp only
  split <;> trivial

theorem conclude {l : Ledger} (h : LedgerOk cx node chain l) (audit : Audit) {verdict : Verdict}
    (hverdict : verdict.outcome ≠ .violated)
    : LedgerOk cx node chain (Auditing.conclude l audit verdict)
      ∧ (Auditing.conclude l audit verdict).audits = l.audits := by
  cases verdict with
  | differs height detail => exact absurd rfl hverdict
  | _ => exact ⟨⟨h.stableBelow, h.violations, h.blocks, h.answers⟩, rfl⟩

theorem reply (h : AuditingOk cx node expect chain origin s) (hvalid : node.valid chain = true)
    {choice : Choice}
    (hmeets : ∀ audit release answers q k, s.pc = .judging audit release answers (.ask q k)
      → Answered choice q → node.JudgesWell chain origin s.auditor choice audit answers q)
    (hstep : s.reply (node.zebra chain choice) = .ok s')
    : AuditingOk cx node expect chain origin s' ∧ s'.ledger = s.ledger := by
  have hpc := h.pc
  unfold Auditing.reply at hstep
  split at hstep
  . next audit release answers q k hs =>
    cases hstep
    rw [hs] at hpc
    obtain ⟨hsafe, hrelease⟩ := hpc
    obtain ⟨_, hpost⟩ := hsafe (chain, answers) ((auditContract cx node origin _ _).refl _)
    refine ⟨⟨h.ledger, h.expect, h.deferred, ?_, hrelease⟩, rfl⟩
    exact hpost _ _ ⟨rfl, hvalid, choice, rfl, hmeets audit release answers q k hs⟩
  . next q k hs =>
    cases hstep
    rw [hs] at hpc
    obtain ⟨answers, hsafe⟩ := hpc
    obtain ⟨_, hpost⟩ := hsafe (chain, answers) ((auditContract cx node [] _ _).refl _)
    refine ⟨⟨h.ledger, h.expect, h.deferred, answers ++ [⟨q, node.zebra chain choice q⟩], ?_⟩, rfl⟩
    exact hpost _ _ ⟨rfl, hvalid, choice, rfl, fun _ => trivial⟩
  . cases hstep

theorem go (hcorrect : node.Correct cx expect) (h : AuditingOk cx node expect chain origin s)
    (hstep : s.go cx.wire = .ok s')
    : AuditingOk cx node expect chain origin s' ∧ s'.ledger.audits = s.ledger.audits := by
  have hpc := h.pc
  unfold Auditing.go at hstep
  split at hstep
  . next audit release answers auditor verdict hs =>
    rw [hs] at hpc
    obtain ⟨hsafe, hrelease⟩ := hpc
    obtain ⟨hsame, hverdict⟩ := hsafe (chain, answers) ((auditContract cx node origin _ _).refl _)
    obtain ⟨hledger, haudits⟩ := conclude h.ledger audit hverdict
    have hexpect : auditor.expect = expect := hsame.expect.trans h.expect
    have hdeferred : Waiting cx node auditor.deferred := by
      rw [hsame.deferred]
      exact h.deferred
    dsimp only at hstep
    split at hstep
    . cases hstep
      exact ⟨releaseBuried hledger hexpect hdeferred, haudits⟩
    . next r =>
      cases hstep
      exact ⟨⟨hledger, hexpect, hdeferred, hrelease r rfl⟩, haudits⟩
  . next auditor hs =>
    cases hstep
    rw [hs] at hpc
    obtain ⟨answers, hsafe⟩ := hpc
    have hsame := hsafe (chain, answers) ((auditContract cx node [] _ _).refl _)
    refine ⟨released h.ledger (hsame.expect.trans h.expect) ?_, rfl⟩
    show Waiting cx node auditor.deferred
    rw [hsame.deferred]
    exact h.deferred
  . next auditor tip hs =>
    cases hstep
    rw [hs] at hpc
    obtain ⟨answers, hsafe⟩ := hpc
    have hsame := hsafe (chain, answers) ((auditContract cx node [] _ _).refl _)
    have hwaiting : Waiting cx node (auditor.deferred ++ []) := by
      rw [List.append_nil, hsame.deferred]
      exact h.deferred
    exact ⟨⟨h.ledger, hsame.expect.trans h.expect, nofun, hwaiting⟩, rfl⟩
  . next tip height audit todo waiting hs =>
    rw [hs] at hpc
    have hwaiting : Waiting cx node ((height, audit) :: (todo ++ waiting)) := hpc
    split at hstep
    . cases hstep
      obtain ⟨hgenuine, hlisted⟩ := hwaiting _ List.mem_cons_self chain origin s.auditor
      have hcorrect' : node.Correct cx s.auditor.expect := h.expect.symm ▸ hcorrect
      refine ⟨⟨h.ledger, h.expect, h.deferred, judgeBuried_safe hcorrect' hgenuine hlisted rfl, ?_⟩, rfl⟩
      intro r hr
      cases hr
      exact fun held hheld => hwaiting held (List.mem_cons_of_mem _ hheld)
    . cases hstep
      refine ⟨⟨h.ledger, h.expect, h.deferred, ?_⟩, rfl⟩
      intro held hheld
      apply hwaiting
      simp only [List.mem_append, List.mem_cons, List.not_mem_nil, or_false] at hheld ⊢
      tauto
  . next tip waiting hs =>
    cases hstep
    rw [hs] at hpc
    exact ⟨released h.ledger h.expect hpc, rfl⟩
  . cases hstep

theorem wake (h : AuditingOk cx node expect chain origin s) (hstep : s.wake = .ok s')
    : AuditingOk cx node expect chain origin s' ∧ s'.ledger.audits = s.ledger.audits := by
  unfold Auditing.wake at hstep
  split at hstep
  . split at hstep
    . cases hstep
    . cases hstep
      exact ⟨releaseBuried h.ledger h.expect h.deferred, rfl⟩
  . cases hstep

theorem skipAll (hledger : LedgerOk cx node chain s.ledger) (held : List (Nat × Audit))
    : LedgerOk cx node chain (s.skipAll held).ledger ∧ (s.skipAll held).auditor = s.auditor
      ∧ (s.skipAll held).ledger.audits = s.ledger.audits := by
  induction held generalizing s with
  | nil => exact ⟨hledger, rfl, rfl⟩
  | cons h rest ih =>
    exact ih (s := { s with ledger := s.ledger.skipped }.count h.2 .drained)
      ⟨hledger.stableBelow, hledger.violations, hledger.blocks, hledger.answers⟩

theorem deadline (h : AuditingOk cx node expect chain origin s) (hstep : s.deadline = .ok s')
    : AuditingOk cx node expect chain origin s' ∧ s'.ledger.audits = s.ledger.audits := by
  unfold Auditing.deadline at hstep
  split at hstep
  . cases hstep
    obtain ⟨hledger, hauditor, haudits⟩ :=
      skipAll (s := { s with auditor.deferred := [] }) h.ledger s.auditor.deferred
    refine ⟨⟨hledger, ?_, ?_, trivial⟩, haudits⟩
    . show (Auditing.skipAll _ _).auditor.expect = expect
      rw [hauditor]
      exact h.expect
    . show Waiting cx node (Auditing.skipAll _ _).auditor.deferred
      rw [hauditor]
      exact nofun
  . cases hstep

end AuditingOk
end Auditing

end Loadtest
