import Ztest.Loadtest.World.Lemmas.Invariant
import Mathlib.Data.List.Forall2

namespace Loadtest

open Dialog (Safe)

namespace World

section Invariant

variable {cx : Cx} {node : Node} {expect : Expect} {w w' : World}

structure Uncharged (cx : Cx) (node : Node) (expect : Expect) (w : World) : Prop where
  valid : node.valid w.chain = true
  auditing : AuditingOk cx node expect w.chain w.origin w.auditing
  queued : List.Forall₂ (Genuine cx node w.chain) w.origins w.auditing.ledger.audits
  sessions : ∀ s ∈ w.sessions, Safe (walletContract cx node) (fun _ _ => True) s.talk (w.chain, s.seen)

theorem Uncharged.evolves (h : Uncharged cx node expect w) {chain : Chain}
    (hvalid : node.valid chain = true) (hevolves : Evolves cx w.chain chain)
    : Uncharged cx node expect { w with chain := chain } := by
  refine ⟨hvalid, h.auditing.evolves hevolves, ?_, ?_⟩
  . exact h.queued.imp fun _ _ hgenuine => hgenuine.evolves hevolves
  . intro s hs
    exact (h.sessions s hs).rely ⟨hevolves, rfl⟩

theorem Uncharged.audit (h : Uncharged cx node expect w) {auditing : Auditing}
    (hok : AuditingOk cx node expect w.chain w.origin auditing)
    (haudits : auditing.ledger.audits = w.auditing.ledger.audits)
    : Uncharged cx node expect { w with auditing := auditing } := by
  refine ⟨h.valid, hok, ?_, h.sessions⟩
  show List.Forall₂ _ w.origins auditing.ledger.audits
  rw [haudits]
  exact h.queued

theorem evolves_extend (chain : Chain) (h : Hash) : Evolves cx chain (chain ++ [h]) := by
  intro height h' _ hh'
  exact List.getElem?_append_left (List.getElem?_eq_some_iff.mp hh').1 ▸ hh'

theorem evolves_reorg {chain : Chain} {keep : Nat} (hstable : cx.stableBelow ≤ keep)
    (hkeep : keep ≤ chain.length) (new : Chain) : Evolves cx chain (chain.take keep ++ new) := by
  intro height h hlt hh
  rw [List.getElem?_append_left, List.getElem?_take_of_lt]
  . exact hh
  . omega
  . rw [List.length_take]
    omega

theorem Uncharged.act (h : Uncharged cx node expect w) {i : Nat} {choice : Choice}
    (hmeets : Meets node w (.act i choice)) (hstep : w.act cx node i choice = .ok w')
    : Uncharged cx node expect w' := by
  unfold World.act at hstep
  split at hstep
  . next q k seen hs =>
    cases hstep
    have hmem : (⟨.ask q k, seen⟩ : Session) ∈ w.sessions := List.mem_of_getElem? hs
    obtain ⟨hpre, hpost⟩ := h.sessions _ hmem (w.chain, seen) ((walletContract cx node).refl _)
    obtain ⟨hledger, hqueues⟩ := h.auditing.ledger.tell (hpre h.valid)
    simp only [Meets, hs] at hmeets
    refine ⟨h.valid, ⟨hledger, h.auditing.expect, h.auditing.deferred, h.auditing.pc⟩, ?_, ?_⟩
    . rcases hqueues with hsame | ⟨audit, hgenuine, hgrown⟩
      . dsimp only
        rw [hsame, if_neg (Nat.lt_irrefl _)]
        exact h.queued
      . dsimp only
        rw [hgrown, if_pos (by simp)]
        exact List.rel_append h.queued (.cons hgenuine .nil)
    . intro s hmem'
      rcases List.mem_or_eq_of_mem_set hmem' with hmem' | rfl
      . exact h.sessions s hmem'
      . exact hpost _ _ ⟨rfl, h.valid, choice, rfl, hmeets⟩
  . cases hstep

theorem judge_audits (wire : Wire) (s : Auditing) (audit : Audit)
    : (s.judge wire audit).ledger.audits = s.ledger.audits := by
  cases audit with
  | tip message =>
    simp only [Auditing.judge]
    split <;> rfl
  | _ => rfl

theorem Uncharged.recv (hcorrect : node.Correct cx expect) (h : Uncharged cx node expect w)
    (hmeets : Meets node w .recv) (hstep : w.recv cx = .ok w') : Uncharged cx node expect w' := by
  unfold World.recv at hstep
  split at hstep
  . cases hstep
  . next auditing hnext =>
    simp only [Auditing.next] at hnext
    split at hnext
    . next hpc =>
      unfold Auditing.recv at hnext
      have hqueued := h.queued
      split at hnext
      . next audit rest haudits =>
        cases hnext
        rw [haudits] at hqueued
        cases horigins : w.origins with
        | nil =>
          rw [horigins] at hqueued
          cases hqueued
        | cons origin origins =>
          rw [horigins] at hqueued hstep
          cases hstep
          obtain ⟨hgenuine, hrest⟩ := List.forall₂_cons.mp hqueued
          simp only [Meets, haudits, horigins] at hmeets
          have hok : AuditingOk cx node expect w.chain origin
              ({ w.auditing with ledger.audits := rest }.log (.received audit)) := by
            refine ⟨⟨h.auditing.ledger.stableBelow, h.auditing.ledger.violations,
              h.auditing.ledger.blocks, h.auditing.ledger.answers⟩, h.auditing.expect,
              h.auditing.deferred, ?_⟩
            show PcOk cx node w.chain origin w.auditing.auditor w.auditing.pc
            rw [hpc]
            trivial
          refine ⟨h.valid, hok.judge hcorrect hgenuine hmeets, ?_, h.sessions⟩
          show List.Forall₂ _ origins (Auditing.judge _ _ _).ledger.audits
          rw [judge_audits]
          exact hrest
      . next haudits =>
        rw [haudits] at hqueued
        split at hnext
        . cases hnext
          have hnil := List.forall₂_nil_right_iff.mp hqueued
          split at hstep
          . cases hstep
            have hok : AuditingOk cx node expect w.chain w.origin (w.auditing.goto .settling) :=
              ⟨h.auditing.ledger, h.auditing.expect, h.auditing.deferred, trivial⟩
            exact h.audit hok rfl
          . next horigins =>
            rw [hnil] at horigins
            cases horigins
        . cases hnext
    . cases hnext

theorem Uncharged.next (hcorrect : node.Correct cx expect) (h : Uncharged cx node expect w)
    {input : Input} (hmeets : Meets node w input) (hstep : w.next cx node input = .ok w')
    : Uncharged cx node expect w' := by
  cases input with
  | extend hash =>
    simp only [World.next] at hstep
    split at hstep
    . next hvalid =>
      cases hstep
      exact h.evolves hvalid (evolves_extend w.chain hash)
    . cases hstep
  | reorg keep new =>
    simp only [World.next] at hstep
    split at hstep
    . next hreorg =>
      obtain ⟨hstable, hkeep, _, hvalid⟩ := hreorg
      cases hstep
      exact h.evolves hvalid (evolves_reorg hstable hkeep new)
    . cases hstep
  | spawn wallet =>
    cases hstep
    refine ⟨h.valid, h.auditing, h.queued, ?_⟩
    intro s hs
    rcases List.mem_append.mp hs with hs | hs
    . exact h.sessions s hs
    . cases List.mem_singleton.mp hs
      exact talk_tame hcorrect wallet _
  | act i choice => exact h.act hmeets hstep
  | recv => exact h.recv hcorrect hmeets hstep
  | zebra choice =>
    obtain ⟨auditing, hreply, rfl⟩ := Run.map_ok hstep
    have hwell : ∀ audit release answers q k,
        w.auditing.pc = .judging audit release answers (.ask q k) → Answered choice q
          → node.JudgesWell w.chain w.origin w.auditing.auditor choice audit answers q := by
      intro audit release answers q k hs
      simpa only [Meets, hs] using hmeets
    obtain ⟨hok, hledger⟩ := h.auditing.reply h.valid hwell hreply
    exact h.audit hok (congrArg Ledger.audits hledger)
  | go =>
    obtain ⟨auditing, hgo, rfl⟩ := Run.map_ok hstep
    obtain ⟨hok, haudits⟩ := h.auditing.go hcorrect hgo
    exact h.audit hok haudits
  | close =>
    cases hstep
    exact h.audit ⟨⟨h.auditing.ledger.stableBelow, h.auditing.ledger.violations,
      h.auditing.ledger.blocks, h.auditing.ledger.answers⟩, h.auditing.expect, h.auditing.deferred,
      h.auditing.pc⟩ rfl
  | wake =>
    obtain ⟨auditing, hwake, rfl⟩ := Run.map_ok hstep
    obtain ⟨hok, haudits⟩ := h.auditing.wake hwake
    exact h.audit hok haudits
  | deadline =>
    obtain ⟨auditing, hdeadline, rfl⟩ := Run.map_ok hstep
    obtain ⟨hok, haudits⟩ := h.auditing.deadline hdeadline
    exact h.audit hok haudits

theorem uncharged_init {chain : Chain} (hvalid : node.valid chain = true) (now : Nat)
    (auditEvery : UInt64) (capacity : Nat)
    : Uncharged cx node expect (init cx chain expect now auditEvery capacity) := by
  refine ⟨hvalid, ⟨⟨rfl, rfl, ?_, nofun⟩, rfl, nofun, trivial⟩, .nil, nofun⟩
  intro height _ hne
  exact absurd rfl hne

theorem never_charged (hcorrect : node.Correct cx expect) {chain : Chain}
    (hvalid : node.valid chain = true) (now : Nat) (auditEvery : UInt64) (capacity : Nat)
    {inputs : List Input}
    (hmeets : Run.Along (step cx node) (Meets node) (init cx chain expect now auditEvery capacity) inputs)
    (hexec : Run.exec (step cx node) (init cx chain expect now auditEvery capacity) inputs = .ok w)
    : w.auditing.ledger.tallies.violations = 0 := by
  have hw : Uncharged cx node expect w := by
    apply Run.exec_invariant_along (I := Uncharged cx node expect) _ _ hmeets hexec
    . intro w input w' _ h hmeets hstep
      obtain ⟨w'', hnext, heq⟩ := Run.map_ok hstep
      cases heq
      exact h.next hcorrect hmeets hnext
    . exact uncharged_init hvalid now auditEvery capacity
  exact hw.auditing.ledger.violations

end Invariant

-- A tree of empty blocks: genesis, and two branches of two blocks each.
namespace Sample

def hash (branch height : UInt8) : Hash := ⟨branch :: height :: List.replicate 30 0, rfl⟩

def text (bytes : Bytes) : String := String.ofList (bytes.map Char.ofUInt8)

def compact (height : Nat) (hash prev : Bytes) : CompactBlock :=
  ⟨height, hash, prev, 0, [], [], some ⟨0, 0, 0⟩⟩

def data (h : Hash) (prev : Option Hash) (height : UInt8) : BlockData :=
  let compact := compact height.toNat h.val ((prev.map Subtype.val).getD (List.replicate 32 0))
  let message := compact.encode (fun _ => []) (fun _ => [])
  {
    block := ⟨h.val.reverse, height.toNat, 0, prev.map (·.val.reverse), [], 0, 0, 0⟩
    state := ⟨text h.val, height.toNat, 0, "", "", ""⟩
    completes := fun _ => []
    compact := compact
    id := height :: h.val
    full := message
    shielded := message
    treeState := height :: h.val
    roots := fun _ => []
    info := [height]
  }

def tree : List (Hash × Option Hash × UInt8) :=
  [(hash 0 0, none, 0), (hash 1 1, some (hash 0 0), 1), (hash 1 2, some (hash 1 1), 2),
    (hash 2 1, some (hash 0 0), 1), (hash 2 2, some (hash 2 1), 2)]

def node : Node where
  data h := (tree.find? (·.1 == h)).map fun (h, prev, height) => data h prev height
  funding _ _ := none
  utxos _ _ := []
  addressUtxos _ _ := []
  txids _ _ _ _ := []
  mempoolTx raw := raw

def wire : Wire where
  blockId
    | [] => .error "empty"
    | height :: hash => .ok ⟨height.toNat, hash⟩
  compactBlock message :=
    match blockHead message with
    | some head => .ok (compact head.height head.hash head.prevHash)
    | none => .ok (compact 0 (hash 0 0).val (List.replicate 32 0))
  treeState
    | [] => .error "empty"
    | height :: hash => .ok ⟨"", height.toNat, text hash, 0, "", "", ""⟩
  subtreeRoot _ := .error "no roots"
  rawTransaction raw := .ok ⟨raw, 0⟩
  lightdInfo
    | [] => .error "empty"
    | height :: _ => .ok ⟨"test", 1, height.toNat⟩
  addressUtxos _ := .ok []
  digest _ := 0

def cx : Cx where
  wire := wire
  stableBelow := 0
  unusedAddress _ _ _ := ""

def expect : Expect := ⟨"test", 1⟩

def chain : Chain := [hash 0 0, hash 1 1, hash 1 2]

theorem text_injective : Function.Injective fun h : Hash => text h.val := by
  have hchar : Function.Injective Char.ofUInt8 := fun b b' h =>
    UInt8.toNat_inj.mp (congrArg Char.toNat h)
  intro h h' heq
  exact Subtype.ext (List.map_injective_iff.mpr hchar (String.ofList_injective heq))

theorem tree_sent : ∀ e ∈ tree, (data e.1 e.2.1 e.2.2).full.length < u32Range
    ∧ wire.compactBlock (data e.1 e.2.1 e.2.2).full = .ok (data e.1 e.2.1 e.2.2).compact
    ∧ (data e.1 e.2.1 e.2.2).block.compact (servedFee (data e.1 e.2.1 e.2.2).compact)
      = .ok (data e.1 e.2.1 e.2.2).compact := by
  decide +kernel

theorem data_correct {h : Hash} {prev : Option Hash} {height : UInt8} (hmem : (h, prev, height) ∈ tree)
    : (data h prev height).Correct wire expect (fun h => text h.val) node.funding h := by
  obtain ⟨hsize, hdecodes, hcompact⟩ := tree_sent _ hmem
  have hsends : Sends wire (data h prev height).full (data h prev height).compact :=
    ⟨⟨fun _ => [], fun _ => [], rfl⟩, hsize, hdecodes⟩
  have htime : (data h prev height).compact.time < u32Range := Nat.zero_lt_succ _
  exact ⟨hcompact, nofun, rfl, htime, rfl, rfl, hsends, hsends, ⟨"", rfl⟩, fun _ => rfl, rfl⟩

theorem node_correct : node.Correct cx expect := by
  refine ⟨⟨_, text_injective, ?_⟩, ?_, ?_, ?_⟩
  . intro h b hb
    obtain ⟨⟨h', prev, height⟩, hfind, rfl⟩ := Option.map_eq_some_iff.mp hb
    have heq := List.find?_some hfind
    cases eq_of_beq heq
    exact data_correct (List.mem_of_find?_eq_some hfind)
  . intro address chain
    exact ⟨[], rfl, fun listed hlisted => by cases hlisted; simp⟩
  . exact fun _ _ _ _ _ _ => rfl
  . exact fun _ => rfl

def shape : SyncShape where
  birthdays := [.between 1 2]
  lowest := 1
  highest := 3
  activations _ := 1
  batch := 1
  addresses := []

def asks (n : Nat) : List Input := List.replicate n (.act 0 {})

end Sample

-- A `LightdInfo` is judged after the chain has lost a block.
theorem never_charged_reorg
    : ∃ w, Run.exec (step Sample.cx Sample.node) (init Sample.cx Sample.chain Sample.expect 0 1 8)
          ([.spawn (.lightd 5 1)] ++ Sample.asks 2 ++ [.reorg 1 [Sample.hash 2 1], .recv,
            .zebra { now := 5000 }, .zebra {}, .zebra {}, .go]) = .ok w
        ∧ w.auditing.ledger.tallies.audited = 1 ∧ w.auditing.ledger.tallies.violations = 0 := by
  have hrun : ∃ w, Run.exec (step Sample.cx Sample.node) (init Sample.cx Sample.chain Sample.expect 0 1 8)
        ([.spawn (.lightd 5 1)] ++ Sample.asks 2 ++ [.reorg 1 [Sample.hash 2 1], .recv,
          .zebra { now := 5000 }, .zebra {}, .zebra {}, .go]) = .ok w
      ∧ w.auditing.ledger.tallies.audited = 1 := ⟨_, rfl, rfl⟩
  have hvalid : Sample.node.valid Sample.chain = true := by decide
  obtain ⟨w, hexec, haudited⟩ := hrun
  refine ⟨w, hexec, haudited, never_charged Sample.node_correct hvalid 0 1 8 ?_ hexec⟩
  apply Run.along_cons trivial rfl
  apply Run.along_cons (fun _ => trivial) rfl
  apply Run.along_cons (fun _ => trivial) rfl
  apply Run.along_cons trivial rfl
  apply Run.along_cons trivial rfl
  apply Run.along_cons (fun _ _ hfresh => absurd hfresh (by decide)) rfl
  apply Run.along_cons (fun _ => (⟨by decide, by decide⟩ : Near 2 1)) rfl
  apply Run.along_cons (fun _ hnil => by cases hnil) rfl
  apply Run.along_cons trivial rfl
  trivial

-- The chain is rewritten between two streams of a wallet that links them.
theorem reorg_charged
    : Sample.node.Correct Sample.cx Sample.expect ∧ Sample.node.valid Sample.chain = true
      ∧ ∃ w, Run.exec (step Sample.cx Sample.node) (init Sample.cx Sample.chain Sample.expect 0 1 8)
          (.spawn (.batchedSync Sample.shape 0 0 4) :: Sample.asks 14
            ++ .reorg 1 [Sample.hash 2 1, Sample.hash 2 2] :: Sample.asks 2) = .ok w
        ∧ w.auditing.ledger.violations.map (·.field) = ["chain_link"]
        ∧ w.auditing.ledger.tallies.violations = 1 := by
  refine ⟨Sample.node_correct, by decide, _, rfl, rfl, rfl⟩

end World
end Loadtest
