import Ztest.Loadtest.World.Lemmas.Correct
import Ztest.Loadtest.World.Lemmas.Fees

namespace Loadtest

open Dialog (Safe)

theorem answered {c : Choice} {q : Call} (h : c.refused = false) : Answered c q := by
  intro hrefused
  rw [h] at hrefused
  cases hrefused

-- What no check changes of the auditor.
structure Auditor.Same (a a' : Auditor) : Prop where
  expect : a'.expect = a.expect
  deferred : a'.deferred = a.deferred

section Judge

variable {cx : Cx} {node : Node} {origin : Chain} {a : Auditor} {audit : Audit} {w : Chain × Answers}

theorem inputSum_safe (inputs : List Input)
    : Safe (auditContract cx node origin a audit)
        (fun _ r => ∀ sum, r = .ok sum → spent node.funding inputs = some sum)
        (Zebra.inputSum inputs) w := by
  induction inputs generalizing w with
  | nil =>
    intro _ _ sum hsum
    cases hsum
    rfl
  | cons input rest ih =>
    cases input with
    | coinbase =>
      intro _ _ sum hsum
      cases hsum
      rfl
    | spend txid vout =>
      apply Dialog.safe_call
      intro w' _
      refine ⟨trivial, ?_⟩
      rintro r w'' ⟨_, _, choice, hr, _⟩
      cases r with
      | error e => exact fun _ _ _ => nofun
      | ok value =>
        have hvalue := (Choice.reply_ok hr.symm).2
        apply ih.bind
        intro w''' r' hr'
        cases r' with
        | error e => exact fun _ _ _ => nofun
        | ok sum =>
          have hsum := hr' sum rfl
          cases sum with
          | none =>
            intro _ _ sum h
            cases h
            simp [spent, hvalue, hsum]
          | some sum' =>
            intro _ _ sum h
            cases h
            simp [spent, hvalue, hsum]

theorem fee_safe (tx : Tx)
    : Safe (auditContract cx node origin a audit)
        (fun _ r => ∀ fee, r = .ok fee → paid node.funding tx = some fee) (Zebra.fee tx) w := by
  apply (inputSum_safe tx.vin).bind
  intro w' r hr
  cases r with
  | error e => exact fun _ _ _ => nofun
  | ok sum =>
    have hsum := hr sum rfl
    cases sum with
    | none =>
      intro _ _ fee h
      cases h
      simp [paid, hsum]
    | some inputs =>
      simp only
      split
      . next hfee =>
        intro _ _ fee h
        cases h
        simp [paid, hsum, hfee]
      . exact fun _ _ _ => nofun

/--
The fees of the expected block, by where they come from.
-/
def FeesOf (funding : Bytes → Nat → Option Int) (index : Nat) (txs : List Tx) (paid' : Nat → Nat)
    : Fees → Prop
  | .asServed served => paid' = servedFee served
  | .checked => ∀ i tx, txs[i]? = some tx → paid funding tx = some (paid' (index + i))

theorem checkedTxs_safe (index : Nat) (txs : List Tx)
    : Safe (auditContract cx node origin a audit)
        (fun _ r => ∀ vtx, r = .ok vtx
          → ∃ fees, compactVtx fees index txs = .ok vtx ∧ FeesOf node.funding index txs fees .checked)
        (Zebra.compactTxs .checked index txs) w := by
  induction txs generalizing index w with
  | nil =>
    intro _ _ vtx h
    cases h
    exact ⟨fun _ => 0, rfl, by simp [FeesOf]⟩
  | cons tx rest ih =>
    apply (fee_safe tx).bind
    intro w' r hr
    cases r with
    | error e => exact fun _ _ _ => nofun
    | ok fee =>
      have hfee := hr fee rfl
      cases htx : compactTx index tx fee with
      | error e =>
        simp only [htx]
        exact fun _ _ _ => nofun
      | ok compact =>
        simp only [htx]
        apply (ih (index + 1)).bind
        intro w'' r' hr'
        cases r' with
        | error e => exact fun _ _ _ => nofun
        | ok vtx =>
          intro _ _ all hall
          cases hall
          obtain ⟨fees, hvtx, hfees⟩ := hr' vtx rfl
          have hrest : compactVtx (Function.update fees index fee) (index + 1) rest = .ok vtx := by
            apply compactVtx_congr hvtx
            intro i hi
            exact Function.update_of_ne (by omega) _ _
          refine ⟨Function.update fees index fee, ?_, ?_⟩
          . rw [compactVtx_eq, Function.update_self, htx, hrest]
            rfl
          . intro i tx' htx'
            cases i with
            | zero =>
              cases htx'
              rw [Nat.add_zero, Function.update_self]
              exact hfee
            | succ i =>
              rw [Function.update_of_ne (by omega), ← Nat.add_assoc, Nat.add_right_comm]
              exact hfees i tx' htx'

theorem compactTxs_safe (fees : Fees) (txs : List Tx)
    : Safe (auditContract cx node origin a audit)
        (fun _ r => ∀ vtx, r = .ok vtx
          → ∃ paid', compactVtx paid' 0 txs = .ok vtx ∧ FeesOf node.funding 0 txs paid' fees)
        (Zebra.compactTxs fees 0 txs) w := by
  cases fees with
  | checked => exact checkedTxs_safe 0 txs
  | asServed served =>
    rw [Zebra.compactTxs_asServed]
    intro _ _ vtx h
    exact ⟨servedFee served, h, rfl⟩

theorem blockHash_safe {height : Nat} {P : Bytes → Prop}
    (hP : ∀ chain choice hash, node.JudgesWell chain origin a choice audit w.2 (.getblockhash height)
      → chain[height]? = some hash → P hash.val)
    : Safe (auditContract cx node origin a audit)
        (fun w' r => ∀ hash, r = .ok hash
          → P hash ∧ ∃ display : Bytes, w'.2 = w.2 ++ [⟨.getblockhash height, .ok display⟩]
            ∧ hash = display.reverse)
        (Zebra.blockHash height) w := by
  apply Dialog.safe_call
  rintro w' ⟨_, hw'⟩
  refine ⟨trivial, ?_⟩
  rintro r w'' ⟨rfl, _, choice, hr, hwell⟩
  cases r with
  | error e => exact fun _ _ _ => nofun
  | ok display =>
    obtain ⟨hrefused, hmap⟩ := Choice.reply_ok hr.symm
    obtain ⟨hash, hhash, rfl⟩ := Option.map_eq_some_iff.mp hmap
    rintro w''' ⟨_, hw'''⟩ hash' hhash'
    cases reversed_ok hhash'
    rw [hw'] at hwell hw'''
    refine ⟨?_, hash.val.reverse, hw''', rfl⟩
    rw [List.reverse_reverse]
    exact hP w'.1 choice hash (hwell (answered hrefused)) hhash

theorem compactBlock_safe {height : Nat} {fees : Fees} {P : BlockData → Prop}
    (hP : ∀ chain choice b, Evolves cx w.1 chain → node.valid chain = true
      → node.JudgesWell chain origin a choice audit w.2 (.getblock height)
      → node.blockAt chain height = some b → P b)
    : Safe (auditContract cx node origin a audit)
        (fun _ r => ∀ expected, r = .ok expected
          → ∃ b paid', P b ∧ b.block.compact paid' = .ok expected
            ∧ FeesOf node.funding 0 b.block.tx paid' fees)
        (Zebra.compactBlock height fees) w := by
  apply Dialog.safe_call
  rintro w' ⟨hevolves, hw'⟩
  refine ⟨trivial, ?_⟩
  rintro r w'' ⟨rfl, hvalid, choice, hr, hwell⟩
  cases r with
  | error e => exact fun _ _ _ => nofun
  | ok block =>
    obtain ⟨hrefused, hmap⟩ := Choice.reply_ok hr.symm
    obtain ⟨b, hb, rfl⟩ := Option.map_eq_some_iff.mp hmap
    rw [hw'] at hwell
    have hpb := hP w'.1 choice b hevolves hvalid (hwell (answered hrefused)) hb
    simp only
    split
    . exact fun _ _ _ => nofun
    . apply (compactTxs_safe fees b.block.tx).bind
      intro w'' r hr
      cases r with
      | error e => exact fun _ _ _ => nofun
      | ok vtx =>
        intro _ _ expected hexpected
        obtain ⟨paid', hvtx, hfees⟩ := hr vtx rfl
        refine ⟨b, paid', hpb, ?_, hfees⟩
        unfold Block.compact
        unfold compactVtx at hvtx
        rw [hvtx]
        exact hexpected

theorem blockDiff_self (b : CompactBlock) : blockDiff b b = none := by simp [blockDiff]

theorem differs_none (height : Nat) : (differs height none).outcome ≠ .violated := nofun

theorem FeesOf.shielded {expect : Expect} {display : Hash → String} {h : Hash} {b : BlockData}
    {paid' : Nat → Nat} {fees : Fees} (hb : b.Correct cx.wire expect display node.funding h)
    (hfees : FeesOf node.funding 0 b.block.tx paid' fees)
    (hfrom : fees = .checked ∨ fees = .asServed (Loadtest.shielded b.compact)) {t : CompactTx}
    (hmem : t ∈ b.compact.vtx) (hshielded : t.isShielded = true) : paid' t.index = t.fee := by
  rcases hfrom with rfl | rfl
  . obtain ⟨_, hlt, hfee⟩ := compactVtx_mem (compact_ok hb.compact).1 hmem
    obtain ⟨tx, htx⟩ : ∃ tx, b.block.tx[t.index]? = some tx :=
      ⟨_, List.getElem?_eq_getElem (by omega)⟩
    have hpaid := hfees t.index tx htx
    rw [Nat.zero_add] at hpaid
    rw [hfee, hb.fee t.index tx _ htx hpaid]
  . rw [hfees]
    exact servedFee_shielded hb.compact hmem hshielded

theorem zebraTreeState_safe (height : Nat)
    : Safe (auditContract cx node origin a audit)
        (fun _ r => ∀ expected, r = .ok expected
          → ∃ h b, node.data h = some b ∧ expected = ⟨"", b.state.height, b.state.hash, b.state.time,
              b.state.sapling, b.state.orchard, b.state.ironwood⟩)
        (Zebra.treeState height) w := by
  apply Dialog.safe_call
  intro w' _
  refine ⟨trivial, ?_⟩
  rintro r w'' ⟨_, _, choice, hr, _⟩
  cases r with
  | error e => exact fun _ _ _ => nofun
  | ok state =>
    obtain ⟨_, hmap⟩ := Choice.reply_ok hr.symm
    obtain ⟨b, hb, rfl⟩ := Option.map_eq_some_iff.mp hmap
    obtain ⟨h, _, hdata⟩ := Option.bind_eq_some_iff.mp hb
    intro _ _ expected hexpected
    cases hexpected
    exact ⟨h, b, hdata, rfl⟩

theorem readMempool_safe {a' : Auditor} (hsame : a.Same a') (listed : List Bytes)
    : Safe (auditContract cx node origin a audit) (fun _ a'' => a.Same a'')
        (a'.readMempool cx.wire listed) w := by
  induction listed generalizing a' w with
  | nil => exact fun _ _ => hsame
  | cons txid rest ih =>
    apply Dialog.safe_call
    intro w' _
    refine ⟨trivial, ?_⟩
    rintro r w'' _
    cases r with
    | error e => exact ih hsame
    | ok raw => exact ih ⟨hsame.expect, hsame.deferred⟩

theorem zebraTip_safe {P : Nat → Prop}
    (hcached : ∀ chain choice, node.JudgesWell chain origin a choice audit w.2 .now
      → choice.now - a.tip.2 < tipRefresh → P a.tip.1)
    (hread : ∀ chain choice answers, node.JudgesWell chain origin a choice audit answers .tip
      → P chain.height)
    : Safe (auditContract cx node origin a audit)
        (fun _ r => a.Same r.1 ∧ ∀ tip, r.2 = some tip → P tip) a.zebraTip w := by
  apply Dialog.safe_call
  rintro w₁ ⟨_, hw₁⟩
  refine ⟨trivial, ?_⟩
  rintro now w₂ ⟨_, _, choice, rfl, hwell⟩
  rw [hw₁] at hwell
  split
  . apply Dialog.safe_call
    intro w₃ _
    refine ⟨trivial, ?_⟩
    rintro r w₄ ⟨_, _, choice', hr, hwell'⟩
    cases r with
    | error e => exact fun _ _ => ⟨⟨rfl, rfl⟩, nofun⟩
    | ok tip =>
      obtain ⟨hrefused, htip⟩ := Choice.reply_ok hr.symm
      cases htip
      apply Dialog.safe_call
      intro _ _
      refine ⟨trivial, ?_⟩
      intro _ _ _ _ _
      refine ⟨⟨rfl, rfl⟩, ?_⟩
      intro tip htip
      cases htip
      exact hread w₃.1 choice' w₃.2 (hwell' (answered hrefused))
  . next hfresh =>
    intro _ _
    refine ⟨⟨rfl, rfl⟩, ?_⟩
    intro tip htip
    cases htip
    exact hcached w₁.1 choice (hwell fun _ => rfl) (Nat.lt_of_not_le hfresh)

theorem addressUtxos_safe (address : String)
    : Safe (auditContract cx node origin a audit)
        (fun w' r => ∀ expected, r = .ok expected
          → ∃ utxos listed, w'.2 = w.2 ++ [⟨.getaddressutxos address, .ok utxos⟩]
            ∧ utxos.mapM (Zebra.utxoReply address) = .ok listed
            ∧ expected = listed.mergeSort Zebra.utxoLe)
        (Zebra.addressUtxos address) w := by
  apply Dialog.safe_call
  rintro w' ⟨_, hw'⟩
  refine ⟨trivial, ?_⟩
  rintro r w'' ⟨rfl, _, choice, hr, _⟩
  cases r with
  | error e => exact fun _ _ _ => nofun
  | ok utxos =>
    simp only
    split
    . exact fun _ _ _ => nofun
    . next listed hlisted =>
      rintro w''' ⟨_, hw'''⟩ expected hexpected
      cases hexpected
      rw [hw'] at hw'''
      exact ⟨utxos, listed, hw''', hlisted, rfl⟩

def SubtreeRoot.listed (root : SubtreeRoot) : Subtree := ⟨root.rootHash, root.completingBlockHeight⟩

theorem subtrees_eq (chain : Chain) (pool : Pool)
    : node.subtrees chain pool = (node.rootsOf chain pool).map SubtreeRoot.listed := by
  unfold Node.subtrees Node.rootsOf
  rw [Node.collect_map]
  congr 1
  funext b
  simp [SubtreeRoot.listed, Function.comp_def]

theorem completed_safe {pool : Pool} {start max : Nat} {messages : List Bytes} (subtrees : List Subtree)
    (at' : Nat) (wanted : List SubtreeRoot) (hwanted : wanted ⊆ (node.rootsOf origin pool).drop start)
    (hlisted : wanted.map SubtreeRoot.listed <+: subtrees.drop at')
    : Safe (auditContract cx node origin a (.subtrees pool start max messages))
        (fun _ r => ∀ roots, r = .ok roots → wanted <+: roots.drop at')
        (Zebra.completed subtrees) w := by
  induction subtrees generalizing at' wanted w with
  | nil =>
    have hnil : wanted = [] := by simpa using hlisted
    intro _ _ roots _
    rw [hnil]
    exact List.nil_prefix
  | cons subtree rest ih =>
    apply (blockHash_safe (P := fun hash => ∀ root ∈ (node.rootsOf origin pool).drop start,
      root.completingBlockHeight = subtree.endHeight → hash.reverse = root.completingBlockHash) ?_).bind
    . intro w' r hr
      cases r with
      | error e => exact fun _ _ _ => nofun
      | ok hash =>
        obtain ⟨hhash, _⟩ := hr hash rfl
        cases at' with
        | succ n =>
          apply (ih n wanted hwanted hlisted).bind
          intro w'' r' hr'
          cases r' with
          | error e => exact fun _ _ _ => nofun
          | ok roots =>
            intro _ _ all hall
            cases hall
            exact hr' roots rfl
        | zero =>
          cases wanted with
          | nil =>
            apply (ih 0 [] (List.nil_subset _) List.nil_prefix).bind
            intro w'' r' _
            cases r' with
            | error e => exact fun _ _ _ => nofun
            | ok roots => exact fun _ _ _ _ => List.nil_prefix
          | cons root wanted =>
            rw [List.drop_zero, List.map_cons, List.cons_prefix_cons] at hlisted
            obtain ⟨rfl, hrest⟩ := hlisted
            have hmem := hwanted List.mem_cons_self
            apply (ih 0 wanted (List.subset_of_cons_subset hwanted) (by simpa using hrest)).bind
            intro w'' r' hr'
            cases r' with
            | error e => exact fun _ _ _ => nofun
            | ok roots =>
              intro _ _ all hall
              cases hall
              rw [List.drop_zero, hhash root hmem rfl]
              exact List.cons_prefix_cons.mpr ⟨rfl, by simpa using hr' roots rfl⟩
    . intro chain choice hash hwell hhash root hmem hheight
      exact hwell root hmem hheight hash hhash

theorem firstDiffering_prefix {served expected : List SubtreeRoot} (n : Nat) (h : served <+: expected)
    : Auditor.firstDiffering n served expected = none := by
  induction served generalizing expected n with
  | nil => cases expected <;> rfl
  | cons root served ih =>
    cases expected with
    | nil => simp at h
    | cons root' expected =>
      obtain ⟨rfl, hrest⟩ := List.cons_prefix_cons.mp h
      simp [Auditor.firstDiffering, ih _ hrest]

theorem compareRoots_prefix {pool : Pool} {start max : Nat} {served expected : List SubtreeRoot}
    (h : served <+: expected) : (Auditor.compareRoots pool start max served expected).outcome ≠ .violated := by
  have hle := h.length_le
  simp only [Auditor.compareRoots, firstDiffering_prefix 0 h]
  split
  . exact nofun
  . rw [if_pos (by omega)]
    exact nofun

theorem mapM_drop {α β ε : Type} {f : α → Except ε β} {xs : List α} {ys : List β} (n : Nat)
    (h : xs.mapM f = .ok ys) : (xs.drop n).mapM f = .ok (ys.drop n) := by
  induction xs generalizing ys n with
  | nil =>
    cases h
    simp [pure, Except.pure]
  | cons x xs ih =>
    cases n with
    | zero => exact h
    | succ n =>
      rw [List.mapM_cons] at h
      obtain ⟨y, _, h⟩ := Run.bind_ok h
      obtain ⟨rest, hrest, h⟩ := Run.bind_ok h
      cases h
      exact ih n hrest

theorem readListing_safe {pool : Pool} {start max : Nat} {messages : List Bytes}
    : Safe (auditContract cx node origin a (.subtrees pool start max messages))
        (fun _ r => ∀ a' roots, r = .ok (a', roots)
          → a.Same a' ∧ (node.rootsOf origin pool).drop start <+: roots.drop start)
        (a.readListing pool) w := by
  apply Safe.bind (R := fun _ r => ∀ roots, r = .ok roots
    → (node.rootsOf origin pool).drop start <+: roots.drop start)
  . apply Dialog.safe_call
    intro w' _
    refine ⟨trivial, ?_⟩
    rintro r w'' ⟨_, _, choice, hr, hwell⟩
    cases r with
    | error e => exact fun _ _ _ => nofun
    | ok subtrees =>
      obtain ⟨hrefused, hlisted⟩ := Choice.reply_ok hr.symm
      cases hlisted
      apply completed_safe _ start _ (List.Subset.refl _)
      have hsame := hwell (answered hrefused)
      rw [List.map_drop, ← subtrees_eq]
      exact hsame
  . intro w' r hr
    cases r with
    | error e => exact fun _ _ _ _ => nofun
    | ok roots =>
      intro _ _ a' roots' h
      cases h
      exact ⟨⟨rfl, rfl⟩, hr roots rfl⟩

/--
What judging an answer of a correct server comes to.
-/
def Acquitted (a : Auditor) (_ : Chain × Answers) (r : Auditor × Verdict) : Prop :=
  a.Same r.1 ∧ r.2.outcome ≠ .violated

variable (hcorrect : node.Correct cx a.expect)

include hcorrect

theorem shielded_safe {height : Nat} {message : Bytes} (hlt : height < cx.stableBelow)
    (hg : ∃ b, node.blockAt w.1 height = some b ∧ message = b.shielded)
    : Safe (auditContract cx node origin a audit) (Acquitted a)
        (a.shielded cx.wire height message) w := by
  obtain ⟨display, _, hblocks⟩ := hcorrect.blocks
  obtain ⟨b, hb, rfl⟩ := hg
  obtain ⟨h, _, hdata⟩ := Option.bind_eq_some_iff.mp hb
  have hbc := hblocks h b hdata
  simp only [Auditor.shielded, hbc.shielded.decodes]
  apply (compactBlock_safe (P := (· = b)) ?_).bind
  . intro w' r hr
    cases r with
    | error e => exact fun _ _ => ⟨⟨rfl, rfl⟩, nofun⟩
    | ok expected =>
      intro _ _
      obtain ⟨_, paid', rfl, hcompact, hfees⟩ := hr expected rfl
      obtain ⟨c', hc', hsame⟩ := shielded_compact hbc.compact fun t ht hs =>
        hfees.shielded hbc (by split <;> simp) ht hs
      cases hcompact.symm.trans hc'
      refine ⟨⟨rfl, rfl⟩, ?_⟩
      rw [hsame, blockDiff_self]
      exact differs_none height
  . intro chain choice b' hevolves _ _ hb'
    exact Option.some.inj (hb'.symm.trans (blockAt_evolves hevolves hlt hb))

theorem full_safe {height tip : Nat} {message : Bytes}
    (hg : ∃ h b, node.data h = some b ∧ b.compact.height = height ∧ message = b.full)
    : Safe (auditContract cx node origin a (.full height message tip)) (Acquitted a)
        (a.unchanged (Auditor.full cx.wire height message)) w := by
  obtain ⟨display, _, hblocks⟩ := hcorrect.blocks
  obtain ⟨h, b, hdata, _, rfl⟩ := hg
  have hbc := hblocks h b hdata
  apply Safe.bind (R := fun _ v => v.outcome ≠ .violated)
  . simp only [Auditor.full, hbc.full.decodes]
    apply (blockHash_safe (P := fun _ => True) fun _ _ _ _ _ => trivial).bind
    intro w' r hr
    cases r with
    | error e => exact fun _ _ => nofun
    | ok hash =>
      obtain ⟨_, shown, hw', rfl⟩ := hr hash rfl
      simp only
      split
      . exact fun _ _ => nofun
      . next hsame =>
        apply (compactBlock_safe (P := (· = b)) ?_).bind
        . intro w'' r' hr'
          cases r' with
          | error e => exact fun _ _ => nofun
          | ok expected =>
            intro _ _
            obtain ⟨_, paid', rfl, hcompact, hfees⟩ := hr' expected rfl
            cases hfees
            cases hcompact.symm.trans hbc.compact
            rw [blockDiff_self]
            exact differs_none height
        . intro chain choice b' _ hvalid hwell hb'
          obtain ⟨h', hh', hdata', _⟩ := Node.blockAt_spec hvalid hb'
          have heq : h'.val = shown.reverse := hwell h' shown hh' (by simp [hw'])
          have hsame' : h' = h := by
            apply Subtype.ext
            rw [heq, not_not.mp hsame, hbc.hash]
          cases hsame'
          exact Option.some.inj (hdata'.symm.trans hdata)
  . intro w' v hv _ _
    exact ⟨⟨rfl, rfl⟩, hv⟩

theorem treeState_safe {height : Nat} {message : Bytes}
    (hg : ∃ h b, node.data h = some b ∧ b.compact.height = height ∧ message = b.treeState)
    : Safe (auditContract cx node origin a audit) (Acquitted a)
        (a.unchanged (Auditor.treeState cx.wire height message)) w := by
  obtain ⟨display, hinj, hblocks⟩ := hcorrect.blocks
  obtain ⟨h, b, hdata, _, rfl⟩ := hg
  have hbc := hblocks h b hdata
  obtain ⟨network, hdecodes⟩ := hbc.treeState
  apply Safe.bind (R := fun _ v => v.outcome ≠ .violated)
  . simp only [Auditor.treeState, hdecodes]
    apply (zebraTreeState_safe height).bind
    intro w' r hr
    cases r with
    | error e => exact fun _ _ => nofun
    | ok expected =>
      obtain ⟨h', b', hdata', rfl⟩ := hr expected rfl
      simp only
      split
      . exact fun _ _ => nofun
      . next hsame =>
        have hdisplay : display h' = display h := by
          rw [← (hblocks h' b' hdata').state, ← hbc.state]
          exact not_not.mp hsame
        cases hinj hdisplay
        cases hdata'.symm.trans hdata
        intro _ _
        simp [treeStateDiff, differing, differs, Verdict.outcome]
  . intro w' v hv _ _
    exact ⟨⟨rfl, rfl⟩, hv⟩

theorem latest_safe {message : Bytes} (hg : ∃ h b, node.data h = some b ∧ message = b.id)
    : Safe (auditContract cx node origin a audit) (Acquitted a)
        (a.unchanged (Auditor.latest cx.wire message)) w := by
  obtain ⟨display, _, hblocks⟩ := hcorrect.blocks
  obtain ⟨h, b, hdata, rfl⟩ := hg
  apply Safe.bind (R := fun _ v => v.outcome ≠ .violated)
  . simp only [Auditor.latest, (hblocks h b hdata).id]
    apply (blockHash_safe (P := fun _ => True) fun _ _ _ _ _ => trivial).bind
    intro w' r _
    cases r with
    | error e => exact fun _ _ => nofun
    | ok hash =>
      simp only
      split
      . exact fun _ _ => nofun
      . exact fun _ _ => nofun
  . intro w' v hv _ _
    exact ⟨⟨rfl, rfl⟩, hv⟩

theorem mempoolTx_safe {message : Bytes} (hg : ∃ raw, message = node.mempoolTx raw)
    : Safe (auditContract cx node origin a audit) (Acquitted a) (a.mempoolTx cx.wire message) w := by
  obtain ⟨raw, rfl⟩ := hg
  simp only [Auditor.mempoolTx, hcorrect.mempoolTx]
  split
  . next hne => exact absurd rfl hne
  . split
    . exact fun _ _ => ⟨⟨rfl, rfl⟩, nofun⟩
    . apply Dialog.safe_call
      intro w' _
      refine ⟨trivial, ?_⟩
      rintro r w'' _
      cases r with
      | error e => exact fun _ _ => ⟨⟨rfl, rfl⟩, nofun⟩
      | ok listed =>
        apply (readMempool_safe ⟨rfl, rfl⟩ listed).bind
        intro w''' a' ha' _ _
        refine ⟨ha', ?_⟩
        simp only
        split
        . exact nofun
        . exact nofun

theorem lightdInfo_safe {message : Bytes} (hvalid : node.valid origin = true)
    (hg : ∃ b, node.blockAt origin origin.height = some b ∧ message = b.info) (hw : w.2 = [])
    : Safe (auditContract cx node origin a (.lightdInfo message)) (Acquitted a)
        (a.lightdInfo cx.wire message) w := by
  obtain ⟨display, _, hblocks⟩ := hcorrect.blocks
  obtain ⟨b, hb, rfl⟩ := hg
  obtain ⟨h, hh, hdata, hheight⟩ := Node.blockAt_spec hvalid hb
  simp only [Auditor.lightdInfo, (hblocks h b hdata).info]
  apply (zebraTip_safe (P := Near origin.height) ?_ ?_).bind
  rotate_left
  . exact fun _ _ hwell hfresh => hwell hw hfresh
  . exact fun _ _ _ hwell => hwell
  rintro w' ⟨a', tip⟩ ⟨ha', htip⟩
  cases tip with
  | none => exact fun _ _ => ⟨ha', nofun⟩
  | some tip =>
    have hexpect : a'.expect = a.expect := ha'.expect
    obtain ⟨hle, hle'⟩ := htip tip rfl
    have hlen := (Node.valid_length hvalid).2
    have horigin : origin.height < 2147483648 := by
      unfold Chain.height
      omega
    have hserved : asU32 origin.height = origin.height := asU32_of_lt (by unfold u32Range; omega)
    have hup : asU32 (tip + buried) = tip + buried :=
      asU32_of_lt (by unfold u32Range; unfold buried at *; omega)
    have hup' : asU32 (origin.height + buried) = origin.height + buried :=
      asU32_of_lt (by unfold u32Range buried; omega)
    simp only [hexpect, ne_eq, not_true_eq_false, if_false, hheight, hserved, hup, hup', hle, hle',
      and_self, if_true]
    exact fun _ _ => ⟨ha', nofun⟩

theorem utxos_safe {address : String} {message : Bytes} {tip : Nat}
    (hg : message = node.addressUtxos address origin)
    : Safe (auditContract cx node origin a (.addressUtxos address message tip)) (Acquitted a)
        (a.unchanged (Auditor.utxos cx.wire address message tip)) w := by
  subst hg
  obtain ⟨served, hdecodes, hsame⟩ := hcorrect.utxos address origin
  apply Safe.bind (R := fun _ v => v.outcome ≠ .violated)
  . simp only [Auditor.utxos, hdecodes]
    apply Dialog.safe_call
    intro w₁ _
    refine ⟨trivial, ?_⟩
    rintro before w₂ ⟨rfl, _, _, _, _⟩
    apply (addressUtxos_safe address).bind
    intro w₃ r hr
    cases r with
    | error e => exact fun _ _ => nofun
    | ok expected =>
      obtain ⟨utxos, listed, hw₃, hlisted, rfl⟩ := hr expected rfl
      simp only
      split
      . exact fun _ _ => nofun
      . next hne =>
        apply Dialog.safe_call
        rintro w₄ ⟨_, hw₄⟩
        refine ⟨trivial, ?_⟩
        rintro after w₅ ⟨_, _, choice, hafter, hwell⟩
        have hchanged : utxos ≠ node.utxos address origin := by
          rintro rfl
          exact hne (hsame listed hlisted)
        cases before with
        | error e => exact fun _ _ => nofun
        | ok before =>
          cases after with
          | error e => exact fun _ _ => nofun
          | ok after =>
            obtain ⟨hrefused, htip⟩ := Choice.reply_ok hafter.symm
            cases htip
            simp only
            split
            . next htips =>
              obtain ⟨rfl, hlast⟩ := htips
              refine absurd hlast (hwell (answered hrefused) utxos ?_ hchanged ?_)
              . simp [hw₄, hw₃]
              . simp [hw₄, hw₃]
            . exact fun _ _ => nofun
  . intro w' v hv _ _
    exact ⟨⟨rfl, rfl⟩, hv⟩

theorem rootMessages_decode (chain : Chain) (pool : Pool)
    : (node.rootMessages chain pool).mapM cx.wire.subtreeRoot = .ok (node.rootsOf chain pool) := by
  obtain ⟨display, _, hblocks⟩ := hcorrect.blocks
  unfold Node.rootMessages Node.rootsOf
  induction chain with
  | nil => rfl
  | cons h rest ih =>
    simp only [Node.collect]
    cases hdata : node.data h with
    | none => simpa using ih
    | some b =>
      have hb := hblocks h b hdata
      simp only [List.mapM_append, hb.roots, ih, hb.hash]
      rfl

theorem subtrees_safe {pool : Pool} {start : Nat} {messages : List Bytes}
    (hg : messages = (node.rootMessages origin pool).drop start)
    (hwell : node.ListedWell a origin (.subtrees pool start 0 messages))
    : Safe (auditContract cx node origin a (.subtrees pool start 0 messages)) (Acquitted a)
        (a.subtrees cx.wire pool start 0 messages) w := by
  have hdecodes : messages.mapM cx.wire.subtreeRoot = .ok ((node.rootsOf origin pool).drop start) := by
    rw [hg]
    exact mapM_drop start (rootMessages_decode hcorrect origin pool)
  simp only [Auditor.subtrees, hdecodes]
  apply Safe.bind (R := fun _ r => ∀ a' roots, r = .ok (a', roots)
    → a.Same a' ∧ (node.rootsOf origin pool).drop start <+: roots.drop start)
  . unfold Auditor.listing
    split
    . exact readListing_safe
    . next roots hroots =>
      split
      . exact readListing_safe
      . next hreach =>
        intro _ _ a' roots' h
        cases h
        refine ⟨⟨rfl, rfl⟩, ?_⟩
        rw [List.length_drop] at hreach
        exact hwell roots hroots (by omega)
  . intro w' r hr
    cases r with
    | error e => exact fun _ _ => ⟨⟨rfl, rfl⟩, nofun⟩
    | ok listed =>
      obtain ⟨ha', hlisted⟩ := hr listed.1 listed.2 rfl
      intro _ _
      refine ⟨ha', ?_⟩
      apply compareRoots_prefix
      simpa [Auditor.rootRange] using hlisted

theorem judgeBuried_safe (hg : Genuine cx node w.1 origin audit)
    (hwell : node.ListedWell a origin audit) (hw : w.2 = [])
    : Safe (auditContract cx node origin a audit) (Acquitted a) (a.judgeBuried cx.wire audit) w := by
  cases audit with
  | shielded height message => exact shielded_safe hcorrect hg.1 hg.2
  | full height message tip => exact full_safe hcorrect hg
  | treeState height message tip => exact treeState_safe hcorrect hg
  | subtrees pool start max messages =>
    obtain ⟨rfl, hmessages⟩ := hg
    exact subtrees_safe hcorrect hmessages hwell
  | tip message => exact latest_safe hcorrect hg
  | mempool message => exact mempoolTx_safe hcorrect hg
  | lightdInfo message => exact lightdInfo_safe hcorrect hg.1 hg.2 hw
  | addressUtxos address message tip => exact utxos_safe hcorrect hg

end Judge
end Loadtest
