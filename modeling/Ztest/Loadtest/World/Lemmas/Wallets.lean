import Ztest.Loadtest.World.Lemmas.Correct
import Ztest.Loadtest.World.Lemmas.Fees

namespace Loadtest

open Dialog (Safe)

theorem prevHash_length {block : Block} {prev : Bytes} (h : Zebra.prevHash block = .ok prev)
    : prev.length = 32 := by
  unfold Zebra.prevHash reversed at h
  split at h
  . split at h
    . next hlen =>
      cases h
      rw [List.length_reverse, hlen]
    . cases h
  . cases h
    exact List.length_replicate

theorem compact_prevHash {fees : Nat → Nat} {block : Block} {c : CompactBlock}
    (h : block.compact fees = .ok c) : c.prevHash.length = 32 := by
  obtain ⟨vtx, _, h⟩ := Run.bind_ok h
  obtain ⟨hash, _, h⟩ := Run.bind_ok h
  obtain ⟨prev, hprev, h⟩ := Run.bind_ok h
  obtain ⟨sapling, _, h⟩ := Run.bind_ok h
  obtain ⟨orchard, _, h⟩ := Run.bind_ok h
  obtain ⟨ironwood, _, h⟩ := Run.bind_ok h
  cases h
  exact prevHash_length hprev

theorem Sends.blockHead {wire : Wire} {message : Bytes} {b : CompactBlock} (h : Sends wire message b)
    (hpos : 0 < b.height) (hlt : b.height < 2147483648) (hhash : b.hash.length = 32)
    (hprev : b.prevHash.length = 32) (htime : b.time < u32Range)
    : Loadtest.blockHead message = some ⟨b.height, b.hash, b.prevHash⟩ := by
  obtain ⟨tx, metadata, rfl⟩ := h.encodes
  have hsize := h.size
  unfold u32Range at htime hsize
  apply blockHead_encode hpos _ hhash hprev
  . unfold u64Range
    omega
  . unfold u64Range
    omega
  . unfold u64Range
    omega

namespace BlockData.Correct

variable {wire : Wire} {expect : Expect} {display : Hash → String} {h : Hash} {b : BlockData}
  {funding : Bytes → Nat → Option Int} (hb : b.Correct wire expect display funding h)

include hb

theorem fullHead (hpos : 0 < b.compact.height) (hlt : b.compact.height < 2147483648)
    : blockHead b.full = some ⟨b.compact.height, h.val, b.compact.prevHash⟩ := by
  have hhash : b.compact.hash.length = 32 := by rw [hb.hash, h.2]
  rw [hb.full.blockHead hpos hlt hhash (compact_prevHash hb.compact) hb.time, hb.hash]

theorem shieldedHead (hpos : 0 < b.compact.height) (hlt : b.compact.height < 2147483648)
    : blockHead b.shielded = some ⟨b.compact.height, h.val, b.compact.prevHash⟩ := by
  have hhash : (Loadtest.shielded b.compact).hash.length = 32 := by
    show b.compact.hash.length = 32
    rw [hb.hash, h.2]
  have hprev : (Loadtest.shielded b.compact).prevHash.length = 32 := by
    show b.compact.prevHash.length = 32
    exact compact_prevHash hb.compact
  rw [hb.shielded.blockHead hpos hlt hhash hprev hb.time]
  show some (BlockHead.mk b.compact.height b.compact.hash b.compact.prevHash) = _
  rw [hb.hash]

end BlockData.Correct

section Wallets

variable {cx : Cx} {node : Node} {α β : Type}

/--
A dialog that a wallet may hold at any moment.
-/
def Tame (cx : Cx) (node : Node) (d : Talk α) : Prop :=
  ∀ w, Safe (walletContract cx node) (fun _ _ => True) d w

theorem tame_pure (a : α) : Tame cx node (pure a : Talk α) := fun _ _ _ => trivial

theorem Tame.bind {d : Talk α} {f : α → Talk β} (hd : Tame cx node d)
    (hf : ∀ a, Tame cx node (f a)) : Tame cx node (d >>= f) :=
  fun w => (hd w).bind fun w' a _ => hf a w'

theorem tellOk_served {chain seen : Chain} {q : Request} (h : q.isServed = true)
    : TellOk cx node chain seen q := by
  cases q <;> first | exact trivial | cases h

theorem tame_serve {q : Request} {f : q.Reply → Talk α} (hserved : q.isServed = true)
    (hf : ∀ chain choice, node.valid chain = true
      → (choice.refused = false → ServesWell chain choice q)
      → Safe (walletContract cx node) (fun _ _ => True) (f (node.serve chain choice q)) (chain, chain))
    : Tame cx node (Dialog.ask q .done >>= f) := by
  intro w
  apply Dialog.safe_call
  intro w' _
  refine ⟨fun _ => tellOk_served hserved, ?_⟩
  rintro r w'' ⟨rfl, hvalid, choice, rfl, hserves⟩
  rw [hserved]
  exact hf w'.1 choice hvalid hserves

theorem safe_tell {q : Request} {f : q.Reply → Talk α} {w : Chain × Chain}
    (hq : ∀ chain, Evolves cx w.1 chain → TellOk cx node chain w.2 q)
    (hf : ∀ r, Tame cx node (f r))
    : Safe (walletContract cx node) (fun _ _ => True) (Dialog.ask q .done >>= f) w := by
  apply Dialog.safe_call
  rintro w' ⟨hevolves, hseen⟩
  refine ⟨?_, fun r w'' _ => hf r w''⟩
  intro _
  show TellOk cx node w'.1 w'.2 q
  rw [hseen]
  exact hq w'.1 hevolves

variable {expect : Expect} (hcorrect : node.Correct cx expect)

omit hcorrect in
theorem treeState_tame (height : Nat) : Tame cx node (cx.treeState height) := by
  apply tame_serve rfl
  intro chain choice hvalid _
  split
  . exact tame_pure () _
  . next state hstate =>
    obtain ⟨_, hmap⟩ := Choice.served_some hstate
    obtain ⟨b, hb, rfl⟩ := Option.map_eq_some_iff.mp hmap
    obtain ⟨h, _, hdata, hheight⟩ := Node.blockAt_spec hvalid hb
    apply safe_tell _ tame_pure
    intro chain' hevolves
    refine ⟨⟨h, b, hdata, hheight, rfl⟩, ?_, ?_⟩
    . intro hlt
      exact ⟨b, blockAt_evolves hevolves hlt hb, rfl⟩
    . exact id

omit hcorrect in
theorem rootsFrom_tame (pool : Pool) (start : Nat) : Tame cx node (cx.rootsFrom pool start) := by
  apply tame_serve rfl
  intro chain choice _ _
  split
  . exact tame_pure none _
  . next roots hroots =>
    obtain ⟨_, hserved⟩ := Choice.served_some hroots
    cases hserved
    apply safe_tell _ fun _ => tame_pure _
    intro chain' _
    exact ⟨⟨rfl, rfl⟩, trivial, nofun⟩

omit hcorrect in
theorem take_shieldedMessages {height : Nat} {prev : Bytes} {chain : Chain} (n : Nat)
    (hl : node.linked height prev chain = true)
    : (node.shieldedMessages chain).take n = node.shieldedMessages (chain.take n) := by
  unfold Node.shieldedMessages
  induction chain generalizing height prev n with
  | nil => simp [Node.collect]
  | cons h rest ih =>
    obtain ⟨b, hb, _, _, hrest⟩ := Node.linked_cons hl
    cases n with
    | zero => rfl
    | succ n => simp [Node.collect, hb, ih n hrest]

-- A stream is the messages of the first blocks of its range, and of all of them if it ended well.
omit hcorrect in
theorem stream_messages {choice : Choice} {height : Nat} {prev : Bytes} {chain : Chain}
    {messages : List Bytes} {clean : Bool} (hl : node.linked height prev chain = true)
    (h : choice.stream (node.shieldedMessages chain) = (messages, clean))
    : ∃ n, messages = node.shieldedMessages (chain.take n) ∧ (chain.take n ≠ [] → choice.cut ≠ some 0)
        ∧ (clean = true → choice.cut = none ∧ chain.take n = chain) := by
  unfold Choice.stream at h
  split at h
  . next hcut =>
    cases h
    exact ⟨chain.length, by simp, by simp [hcut], fun _ => ⟨hcut, List.take_length⟩⟩
  . next n hcut =>
    cases h
    refine ⟨n, take_shieldedMessages n hl, ?_, nofun⟩
    intro hne
    rw [hcut]
    intro h
    cases h
    exact hne rfl

include hcorrect

-- The induction is on the blocks that are still to come, `prev` is the hash before them.
theorem receiveBlocks_safe {start stop next : Nat} {clean : Bool} {link : Option Bytes} {prev : Bytes}
    {tail : Chain} {w : Chain × Chain} (hl : node.linked next prev tail = true)
    (htail : tail ≠ [] → 0 < next ∧ next + tail.length ≤ 2147483648
      ∧ ∀ hash, link = some hash → hash = prev)
    (hstable : ∀ i h, tail[i]? = some h → next + i < cx.stableBelow → w.1[next + i]? = some h)
    (hend : clean = true → next + tail.length = stop + 1)
    : Safe (walletContract cx node) (fun _ _ => True)
        (Cx.receiveBlocks start stop clean next link (node.shieldedMessages tail)) w := by
  obtain ⟨display, _, hblocks⟩ := hcorrect.blocks
  induction tail generalizing next link prev w with
  | nil =>
    unfold Node.shieldedMessages Node.collect Cx.receiveBlocks
    split
    . next hclean =>
      have := hend hclean
      rw [if_neg (by simpa using this)]
      exact tame_pure _ w
    . exact tame_pure _ w
  | cons h rest ih =>
    obtain ⟨b, hb, hheight, hprev, hrest⟩ := Node.linked_cons hl
    obtain ⟨hpos, hlast, hlink⟩ := htail (List.cons_ne_nil _ _)
    have hbc := hblocks h b hb
    rw [List.length_cons] at hlast hend
    have hhead : blockHead b.shielded = some ⟨next, h.val, prev⟩ := by
      rw [hbc.shieldedHead (by omega) (by omega), hheight, hprev]
    have hu32 : asU32 next = next := asU32_of_lt (by unfold u32Range; omega)
    have hmessages : node.shieldedMessages (h :: rest) = b.shielded :: node.shieldedMessages rest := by
      simp [Node.shieldedMessages, Node.collect, hb]
    have hany : link.any (· != prev) = false := by
      cases link with
      | none => rfl
      | some hash => simp [hlink hash rfl]
    rw [hmessages]
    unfold Cx.receiveBlocks
    simp only [hhead, ne_eq, not_true_eq_false, if_false, hany, Bool.false_eq_true, hu32]
    apply Dialog.safe_call
    rintro w₁ ⟨hevolves₁, _⟩
    refine ⟨?_, ?_⟩
    . intro _ hlt
      have hat := hevolves₁ next h hlt (by simpa using hstable 0 h rfl hlt)
      exact ⟨b, Option.bind_eq_some_iff.mpr ⟨h, hat, hb⟩, rfl⟩
    rintro _ w₂ ⟨rfl, _⟩
    apply Dialog.safe_call
    rintro w₃ ⟨hevolves₃, _⟩
    refine ⟨fun _ => trivial, ?_⟩
    rintro stop' w₄ ⟨rfl, _⟩
    split
    . exact tame_pure _ _
    . apply ih hrest
      . intro _
        refine ⟨Nat.succ_pos next, by omega, ?_⟩
        intro hash hhash
        cases hhash
        rfl
      . intro i h' hi hlt
        have hat := hstable (i + 1) h' hi (by omega)
        rw [Nat.add_right_comm, Nat.add_assoc]
        exact hevolves₃ _ h' (by omega) (hevolves₁ _ h' (by omega) hat)
      . intro hclean
        have := hend hclean
        omega

theorem streamBlocks_tame {start stop : Nat} (link : Option Bytes) (hle : start ≤ stop + 1)
    : Tame cx node (Cx.streamBlocks start stop link) := by
  apply tame_serve rfl
  intro chain choice hvalid hserves
  split
  . exact tame_pure _ _
  . next messages clean hstream =>
    obtain ⟨hrefused, hserved⟩ := Choice.served_some hstream
    obtain ⟨hstart, hstop⟩ := hserves hrefused
    have hlinked := Node.valid_linked hvalid
    have hlen := (Node.valid_length hvalid).2
    obtain ⟨prev, hl, hprev⟩ := Node.linked_drop (n := start) (Node.linked_take (n := stop + 1) hlinked)
    rw [Nat.zero_add] at hl
    obtain ⟨n, rfl, hcut, hclean⟩ := stream_messages hl (Option.some.inj hserved)
    have hrange : ((chain.take (stop + 1)).drop start).length = min (stop + 1) chain.length - start := by
      simp
    apply receiveBlocks_safe hcorrect (Node.linked_take hl)
    . intro hne
      have hlt : start < chain.length := by
        apply Nat.lt_of_not_le
        intro hge
        apply hne
        rw [List.take_eq_nil_iff]
        right
        apply List.eq_nil_of_length_eq_zero
        omega
      obtain ⟨hpos, hlink⟩ := hstart (hcut hne) hlt
      refine ⟨hpos, by rw [List.length_take]; omega, ?_⟩
      intro hash hhash
      obtain ⟨h, hh, rfl⟩ := Option.map_eq_some_iff.mp (hlink hash hhash)
      refine (hprev hpos h ?_).symm
      rw [List.getElem?_take_of_lt (by omega)]
      exact hh
    . intro i h hi _
      rw [List.getElem?_take] at hi
      split at hi
      . rw [List.getElem?_drop, List.getElem?_take] at hi
        split at hi
        . exact hi
        . cases hi
      . cases hi
    . intro hc
      obtain ⟨hnone, hall⟩ := hclean hc
      have := hstop hnone
      rw [hall, hrange]
      omega

theorem burstBlock_tame {tip : Nat} (hlt : tip < 2147483648) : Tame cx node (cx.burstBlock tip) := by
  obtain ⟨display, _, hblocks⟩ := hcorrect.blocks
  have hu32 : asU32 tip = tip := asU32_of_lt (by unfold u32Range; omega)
  apply tame_serve rfl
  intro chain choice hvalid hserves
  split
  . exact tame_pure () _
  . next block hblock =>
    obtain ⟨hrefused, hmap⟩ := Choice.served_some hblock
    obtain ⟨b, hb, rfl⟩ := Option.map_eq_some_iff.mp hmap
    obtain ⟨h, _, hdata, hheight⟩ := Node.blockAt_spec hvalid hb
    have hpos : 0 < tip := hserves hrefused
    simp only [(hblocks h b hdata).fullHead (by omega) (by omega), hheight, if_true, hu32]
    apply safe_tell _ tame_pure
    intro chain' _
    exact ⟨⟨h, b, hdata, hheight, rfl⟩, trivial, nofun⟩

omit hcorrect in
theorem subtreeRoots_tame (pool : Pool) (held turns : Nat) (gained : List Bytes)
    : Tame cx node (cx.subtreeRoots pool held turns gained) := by
  induction turns generalizing gained with
  | zero => exact tame_pure _
  | succ turns ih =>
    apply (rootsFrom_tame pool _).bind
    intro roots
    match roots with
    | none => exact tame_pure _
    | some [] => exact tame_pure _
    | some (root :: rest) => exact ih (gained ++ root :: rest)

omit hcorrect in
theorem burstRoots_tame (turns : Nat) (pools : List Pool) (synced : Cx.Synced)
    : Tame cx node (cx.burstRoots turns pools synced) := by
  induction pools generalizing synced with
  | nil => exact tame_pure _
  | cons pool rest ih =>
    apply (subtreeRoots_tame pool _ turns []).bind
    intro gained
    cases gained with
    | none => exact ih _
    | some gained => exact ih _

theorem burst_tame (turns : Nat) (synced : Cx.Synced) : Tame cx node (cx.burst turns synced) := by
  obtain ⟨display, _, hblocks⟩ := hcorrect.blocks
  apply tame_serve rfl
  intro chain choice hvalid _
  split
  . exact tame_pure _ _
  . next latest hlatest =>
    obtain ⟨_, hmap⟩ := Choice.served_some hlatest
    obtain ⟨b, hb, rfl⟩ := Option.map_eq_some_iff.mp hmap
    obtain ⟨h, hh, hdata, hheight⟩ := Node.blockAt_spec hvalid hb
    have hlt : b.compact.height < 2147483648 := by
      have hlen := (Node.valid_length hvalid).2
      have := (List.getElem?_eq_some_iff.mp hh).1
      omega
    simp only [(hblocks h b hdata).id]
    apply safe_tell
    . intro chain' _
      exact ⟨⟨h, b, hdata, rfl⟩, trivial, nofun⟩
    . intro _
      apply (treeState_tame _).bind
      intro _
      apply (burstRoots_tame turns pools synced).bind
      intro synced'
      apply (streamBlocks_tame hcorrect none (by omega)).bind
      intro _
      apply (burstBlock_tame hcorrect hlt).bind
      intro _
      exact tame_pure _

theorem steadyTurns_tame (turns n : Nat) (synced : Cx.Synced)
    : Tame cx node (cx.steadyTurns turns n synced) := by
  induction n generalizing synced with
  | zero => exact tame_pure _
  | succ n ih =>
    intro w
    apply Dialog.safe_call
    intro w' _
    refine ⟨fun _ => trivial, ?_⟩
    intro next w'' _
    cases next with
    | stop => exact tame_pure _ _
    | burst => exact (burst_tame hcorrect turns synced).bind (fun synced' => ih synced') w''
    | poll =>
      apply tame_serve rfl
      intro chain choice _ _
      exact ih synced _

theorem steady_tame (turns n : Nat) : Tame cx node (cx.steady turns n) :=
  (burst_tame hcorrect turns {}).bind fun synced => steadyTurns_tame hcorrect turns n synced

omit hcorrect in
theorem mempool_tame (n : Nat) : Tame cx node (cx.mempool n) := by
  induction n with
  | zero => exact tame_pure _
  | succ n ih =>
    apply tame_serve rfl
    intro chain choice _ _
    split
    . exact ih _
    . next tx htx =>
      obtain ⟨_, hserved⟩ := Choice.served_some htx
      cases hserved
      apply safe_tell _ fun _ => ih
      intro chain' _
      exact ⟨⟨choice.raw, rfl⟩, rfl, fun _ => rfl⟩

omit hcorrect in
theorem lightd_tame (n : Nat) (asked : UInt64) : Tame cx node (Cx.lightd n asked) := by
  induction n generalizing asked with
  | zero => exact tame_pure _
  | succ n ih =>
    apply tame_serve rfl
    intro chain choice hvalid _
    split
    . exact ih asked _
    . next info hinfo =>
      obtain ⟨_, hmap⟩ := Choice.served_some hinfo
      obtain ⟨b, hb, rfl⟩ := Option.map_eq_some_iff.mp hmap
      split
      . apply safe_tell _ fun _ => ih _
        intro chain' _
        exact ⟨hvalid, b, hb, rfl⟩
      . exact ih _ _

omit hcorrect in
theorem latestHeight_tame : Tame cx node cx.latestHeight := by
  apply tame_serve rfl
  intro chain choice _ _
  split
  . exact tame_pure _ _
  . split
    . exact tame_pure _ _
    . exact tame_pure _ _

omit hcorrect in
theorem completing_tame (turns : Nat) (pools : List Pool) (heights : Pool → List Nat)
    : Tame cx node (cx.completing turns pools heights) := by
  induction pools generalizing heights with
  | nil => exact tame_pure _
  | cons pool rest ih =>
    apply (subtreeRoots_tame pool 0 turns []).bind
    intro roots
    cases roots with
    | none => exact tame_pure _
    | some roots => exact ih _

theorem unusedTxids_tame (id round : UInt64) (start stop : Nat) (indices : List Nat)
    : Tame cx node (cx.unusedTxids id round start stop indices) := by
  induction indices with
  | nil => exact tame_pure _
  | cons index rest ih =>
    apply Tame.bind
    . apply tame_serve rfl
      intro chain choice _ _
      split
      . exact tame_pure _ _
      . exact tame_pure _ _
      . next served hne hserved =>
        -- An unused address has no transactions.
        obtain ⟨_, hserved⟩ := Choice.served_some hserved
        have hnil := hcorrect.txids id round index chain start stop
        exact absurd (Option.some.inj hserved).symm (hnil ▸ hne)
    . intro r
      cases r with
      | none => exact tame_pure _
      | some _ => exact ih

theorem streamRanges_tame {ranges : List (Nat × Nat)} (streamed : Option (Nat × Bytes))
    (hranges : ∀ r ∈ ranges, r.1 < r.2) : Tame cx node (Cx.streamRanges ranges streamed) := by
  induction ranges generalizing streamed with
  | nil => exact tame_pure _
  | cons range rest ih =>
    have hlt := hranges range List.mem_cons_self
    apply (streamBlocks_tame hcorrect _ (by omega)).bind
    intro hash
    cases hash with
    | none => exact tame_pure _
    | some hash => exact ih _ fun r hr => hranges r (List.mem_cons_of_mem _ hr)

omit hcorrect in
theorem scanOrder_lt {s : Shards} {birthday tip : Nat} {r : Nat × Nat} (h : r ∈ s.scanOrder birthday tip)
    : r.1 < r.2 := by
  unfold Shards.scanOrder at h
  split at h
  . cases h
  . simpa using (List.mem_filter.mp h).2

omit hcorrect in
theorem treeStateAbove_tame (birthday sapling height : Nat)
    : Tame cx node (cx.treeStateAbove birthday sapling height) := by
  unfold Cx.treeStateAbove
  split
  . exact treeState_tame height
  . exact tame_pure _

theorem unusedWalletSync_tame (shape : SyncShape) (id round : UInt64) (turns : Nat)
    : Tame cx node (cx.unusedWalletSync shape id round turns) := by
  apply latestHeight_tame.bind
  intro tip
  cases tip with
  | none => exact tame_pure _
  | some tip =>
    apply (treeStateAbove_tame _ _ _).bind
    intro _
    apply (treeState_tame tip).bind
    intro _
    apply (completing_tame turns pools _).bind
    intro heights
    cases heights with
    | none => exact tame_pure _
    | some heights =>
      apply (unusedTxids_tame hcorrect id round _ _ _).bind
      intro r
      cases r with
      | none => exact tame_pure _
      | some _ =>
        apply (treeStateAbove_tame _ _ _).bind
        intro _
        exact streamRanges_tame hcorrect none fun r hr => scanOrder_lt hr

omit hcorrect in
theorem utxo_tame (address : String) (tip : Nat) : Tame cx node (cx.utxo address tip) := by
  apply tame_serve rfl
  intro chain choice _ _
  split
  . exact tame_pure _ _
  . next list hlist =>
    obtain ⟨_, hserved⟩ := Choice.served_some hlist
    cases hserved
    apply safe_tell _ tame_pure
    intro chain' _
    exact ⟨rfl, trivial, nofun⟩

omit hcorrect in
theorem utxos_tame (addresses : List String) (id round : UInt64) (tip : Nat)
    : Tame cx node (cx.utxos addresses id round tip) := by
  unfold Cx.utxos
  split
  . exact tame_pure _
  . exact (utxo_tame _ tip).bind fun _ => utxo_tame _ tip

theorem batches_tame (batch tip turns start : Nat) (link : Option Bytes)
    : Tame cx node (cx.batches batch tip turns start link) := by
  induction turns generalizing start link with
  | zero => exact tame_pure _
  | succ turns ih =>
    unfold Cx.batches
    split
    . apply (treeState_tame _).bind
      intro _
      apply (streamBlocks_tame hcorrect link (by omega)).bind
      intro hash
      cases hash with
      | none => exact tame_pure _
      | some hash => exact ih _ _
    . exact tame_pure _

theorem batchedSync_tame (shape : SyncShape) (id round : UInt64) (turns : Nat)
    : Tame cx node (cx.batchedSync shape id round turns) := by
  apply latestHeight_tame.bind
  intro tip
  cases tip with
  | none => exact tame_pure _
  | some tip =>
    apply (rootsFrom_tame .sapling 0).bind
    intro _
    apply (rootsFrom_tame .orchard 0).bind
    intro _
    apply (rootsFrom_tame .ironwood 0).bind
    intro _
    apply (utxos_tame _ id round tip).bind
    intro _
    exact batches_tame hcorrect _ tip turns _ none

theorem talk_tame (wallet : Wallet) : Tame cx node (wallet.talk cx) := by
  cases wallet with
  | batchedSync shape id round turns =>
    exact (batchedSync_tame hcorrect shape id round turns).bind fun _ => tame_pure _
  | unusedWalletSync shape id round turns =>
    exact (unusedWalletSync_tame hcorrect shape id round turns).bind fun _ => tame_pure _
  | steady turns n => exact steady_tame hcorrect turns n
  | mempool n => exact mempool_tame n
  | lightd id n => exact lightd_tame n id

end Wallets
end Loadtest
