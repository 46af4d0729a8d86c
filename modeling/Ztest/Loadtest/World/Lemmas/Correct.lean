import Ztest.Loadtest.Audit.Lemmas.Verdict
import Ztest.Loadtest.World.Impl

/-!
This module contains what makes a server correct, facts about the chains it serves, and when the load
test does not charge it (`World.Meets`). What the wallets and the auditor may rely on then: the chain keeps
its blocks below `stableBelow`, and an answer is that of the chain it was computed from.
-/

namespace Loadtest

def spent (funding : Bytes → Nat → Option Int) : List Input → Option (Option Int)
  | [] => some (some 0)
  | .coinbase :: _ => some none
  | .spend txid vout :: rest =>
    match funding txid vout, spent funding rest with
    | some _, some none => some none
    | some value, some (some sum) => some (some (value + sum))
    | _, _ => none

-- The fee of a transaction, if it is one that the wire can carry.
def paid (funding : Bytes → Nat → Option Int) (tx : Tx) : Option Nat :=
  match spent funding tx.vin with
  | none => none
  | some none => some 0
  | some (some inputs) =>
    let fee := inputs - (tx.vout.map (·.value)).sum + Zebra.shieldedBalance tx
    if 0 ≤ fee ∧ fee < u32Range then some fee.toNat else none

-- A message is the encoding of a block, and short enough to be sent.
structure Sends (wire : Wire) (message : Bytes) (b : CompactBlock) : Prop where
  encodes : ∃ tx metadata, message = b.encode tx metadata
  size : message.length < u32Range
  decodes : wire.compactBlock message = .ok b

/--
The messages of the server say what zebra says of the block.
-/
structure BlockData.Correct (wire : Wire) (expect : Expect) (display : Hash → String)
    (funding : Bytes → Nat → Option Int) (h : Hash) (b : BlockData) : Prop where
  compact : b.block.compact (servedFee b.compact) = .ok b.compact
  fee : ∀ index tx fee, b.block.tx[index]? = some tx → paid funding tx = some fee
    → servedFee b.compact index = fee
  hash : b.compact.hash = h.val
  time : b.compact.time < u32Range
  state : b.state.hash = display h
  id : wire.blockId b.id = .ok ⟨b.compact.height, h.val⟩
  full : Sends wire b.full b.compact
  shielded : Sends wire b.shielded (Loadtest.shielded b.compact)
  treeState : ∃ network, wire.treeState b.treeState = .ok ⟨network, b.state.height, b.state.hash,
    b.state.time, b.state.sapling, b.state.orchard, b.state.ironwood⟩
  roots : ∀ pool, (b.roots pool).mapM wire.subtreeRoot
    = .ok ((b.completes pool).map fun root => ⟨root, h.val.reverse, b.compact.height⟩)
  info : wire.lightdInfo b.info = .ok ⟨expect.chainName, expect.saplingActivation, b.compact.height⟩

structure Node.Correct (cx : Cx) (expect : Expect) (node : Node) : Prop where
  blocks : ∃ display, Function.Injective display
    ∧ ∀ h b, node.data h = some b → b.Correct cx.wire expect display node.funding h
  utxos : ∀ address chain, ∃ served, cx.wire.addressUtxos (node.addressUtxos address chain) = .ok served
    ∧ ∀ listed, (node.utxos address chain).mapM (Zebra.utxoReply address) = .ok listed
      → served = listed.mergeSort Zebra.utxoLe
  txids : ∀ id round index chain start stop,
    node.txids (cx.unusedAddress id round index) chain start stop = []
  mempoolTx : ∀ raw, cx.wire.rawTransaction (node.mempoolTx raw) = .ok ⟨raw, 0⟩

namespace Choice

variable {c : Choice} {α : Type}

theorem reply_ok {answer : Option α} {a : α} (h : c.reply answer = .ok a)
    : c.refused = false ∧ answer = some a := by
  unfold reply at h
  split at h
  . next a' hrefused =>
    cases h
    exact ⟨hrefused, rfl⟩
  . cases h

theorem served_some {answer : Option α} {a : α} (h : c.served answer = some a)
    : c.refused = false ∧ answer = some a := by
  unfold served at h
  split at h
  . cases h
  . next hrefused => exact ⟨by simpa using hrefused, h⟩

end Choice

-- The clock is never refused.
def Answered (c : Choice) (q : Call) : Prop := c.refused = true → q = .now

-- The heights of the tip at two readings.
def Near (height tip : Nat) : Prop := height ≤ tip + buried ∧ tip ≤ height + buried

/--
A stream that has a block starts above height zero, on the block that its caller holds the hash of, and
unless it is cut the chain reaches its end. `GetBlock` is not answered for height zero.
-/
def ServesWell (chain : Chain) (c : Choice) : Request → Prop
  | .block height => 0 < height
  | .blockRange start stop link =>
    (c.cut ≠ some 0 → start < chain.length → 0 < start ∧ ∀ hash, link = some hash
        → chain[start - 1]?.map Subtype.val = some hash)
      ∧ (c.cut = none → stop < chain.length)
  | _ => True

namespace Node

section Chains

variable {node : Node}

theorem linked_cons {height : Nat} {prev : Bytes} {h : Hash} {rest : Chain}
    (hl : node.linked height prev (h :: rest) = true)
    : ∃ b, node.data h = some b ∧ b.compact.height = height ∧ b.compact.prevHash = prev
        ∧ node.linked (height + 1) h.val rest = true := by
  unfold linked at hl
  split at hl
  . cases hl
  . next b hb =>
    simp only [Bool.and_eq_true, beq_iff_eq] at hl
    exact ⟨b, hb, hl.1.1, hl.1.2, hl.2⟩

theorem linked_get {height i : Nat} {prev : Bytes} {chain : Chain} {h : Hash}
    (hl : node.linked height prev chain = true) (hi : chain[i]? = some h)
    : ∃ b, node.data h = some b ∧ b.compact.height = height + i := by
  induction chain generalizing height prev i with
  | nil => simp at hi
  | cons h' rest ih =>
    obtain ⟨b, hb, hheight, _, hrest⟩ := linked_cons hl
    cases i with
    | zero =>
      simp only [List.getElem?_cons_zero, Option.some.injEq] at hi
      subst hi
      exact ⟨b, hb, hheight⟩
    | succ i =>
      obtain ⟨b', hb', hheight'⟩ := ih hrest (by simpa using hi)
      exact ⟨b', hb', by omega⟩

theorem linked_take {height n : Nat} {prev : Bytes} {chain : Chain}
    (hl : node.linked height prev chain = true) : node.linked height prev (chain.take n) = true := by
  induction chain generalizing height prev n with
  | nil => simpa using hl
  | cons h rest ih =>
    cases n with
    | zero => rfl
    | succ n =>
      obtain ⟨b, hb, hheight, hprev, hrest⟩ := linked_cons hl
      simp [linked, hb, hheight, hprev, ih hrest]

theorem linked_drop {height n : Nat} {prev : Bytes} {chain : Chain}
    (hl : node.linked height prev chain = true)
    : ∃ prev', node.linked (height + n) prev' (chain.drop n) = true
        ∧ (0 < n → ∀ h, chain[n - 1]? = some h → prev' = h.val) := by
  induction chain generalizing height prev n with
  | nil =>
    refine ⟨prev, by simp [linked], ?_⟩
    intro _ h hh
    simp at hh
  | cons h rest ih =>
    obtain ⟨b, hb, hheight, hprev, hrest⟩ := linked_cons hl
    cases n with
    | zero => exact ⟨prev, by simpa using hl, by omega⟩
    | succ n =>
      obtain ⟨prev', hdrop, hlast⟩ := ih (n := n) hrest
      cases n with
      | zero =>
        refine ⟨h.val, hrest, ?_⟩
        intro _ h' hh'
        cases hh'
        rfl
      | succ n =>
        refine ⟨prev', by rwa [Nat.add_right_comm, Nat.add_assoc] at hdrop ⊢, ?_⟩
        intro _ h' hh'
        exact hlast (by omega) h' (by simpa using hh')

theorem valid_linked {chain : Chain} (h : node.valid chain = true)
    : node.linked 0 (List.replicate 32 0) chain = true := by
  simp only [valid, Bool.and_eq_true] at h
  exact h.1.1

theorem valid_length {chain : Chain} (h : node.valid chain = true)
    : 0 < chain.length ∧ chain.length ≤ 2147483648 := by
  simp only [valid, Bool.and_eq_true, decide_eq_true_eq] at h
  exact ⟨List.length_pos_iff.mpr h.1.2, h.2⟩

theorem blockAt_spec {chain : Chain} {height : Nat} {b : BlockData} (hv : node.valid chain = true)
    (hb : node.blockAt chain height = some b)
    : ∃ h, chain[height]? = some h ∧ node.data h = some b ∧ b.compact.height = height := by
  obtain ⟨h, hh, hdata⟩ := Option.bind_eq_some_iff.mp hb
  obtain ⟨b', hb', hheight⟩ := linked_get (valid_linked hv) hh
  cases hdata.symm.trans hb'
  exact ⟨h, hh, hdata, by omega⟩

theorem collect_map {α β : Type} (f : BlockData → List α) (g : α → β) (chain : Chain)
    : (node.collect f chain).map g = node.collect (fun b => (f b).map g) chain := by
  induction chain with
  | nil => rfl
  | cons h rest ih =>
    simp only [collect, List.map_append, ih]
    cases node.data h <;> rfl

end Chains

section Served

variable (node : Node)

def rootsOf (chain : Chain) (pool : Pool) : List SubtreeRoot :=
  node.collect (fun b => (b.completes pool).map fun root =>
    ⟨root, b.compact.hash.reverse, b.compact.height⟩) chain

/--
A cached listing holds the roots of the chain that the answer was computed from.
-/
def ListedWell (a : Auditor) (origin : Chain) : Audit → Prop
  | .subtrees pool start _ _ =>
    ∀ listed, a.roots pool = some listed → (node.rootsOf origin pool).length ≤ listed.length
      → (node.rootsOf origin pool).drop start <+: listed.drop start
  | _ => True

/--
While an answer is judged: the block at its height stays the one whose hash was read, the roots of the
chain it was computed from are still there, the tip is near the one in a `LightdInfo`, and when the
UTXOs of an address have changed so has the tip.
-/
def JudgesWell (chain origin : Chain) (a : Auditor) (c : Choice) (audit : Audit) (answers : Answers)
    (q : Call) : Prop :=
  match audit, q with
  | .full height _ _, .getblock _ =>
    ∀ (h : Hash) (display : Bytes), chain[height]? = some h
      → ⟨.getblockhash height, .ok display⟩ ∈ answers → h.val = display.reverse
  | .subtrees pool start _ _, .getsubtreesbyindex _ =>
    (node.subtrees origin pool).drop start <+: (node.subtrees chain pool).drop start
  | .subtrees pool start _ _, .getblockhash height =>
    ∀ root ∈ (node.rootsOf origin pool).drop start, root.completingBlockHeight = height
      → ∀ h, chain[height]? = some h → h.val.reverse = root.completingBlockHash
  | .lightdInfo _, .now =>
    answers = [] → c.now - a.tip.2 < tipRefresh → Near origin.height a.tip.1
  | .lightdInfo _, .tip => Near origin.height chain.height
  | .addressUtxos address _ tip, .tip =>
    ∀ listed, ⟨.getaddressutxos address, .ok listed⟩ ∈ answers → listed ≠ node.utxos address origin
      → ⟨.tip, .ok tip⟩ ∈ answers → chain.height ≠ tip
  | _, _ => True

end Served

end Node

namespace World

/--
A step at which the checks of the load test have nothing to say against a correct server.
-/
def Meets (node : Node) (w : World) : Input → Prop
  | .act i choice =>
    match w.sessions[i]? with
    | some ⟨.ask q _, _⟩ => choice.refused = false → ServesWell w.chain choice q
    | _ => True
  | .recv =>
    match w.auditing.ledger.audits, w.origins with
    | audit :: _, origin :: _ => node.ListedWell w.auditing.auditor origin audit
    | _, _ => True
  | .zebra choice =>
    match w.auditing.pc with
    | .judging audit _ answers (.ask q _) =>
      Answered choice q
        → node.JudgesWell w.chain w.origin w.auditing.auditor choice audit answers q
    | _ => True
  | _ => True

end World

section Contract

variable (cx : Cx) (node : Node)

def Evolves (chain chain' : Chain) : Prop :=
  ∀ height h, height < cx.stableBelow → chain[height]? = some h → chain'[height]? = some h

theorem evolves_refl (chain : Chain) : Evolves cx chain chain := fun _ _ _ h => h

variable {cx} in
theorem Evolves.trans {c₁ c₂ c₃ : Chain} (h : Evolves cx c₁ c₂) (h' : Evolves cx c₂ c₃)
    : Evolves cx c₁ c₃ :=
  fun height x hlt hx => h' height x hlt (h height x hlt hx)

variable {cx node} in
theorem blockAt_evolves {chain chain' : Chain} {height : Nat} {b : BlockData}
    (hevolves : Evolves cx chain chain') (hlt : height < cx.stableBelow)
    (hb : node.blockAt chain height = some b) : node.blockAt chain' height = some b := by
  obtain ⟨h, hh, hdata⟩ := Option.bind_eq_some_iff.mp hb
  exact Option.bind_eq_some_iff.mpr ⟨h, hevolves height h hlt hh, hdata⟩

/--
An answer of the server, `origin` being the chain it was computed from.
-/
def Genuine (chain origin : Chain) : Audit → Prop
  | .shielded height message =>
    height < cx.stableBelow ∧ ∃ b, node.blockAt chain height = some b ∧ message = b.shielded
  | .full height message _ =>
    ∃ h b, node.data h = some b ∧ b.compact.height = height ∧ message = b.full
  | .treeState height message _ =>
    ∃ h b, node.data h = some b ∧ b.compact.height = height ∧ message = b.treeState
  | .tip message => ∃ h b, node.data h = some b ∧ message = b.id
  | .subtrees pool start max messages =>
    max = 0 ∧ messages = (node.rootMessages origin pool).drop start
  | .mempool message => ∃ raw, message = node.mempoolTx raw
  | .lightdInfo message =>
    node.valid origin = true ∧ ∃ b, node.blockAt origin origin.height = some b ∧ message = b.info
  | .addressUtxos address message _ => message = node.addressUtxos address origin

-- What the ledger may hold under a key that it takes for stable.
def KeyOk (chain : Chain) : Key → Nat → Prop
  | .treeState height, digest =>
    height < cx.stableBelow
      → ∃ b, node.blockAt chain height = some b ∧ digest = cx.wire.digest b.treeState
  | .mempool d, digest => digest = d
  | _, _ => True

def Key.isStable : Key → Bool
  | .treeState height => height < cx.stableBelow
  | .mempool _ => true
  | _ => false

-- What a wallet may tell the ledger, `seen` being the chain of its last reply.
def TellOk (chain seen : Chain) : Request → Prop
  | .violated .. => False
  | .answer key digest stable audit =>
    Genuine cx node chain seen audit ∧ KeyOk cx node chain key digest
      ∧ (stable = true → Key.isStable cx key = true)
  | .shieldedBlock height message =>
    height < cx.stableBelow → ∃ b, node.blockAt chain height = some b ∧ message = b.shielded
  | .queue audit => Genuine cx node chain seen audit
  | _ => True

-- A wallet among the others, its world is the chain and the chain of its last reply.
def walletContract : Dialog.Contract Request Request.Reply (Chain × Chain) where
  rely w w' := Evolves cx w.1 w'.1 ∧ w'.2 = w.2
  pre w q := node.valid w.1 = true → TellOk cx node w.1 w.2 q
  post w q r w' :=
    w' = (w.1, if q.isServed then w.1 else w.2) ∧ node.valid w.1 = true
      ∧ ∃ choice, r = node.serve w.1 choice q
        ∧ (choice.refused = false → ServesWell w.1 choice q)
  refl w := ⟨evolves_refl cx w.1, rfl⟩
  trans h h' := ⟨h.1.trans h'.1, h'.2.trans h.2⟩

-- The auditor judging an answer, its world is the chain and what zebra has answered.
def auditContract (origin : Chain) (a : Auditor) (audit : Audit)
    : Dialog.Contract Call Call.Reply (Chain × Answers) where
  rely w w' := Evolves cx w.1 w'.1 ∧ w'.2 = w.2
  pre _ _ := True
  post w q r w' :=
    w' = (w.1, w.2 ++ [⟨q, r⟩]) ∧ node.valid w.1 = true
      ∧ ∃ choice, r = node.zebra w.1 choice q
        ∧ (Answered choice q → node.JudgesWell w.1 origin a choice audit w.2 q)
  refl w := ⟨evolves_refl cx w.1, rfl⟩
  trans h h' := ⟨h.1.trans h'.1, h'.2.trans h.2⟩

end Contract

end Loadtest
