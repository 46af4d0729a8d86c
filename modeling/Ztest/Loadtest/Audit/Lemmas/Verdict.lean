import Ztest.Loadtest.Audit.Impl

namespace Loadtest

open Dialog (Runs)

theorem blockDiff_eq_none {expected served : CompactBlock} (h : blockDiff expected served = none)
    : expected = served := by
  unfold blockDiff at h
  split at h
  . assumption
  . simp at h

theorem differing_eq_none {α : Type} [DecidableEq α] {path : String} {expected served : α} {shown : α → String}
    (h : differing path expected served shown = none)
    : expected = served := by
  unfold differing at h
  split at h
  . assumption
  . cases h

theorem treeStateDiff_eq_none {expected served : TreeState} (h : treeStateDiff expected served = none)
    : { served with network := expected.network } = expected := by
  simp only [treeStateDiff, Option.or_eq_none_iff] at h
  obtain ⟨⟨⟨⟨⟨hheight, hhash⟩, htime⟩, hsapling⟩, horchard⟩, hironwood⟩ := h
  have hheight := differing_eq_none hheight
  have hhash := differing_eq_none hhash
  have htime := differing_eq_none htime
  have hsapling := differing_eq_none hsapling
  have horchard := differing_eq_none horchard
  have hironwood := differing_eq_none hironwood
  cases expected
  cases served
  simp_all

theorem differs_eq_holds {height : Nat} {diff : Option String}
    (h : (differs height diff).outcome = .audited) : diff = none := by
  cases diff with
  | none => rfl
  | some detail => cases h

theorem differs_ne_skipped {height : Nat} {diff : Option String}
    : (differs height diff).outcome ≠ .skipped := by
  cases diff <;> simp [differs, Verdict.outcome]

theorem reversed_ok {display hash : Bytes} {method : String} (h : reversed display method = .ok hash)
    : hash = display.reverse := by
  unfold reversed at h
  split at h
  . cases h
    rfl
  . cases h

/--
The compact form of one of zebra's blocks, with the fees left open.
-/
def Block.compact (fees : Nat → Nat) (block : Block) : Except ReferenceError CompactBlock := do
  let vtx ← (block.tx.zipIdx).mapM fun (tx, index) => compactTx index tx (fees index)
  Zebra.compactHead block vtx

namespace Zebra

variable {answers : Answers}

theorem runs_blockHash {height : Nat} {r : Except ReferenceError Bytes}
    (h : Runs (blockHash height) answers r)
    : ∃ reply, answers = [⟨.getblockhash height, reply⟩]
        ∧ r = (reply : Except ReferenceError Bytes).bind (reversed · "getblockhash") := by
  obtain ⟨reply, rest, rfl, hrest⟩ := Dialog.runs_call.mp h
  refine ⟨reply, ?_⟩
  cases reply with
  | error e =>
    obtain ⟨rfl, rfl⟩ := Dialog.runs_done.mp hrest
    exact ⟨rfl, rfl⟩
  | ok display =>
    obtain ⟨rfl, rfl⟩ := Dialog.runs_done.mp hrest
    exact ⟨rfl, rfl⟩

theorem runs_blockHash_ok {height : Nat} {hash : Bytes} (h : Runs (blockHash height) answers (.ok hash))
    : ∃ display : Bytes, ⟨.getblockhash height, .ok display⟩ ∈ answers ∧ hash = display.reverse := by
  obtain ⟨reply, rfl, hr⟩ := runs_blockHash h
  cases reply with
  | error e => cases hr
  | ok display =>
    refine ⟨display, List.mem_singleton.mpr rfl, ?_⟩
    exact reversed_ok hr.symm

theorem compactTxs_asServed (served : CompactBlock) (index : Nat) (txs : List Tx)
    : compactTxs (.asServed served) index txs
      = .done ((txs.zipIdx index).mapM fun (tx, index) =>
          compactTx index tx (servedFee served index)) := by
  induction txs generalizing index with
  | nil => rfl
  | cons tx txs ih =>
    simp only [compactTxs, Dialog.pure_eq, Dialog.bind_done, ih, List.zipIdx_cons, List.mapM_cons]
    cases compactTx index tx (servedFee served index) with
    | error e => rfl
    | ok compact =>
      cases (txs.zipIdx (index + 1)).mapM fun (tx, index) =>
          compactTx index tx (servedFee served index) with
      | error e => rfl
      | ok vtx => rfl

theorem runs_compactTxs {served : CompactBlock} {index : Nat} {txs : List Tx}
    {r : Except ReferenceError (List CompactTx)}
    (h : Runs (compactTxs (.asServed served) index txs) answers r)
    : answers = [] ∧ r = (txs.zipIdx index).mapM fun (tx, index) =>
        compactTx index tx (servedFee served index) := by
  rw [compactTxs_asServed] at h
  exact Dialog.runs_done.mp h

theorem compactHead_height {block : Block} {vtx : List CompactTx} {compact : CompactBlock}
    (h : compactHead block vtx = .ok compact) : compact.height = block.height := by
  obtain ⟨_, _, h⟩ := Run.bind_ok h
  obtain ⟨_, _, h⟩ := Run.bind_ok h
  obtain ⟨_, _, h⟩ := Run.bind_ok h
  obtain ⟨_, _, h⟩ := Run.bind_ok h
  obtain ⟨_, _, h⟩ := Run.bind_ok h
  cases h
  rfl

theorem runs_compactBlock {served expected : CompactBlock} {height : Nat}
    (h : Runs (compactBlock height (.asServed served)) answers (.ok expected))
    : ∃ block : Block, ⟨.getblock height, .ok block⟩ ∈ answers ∧ expected.height = height
        ∧ block.compact (servedFee served) = .ok expected := by
  obtain ⟨reply, rest, rfl, hrest⟩ := Dialog.runs_call.mp h
  cases reply with
  | error e =>
    obtain ⟨_, hr⟩ := Dialog.runs_done.mp hrest
    cases hr
  | ok block =>
    refine ⟨block, List.mem_cons_self, ?_⟩
    simp only at hrest
    split at hrest
    . obtain ⟨_, hr⟩ := Dialog.runs_done.mp hrest
      cases hr
    . next hheight =>
      obtain ⟨before, after, vtx, rfl, hvtx, hlast⟩ := Dialog.runs_bind.mp hrest
      obtain ⟨_, hvtx⟩ := runs_compactTxs hvtx
      cases vtx with
      | error e =>
        obtain ⟨_, hr⟩ := Dialog.runs_done.mp hlast
        cases hr
      | ok vtx =>
        obtain ⟨_, hr⟩ := Dialog.runs_done.mp hlast
        constructor
        . exact (compactHead_height hr.symm).trans (not_not.mp hheight)
        . unfold Block.compact
          rw [← hvtx]
          exact hr.symm

theorem runs_treeState {height : Nat} {expected : TreeState}
    (h : Runs (treeState height) answers (.ok expected))
    : ∃ state : TreeStateJson, ⟨.gettreestate height, .ok state⟩ ∈ answers
        ∧ expected = ⟨"", state.height, state.hash, state.time, state.sapling, state.orchard,
            state.ironwood⟩ := by
  obtain ⟨reply, rest, rfl, hrest⟩ := Dialog.runs_call.mp h
  cases reply with
  | error e =>
    obtain ⟨_, hr⟩ := Dialog.runs_done.mp hrest
    cases hr
  | ok state =>
    obtain ⟨_, hr⟩ := Dialog.runs_done.mp hrest
    cases hr
    exact ⟨state, List.mem_cons_self, rfl⟩

end Zebra

/--
`roots` is a listing of `pool` that zebra has answered.
-/
def Listed (answers : Answers) (pool : Pool) (roots : List SubtreeRoot) : Prop :=
  ∃ before mid after, answers = before ++ mid ++ after ∧ Runs (Zebra.subtreeRoots pool) mid (.ok roots)

/--
One of zebra's methods ended with an error: zebra refused, or answered off contract.
-/
def Refused (answers : Answers) : Prop :=
  ∃ before after e, answers = before ++ after
    ∧ ((∃ height, Runs (Zebra.blockHash height) after (.error e))
      ∨ (∃ height fees, Runs (Zebra.compactBlock height fees) after (.error e))
      ∨ (∃ height, Runs (Zebra.treeState height) after (.error e))
      ∨ ∃ pool, Runs (Zebra.subtreeRoots pool) after (.error e))

/--
The decoded message is what zebra answered, but for the fees of a block and the network of a tree
state. `all` are zebra's answers so far, `answers` those to this audit.
-/
def Matches (wire : Wire) (all answers : Answers) : Audit → Prop
  | .full height message _ =>
    ∃ served block fees, wire.compactBlock message = .ok served ∧ served.height = height
      ∧ ⟨.getblock height, .ok block⟩ ∈ answers ∧ Block.compact fees block = .ok served
  | .treeState height message _ =>
    ∃ (served : TreeState) (state : TreeStateJson), wire.treeState message = .ok served
      ∧ ⟨.gettreestate height, .ok state⟩ ∈ answers
      ∧ served = ⟨served.network, state.height, state.hash, state.time, state.sapling, state.orchard,
          state.ironwood⟩
  | .tip message =>
    ∃ served, wire.blockId message = .ok served
      ∧ (served.height < u32Range → ∃ display : Bytes,
          ⟨.getblockhash served.height, .ok display⟩ ∈ answers ∧ served.hash = display.reverse)
  | .subtrees pool start max messages =>
    ∃ served roots, messages.mapM wire.subtreeRoot = .ok served ∧ Listed all pool roots
      ∧ served = Auditor.rootRange roots start max
  | _ => True

/--
Why an audit that was judged is counted as skipped.
-/
def Missed (wire : Wire) (all answers : Answers) : Audit → Prop
  | .full height message _ =>
    Refused answers
      ∨ ∃ (served : CompactBlock) (display : Bytes), wire.compactBlock message = .ok served
        ∧ ⟨.getblockhash height, .ok display⟩ ∈ answers ∧ display.reverse ≠ served.hash
  | .treeState height message _ =>
    Refused answers
      ∨ ∃ (served : TreeState) (state : TreeStateJson), wire.treeState message = .ok served
        ∧ ⟨.gettreestate height, .ok state⟩ ∈ answers ∧ state.hash ≠ served.hash
  | .tip message =>
    Refused answers
      ∨ ∃ served, wire.blockId message = .ok served
        ∧ (served.height < u32Range → ∃ display : Bytes,
            ⟨.getblockhash served.height, .ok display⟩ ∈ answers ∧ display.reverse ≠ served.hash)
  | .subtrees pool start max messages =>
    Refused answers
      ∨ ∃ served roots, messages.mapM wire.subtreeRoot = .ok served ∧ Listed all pool roots
        ∧ served <+: Auditor.rootRange roots start max
        ∧ served.length < (Auditor.rootRange roots start max).length
  | _ => True

theorem Listed.append_left {answers : Answers} {pool : Pool} {roots : List SubtreeRoot}
    (h : Listed answers pool roots) (pre : Answers) : Listed (pre ++ answers) pool roots := by
  obtain ⟨before, mid, after, rfl, hruns⟩ := h
  exact ⟨pre ++ before, mid, after, by simp, hruns⟩

theorem Listed.append_right {answers : Answers} {pool : Pool} {roots : List SubtreeRoot}
    (h : Listed answers pool roots) (post : Answers) : Listed (answers ++ post) pool roots := by
  obtain ⟨before, mid, after, rfl, hruns⟩ := h
  exact ⟨before, mid, after ++ post, by simp, hruns⟩

theorem listed_of_runs {answers : Answers} {pool : Pool} {roots : List SubtreeRoot}
    (h : Runs (Zebra.subtreeRoots pool) answers (.ok roots)) : Listed answers pool roots :=
  ⟨[], answers, [], by simp, h⟩

namespace Auditor

variable {wire : Wire} {answers : Answers} {a a' : Auditor} {verdict : Verdict}

theorem full_matches {height tip : Nat} {message : Bytes} {all : Answers}
    (h : Runs (full wire height message) answers verdict)
    : (verdict.outcome = .audited → Matches wire all answers (.full height message tip))
      ∧ (verdict.outcome = .skipped → Missed wire all answers (.full height message tip)) := by
  unfold full at h
  split at h
  . obtain ⟨_, rfl⟩ := Dialog.runs_done.mp h
    exact ⟨nofun, nofun⟩
  . next served hserved =>
    obtain ⟨before, after, hash, rfl, hhash, hrest⟩ := Dialog.runs_bind.mp h
    cases hash with
    | error e =>
      obtain ⟨rfl, rfl⟩ := Dialog.runs_done.mp hrest
      refine ⟨nofun, fun _ => .inl ⟨[], before, e, by simp, .inl ⟨height, hhash⟩⟩⟩
    | ok hash =>
      simp only at hrest
      split at hrest
      . next hne =>
        obtain ⟨rfl, rfl⟩ := Dialog.runs_done.mp hrest
        obtain ⟨display, hmem, rfl⟩ := Zebra.runs_blockHash_ok hhash
        refine ⟨nofun, fun _ => .inr ⟨served, display, hserved, by simpa using hmem, hne⟩⟩
      . obtain ⟨mid, after', expected, rfl, hblock, hlast⟩ := Dialog.runs_bind.mp hrest
        cases expected with
        | error e =>
          obtain ⟨rfl, rfl⟩ := Dialog.runs_done.mp hlast
          refine ⟨nofun, fun _ => .inl ⟨before, mid, e, by simp, .inr (.inl ⟨height, _, hblock⟩)⟩⟩
        | ok expected =>
          obtain ⟨rfl, rfl⟩ := Dialog.runs_done.mp hlast
          refine ⟨fun hv => ?_, fun hv => absurd hv differs_ne_skipped⟩
          obtain ⟨block, hmem, hheight, hcompact⟩ := Zebra.runs_compactBlock hblock
          rw [blockDiff_eq_none (differs_eq_holds hv)] at hheight hcompact
          exact ⟨served, block, _, hserved, hheight, by simp [hmem], hcompact⟩

theorem treeState_matches {height tip : Nat} {message : Bytes} {all : Answers}
    (h : Runs (treeState wire height message) answers verdict)
    : (verdict.outcome = .audited → Matches wire all answers (.treeState height message tip))
      ∧ (verdict.outcome = .skipped → Missed wire all answers (.treeState height message tip)) := by
  unfold treeState at h
  split at h
  . obtain ⟨_, rfl⟩ := Dialog.runs_done.mp h
    exact ⟨nofun, nofun⟩
  . next served hserved =>
    obtain ⟨before, after, expected, rfl, hstate, hrest⟩ := Dialog.runs_bind.mp h
    cases expected with
    | error e =>
      obtain ⟨rfl, rfl⟩ := Dialog.runs_done.mp hrest
      refine ⟨nofun, fun _ => .inl ⟨[], before, e, by simp, .inr (.inr (.inl ⟨height, hstate⟩))⟩⟩
    | ok expected =>
      obtain ⟨state, hmem, rfl⟩ := Zebra.runs_treeState hstate
      simp only at hrest
      split at hrest
      . next hne =>
        obtain ⟨rfl, rfl⟩ := Dialog.runs_done.mp hrest
        refine ⟨nofun, fun _ => .inr ⟨served, state, hserved, by simpa using hmem, hne⟩⟩
      . obtain ⟨rfl, rfl⟩ := Dialog.runs_done.mp hrest
        refine ⟨fun hv => ?_, fun hv => absurd hv differs_ne_skipped⟩
        refine ⟨served, state, hserved, by simpa using hmem, ?_⟩
        have heq := treeStateDiff_eq_none (differs_eq_holds hv)
        cases served
        simp_all

theorem latest_matches {message : Bytes} {all : Answers} (h : Runs (latest wire message) answers verdict)
    : (verdict.outcome = .audited → Matches wire all answers (.tip message))
      ∧ (verdict.outcome = .skipped → Missed wire all answers (.tip message)) := by
  unfold latest at h
  split at h
  . obtain ⟨_, rfl⟩ := Dialog.runs_done.mp h
    exact ⟨nofun, nofun⟩
  . next served hserved =>
    obtain ⟨before, after, hash, rfl, hhash, hrest⟩ := Dialog.runs_bind.mp h
    cases hash with
    | error e =>
      obtain ⟨rfl, rfl⟩ := Dialog.runs_done.mp hrest
      refine ⟨nofun, fun _ => .inl ⟨[], before, e, by simp, .inl ⟨_, hhash⟩⟩⟩
    | ok hash =>
      obtain ⟨display, hmem, rfl⟩ := Zebra.runs_blockHash_ok hhash
      simp only at hrest
      split at hrest
      . next heq =>
        obtain ⟨rfl, rfl⟩ := Dialog.runs_done.mp hrest
        refine ⟨fun _ => ⟨served, hserved, fun hlt => ?_⟩, nofun⟩
        rw [asU32_of_lt hlt] at hmem
        exact ⟨display, by simpa using hmem, heq.symm⟩
      . next hne =>
        obtain ⟨rfl, rfl⟩ := Dialog.runs_done.mp hrest
        refine ⟨nofun, fun _ => .inr ⟨served, hserved, fun hlt => ?_⟩⟩
        rw [asU32_of_lt hlt] at hmem
        exact ⟨display, by simpa using hmem, hne⟩

theorem prefix_of_firstDiffering {served expected : List SubtreeRoot} {n : Nat}
    (h : firstDiffering n served expected = none) (hle : served.length ≤ expected.length)
    : served <+: expected := by
  induction served generalizing n expected with
  | nil => exact List.nil_prefix
  | cons s served ih =>
    cases expected with
    | nil => simp at hle
    | cons e expected =>
      simp only [firstDiffering] at h
      split at h
      . cases h
      . next heq =>
        rw [not_not.mp heq, List.prefix_cons_inj]
        exact ih h (by simpa using hle)

theorem compareRoots_spec {pool : Pool} {start max : Nat} {served expected : List SubtreeRoot}
    (h : compareRoots pool start max served expected = verdict)
    : (verdict.outcome = .audited → served = expected)
      ∧ (verdict.outcome = .skipped → served <+: expected ∧ served.length < expected.length) := by
  unfold compareRoots at h
  subst h
  split
  . exact ⟨nofun, nofun⟩
  . next hnone =>
    split
    . next hlen =>
      exact ⟨fun _ => (prefix_of_firstDiffering hnone (Nat.le_of_eq hlen)).eq_of_length hlen, nofun⟩
    . split
      . next hlt =>
        exact ⟨nofun, fun _ => ⟨prefix_of_firstDiffering hnone (Nat.le_of_lt hlt), hlt⟩⟩
      . exact ⟨nofun, nofun⟩

theorem runs_readListing {pool : Pool} {r : Except ReferenceError (Auditor × List SubtreeRoot)}
    (h : Runs (a.readListing pool) answers r)
    : (∃ e, Runs (Zebra.subtreeRoots pool) answers (.error e) ∧ r = .error e)
      ∨ ∃ roots, Runs (Zebra.subtreeRoots pool) answers (.ok roots)
        ∧ r = .ok ({ a with roots := Function.update a.roots pool (some roots) }, roots) := by
  obtain ⟨before, after, listed, rfl, hlisted, hrest⟩ := Dialog.runs_bind.mp h
  cases listed with
  | error e =>
    obtain ⟨rfl, rfl⟩ := Dialog.runs_done.mp hrest
    rw [List.append_nil]
    exact .inl ⟨e, hlisted, rfl⟩
  | ok roots =>
    obtain ⟨rfl, rfl⟩ := Dialog.runs_done.mp hrest
    rw [List.append_nil]
    exact .inr ⟨roots, hlisted, rfl⟩

theorem runs_listing {pool : Pool} {reach : Nat}
    {r : Except ReferenceError (Auditor × List SubtreeRoot)} (h : Runs (a.listing pool reach) answers r)
    : (answers = [] ∧ ∃ roots, a.roots pool = some roots ∧ r = .ok (a, roots))
      ∨ (∃ e, Runs (Zebra.subtreeRoots pool) answers (.error e) ∧ r = .error e)
      ∨ ∃ roots, Runs (Zebra.subtreeRoots pool) answers (.ok roots)
        ∧ r = .ok ({ a with roots := Function.update a.roots pool (some roots) }, roots) := by
  unfold listing at h
  split at h
  . exact .inr (runs_readListing h)
  . next roots hroots =>
    split at h
    . exact .inr (runs_readListing h)
    . obtain ⟨rfl, rfl⟩ := Dialog.runs_done.mp h
      exact .inl ⟨rfl, roots, hroots, rfl⟩

theorem subtrees_matches {pool : Pool} {start max : Nat} {messages : List Bytes} {pre : Answers}
    (hcache : ∀ roots, a.roots pool = some roots → Listed pre pool roots)
    (h : Runs (a.subtrees wire pool start max messages) answers (a', verdict))
    : (verdict.outcome = .audited
        → Matches wire (pre ++ answers) answers (.subtrees pool start max messages))
      ∧ (verdict.outcome = .skipped
        → Missed wire (pre ++ answers) answers (.subtrees pool start max messages)) := by
  unfold subtrees at h
  split at h
  . obtain ⟨_, hr⟩ := Dialog.runs_done.mp h
    cases hr
    exact ⟨nofun, nofun⟩
  . next served hserved =>
    obtain ⟨before, after, listed, rfl, hlisted, hrest⟩ := Dialog.runs_bind.mp h
    have hcompare : ∀ (b : Auditor) (every : List SubtreeRoot), Listed (pre ++ before) pool every
        → Runs (pure (b, compareRoots pool start max served (rootRange every start max))) after
            (a', verdict)
        → (verdict.outcome = .audited
            → Matches wire (pre ++ (before ++ after)) (before ++ after)
                (.subtrees pool start max messages))
          ∧ (verdict.outcome = .skipped
            → Missed wire (pre ++ (before ++ after)) (before ++ after)
                (.subtrees pool start max messages)) := by
      intro b every hevery hdone
      obtain ⟨rfl, hr⟩ := Dialog.runs_done.mp hdone
      cases hr
      have hspec := compareRoots_spec
        (rfl : compareRoots pool start max served (rootRange every start max) = _)
      rw [List.append_nil]
      refine ⟨fun hv => ⟨served, every, hserved, hevery, hspec.1 hv⟩, fun hv => .inr ?_⟩
      exact ⟨served, every, hserved, hevery, hspec.2 hv⟩
    rcases runs_listing hlisted with ⟨rfl, roots, hroots, rfl⟩ | ⟨e, hruns, rfl⟩ | ⟨roots, hruns, rfl⟩
    . exact hcompare a roots (by simpa using hcache roots hroots) hrest
    . obtain ⟨rfl, hr⟩ := Dialog.runs_done.mp hrest
      cases hr
      refine ⟨nofun, fun _ => .inl ⟨[], before, e, by simp, .inr (.inr (.inr ⟨pool, hruns⟩))⟩⟩
    . exact hcompare _ roots ((listed_of_runs hruns).append_left pre) hrest

/--
What the answers to a check leave of the caches: a tip or a listing that is new was answered.
-/
structure Kept (answers : Answers) (a a' : Auditor) : Prop where
  deferred : a'.deferred = a.deferred
  tip : a'.tip.1 = a.tip.1 ∨ ⟨.tip, .ok a'.tip.1⟩ ∈ answers
  roots : ∀ pool roots, a'.roots pool = some roots
    → a.roots pool = some roots ∨ Listed answers pool roots

theorem kept_refl : Kept answers a a := ⟨rfl, .inl rfl, fun _ _ h => .inl h⟩

theorem Kept.append_left (h : Kept answers a a') (pre : Answers) : Kept (pre ++ answers) a a' := by
  constructor
  . exact h.deferred
  . exact h.tip.imp_right (List.mem_append_right pre)
  . intro pool roots hroots
    exact (h.roots pool roots hroots).imp_right (·.append_left pre)

theorem Kept.append_right (h : Kept answers a a') (post : Answers) : Kept (answers ++ post) a a' := by
  constructor
  . exact h.deferred
  . exact h.tip.imp_right (List.mem_append_left post)
  . intro pool roots hroots
    exact (h.roots pool roots hroots).imp_right (·.append_right post)

theorem kept_zebraTip {tip : Option Nat} (h : Runs a.zebraTip answers (a', tip))
    : Kept answers a a' ∧ ∀ t, tip = some t → t = a'.tip.1 := by
  obtain ⟨now, rest, rfl, hnow⟩ := Dialog.runs_call.mp h
  split at hnow
  . obtain ⟨reply, rest', rfl, hreply⟩ := Dialog.runs_call.mp hnow
    cases reply with
    | error e =>
      obtain ⟨_, hr⟩ := Dialog.runs_done.mp hreply
      cases hr
      exact ⟨kept_refl, nofun⟩
    | ok t =>
      obtain ⟨now', rest'', rfl, hlast⟩ := Dialog.runs_call.mp hreply
      obtain ⟨_, hr⟩ := Dialog.runs_done.mp hlast
      cases hr
      refine ⟨⟨rfl, .inr ?_, fun _ _ hroots => .inl hroots⟩, ?_⟩
      . simp
      . intro t' ht
        cases ht
        rfl
  . obtain ⟨_, hr⟩ := Dialog.runs_done.mp hnow
    cases hr
    refine ⟨kept_refl, ?_⟩
    intro t ht
    cases ht
    rfl

theorem kept_shielded {height : Nat} {message : Bytes}
    (h : Runs (a.shielded wire height message) answers (a', verdict))
    : Kept answers a a' := by
  unfold shielded at h
  split at h
  . obtain ⟨_, hr⟩ := Dialog.runs_done.mp h
    cases hr
    exact kept_refl
  . obtain ⟨before, after, expected, rfl, _, hrest⟩ := Dialog.runs_bind.mp h
    cases expected with
    | error e =>
      obtain ⟨_, hr⟩ := Dialog.runs_done.mp hrest
      cases hr
      exact ⟨rfl, .inl rfl, fun _ _ hroots => .inl hroots⟩
    | ok expected =>
      obtain ⟨_, hr⟩ := Dialog.runs_done.mp hrest
      cases hr
      exact ⟨rfl, .inl rfl, fun _ _ hroots => .inl hroots⟩

theorem runs_unchanged {check : Ask Verdict} (h : Runs (a.unchanged check) answers (a', verdict))
    : a' = a ∧ Runs check answers verdict := by
  obtain ⟨before, after, v, rfl, hcheck, hrest⟩ := Dialog.runs_bind.mp h
  obtain ⟨rfl, hr⟩ := Dialog.runs_done.mp hrest
  cases hr
  rw [List.append_nil]
  exact ⟨rfl, hcheck⟩

theorem kept_subtrees {pool : Pool} {start max : Nat} {messages : List Bytes}
    (h : Runs (a.subtrees wire pool start max messages) answers (a', verdict))
    : Kept answers a a' := by
  unfold subtrees at h
  split at h
  . obtain ⟨_, hr⟩ := Dialog.runs_done.mp h
    cases hr
    exact kept_refl
  . obtain ⟨before, after, listed, rfl, hlisted, hrest⟩ := Dialog.runs_bind.mp h
    rcases runs_listing hlisted with ⟨rfl, roots, hroots, rfl⟩ | ⟨e, hruns, rfl⟩ | ⟨roots, hruns, rfl⟩
    . obtain ⟨_, hr⟩ := Dialog.runs_done.mp hrest
      cases hr
      exact kept_refl
    . obtain ⟨_, hr⟩ := Dialog.runs_done.mp hrest
      cases hr
      exact kept_refl
    . obtain ⟨_, hr⟩ := Dialog.runs_done.mp hrest
      cases hr
      refine ⟨rfl, .inl rfl, ?_⟩
      intro pool' roots' hroots'
      by_cases hpool : pool' = pool
      . subst hpool
        have heq : roots = roots' := by simpa using hroots'
        subst heq
        exact .inr ((listed_of_runs hruns).append_right after)
      . exact .inl (by simpa [Function.update_of_ne hpool] using hroots')

theorem kept_readMempool {listed : List Bytes} (h : Runs (readMempool wire a listed) answers a')
    : Kept answers a a' := by
  induction listed generalizing a answers with
  | nil =>
    obtain ⟨_, rfl⟩ := Dialog.runs_done.mp h
    exact kept_refl
  | cons txid listed ih =>
    obtain ⟨reply, rest, rfl, hrest⟩ := Dialog.runs_call.mp h
    cases reply with
    | error e => exact (ih hrest).append_left [_]
    | ok raw =>
      obtain ⟨hdeferred, htip, hroots⟩ := (ih hrest).append_left [⟨.getrawtransaction txid, .ok raw⟩]
      exact ⟨hdeferred, htip, hroots⟩

theorem kept_mempoolTx {message : Bytes} (h : Runs (a.mempoolTx wire message) answers (a', verdict))
    : Kept answers a a' := by
  unfold mempoolTx at h
  split at h
  . obtain ⟨_, hr⟩ := Dialog.runs_done.mp h
    cases hr
    exact kept_refl
  . split at h
    . obtain ⟨_, hr⟩ := Dialog.runs_done.mp h
      cases hr
      exact kept_refl
    . simp only at h
      split at h
      . obtain ⟨_, hr⟩ := Dialog.runs_done.mp h
        cases hr
        exact kept_refl
      . obtain ⟨reply, rest, rfl, hrest⟩ := Dialog.runs_call.mp h
        cases reply with
        | error e =>
          obtain ⟨_, hr⟩ := Dialog.runs_done.mp hrest
          cases hr
          exact kept_refl
        | ok listed =>
          obtain ⟨before, after, b, rfl, hread, hlast⟩ := Dialog.runs_bind.mp hrest
          obtain ⟨_, hr⟩ := Dialog.runs_done.mp hlast
          cases hr
          exact ((kept_readMempool hread).append_right after).append_left [_]

theorem kept_lightdInfo {message : Bytes} (h : Runs (a.lightdInfo wire message) answers (a', verdict))
    : Kept answers a a' := by
  unfold lightdInfo at h
  split at h
  . obtain ⟨_, hr⟩ := Dialog.runs_done.mp h
    cases hr
    exact kept_refl
  . obtain ⟨before, after, ⟨b, tip⟩, rfl, htip, hrest⟩ := Dialog.runs_bind.mp h
    have hkept := (kept_zebraTip htip).1.append_right after
    cases tip with
    | none =>
      obtain ⟨_, hr⟩ := Dialog.runs_done.mp hrest
      cases hr
      exact hkept
    | some tip =>
      simp only at hrest
      split at hrest
      . obtain ⟨_, hr⟩ := Dialog.runs_done.mp hrest
        cases hr
        exact hkept
      . split at hrest
        . obtain ⟨_, hr⟩ := Dialog.runs_done.mp hrest
          cases hr
          exact hkept
        . split at hrest
          . obtain ⟨_, hr⟩ := Dialog.runs_done.mp hrest
            cases hr
            exact hkept
          . obtain ⟨_, hr⟩ := Dialog.runs_done.mp hrest
            cases hr
            exact hkept

theorem kept_judgeBuried {audit : Audit} (h : Runs (a.judgeBuried wire audit) answers (a', verdict))
    : Kept answers a a' := by
  cases audit with
  | shielded height message => exact kept_shielded h
  | full height message tip =>
    rw [(runs_unchanged h).1]
    exact kept_refl
  | treeState height message tip =>
    rw [(runs_unchanged h).1]
    exact kept_refl
  | subtrees pool start max messages => exact kept_subtrees h
  | tip message =>
    rw [(runs_unchanged h).1]
    exact kept_refl
  | mempool message => exact kept_mempoolTx h
  | lightdInfo message => exact kept_lightdInfo h
  | addressUtxos address message tip =>
    rw [(runs_unchanged h).1]
    exact kept_refl

theorem judgeBuried_matches {audit : Audit} {pre : Answers}
    (hcache : ∀ pool roots, a.roots pool = some roots → Listed pre pool roots)
    (h : Runs (a.judgeBuried wire audit) answers (a', verdict))
    : (verdict.outcome = .audited → Matches wire (pre ++ answers) answers audit)
      ∧ (verdict.outcome = .skipped → Missed wire (pre ++ answers) answers audit) := by
  cases audit with
  | full height message tip => exact full_matches (runs_unchanged h).2
  | treeState height message tip => exact treeState_matches (runs_unchanged h).2
  | subtrees pool start max messages => exact subtrees_matches (hcache pool) h
  | tip message => exact latest_matches (runs_unchanged h).2
  | _ => exact ⟨fun _ => trivial, fun _ => trivial⟩

end Auditor
end Loadtest
