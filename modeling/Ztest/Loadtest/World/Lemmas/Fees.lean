import Ztest.Loadtest.World.Lemmas.Correct

namespace Loadtest

theorem compactTx_ok {index fee : Nat} {tx : Tx} {t : CompactTx} (h : compactTx index tx fee = .ok t)
    : t.index = index ∧ t.fee = fee := by
  obtain ⟨_, _, h⟩ := Run.bind_ok h
  obtain ⟨_, _, h⟩ := Run.bind_ok h
  obtain ⟨_, _, h⟩ := Run.bind_ok h
  obtain ⟨_, _, h⟩ := Run.bind_ok h
  obtain ⟨_, _, h⟩ := Run.bind_ok h
  obtain ⟨_, _, h⟩ := Run.bind_ok h
  obtain ⟨_, _, h⟩ := Run.bind_ok h
  cases h
  exact ⟨rfl, rfl⟩

theorem compactTx_fee {index fee : Nat} {tx : Tx} {t : CompactTx} (h : compactTx index tx fee = .ok t)
    (fee' : Nat) : compactTx index tx fee' = .ok { t with fee := fee' } := by
  obtain ⟨txid, htxid, h⟩ := Run.bind_ok h
  obtain ⟨spends, hspends, h⟩ := Run.bind_ok h
  obtain ⟨outputs, houtputs, h⟩ := Run.bind_ok h
  obtain ⟨actions, hactions, h⟩ := Run.bind_ok h
  obtain ⟨ironwood, hironwood, h⟩ := Run.bind_ok h
  obtain ⟨vin, hvin, h⟩ := Run.bind_ok h
  obtain ⟨vout, hvout, h⟩ := Run.bind_ok h
  cases h
  unfold compactTx
  rw [htxid, hspends, houtputs, hactions, hironwood, hvin, hvout]
  rfl

def compactVtx (fees : Nat → Nat) (index : Nat) (txs : List Tx) : Except ReferenceError (List CompactTx) :=
  (txs.zipIdx index).mapM fun (tx, index) => compactTx index tx (fees index)

theorem compactVtx_eq (fees : Nat → Nat) (index : Nat) (tx : Tx) (txs : List Tx)
    : compactVtx fees index (tx :: txs) = (do
        let t ← compactTx index tx (fees index)
        let rest ← compactVtx fees (index + 1) txs
        return t :: rest) := by
  unfold compactVtx
  rw [List.zipIdx_cons, List.mapM_cons]

theorem compactVtx_cons {fees : Nat → Nat} {index : Nat} {tx : Tx} {txs : List Tx}
    {vtx : List CompactTx} (h : compactVtx fees index (tx :: txs) = .ok vtx)
    : ∃ t rest, vtx = t :: rest ∧ compactTx index tx (fees index) = .ok t
        ∧ compactVtx fees (index + 1) txs = .ok rest := by
  rw [compactVtx_eq] at h
  obtain ⟨t, ht, h⟩ := Run.bind_ok h
  obtain ⟨rest, hrest, h⟩ := Run.bind_ok h
  cases h
  exact ⟨t, rest, rfl, ht, hrest⟩

theorem compactVtx_mem {fees : Nat → Nat} {index : Nat} {txs : List Tx} {vtx : List CompactTx}
    {t : CompactTx} (h : compactVtx fees index txs = .ok vtx) (ht : t ∈ vtx)
    : index ≤ t.index ∧ t.index < index + txs.length ∧ t.fee = fees t.index := by
  induction txs generalizing index vtx with
  | nil =>
    cases h
    cases ht
  | cons tx txs ih =>
    obtain ⟨t', rest, rfl, htx, hrest⟩ := compactVtx_cons h
    obtain ⟨hindex, hfee⟩ := compactTx_ok htx
    rw [List.length_cons]
    rcases List.mem_cons.mp ht with rfl | ht
    . rw [hindex]
      exact ⟨Nat.le_refl _, by omega, hfee⟩
    . obtain ⟨hle, hlt, hfee⟩ := ih hrest ht
      exact ⟨by omega, by omega, hfee⟩

theorem compactVtx_fees {fees : Nat → Nat} {index : Nat} {txs : List Tx} {vtx : List CompactTx}
    (h : compactVtx fees index txs = .ok vtx) (fees' : Nat → Nat)
    : compactVtx fees' index txs = .ok (vtx.map fun t => { t with fee := fees' t.index }) := by
  induction txs generalizing index vtx with
  | nil =>
    cases h
    rfl
  | cons tx txs ih =>
    obtain ⟨t, rest, rfl, htx, hrest⟩ := compactVtx_cons h
    have hindex := (compactTx_ok htx).1
    rw [compactVtx_eq, compactTx_fee htx (fees' index), ih hrest, List.map_cons, hindex]
    rfl

theorem compactVtx_congr {fees fees' : Nat → Nat} {index : Nat} {txs : List Tx} {vtx : List CompactTx}
    (h : compactVtx fees index txs = .ok vtx) (hsame : ∀ i, index ≤ i → fees' i = fees i)
    : compactVtx fees' index txs = .ok vtx := by
  have hid : vtx.map (fun t => { t with fee := fees' t.index }) = vtx := by
    conv_rhs => rw [← List.map_id vtx]
    apply List.map_congr_left
    intro t ht
    obtain ⟨hle, _, hfee⟩ := compactVtx_mem h ht
    rw [hsame t.index hle, ← hfee]
    rfl
  rw [compactVtx_fees h fees', hid]

theorem compact_ok {fees : Nat → Nat} {block : Block} {c : CompactBlock}
    (h : block.compact fees = .ok c)
    : compactVtx fees 0 block.tx = .ok c.vtx ∧ c.height = block.height
      ∧ ∀ vtx, Zebra.compactHead block vtx = .ok { c with vtx := vtx } := by
  obtain ⟨vtx, hvtx, h⟩ := Run.bind_ok h
  have hheight := Zebra.compactHead_height h
  obtain ⟨hash, hhash, h⟩ := Run.bind_ok h
  obtain ⟨prev, hprev, h⟩ := Run.bind_ok h
  obtain ⟨sapling, hsapling, h⟩ := Run.bind_ok h
  obtain ⟨orchard, horchard, h⟩ := Run.bind_ok h
  obtain ⟨ironwood, hironwood, h⟩ := Run.bind_ok h
  cases h
  refine ⟨hvtx, hheight, ?_⟩
  intro vtx'
  unfold Zebra.compactHead
  rw [hhash, hprev, hsapling, horchard, hironwood]
  rfl

def strip (t : CompactTx) : CompactTx := { t with vin := [], vout := [] }

def setFee (fees : Nat → Nat) (t : CompactTx) : CompactTx := { t with fee := fees t.index }

theorem shielded_vtx (c : CompactBlock)
    : (shielded c).vtx = (c.vtx.map strip).filter (·.isShielded) := rfl

theorem shielded_setFee {vtx : List CompactTx} {fees : Nat → Nat}
    (h : ∀ t ∈ vtx, t.isShielded = true → fees t.index = t.fee)
    : ((vtx.map (setFee fees)).map strip).filter (·.isShielded)
      = (vtx.map strip).filter (·.isShielded) := by
  induction vtx with
  | nil => rfl
  | cons t vtx ih =>
    have hrest := ih fun t' ht' => h t' (List.mem_cons_of_mem _ ht')
    have hsame : (strip (setFee fees t)).isShielded = (strip t).isShielded := rfl
    simp only [List.map_cons, List.filter_cons, hsame]
    split
    . next hshielded =>
      have hfee : setFee fees t = t := by
        unfold setFee
        rw [h t List.mem_cons_self hshielded]
      rw [hfee, hrest]
    . exact hrest

theorem shielded_compact {block : Block} {c : CompactBlock} {fees fees' : Nat → Nat}
    (h : block.compact fees = .ok c)
    (hfees : ∀ t ∈ c.vtx, t.isShielded = true → fees' t.index = t.fee)
    : ∃ c', block.compact fees' = .ok c' ∧ shielded c' = shielded c := by
  obtain ⟨hvtx, _, hhead⟩ := compact_ok h
  refine ⟨{ c with vtx := c.vtx.map (setFee fees') }, ?_, ?_⟩
  . have hvtx' : (block.tx.zipIdx.mapM fun (tx, index) => compactTx index tx (fees' index))
        = .ok (c.vtx.map (setFee fees')) := compactVtx_fees hvtx fees'
    unfold Block.compact
    rw [hvtx']
    exact hhead _
  . have hshielded := shielded_setFee hfees
    unfold shielded
    simp only [CompactBlock.mk.injEq, true_and, and_true]
    exact hshielded

theorem servedFee_eq {served : CompactBlock} {t : CompactTx} {index : Nat}
    (hmem : t ∈ served.vtx) (hindex : t.index = index)
    (hunique : ∀ t' ∈ served.vtx, t'.index = index → t'.fee = t.fee) : servedFee served index = t.fee := by
  unfold servedFee
  split
  . next t' hfind =>
    have hmem' := List.mem_of_find?_eq_some hfind
    have heq : t'.index = index := by simpa using List.find?_some hfind
    exact hunique t' hmem' heq
  . next hfind =>
    have := List.find?_eq_none.mp hfind t hmem
    simp [hindex] at this

theorem servedFee_shielded {block : Block} {c : CompactBlock} {fees : Nat → Nat} {t : CompactTx}
    (h : block.compact fees = .ok c) (hmem : t ∈ c.vtx) (hshielded : t.isShielded = true)
    : servedFee (shielded c) t.index = t.fee := by
  obtain ⟨hvtx, _, _⟩ := compact_ok h
  have hstrip : strip t ∈ (shielded c).vtx := by
    rw [shielded_vtx]
    exact List.mem_filter.mpr ⟨List.mem_map_of_mem hmem, hshielded⟩
  have hfee : servedFee (shielded c) t.index = (strip t).fee := by
    apply servedFee_eq hstrip rfl
    intro t' ht' hindex
    rw [shielded_vtx] at ht'
    obtain ⟨u, hu, rfl⟩ := List.mem_map.mp (List.mem_filter.mp ht').1
    have hu' := (compactVtx_mem hvtx hu).2.2
    have ht := (compactVtx_mem hvtx hmem).2.2
    have hindex' : u.index = t.index := hindex
    show u.fee = t.fee
    rw [hu', ht, hindex']
  exact hfee

end Loadtest
