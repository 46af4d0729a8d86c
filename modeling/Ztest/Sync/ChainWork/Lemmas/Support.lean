import Mathlib.Data.List.Induction
import Ztest.Sync.ChainWork.Impl

namespace Sync

open Loadtest (ChainMetadata CompactBlock)

namespace OpSet

theorem has_eq_getLsbD (s : OpSet) (op : Op) : s.has op = s.bits.getLsbD op.index := by
  have hlt := op.index.isLt
  have hone : BitVec.twoPow 8 op.index ≠ 0#8 := by
    cases op <;> decide
  unfold has
  rw [← BitVec.twoPow_eq, BitVec.and_twoPow]
  cases s.bits.getLsbD op.index with
  | false => simp
  | true => simpa using hone

@[simp]
theorem has_none (op : Op) : none.has op = false := by
  cases op <;> rfl

theorem index_inj {op op' : Op} : op.index = op'.index ↔ op = op' := by
  cases op <;> cases op' <;> decide

@[simp]
theorem has_withOp (s : OpSet) (op op' : Op)
    : (s.withOp op).has op' = (s.has op' || decide (op = op')) := by
  have hlt := op.index.isLt
  rw [has_eq_getLsbD, has_eq_getLsbD, withOp, ← BitVec.twoPow_eq, BitVec.getLsbD_or,
    BitVec.getLsbD_twoPow]
  have : (op.index.val = op'.index.val) ↔ op = op' := by
    rw [← Fin.ext_iff]
    exact index_inj
  simp only [this]
  congr 1
  simp
  omega

end OpSet

namespace Work

@[simp]
theorem get_zero (op : Op) : zero.get op = none := by
  simp [get, zero]

@[simp]
theorem get_set_self (w : Work) (op : Op) (count : Nat) : (w.set op count).get op = some count := by
  simp [get, set]

theorem get_set_of_ne (w : Work) {op op' : Op} (count : Nat) (h : op ≠ op')
    : (w.set op count).get op' = w.get op' := by
  have hidx : op.index.val ≠ op'.index.val := by
    intro heq
    exact h (OpSet.index_inj.mp (Fin.ext heq))
  simp [get, set, h, Vector.getElem_set_ne, hidx]

end Work

namespace Reading

-- The items of the pool are there, the tree they are committed to is empty.
def Contradicts (r : Reading) : Prop := 0 < r.items ∧ r.treeSize = 0

instance (r : Reading) : Decidable r.Contradicts := inferInstanceAs (Decidable (_ ∧ _))

def evidence (r : Reading) : Option Support :=
  if 0 < r.treeSize then some .populated else if 0 < r.items then some .unpopulated else none

theorem evidence_eq_populated {r : Reading} : r.evidence = some .populated ↔ 0 < r.treeSize := by
  unfold evidence
  split <;> simp_all

theorem evidence_eq_unpopulated {r : Reading} : r.evidence = some .unpopulated ↔ r.Contradicts := by
  unfold evidence Contradicts
  split
  . simp
    omega
  . split <;> simp_all

theorem evidence_ne_unproven (r : Reading) : r.evidence ≠ some .unproven := by
  unfold evidence
  split
  . simp
  . split <;> simp

theorem evidence_eq_none_of {r : Reading} (hc : ¬r.Contradicts) (hz : r.treeSize = 0)
    : r.evidence = none := by
  unfold evidence Contradicts at *
  simp [hz]
  omega

end Reading

namespace Support

theorem update_of_decided {s : Support} (h : s ≠ .unproven) (r : Reading) : s.update r = s := by
  rcases r with ⟨_ | _, _ | _⟩ <;> cases s <;> simp_all [update]

theorem update_unproven (r : Reading) : unproven.update r = r.evidence.getD .unproven := by
  rcases r with ⟨_ | _, _ | _⟩ <;> simp [update, Reading.evidence]

theorem foldl_update_of_decided {s : Support} (h : s ≠ .unproven) (rs : List Reading)
    : rs.foldl update s = s := by
  induction rs with
  | nil => rfl
  | cons r rs ih => rw [List.foldl_cons, update_of_decided h, ih]

theorem foldl_update (rs : List Reading)
    : rs.foldl update .unproven = (rs.findSome? Reading.evidence).getD .unproven := by
  induction rs with
  | nil => rfl
  | cons r rs ih =>
    rw [List.foldl_cons, List.findSome?_cons, update_unproven]
    cases h : r.evidence with
    | none => exact ih
    | some s =>
      apply foldl_update_of_decided
      rintro rfl
      exact r.evidence_ne_unproven h

end Support

namespace Reading

-- No positive tree size stands before the first contradiction.
def ZeroUntilContradiction (rs : List Reading) : Prop :=
  ∀ pre r post, rs = pre ++ r :: post → r.Contradicts → (∀ q ∈ pre, ¬q.Contradicts) → ∀ q ∈ pre, q.treeSize = 0

theorem exists_first_contradiction {rs : List Reading} (h : ∃ r ∈ rs, r.Contradicts)
    : ∃ pre r post, rs = pre ++ r :: post ∧ r.Contradicts ∧ ∀ q ∈ pre, ¬q.Contradicts := by
  have hsome : (rs.find? (·.Contradicts)).isSome := by
    simpa using h
  rcases Option.isSome_iff_exists.mp hsome with ⟨r, hr⟩
  rcases List.find?_eq_some_iff_append.mp hr with ⟨hc, pre, post, heq, hpre⟩
  exact ⟨pre, r, post, heq, by simpa using hc, by simpa using hpre⟩

theorem contradicts_of_unpopulated {rs : List Reading} (h : rs.foldl Support.update .unproven = .unpopulated)
    : ∃ r ∈ rs, r.Contradicts := by
  rw [Support.foldl_update] at h
  cases hs : rs.findSome? evidence with
  | none =>
    rw [hs] at h
    cases h
  | some s =>
    rw [hs] at h
    rcases List.findSome?_eq_some_iff.mp hs with ⟨pre, r, post, rfl, hr, _⟩
    refine ⟨r, by simp, evidence_eq_unpopulated.mp ?_⟩
    rw [hr]
    exact congrArg some h

theorem unpopulated_of_zeroUntil {rs : List Reading} (hzero : ZeroUntilContradiction rs)
    (h : ∃ r ∈ rs, r.Contradicts)
    : rs.foldl Support.update .unproven = .unpopulated := by
  rcases exists_first_contradiction h with ⟨pre, r, post, heq, hr, hpre⟩
  have hfirst : rs.findSome? evidence = some .unpopulated := by
    rw [List.findSome?_eq_some_iff]
    refine ⟨pre, r, post, heq, evidence_eq_unpopulated.mpr hr, ?_⟩
    intro q hq
    exact evidence_eq_none_of (hpre q hq) (hzero pre r post heq hr hpre q hq)
  rw [Support.foldl_update, hfirst]
  rfl

theorem populated_of_positive {pre : List Reading} (hpre : ∀ q ∈ pre, ¬q.Contradicts)
    {q : Reading} (hq : q ∈ pre) (hpos : 0 < q.treeSize)
    : pre.foldl Support.update .unproven = .populated := by
  have hsome : (pre.findSome? evidence).isSome := by
    rw [List.findSome?_isSome_iff]
    exact ⟨q, hq, by rw [evidence_eq_populated.mpr hpos]; rfl⟩
  rcases Option.isSome_iff_exists.mp hsome with ⟨s, hs⟩
  rw [Support.foldl_update, hs]
  rcases List.findSome?_eq_some_iff.mp hs with ⟨l, r, l', rfl, hr, _⟩
  cases s with
  | unproven => exact absurd hr r.evidence_ne_unproven
  | populated => rfl
  | unpopulated => exact absurd (evidence_eq_unpopulated.mp hr) (hpre r (by simp))

theorem ZeroUntilContradiction.left {rs : List Reading} {post : List Reading}
    (h : ZeroUntilContradiction (rs ++ post))
    : ZeroUntilContradiction rs := by
  rintro pre r post' rfl
  exact h pre r (post' ++ post) (by simp)

end Reading

namespace ChainWork

-- The pools that `chainMetadata` has a tree size for.
inductive Pool where
  | sapling
  | orchard
  | ironwood
  deriving DecidableEq

namespace Pool

def op : Pool → Op
  | sapling => .saplingOutput
  | orchard => .orchardAction
  | ironwood => .ironwoodAction

def reading (p : Pool) (block : CompactBlock) : Reading :=
  match p with
  | sapling => (readings block).1
  | orchard => (readings block).2.1
  | ironwood => (readings block).2.2

end Pool

theorem observePool_support (s : Support) (r : Reading) (op : Op) (w : Work)
    : (observePool s r op w).1 = s.update r := by
  unfold observePool
  split
  . next h => exact h.symm
  . rfl

theorem observePool_get_self {s : Support} {r : Reading} {op : Op} {w : Work} (h : w.get op = none)
    : (observePool s r op w).2.get op
        =
      if s.update r = .unpopulated then none else some r.treeSize := by
  unfold observePool
  split
  . next hs => rw [if_pos hs, h]
  . next hs => rw [if_neg (by simpa using hs), Work.get_set_self]

theorem observePool_get_of_ne {s : Support} {r : Reading} {op op' : Op} {w : Work} (h : op ≠ op')
    : (observePool s r op w).2.get op' = w.get op' := by
  unfold observePool
  split
  . rfl
  . exact w.get_set_of_ne _ h

theorem observe_support (cw : ChainWork) (block : CompactBlock) (p : Pool)
    : (cw.observe block).1.support p.op = (cw.support p.op).update (p.reading block) := by
  cases p <;> exact observePool_support _ _ _ _

theorem observe_work (cw : ChainWork) (block : CompactBlock)
    : (cw.observe block).2
        =
      (observePool cw.ironwood (readings block).2.2 .ironwoodAction
        (observePool cw.orchard (readings block).2.1 .orchardAction
          (observePool cw.sapling (readings block).1 .saplingOutput .zero).2).2).2 := rfl

theorem observe_get (cw : ChainWork) (block : CompactBlock) (p : Pool)
    : (cw.observe block).2.get p.op
        =
      if (cw.observe block).1.support p.op = .unpopulated then none else some (p.reading block).treeSize := by
  rw [observe_support, observe_work]
  cases p with
  | sapling =>
    dsimp only [Pool.op]
    rw [observePool_get_of_ne (by decide), observePool_get_of_ne (by decide),
      observePool_get_self (by simp)]
    rfl
  | orchard =>
    dsimp only [Pool.op]
    rw [observePool_get_of_ne (by decide), observePool_get_self]
    . rfl
    . rw [observePool_get_of_ne (by decide), Work.get_zero]
  | ironwood =>
    dsimp only [Pool.op]
    rw [observePool_get_self]
    . rfl
    . rw [observePool_get_of_ne (by decide), observePool_get_of_ne (by decide), Work.get_zero]

theorem observe_get_other (cw : ChainWork) (block : CompactBlock) {op : Op} (h : ∀ p : Pool, p.op ≠ op)
    : (cw.observe block).2.get op = none := by
  have hs : Op.saplingOutput ≠ op := h .sapling
  have ho : Op.orchardAction ≠ op := h .orchard
  have hi : Op.ironwoodAction ≠ op := h .ironwood
  rw [observe_work, observePool_get_of_ne hi, observePool_get_of_ne ho, observePool_get_of_ne hs,
    Work.get_zero]

theorem after_support (blocks : List CompactBlock) (p : Pool)
    : (after blocks).support p.op = (blocks.map p.reading).foldl Support.update .unproven := by
  induction blocks using List.reverseRecOn with
  | nil => cases p <;> rfl
  | append_singleton blocks block ih =>
    rw [List.map_append, List.foldl_append, ← ih, after, List.foldl_append]
    exact observe_support _ _ _

theorem after_concat (blocks : List CompactBlock) (block : CompactBlock)
    : after (blocks ++ [block]) = ((after blocks).observe block).1 := by
  simp [after, List.foldl_append]

variable (blocks : List CompactBlock) (p : Pool)

/--
What the work reported for `blocks` must say about a pool: nothing from its first contradiction on,
the tree size of every block where it has none.
-/
structure NeverFalseZero : Prop where
  silenced : ∀ pre b post, blocks = pre ++ b :: post → (∃ c ∈ pre ++ [b], (p.reading c).Contradicts) →
    ((after pre).observe b).2.get p.op = none
  measured : (∀ b ∈ blocks, ¬(p.reading b).Contradicts) → ∀ pre b post, blocks = pre ++ b :: post →
    ((after pre).observe b).2.get p.op = some (p.reading b).treeSize
  supported : ∀ pre, pre <+: blocks →
    ((after pre).support p.op = .unpopulated ↔ ∃ b ∈ pre, (p.reading b).Contradicts)

variable {blocks p}

theorem zeroUntil_of_silenced (h : NeverFalseZero blocks p)
    : Reading.ZeroUntilContradiction (blocks.map p.reading) := by
  intro pre r post heq hr hpre q hq
  rcases List.map_eq_append_iff.mp heq with ⟨before, rest, rfl, rfl, hrest⟩
  rcases List.map_eq_cons_iff.mp hrest with ⟨b, after', rfl, rfl, rfl⟩
  apply Nat.eq_zero_of_not_pos
  intro hpos
  -- The pool is proven by then, so the contradiction changes nothing.
  have hpop : (after before).support p.op = .populated := by
    rw [after_support]
    exact Reading.populated_of_positive hpre hq hpos
  have hnone := h.silenced before b after' rfl ⟨b, by simp, hr⟩
  rw [observe_get, observe_support, hpop, Support.update_of_decided (by decide), if_neg (by decide)]
    at hnone
  cases hnone

theorem support_iff (hzero : Reading.ZeroUntilContradiction (blocks.map p.reading))
    : (after blocks).support p.op = .unpopulated ↔ ∃ b ∈ blocks, (p.reading b).Contradicts := by
  rw [after_support]
  constructor
  . intro h
    simpa using Reading.contradicts_of_unpopulated h
  . intro h
    exact Reading.unpopulated_of_zeroUntil hzero (by simpa using h)

theorem neverFalseZero_iff (blocks : List CompactBlock) (p : Pool)
    : NeverFalseZero blocks p ↔ Reading.ZeroUntilContradiction (blocks.map p.reading) := by
  refine ⟨zeroUntil_of_silenced, ?_⟩
  intro hzero
  have hsupport : ∀ pre, pre <+: blocks →
      ((after pre).support p.op = .unpopulated ↔ ∃ b ∈ pre, (p.reading b).Contradicts) := by
    rintro pre ⟨post, rfl⟩
    rw [List.map_append] at hzero
    exact support_iff hzero.left
  refine ⟨?_, ?_, hsupport⟩
  . rintro pre b post rfl hc
    rw [observe_get, ← after_concat, if_pos ((hsupport (pre ++ [b]) ⟨post, by simp⟩).mpr hc)]
  . rintro hnone pre b post rfl
    rw [observe_get, ← after_concat, if_neg]
    rw [hsupport (pre ++ [b]) ⟨post, by simp⟩]
    rintro ⟨c, hc, hcontra⟩
    refine hnone c ?_ hcontra
    simp only [List.mem_append, List.mem_cons, List.not_mem_nil, or_false] at hc ⊢
    tauto

def saplingBlock (treeSize outputs : Nat) : CompactBlock where
  height := 1
  hash := []
  prevHash := []
  time := 0
  header := []
  vtx := [⟨0, [], 0, [], .replicate outputs ⟨[], [], []⟩, [], [], [], []⟩]
  chainMetadata := some ⟨treeSize, 0, 0⟩

theorem populated_reports_false_zero : ¬NeverFalseZero [saplingBlock 5 0, saplingBlock 0 1] .sapling := by
  intro h
  have := h.silenced [saplingBlock 5 0] (saplingBlock 0 1) [] rfl ⟨saplingBlock 0 1, by simp, by decide⟩
  revert this
  decide

end ChainWork
end Sync
