import Mathlib.Data.List.Induction
import Mathlib.Data.Option.NAry
import Ztest.Sync.ChainWork.Lemmas.Support

namespace Sync

open Loadtest (CompactBlock)

namespace Op

theorem mem_all (op : Op) : op ∈ all := by
  cases op <;> simp [all]

theorem label_inj {op op' : Op} : op.label = op'.label ↔ op = op' := by
  constructor
  . cases op <;> cases op' <;> simp [label]
  . rintro rfl
    rfl

theorem exists_index : ∀ i : Fin 7, ∃ op : Op, op.index = i
  | 0 => ⟨transparentIn, rfl⟩
  | 1 => ⟨transparentOut, rfl⟩
  | 2 => ⟨sproutJoinSplit, rfl⟩
  | 3 => ⟨saplingSpend, rfl⟩
  | 4 => ⟨saplingOutput, rfl⟩
  | 5 => ⟨orchardAction, rfl⟩
  | 6 => ⟨ironwoodAction, rfl⟩

end Op

namespace OpSet

-- No op has the eighth bit.
def Narrow (s : OpSet) : Prop := s.bits.getLsbD 7 = false

theorem Narrow.ext {s t : OpSet} (hs : s.Narrow) (ht : t.Narrow) (h : ∀ op, s.has op = t.has op) : s = t := by
  have hbits : s.bits = t.bits := by
    apply BitVec.eq_of_getLsbD_eq
    intro i hi
    rcases Nat.lt_or_eq_of_le (Nat.le_of_lt_succ hi) with hlt | rfl
    . rcases Op.exists_index ⟨i, hlt⟩ with ⟨op, hop⟩
      have := h op
      rwa [has_eq_getLsbD, has_eq_getLsbD, hop] at this
    . rw [hs, ht]
  cases s
  cases t
  exact congrArg _ hbits

theorem narrow_none : none.Narrow := rfl

theorem Narrow.withOp {s : OpSet} (h : s.Narrow) (op : Op) : (s.withOp op).Narrow := by
  have hlt := op.index.isLt
  unfold Narrow OpSet.withOp
  rw [← BitVec.twoPow_eq, BitVec.getLsbD_or, BitVec.getLsbD_twoPow, h]
  simp
  omega

theorem Narrow.intersect {s : OpSet} (h : s.Narrow) (t : OpSet) : (s.intersect t).Narrow := by
  unfold Narrow OpSet.intersect
  rw [BitVec.getLsbD_and, h, Bool.false_and]

@[simp]
theorem has_intersect (s t : OpSet) (op : Op) : (s.intersect t).has op = (s.has op && t.has op) := by
  simp [has_eq_getLsbD, intersect]

theorem isEmpty_iff {s : OpSet} (h : s.Narrow) : s.isEmpty = true ↔ ∀ op, s.has op = false := by
  have hnone : s.isEmpty = true ↔ s = none := by
    cases s
    simp [isEmpty, none]
  rw [hnone]
  constructor
  . rintro rfl
    exact has_none
  . intro hall
    exact h.ext narrow_none fun op => by rw [hall, has_none]

end OpSet

namespace OpKeyed

variable {α : Type} {zero : α} {values values' : Vector α 7} {known known' : OpSet} {raw : List (String × α)}

def lookup (values : Vector α 7) (known : OpSet) (op : Op) : Option α :=
  if known.has op then some (slot values op) else none

/--
What the vectors have in common that the code builds: the default stands where nothing was measured.
-/
structure Canonical (zero : α) (values : Vector α 7) (known : OpSet) : Prop where
  unmeasured : ∀ op, known.has op = false → slot values op = zero
  narrow : known.Narrow

theorem slot_fill (values : Vector α 7) (op op' : Op) (v : α)
    : slot (fill values op v) op' = if op = op' then v else slot values op' := by
  have hindex : op.index.val = op'.index.val ↔ op = op' := by
    rw [← Fin.ext_iff]
    exact OpSet.index_inj
  simp [Vector.getElem_set, hindex]

theorem lookup_fill (values : Vector α 7) (known : OpSet) (op op' : Op) (v : α)
    : lookup (fill values op v) (known.withOp op) op' = if op = op' then some v else lookup values known op' := by
  simp only [lookup, OpSet.has_withOp, slot_fill]
  by_cases h : op = op'
  . simp [h]
  . simp [h]

theorem Canonical.replicate : Canonical zero (.replicate 7 zero) .none where
  unmeasured op _ := by simp
  narrow := OpSet.narrow_none

theorem Canonical.fill (h : Canonical zero values known) (op : Op) (v : α)
    : Canonical zero (fill values op v) (known.withOp op) where
  unmeasured op' hop' := by
    simp only [OpSet.has_withOp, Bool.or_eq_false_iff, decide_eq_false_iff_not] at hop'
    rw [slot_fill, if_neg hop'.2]
    exact h.unmeasured op' hop'.1
  narrow := h.narrow.withOp op

theorem Canonical.ext (h : Canonical zero values known) (h' : Canonical zero values' known')
    (hlookup : ∀ op, lookup values known op = lookup values' known' op)
    : values = values' ∧ known = known' := by
  have hknown : known = known' := by
    refine h.narrow.ext h'.narrow ?_
    intro op
    have := congrArg Option.isSome (hlookup op)
    unfold lookup at this
    split at this <;> split at this <;> simp_all
  subst hknown
  refine ⟨?_, rfl⟩
  apply Vector.ext
  intro i hi
  rcases Op.exists_index ⟨i, hi⟩ with ⟨op, hop⟩
  have hget : slot values op = slot values' op := by
    cases hhas : known.has op with
    | false => rw [h.unmeasured op hhas, h'.unmeasured op hhas]
    | true => simpa [lookup, hhas] using hlookup op
  simpa [hop] using hget

theorem slot_foldl_fill (c : Op → Bool) (g : Op → α) (ops : List Op) (values : Vector α 7) (op : Op)
    : slot (ops.foldl (fun values op => if c op then fill values op (g op) else values) values) op
        =
      if op ∈ ops ∧ c op then g op else slot values op := by
  induction ops generalizing values with
  | nil => simp
  | cons first ops ih =>
    rw [List.foldl_cons, ih]
    by_cases hmem : op ∈ ops ∧ c op
    . rw [if_pos hmem, if_pos ⟨List.mem_cons_of_mem _ hmem.1, hmem.2⟩]
    . rw [if_neg hmem]
      by_cases hfirst : first = op
      . subst hfirst
        cases hc : c first <;> simp
      . have hcons : (op ∈ first :: ops ∧ c op) ↔ (op ∈ ops ∧ c op) := by
          simp [Ne.symm hfirst]
        rw [if_neg (hcons.not.mpr hmem)]
        split
        . rw [slot_fill, if_neg hfirst]
        . rfl

theorem lookup_foldl_readOp (ops : List Op) (read : Vector α 7 × OpSet) (op : Op)
    : lookup (ops.foldl (readOp raw) read).1 (ops.foldl (readOp raw) read).2 op
        =
      if op ∈ ops then (collect raw op.label).or (lookup read.1 read.2 op) else lookup read.1 read.2 op := by
  induction ops generalizing read with
  | nil => simp
  | cons first ops ih =>
    have hfirst : lookup (readOp raw read first).1 (readOp raw read first).2 op
        = if first = op then (collect raw op.label).or (lookup read.1 read.2 op) else lookup read.1 read.2 op := by
      unfold readOp
      split
      . next v hv =>
        rw [lookup_fill]
        split
        . next heq => rw [← heq, hv, Option.some_or]
        . rfl
      . next hnone =>
        split
        . next heq => rw [← heq, hnone, Option.none_or]
        . rfl
    rw [List.foldl_cons, ih, hfirst]
    by_cases heq : first = op
    . subst heq
      cases collect raw first.label <;> simp
    . simp [heq, Ne.symm heq]

theorem canonical_foldl_readOp (ops : List Op) (read : Vector α 7 × OpSet) (h : Canonical zero read.1 read.2)
    : Canonical zero (ops.foldl (readOp raw) read).1 (ops.foldl (readOp raw) read).2 := by
  induction ops generalizing read with
  | nil => exact h
  | cons first ops ih =>
    apply ih
    unfold readOp
    split
    . exact h.fill first _
    . exact h

theorem canonical_deserialize (zero : α) (raw : List (String × α))
    : Canonical zero (deserialize zero raw).1 (deserialize zero raw).2 :=
  canonical_foldl_readOp _ _ .replicate

theorem lookup_deserialize (zero : α) (raw : List (String × α)) (op : Op)
    : lookup (deserialize zero raw).1 (deserialize zero raw).2 op = collect raw op.label := by
  unfold deserialize
  rw [lookup_foldl_readOp, if_pos (Op.mem_all op)]
  simp [lookup]

theorem mem_serialize {entry : String × α}
    : entry ∈ serialize values known ↔ ∃ op : Op, entry.1 = op.label ∧ lookup values known op = some entry.2 := by
  unfold serialize lookup
  rw [List.mem_filterMap]
  constructor
  . rintro ⟨op, _, h⟩
    refine ⟨op, ?_⟩
    split at h
    . next hhas =>
      obtain rfl := Option.some.inj h
      simp [hhas]
    . cases h
  . rintro ⟨op, hlabel, h⟩
    refine ⟨op, op.mem_all, ?_⟩
    split at h
    . next hhas => simpa [hhas, Prod.ext_iff, hlabel] using h
    . cases h

theorem collect_of_perm {extra : List (String × α)} (hextra : ∀ entry ∈ extra, ∀ op : Op, entry.1 ≠ op.label)
    (hperm : raw.Perm (serialize values known ++ extra)) (op : Op)
    : collect raw op.label = lookup values known op := by
  have hmem : ∀ v, (op.label, v) ∈ raw ↔ lookup values known op = some v := by
    intro v
    rw [hperm.mem_iff, List.mem_append, mem_serialize]
    constructor
    . rintro (⟨op', hlabel, h⟩ | h)
      . rwa [Op.label_inj.mp hlabel]
      . exact absurd rfl (hextra _ h op)
    . intro h
      exact .inl ⟨op, rfl, h⟩
  cases hc : collect raw op.label with
  | some v => exact ((hmem v).mp (mem_of_collect hc)).symm
  | none =>
    rw [collect_eq_none_iff] at hc
    cases hl : lookup values known op with
    | none => rfl
    | some v => exact absurd (List.mem_map_of_mem ((hmem v).mpr hl)) hc

theorem deserialize_serialize (h : Canonical zero values known) {extra : List (String × α)}
    (hextra : ∀ entry ∈ extra, ∀ op : Op, entry.1 ≠ op.label)
    (hperm : raw.Perm (serialize values known ++ extra))
    : deserialize zero raw = (values, known) := by
  obtain ⟨hvalues, hknown⟩ := (canonical_deserialize zero raw).ext h fun op => by
    rw [lookup_deserialize, collect_of_perm hextra hperm]
  rw [← hvalues, ← hknown]

end OpKeyed

section Sum

variable {α β : Type}

theorem merge_assoc (x y z : Option Nat)
    : Option.merge (· + ·) (Option.merge (· + ·) x y) z = Option.merge (· + ·) x (Option.merge (· + ·) y z) :=
  (Option.associative_merge _).assoc x y z

theorem sum_cons (v : Option Nat) (vals : List (Option Nat)) : sum (v :: vals) = Option.merge (· + ·) v (sum vals) := by
  have hacc : ∀ (l : List Nat) (acc : Option Nat), l.foldl (fun acc n => some (acc.getD 0 + n)) acc
      = Option.merge (· + ·) acc (l.foldl (fun acc n => some (acc.getD 0 + n)) none) := by
    intro l
    induction l with
    | nil => simp
    | cons n l ih =>
      intro acc
      rw [List.foldl_cons, List.foldl_cons, ih, ih (some (Option.getD none 0 + n)), ← merge_assoc]
      cases acc <;> simp
  unfold sum
  cases v with
  | none => simp
  | some n => simp [hacc _ (some n)]

theorem sum_append (xs ys : List (Option Nat)) : sum (xs ++ ys) = Option.merge (· + ·) (sum xs) (sum ys) := by
  induction xs with
  | nil => simp [sum]
  | cons x xs ih => rw [List.cons_append, sum_cons, sum_cons, ih, merge_assoc]

theorem sum_flatMap (f : α → List (Option Nat)) (xs : List α)
    : sum (xs.flatMap f) = sum (xs.map fun x => sum (f x)) := by
  induction xs with
  | nil => rfl
  | cons x xs ih => rw [List.flatMap_cons, List.map_cons, sum_append, sum_cons, ih]

theorem sum_map_merge (f g : α → Option Nat) (xs : List α)
    : sum (xs.map fun x => Option.merge (· + ·) (f x) (g x))
        =
      Option.merge (· + ·) (sum (xs.map f)) (sum (xs.map g)) := by
  induction xs with
  | nil => rfl
  | cons x xs ih =>
    simp only [List.map_cons, sum_cons, ih]
    ac_rfl

theorem sum_map_none (xs : List α) : sum (xs.map fun _ => none) = none := by
  induction xs with
  | nil => rfl
  | cons x xs ih => rw [List.map_cons, sum_cons, ih, Option.merge_none_left]

theorem sum_comm (f : α → β → Option Nat) (xs : List α) (ys : List β)
    : sum (xs.map fun x => sum (ys.map (f x))) = sum (ys.map fun y => sum (xs.map (f · y))) := by
  induction xs with
  | nil => exact (sum_map_none ys).symm
  | cons x xs ih => simp only [List.map_cons, sum_cons, ih, sum_map_merge]

theorem sum_eq (vals : List (Option Nat))
    : sum vals = if vals.filterMap id = [] then none else some (vals.filterMap id).sum := by
  induction vals with
  | nil => rfl
  | cons v vals ih =>
    rw [sum_cons, ih]
    cases v with
    | none => simp
    | some n =>
      rw [List.filterMap_cons_some (show id (some n) = some n from rfl), if_neg (List.cons_ne_nil _ _), List.sum_cons]
      by_cases hnil : vals.filterMap id = []
      . rw [if_pos hnil, hnil]
        rfl
      . rw [if_neg hnil]
        rfl

end Sum

namespace Work

open OpKeyed (slot)

-- The works that the code can build, those it was sent among them.
inductive Built : Work → Prop where
  | zero : Built zero
  | set {w : Work} : Built w → ∀ op count, Built (w.set op count)
  | delta {later earlier : Work} : Built later → Built earlier → Built (later.delta earlier)
  | deserialize (raw : List (String × Nat)) : Built (deserialize raw)

abbrev Canonical (w : Work) : Prop := OpKeyed.Canonical 0 w.counts w.known

theorem get_eq_lookup (w : Work) (op : Op) : w.get op = OpKeyed.lookup w.counts w.known op := rfl

theorem slot_delta (later earlier : Work) (op : Op)
    : slot (later.delta earlier).counts op
        =
      if later.known.has op ∧ earlier.known.has op then slot later.counts op - slot earlier.counts op else 0 := by
  have h := OpKeyed.slot_foldl_fill (later.known.intersect earlier.known).has
    (fun op => slot later.counts op - slot earlier.counts op) Op.all (.replicate 7 0) op
  refine h.trans ?_
  simp [Op.mem_all]

theorem get_delta (later earlier : Work) (op : Op)
    : (later.delta earlier).get op = Option.map₂ (· - ·) (later.get op) (earlier.get op) := by
  have hknown : (later.delta earlier).known.has op = (later.known.has op && earlier.known.has op) :=
    OpSet.has_intersect _ _ op
  simp only [get_eq_lookup, OpKeyed.lookup, hknown, slot_delta]
  cases later.known.has op <;> cases earlier.known.has op <;> simp

theorem Canonical.delta {later : Work} (h : later.Canonical) (earlier : Work) : (later.delta earlier).Canonical where
  unmeasured op hop := by
    have hop : (later.known.has op && earlier.known.has op) = false := (OpSet.has_intersect _ _ op).symm.trans hop
    rw [slot_delta, if_neg]
    simpa using hop
  narrow := h.narrow.intersect _

theorem isSome_get (w : Work) (op : Op) : (w.get op).isSome = w.known.has op := by
  unfold get
  cases w.known.has op <;> rfl

theorem Canonical.eq_of_get {w w' : Work} (h : w.Canonical) (h' : w'.Canonical) (hget : ∀ op, w.get op = w'.get op)
    : w = w' := by
  obtain ⟨hcounts, hknown⟩ := h.ext h' hget
  cases w
  cases w'
  simp_all

theorem Built.canonical {w : Work} (h : w.Built) : w.Canonical := by
  induction h with
  | zero => exact .replicate
  | set _ op count ih => exact ih.fill op count
  | delta _ _ ih _ => exact ih.delta _
  | deserialize raw => exact OpKeyed.canonical_deserialize 0 raw

theorem le_ofNanos (elapsed : Nat) : (Binary64.ofNanos elapsed).le (.finite 0) = decide (elapsed = 0) := by
  rcases Nat.eq_zero_or_pos elapsed with rfl | hpos
  . have hzero : Binary64.ofRat (0 : Nat) = .finite (0 : Nat) := Binary64.ofRat_natCast (by norm_num)
    simp only [Nat.cast_zero] at hzero
    simp [Binary64.ofNanos, Binary64.div, Binary64.add, Binary64.le, hzero]
  . have hlt := Binary64.zero_lt_ofNanos hpos
    rw [decide_eq_false hpos.ne']
    cases hsecs : Binary64.ofNanos elapsed with
    | nan => rfl
    | inf negative =>
      rw [hsecs] at hlt
      simpa [Binary64.lt, Binary64.le] using hlt
    | finite q =>
      rw [hsecs] at hlt
      simpa [Binary64.lt, Binary64.le] using hlt

theorem rate_of_ne (w : Work) {elapsed : Nat} (helapsed : elapsed ≠ 0)
    : w.rate elapsed = ⟨Op.all.foldl (w.rateOp (.ofNanos elapsed)) (.replicate 7 (.finite 0)), w.known⟩ := by
  unfold rate
  dsimp only
  rw [le_ofNanos, if_neg (by simpa using helapsed)]

theorem rate_zero (w : Work) : w.rate 0 = .default := by
  unfold rate
  dsimp only
  rw [le_ofNanos, if_pos (by simp)]

theorem slot_rate (w : Work) {elapsed : Nat} (helapsed : elapsed ≠ 0) (op : Op)
    : slot (w.rate elapsed).perSec op
        =
      if w.known.has op then (Binary64.ofRat (slot w.counts op : Nat)).divide (.ofNanos elapsed) else .finite 0 := by
  have hfill := OpKeyed.slot_foldl_fill w.known.has
    (fun op => (Binary64.ofRat (slot w.counts op : Nat)).divide (.ofNanos elapsed)) Op.all (.replicate 7 (.finite 0))
    op
  rw [rate_of_ne w helapsed]
  refine hfill.trans ?_
  simp [Op.mem_all]

theorem known_rate (w : Work) {elapsed : Nat} (helapsed : elapsed ≠ 0) : (w.rate elapsed).known = w.known := by
  rw [rate_of_ne w helapsed]

theorem canonical_rate {w : Work} (h : w.Canonical) (elapsed : Nat)
    : OpKeyed.Canonical (.finite 0) (w.rate elapsed).perSec (w.rate elapsed).known := by
  by_cases helapsed : elapsed = 0
  . rw [helapsed, rate_zero]
    exact .replicate
  . rw [known_rate w helapsed]
    refine ⟨?_, h.narrow⟩
    intro op hop
    rw [slot_rate w helapsed, hop]
    rfl

/--
No time has no rates, and an op that was not measured has none either.
-/
theorem get_rate (w : Work) (elapsed : Nat) (op : Op)
    : (w.rate elapsed).get op
        =
      if elapsed = 0 then none else (w.get op).map fun n => (Binary64.ofRat n).divide (.ofNanos elapsed) := by
  by_cases h : elapsed = 0
  . rw [h, rate_zero, if_pos rfl]
    simp [Rate.get, Rate.default]
  . have hget : (w.rate elapsed).get op = OpKeyed.lookup (w.rate elapsed).perSec (w.rate elapsed).known op := rfl
    rw [if_neg h, hget, get_eq_lookup]
    unfold OpKeyed.lookup
    rw [known_rate w h, slot_rate w h]
    cases w.known.has op <;> rfl

/--
A work is read back from the entries of its map in any order, with those of ops that are not known here among them, and
so is its rate.
-/
theorem roundTrip {w : Work} (h : w.Built)
    : (∀ unknown : List (String × Nat), (∀ entry ∈ unknown, ∀ op : Op, entry.1 ≠ op.label) →
        ∀ raw, raw.Perm (w.serialize ++ unknown) → deserialize raw = w) ∧
        ∀ elapsed, ∀ unknown : List (String × Binary64), (∀ entry ∈ unknown, ∀ op : Op, entry.1 ≠ op.label) →
          ∀ raw, raw.Perm ((w.rate elapsed).serialize ++ unknown) → Rate.deserialize raw = w.rate elapsed := by
  constructor
  . intro unknown hunknown raw hperm
    unfold deserialize
    rw [OpKeyed.deserialize_serialize h.canonical hunknown hperm]
  . intro elapsed unknown hunknown raw hperm
    unfold Rate.deserialize
    rw [OpKeyed.deserialize_serialize (canonical_rate h.canonical elapsed) hunknown hperm]

theorem roundTrip_newer
    : deserialize [("quantum-widget", 99), ("orchard-action", 0), ("sapling-output", 10)]
        =
      (zero.set .saplingOutput 10).set .orchardAction 0 :=
  (roundTrip ((Built.zero.set .saplingOutput 10).set .orchardAction 0)).1 [("quantum-widget", 99)]
    (by
      intro entry hentry op
      obtain rfl := List.mem_singleton.mp hentry
      cases op <;> decide)
    _ (by decide)

theorem total_eq {w : Work} (h : w.Canonical) : w.total = sum (Op.all.map w.get) := by
  have hnone : w.known.isEmpty = true ↔ (Op.all.map w.get).filterMap id = [] := by
    rw [OpSet.isEmpty_iff h.narrow, List.filterMap_eq_nil_iff]
    simp [get, Op.mem_all]
  rw [sum_eq, total]
  by_cases hempty : w.known.isEmpty = true
  . rw [if_pos hempty, if_pos (hnone.mp hempty)]
  . rw [if_neg hempty, if_neg (hnone.not.mp hempty), List.filterMap_map]
    rfl

/--
No work is in two channels, and none is in no channel.
-/
theorem total_channels {w : Work} (h : w.Canonical) : w.total = sum (w.channels.map Prod.snd) := by
  rw [total_eq h, channels, List.map_map]
  exact sum_flatMap (fun c : Channel => c.ops.map w.get) Channel.all

end Work

end Sync
