import Ztest.Sync.ChainWork.Lemmas.Works

namespace Sync

open Loadtest (CompactBlock)

section Ticks

variable {op : Op} {base prev later w : Work} {ws : List Work}

-- The op is measured by both works or by none, and its count does not fall.
def Rising (op : Op) (earlier later : Work) : Prop :=
  (earlier.get op).isSome = (later.get op).isSome ∧ (earlier.get op).getD 0 ≤ (later.get op).getD 0

theorem Rising.trans (h : Rising op base prev) (h' : Rising op prev later) : Rising op base later :=
  ⟨h.1.trans h'.1, h.2.trans h'.2⟩

def stepsFrom (prev : Work) : List Work → List Work
  | [] => []
  | w :: rest => w.delta prev :: stepsFrom w rest

theorem merge_delta (h : Rising op base prev) (h' : Rising op prev later)
    : Option.merge (· + ·) ((prev.delta base).get op) ((later.delta prev).get op) = (later.delta base).get op := by
  obtain ⟨hsome, hle⟩ := h
  obtain ⟨hsome', hle'⟩ := h'
  rw [Work.get_delta, Work.get_delta, Work.get_delta]
  cases hb : base.get op <;> cases hp : prev.get op <;> cases hl : later.get op <;> simp_all
  omega

theorem sum_stepsFrom (h : (base :: prev :: ws).IsChain (Rising op))
    : sum ((prev.delta base :: stepsFrom prev ws).map (·.get op)) = ((ws.getLastD prev).delta base).get op := by
  induction ws generalizing prev with
  | nil =>
    rw [stepsFrom, List.map_singleton, sum_cons]
    exact Option.merge_none_right
  | cons w ws ih =>
    obtain ⟨hbase, hprev, hrest⟩ : Rising op base prev ∧ Rising op prev w ∧ (w :: ws).IsChain (Rising op) := by
      simpa using h
    have hskip : (base :: w :: ws).IsChain (Rising op) := List.isChain_cons_cons.mpr ⟨hbase.trans hprev, hrest⟩
    rw [List.getLastD_cons, ← ih hskip, stepsFrom]
    simp only [List.map_cons, sum_cons]
    rw [← merge_delta hbase hprev, merge_assoc]

theorem le_stepsFrom (hprev : (prev.get op).isSome) (h : ∀ w ∈ ws, (w.get op).isSome)
    : ((ws.getLastD prev).get op).getD 0
        ≤
      (prev.get op).getD 0 + (sum ((stepsFrom prev ws).map (·.get op))).getD 0 := by
  induction ws generalizing prev with
  | nil => exact Nat.le_add_right _ _
  | cons w ws ih =>
    obtain ⟨hw, hrest⟩ := List.forall_mem_cons.mp h
    have hle := ih hw hrest
    obtain ⟨n, hn⟩ := Option.isSome_iff_exists.mp hprev
    obtain ⟨m, hm⟩ := Option.isSome_iff_exists.mp hw
    have hdelta : (w.delta prev).get op = some (m - n) := by rw [Work.get_delta, hm, hn, Option.map₂_some_some]
    rw [List.getLastD_cons, stepsFrom, List.map_cons, sum_cons, hdelta, hn]
    rw [hm] at hle
    cases hsum : sum ((stepsFrom w ws).map (·.get op)) with
    | none =>
      rw [hsum] at hle
      simp only [Option.getD_some, Option.getD_none, Option.merge_none_right] at hle ⊢
      omega
    | some k =>
      rw [hsum] at hle
      simp only [Option.getD_some, Option.merge_some_some] at hle ⊢
      omega

end Ticks

namespace Traversal

def worksFrom (chainWork : ChainWork) (last : Work) : List Sample → List Work
  | [] => []
  | s :: rest => (readWork chainWork last s.read).2 ::
      worksFrom (readWork chainWork last s.read).1 (readWork chainWork last s.read).2 rest

def works (samples : List Sample) : List Work := worksFrom .new .zero samples

/--
What holds from the first tick of a phase on.
-/
structure Going (t : Traversal) (origin : Mark) (current : Sample) : Prop where
  seq : t.seq ≠ 0
  prevWork : t.prevWork = t.lastWork
  origin : t.origin = some origin
  head : t.head = some ⟨current.height, t.lastWork, current.atInstant, current.wall⟩

theorem going_new (s : Sample)
    : Going (new.tick s).1 ⟨s.height, (new.tick s).1.lastWork, s.atInstant, s.wall⟩ s where
  seq := Nat.succ_ne_zero _
  prevWork := rfl
  origin := rfl
  head := rfl

section Run

variable {t : Traversal} {origin : Mark} {current first : Sample} {rest samples : List Sample} {network : Option String}
variable {seg : Segment}

theorem Going.tick (h : Going t origin current) (s : Sample)
    : Going (t.tick s).1 origin s ∧ (t.tick s).2 = (t.tick s).1.lastWork.delta t.lastWork := by
  constructor
  . exact ⟨Nat.succ_ne_zero _, rfl, by simp [Traversal.tick, h.origin], rfl⟩
  . simp only [Traversal.tick, if_neg h.seq, h.prevWork]

theorem Going.run (h : Going t origin current) (rest : List Sample)
    : Going (t.run rest).1 origin (rest.getLastD current) ∧
        (t.run rest).1.lastWork = (worksFrom t.chainWork t.lastWork rest).getLastD t.lastWork ∧
        (t.run rest).2 = stepsFrom t.lastWork (worksFrom t.chainWork t.lastWork rest) := by
  induction rest generalizing t current with
  | nil => exact ⟨h, rfl, rfl⟩
  | cons s rest ih =>
    obtain ⟨hnext, hdone⟩ := h.tick s
    obtain ⟨hgoing, hlast, hsteps⟩ := ih hnext
    rw [List.getLastD_cons, worksFrom, List.getLastD_cons, stepsFrom]
    refine ⟨hgoing, hlast, ?_⟩
    rw [Traversal.run, hdone, hsteps]
    rfl

-- What the first reading leaves behind, and the works read after it.
def base (first : Sample) : Work := (readWork .new .zero first.read).2

def worksAfter (first : Sample) (rest : List Sample) : List Work :=
  worksFrom (readWork .new .zero first.read).1 (base first) rest

theorem works_cons (first : Sample) (rest : List Sample)
    : works (first :: rest) = base first :: worksAfter first rest := rfl

theorem run_done (first : Sample) (rest : List Sample)
    : (new.run (first :: rest)).2
        =
      (base first).delta (base first) :: stepsFrom (base first) (worksAfter first rest) := by
  rw [Traversal.run, ((going_new first).run rest).2.2]
  rfl

theorem run_segment (first : Sample) (rest : List Sample) (network : Option String)
    : (new.run (first :: rest)).1.segment network
        =
      if first.height < (rest.getLastD first).height then
        some
          { network := network
            fromHeight := first.height
            toHeight := (rest.getLastD first).height
            work := ((worksAfter first rest).getLastD (base first)).delta (base first)
            elapsedMs := ((rest.getLastD first).atInstant - first.atInstant) / 1000000 % 2 ^ 64
            startedMs := first.wall / 1000000 % 2 ^ 64 }
      else
        none := by
  obtain ⟨hgoing, hlast, -⟩ := (going_new first).run rest
  rw [Traversal.run, segment, hgoing.origin, hgoing.head]
  dsimp only
  rw [hlast]
  rfl

theorem observe_built (cw : ChainWork) (block : CompactBlock) : (cw.observe block).2.Built := by
  have hpool : ∀ s r op w, w.Built → (ChainWork.observePool s r op w).2.Built := by
    intro s r op w hw
    unfold ChainWork.observePool
    split
    . exact hw
    . exact hw.set _ _
  rw [ChainWork.observe_work]
  exact hpool _ _ _ _ (hpool _ _ _ _ (hpool _ _ _ _ .zero))

theorem worksFrom_built {cw : ChainWork} {last : Work} (hlast : last.Built)
    (h : ∀ s ∈ samples, ∀ own, s.read = .own own → own.Built)
    : ∀ w ∈ worksFrom cw last samples, w.Built := by
  induction samples generalizing cw last with
  | nil => simp [worksFrom]
  | cons s samples ih =>
    obtain ⟨hown, hrest⟩ := List.forall_mem_cons.mp h
    have hread : (readWork cw last s.read).2.Built := by
      cases hs : s.read with
      | own own => exact hown own hs
      | noIndexer => exact hlast
      | block block => exact observe_built cw block
      | failed => exact hlast
    exact List.forall_mem_cons.mpr ⟨hread, ih hread hrest⟩

theorem stepsFrom_canonical {prev : Work} {ws : List Work} (hprev : prev.Canonical) (h : ∀ w ∈ ws, w.Canonical)
    : ∀ w ∈ stepsFrom prev ws, w.Canonical := by
  induction ws generalizing prev with
  | nil => simp [stepsFrom]
  | cons w ws ih =>
    obtain ⟨hw, hrest⟩ := List.forall_mem_cons.mp h
    exact List.forall_mem_cons.mpr ⟨hw.delta prev, ih hw hrest⟩

/--
What a segment says of the readings of its phase, and of the work that each tick found done.
-/
structure Spans (samples : List Sample) (network : Option String) (done : List Work) (seg : Segment) : Prop where
  network : seg.network = network
  ends : ∃ first last, samples.head? = some first ∧ samples.getLast? = some last ∧
    seg.fromHeight = first.height ∧ seg.toHeight = last.height ∧ first.height < last.height
  work : ∃ base reached, (works samples).head? = some base ∧ (works samples).getLast? = some reached ∧
    ∀ op, seg.work.get op = Option.map₂ (· - ·) (reached.get op) (base.get op)
  atMost : ∀ op, (∀ w ∈ works samples, (w.get op).isSome) →
    (seg.work.get op).getD 0 ≤ (sum (done.map (·.get op))).getD 0
  channels : ∀ c : Channel, (∀ op ∈ c.ops, (works samples).IsChain (Rising op)) →
    sum (c.ops.map seg.work.get) = sum (done.map fun w => sum (c.ops.map w.get))
  total : (∀ op, (works samples).IsChain (Rising op)) → (∀ s ∈ samples, ∀ own, s.read = .own own → own.Built) →
    seg.work.total = sum (done.map (·.total))

theorem sum_ops (ops : List Op) (h : ∀ op ∈ ops, (works (first :: rest)).IsChain (Rising op))
    : sum (ops.map (((worksAfter first rest).getLastD (base first)).delta (base first)).get)
        =
      sum ((new.run (first :: rest)).2.map fun w => sum (ops.map w.get)) := by
  rw [sum_comm, run_done]
  congr 1
  apply List.map_congr_left
  intro op hop
  refine (sum_stepsFrom ?_).symm
  exact List.isChain_cons_cons.mpr ⟨⟨rfl, Nat.le_refl _⟩, h op hop⟩

theorem getLast?_cons {α : Type} (x : α) (l : List α) : (x :: l).getLast? = some (l.getLastD x) := by
  rw [List.getLast?_cons, List.getLastD_eq_getLast?]

theorem run_canonical (h : ∀ s ∈ first :: rest, ∀ own, s.read = .own own → own.Built)
    : (((worksAfter first rest).getLastD (base first)).delta (base first)).Canonical ∧
        ∀ w ∈ (new.run (first :: rest)).2, w.Canonical := by
  have hworks : ∀ w ∈ works (first :: rest), w.Canonical := fun w hw => (worksFrom_built .zero h w hw).canonical
  obtain ⟨hbase, hafter⟩ := List.forall_mem_cons.mp hworks
  constructor
  . have hreached := hworks _ (List.mem_of_getLast? (getLast?_cons (base first) (worksAfter first rest)))
    exact hreached.delta _
  . rw [run_done]
    exact List.forall_mem_cons.mpr ⟨hbase.delta _, stepsFrom_canonical hbase hafter⟩

theorem spans_of_segment (h : (new.run (first :: rest)).1.segment network = some seg)
    : Spans (first :: rest) network (new.run (first :: rest)).2 seg := by
  rw [run_segment] at h
  split at h
  . next hlt =>
    obtain rfl := Option.some.inj h
    refine ⟨rfl, ⟨first, _, rfl, getLast?_cons _ _, rfl, rfl, hlt⟩, ⟨base first, _, rfl, getLast?_cons _ _, ?_⟩,
      ?_, ?_, ?_⟩
    . intro op
      exact Work.get_delta _ _ op
    . intro op hmeasured
      rw [works_cons, List.forall_mem_cons] at hmeasured
      obtain ⟨n, hn⟩ := Option.isSome_iff_exists.mp hmeasured.1
      have hle := le_stepsFrom hmeasured.1 hmeasured.2
      rw [run_done, List.map_cons, sum_cons, Work.get_delta, Work.get_delta, hn]
      rw [hn] at hle
      cases hlast : ((worksAfter first rest).getLastD (base first)).get op with
      | none => exact Nat.zero_le _
      | some m =>
        rw [hlast] at hle
        cases hsum : sum ((stepsFrom (base first) (worksAfter first rest)).map (·.get op)) with
        | none =>
          rw [hsum] at hle
          simp only [Option.map₂_some_some, Option.merge_none_right, Option.getD_some, Option.getD_none] at hle ⊢
          omega
        | some k =>
          rw [hsum] at hle
          simp only [Option.map₂_some_some, Option.merge_some_some, Option.getD_some] at hle ⊢
          omega
    . intro c hc
      exact sum_ops c.ops hc
    . intro hrising hown
      obtain ⟨hseg, hdone⟩ := run_canonical hown
      rw [Work.total_eq hseg, sum_ops Op.all fun op _ => hrising op]
      congr 1
      apply List.map_congr_left
      intro w hw
      exact (Work.total_eq (hdone w hw)).symm
  . cases h

/--
A phase has a segment exactly where its last reading is above its first one. Its work is never more than its ticks found
done, and where no count falls it is that, for each channel and in all.
-/
theorem segment_spec (samples : List Sample) (network : Option String)
    : ((new.run samples).1.segment network = none ↔
        ∀ first last, samples.head? = some first → samples.getLast? = some last → last.height ≤ first.height) ∧
        ∀ seg, (new.run samples).1.segment network = some seg → Spans samples network (new.run samples).2 seg := by
  cases samples with
  | nil => simp [Traversal.run, segment, new]
  | cons first rest =>
    refine ⟨?_, fun seg h => spans_of_segment h⟩
    rw [run_segment, getLast?_cons, List.head?_cons]
    simp

/--
The readings at both ends are of the blocks of one chain, which its name stands for.
-/
structure OnChain (chain : String → Nat → CompactBlock) (network : Option String) (samples : List Sample) : Prop where
  first : ∀ name ∈ network, ∀ s ∈ samples.head?, s.read = .block (chain name s.height)
  last : ∀ name ∈ network, ∀ s ∈ samples.getLast?, s.read = .block (chain name s.height)

theorem observe_get_unique {cw cw' : ChainWork} {block : CompactBlock} {op : Op} {m n : Nat}
    (h : (cw.observe block).2.get op = some m) (h' : (cw'.observe block).2.get op = some n)
    : m = n := by
  by_cases hpool : ∃ p : ChainWork.Pool, p.op = op
  . rcases hpool with ⟨p, rfl⟩
    rw [ChainWork.observe_get] at h h'
    split at h
    . cases h
    . split at h'
      . cases h'
      . exact (Option.some.inj h).symm.trans (Option.some.inj h')
  . rw [ChainWork.observe_get_other _ _ (not_exists.mp hpool)] at h
    cases h

theorem exists_observe_last (cw : ChainWork) (last : Work) {s : Sample} (h : samples.getLast? = some s)
    {block : CompactBlock} (hread : s.read = .block block)
    : ∃ cw' : ChainWork, (worksFrom cw last samples).getLast? = some (cw'.observe block).2 := by
  induction samples generalizing cw last with
  | nil => cases h
  | cons x samples ih =>
    cases samples with
    | nil =>
      obtain rfl : x = s := Option.some.inj h
      exact ⟨cw, by simp [worksFrom, hread, readWork]⟩
    | cons y samples =>
      rw [List.getLast?_cons_cons] at h
      rcases ih _ _ h with ⟨cw', hlast⟩
      exact ⟨cw', hlast⟩

theorem OnChain.work {chain : String → Nat → CompactBlock} {name : String} (h : OnChain chain (some name) samples)
    (hseg : (new.run samples).1.segment (some name) = some seg)
    : ∃ cw cw' : ChainWork, seg.work =
        (cw'.observe (chain name seg.toHeight)).2.delta (cw.observe (chain name seg.fromHeight)).2 := by
  cases samples with
  | nil => cases hseg
  | cons first rest =>
    have hfirst := h.first name rfl first rfl
    have hlast := h.last name rfl _ (getLast?_cons first rest)
    rcases exists_observe_last .new .zero (getLast?_cons first rest) hlast with ⟨cw, hcw⟩
    rw [show worksFrom .new .zero (first :: rest) = _ from works_cons first rest, getLast?_cons] at hcw
    rw [run_segment] at hseg
    split at hseg
    . obtain rfl := Option.some.inj hseg
      refine ⟨.new, cw, ?_⟩
      dsimp only
      rw [Option.some.inj hcw, base, hfirst]
      rfl
    . cases hseg

theorem comparableWith_ok {seg seg' : Segment} (h : seg.comparableWith seg' = .ok ())
    : ∃ name, seg.network = some name ∧ seg'.network = some name ∧ seg.fromHeight = seg'.fromHeight ∧
        seg.toHeight = seg'.toHeight := by
  unfold Segment.comparableWith at h
  split at h
  . next head name hhead hbase =>
    split at h
    . cases h
    . next heq =>
      split at h
      . cases h
      . next hspan =>
        obtain rfl := not_not.mp heq
        obtain ⟨hfrom, hto⟩ := Prod.mk.inj (not_not.mp hspan)
        exact ⟨head, hhead, hbase, hfrom, hto⟩
  . cases h

/--
Segments that are comparable have done the same work, as far as both have measured it: it is that of the chain.
-/
theorem comparable_work {chain : String → Nat → CompactBlock} {network network' : Option String}
    {samples samples' : List Sample} {seg seg' : Segment} (h : OnChain chain network samples)
    (h' : OnChain chain network' samples')
    (hseg : (new.run samples).1.segment network = some seg) (hseg' : (new.run samples').1.segment network' = some seg')
    (hcomparable : seg.comparableWith seg' = .ok ())
    : (∀ op m n, seg.work.get op = some m → seg'.work.get op = some n → m = n) ∧
        (seg.work.known = seg'.work.known → seg.work = seg'.work) := by
  have hnetwork := ((segment_spec samples network).2 seg hseg).network
  have hnetwork' := ((segment_spec samples' network').2 seg' hseg').network
  rcases comparableWith_ok hcomparable with ⟨name, hname, hname', hfrom, hto⟩
  obtain rfl : network = some name := hnetwork.symm.trans hname
  obtain rfl : network' = some name := hnetwork'.symm.trans hname'
  rcases h.work hseg with ⟨cw, cw', hwork⟩
  rcases h'.work hseg' with ⟨dw, dw', hwork'⟩
  rw [← hfrom, ← hto] at hwork'
  have heq : ∀ op m n, seg.work.get op = some m → seg'.work.get op = some n → m = n := by
    intro op m n hm hn
    rw [hwork, Work.get_delta, Option.map₂_eq_some_iff] at hm
    rw [hwork', Work.get_delta, Option.map₂_eq_some_iff] at hn
    rcases hm with ⟨a, b, ha, hb, rfl⟩
    rcases hn with ⟨c, d, hc, hd, rfl⟩
    rw [observe_get_unique ha hc, observe_get_unique hb hd]
  refine ⟨heq, fun hknown => ?_⟩
  have hcanonical : seg.work.Canonical := hwork ▸ (observe_built _ _).canonical.delta _
  have hcanonical' : seg'.work.Canonical := hwork' ▸ (observe_built _ _).canonical.delta _
  apply hcanonical.eq_of_get hcanonical'
  intro op
  have hsome : (seg.work.get op).isSome = (seg'.work.get op).isSome := by
    rw [Work.isSome_get, Work.isSome_get, hknown]
  cases hm : seg.work.get op with
  | none =>
    rw [hm, Option.isSome_none, eq_comm, Option.isSome_eq_false_iff, Option.isNone_iff_eq_none] at hsome
    exact hsome.symm
  | some m =>
    rw [hm, Option.isSome_some, eq_comm, Option.isSome_iff_exists] at hsome
    rcases hsome with ⟨n, hn⟩
    rw [hn, heq op m n hm hn]

def quietChain (_ : String) (height : Nat) : CompactBlock := ChainWork.saplingBlock (10 * height) 1

def blockRead (height seconds : Nat) : Sample :=
  ⟨height, 1000000000 * seconds, 0, .block (quietChain "main" height)⟩

def direct : List Sample := [blockRead 1 0, blockRead 3 2]

def interrupted : List Sample := [blockRead 1 0, ⟨2, 3000000000, 0, .failed⟩, blockRead 3 5]

def climbed (elapsedMs : Nat) : Segment where
  network := some "main"
  fromHeight := 1
  toHeight := 3
  work := ((Work.zero.set .saplingOutput 20).set .orchardAction 0).set .ironwoodAction 0
  elapsedMs := elapsedMs
  startedMs := 0

theorem comparable_work_interrupted
    : (new.run direct).1.segment (some "main") = some (climbed 2000) ∧
        (new.run interrupted).1.segment (some "main") = some (climbed 5000) ∧
        ∀ op m n, (climbed 2000).work.get op = some m → (climbed 5000).work.get op = some n → m = n := by
  have hdirect : (new.run direct).1.segment (some "main") = some (climbed 2000) := by decide
  have hinterrupted : (new.run interrupted).1.segment (some "main") = some (climbed 5000) := by decide
  have honChain : OnChain quietChain (some "main") direct := by
    constructor <;> rintro _ ⟨rfl⟩ _ ⟨rfl⟩ <;> rfl
  have honChain' : OnChain quietChain (some "main") interrupted := by
    constructor <;> rintro _ ⟨rfl⟩ _ ⟨rfl⟩ <;> rfl
  exact ⟨hdirect, hinterrupted, (comparable_work honChain honChain' hdirect hinterrupted (by decide)).1⟩

end Run

end Traversal
end Sync
