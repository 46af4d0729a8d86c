import Mathlib.Data.List.Chain
import Ztest.Loadtest.Differential.Lemmas.Rounds

/-!
This module contains the proof that the block oracle has nothing to say about a response exactly when
it is the chain that was asked for, and that it reports a settled block exactly when the hash is not
the first one that any call observed at this height, unless it panics while it counts the blocks of the
whole range of u64.

It also contains what the gates of a differential load report say about the run behind it.
-/

namespace Loadtest
namespace Load

/--
The heights `start..=stop` in order, each block linked to the one before.
-/
structure Answers (start stop : Nat) (blocks : List CompactBlock) : Prop where
  heights : blocks.map (·.height) = inclusive start stop
  hashes : ∀ block ∈ blocks, block.hash.length = 32 ∧ block.prevHash.length = 32
  linked : blocks.IsChain fun prior block => block.prevHash = prior.hash
  genesis : ∀ block ∈ blocks, block.height = 0 → block.prevHash = genesisPrev

-- A block that `checkLinks` accepts, whatever precedes it.
def WellFormed (block : CompactBlock) : Prop :=
  (block.hash.length = 32 ∧ block.prevHash.length = 32) ∧ (block.height = 0 → block.prevHash = genesisPrev)

def Follows (prior block : CompactBlock) : Prop := prior.height < block.height ∧ block.prevHash = prior.hash

def FollowsLast (prevHash : Option Bytes) (lastHeight : Option Nat) (block : CompactBlock) : Prop :=
  (∀ hash ∈ prevHash, block.prevHash = hash) ∧ ∀ last ∈ lastHeight, last < block.height

theorem copyHash_eq_some {bytes hash : Bytes} (h : copyHash bytes = some hash)
    : bytes.length = 32 ∧ hash = bytes := by
  unfold copyHash at h
  split at h
  . next hlen => exact ⟨hlen, (Option.some.inj h).symm⟩
  . cases h

theorem copyHash_eq_none {bytes : Bytes} (h : copyHash bytes = none) : bytes.length ≠ 32 := by
  intro hlen
  simp [copyHash, hlen] at h

theorem checkOrder_eq_nil {height : Nat} {lastHeight : Option Nat}
    : checkOrder height lastHeight = [] ↔ ∀ last ∈ lastHeight, last < height := by
  cases lastHeight with
  | none => simp [checkOrder]
  | some last => simp [checkOrder]

theorem checkGenesis_eq_nil {height : Nat} {prev : Bytes}
    : checkGenesis height prev = [] ↔ (height = 0 → prev = genesisPrev) := by
  unfold checkGenesis
  split
  . next h => simp [h]
  . next h => simpa using h

theorem checkLink_eq_nil {height : Nat} {prev : Bytes} {prevHash : Option Bytes}
    : checkLink height prev prevHash = [] ↔ ∀ hash ∈ prevHash, prev = hash := by
  cases prevHash with
  | none => simp [checkLink]
  | some expected => simp [checkLink]

theorem checkLinks_cons_eq_nil {prevHash : Option Bytes} {lastHeight : Option Nat} {block : CompactBlock}
    {rest : List CompactBlock}
    : checkLinks prevHash lastHeight (block :: rest) = [] ↔
        WellFormed block ∧ FollowsLast prevHash lastHeight block ∧
          checkLinks (some block.hash) (some block.height) rest = [] := by
  rw [checkLinks, List.append_eq_nil_iff, checkOrder_eq_nil]
  split
  . next hhash => simp [WellFormed, copyHash_eq_none hhash]
  . next hprev => simp [WellFormed, copyHash_eq_none hprev]
  . next hash prev hhash hprev =>
    rcases copyHash_eq_some hhash with ⟨hlenHash, rfl⟩
    rcases copyHash_eq_some hprev with ⟨hlenPrev, rfl⟩
    rw [List.append_eq_nil_iff, List.append_eq_nil_iff, checkGenesis_eq_nil, checkLink_eq_nil]
    unfold WellFormed FollowsLast
    tauto

/--
The order and the links, a scan with resets, hold of each block and of each two neighbours.
-/
theorem checkLinks_eq_nil {blocks : List CompactBlock} {prevHash : Option Bytes} {lastHeight : Option Nat}
    : checkLinks prevHash lastHeight blocks = [] ↔
        (∀ block ∈ blocks, WellFormed block) ∧ blocks.IsChain Follows ∧
          ∀ block ∈ blocks.head?, FollowsLast prevHash lastHeight block := by
  induction blocks generalizing prevHash lastHeight with
  | nil => simp [checkLinks]
  | cons block rest ih =>
    have hhead : (∀ next ∈ rest.head?, FollowsLast (some block.hash) (some block.height) next) ↔
        ∀ next ∈ rest.head?, Follows block next := by
      simp only [FollowsLast, Follows, Option.mem_some_iff, forall_eq', and_comm]
    rw [checkLinks_cons_eq_nil, ih, hhead, List.isChain_cons, List.forall_mem_cons]
    simp only [List.head?_cons, Option.mem_some_iff, forall_eq']
    tauto

theorem mem_served {blocks : List CompactBlock} {height : Nat}
    : height ∈ ((blocks.map (·.height)).dedup).insertionSort (· ≤ ·) ↔ height ∈ blocks.map (·.height) := by
  rw [List.mem_insertionSort, List.mem_dedup]

theorem mem_inclusive {start stop height : Nat}
    : height ∈ inclusive start stop ↔ start ≤ height ∧ height ≤ stop := by
  rw [inclusive, List.mem_range'_1]
  omega

theorem find_missing_eq_none {start stop : Nat} {blocks : List CompactBlock}
    : (inclusive start stop).find? (fun h => h ∉ ((blocks.map (·.height)).dedup).insertionSort (· ≤ ·)) = none ↔
        ∀ height ∈ inclusive start stop, height ∈ blocks.map (·.height) := by
  simp only [List.find?_eq_none, decide_eq_true_eq, Decidable.not_not, mem_served]

theorem find_extra_eq_none {start stop : Nat} {blocks : List CompactBlock}
    : (((blocks.map (·.height)).dedup).insertionSort (· ≤ ·)).find? (fun h => h < start || stop < h) = none ↔
        ∀ height ∈ blocks.map (·.height), height ∈ inclusive start stop := by
  simp only [List.find?_eq_none, mem_served, Bool.or_eq_true, decide_eq_true_eq, not_or, Nat.not_lt, ← mem_inclusive]

/--
Nothing missing and nothing unexpected: the served heights are those of the range.
-/
theorem checkComplete_eq_nil {overflowChecks : Bool} {start stop : Nat} {blocks : List CompactBlock}
    {v : List Violation} (h : checkComplete overflowChecks start stop blocks = some v)
    : v = [] ↔ ∀ height, height ∈ blocks.map (·.height) ↔ height ∈ inclusive start stop := by
  unfold checkComplete at h
  dsimp only at h
  split at h
  . next hmissing =>
    cases h
    rw [Option.toList_eq_nil_iff, Option.map_eq_none_iff, find_extra_eq_none]
    rw [find_missing_eq_none] at hmissing
    exact ⟨fun hextra height => ⟨hextra height, hmissing height⟩, fun hserved height => (hserved height).mp⟩
  . next missing hmissing =>
    rcases Option.map_eq_some_iff.mp h with ⟨_, _, rfl⟩
    have hsome : ¬∀ height ∈ inclusive start stop, height ∈ blocks.map (·.height) := by
      rw [← find_missing_eq_none, hmissing]
      exact Option.some_ne_none missing
    constructor
    . intro hnil
      cases hnil
    . intro hserved
      exact absurd (fun height => (hserved height).mpr) hsome

theorem addU64_eq_none {overflowChecks : Bool} {a b : Nat}
    : addU64 overflowChecks a b = none ↔ overflowChecks = true ∧ maxHeight < a + b := by
  unfold addU64
  split
  . next h => simp [Nat.not_lt.mpr h]
  . next h =>
    split
    . next hchecks => simp [hchecks, Nat.lt_of_not_le h]
    . next hchecks => simp [hchecks]

theorem checkComplete_eq_none {overflowChecks : Bool} {start stop : Nat} {blocks : List CompactBlock}
    : checkComplete overflowChecks start stop blocks = none ↔
        overflowChecks = true ∧ maxHeight < stop - start + 1 ∧
          ¬∀ height ∈ inclusive start stop, height ∈ blocks.map (·.height) := by
  rw [← find_missing_eq_none]
  unfold checkComplete
  dsimp only
  split
  . next hmissing =>
    rw [hmissing]
    simp
  . next missing hmissing =>
    rw [Option.map_eq_none_iff, addU64_eq_none, hmissing]
    simp

theorem follows_heights {blocks : List CompactBlock} (h : blocks.IsChain Follows)
    : (blocks.map (·.height)).Pairwise (· < ·) := by
  rw [← List.isChain_iff_pairwise, List.isChain_map]
  exact h.imp fun _ _ hfollows => hfollows.1

theorem inclusive_sorted (start stop : Nat) : (inclusive start stop).Pairwise (· < ·) :=
  List.pairwise_lt_range'

theorem isChain_follows {start stop : Nat} {blocks : List CompactBlock} (h : Answers start stop blocks)
    : blocks.IsChain Follows := by
  have hsorted : (blocks.map (·.height)).IsChain (· < ·) := by
    rw [h.heights]
    exact (inclusive_sorted start stop).isChain
  rw [List.isChain_map, List.isChain_iff_getElem] at hsorted
  rw [List.isChain_iff_getElem]
  intro i hi
  exact ⟨hsorted i hi, List.isChain_iff_getElem.mp h.linked i hi⟩

theorem links_complete_iff {overflowChecks : Bool} {start stop : Nat} {blocks : List CompactBlock}
    {complete : List Violation} (hcomplete : checkComplete overflowChecks start stop blocks = some complete)
    : checkLinks none none blocks ++ complete = [] ↔ Answers start stop blocks := by
  rw [List.append_eq_nil_iff, checkLinks_eq_nil, checkComplete_eq_nil hcomplete]
  constructor
  . rintro ⟨⟨hwell, hchain, _⟩, hserved⟩
    exact {
      heights := (follows_heights hchain).eq_of_mem_iff (inclusive_sorted start stop) hserved
      hashes := fun block hblock => (hwell block hblock).1
      linked := hchain.imp fun _ _ hfollows => hfollows.2
      genesis := fun block hblock => (hwell block hblock).2 }
  . intro h
    refine ⟨⟨fun block hblock => ⟨h.hashes block hblock, h.genesis block hblock⟩, isChain_follows h, ?_⟩, ?_⟩
    . simp [FollowsLast]
    . rw [h.heights]
      exact fun _ => Iff.rfl

def firstHash (blocks : List CompactBlock) (height : Nat) : Option Bytes :=
  (blocks.filter (·.height = height)).findSome? fun block => copyHash block.hash

theorem firstHash_cons (block : CompactBlock) (rest : List CompactBlock) (height : Nat)
    : firstHash (block :: rest) height =
        (if block.height = height then copyHash block.hash else none).or (firstHash rest height) := by
  unfold firstHash
  by_cases h : block.height = height
  . rw [List.filter_cons_of_pos (by simpa using h), List.findSome?_cons, if_pos h]
    cases copyHash block.hash <;> rfl
  . rw [List.filter_cons_of_neg (by simpa using h), if_neg h, Option.none_or]

theorem firstHash_append (xs ys : List CompactBlock) (height : Nat)
    : firstHash (xs ++ ys) height = (firstHash xs height).or (firstHash ys height) := by
  rw [firstHash, List.filter_append, List.findSome?_append]
  rfl

def settledAt (seen : Seen) (blocks : List CompactBlock) (height : Nat) : Option Bytes :=
  (seen height).or (firstHash blocks height)

theorem settledAt_malformed {seen : Seen} {block : CompactBlock} {rest : List CompactBlock}
    (h : copyHash block.hash = none)
    : settledAt seen (block :: rest) = settledAt seen rest := by
  funext height
  rw [settledAt, firstHash_cons, h, ite_self, Option.none_or, settledAt]

theorem settledAt_vacant {seen : Seen} {block : CompactBlock} {rest : List CompactBlock} {hash : Bytes}
    (h : copyHash block.hash = some hash) (hseen : seen block.height = none)
    : settledAt seen (block :: rest) = settledAt (Function.update seen block.height (some hash)) rest := by
  funext height
  rw [settledAt, firstHash_cons, h, settledAt]
  by_cases heq : block.height = height
  . subst heq
    rw [if_pos rfl, hseen, Function.update_self, Option.none_or]
  . rw [if_neg heq, Function.update_of_ne (Ne.symm heq), Option.none_or]

theorem settledAt_occupied {seen : Seen} {block : CompactBlock} {rest : List CompactBlock} {prior : Bytes}
    (hseen : seen block.height = some prior)
    : settledAt seen (block :: rest) = settledAt seen rest := by
  funext height
  rw [settledAt, firstHash_cons, settledAt]
  by_cases heq : block.height = height
  . subst heq
    rw [hseen, Option.some_or, Option.some_or]
  . rw [if_neg heq, Option.none_or]

/--
`block` lies below the ceiling and rewrites `first`.
-/
def Rewrites (ceiling : Nat) (first : Nat → Option Bytes) (block : CompactBlock) : Prop :=
  block.height < ceiling ∧ ∃ hash prior, copyHash block.hash = some hash ∧ first block.height = some prior ∧
    hash ≠ prior

theorem checkStable_eq (ceiling : Nat) (seen : Seen) (blocks : List CompactBlock)
    : (checkStable ceiling seen blocks).1 = settledAt seen blocks ∧
        ((checkStable ceiling seen blocks).2 ≠ [] ↔
          ∃ block ∈ blocks, Rewrites ceiling (settledAt seen blocks) block) ∧
        ∀ v ∈ (checkStable ceiling seen blocks).2, v.field = "hash" ∧
          ∃ block ∈ blocks, block.height = v.height ∧ Rewrites ceiling (settledAt seen blocks) block := by
  induction blocks generalizing seen with
  | nil =>
    refine ⟨?_, by simp [checkStable], by simp [checkStable]⟩
    funext height
    simp [checkStable, settledAt, firstHash]
  | cons block rest ih =>
    unfold checkStable
    cases hhash : copyHash block.hash with
    | none =>
      rw [settledAt_malformed hhash]
      have hblock : ¬Rewrites ceiling (settledAt seen rest) block := by simp [Rewrites, hhash]
      simpa [hblock] using ih seen
    | some hash =>
      cases hseen : seen block.height with
      | none =>
        rw [settledAt_vacant hhash hseen]
        have hblock : ¬Rewrites ceiling (settledAt (Function.update seen block.height (some hash)) rest) block := by
          simp [Rewrites, hhash, settledAt]
        simpa [hblock, hseen] using ih (Function.update seen block.height (some hash))
      | some prior =>
        rw [settledAt_occupied hseen]
        have hblock : Rewrites ceiling (settledAt seen rest) block ↔ prior ≠ hash ∧ block.height < ceiling := by
          simp [Rewrites, hhash, settledAt, hseen, and_comm, eq_comm]
        rcases ih seen with ⟨hseen', hfound, hnamed⟩
        dsimp only
        split
        . next hchanged =>
          refine ⟨hseen', ?_, ?_⟩
          . simp [hblock.mpr hchanged]
          . intro v hv
            rcases List.mem_cons.mp hv with rfl | hv
            . exact ⟨rfl, block, List.mem_cons_self, rfl, hblock.mpr hchanged⟩
            . rcases hnamed v hv with ⟨hfield, b, hb, hrewrites⟩
              exact ⟨hfield, b, List.mem_cons_of_mem _ hb, hrewrites⟩
        . next hchanged =>
          rw [← hblock] at hchanged
          simpa [hchanged] using ⟨hseen', hfound, hnamed⟩

structure Call where
  start : Nat
  stop : Nat
  blocks : List CompactBlock
  stop_le : stop ≤ maxHeight

/--
The range is the whole of u64, of which some height is missing: its blocks are counted.
-/
structure Call.Uncountable (call : Call) : Prop where
  start : call.start = 0
  stop : call.stop = maxHeight
  missing : ∃ height ≤ maxHeight, ∀ block ∈ call.blocks, block.height ≠ height

def Call.observe (overflowChecks : Bool) (stableBelow : Option Nat) (seen : Seen) (call : Call)
    : Option (Seen × List Violation) :=
  Load.observe overflowChecks stableBelow seen call.start call.stop call.blocks

-- The baseline after a list of calls, in the order in which they took the lock.
def seenAfter (overflowChecks : Bool) (ceiling : Nat) (calls : List Call) : Seen :=
  calls.foldl (fun seen call => ((call.observe overflowChecks (some ceiling) seen).map (·.1)).getD seen)
    State.init.seen

def observed (calls : List Call) : List CompactBlock := calls.flatMap (·.blocks)

theorem Call.checkComplete_eq_none (overflowChecks : Bool) (call : Call)
    : checkComplete overflowChecks call.start call.stop call.blocks = none ↔
        overflowChecks = true ∧ call.Uncountable := by
  have hmissing : (¬∀ height ∈ inclusive call.start call.stop, height ∈ call.blocks.map (·.height)) ↔
      ∃ height ∈ inclusive call.start call.stop, ∀ block ∈ call.blocks, block.height ≠ height := by
    simp
  have hle := call.stop_le
  have hmax : 0 < maxHeight := by decide
  rw [Load.checkComplete_eq_none, hmissing]
  constructor
  . rintro ⟨hchecks, hcount, height, hmem, hheight⟩
    have hstart : call.start = 0 := by omega
    have hstop : call.stop = maxHeight := by omega
    exact ⟨hchecks, hstart, hstop, height, hstop ▸ (mem_inclusive.mp hmem).2, hheight⟩
  . rintro ⟨hchecks, hstart, hstop, height, hheight, hmem⟩
    refine ⟨hchecks, by omega, height, ?_, hmem⟩
    rw [mem_inclusive]
    omega

theorem Call.observe_stable (overflowChecks : Bool) (ceiling : Nat) (seen : Seen) (call : Call)
    : call.observe overflowChecks (some ceiling) seen =
        (checkComplete overflowChecks call.start call.stop call.blocks).map fun complete =>
          (settledAt seen call.blocks,
            checkLinks none none call.blocks ++ complete ++ (checkStable ceiling seen call.blocks).2) := by
  rw [← (checkStable_eq ceiling seen call.blocks).1]
  rfl

theorem settledAt_append (seen : Seen) (xs ys : List CompactBlock)
    : settledAt (settledAt seen xs) ys = settledAt seen (xs ++ ys) := by
  funext height
  rw [settledAt, settledAt, settledAt, firstHash_append, Option.or_assoc]

/--
Whatever the order of the calls, the baseline is the first well-formed hash of each height.
-/
theorem seenAfter_eq {overflowChecks : Bool} {ceiling : Nat} {calls : List Call}
    (h : ∀ call ∈ calls, overflowChecks = true → ¬call.Uncountable)
    : seenAfter overflowChecks ceiling calls = firstHash (observed calls) := by
  have hrun : ∀ seen, calls.foldl
      (fun seen call => ((call.observe overflowChecks (some ceiling) seen).map (·.1)).getD seen) seen =
        settledAt seen (observed calls) := by
    induction calls with
    | nil =>
      intro seen
      funext height
      simp [observed, settledAt, firstHash]
    | cons call rest ih =>
      intro seen
      rw [List.forall_mem_cons] at h
      cases hcomplete : checkComplete overflowChecks call.start call.stop call.blocks with
      | none =>
        rw [call.checkComplete_eq_none] at hcomplete
        exact absurd hcomplete.2 (h.1 hcomplete.1)
      | some complete =>
        rw [List.foldl_cons, ih h.2, call.observe_stable, hcomplete, Option.map_some, Option.map_some,
          Option.getD_some, settledAt_append]
        rfl
  rw [seenAfter, hrun]
  funext height
  rw [settledAt]
  exact Option.none_or

/--
What the oracle owes a call after the calls `before`: without a ceiling the findings are empty exactly
for the chain that was asked for, and a ceiling adds a finding about settled history exactly when a block
below it has another hash than the first one observed at its height.
-/
def Exact (overflowChecks : Bool) (ceiling : Nat) (before : List Call) (call : Call) : Prop :=
  ∃ v settled seen',
    (∀ seen, call.observe overflowChecks none seen = some (seen, v)) ∧
      (v = [] ↔ Answers call.start call.stop call.blocks) ∧
      call.observe overflowChecks (some ceiling) (seenAfter overflowChecks ceiling before)
        = some (seen', v ++ settled) ∧
      (settled ≠ [] ↔
        ∃ block ∈ call.blocks, Rewrites ceiling (firstHash (observed before ++ call.blocks)) block) ∧
      ∀ found ∈ settled, found.field = "hash" ∧ ∃ block ∈ call.blocks, block.height = found.height ∧
        Rewrites ceiling (firstHash (observed before ++ call.blocks)) block

theorem Exact.countable {overflowChecks : Bool} {ceiling : Nat} {before : List Call} {call : Call}
    (h : Exact overflowChecks ceiling before call)
    : overflowChecks = true → ¬call.Uncountable := by
  intro hchecks huncountable
  rcases h with ⟨_, _, _, hplain, _⟩
  have hnone := hplain State.init.seen
  rw [Call.observe, observe, (call.checkComplete_eq_none overflowChecks).mpr ⟨hchecks, huncountable⟩] at hnone
  cases hnone

theorem exact_of_countable {overflowChecks : Bool} {ceiling : Nat} {before : List Call} {call : Call}
    (hbefore : ∀ call ∈ before, overflowChecks = true → ¬call.Uncountable)
    (h : overflowChecks = true → ¬call.Uncountable)
    : Exact overflowChecks ceiling before call := by
  cases hcomplete : checkComplete overflowChecks call.start call.stop call.blocks with
  | none =>
    rw [call.checkComplete_eq_none] at hcomplete
    exact absurd hcomplete.2 (h hcomplete.1)
  | some complete =>
    have hfirst : settledAt (seenAfter overflowChecks ceiling before) call.blocks =
        firstHash (observed before ++ call.blocks) := by
      funext height
      rw [settledAt, seenAfter_eq hbefore, firstHash_append]
    refine ⟨checkLinks none none call.blocks ++ complete,
      (checkStable ceiling (seenAfter overflowChecks ceiling before) call.blocks).2,
      settledAt (seenAfter overflowChecks ceiling before) call.blocks, ?_, links_complete_iff hcomplete, ?_, ?_⟩
    . intro seen
      rw [Call.observe, observe, hcomplete]
      rfl
    . rw [call.observe_stable, hcomplete]
      rfl
    . rw [← hfirst]
      exact (checkStable_eq ceiling (seenAfter overflowChecks ceiling before) call.blocks).2

/--
The oracle is exact at every call of a sequence exactly when, in a build that checks for overflow, no
call asks for all of u64 and misses a height.
-/
theorem observe_exact_iff (overflowChecks : Bool) (ceiling : Nat) (calls : List Call)
    : (∀ before call after, calls = before ++ call :: after → Exact overflowChecks ceiling before call) ↔
        ∀ call ∈ calls, overflowChecks = true → ¬call.Uncountable := by
  constructor
  . intro h call hcall
    rcases List.append_of_mem hcall with ⟨before, after, rfl⟩
    exact (h before call after rfl).countable
  . rintro h before call after rfl
    rw [List.forall_mem_append, List.forall_mem_cons] at h
    exact exact_of_countable h.1 h.2.1

def Sample.block : CompactBlock := ⟨1, List.replicate 32 7, List.replicate 32 3, 0, [], [], none⟩

def Sample.rewritten : CompactBlock := { Sample.block with hash := List.replicate 32 8 }

def Sample.settled : Call := ⟨1, 1, [Sample.block], by decide⟩

def Sample.whole : Call := ⟨0, maxHeight, [Sample.rewritten], Nat.le_refl _⟩

theorem Sample.whole_uncountable : Sample.whole.Uncountable := ⟨rfl, rfl, 0, Nat.zero_le _, by decide⟩

/--
Height 1 is settled and rewritten: the second call panics over the missing height 0 and never reports it.
-/
theorem whole_range_panics
    : Sample.whole.observe true (some 5) (seenAfter true 5 [Sample.settled]) = none ∧
        Rewrites 5 (firstHash (observed [Sample.settled] ++ Sample.whole.blocks)) Sample.rewritten ∧
        ¬∀ before call after, [Sample.settled, Sample.whole] = before ++ call :: after → Exact true 5 before call := by
  refine ⟨?_, ⟨by decide, _, _, rfl, rfl, by decide⟩, ?_⟩
  . rw [Sample.whole.observe_stable, (Sample.whole.checkComplete_eq_none true).mpr ⟨rfl, Sample.whole_uncountable⟩]
    rfl
  . intro h
    exact (h [Sample.settled] Sample.whole [] rfl).countable rfl Sample.whole_uncountable

namespace Merged

structure Clean (m : Merged) : Prop where
  violationsA : m.ma.violations = []
  violationsB : m.mb.violations = []
  errorsA : m.ma.errors = 0
  errorsB : m.mb.errors = 0
  parity : m.parity = []

def Unseen (m : Merged) : Prop := m.parity = [] → m.seen = []

theorem join_unseen {m : Merged} {task : Task} (hu : m.Unseen) : (m.join task).Unseen := by
  intro h
  exact (keepNew_append hu h).2.2

theorem join_clean {m : Merged} {task : Task} (hu : m.Unseen) (h : (m.join task).Clean)
    : m.Clean ∧ task.Clean := by
  rcases List.append_eq_nil_iff.mp h.violationsA with ⟨hva, htva⟩
  rcases List.append_eq_nil_iff.mp h.violationsB with ⟨hvb, htvb⟩
  have hea : m.ma.errors + task.ta.errors = 0 := h.errorsA
  have heb : m.mb.errors + task.tb.errors = 0 := h.errorsB
  rcases keepNew_append hu h.parity with ⟨hp, htp, _⟩
  constructor
  . exact ⟨hva, hvb, by omega, by omega, hp⟩
  . exact ⟨htva, htvb, by omega, by omega, htp⟩

theorem foldl_join_clean {tasks : List Task} {m : Merged} (hu : m.Unseen)
    (h : (tasks.foldl Merged.join m).Clean)
    : m.Clean ∧ ∀ task ∈ tasks, task.Clean := by
  induction tasks generalizing m with
  | nil => exact ⟨h, List.forall_mem_nil _⟩
  | cons task rest ih =>
    rcases ih (join_unseen hu) h with ⟨hjoin, hrest⟩
    rcases join_clean hu hjoin with ⟨hm, htask⟩
    rw [List.forall_mem_cons]
    exact ⟨hm, htask, hrest⟩

end Merged

theorem LoadReport.assertCorrect_ok {r : LoadReport} (h : r.assertCorrect = .ok ()) {name : String} {side : Side}
    (hside : (name, side) ∈ r.sides)
    : side.violations = [] ∧ side.errors = 0 := by
  unfold assertCorrect at h
  split at h
  . cases h
  . next hnone =>
    rw [Option.or_eq_none_iff, List.findSome?_eq_none_iff, List.findSome?_eq_none_iff] at hnone
    rcases hnone with ⟨hviolations, herrors⟩
    constructor
    . have := hviolations _ hside
      rw [violationsOf, Option.map_eq_none_iff, List.head?_eq_none_iff] at this
      exact this
    . have := herrors _ hside
      unfold errorsOf at this
      dsimp only at this
      split at this
      . cases this
      . omega

theorem LoadReport.assertParity_ok {r : LoadReport} (h : r.assertParity = .ok ()) : r.parityDiffs = [] := by
  unfold assertParity at h
  split at h
  . cases h
  . next hnone => exact List.head?_eq_none_iff.mp hnone
  . cases h

theorem Driver.clean_of_gates {d : Driver} {s : State} (hpaired : d.paired = true)
    (hcorrect : (d.report s).assertCorrect = .ok ()) (hparity : (d.report s).assertParity = .ok ())
    {i : Nat} (hi : i < d.connections)
    : (s.tasks i).Clean := by
  have hdiffs : (d.report s).parityDiffs = [] := LoadReport.assertParity_ok hparity
  generalize hm : ((List.range d.connections).map s.tasks).foldl Merged.join ⟨.new, .new, [], []⟩ = m
  have hreport : d.report s =
      ⟨d.label, d.connections, m.ma.intoSide, some m.mb.intoSide,
        m.parity.insertionSort fun p q => p.height ≤ q.height⟩ := by
    unfold Driver.report
    rw [hpaired]
    dsimp only
    rw [hm, if_pos rfl]
  rw [hreport] at hcorrect hdiffs
  rcases LoadReport.assertCorrect_ok hcorrect List.mem_cons_self with ⟨hva, hea⟩
  rcases LoadReport.assertCorrect_ok hcorrect (List.mem_cons_of_mem _ List.mem_cons_self) with ⟨hvb, heb⟩
  have hp : m.parity = [] := by
    have hlength := congrArg List.length hdiffs
    dsimp only at hlength
    rw [List.length_insertionSort] at hlength
    exact List.length_eq_zero_iff.mp hlength
  have hclean : m.Clean := ⟨hva, hvb, hea, heb, hp⟩
  rw [← hm] at hclean
  apply (Merged.foldl_join_clean ?_ hclean).2
  . exact List.mem_map.mpr ⟨i, List.mem_range.mpr hi, rfl⟩
  . intro _
    rfl

/--
What a passed differential run is meant to have seen: every request of both sides answered, with equal
blocks round by round, and a round of every connection among them.
-/
structure Identical (d : Driver) (events : List Event) : Prop where
  answered : ∀ i < d.connections, ∀ ra rb, Requested d events i ra rb → Answered ra rb (· = ·)
  compared : ∀ i < d.connections, ∃ ra rb, Requested d events i ra rb

-- The first reading of the clock at the head of the loop is before the deadline.
def StartsInTime (d : Driver) (events : List Event) (i : Nat) : Prop :=
  ∃ e, (heads i events).head? = some e ∧ e < d.duration

theorem mem_heads {i e : Nat} {events : List Event}
    : e ∈ heads i events ↔ ∃ ra rb, Event.round i e ra rb ∈ events := by
  unfold heads
  rw [List.mem_filterMap]
  constructor
  . rintro ⟨event, hmem, hevent⟩
    cases event with
    | round conn elapsed ra rb =>
      dsimp only at hevent
      split at hevent
      . next hconn =>
        cases hevent
        exact ⟨ra, rb, hconn ▸ hmem⟩
      . cases hevent
    | second conn => cases hevent
  . rintro ⟨ra, rb, hmem⟩
    exact ⟨_, hmem, if_pos rfl⟩

theorem Tracked.starts_iff {d : Driver} {events : List Event} {i : Nat} {t : Task} (h : Tracked d events i t)
    : (∃ ra rb, Requested d events i ra rb) ↔ StartsInTime d events i := by
  constructor
  . rintro ⟨ra, rb, elapsed, hmem, hlt⟩
    have helapsed : elapsed ∈ Load.heads i events := mem_heads.mpr ⟨ra, rb, hmem⟩
    rcases h.heads with ⟨before, hbefore, hheads⟩
    cases before with
    | nil =>
      rcases hheads with ⟨heq, _⟩ | ⟨e, he, heq, _⟩
      . rw [heq] at helapsed
        cases helapsed
      . rw [heq, List.nil_append, List.mem_singleton] at helapsed
        omega
    | cons first rest =>
      refine ⟨first, ?_, hbefore first List.mem_cons_self⟩
      rcases hheads with ⟨heq, _⟩ | ⟨e, _, heq, _⟩
      . rw [heq]
        rfl
      . rw [heq]
        rfl
  . rintro ⟨e, hhead, hlt⟩
    rcases mem_heads.mp (List.mem_of_head? hhead) with ⟨ra, rb, hmem⟩
    exact ⟨ra, rb, e, hmem, hlt⟩

theorem Tracked.equal {d : Driver} {events : List Event} {i : Nat} {t : Task} (h : Tracked d events i t)
    (hdone : t.done = true) (hclean : t.Clean) {ra rb : Except String (List CompactBlock)}
    (hreq : Requested d events i ra rb)
    : Answered ra rb (· = ·) := by
  have hpending : t.pending = none := by
    rcases h.heads with ⟨_, _, ⟨_, hopen⟩ | ⟨_, _, _, _, hnone⟩⟩
    . rw [hdone] at hopen
      cases hopen
    . exact hnone
  rcases h.rounds hclean ra rb hreq with ⟨a, b, ha, hb, hab⟩
  refine ⟨a, b, ha, hb, ?_⟩
  rw [hpending] at hab
  rcases hab with hab | hab
  . exact hab
  . cases hab

/--
A differential run that passes both gates saw identical answers exactly when no connection found its
deadline already past. A connection that did compared nothing, and the gates have nothing against it.
-/
theorem Driver.passed_identical_iff (d : Driver) (hpaired : d.paired = true) (events : List Event) (s : State)
    (hexec : Run.exec d.step .init events = .ok s) (hdone : ∀ i < d.connections, (s.tasks i).done = true)
    (hcorrect : (d.report s).assertCorrect = .ok ()) (hparity : (d.report s).assertParity = .ok ())
    : Identical d events ↔ ∀ i < d.connections, StartsInTime d events i := by
  have htracked : ∀ i, Tracked d events i (s.tasks i) := Tracked.run hpaired hexec
  constructor
  . intro h i hi
    exact (htracked i).starts_iff.mp (h.compared i hi)
  . intro h
    constructor
    . intro i hi ra rb hreq
      exact (htracked i).equal (hdone i hi) (clean_of_gates hpaired hcorrect hparity hi) hreq
    . intro i hi
      exact (htracked i).starts_iff.mpr (h i hi)

namespace Sample

def driver (duration : Nat) : Driver := ⟨true, "load", true, 1, fun _ => (1, 1), none, duration⟩

-- One round that both backends answer with the block, then the deadline.
def agreed : List Event :=
  [.round 0 3 (.ok [block]) (.ok [block]), .second 0, .round 0 1003 (.error "") (.error "")]

def idle : List Event := [.round 0 0 (.error "") (.error "")]

def task (ops : Nat) : Task := ⟨⟨ops, 0, []⟩, ⟨ops, 0, []⟩, [], [], [], [], none, true⟩

def final (ops : Nat) : State := ⟨Function.update (fun _ => Task.new) 0 (task ops), fun _ => none⟩

theorem final_done (ops duration : Nat) : ∀ i < (driver duration).connections, ((final ops).tasks i).done = true := by
  intro i hi
  rw [Nat.lt_one_iff.mp hi]
  rfl

theorem idle_final : Run.exec (driver 0).step .init idle = .ok (final 0) := by
  unfold idle Run.exec
  simp [Driver.step, driver, State.init, Run.exec, final, task, Task.new, Tally.new]

theorem observe_block : observe true none (fun _ => none) 1 1 (blockRange [block]) = some (fun _ => none, []) := by
  have hlinks : checkLinks none none (blockRange [block]) = [] := by decide
  have hcomplete : checkComplete true 1 1 (blockRange [block]) = some [] := by decide
  unfold observe
  rw [hlinks, hcomplete]
  rfl

theorem diffRanges_block : diffRanges (blockRange [block]) (blockRange [block]) = [] := by decide

theorem agreed_final : Run.exec (driver 1000).step .init agreed = .ok (final 1) := by
  unfold agreed
  simp only [Run.exec, Driver.step, driver, State.init, Task.new, Driver.request, Driver.observed, Driver.noteA,
    Driver.noteB, Driver.compare, Driver.countOps, observe_block, Tally.new, Tally.found]
  simp [final, task, Task.new, Tally.new, observe_block, diffRanges_block, keepNew]

theorem final_correct (ops duration : Nat) : ((driver duration).report (final ops)).assertCorrect = .ok () := rfl

theorem final_parity (ops duration : Nat) : ((driver duration).report (final ops)).assertParity = .ok () := rfl

theorem agreed_starts : ∀ i < (driver 1000).connections, StartsInTime (driver 1000) agreed i := by
  intro i hi
  rw [Nat.lt_one_iff.mp hi]
  exact ⟨3, rfl, by decide⟩

end Sample

theorem Driver.agreed_identical : Identical (Sample.driver 1000) Sample.agreed :=
  (Driver.passed_identical_iff (Sample.driver 1000) rfl Sample.agreed (Sample.final 1) Sample.agreed_final
    (Sample.final_done 1 1000) (Sample.final_correct 1 1000) (Sample.final_parity 1 1000)).mpr Sample.agreed_starts

/--
A run of no duration passes both gates without a single request.
-/
theorem Driver.idle_passes
    : ∃ s, Run.exec (Sample.driver 0).step .init Sample.idle = .ok s ∧
        (∀ i < (Sample.driver 0).connections, (s.tasks i).done = true) ∧
        ((Sample.driver 0).report s).assertCorrect = .ok () ∧ ((Sample.driver 0).report s).assertParity = .ok () ∧
        ¬Identical (Sample.driver 0) Sample.idle := by
  refine ⟨Sample.final 0, Sample.idle_final, Sample.final_done 0 0, Sample.final_correct 0 0,
    Sample.final_parity 0 0, ?_⟩
  intro h
  rcases h.compared 0 Nat.one_pos with ⟨_, _, elapsed, _, hlt⟩
  exact Nat.not_lt_zero elapsed hlt

end Load
end Loadtest
