import Ztest.Lib.Run
import Ztest.Lib.Tiles
import Ztest.Loadtest.Wallet

/-!
This module contains `scan_order` with the additions of its `u32`s and the assertions of its clamps, and what
it streams: every block from the birthday to the tip, once, whatever the roots say that the server listed.
-/

namespace Loadtest
namespace Shards

namespace Checked

inductive Stop where
  | overflow
  -- `clamp` with its bounds the wrong way round.
  | clamp
  -- The loop took all its turns.
  | turns
  deriving DecidableEq

def add (a b : Nat) : Except Stop Nat := if a + b < u32Range then .ok (a + b) else .error .overflow

def clamp (n low high : Nat) : Except Stop Nat := if low ≤ high then .ok (min (max n low) high) else .error .clamp

def holding (completing : List Nat) (activation height : Nat) : Except Stop (List (Nat × Nat)) := do
  let shards ← ((activation :: completing).zip completing).mapM fun (start, stop) => return (start, ← add stop 1)
  return shards.filter fun (start, stop) => start ≤ height ∧ height < stop

def range (s : Shards) (pool : Pool) (height birthday tip : Nat) : Except Stop (Nat × Nat) := do
  let pool := ((upTo pool).find? fun p => s.activations p ≤ height).getD .sapling
  let activation := s.activations pool
  let completing := s.completing pool
  match ← holding completing activation height with
  | first :: rest => return (first.1, (rest.getLastD first).2)
  | [] => return (completing.getLastD (max activation birthday), ← add tip 1)

def history (s : Shards) (birthday tip chainTip : Nat) (turns next : Nat) : Except Stop (List (Nat × Nat)) :=
  if next < chainTip then
    match turns with
    | 0 => .error .turns
    | turns + 1 => do
      let shard ← range s .ironwood next birthday tip
      let stop ← clamp shard.2 (← add next 1) chainTip
      return (next, stop) :: (← history s birthday tip chainTip turns stop)
  else
    .ok []

def scanOrder (s : Shards) (birthday tip turns : Nat) : Except Stop (List (Nat × Nat)) :=
  if tip < birthday then
    .ok []
  else do
    let verify := (birthday, min (← add birthday verifyBlocks) (← add tip 1))
    let starts ← pools.mapM fun pool => return (← range s pool tip birthday tip).1
    let chainTip ← clamp (starts.min?.getD birthday) verify.2 (← add tip 1)
    let order := verify :: (chainTip, ← add tip 1) :: (← history s birthday tip chainTip turns verify.2)
    return order.filter fun r => r.1 < r.2

end Checked

open Tiles (Within Tile)

/--
What the heights of a wallet promise: each of them has a successor, and the birthday ten.
-/
structure Fits (s : Shards) (birthday tip : Nat) : Prop where
  birthday : birthday + verifyBlocks < u32Range
  tip : tip + 1 < u32Range
  completing : ∀ pool, ∀ height ∈ s.completing pool, height + 1 < u32Range

section Checked

variable {s : Shards} {birthday tip : Nat}

theorem add_of_lt {a b : Nat} (h : a + b < u32Range) : Checked.add a b = .ok (a + b) := if_pos h

theorem clamp_of_le {n low high : Nat} (h : low ≤ high) : Checked.clamp n low high = .ok (min (max n low) high) := if_pos h

theorem mapM_successor {shards : List (Nat × Nat)} (h : ∀ r ∈ shards, r.2 + 1 < u32Range)
    : (shards.mapM fun (start, stop) => return (start, ← Checked.add stop 1) : Except Checked.Stop _)
        = .ok (shards.map fun (start, stop) => (start, stop + 1)) := by
  induction shards with
  | nil => rfl
  | cons r shards ih =>
    rw [List.forall_mem_cons] at h
    rw [List.mapM_cons, ih h.2]
    dsimp only
    rw [add_of_lt h.1]
    rfl

theorem holding_eq {completing : List Nat} (h : ∀ height ∈ completing, height + 1 < u32Range) (activation height : Nat)
    : Checked.holding completing activation height
        = .ok ((((activation :: completing).zip completing).map fun (start, stop) => (start, stop + 1)).filter
            fun (start, stop) => start ≤ height ∧ height < stop) := by
  unfold Checked.holding
  rw [mapM_successor]
  . rfl
  . intro r hr
    exact h r.2 (List.of_mem_zip hr).2

theorem range_eq (hfits : s.Fits birthday tip) (pool : Pool) (height : Nat)
    : Checked.range s pool height birthday tip = .ok (s.range pool height birthday tip) := by
  unfold Checked.range range
  dsimp only
  rw [holding_eq (hfits.completing _), add_of_lt hfits.tip]
  dsimp only [bind, Except.bind]
  generalize List.filter _ _ = held
  cases held with
  | nil => rfl
  | cons first rest => rfl

theorem history_eq (hfits : s.Fits birthday tip) {chainTip turns : Nat} (hchain : chainTip ≤ tip + 1) {next : Nat}
    (hturns : chainTip ≤ next + turns) {turns' : Nat} (hturns' : chainTip ≤ next + turns')
    : Checked.history s birthday tip chainTip turns' next = .ok (s.history birthday tip chainTip turns next) := by
  induction turns generalizing next turns' with
  | zero =>
    unfold Checked.history history
    rw [if_neg (by omega)]
  | succ turns ih =>
    unfold Checked.history history
    split
    . next hlt =>
      cases turns' with
      | zero => omega
      | succ turns' =>
        have hnext : next + 1 < u32Range := Nat.lt_of_le_of_lt (by omega : next + 1 ≤ tip + 1) hfits.tip
        dsimp only
        rw [range_eq hfits, add_of_lt hnext]
        dsimp only [bind, Except.bind]
        rw [clamp_of_le (by omega)]
        dsimp only
        rw [ih (by omega) (by omega)]
        rfl
    . rfl

theorem tile_history {chainTip : Nat} {turns next : Nat} (hnext : next ≤ chainTip) (hturns : chainTip ≤ next + turns)
    : Tile next (s.history birthday tip chainTip turns next) chainTip := by
  induction turns generalizing next with
  | zero =>
    show next = chainTip
    omega
  | succ turns ih =>
    unfold history
    split
    . refine ⟨rfl, ?_, ih ?_ ?_⟩
      . dsimp only
        omega
      . omega
      . omega
    . show next = chainTip
      omega

end Checked

/--
The ranges hold each block from the birthday to the tip once. The wallet starts at its birthday, goes on at
the tip, if there is anything left of its shard, and takes the rest in ascending order.
-/
structure StreamsOnce (birthday tip : Nat) (order : List (Nat × Nat)) : Prop where
  nonempty : ∀ r ∈ order, r.1 < r.2
  disjoint : order.Pairwise Tiles.Disjoint
  union : ∀ height, (∃ r ∈ order, Within r height) ↔ birthday ≤ height ∧ height ≤ tip
  layout : ∃ verified chainTip rest, Tile verified rest chainTip ∧
    order = (birthday, verified) :: ((if chainTip ≤ tip then [(chainTip, tip + 1)] else []) ++ rest)

theorem StreamsOnce.of_tile {birthday tip verified chainTip : Nat} {rest : List (Nat × Nat)} (hlt : birthday < verified)
    (hchain : chainTip ≤ tip + 1) (hrest : Tile verified rest chainTip)
    : StreamsOnce birthday tip
        ((birthday, verified) :: ((if chainTip ≤ tip then [(chainTip, tip + 1)] else []) ++ rest)) := by
  have hlast : Tile chainTip (if chainTip ≤ tip then [(chainTip, tip + 1)] else []) (tip + 1) := by
    split
    . next hle => exact ⟨rfl, Nat.lt_succ_of_le hle, rfl⟩
    . show chainTip = tip + 1
      omega
  -- In ascending order, the shard of the tip comes last.
  have htile : Tile birthday ((birthday, verified) :: (rest ++ if chainTip ≤ tip then [(chainTip, tip + 1)] else []))
      (tip + 1) := ⟨rfl, hlt, hrest.append hlast⟩
  have hperm := (@List.perm_append_comm _ rest
    (if chainTip ≤ tip then [(chainTip, tip + 1)] else [])).cons (birthday, verified)
  refine ⟨?_, ?_, ?_, ⟨verified, chainTip, rest, hrest, rfl⟩⟩
  . intro r hr
    exact htile.lt r (hperm.mem_iff.mpr hr)
  . exact (hperm.pairwise_iff Tiles.Disjoint.symm).mp htile.disjoint
  . intro height
    have hwithin := htile.within_iff height
    simp only [hperm.mem_iff] at hwithin
    rw [hwithin, Nat.lt_succ_iff]

section ScanOrder

variable {s : Shards} {birthday tip : Nat}

def lowest (s : Shards) (birthday tip : Nat) : Nat :=
  pools.foldl (fun low pool => min low (s.range pool tip birthday tip).1) (s.range .sapling tip birthday tip).1

theorem min?_starts (s : Shards) (birthday tip default : Nat)
    : (pools.map fun pool => (s.range pool tip birthday tip).1).min?.getD default = s.lowest birthday tip := by
  simp [lowest, pools, List.min?]

theorem filter_order {verified chainTip : Nat} {rest : List (Nat × Nat)} (hlt : birthday < verified)
    (hrest : Tile verified rest chainTip)
    : ((birthday, verified) :: (chainTip, tip + 1) :: rest).filter (fun r => r.1 < r.2)
        = (birthday, verified) :: ((if chainTip ≤ tip then [(chainTip, tip + 1)] else []) ++ rest) := by
  have hkept : rest.filter (fun r => r.1 < r.2) = rest := by
    rw [List.filter_eq_self]
    intro r hr
    exact decide_eq_true (hrest.lt r hr)
  rw [List.filter_cons_of_pos (by simpa using hlt)]
  split
  . next hle =>
    rw [List.filter_cons_of_pos (by simpa using Nat.lt_succ_of_le hle), hkept]
    rfl
  . next hgt =>
    rw [List.filter_cons_of_neg (by simp; omega), hkept]
    rfl

theorem scanOrder_streamsOnce (hle : birthday ≤ tip) : StreamsOnce birthday tip (s.scanOrder birthday tip) := by
  unfold scanOrder
  rw [if_neg (by omega)]
  have hverified : birthday < min (birthday + verifyBlocks) (tip + 1) := by
    unfold verifyBlocks
    omega
  dsimp only
  rw [filter_order hverified]
  . exact .of_tile hverified (Nat.min_le_right _ _) (tile_history (by omega) (by omega))
  . exact tile_history (by omega) (by omega)

theorem checked_scanOrder_eq (hfits : s.Fits birthday tip) {turns : Nat} (hturns : tip + 1 ≤ birthday + turns)
    : Checked.scanOrder s birthday tip turns = .ok (s.scanOrder birthday tip) := by
  unfold Checked.scanOrder scanOrder
  split
  . rfl
  . have hstarts : (pools.mapM fun pool => return (← Checked.range s pool tip birthday tip).1 : Except Checked.Stop _)
        = .ok (pools.map fun pool => (s.range pool tip birthday tip).1) := by
      simp only [pools, range_eq hfits]
      rfl
    rw [add_of_lt hfits.birthday, add_of_lt hfits.tip, hstarts]
    dsimp only [bind, Except.bind]
    rw [min?_starts, clamp_of_le (Nat.min_le_right _ _)]
    dsimp only
    rw [@history_eq _ _ _ hfits _ (min (max (s.lowest birthday tip) (min (birthday + verifyBlocks) (tip + 1))) (tip + 1)
      - min (birthday + verifyBlocks) (tip + 1))]
    . rfl
    . exact Nat.min_le_right _ _
    . omega
    . omega

/--
`scan_order` ends, for every activation of the pools and every roots that the server lists, and streams
nothing above the tip and each block up to the tip once.
-/
theorem scanOrder_once (s : Shards) {birthday tip : Nat} (hfits : s.Fits birthday tip)
    : ∃ order, (∀ turns, tip + 1 ≤ birthday + turns → Checked.scanOrder s birthday tip turns = .ok order) ∧
        (tip < birthday → order = []) ∧ (birthday ≤ tip → StreamsOnce birthday tip order) := by
  refine ⟨s.scanOrder birthday tip, fun _ => checked_scanOrder_eq hfits, ?_, scanOrder_streamsOnce⟩
  intro hlt
  exact if_pos hlt

def shuffled : Shards where
  activations
    | .sapling => 40
    | .orchard => 10
    | .ironwood => 30
  completing
    | .sapling => [90, 45, 45]
    | .orchard => [20, 5]
    | .ironwood => []

theorem shuffled_scanOrder_once
    : ∃ order, (∀ turns, 101 ≤ 12 + turns → Checked.scanOrder shuffled 12 100 turns = .ok order) ∧
        (100 < 12 → order = []) ∧ (12 ≤ 100 → StreamsOnce 12 100 order) := by
  apply scanOrder_once shuffled
  refine ⟨by decide, by decide, ?_⟩
  intro pool
  cases pool <;> decide

end ScanOrder

end Shards
end Loadtest
