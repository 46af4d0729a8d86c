import Ztest.Qos.Ledger.Fleet

namespace Qos
namespace Ledger

variable {leases leases' : Listing} {pods : List Pod} {id : String}
  {allocatable budget committed demand : Resources} {d : Dim}

-- What a list of leases reserves, without an upper bound.
def reserved (leases : Listing) (d : Dim) : Nat := (leases.map fun l => (reservationOf l.2).amt d).sum

def others (leases : Listing) (id : String) : Listing := leases.filter (·.1 ≠ id)

-- The leases that share the cluster.
def sharers (leases : Listing) : Nat := (leases.filter (·.2.kind ≠ .claim)).length

def usable (allocatable : Resources) (leases : Listing) (pods : List Pod) (d : Dim) : Nat :=
  allocatable.amt d - (splitUsage pods leases).unreserved.amt d

/--
The same leases, with the reservations of all but `id` raised.
-/
def Raised (id : String) (leases leases' : Listing) : Prop :=
  List.Forall₂ (fun l l' => l.1 = l'.1 ∧ l.2.kind = l'.2.kind ∧
    (l.1 ≠ id → ∀ d, (reservationOf l.2).amt d ≤ (reservationOf l'.2).amt d)) leases leases'

/--
What `reserve_from_state` promises on a snapshot.
-/
structure SafeFair (leases : Listing) (pods : List Pod) (id : String) (allocatable budget committed demand : Resources)
    : Prop where
  floor : ∀ d, committed.amt d ≤ (reserveFromState leases pods id allocatable budget committed demand).amt d
  bounded : ∀ d, (reserveFromState leases pods id allocatable budget committed demand).amt d ≤
    max (committed.amt d) (min (min (demand.amt d) (budget.amt d))
      (min (usable allocatable leases pods d / max (sharers leases) 1)
        (usable allocatable leases pods d - reserved (others leases id) d)))
  monotone : ∀ allocatable' budget' demand', (∀ d, allocatable.amt d ≤ allocatable'.amt d) →
    (∀ d, budget.amt d ≤ budget'.amt d) → (∀ d, demand.amt d ≤ demand'.amt d) → ∀ d,
    (reserveFromState leases pods id allocatable budget committed demand).amt d ≤
      (reserveFromState leases pods id allocatable' budget' committed demand').amt d
  antitone : ∀ leases', Raised id leases leases' → ∀ d,
    (reserveFromState leases' pods id allocatable budget committed demand).amt d ≤
      (reserveFromState leases pods id allocatable budget committed demand).amt d
  safe : ∀ d, d.indexed = true →
    reserved leases d + (splitUsage pods leases).unreserved.amt d ≤ allocatable.amt d →
    committed.amt d ≤ (reservedOf leases id).amt d →
    reserved (others leases id) d + (reserveFromState leases pods id allocatable budget committed demand).amt d
      + (splitUsage pods leases).unreserved.amt d ≤ allocatable.amt d
  charged : ∀ d, footprints (pods.filter podHoldsCapacity) d < 2 ^ 64 →
    (splitUsage pods leases).unreserved.amt d + (splitUsage pods leases).byRun.weight (fun _ r => r.amt d) =
      footprints (pods.filter podHoldsCapacity) d

theorem amt_share (r : Resources) (n : UInt64) (d : Dim)
    : (Resources.new (r.cpuMilli / n) (r.memBytes / n) (r.diskBps / n) (r.diskIops / n)).amt d =
        if d = .diskBytes then 0 else r.amt d / n.toNat := by
  cases d with
  | diskBytes => rfl
  | _ => exact UInt64.toNat_div ..

theorem toNat_activeRuns (h : leases.length < 2 ^ 64) : (max (activeRuns leases) 1).toNat = max (sharers leases) 1 := by
  have hle : sharers leases ≤ leases.length := List.length_filter_le ..
  rw [UInt64.toNat_max, activeRuns, UInt64.toNat_ofNat']
  rw [sharers] at hle ⊢
  rw [Nat.mod_eq_of_lt (by omega)]
  rfl

theorem amt_reserveFromState (h : leases.length < 2 ^ 64)
    : (reserveFromState leases pods id allocatable budget committed demand).amt d =
        max (min (min (min (demand.amt d)
            (if d = .diskBytes then 0 else usable allocatable leases pods d / max (sharers leases) 1)) (budget.amt d))
          (usable allocatable leases pods d - reserved (others leases id) d)) (committed.amt d) := by
  unfold reserveFromState fairReserve
  simp only [Resources.amt_max, Resources.amt_min, amt_share, Resources.amt_saturatingSub, toNat_activeRuns h,
    amt_sumReservations]
  have halloc := allocatable.amt_le d
  have hothers : allocatable.amt d - (splitUsage pods leases).unreserved.amt d
      - min ((leases.filter (·.1 ≠ id)).map fun l => (reservationOf l.2).amt d).sum (2 ^ 64 - 1) =
      usable allocatable leases pods d - reserved (others leases id) d := by
    unfold usable reserved others
    omega
  rw [hothers]
  rfl

theorem reserved_others_add (hnames : (leases.map (·.1)).Nodup) (id : String) (d : Dim)
    : reserved (others leases id) d + (reservedOf leases id).amt d = reserved leases d := by
  induction leases with
  | nil => simp [reserved, others, reservedOf]
  | cons l leases ih =>
    rw [List.map_cons, List.nodup_cons] at hnames
    have hrest := ih hnames.2
    have hcons : reserved (l :: leases) d = (reservationOf l.2).amt d + reserved leases d := by
      simp [reserved]
    rw [hcons, ← hrest]
    by_cases hid : l.1 = id
    . -- The names are distinct, so that the lease of `id` is the first one.
      have hnone : leases.reverse.find? (·.1 = id) = none := by
        rw [List.find?_eq_none]
        intro l' hl' heq
        apply hnames.1
        rw [hid, ← of_decide_eq_true heq]
        exact List.mem_map_of_mem (List.mem_reverse.mp hl')
      have hown : reservedOf (l :: leases) id = reservationOf l.2 := by
        simp [reservedOf, List.find?_append, hnone, hid]
      have hzero : reservedOf leases id = .zero := by
        simp [reservedOf, hnone]
      rw [hown, hzero, Resources.amt_zero]
      simp [others, hid]
      omega
    . have hown : reservedOf (l :: leases) id = reservedOf leases id := by
        simp only [reservedOf, List.reverse_cons, List.find?_append]
        cases leases.reverse.find? (·.1 = id) <;> simp [hid]
      have hothers : reserved (others (l :: leases) id) d = (reservationOf l.2).amt d + reserved (others leases id) d := by
        simp [reserved, others, hid]
      rw [hown, hothers]
      omega

theorem Raised.names (h : Raised id leases leases') : leases.map (·.1) = leases'.map (·.1) := by
  induction h with
  | nil => rfl
  | cons hl _ ih => rw [List.map_cons, List.map_cons, hl.1, ih]

theorem Raised.sharers (h : Raised id leases leases') : sharers leases = sharers leases' := by
  induction h with
  | nil => rfl
  | @cons l l' _ _ hl _ ih =>
    unfold Ledger.sharers at ih ⊢
    rw [List.filter_cons, List.filter_cons, hl.2.1]
    split
    . rw [List.length_cons, List.length_cons, ih]
    . exact ih

theorem Raised.reserved_le (h : Raised id leases leases') (d : Dim)
    : reserved (others leases id) d ≤ reserved (others leases' id) d := by
  induction h with
  | nil => exact Nat.le_refl _
  | @cons l l' rest rest' hl _ ih =>
    unfold reserved others at ih ⊢
    rw [List.filter_cons, List.filter_cons, ← hl.1]
    split
    . next hne =>
      have hle := hl.2.2 (of_decide_eq_true hne) d
      simp only [List.map_cons, List.sum_cons]
      omega
    . exact ih

theorem splitUsage_congr (h : leases.map (·.1) = leases'.map (·.1)) (pods : List Pod)
    : splitUsage pods leases = splitUsage pods leases' := by
  have hadd : Usage.addPod leases = Usage.addPod leases' := by
    funext usage pod
    rw [Usage.addPod, Usage.addPod, leaseOf, leaseOf, h]
  rw [splitUsage, splitUsage, hadd]

theorem Usage.addPod_total {usage : Usage} {pod : Pod}
    (h : usage.unreserved.amt d + usage.byRun.weight (fun _ r => r.amt d) + (podFootprint pod).amt d < 2 ^ 64)
    : (usage.addPod leases pod).unreserved.amt d + (usage.addPod leases pod).byRun.weight (fun _ r => r.amt d) =
        usage.unreserved.amt d + usage.byRun.weight (fun _ r => r.amt d) + (podFootprint pod).amt d := by
  unfold Usage.addPod
  split
  . next run _ =>
    dsimp only
    cases hrun : usage.byRun.lookup run with
    | none =>
      have hnot : run ∉ usage.byRun := AList.lookup_eq_none.mp hrun
      rw [AList.weight_insert_of_notMem _ hnot, Option.getD_none,
        Resources.amt_saturatingAdd_of_le (by rw [Resources.amt_zero]; omega), Resources.amt_zero]
      omega
    | some charged =>
      have herase : usage.byRun.weight (fun _ r => r.amt d) =
          charged.amt d + (usage.byRun.erase run).weight (fun _ r => r.amt d) :=
        AList.weight_erase_of_lookup _ hrun
      rw [AList.weight_insert, Option.getD_some, Resources.amt_saturatingAdd_of_le (by omega)]
      omega
  . dsimp only
    rw [Resources.amt_saturatingAdd_of_le (by omega)]
    omega

theorem splitUsage_total (h : footprints (pods.filter podHoldsCapacity) d < 2 ^ 64)
    : (splitUsage pods leases).unreserved.amt d + (splitUsage pods leases).byRun.weight (fun _ r => r.amt d) =
        footprints (pods.filter podHoldsCapacity) d := by
  suffices hgo : ∀ (l : List Pod) (usage : Usage),
      usage.unreserved.amt d + usage.byRun.weight (fun _ r => r.amt d) + footprints l d < 2 ^ 64 →
      (l.foldl (Usage.addPod leases) usage).unreserved.amt d
          + (l.foldl (Usage.addPod leases) usage).byRun.weight (fun _ r => r.amt d) =
        usage.unreserved.amt d + usage.byRun.weight (fun _ r => r.amt d) + footprints l d by
    have hfold := hgo (pods.filter podHoldsCapacity) ⟨.zero, ∅⟩
    simp only [Resources.amt_zero, AList.weight_empty, Nat.zero_add] at hfold
    exact hfold h
  intro l
  induction l with
  | nil =>
    intro usage _
    simp [footprints]
  | cons pod l ih =>
    intro usage hsum
    have hcons : footprints (pod :: l) d = (podFootprint pod).amt d + footprints l d := by simp [footprints]
    rw [hcons] at hsum ⊢
    have hpod : (usage.addPod leases pod).unreserved.amt d + (usage.addPod leases pod).byRun.weight (fun _ r => r.amt d) =
        usage.unreserved.amt d + usage.byRun.weight (fun _ r => r.amt d) + (podFootprint pod).amt d :=
      Usage.addPod_total (by omega)
    rw [List.foldl_cons, ih _ (by omega), hpod]
    omega

section Granted

variable {demanded demanded' share share' allowed allowed' room room' floor : Nat}

theorem share_le (d : Dim) (share : Nat) : (if d = .diskBytes then 0 else share) ≤ share := by
  split
  . exact Nat.zero_le _
  . exact Nat.le_refl _

theorem share_mono (d : Dim) (h : share ≤ share')
    : (if d = .diskBytes then 0 else share) ≤ if d = .diskBytes then 0 else share' := by
  split
  . exact Nat.le_refl _
  . exact h

theorem granted_le (h : share ≤ share')
    : min (min (min demanded share) allowed) room ≤ min (min demanded allowed) (min share' room) := by
  have hboth : min (min demanded share) allowed ≤ min demanded share := min_le_left _ _
  refine le_min (le_min ?_ ?_) (le_min ?_ (min_le_right _ _))
  . exact (min_le_left _ _).trans (hboth.trans (min_le_left _ _))
  . exact (min_le_left _ _).trans (min_le_right _ _)
  . exact (min_le_left _ _).trans (hboth.trans ((min_le_right _ _).trans h))

theorem granted_mono (hdemanded : demanded ≤ demanded') (hshare : share ≤ share') (hallowed : allowed ≤ allowed')
    (hroom : room ≤ room')
    : max (min (min (min demanded share) allowed) room) floor ≤
        max (min (min (min demanded' share') allowed') room') floor :=
  max_le_max_right _ (min_le_min (min_le_min (min_le_min hdemanded hshare) hallowed) hroom)

end Granted

/--
One reservation step is safe and fair on any snapshot with distinct names.
-/
theorem reserveFromState_safeFair (leases : Listing) (pods : List Pod) (id : String)
    (allocatable budget committed demand : Resources) (hnames : (leases.map (·.1)).Nodup) (hlength : leases.length < 2 ^ 64)
    : SafeFair leases pods id allocatable budget committed demand := by
  constructor
  . exact committed_le_reserveFromState leases pods id allocatable budget committed demand
  . intro d
    rw [amt_reserveFromState hlength, max_comm]
    exact max_le_max_left _ (granted_le (share_le _ _))
  . intro allocatable' budget' demand' halloc hbudget hdemand d
    rw [amt_reserveFromState hlength, amt_reserveFromState hlength]
    have husable : usable allocatable leases pods d ≤ usable allocatable' leases pods d :=
      Nat.sub_le_sub_right (halloc d) _
    have hshare := share_mono d (Nat.div_le_div_right (c := max (sharers leases) 1) husable)
    exact granted_mono (hdemand d) hshare (hbudget d) (Nat.sub_le_sub_right husable _)
  . intro leases' hraised d
    have hlength' : leases'.length < 2 ^ 64 := by
      rw [← List.Forall₂.length_eq hraised]
      exact hlength
    rw [amt_reserveFromState hlength, amt_reserveFromState hlength']
    unfold usable
    rw [splitUsage_congr hraised.names, hraised.sharers]
    have hroom := Nat.sub_le_sub_left (hraised.reserved_le d)
      (allocatable.amt d - (splitUsage pods leases').unreserved.amt d)
    exact granted_mono (le_refl _) (le_refl _) (le_refl _) hroom
  . intro d _ hbefore hwithin
    have hsplit := reserved_others_add hnames id d
    have hle : (reserveFromState leases pods id allocatable budget committed demand).amt d ≤
        max (usable allocatable leases pods d - reserved (others leases id) d) (committed.amt d) := by
      rw [amt_reserveFromState hlength]
      exact max_le_max_right _ (min_le_right _ _)
    unfold usable at hle
    omega
  . intro d
    exact splitUsage_total

namespace Sample

-- Two runs share the cluster, a third one has only a claim.
def three : Listing :=
  [("a", ⟨.new 6000 (16 * gib) 0 0, .run⟩), ("b", ⟨.new 8000 (24 * gib) 0 0, .build⟩), ("c", ⟨.zero, .claim⟩)]

def twoPods : List Pod :=
  [⟨none, some .running, some ⟨[⟨1000, 2 * gib, false⟩], []⟩⟩, ⟨some "a", some .running, some ⟨[⟨2000, 4 * gib, false⟩], []⟩⟩]

end Sample

theorem three_leases_safeFair
    : SafeFair Sample.three Sample.twoPods "a" (.new 16000 (64 * gib) 0 0) (.new 12000 (48 * gib) 0 0)
        (.new 2000 (4 * gib) 0 0) (.new 10000 (20 * gib) 0 0) :=
  reserveFromState_safeFair _ _ _ _ _ _ _ (by decide) (by decide)

-- The share is 7500 millicores, the headroom is 7000.
example : (reserveFromState Sample.three Sample.twoPods "a" (.new 16000 (64 * gib) 0 0) (.new 12000 (48 * gib) 0 0)
    (.new 2000 (4 * gib) 0 0) (.new 10000 (20 * gib) 0 0)).cpuMilli = 7000 := by
  decide +kernel

end Ledger
end Qos
