import Ztest.Qos.Renewal.Impl

namespace Qos
namespace Renewal
namespace State

/--
No request comes too late: no write of a reservation after its release, no delete of a sweep after the
lease was renewed. And no delete of a release fails while the lease is there.
-/
def InTime (s : State) : Event → Prop
  | .land k => (s.reservations k).phase ≠ .released
  | .deleteFailed k => s.leases.lookup (s.reservations k).id = none
  | .sweepDelete j =>
    match s.sweeps j with
    | .deleting ((name, listed) :: _) => ∀ l, s.leases.lookup name = some l → l.renewTime ≤ listed
    | _ => True
  | _ => True

structure Inv (s : State) : Prop where
  writer : ∀ id l, s.leases.lookup id = some l →
    l.writer < s.count ∧ (s.reservations l.writer).id = id ∧ (s.reservations l.writer).phase ≠ .released
  earlier : ∀ k j, k < j → j < s.count → (s.reservations k).id = (s.reservations j).id →
    (s.reservations k).phase = .released
  unused : ∀ k, s.count ≤ k → (s.reservations k).outgoing = none
  started : ∀ j now, s.sweeps j = .started now → now ≤ s.clock
  listed : ∀ j victims, s.sweeps j = .deleting victims → ∀ v ∈ victims, v.2 + leaseDuration < s.clock

theorem Inv.init (clock : Nat) : (State.init clock).Inv where
  writer _ _ h := by cases h
  earlier _ _ _ h := absurd h (Nat.not_lt_zero _)
  unused _ _ := rfl
  started _ _ h := by cases h
  listed _ _ h := by cases h

theorem put_self (s : State) (k : Nat) (r : Reservation) : (s.put k r).reservations k = r := Function.update_self ..

theorem put_of_ne (s : State) {j k : Nat} (r : Reservation) (h : j ≠ k)
    : (s.put k r).reservations j = s.reservations j :=
  Function.update_of_ne h ..

section Updates

variable {s : State} (h : s.Inv)
include h

theorem Inv.lt_count {k : Nat} {w : Write} (hw : (s.reservations k).outgoing = some w) : k < s.count := by
  apply Nat.lt_of_not_le
  intro hk
  rw [h.unused k hk] at hw
  cases hw

theorem Inv.put {k : Nat} {r : Reservation} (hk : k < s.count) (hid : r.id = (s.reservations k).id)
    (hphase : r.phase = .released ↔ (s.reservations k).phase = .released)
    : (s.put k r).Inv := by
  have hsame : ∀ j, ((s.put k r).reservations j).id = (s.reservations j).id ∧
      (((s.put k r).reservations j).phase = .released ↔ (s.reservations j).phase = .released) := by
    intro j
    by_cases hj : j = k
    . subst hj
      rw [put_self]
      exact ⟨hid, hphase⟩
    . rw [put_of_ne s r hj]
      exact ⟨rfl, Iff.rfl⟩
  refine ⟨?_, ?_, ?_, h.started, h.listed⟩
  . intro id l hl
    rcases h.writer id l hl with ⟨hlt, hl, hnot⟩
    exact ⟨hlt, (hsame l.writer).1.trans hl, fun hr => hnot ((hsame l.writer).2.mp hr)⟩
  . intro i j hij hj hids
    rw [(hsame i).1, (hsame j).1] at hids
    exact (hsame i).2.mpr (h.earlier i j hij hj hids)
  . intro j hj
    have hne : j ≠ k := by
      have : s.count ≤ j := hj
      omega
    rw [put_of_ne s r hne]
    exact h.unused j hj

theorem Inv.erase (name : String) : ({ s with leases := s.leases.erase name } : State).Inv := by
  refine ⟨?_, h.earlier, h.unused, h.started, h.listed⟩
  intro id l hl
  by_cases hid : id = name
  . subst hid
    rw [AList.lookup_erase] at hl
    cases hl
  . rw [AList.lookup_erase_ne hid] at hl
    exact h.writer id l hl

theorem Inv.insert {k : Nat} (hk : k < s.count) (hphase : (s.reservations k).phase ≠ .released) (w : Write)
    : ({ s with leases := s.leases.insert (s.reservations k).id ⟨w.reserve, w.renewTime, k⟩ } : State).Inv := by
  refine ⟨?_, h.earlier, h.unused, h.started, h.listed⟩
  intro id l hl
  by_cases hid : id = (s.reservations k).id
  . subst hid
    rw [AList.lookup_insert] at hl
    cases hl
    exact ⟨hk, rfl, hphase⟩
  . rw [AList.lookup_insert_ne hid] at hl
    exact h.writer id l hl

theorem Inv.release {k : Nat} (hk : k < s.count) (hnone : s.leases.lookup (s.reservations k).id = none)
    : (s.put k { s.reservations k with phase := .released }).Inv := by
  have hid : ∀ j, ((s.put k { s.reservations k with phase := .released }).reservations j).id =
      (s.reservations j).id := by
    intro j
    by_cases hj : j = k
    . subst hj
      rw [put_self]
    . rw [put_of_ne s _ hj]
  refine ⟨?_, ?_, ?_, h.started, h.listed⟩
  . intro id l hl
    rcases h.writer id l hl with ⟨hlt, hwriter, hnot⟩
    have hne : l.writer ≠ k := by
      rintro rfl
      have hl' : s.leases.lookup id = some l := hl
      rw [hwriter, hl'] at hnone
      cases hnone
    rw [hid, put_of_ne s _ hne]
    exact ⟨hlt, hwriter, hnot⟩
  . intro i j hij hj hids
    rw [hid, hid] at hids
    by_cases hi : i = k
    . subst hi
      rw [put_self]
    . rw [put_of_ne s _ hi]
      exact h.earlier i j hij hj hids
  . intro j hj
    have hne : j ≠ k := by
      have : s.count ≤ j := hj
      omega
    rw [put_of_ne s _ hne]
    exact h.unused j hj

theorem Inv.acquire {s' : State} {id : String} (hact : s.acquire id = some s') : s'.Inv := by
  unfold State.acquire at hact
  split at hact
  . next hdone =>
    cases hact
    have hold : ∀ {j}, j < s.count → (s.put s.count ⟨id, .acquiring, none⟩).reservations j = s.reservations j := by
      intro j hj
      exact put_of_ne s _ (Nat.ne_of_lt hj)
    refine ⟨?_, ?_, ?_, h.started, h.listed⟩
    . intro name l hl
      rcases h.writer name l hl with ⟨hlt, hwriter⟩
      dsimp only
      rw [hold hlt]
      exact ⟨Nat.lt_succ_of_lt hlt, hwriter⟩
    . intro i j hij hj hids
      dsimp only at hj hids ⊢
      have hi : i < s.count := by omega
      rw [hold hi] at hids ⊢
      by_cases hlast : j = s.count
      . subst hlast
        rw [put_self] at hids
        exact hdone i hi hids
      . have hj' : j < s.count := by omega
        rw [hold hj'] at hids
        exact h.earlier i j hij hj' hids
    . intro j hj
      dsimp only at hj ⊢
      rw [put_of_ne s _ (by omega)]
      exact h.unused j (by omega)
  . cases hact

theorem Inv.setSweep {j : Nat} {sweep : Sweep} (hstarted : ∀ now, sweep = .started now → now ≤ s.clock)
    (hlisted : ∀ victims, sweep = .deleting victims → ∀ v ∈ victims, v.2 + leaseDuration < s.clock)
    : (s.setSweep j sweep).Inv := by
  have hsweep : ∀ i, (s.setSweep j sweep).sweeps i = if i = j then sweep else s.sweeps i := by
    intro i
    exact Function.update_apply ..
  refine ⟨h.writer, h.earlier, h.unused, ?_, ?_⟩
  . intro i now hi
    rw [hsweep] at hi
    split at hi
    . exact hstarted now hi
    . exact h.started i now hi
  . intro i victims hi
    rw [hsweep] at hi
    split at hi
    . exact hlisted victims hi
    . exact h.listed i victims hi

theorem Inv.sweepStep {s' : State} {event : Event} (hact : s.sweepStep event = some s') : s'.Inv := by
  cases event with
  | sweepNow j =>
    simp only [State.sweepStep, Option.ite_none_right_eq_some, Option.some.injEq] at hact
    rcases hact with ⟨_, rfl⟩
    apply h.setSweep
    . intro now hnow
      cases hnow
      exact Nat.le_refl _
    . intro victims hvictims
      cases hvictims
  | sweepList j =>
    unfold State.sweepStep at hact
    dsimp only at hact
    split at hact
    . next now hnow =>
      cases hact
      apply h.setSweep
      . intro now' hnow'
        cases hnow'
      . intro victims hvictims v hv
        cases hvictims
        rcases List.mem_map.mp hv with ⟨e, he, rfl⟩
        have hexpired := (List.mem_filter.mp he).2
        rw [isExpired, isExpired_some] at hexpired
        have hbefore := h.started j now hnow
        dsimp only
        omega
    . cases hact
  | sweepDelete j =>
    unfold State.sweepStep at hact
    dsimp only at hact
    split at hact
    . next name listed rest hj =>
      cases hact
      apply Inv.setSweep (h.erase name)
      . intro now hnow
        cases hnow
      . intro victims hvictims v hv
        cases hvictims
        exact h.listed j _ hj v (List.mem_cons_of_mem _ hv)
    . cases hact
      apply h.setSweep
      . intro now hnow
        cases hnow
      . intro victims hvictims
        cases hvictims
    . cases hact
  | sweepFailed j =>
    unfold State.sweepStep at hact
    dsimp only at hact
    split at hact
    . next victim rest hj =>
      cases hact
      apply h.setSweep
      . intro now hnow
        cases hnow
      . intro victims hvictims v hv
        cases hvictims
        exact h.listed j _ hj v (List.mem_cons_of_mem _ hv)
    . cases hact
  | _ => cases hact

theorem Inv.act {s' : State} {event : Event} (htime : s.InTime event) (hact : s.act event = some s') : s'.Inv := by
  cases event with
  | tick seconds =>
    cases hact
    refine ⟨h.writer, h.earlier, h.unused, ?_, ?_⟩
    . intro j now hj
      exact Nat.le_add_right_of_le (h.started j now hj)
    . intro j victims hj v hv
      exact Nat.lt_add_right seconds (h.listed j victims hj v hv)
  | acquire id => exact h.acquire hact
  | send k reserve =>
    simp only [State.act, State.send, Option.ite_none_right_eq_some, Option.some.injEq] at hact
    rcases hact with ⟨⟨hk, _⟩, rfl⟩
    exact h.put hk rfl Iff.rfl
  | acquired k =>
    simp only [State.act, Option.ite_none_right_eq_some, Option.some.injEq] at hact
    rcases hact with ⟨⟨hk, hphase, _⟩, rfl⟩
    refine h.put hk ?_ ?_
    . rfl
    . rw [hphase]
      simp
  | land k =>
    rcases Option.map_eq_some_iff.mp hact with ⟨w, hw, rfl⟩
    have hput := Inv.put (r := { s.reservations k with outgoing := none }) (h.insert (h.lt_count hw) htime w)
      (h.lt_count hw) rfl Iff.rfl
    exact hput
  | lose k =>
    rcases Option.map_eq_some_iff.mp hact with ⟨w, hw, rfl⟩
    exact h.put (h.lt_count hw) rfl Iff.rfl
  | abort k =>
    simp only [State.act, State.abort, Option.ite_none_right_eq_some, Option.some.injEq] at hact
    rcases hact with ⟨⟨hk, hphase⟩, rfl⟩
    refine h.put hk ?_ ?_
    . rfl
    . rcases hphase with hphase | ⟨hphase, _⟩
      . rw [hphase]
        simp
      . rw [hphase]
        simp
  | delete k =>
    simp only [State.act, State.delete, Option.ite_none_right_eq_some, Option.some.injEq] at hact
    rcases hact with ⟨⟨hk, _⟩, rfl⟩
    exact Inv.release (h.erase (s.reservations k).id) hk (AList.lookup_erase _ _)
  | deleteFailed k =>
    simp only [State.act, State.delete, Option.ite_none_right_eq_some, Option.some.injEq] at hact
    rcases hact with ⟨⟨hk, _⟩, rfl⟩
    exact h.release hk htime
  | crash k =>
    simp only [State.act, Option.ite_none_right_eq_some, Option.some.injEq] at hact
    rcases hact with ⟨⟨hk, hphase⟩, rfl⟩
    refine h.put hk ?_ ?_
    . rfl
    . simp [hphase]
  | sweepNow j => exact h.sweepStep (show s.sweepStep (.sweepNow j) = some s' from hact)
  | sweepList j => exact h.sweepStep (show s.sweepStep (.sweepList j) = some s' from hact)
  | sweepDelete j => exact h.sweepStep (show s.sweepStep (.sweepDelete j) = some s' from hact)
  | sweepFailed j => exact h.sweepStep (show s.sweepStep (.sweepFailed j) = some s' from hact)

end Updates

theorem Inv.step {s s' : State} {event : Event} {r : Unit} (h : s.Inv) (htime : s.InTime event)
    (hstep : s.step event = .ok (s', r))
    : s'.Inv := by
  unfold State.step at hstep
  split at hstep
  . next t ht =>
    cases hstep
    exact h.act htime ht
  . cases hstep

namespace Sample

def build : Resources := .new 4000 8589934592 0 0

def full : Resources := .new 16000 34359738368 0 0

-- A run is late with its renewal, which comes between the listing and the delete.
def stalled : List Event :=
  [.acquire "run", .send 0 full, .land 0, .acquired 0, .tick 61, .sweepNow 0, .sweepList 0, .send 0 full, .land 0]

end Sample

end State
end Renewal
end Qos
