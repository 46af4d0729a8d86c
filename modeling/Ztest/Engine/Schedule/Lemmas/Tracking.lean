import Ztest.Engine.Schedule.Impl
import Ztest.Qos.Scheduler.Lemmas.WorkConserving

/-!
This module shows that the run loop never loses or duplicates a test. A test lives in the event log,
in `inflight`, in `ready` or in `parked`, and the scheduler has its own queue and lease table.
`Tracked` relates the six of them. It has two parameters for the middle of an arm: grants that are
not placed yet, and tests that left `inflight` and have no new place yet.
-/

namespace Engine
namespace LoopState

open Qos

variable {cfg : LoopConfig} {items : List WorkItem} {s s' : LoopState} {pend : List Admitted}
  {moving : List WorkItem}

section Rules

/--
The rule for `pump`: what every spawn of the first ready test keeps.
-/
theorem pump_induction {I : LoopState → Prop} {now : Nat}
    (hspawn : ∀ (s : LoopState) (slot : SlotId) (item : WorkItem) (attempt : Nat)
      (rest : List (SlotId × WorkItem × Nat)), I { s with ready := (slot, item, attempt) :: rest }
      → I { s.spawnGranted now slot item attempt with ready := rest })
    (h : I s)
    : I (s.pump cfg now) := by
  suffices hgo : ∀ l (s : LoopState), I { s with ready := l } → I (pump.go cfg now s l) from hgo s.ready s h
  intro l
  induction l with
  | nil =>
    intro s h
    exact h
  | cons head rest ih =>
    intro s h
    unfold pump.go
    split
    . exact ih _ (hspawn s _ _ _ rest h)
    . exact h

/--
The rule for `admitGrants`: what placing a grant and spawning a ready test keep.
-/
theorem admitGrants_induction {I : LoopState → Prop} {grants : List Admitted} {now : Nat}
    (hplace : ∀ (s : LoopState) (g : Admitted), I s → I (s.placeGrant g))
    (hspawn : ∀ (s : LoopState) (slot : SlotId) (item : WorkItem) (attempt : Nat)
      (rest : List (SlotId × WorkItem × Nat)), I { s with ready := (slot, item, attempt) :: rest }
      → I { s.spawnGranted now slot item attempt with ready := rest })
    (h : I s)
    : I (s.admitGrants cfg grants now) := by
  have hplaced : I (s.placeGrants grants) := by
    unfold placeGrants
    induction grants generalizing s with
    | nil => exact h
    | cons g gs ih => exact ih (hplace s g h)
  unfold LoopState.admitGrants
  split
  . exact pump_induction hspawn hplaced
  . exact h

end Rules

def terminalKeys (s : LoopState) : List (String × String) :=
  s.events.filterMap TestEvent.terminalKey

def inflightItems (s : LoopState) : List WorkItem := s.inflight.entries.map (·.2.item)

def readyItems (s : LoopState) : List WorkItem := s.ready.map (·.2.1)

def parkedItems (s : LoopState) : List WorkItem := s.parked.entries.map (·.2.1)

def readySlots (s : LoopState) : List SlotId := s.ready.map (·.1)

def liveItems (s : LoopState) : List WorkItem :=
  s.inflightItems ++ s.readyItems ++ s.parkedItems

structure Tracked (cfg : LoopConfig) (items : List WorkItem) (s : LoopState) (pend : List Admitted)
    (moving : List WorkItem) : Prop where
  sched : s.sched.Sound
  keys : (s.terminalKeys ++ (s.liveItems ++ moving).map key).Perm (items.map key)
  live : ∀ item ∈ s.liveItems ++ moving, item ∈ items
  slots : s.sched.leases.keys.Perm (s.inflight.keys ++ s.readySlots ++ pend.map (·.slotId))
  waiting : s.parked.keys.Perm (pend.map (·.identity) ++ s.sched.waiting)
  parkedKey : ∀ k v, s.parked.lookup k = some v → k = key v.1
  requests : ∀ p ∈ s.sched.queue, ∃ v,
    s.parked.lookup p.req.identity = some v ∧ p.req = toRequest v.1 cfg.sa
  futs : s.futs.Perm s.inflight.keys
  finished : s.stats.finished = s.terminalKeys.length
  total : s.stats.total = items.length

@[simp]
theorem terminalKeys_emit (ev : TestEvent)
    : (s.emit ev).terminalKeys = s.terminalKeys ++ ev.terminalKey.toList := by
  unfold terminalKeys emit
  rw [List.filterMap_append]
  cases h : ev.terminalKey <;> simp [h]

theorem Tracked.map_parkedItems (h : Tracked cfg items s pend moving)
    : s.parkedItems.map key = s.parked.keys := by
  unfold parkedItems AList.keys List.keys
  rw [List.map_map]
  apply List.map_congr_left
  intro e he
  exact (h.parkedKey e.1 e.2 (AList.mem_lookup_iff.mpr he)).symm

theorem Tracked.moving_notMem (h : Tracked cfg items s pend moving) (hitems : (items.map key).Nodup)
    {item : WorkItem} (hitem : item ∈ moving)
    : key item ∉ s.parked := by
  intro hmem
  have hnodup := (h.keys.nodup_iff).mpr hitems
  rw [List.map_append, ← List.append_assoc, List.nodup_append] at hnodup
  apply hnodup.2.2 (key item) ?_ (key item) (List.mem_map_of_mem hitem) rfl
  rw [AList.mem_keys, ← h.map_parkedItems] at hmem
  unfold liveItems
  simp only [List.map_append, List.mem_append]
  exact .inr (.inr hmem)

theorem Tracked.relocate {pend' : List Admitted} {moving' : List WorkItem}
    (h : Tracked cfg items s pend moving) (hkeys : s'.terminalKeys = s.terminalKeys)
    (hstats : s'.stats = s.stats) (hlive : (s'.liveItems ++ moving').Perm (s.liveItems ++ moving))
    (hsched : s'.sched.Sound)
    (hslots : s'.sched.leases.keys.Perm (s'.inflight.keys ++ s'.readySlots ++ pend'.map (·.slotId)))
    (hwaiting : s'.parked.keys.Perm (pend'.map (·.identity) ++ s'.sched.waiting))
    (hparkedKey : ∀ k v, s'.parked.lookup k = some v → k = key v.1)
    (hrequests : ∀ p ∈ s'.sched.queue, ∃ v,
      s'.parked.lookup p.req.identity = some v ∧ p.req = toRequest v.1 cfg.sa)
    (hfuts : s'.futs.Perm s'.inflight.keys)
    : Tracked cfg items s' pend' moving' := by
  constructor
  . exact hsched
  . rw [hkeys]
    exact (List.Perm.append_left _ (hlive.map key)).trans h.keys
  . intro item hitem
    exact h.live item (hlive.mem_iff.mp hitem)
  . exact hslots
  . exact hwaiting
  . exact hparkedKey
  . exact hrequests
  . exact hfuts
  . rw [hstats, hkeys]
    exact h.finished
  . rw [hstats]
    exact h.total

theorem Tracked.of_frame (h : Tracked cfg items s pend moving)
    (hsched : s'.sched = s.sched) (hinflight : s'.inflight = s.inflight)
    (hready : s'.ready = s.ready) (hparked : s'.parked = s.parked) (hfuts : s'.futs = s.futs)
    (hstats : s'.stats = s.stats) (hkeys : s'.terminalKeys = s.terminalKeys)
    : Tracked cfg items s' pend moving := by
  apply h.relocate hkeys hstats
  . unfold liveItems inflightItems readyItems parkedItems
    rw [hinflight, hready, hparked]
  . rw [hsched]
    exact h.sched
  . rw [hsched, hinflight, readySlots, hready]
    exact h.slots
  . rw [hparked, hsched]
    exact h.waiting
  . rw [hparked]
    exact h.parkedKey
  . rw [hsched, hparked]
    exact h.requests
  . rw [hfuts, hinflight]
    exact h.futs

theorem Tracked.emit (h : Tracked cfg items s pend moving) {ev : TestEvent}
    (hev : ev.terminalKey = none)
    : Tracked cfg items (s.emit ev) pend moving := by
  have hkeys : (s.emit ev).terminalKeys = s.terminalKeys := by
    rw [terminalKeys_emit, hev]
    simp
  exact h.of_frame rfl rfl rfl rfl rfl rfl hkeys

theorem Tracked.terminal {item : WorkItem} (h : Tracked cfg items s pend (item :: moving)) {ev : TestEvent}
    (hev : ev.terminalKey = some (key item)) {stats : RunStats}
    (hfinished : stats.finished = s.stats.finished + 1) (htotal : stats.total = s.stats.total)
    : Tracked cfg items { s.emit ev with stats } pend moving := by
  have hkeys : terminalKeys { s.emit ev with stats } = s.terminalKeys ++ [key item] := by
    have := terminalKeys_emit (s := s) ev
    rw [hev] at this
    exact this
  have hlive : liveItems { s.emit ev with stats } = s.liveItems := rfl
  constructor
  . exact h.sched
  . rw [hkeys, hlive]
    refine List.Perm.trans ?_ h.keys
    rw [List.append_assoc]
    apply List.Perm.append_left
    simp only [List.map_append, List.map_cons, List.cons_append, List.nil_append]
    exact List.perm_middle.symm
  . rw [hlive]
    intro item' hitem'
    apply h.live
    simp only [List.mem_append, List.mem_cons] at hitem' ⊢
    cases hitem' with
    | inl h => exact .inl h
    | inr h => exact .inr (.inr h)
  . exact h.slots
  . exact h.waiting
  . exact h.parkedKey
  . exact h.requests
  . exact h.futs
  . show stats.finished = _
    rw [hkeys, hfinished, h.finished]
    simp
  . exact htotal.trans h.total

theorem Tracked.skip {item : WorkItem} (h : Tracked cfg items s pend (item :: moving)) (reason : SkipReason)
    : Tracked cfg items (s.skip item reason) pend moving := by
  apply h.terminal
  . rfl
  . simp only [RunStats.finished, RunStats.ran]
    omega
  . rfl

theorem Tracked.granted {item : WorkItem} (h : Tracked cfg items s pend (item :: moving)) (attempt : Nat)
    {sched : Scheduler} {slotId : SlotId} (hsound : sched.Sound)
    (hqueue : sched.queue = s.sched.queue)
    (hslots : sched.leases.keys.Perm (slotId :: s.sched.leases.keys))
    : Tracked cfg items { s with sched, ready := s.ready ++ [(slotId, item, attempt)] } pend moving := by
  apply h.relocate
  . rfl
  . rfl
  . simp only [liveItems, inflightItems, readyItems, parkedItems, List.map_append, List.map_cons,
      List.map_nil, List.append_assoc, List.cons_append, List.nil_append]
    apply List.Perm.append_left
    apply List.Perm.append_left
    exact List.perm_middle.symm
  . exact hsound
  . refine hslots.trans ((h.slots.cons slotId).trans ?_)
    simp only [readySlots, List.map_append, List.map_cons, List.map_nil, List.append_assoc,
      List.cons_append, List.nil_append]
    refine List.Perm.trans List.perm_middle.symm ?_
    apply List.Perm.append_left
    exact List.perm_middle.symm
  . unfold Scheduler.waiting
    rw [hqueue]
    exact h.waiting
  . exact h.parkedKey
  . rw [hqueue]
    exact h.requests
  . exact h.futs

theorem Tracked.queued {item : WorkItem} (h : Tracked cfg items s pend (item :: moving))
    (hitems : (items.map key).Nodup) (attempt : Nat) {sched : Scheduler} {p : Pending}
    (hsound : sched.Sound) (hreq : p.req = toRequest item cfg.sa)
    (hqueue : sched.queue = s.sched.queue ++ [p]) (hslots : sched.leases = s.sched.leases)
    : Tracked cfg items { s with sched, parked := s.parked.insert (key item) (item, attempt) }
        pend moving := by
  have hfresh : key item ∉ s.parked := h.moving_notMem hitems List.mem_cons_self
  have hidentity : p.req.identity = key item := by
    rw [hreq]
    rfl
  apply h.relocate
  . rfl
  . rfl
  . simp only [liveItems, inflightItems, readyItems, parkedItems,
      AList.entries_insert_of_notMem hfresh, List.map_cons, List.append_assoc, List.cons_append]
    apply List.Perm.append_left
    apply List.Perm.append_left
    exact List.perm_middle.symm
  . exact hsound
  . simp only [hslots]
    exact h.slots
  . simp only [AList.keys_insert_of_notMem hfresh]
    refine (h.waiting.cons (key item)).trans ?_
    unfold Scheduler.waiting
    rw [hqueue, List.map_append, List.map_cons, List.map_nil, hidentity, ← List.append_assoc]
    exact @List.perm_append_comm _ [key item] _
  . intro k v hv
    by_cases hk : k = key item
    . subst hk
      rw [AList.lookup_insert] at hv
      cases hv
      rfl
    . rw [AList.lookup_insert_ne hk] at hv
      exact h.parkedKey k v hv
  . intro q hq
    simp only [hqueue, List.mem_append, List.mem_singleton] at hq
    cases hq with
    | inl hq =>
      obtain ⟨v, hv, hreq'⟩ := h.requests q hq
      refine ⟨v, ?_, hreq'⟩
      rw [AList.lookup_insert_ne]
      . exact hv
      . intro heq
        rw [heq] at hv
        exact hfresh (AList.mem_of_lookup hv)
    | inr hq =>
      subst hq
      refine ⟨(item, attempt), ?_, hreq⟩
      rw [hidentity, AList.lookup_insert]
  . exact h.futs

theorem Tracked.file {item : WorkItem} (h : Tracked cfg items s pend (item :: moving))
    (hitems : (items.map key).Nodup) (attempt : Nat)
    : ∃ sched a, s.file cfg item attempt = .ok (s.filed item attempt sched a)
        ∧ Scheduler.Filed s.sched (toRequest item cfg.sa) sched a
        ∧ sched.available = s.sched.available
        ∧ Tracked cfg items (s.filed item attempt sched a) pend moving := by
  obtain ⟨sched, a, hok, hsound, havailable, hfiled⟩ := h.sched.request (toRequest item cfg.sa)
  refine ⟨sched, a, ?_, hfiled, havailable, ?_⟩
  . simp only [LoopState.file, hok]
  . cases hfiled with
    | rejected reason _ => exact h.skip (skipReason reason)
    | granted _ slotId _ hqueue hslots => exact h.granted attempt hsound hqueue hslots
    | queued _ p _ hreq hqueue hslots _ => exact h.queued hitems attempt hsound hreq hqueue hslots

theorem Tracked.nodup_slots (h : Tracked cfg items s pend moving)
    : (s.inflight.keys ++ s.readySlots ++ pend.map (·.slotId)).Nodup := by
  rw [← h.slots.nodup_iff]
  exact s.sched.leases.keys_nodup

theorem Tracked.spawn {slot : SlotId} {item : WorkItem} {attempt : Nat}
    {rest : List (SlotId × WorkItem × Nat)} (now : Nat)
    (h : Tracked cfg items { s with ready := (slot, item, attempt) :: rest } pend moving)
    : Tracked cfg items { s.spawnGranted now slot item attempt with ready := rest } pend moving := by
  have hfresh : slot ∉ s.inflight := by
    have hnodup := h.nodup_slots
    simp only [readySlots, List.map_cons, List.append_assoc, List.nodup_append] at hnodup
    rw [AList.mem_keys]
    intro hmem
    exact hnodup.2.2 slot hmem slot (by simp) rfl
  apply h.relocate
  . exact (terminalKeys_emit _).trans (List.append_nil _)
  . rfl
  . simp only [spawnGranted, liveItems, inflightItems, readyItems, parkedItems,
      AList.entries_insert_of_notMem hfresh, List.map_cons, List.cons_append, List.append_assoc]
    exact List.perm_middle.symm
  . exact h.sched
  . refine h.slots.trans ?_
    simp only [spawnGranted, readySlots, AList.keys_insert_of_notMem hfresh, List.map_cons,
      List.cons_append, List.append_assoc]
    exact List.perm_middle
  . exact h.waiting
  . exact h.parkedKey
  . exact h.requests
  . simp only [spawnGranted, AList.keys_insert_of_notMem hfresh]
    refine List.perm_append_comm.trans ?_
    exact h.futs.cons slot

theorem Tracked.pump (h : Tracked cfg items s pend moving) (now : Nat)
    : Tracked cfg items (s.pump cfg now) pend moving := by
  apply pump_induction (I := fun s => Tracked cfg items s pend moving) ?_ h
  intro s slot item attempt rest h
  exact h.spawn now

theorem Tracked.placeGrant {g : Admitted} (h : Tracked cfg items s (g :: pend) moving)
    : ∃ v, s.parked.lookup (g.binaryId, g.testName) = some v
        ∧ s.placeGrant g = { s with
            parked := s.parked.erase (g.binaryId, g.testName)
            ready := s.ready ++ [(g.slotId, v.1, v.2)] }
        ∧ Tracked cfg items (s.placeGrant g) pend moving := by
  have hmem : g.identity ∈ s.parked := by
    rw [AList.mem_keys, h.waiting.mem_iff]
    simp
  rw [← AList.lookup_isSome, Option.isSome_iff_exists] at hmem
  obtain ⟨v, hv⟩ := hmem
  have hkeys : (s.parked.erase g.identity).keys.Perm
      (pend.map (·.identity) ++ s.sched.waiting) := by
    apply List.Perm.cons_inv (a := g.identity)
    exact (AList.keys_perm_of_lookup hv).symm.trans h.waiting
  have heq : s.placeGrant g = { s with
      parked := s.parked.erase g.identity
      ready := s.ready ++ [(g.slotId, v.1, v.2)] } := by
    unfold LoopState.placeGrant
    rw [show s.parked.lookup (g.binaryId, g.testName) = some v from hv]
    rfl
  refine ⟨v, hv, heq, ?_⟩
  rw [heq]
  apply h.relocate
  . rfl
  . rfl
  . have hitems := (AList.entries_perm_of_lookup hv).map (fun e => e.2.1)
    rw [List.map_cons] at hitems
    apply List.Perm.append_right
    simp only [liveItems, inflightItems, readyItems, parkedItems, List.map_append, List.map_cons,
      List.map_nil, List.append_assoc, List.cons_append, List.nil_append]
    apply List.Perm.append_left
    apply List.Perm.append_left
    exact hitems.symm
  . exact h.sched
  . refine h.slots.trans ?_
    simp [readySlots]
  . exact hkeys
  . intro k w hw
    exact h.parkedKey k w (AList.lookup_of_lookup_erase hw)
  . intro p hp
    obtain ⟨w, hw, hreq⟩ := h.requests p hp
    refine ⟨w, ?_, hreq⟩
    rw [AList.lookup_erase_ne]
    . exact hw
    . intro hsame
      have hnodup := h.waiting.nodup_iff.mp s.parked.keys_nodup
      rw [List.map_cons, List.cons_append, List.nodup_cons] at hnodup
      apply hnodup.1
      apply List.mem_append_right
      rw [← hsame]
      exact List.mem_map_of_mem hp
  . exact h.futs

def AllFound (s : LoopState) : List Admitted → Prop
  | [] => True
  | g :: gs => (s.parked.lookup (g.binaryId, g.testName)).isSome ∧ AllFound (s.placeGrant g) gs

theorem Tracked.placeGrants (h : Tracked cfg items s pend moving)
    : s.AllFound pend ∧ Tracked cfg items (s.placeGrants pend) [] moving := by
  induction pend generalizing s with
  | nil => exact ⟨trivial, h⟩
  | cons g gs ih =>
    obtain ⟨v, hv, _, hplace⟩ := h.placeGrant
    obtain ⟨hfound, htracked⟩ := ih hplace
    refine ⟨⟨?_, hfound⟩, htracked⟩
    rw [hv]
    rfl

section Reschedule

variable {t sched : Scheduler} {grants : List Admitted}

theorem Tracked.waiting_of_rescheduled (h : Tracked cfg items s [] moving)
    (hres : Scheduler.Rescheduled t sched grants) (hqueue : t.queue = s.sched.queue)
    : s.parked.keys.Perm (grants.map (·.identity) ++ sched.waiting) := by
  refine h.waiting.trans ?_
  have hwaiting := hres.waiting
  unfold Scheduler.waiting at hwaiting
  rw [hqueue] at hwaiting
  exact hwaiting

theorem Tracked.requests_of_rescheduled (h : Tracked cfg items s [] moving)
    (hres : Scheduler.Rescheduled t sched grants) (hqueue : t.queue = s.sched.queue)
    : ∀ p ∈ sched.queue, ∃ v,
        s.parked.lookup p.req.identity = some v ∧ p.req = toRequest v.1 cfg.sa := by
  intro p hp
  apply h.requests p
  rw [← hqueue]
  exact hres.sublist.subset hp

theorem Tracked.reconcile (h : Tracked cfg items s [] [])
    (hres : Scheduler.Rescheduled t sched grants) (hqueue : t.queue = s.sched.queue)
    (hslots : t.leases.keys = s.sched.leases.keys)
    : Tracked cfg items { s with sched } grants [] := by
  apply h.relocate
  . rfl
  . rfl
  . rfl
  . exact hres.sound
  . refine hres.slots.trans ?_
    apply List.Perm.append_right
    rw [hslots]
    exact h.slots.trans (by simp [readySlots])
  . exact h.waiting_of_rescheduled hres hqueue
  . exact h.parkedKey
  . exact h.requests_of_rescheduled hres hqueue
  . exact h.futs

def released (s : LoopState) (lease : SlotId) (sched : Scheduler) : LoopState :=
  { s with sched, futs := s.futs.erase lease, inflight := s.inflight.erase lease }

theorem Tracked.released {lease : SlotId} {running : Running} (h : Tracked cfg items s [] [])
    (hrunning : s.inflight.lookup lease = some running)
    (hres : Scheduler.Rescheduled t sched grants) (hqueue : t.queue = s.sched.queue)
    (hslots : t.leases.keys = s.sched.leases.keys.erase lease)
    : Tracked cfg items (s.released lease sched) grants [running.item] := by
  have hkeys := AList.keys_perm_of_lookup hrunning
  apply h.relocate
  . rfl
  . rfl
  . have hitems := (AList.entries_perm_of_lookup hrunning).map (fun e => e.2.item)
    rw [List.map_cons] at hitems
    simp only [LoopState.released, liveItems, inflightItems, readyItems, parkedItems,
      List.append_assoc, List.append_nil]
    refine List.Perm.trans ?_ (hitems.symm.append_right _)
    simp only [← List.append_assoc, List.cons_append]
    exact @List.perm_append_comm _ _ [running.item]
  . exact hres.sound
  . refine hres.slots.trans ?_
    apply List.Perm.append_right
    rw [hslots]
    apply List.Perm.cons_inv (a := lease)
    have hmem : lease ∈ s.sched.leases.keys := by
      rw [h.slots.mem_iff, List.append_assoc]
      apply List.mem_append_left
      rw [hkeys.mem_iff]
      exact List.mem_cons_self
    refine (List.perm_cons_erase hmem).symm.trans (h.slots.trans ?_)
    simp only [List.map_nil, List.append_nil]
    exact hkeys.append_right _
  . exact h.waiting_of_rescheduled hres hqueue
  . exact h.parkedKey
  . exact h.requests_of_rescheduled hres hqueue
  . have hmem : lease ∈ s.futs := by
      rw [h.futs.mem_iff, hkeys.mem_iff]
      exact List.mem_cons_self
    apply List.Perm.cons_inv (a := lease)
    exact (List.perm_cons_erase hmem).symm.trans (h.futs.trans hkeys)

end Reschedule

end LoopState
end Engine
