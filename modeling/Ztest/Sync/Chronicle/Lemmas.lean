import Mathlib.Data.List.Induction
import Ztest.Sync.Chronicle.Impl
import Ztest.Sync.Runner.Lemmas.Liveness

/-!
This module contains lemmas about what the rolling state of a run tells of all its readings, the exact
runs in which a snapshot never takes a rise from before a fault for a recovery, and the link from the tick
loop to its chronicle: every tick that a phase takes is one beat, and the snapshot its probes are given is
the one of that beat.
-/

namespace Sync

section Truth

theorem heights_append (xs ys : List Beat) : heights (xs ++ ys) = heights xs ++ heights ys :=
  List.filterMap_append

theorem heights_concat_of_none {xs : List Beat} {b : Beat} (h : b.progress = none)
    : heights (xs ++ [b]) = heights xs := by
  simp [heights, Beat.heightAt, h]

theorem heights_concat_of_some {xs : List Beat} {b : Beat} {p : ProgressView} (h : b.progress = some p)
    : heights (xs ++ [b]) = heights xs ++ [⟨p.height, b.now⟩] := by
  simp [heights, Beat.heightAt, h]

namespace Chronicle

theorem after_concat (startedAt : Nat) (xs : List Beat) (b : Beat)
    : after startedAt (xs ++ [b]) = ((after startedAt xs).beat b).1 := by
  simp [after, List.foldl_append]

-- The rolling state of a builder as a function of the readings.
structure Tracks (b : SnapshotBuilder) (ls : List HeightAt) : Prop where
  opened : b.seq = 0 ↔ ls = []
  calm : ls = [] → b.observedReorg = false
  height : ∀ q ∈ ls.getLast?, b.prevHeight = q.height
  highest : ls ≠ [] → (ls.map (·.height)).max? = some b.maxHeightSeen
  reorg : b.observedReorg = true ↔ ∃ x y, List.Sublist [x, y] ls ∧ y.height < x.height
  progress : ls ≠ [] → ∃ r, Rises.Latest (·.height) ls r ∧ r.atInstant = b.lastProgressAt

theorem tracks_new (startedAt : Nat) : Tracks (.new startedAt) [] where
  opened := by simp [SnapshotBuilder.new]
  calm _ := rfl
  height := by simp
  highest h := absurd rfl h
  reorg := by simp [SnapshotBuilder.new]
  progress h := absurd rfl h

-- What a snapshot shares with the state it leaves behind.
structure Shares (snap : Snapshot) (b : SnapshotBuilder) (p : ProgressView) (now : Nat)
    (lastFaultAt : Option Nat) : Prop where
  height : snap.height = p.height
  atInstant : snap.atInstant = now
  maxHeightSeen : snap.maxHeightSeen = b.maxHeightSeen
  lastProgressAt : snap.lastProgressAt = b.lastProgressAt
  observedReorg : snap.observedReorg = b.observedReorg
  lastFaultAt : snap.lastFaultAt = lastFaultAt

theorem build_shares (b : SnapshotBuilder) (p : ProgressView) (now : Nat) (events : TickEvents)
    : Shares (b.build p now events).2 (b.build p now events).1 p now events.lastFaultAt :=
  ⟨rfl, rfl, rfl, rfl, rfl, rfl⟩

theorem max?_concat (ns : List Nat) (n : Nat)
    : (ns ++ [n]).max? = some (ns.max?.elim n (Nat.max · n)) := by
  cases ns with
  | nil => simp
  | cons m ns =>
    rw [List.cons_append, List.max?_cons', List.max?_cons', List.foldl_append]
    rfl

theorem sublist_pair_concat {α : Type} {x y a : α} {l : List α}
    : List.Sublist [x, y] (l ++ [a]) ↔ List.Sublist [x, y] l ∨ x ∈ l ∧ y = a := by
  constructor
  . intro h
    rcases List.sublist_append_iff.mp h with ⟨l₁, l₂, heq, h₁, h₂⟩
    rcases List.sublist_singleton.mp h₂ with rfl | rfl
    . rw [List.append_nil] at heq
      exact .inl (heq ▸ h₁)
    . cases l₁ with
      | nil => cases heq
      | cons z l₁ =>
        cases l₁ with
        | nil =>
          cases heq
          exact .inr ⟨List.singleton_sublist.mp h₁, rfl⟩
        | cons w l₁ => simp at heq
  . rintro (h | ⟨hx, rfl⟩)
    . exact h.trans (List.sublist_append_left l [a])
    . exact (List.singleton_sublist.mpr hx).append (List.Sublist.refl [y])

theorem tracks_first {b : SnapshotBuilder} (h : Tracks b []) (p : ProgressView) (now : Nat)
    (events : TickEvents)
    : Tracks (b.build p now events).1 [⟨p.height, now⟩] := by
  have hseq : b.seq = 0 := h.opened.mpr rfl
  refine ⟨by simp [SnapshotBuilder.build], by simp, ?_, ?_, ?_, ?_⟩
  . simp [SnapshotBuilder.build]
  . simp [SnapshotBuilder.build, SnapshotBuilder.opening, hseq]
  . have hpair : ∀ x y : HeightAt, ¬List.Sublist [x, y] [(⟨p.height, now⟩ : HeightAt)] := by
      intro x y hxy
      have := hxy.length_le
      simp at this
    simp [SnapshotBuilder.build, SnapshotBuilder.opening, hseq, h.calm rfl, hpair]
  . intro _
    refine ⟨⟨p.height, now⟩, Rises.latest_concat_of_rise (l := []) (by simp), ?_⟩
    simp [SnapshotBuilder.build, SnapshotBuilder.opening, hseq]

theorem tracks_next {b : SnapshotBuilder} {ls : List HeightAt} {q : HeightAt} (h : Tracks b ls)
    (hq : ls.getLast? = some q) (p : ProgressView) (now : Nat) (events : TickEvents)
    : Tracks (b.build p now events).1 (ls ++ [⟨p.height, now⟩]) := by
  have hne : ls ≠ [] := by
    rintro rfl
    cases hq
  have hseq : b.seq ≠ 0 := fun h0 => hne (h.opened.mp h0)
  have hopen : b.opening p.height now = b := by
    simp [SnapshotBuilder.opening, hseq]
  have hprev : b.prevHeight = q.height := h.height q hq
  refine ⟨by simp [SnapshotBuilder.build], by simp, ?_, ?_, ?_, ?_⟩
  . simp [SnapshotBuilder.build]
  . intro _
    rw [List.map_append, List.map_singleton, max?_concat, h.highest hne]
    simp [SnapshotBuilder.build, hopen]
  . have hhighest : p.height < b.maxHeightSeen ↔ ∃ x ∈ ls, p.height < x.height := by
      have hmax := List.max?_eq_some_iff.mp (h.highest hne)
      constructor
      . intro hlt
        rcases List.mem_map.mp hmax.1 with ⟨x, hx, heq⟩
        exact ⟨x, hx, heq ▸ hlt⟩
      . rintro ⟨x, hx, hlt⟩
        exact lt_of_lt_of_le hlt (hmax.2 x.height (List.mem_map_of_mem hx))
    have hbuild : (b.build p now events).1.observedReorg
        = (b.observedReorg || decide (p.height < b.maxHeightSeen)) := by
      simp [SnapshotBuilder.build, hopen]
    rw [hbuild, Bool.or_eq_true, decide_eq_true_iff, h.reorg, hhighest]
    constructor
    . rintro (⟨x, y, hxy, hlt⟩ | ⟨x, hx, hlt⟩)
      . exact ⟨x, y, sublist_pair_concat.mpr (.inl hxy), hlt⟩
      . exact ⟨x, _, sublist_pair_concat.mpr (.inr ⟨hx, rfl⟩), hlt⟩
    . rintro ⟨x, y, hxy, hlt⟩
      rcases sublist_pair_concat.mp hxy with hxy | ⟨hx, rfl⟩
      . exact .inl ⟨x, y, hxy, hlt⟩
      . exact .inr ⟨x, hx, hlt⟩
  . intro _
    have hbuild : (b.build p now events).1.lastProgressAt
        = if b.prevHeight < p.height then now else b.lastProgressAt := by
      simp [SnapshotBuilder.build, hopen]
    rw [hbuild, hprev]
    split
    . next hlt =>
      refine ⟨⟨p.height, now⟩, Rises.latest_concat_of_rise ?_, rfl⟩
      rw [hq]
      simpa using hlt
    . next hle =>
      rcases h.progress hne with ⟨r, hr, hat⟩
      refine ⟨r, hr.concat ?_, hat⟩
      rw [hq]
      simpa using hle

theorem Tracks.build {b : SnapshotBuilder} {ls : List HeightAt} (h : Tracks b ls) (p : ProgressView)
    (now : Nat) (events : TickEvents)
    : Tracks (b.build p now events).1 (ls ++ [⟨p.height, now⟩]) := by
  cases hq : ls.getLast? with
  | none =>
    rw [List.getLast?_eq_none_iff] at hq
    subst hq
    exact tracks_first h p now events
  | some q => exact tracks_next h hq p now events

theorem fault_lastFaultAt (c : Chronicle) (b : Beat)
    : (c.fault b).lastFaultAt = if b.faulted then some b.now else c.lastFaultAt := by
  unfold fault
  split <;> rfl

theorem beat_lastFaultAt (c : Chronicle) (b : Beat)
    : (c.beat b).1.lastFaultAt = if b.faulted then some b.now else c.lastFaultAt := by
  rw [← fault_lastFaultAt]
  unfold beat
  cases b.progress <;> rfl

theorem beat_of_none {c : Chronicle} {b : Beat} (h : b.progress = none)
    : (c.beat b).1.builder = c.builder ∧ (c.beat b).2 = none := by
  unfold beat fault
  rw [h]
  cases b.faulted <;> exact ⟨rfl, rfl⟩

theorem beat_of_some {c : Chronicle} {b : Beat} {p : ProgressView} (h : b.progress = some p)
    : ∃ events, events.lastFaultAt = (c.beat b).1.lastFaultAt ∧
      (c.beat b).1.builder = (c.builder.build p b.now events).1 ∧
      (c.beat b).2 = some (c.builder.build p b.now events).2 := by
  refine ⟨⟨(c.fault b).lastFaultAt, b.restarts, b.restarting⟩, ?_⟩
  unfold beat fault
  rw [h]
  cases b.faulted <;> exact ⟨rfl, rfl, rfl⟩

theorem after_tracks (startedAt : Nat) (beats : List Beat)
    : Tracks (after startedAt beats).builder (heights beats) := by
  induction beats using List.reverseRecOn with
  | nil => exact tracks_new startedAt
  | append_singleton beats b ih =>
    rw [after_concat]
    cases hp : b.progress with
    | none =>
      rw [(beat_of_none hp).1, heights_concat_of_none hp]
      exact ih
    | some p =>
      rcases @beat_of_some (after startedAt beats) b p hp with ⟨events, _, hbuilder, _⟩
      rw [hbuilder, heights_concat_of_some hp]
      exact ih.build p b.now events

theorem after_faulted (startedAt : Nat) (pre : List Beat) {fb : Beat} {post : List Beat}
    (hfault : fb.faulted = true) (hpost : ∀ x ∈ post, x.faulted = false)
    : (after startedAt (pre ++ fb :: post)).lastFaultAt = some fb.now := by
  induction post using List.reverseRecOn with
  | nil => rw [after_concat, beat_lastFaultAt, if_pos hfault]
  | append_singleton post b ih =>
    have hb : b.faulted = false := hpost b (by simp)
    rw [← List.cons_append, ← List.append_assoc, after_concat, beat_lastFaultAt, hb, if_neg (by simp)]
    exact ih fun x hx => hpost x (by simp [hx])

theorem exists_fault {startedAt : Nat} {beats : List Beat} {at' : Nat}
    (h : (after startedAt beats).lastFaultAt = some at')
    : ∃ pre fb post, beats = pre ++ fb :: post ∧ fb.faulted = true ∧ (∀ x ∈ post, x.faulted = false) ∧
      fb.now = at' := by
  induction beats using List.reverseRecOn with
  | nil => cases h
  | append_singleton beats b ih =>
    rw [after_concat, beat_lastFaultAt] at h
    cases hb : b.faulted with
    | true =>
      rw [hb, if_pos rfl] at h
      exact ⟨beats, b, [], rfl, hb, by simp, Option.some.inj h⟩
    | false =>
      rw [hb, if_neg (by simp)] at h
      rcases ih h with ⟨pre, fb, post, rfl, hfault, hpost, hnow⟩
      refine ⟨pre, fb, post ++ [b], by simp, hfault, ?_, hnow⟩
      intro x hx
      rcases List.mem_append.mp hx with hx | hx
      . exact hpost x hx
      . cases List.mem_singleton.mp hx
        exact hb

end Chronicle

open Chronicle

theorem last_fault_unique {pre pre' post post' : List Beat} {fb fb' : Beat}
    (heq : pre ++ fb :: post = pre' ++ fb' :: post') (hfault : fb.faulted = true)
    (hpost : ∀ x ∈ post, x.faulted = false) (hfault' : fb'.faulted = true)
    (hpost' : ∀ x ∈ post', x.faulted = false)
    : fb :: post = fb' :: post' := by
  rcases List.append_eq_append_iff.mp heq with ⟨mid, _, hrest⟩ | ⟨mid, _, hrest⟩
  . cases mid with
    | nil => exact hrest
    | cons c mid =>
      cases hrest
      simpa [hfault'] using hpost fb' (by simp)
  . cases mid with
    | nil => exact hrest.symm
    | cons c mid =>
      cases hrest
      simpa [hfault] using hpost' fb (by simp)

variable {startedAt : Nat} {beats pre post us : List Beat} {fb b : Beat} {snap : Snapshot}

theorem heights_eq_cons {xs : List Beat} {l : HeightAt} {ls : List HeightAt} (h : heights xs = l :: ls)
    : ∃ us a vs, xs = us ++ a :: vs ∧ heights us = [] ∧ a.heightAt = some l ∧ heights (us ++ [a]) = [l] := by
  rcases List.filterMap_eq_cons_iff.mp h with ⟨us, a, vs, rfl, hus, ha, _⟩
  have hnil : heights us = [] := List.filterMap_eq_nil_iff.mpr hus
  refine ⟨us, a, vs, rfl, hnil, ha, ?_⟩
  rw [heights_append, hnil]
  simp [heights, ha]

theorem since_of_split {us vs rest : List Beat} {a : Beat} (h : fb :: rest = us ++ a :: vs)
    : ∃ since tail, us ++ [a] = fb :: since ∧ rest = since ++ tail := by
  cases us with
  | nil =>
    cases h
    exact ⟨[], vs, rfl, rfl⟩
  | cons u us =>
    rw [List.cons_append] at h
    rcases List.cons.inj h with ⟨rfl, rfl⟩
    exact ⟨us ++ [a], vs, rfl, by simp⟩

theorem rise_of_late_progress (hapart : FaultsApart (pre ++ fb :: post)) (hfault : fb.faulted = true)
    (hpost : ∀ x ∈ post, x.faulted = false) (hread : heights (fb :: post) ≠ []) {r : HeightAt}
    (hr : Rises.Latest (·.height) (heights (pre ++ fb :: post)) r) (hlate : fb.now ≤ r.atInstant)
    : ∃ a b, List.Sublist [a, b] (heights (fb :: post)) ∧ a.height < b.height := by
  apply Rises.exists_rise_of_not_falling
  intro hfall
  rcases List.exists_cons_of_ne_nil hread with ⟨l, ls, hl⟩
  rcases heights_eq_cons hl with ⟨us, a, vs, hsplit, _, _, hfirst⟩
  rcases since_of_split hsplit with ⟨rest, tail, hus, rfl⟩
  rw [hus] at hfirst
  rcases hapart pre fb rest l ⟨tail, by simp⟩ hfault (fun x hx => hpost x (by simp [hx])) hfirst with
    ⟨q, hq, hle, hearly⟩
  have hne : heights pre ≠ [] := by
    intro hnil
    rw [hnil] at hq
    cases hq
  rcases Rises.exists_latest (f := fun l : HeightAt => l.height) hne with ⟨r', hr'⟩
  have hsame : Rises.Latest (·.height) (heights (pre ++ fb :: (rest ++ tail))) r' := by
    rw [heights_append]
    apply hr'.append hfall
    intro q' hq' l' hl'
    rw [hl] at hl'
    cases hl'
    cases hq.symm.trans hq'
    exact hle
  cases hr.unique hsame
  exact absurd (hearly _ hr') (not_lt.mpr hlate)

theorem progressedSinceFault_iff {at' : Nat} (h : snap.lastFaultAt = some at')
    : snap.progressedSinceFault = true ↔ at' ≤ snap.lastProgressAt := by
  simp [Snapshot.progressedSinceFault, h]

theorem snapshot_shares (h : ((after startedAt pre).beat b).2 = some snap)
    : ∃ p, b.progress = some p ∧ heights (pre ++ [b]) = heights pre ++ [⟨p.height, b.now⟩] ∧
      Shares snap (after startedAt (pre ++ [b])).builder p b.now
        (after startedAt (pre ++ [b])).lastFaultAt := by
  cases hp : b.progress with
  | none =>
    rw [(beat_of_none hp).2] at h
    cases h
  | some p =>
    refine ⟨p, rfl, heights_concat_of_some hp, ?_⟩
    rcases @beat_of_some (after startedAt pre) b p hp with ⟨events, hevents, hbuilder, hsnap⟩
    rw [hsnap] at h
    cases h
    rw [after_concat, hbuilder, ← hevents]
    exact build_shares _ _ _ _

theorem truthful_of_recovery (h : ((after startedAt pre).beat b).2 = some snap)
    (hrecovery : snap.lastFaultAt.isSome = true → snap.progressedSinceFault = true →
      Recovered (pre ++ [b]))
    : Truthful (pre ++ [b]) snap := by
  rcases snapshot_shares h with ⟨p, _, hheights, hshares⟩
  have htracks := after_tracks startedAt (pre ++ [b])
  have hne : heights (pre ++ [b]) ≠ [] := by
    rw [hheights]
    simp
  refine ⟨?_, ?_, ?_, hrecovery⟩
  . rw [hshares.observedReorg]
    exact htracks.reorg
  . refine ⟨_, htracks.highest hne, ?_⟩
    rw [Snapshot.reorgDepth, hshares.maxHeightSeen]
  . rcases htracks.progress hne with ⟨r, hr, hat⟩
    refine ⟨r, hr, ?_⟩
    intro window
    rw [Snapshot.progressedWithin, hshares.lastProgressAt, ← hat, decide_eq_true_iff]

theorem recovered_of_apart (hapart : FaultsApart (pre ++ [b]))
    (h : ((after startedAt pre).beat b).2 = some snap) (hsome : snap.lastFaultAt.isSome = true)
    (hflag : snap.progressedSinceFault = true)
    : Recovered (pre ++ [b]) := by
  rcases snapshot_shares h with ⟨p, hp, hheights, hshares⟩
  have htracks := after_tracks startedAt (pre ++ [b])
  rcases Option.isSome_iff_exists.mp hsome with ⟨at', hat⟩
  rcases exists_fault (hshares.lastFaultAt.symm.trans hat) with ⟨before, fb, post, hsplit, hfault, hpost, rfl⟩
  have hne : heights (pre ++ [b]) ≠ [] := by
    rw [hheights]
    simp
  rcases htracks.progress hne with ⟨r, hr, hrat⟩
  have hlate : fb.now ≤ r.atInstant := by
    rw [hrat, ← hshares.lastProgressAt]
    exact (progressedSinceFault_iff hat).mp hflag
  -- The last beat has a reading, and it stands at or after the fault.
  have hlast : b ∈ fb :: post := by
    have hb : (pre ++ [b]).getLast? = some b := by simp
    rw [hsplit, List.getLast?_append_of_ne_nil _ (by simp)] at hb
    exact List.mem_of_getLast? hb
  have hread : heights (fb :: post) ≠ [] := by
    intro hnil
    have hnone := List.filterMap_eq_nil_iff.mp hnil b hlast
    simp [Beat.heightAt, hp] at hnone
  rw [hsplit] at hapart hr
  rcases rise_of_late_progress hapart hfault hpost hread hr hlate with ⟨x, y, hxy, hlt⟩
  exact ⟨before, fb, post, x, y, hsplit, hfault, hpost, hxy, hlt⟩

theorem FaultsApart.left (h : FaultsApart (pre ++ post)) : FaultsApart pre := by
  intro before fb rest l hpre hfault hrest hfirst
  exact h before fb rest l (hpre.trans (List.prefix_append pre post)) hfault hrest hfirst

-- One reading since the fault is no rise.
theorem not_recovered_of_first_reading {l : HeightAt} (hfault : fb.faulted = true)
    (hpost : ∀ x ∈ post, x.faulted = false) (hread : heights (fb :: post) = [l])
    : ¬Recovered (pre ++ fb :: post) := by
  rintro ⟨before, fb', post', x, y, heq, hfault', hpost', hxy, _⟩
  rw [← last_fault_unique heq hfault hpost hfault' hpost', hread] at hxy
  have := hxy.length_le
  simp at this

theorem exists_snapshot {p : ProgressView} (hp : b.progress = some p)
    : ∃ snap, ((after startedAt pre).beat b).2 = some snap := by
  rcases @beat_of_some (after startedAt pre) b p hp with ⟨_, _, _, hsnap⟩
  exact ⟨_, hsnap⟩

theorem now_le_of_mem {since : List Beat} (hclock : ((fb :: since).map (·.now)).Pairwise (· ≤ ·))
    (hb : b ∈ fb :: since)
    : fb.now ≤ b.now := by
  rw [List.map_cons, List.pairwise_cons] at hclock
  rcases List.mem_cons.mp hb with rfl | hb
  . exact le_refl _
  . exact hclock.1 b.now (List.mem_map_of_mem hb)

/--
What the first reading at or after a fault must look like for the snapshot built from it not to show
a recovery.
-/
theorem apart_of_truthful {l : HeightAt} (hfault : fb.faulted = true) (hpost : ∀ x ∈ post, x.faulted = false)
    (hsince : us ++ [b] = fb :: post) (hread : heights (us ++ [b]) = [l])
    (hsnap : ((after startedAt (pre ++ us)).beat b).2 = some snap) (htruth : Truthful (pre ++ us ++ [b]) snap)
    (hclock : ((us ++ [b]).map (·.now)).Pairwise (· ≤ ·))
    : ∃ q, (heights pre).getLast? = some q ∧ l.height ≤ q.height ∧
      ∀ r, Rises.Latest (·.height) (heights pre) r → r.atInstant < fb.now := by
  rcases snapshot_shares hsnap with ⟨p, hp, -, hshares⟩
  have hheights : heights (pre ++ us ++ [b]) = heights pre ++ [l] := by
    rw [List.append_assoc, heights_append, hread]
  have hl : l.atInstant = b.now := by
    rw [heights_concat_of_some hp] at hread
    rcases List.append_eq_singleton_iff.mp hread with ⟨_, h⟩ | ⟨_, h⟩
    . cases h
      rfl
    . cases h
  have hle : fb.now ≤ b.now := by
    rw [hsince] at hclock
    exact now_le_of_mem hclock (by rw [← hsince]; simp)
  have hat : snap.lastFaultAt = some fb.now := by
    rw [hshares.lastFaultAt, List.append_assoc, hsince]
    exact after_faulted startedAt pre hfault hpost
  have hdown : ¬Recovered (pre ++ us ++ [b]) := by
    rw [List.append_assoc, hsince]
    rw [hsince] at hread
    exact not_recovered_of_first_reading hfault hpost hread
  rcases (after_tracks startedAt (pre ++ us ++ [b])).progress (by rw [hheights]; simp) with ⟨r, hr, hrat⟩
  have hearly : r.atInstant < fb.now := by
    rw [hrat, ← hshares.lastProgressAt]
    apply lt_of_not_ge
    intro hlate
    exact hdown (htruth.recovery (by rw [hat]; rfl) ((progressedSinceFault_iff hat).mpr hlate))
  rw [hheights] at hr
  have hnot : ¬∀ q ∈ (heights pre).getLast?, q.height < l.height := by
    intro hrise
    cases hr.unique (Rises.latest_concat_of_rise hrise)
    rw [hl] at hearly
    exact absurd hearly (not_lt.mpr hle)
  push Not at hnot
  rcases hnot with ⟨q, hq, hheight⟩
  refine ⟨q, hq, hheight, ?_⟩
  intro r' hr'
  have hsame : Rises.Latest (·.height) (heights pre ++ [l]) r' := by
    apply hr'.concat
    intro q' hq'
    cases hq.symm.trans hq'
    exact hheight
  cases hr.unique hsame
  exact hearly

theorem apart_of_tellsTruth (hclock : (beats.map (·.now)).Pairwise (· ≤ ·))
    (h : TellsTruth startedAt beats)
    : FaultsApart beats := by
  rintro pre fb rest l ⟨tail, rfl⟩ hfault hrest hfirst
  rcases heights_eq_cons hfirst with ⟨us, a, vs, hsplit, _, ha, hread⟩
  rcases Option.map_eq_some_iff.mp ha with ⟨p, hp, -⟩
  rcases since_of_split hsplit with ⟨since, rest', hsince, rfl⟩
  rcases @exists_snapshot startedAt (pre ++ us) a p hp with ⟨snap, hsnap⟩
  have htruth := h (pre ++ us) a (vs ++ tail) snap (by rw [hsplit]; simp) hsnap
  refine apart_of_truthful hfault (fun x hx => hrest x (by simp [hx])) hsince hread hsnap htruth ?_
  rw [hsplit] at hclock
  refine hclock.sublist (List.Sublist.map _ ?_)
  simp

theorem tellsTruth_iff (startedAt : Nat) (beats : List Beat)
    (hclock : (beats.map (·.now)).Pairwise (· ≤ ·))
    : TellsTruth startedAt beats ↔ FaultsApart beats := by
  refine ⟨apart_of_tellsTruth hclock, ?_⟩
  rintro hapart pre b post snap rfl h
  have hsplit : FaultsApart ((pre ++ [b]) ++ post) := by
    rw [List.append_assoc]
    exact hapart
  exact truthful_of_recovery h (recovered_of_apart hsplit.left h)

-- Opened at 10, killed between two readings of 10 and back at 11.
def recovering : List Beat :=
  [⟨⟨0, false, some ⟨10, none⟩⟩, 0, false⟩, ⟨⟨2, true, some ⟨10, none⟩⟩, 0, true⟩,
    ⟨⟨3, false, some ⟨11, none⟩⟩, 1, false⟩]

theorem recovering_apart : FaultsApart recovering := by
  rintro pre fb rest l ⟨tail, heq⟩ hfault - hfirst
  rcases pre with _ | ⟨x, _ | ⟨y, _ | ⟨z, pre⟩⟩⟩
  . simp only [recovering, List.nil_append, List.cons_append, List.cons.injEq] at heq
    rw [heq.1] at hfault
    cases hfault
  . simp only [recovering, List.nil_append, List.cons_append, List.cons.injEq] at heq
    rcases heq with ⟨rfl, rfl, heq⟩
    cases rest with
    | nil =>
      cases hfirst
      refine ⟨⟨10, 0⟩, rfl, le_refl _, ?_⟩
      intro r hr
      cases hr.unique (Rises.latest_concat_of_rise (l := []) (a := (⟨10, 0⟩ : HeightAt)) (by simp))
      decide
    | cons c rest =>
      rw [List.cons_append, List.cons.injEq] at heq
      rw [heq.1] at hfirst
      cases hfirst
  . simp only [recovering, List.nil_append, List.cons_append, List.cons.injEq] at heq
    rw [heq.2.2.1] at hfault
    cases hfault
  . have := congrArg List.length heq
    simp [recovering] at this

theorem recovering_tellsTruth : TellsTruth 0 recovering :=
  (tellsTruth_iff 0 recovering (by decide)).mpr recovering_apart

-- The rise from 10 to 11 is read at the instant of the kill.
theorem rise_at_kill_counts
    : ¬TellsTruth 0 [⟨⟨0, false, some ⟨10, none⟩⟩, 0, false⟩, ⟨⟨1, true, some ⟨11, none⟩⟩, 0, true⟩] := by
  intro h
  have hapart := apart_of_tellsTruth (by decide) h
  rcases hapart [⟨⟨0, false, some ⟨10, none⟩⟩, 0, false⟩] ⟨⟨1, true, some ⟨11, none⟩⟩, 0, true⟩ [] ⟨11, 1⟩
    (List.prefix_refl _) rfl (by simp) rfl with ⟨q, hq, hle, _⟩
  have hq10 : q = ⟨10, 0⟩ := (Option.some.inj hq).symm
  rw [hq10] at hle
  exact absurd hle (by decide)

end Truth

namespace PhaseRun

def chronicle (s : PhaseRun) : Chronicle where
  builder := s.builder
  lastFaultAt := s.chaos.lastFaultAt

variable {watched : List Watched} {w : World} {deadline : Option Nat} {finish : Finish}
variable {s s' : PhaseRun} {t : Tick}

theorem applyFaults_chronicle {kills : Nat → Option String} {now i : Nat} {faults : List ScheduledFault}
    {r : Option String} (h : applyFaults watched kills now i faults s = (s', r))
    : s'.history = s.history ∧
      (s'.chronicle = s.chronicle ∨ s'.chronicle = { s.chronicle with lastFaultAt := some now }) := by
  induction faults generalizing i s with
  | nil =>
    cases h
    exact ⟨rfl, .inl rfl⟩
  | cons fault faults ih =>
    unfold applyFaults at h
    split at h
    . split at h
      . cases h
        exact ⟨rfl, .inl rfl⟩
      . split at h
        . cases h
          exact ⟨rfl, .inl rfl⟩
        . rcases ih h with ⟨hhistory, hrest | hrest⟩
          . exact ⟨hhistory, .inr hrest⟩
          . exact ⟨hhistory, .inr hrest⟩
    . exact ih h

def Tick.beat (t : Tick) (faulted : Bool) (events : TickEvents) : Beat where
  now := t.now
  faulted := faulted
  progress := t.progress.toOption
  restarts := events.restarts
  restarting := events.restarting

theorem fireFaults_chronicle {r : Option String} (h : s.fireFaults watched t = (s', r))
    : s'.history = s.history ∧
      ∃ faulted, ∀ events, s'.chronicle = s.chronicle.fault (Tick.beat t faulted events) := by
  unfold fireFaults at h
  rcases applyFaults_chronicle h with ⟨hhistory, heq | heq⟩
  . exact ⟨hhistory, false, fun _ => heq⟩
  . exact ⟨hhistory, true, fun _ => heq⟩

theorem Evaluated.beat {p : ProgressView} {flow : Option Flow} (h : Evaluated watched w s t p flow s')
    : ∃ b snap, b.now = t.now ∧ b.progress = some p ∧ s.chronicle.beat b = (s'.chronicle, some snap) ∧
      s'.history = s.history.push snap := by
  rcases h.eval with ⟨s₁, probes, bench, hfire, -, rfl⟩
  rcases fireFaults_chronicle hfire with ⟨hhistory, faulted, hchron⟩
  have hprogress : t.progress.toOption = some p := by
    rw [h.progress]
    rfl
  refine ⟨Tick.beat t faulted (s₁.snapshot t p).1.events, (s₁.snapshot t p).2, rfl, hprogress, ?_, ?_⟩
  . unfold Chronicle.beat
    rw [← hchron]
    dsimp only [Tick.beat]
    rw [hprogress]
    rfl
  . rw [← hhistory]
    rfl

theorem Taken.beat (h : Taken watched w s t s')
    : ∃ b, b.now = t.now ∧ b.progress = t.progress.toOption ∧ (s.chronicle.beat b).1 = s'.chronicle := by
  cases h with
  | held hfire hprogress =>
    rcases fireFaults_chronicle hfire with ⟨-, faulted, hchron⟩
    refine ⟨Tick.beat t faulted .default, rfl, rfl, ?_⟩
    unfold Chronicle.beat
    rw [← hchron]
    dsimp only [Tick.beat]
    rw [hprogress]
    rfl
  | @evaluated p s' heval =>
    rcases heval.beat with ⟨b, snap, hnow, hprogress, hbeat, _⟩
    refine ⟨b, hnow, ?_, by rw [hbeat]⟩
    rw [hprogress, heval.progress]
    rfl

/--
The ticks of a phase, as long as it runs, are the beats of its chronicle.
-/
theorem exec_beats {ticks : List Tick}
    (h : Run.exec (PhaseRun.tick watched w deadline finish) s ticks = .ok s')
    : ∃ beats : List Beat, beats.map (·.now) = ticks.map (·.now) ∧
      beats.map (·.progress) = ticks.map (·.progress.toOption) ∧
      s'.chronicle = beats.foldl (fun c b => (c.beat b).1) s.chronicle := by
  induction ticks generalizing s with
  | nil =>
    cases h
    exact ⟨[], rfl, rfl, rfl⟩
  | cons t ticks ih =>
    rcases Run.exec_cons_ok h with ⟨s₁, ⟨⟩, htick, hrest⟩
    rcases (taken_of_ok htick).beat with ⟨b, hnow, hprogress, hbeat⟩
    rcases ih hrest with ⟨beats, hnows, hprogresses, hfold⟩
    refine ⟨b :: beats, ?_, ?_, ?_⟩
    . rw [List.map_cons, List.map_cons, hnow, hnows]
    . rw [List.map_cons, List.map_cons, hprogress, hprogresses]
    . rw [List.foldl_cons, hbeat]
      exact hfold

end PhaseRun
end Sync
