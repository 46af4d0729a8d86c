import Ztest.Lib.Trace
import Ztest.Materialize.Watch.Lemmas.Steps

/-!
This module contains what the records read so far say about the transfer's clock and about the row:
nothing raised a signal after the clock was last moved, the attempt's records are those of its pod, and
the bar never went backwards.

From these follows what `watch_puller` may end a run for. It also contains the run in which it ends a retry for
the time that the pod before was unscheduled.
-/

namespace Materialize
namespace Watch

section Invariant

variable (fromSlice : Json)

def State.readsOf (s : State) (name : String) : List Read := s.reads.filter (·.pod = name)

/--
Whatever raised the signals of these records was read at or before `time`.
-/
def Quiet (time : Nanos) (reads : List Read) : Prop :=
  Trace.Before (fun pre r => ∀ sig ∈ signal fromSlice r.record, Raises (signals fromSlice pre) sig → r.now ≤ time) reads

-- The byte count of the pod that is followed does not saturate the sum.
def Unsaturated (s : State) (event : Event) : Prop :=
  ∀ now, event = .record now → ∀ f c record, s.follow = some f → s.clock = some c → f.queue.head? = some record →
    ∀ count, statsBytes fromSlice record = some count → c.base.toNat + count.toNat < 2 ^ 64

def Fresh (s : State) (event : Event) : Prop :=
  ∀ l ∈ lookOf event, s.current ≠ some l.name → s.readsOf l.name = []

def AllQuiet (s : State) : Prop := ∀ c ∈ s.clock, ∀ name, Quiet fromSlice c.idleSince (s.readsOf name)

def Tracked (s : State) : Prop := ∀ name, s.current = some name → s.here = s.readsOf name

variable {fromSlice}

theorem Quiet.later {time time' : Nanos} {reads : List Read} (h : Quiet fromSlice time reads) (htime : time ≤ time')
    : Quiet fromSlice time' reads := by
  intro pre r post heq sig hsig hraises
  exact Nat.le_trans (h pre r post heq sig hsig hraises) htime

theorem Raises.mono {before before' : List Signal} {sig : Signal} (h : Raises before sig) (hsub : before' ⊆ before)
    : Raises before' sig := by
  cases sig with
  | bytes count => exact ⟨h.1, fun c hc => h.2 c (hsub hc)⟩
  | verified relpath => exact fun p hp => h p (hsub hp)

theorem heed_idle {c : Liveness} {now : Nanos} (h : c.idleSince ≤ now) (sig : Option Signal)
    : c.idleSince ≤ (c.heed now sig).idleSince := by
  unfold Liveness.heed
  split
  . unfold Liveness.observe
    dsimp only
    split
    . exact Nat.le_refl _
    . exact h
  . unfold Liveness.observeVerified
    split
    . exact Nat.le_refl _
    . exact h
  . exact Nat.le_refl _

theorem Inv.here_sub {s : State} {f : Follow} (h : Inv fromSlice s) (hfollow : s.follow = some f)
    : signals fromSlice s.here ⊆ signals fromSlice (s.readsOf f.name) := by
  intro sig hsig
  rcases List.mem_filterMap.mp hsig with ⟨r, hr, heq⟩
  rcases h.here r hr with ⟨hmem, hcurrent⟩
  rw [current_follow hfollow, Option.some.injEq] at hcurrent
  exact List.mem_filterMap.mpr ⟨r, List.mem_filter.mpr ⟨hmem, by simp [hcurrent]⟩, heq⟩

theorem AllQuiet.read {s : State} {f : Follow} {c : Liveness} {record : Bytes} {rest : List Bytes} {now : Nanos}
    (h : AllQuiet fromSlice s) (hinv : Inv fromSlice s) (hfollow : s.follow = some f) (hclock : s.clock = some c)
    (hqueue : f.queue = record :: rest) (hnow : s.now ≤ now) (hfits : Unsaturated fromSlice s (.record now))
    : AllQuiet fromSlice (s.read fromSlice f c record now) := by
  have hlive := hinv.live c hclock
  have hmono := heed_idle (Nat.le_trans hlive.idle hnow) (signal fromSlice record)
  rintro c' ⟨⟩ name
  rw [handle_clock]
  have hold := (h c hclock name).later hmono
  show Quiet fromSlice _ (List.filter (fun r => r.pod = name) (s.reads ++ [⟨now, f.name, record⟩]))
  rw [List.filter_append]
  by_cases hname : f.name = name
  . subst hname
    rw [List.filter_cons_of_pos (by simp), List.filter_nil]
    apply Trace.Before.append hold
    intro pre r post heq sig hsig hraises
    rcases List.cons_eq_append_iff.mp heq with ⟨rfl, hr⟩ | ⟨pre', rfl, hpost⟩
    . rw [List.cons_eq_cons] at hr
      rw [List.append_nil] at hraises
      rcases hr with ⟨rfl, _⟩
      have hsignal : signal fromSlice record = some sig := hsig
      have hraised := @Live.raised _ _ _ _ hlive _ now (hraises.mono (hinv.here_sub hfollow)) ?_
      . rw [hsignal, hraised]
      . rintro count rfl
        apply hfits now rfl f c record hfollow hclock (by rw [hqueue]; rfl)
        unfold signal at hsignal
        split at hsignal
        . next count' hcount =>
          cases hsignal
          exact hcount
        . rcases Option.map_eq_some_iff.mp hsignal with ⟨p, _, hp⟩
          cases hp
    . simp at hpost
  . rw [List.filter_cons_of_neg (by simp [hname]), List.filter_nil, List.append_nil]
    exact hold

theorem AllQuiet.look {s s' : State} {listing : Option (List Pod)} {now later : Nanos} (h : AllQuiet fromSlice s)
    (hinv : Inv fromSlice s) (hlooked : Looked s listing now later s')
    : AllQuiet fromSlice s' := by
  have hturn : ∀ name, AllQuiet fromSlice (s.turn name).1 := by
    intro name
    rcases turn_cases s name with ⟨a, _, _, heq⟩ | ⟨_, heq⟩
    . rw [heq]
      intro c hc
      rcases Option.map_eq_some_iff.mp hc with ⟨old, hold, rfl⟩
      exact h old hold
    . rw [heq]
      exact h
  cases hlooked with
  | nowhere => exact h
  | waiting l => exact hturn l.name
  | running l clock follow hlook hrunning hclock hf =>
    rintro c ⟨⟩ name
    cases hold : (s.turn l.name).1.clock with
    | some c =>
      rw [hclock, hold]
      exact hturn l.name c hold name
    | none =>
      have hreads := (hinv.turn l.name).1.blank hold
      show Quiet fromSlice _ ((s.turn l.name).1.reads.filter (·.pod = name))
      rw [hreads]
      exact Trace.before_nil

theorem AllQuiet.step {s s' : State} {event : Event} {shown : List UInt64} (h : AllQuiet fromSlice s)
    (hinv : Inv fromSlice s) (hfits : Unsaturated fromSlice s event) (hmoved : Moved fromSlice s event s' shown)
    : AllQuiet fromSlice s' := by
  cases hmoved with
  | look _ _ _ hlooked => exact h.look hinv hlooked
  | record hfollow hclock hqueue hnow => exact h.read hinv hfollow hclock hqueue hnow hfits
  | opened | reattach | chunk | finish => exact h

theorem Tracked.look {s s' : State} {listing : Option (List Pod)} {now later : Nanos} (h : Tracked s)
    (hinv : Inv fromSlice s) (hfollow : s.follow = none) (hfresh : Fresh s (.look listing now later))
    (hlooked : Looked s listing now later s')
    : Tracked s' := by
  have hturn : ∀ name, Tracked (s.turn name).1 := by
    intro name
    rcases turn_cases s name with ⟨a, _, _, heq⟩ | ⟨_, heq⟩
    . rw [heq]
      intro other hcurrent
      rw [State.current, hfollow] at hcurrent
      cases hcurrent
    . rw [heq]
      exact h
  cases hlooked with
  | nowhere => exact h
  | waiting l => exact hturn l.name
  | running l clock follow hlook hrunning hclock hf =>
    intro name hcurrent
    rcases hf with rfl | ⟨f, rfl, hname, _⟩
    . apply hturn l.name name
      rw [← hcurrent, State.current, State.current, turn_follow]
      rfl
    . have heq : name = l.name := by
        rw [current_follow rfl, Option.some.injEq, hname] at hcurrent
        exact hcurrent.symm
      subst heq
      show (s.turn l.name).1.here = (s.turn l.name).1.readsOf l.name
      by_cases hsame : s.current = some l.name
      . rcases turn_cases s l.name with ⟨a, ha, hne, _⟩ | ⟨_, heq⟩
        . rw [State.current, hfollow, ha] at hsame
          exact absurd (Option.some.inj hsame) hne
        . rw [heq]
          exact h l.name hsame
      . have hblank : (s.turn l.name).1.here = [] := by
          rcases turn_cases s l.name with ⟨a, _, _, heq⟩ | ⟨hnames, heq⟩
          . rw [heq]
          . rw [heq]
            apply List.eq_nil_iff_forall_not_mem.mpr
            intro r hr
            have hcurrent := (hinv.here r hr).2
            apply hsame
            rw [State.current, hfollow, Option.map_none, Option.none_or] at hcurrent ⊢
            rcases Option.map_eq_some_iff.mp hcurrent with ⟨a, ha, _⟩
            rw [ha, Option.map_some, hnames a ha]
        rw [hblank, State.readsOf, turn_reads]
        exact (hfresh l hlook hsame).symm

theorem Tracked.step {s s' : State} {event : Event} {shown : List UInt64} (h : Tracked s)
    (hinv : Inv fromSlice s) (hfresh : Fresh s event) (hmoved : Moved fromSlice s event s' shown)
    : Tracked s' := by
  cases hmoved with
  | look hfollow _ _ hlooked => exact h.look hinv hfollow hfresh hlooked
  | @record f c record rest now hfollow hclock hqueue hnow =>
    intro name hcurrent
    have heq : name = f.name := (Option.some.inj hcurrent).symm
    subst heq
    show s.here ++ [_] = List.filter (fun r => r.pod = f.name) (s.reads ++ [_])
    rw [List.filter_append, List.filter_cons_of_pos (by simp), List.filter_nil,
      h f.name (current_follow hfollow), State.readsOf]
  | @opened f hfollow | @reattach _ f hfollow | @chunk _ f hfollow | @finish f hfollow =>
    intro name hcurrent
    apply h name
    rw [current_follow hfollow]
    exact hcurrent

/--
What the row has shown so far: never less than before, never more than the clock would show now.
-/
structure Shown (counts : List UInt64) (s : State) : Prop where
  sorted : counts.Pairwise fun a b => a.toNat ≤ b.toNat
  below : ∀ n ∈ counts, n.toNat ≤ s.total.toNat
  last : ∀ n ∈ counts, ∃ c ∈ s.clock, n.toNat ≤ c.shown.toNat

theorem shown_heed (c : Liveness) (now : Nanos) (sig : Option Signal)
    : c.shown.toNat ≤ (c.heed now sig).shown.toNat := by
  rw [shown_toNat, shown_toNat, heed_total]
  have := heed_transferred c now sig
  omega

theorem shown_nextAttempt (c : Liveness) : c.nextAttempt.shown = c.shown := rfl

theorem displayed_handle (c : Liveness) (record : Bytes) (now : Nanos)
    : ∀ n ∈ displayed (State.handle fromSlice c record now).2, n = (State.handle fromSlice c record now).1.shown := by
  unfold State.handle
  split
  . intro n hn
    exact List.mem_singleton.mp hn
  . split
    . intro n hn
      split at hn
      . cases hn
      . cases hn
    . intro n hn
      cases hn

theorem Shown.keep {counts : List UInt64} {s s' : State} (h : Shown counts s) (htotal : s'.total = s.total)
    (hclock : ∀ c ∈ s.clock, ∃ c' ∈ s'.clock, c.shown.toNat ≤ c'.shown.toNat)
    : Shown counts s' where
  sorted := h.sorted
  below := by
    rw [htotal]
    exact h.below
  last := by
    intro n hn
    rcases h.last n hn with ⟨c, hc, hle⟩
    rcases hclock c hc with ⟨c', hc', hle'⟩
    exact ⟨c', hc', Nat.le_trans hle hle'⟩

theorem Shown.append {counts new : List UInt64} {s : State} {c : Liveness} (h : Shown counts s)
    (hclock : s.clock = some c) (htotal : c.total = s.total) (hnew : ∀ n ∈ new, n = c.shown)
    : Shown (counts ++ new) s where
  sorted := by
    rw [List.pairwise_append]
    refine ⟨h.sorted, ?_, ?_⟩
    . apply List.pairwise_of_forall_mem_list
      intro a ha b hb
      rw [hnew a ha, hnew b hb]
    . intro a ha b hb
      rcases h.last a ha with ⟨c', hc', hle⟩
      rw [hclock] at hc'
      cases hc'
      rw [hnew b hb]
      exact hle
  below := by
    intro n hn
    rcases List.mem_append.mp hn with hn | hn
    . exact h.below n hn
    . rw [hnew n hn, shown_toNat, htotal]
      exact Nat.min_le_right _ _
  last := by
    intro n hn
    rcases List.mem_append.mp hn with hn | hn
    . exact h.last n hn
    . exact ⟨c, hclock, by rw [hnew n hn]⟩

theorem Shown.look {counts : List UInt64} {s s' : State} {listing : Option (List Pod)} {now later : Nanos}
    (h : Shown counts s) (hlooked : Looked s listing now later s')
    : Shown counts s' := by
  have hturn : ∀ name, ∀ c ∈ s.clock, ∃ c' ∈ (s.turn name).1.clock, c.shown.toNat ≤ c'.shown.toNat := by
    intro name c hc
    rcases turn_cases s name with ⟨a, _, _, heq⟩ | ⟨_, heq⟩
    . rw [heq]
      exact ⟨c.nextAttempt, Option.map_eq_some_iff.mpr ⟨c, hc, rfl⟩, by rw [shown_nextAttempt]⟩
    . rw [heq]
      exact ⟨c, hc, Nat.le_refl _⟩
  cases hlooked with
  | nowhere => exact h.keep rfl fun c hc => ⟨c, hc, Nat.le_refl _⟩
  | waiting l => exact h.keep (turn_total s l.name) (hturn l.name)
  | running l clock follow hlook hrunning hclock =>
    have hkept : ∀ c ∈ s.clock, ∃ c' ∈ some clock, c.shown.toNat ≤ c'.shown.toNat := by
      intro c hc
      rcases hturn l.name c hc with ⟨c', hc', hle⟩
      refine ⟨clock, rfl, ?_⟩
      rw [hclock, hc']
      exact hle
    exact h.keep (turn_total s l.name) hkept

theorem Shown.step {counts new : List UInt64} {s s' : State} {event : Event} (h : Shown counts s)
    (hinv : Inv fromSlice s) (hmoved : Moved fromSlice s event s' new)
    : Shown (counts ++ new) s' := by
  cases hmoved with
  | look _ _ _ hlooked =>
    rw [List.append_nil]
    exact h.look hlooked
  | @record f c record rest now hfollow hclock hqueue hnow =>
    have hlive := (@Inv.read _ _ _ _ record _ hinv hfollow hclock hnow).live _ rfl
    have hkept : Shown counts (s.read fromSlice f c record now) := by
      refine ⟨h.sorted, h.below, ?_⟩
      intro n hn
      rcases h.last n hn with ⟨c', hc', hle⟩
      rw [hclock] at hc'
      cases hc'
      refine ⟨_, rfl, ?_⟩
      rw [handle_clock]
      exact Nat.le_trans hle (shown_heed c now _)
    exact hkept.append rfl hlive.total (displayed_handle c record now)
  | opened | reattach | chunk | finish =>
    rw [List.append_nil]
    exact h.keep rfl fun c hc => ⟨c, hc, Nat.le_refl _⟩

end Invariant

section Run

variable {fromSlice : Json} {total : UInt64} {start : Nanos}

theorem inv_exec {events : List Event} {s : State}
    (hexec : Run.exec (State.step fromSlice) (.init total start) events = .ok s)
    : Inv fromSlice s := by
  apply Run.exec_invariant ?_ (inv_init fromSlice total start) hexec
  intro s event s' rows hinv hstep
  exact hinv.step (moved_of_step hstep)

theorem quiet_exec {events : List Event} {s : State}
    (hexec : Run.exec (State.step fromSlice) (.init total start) events = .ok s)
    (halong : Run.Along (State.step fromSlice) (Unsaturated fromSlice) (.init total start) events)
    : AllQuiet fromSlice s := by
  have hboth : Inv fromSlice s ∧ AllQuiet fromSlice s := by
    apply Run.exec_invariant_along ?_ ⟨inv_init fromSlice total start, nofun⟩ halong hexec
    rintro s event s' rows ⟨hinv, hquiet⟩ hfits hstep
    have hmoved := moved_of_step hstep
    exact ⟨hinv.step hmoved, hquiet.step hinv hfits hmoved⟩
  exact hboth.2

theorem tracked_exec {events : List Event} {s : State}
    (hexec : Run.exec (State.step fromSlice) (.init total start) events = .ok s)
    (halong : Run.Along (State.step fromSlice) Fresh (.init total start) events)
    : Tracked s := by
  have hboth : Inv fromSlice s ∧ Tracked s := by
    apply Run.exec_invariant_along ?_ ⟨inv_init fromSlice total start, nofun⟩ halong hexec
    rintro s event s' rows ⟨hinv, htracked⟩ hfresh hstep
    have hmoved := moved_of_step hstep
    exact ⟨hinv.step hmoved, htracked.step hinv hfresh hmoved⟩
  exact hboth.2

theorem displayed_concat (past : List (List Row)) (rows : List Row)
    : displayed (past ++ [rows]).flatten = displayed past.flatten ++ displayed rows := by
  rw [List.flatten_append, displayed, List.filterMap_append, ← displayed, ← displayed]
  simp

theorem moved_total {s s' : State} {event : Event} {shown : List UInt64} (hmoved : Moved fromSlice s event s' shown)
    : s'.total = s.total := by
  cases hmoved with
  | look _ _ _ hlooked =>
    cases hlooked with
    | nowhere => rfl
    | waiting l => exact turn_total s l.name
    | running l => exact turn_total s l.name
  | opened | reattach | chunk | record | finish => rfl

theorem shown_outputs (fromSlice : Json) (total : UInt64) (start : Nanos) (events : List Event)
    : ∃ s, Shown (displayed (Run.outputs (State.step fromSlice) (.init total start) events).flatten) s ∧
        s.total = total := by
  have hboth := @Run.outputs_invariant _ _ _ _ (State.step fromSlice)
    (fun past s => Inv fromSlice s ∧ Shown (displayed past.flatten) s ∧ s.total = total) ?_ _ []
    ⟨inv_init fromSlice total start, ⟨List.Pairwise.nil, nofun, nofun⟩, rfl⟩ events
  . rcases hboth with ⟨s, _, hshown, htotal⟩
    exact ⟨s, hshown, htotal⟩
  . rintro past s event s' rows ⟨hinv, hshown, htotal⟩ hstep
    have hmoved := moved_of_step hstep
    refine ⟨hinv.step hmoved, ?_, ?_⟩
    . rw [displayed_concat]
      exact hshown.step hinv hmoved
    . rw [moved_total hmoved, htotal]

-- When the wait ended for the silence.
def endOf : Event → Option Nanos
  | .look _ _ later => some later
  | .timeout now => some now
  | _ => none

theorem window_le {window now idle : Nat} (hpos : 0 < window) (h : window - (now - idle) = 0)
    : window ≤ now ∧ idle ≤ now - window := by
  omega

theorem expired_le {c : Liveness} {now : Nanos} (h : c.expired now = true)
    : stallWindow ≤ now ∧ c.idleSince ≤ now - stallWindow :=
  window_le (by decide) (of_decide_eq_true h)

/--
A step that ends the wait is a turn of the loop or a read that timed out.
-/
theorem stalled_cases {s : State} {event : Event} {stall : Stall}
    (h : s.step fromSlice event = .error (.ended stall))
    : (∃ listing now later, event = .look listing now later ∧ Ended s listing now later stall) ∨
        ∃ now c, event = .timeout now ∧ s.clock = some c ∧ c.expired now = true ∧ stall = c.stall := by
  cases event with
  | look listing now later =>
    simp only [State.step] at h
    split at h
    . exact Or.inl ⟨listing, now, later, rfl, ended_of_error h⟩
    . cases h
  | timeout now =>
    simp only [State.step] at h
    split at h
    . next f c hfollow hclock =>
      split at h
      . next hguard =>
        cases h
        exact Or.inr ⟨now, c, rfl, hclock, hguard.2.2.2, rfl⟩
      . cases h
    . cases h
  | opened ok =>
    simp only [State.step] at h
    split at h
    . split at h
      . cases h
      . split at h
        . cases h
        . cases h
    . cases h
  | record now =>
    simp only [State.step] at h
    split at h
    . split at h
      . split at h
        . cases h
        . cases h
      . cases h
    . cases h
  | chunk bytes =>
    simp only [State.step] at h
    split at h
    . split at h
      . cases h
      . cases h
    . cases h
  | eof =>
    simp only [State.step] at h
    split at h
    . split at h
      . cases h
      . cases h
    . cases h
  | dropped =>
    simp only [State.step] at h
    split at h
    . split at h
      . cases h
      . cases h
    . cases h

theorem AllQuiet.stalled {s : State} (h : AllQuiet fromSlice s) (hinv : Inv fromSlice s) {event : Event} {stall : Stall}
    (hran : stall.ran = true) (hstep : s.step fromSlice event = .error (.ended stall))
    : ∃ now ∈ endOf event, stallWindow ≤ now ∧ ∀ name, Quiet fromSlice (now - stallWindow) (s.readsOf name) := by
  rcases stalled_cases hstep with ⟨listing, now, later, rfl, hended⟩ | ⟨now, c, rfl, hclock, hexpired, _⟩
  . cases hended with
    | waiting l start hlook hpending hstart =>
      rcases observe_stall hstart with ⟨_, _, rfl, _⟩ | ⟨_, rfl, _⟩
      . cases hran
      . cases hran
    | running l clock hlook hclock hexpired =>
      rcases expired_le hexpired with ⟨hwindow, hidle⟩
      refine ⟨later, rfl, hwindow, ?_⟩
      intro name
      cases hold : s.clock with
      | none =>
        rw [State.readsOf, hinv.blank hold]
        exact Trace.before_nil
      | some c =>
        have hsame : clock.idleSince = c.idleSince := by
          rw [hclock]
          rcases turn_cases s l.name with ⟨a, _, _, heq⟩ | ⟨_, heq⟩
          . rw [heq, hold]
            rfl
          . rw [heq, hold]
            rfl
        apply (h c hold name).later
        rw [← hsame]
        exact hidle
  . rcases expired_le hexpired with ⟨hwindow, hidle⟩
    exact ⟨now, rfl, hwindow, fun name => (h c hclock name).later hidle⟩

/--
A record that the attempt has read before is none for the clock.
-/
theorem Inv.replayed {s s' : State} (h : Inv fromSlice s) (htracked : Tracked s) {now : Nanos} {rows : List Row}
    (hstep : s.step fromSlice (.record now) = .ok (s', rows)) {f : Follow} (hf : f ∈ s.follow) {record : Bytes}
    (hrecord : record ∈ f.queue.head?) {r : Read} (hr : r ∈ s.readsOf f.name) (heq : r.record = record)
    : s'.clock = s.clock := by
  have hmoved := moved_of_step hstep
  generalize displayed rows = shown at hmoved
  cases hmoved with
  | @record f' c record' rest _ hfollow hclock hqueue hnow =>
    rw [hfollow] at hf
    cases hf
    rw [hqueue] at hrecord
    cases hrecord
    show some (State.handle fromSlice c record now).1 = s.clock
    rw [handle_clock, hclock]
    congr 1
    cases hsignal : signal fromSlice record with
    | none => rfl
    | some sig =>
      apply (h.live c hclock).replayed
      rw [htracked f.name (current_follow hfollow)]
      exact List.mem_filterMap.mpr ⟨r, hr, by rw [heq, hsignal]⟩
  | reattach _ _ hevent =>
    rcases hevent with hevent | hevent
    . cases hevent
    . cases hevent

/--
What `watch_puller` may end a run for, and what it shows. Where only one pod is ever unscheduled, that
pod was unscheduled at every look over `PENDING_TIMEOUT`; where an image error is of one pod until a
pending look without one, that pod had one at every look over `IMAGE_PULL_GRACE`; where no sum of
byte counts saturates, nothing that was read in the last `STALL_WINDOW` raised the signals of its pod;
and where the loop turns to unread pods only, a record that was read before does not move the clock.
-/
theorem watch_puller_verdict {events : List Event} {s : State}
    (hexec : Run.exec (State.step fromSlice) (.init total start) events = .ok s) (event : Event)
    : (∀ reason elapsed, s.step fromSlice event = .error (.ended (.unschedulable reason elapsed)) →
          Run.Along (State.step fromSlice) OnePodUnscheduled (.init total start) (events ++ [event]) →
          ∃ l ∈ lookOf event, Observed Look.unscheduled (s.looks ++ [l]) l.name PodStatus.pendingTimeout l.now) ∧
        (∀ reason, s.step fromSlice event = .error (.ended (.imagePull reason)) →
          Run.Along (State.step fromSlice) OnePodErring (.init total start) (events ++ [event]) →
          ∃ l ∈ lookOf event, l.status.imageError = some reason ∧ (reason = "InvalidImageName" ∨
            Observed Look.erring (s.looks ++ [l]) l.name PodStatus.imagePullGrace l.now)) ∧
        (∀ stall, stall.ran = true → s.step fromSlice event = .error (.ended stall) →
          Run.Along (State.step fromSlice) (Unsaturated fromSlice) (.init total start) events →
          ∃ now ∈ endOf event, stallWindow ≤ now ∧ ∀ name, Quiet fromSlice (now - stallWindow) (s.readsOf name)) ∧
        (Run.Along (State.step fromSlice) Fresh (.init total start) events →
          ∀ now s' rows, event = .record now → s.step fromSlice event = .ok (s', rows) →
            ∀ f ∈ s.follow, ∀ record ∈ f.queue.head?, (∃ r ∈ s.readsOf f.name, r.record = record) →
              s'.clock = s.clock) ∧
        (displayed (Run.outputs (State.step fromSlice) (.init total start) events).flatten).Pairwise
          (fun a b => a.toNat ≤ b.toNat) ∧
        ∀ n ∈ displayed (Run.outputs (State.step fromSlice) (.init total start) events).flatten,
          n.toNat ≤ total.toNat := by
  have hinv := inv_exec hexec
  refine ⟨?_, ?_, ?_, ?_, ?_⟩
  . intro reason elapsed hstep halong
    rcases stalled_cases hstep with ⟨listing, now, later, rfl, hended⟩ | ⟨now, c, rfl, _, _, hstall⟩
    . exact hinv.starts.unschedulable hended (halong.get hexec)
    . exact absurd hstall.symm ((stall_ran c).1 reason elapsed)
  . intro reason hstep halong
    rcases stalled_cases hstep with ⟨listing, now, later, rfl, hended⟩ | ⟨now, c, rfl, _, _, hstall⟩
    . exact hinv.starts.imagePull hended (halong.get hexec)
    . exact absurd hstall.symm ((stall_ran c).2 reason)
  . intro stall hran hstep halong
    exact (quiet_exec hexec halong).stalled hinv hran hstep
  . rintro halong now s' rows rfl hstep f hf record hrecord ⟨r, hr, heq⟩
    exact hinv.replayed (tracked_exec hexec halong) hstep hf hrecord hr heq
  . rcases shown_outputs fromSlice total start events with ⟨t, hshown, htotal⟩
    refine ⟨hshown.sorted, ?_⟩
    intro n hn
    have hbelow := hshown.below n hn
    rw [htotal] at hbelow
    exact hbelow

end Run

section Sample

-- A Job pod that no scheduler has looked at yet, and one whose container runs.
def unplaced (name : String) : Pod := ⟨some name, none⟩

def started (name : String) : Pod := ⟨some name, some ⟨some "Running", none, none⟩⟩

def silent : Json := fun _ => none

def lone : List Event := [.look (some [unplaced "a"]) 0 0]

theorem lone_onePod
    : Run.Along (State.step silent) OnePodUnscheduled (.init 0 0)
        (lone ++ [.look (some [unplaced "a"]) (secs 300) (secs 300)]) := by
  apply Run.along_cons ?_ rfl
  . refine ⟨?_, fun _ _ _ => trivial⟩
    intro l hl _ first rest h
    cases hl
    cases h
    refine ⟨rfl, ?_⟩
    intro x hx _
    cases List.mem_singleton.mp hx
    rfl
  . intro l _ _ first rest h
    cases h

theorem lone_unschedulable : ∃ s, Run.exec (State.step silent) (.init 0 0) lone = .ok s ∧
    ∃ l ∈ lookOf (.look (some [unplaced "a"]) (secs 300) (secs 300)),
      Observed Look.unscheduled (s.looks ++ [l]) l.name PodStatus.pendingTimeout l.now := by
  obtain ⟨s, hexec⟩ : ∃ s, Run.exec (State.step silent) (.init 0 0) lone = .ok s := ⟨_, rfl⟩
  refine ⟨s, hexec, ?_⟩
  apply (watch_puller_verdict hexec _).1 "no PodScheduled condition" (secs 300) ?_ lone_onePod
  cases hexec
  rfl

-- The first pod ran and died, the second one is looked at for the first time.
def retried : List Event :=
  [.look (some [unplaced "a"]) 0 0, .look (some [started "a"]) (secs 10) (secs 10), .opened true, .eof]

theorem retried_unschedulable
    : ¬∀ (fromSlice : Json) (total : UInt64) (start : Nanos) (events : List Event) (s : State) (event : Event)
        (reason : String) (elapsed : Nanos),
        Run.exec (State.step fromSlice) (.init total start) events = .ok s →
          s.step fromSlice event = .error (.ended (.unschedulable reason elapsed)) →
            ∃ l ∈ lookOf event,
              Observed Look.unscheduled (s.looks ++ [l]) l.name PodStatus.pendingTimeout l.now := by
  intro h
  rcases h silent 0 0 retried _ (.look (some [unplaced "a", unplaced "b"]) (secs 300) (secs 300)) _ _ rfl rfl with
    ⟨l, hl, before, first, rest, hlooks, hname, hwindow, _⟩
  cases hl
  have hfirst : first ∈ before ++ first :: rest := List.mem_append_right _ List.mem_cons_self
  rw [← hlooks] at hfirst
  -- Only the last look is at the second pod.
  have hlast : first.now = secs 300 := by
    rcases List.mem_cons.mp hfirst with rfl | hfirst
    . exact absurd hname (by decide)
    . rcases List.mem_cons.mp hfirst with rfl | hfirst
      . exact absurd hname (by decide)
      . rw [List.mem_singleton.mp hfirst]
  rw [hlast] at hwindow
  exact absurd hwindow (by decide)

end Sample

end Watch
end Materialize
