import Ztest.Materialize.Watch.Lemmas.Clocks

namespace Materialize
namespace Watch

def displayed (rows : List Row) : List UInt64 :=
  rows.filterMap fun row =>
    match row with
    | .bytes shown _ => some shown
    | _ => none

/--
What a step does to the state, and the byte counts that it shows.
-/
inductive Moved (fromSlice : Json) (s : State) : Event → State → List UInt64 → Prop where
  | look {listing : Option (List Pod)} {now later : Nanos} {s' : State} (hfollow : s.follow = none)
      (hnow : s.now ≤ now) (hlater : now ≤ later) (h : Looked s listing now later s') :
      Moved fromSlice s (.look listing now later) s' []
  | opened {f : Follow} (h : s.follow = some f) :
      Moved fromSlice s (.opened true) { s with follow := some { f with opened := true } } []
  | reattach (event : Event) {f : Follow} (h : s.follow = some f) (hevent : event = .opened false ∨ event = .dropped) :
      Moved fromSlice s event (s.reattach f.name).1 []
  | chunk (bytes : Bytes) {f : Follow} (h : s.follow = some f) :
      Moved fromSlice s (.chunk bytes) { s with follow := some (State.receive f bytes) } []
  | record {f : Follow} {c : Liveness} {record : Bytes} {rest : List Bytes} {now : Nanos} (h : s.follow = some f)
      (hclock : s.clock = some c) (hqueue : f.queue = record :: rest) (hnow : s.now ≤ now) :
      Moved fromSlice s (.record now) (s.read fromSlice f c record now)
        (displayed (State.handle fromSlice c record now).2)
  | finish {f : Follow} (h : s.follow = some f) : Moved fromSlice s .eof (s.finish f).1 []

theorem displayed_settle (pod : Pod) : displayed [settle pod] = [] := by
  unfold settle
  split <;> rfl

theorem displayed_turn (s : State) (name : String) : displayed (s.turn name).2 = [] := by
  unfold State.turn
  split
  . split <;> rfl
  . rfl

theorem displayed_look {s s' : State} {listing : Option (List Pod)} {now later : Nanos} {rows : List Row}
    (h : s.look listing now later = .ok (s', rows))
    : displayed rows = [] := by
  unfold State.look at h
  split at h
  . cases h
    rfl
  . split at h
    . cases h
      rfl
    . next pod _ _ name _ =>
      rcases Run.map_ok h with ⟨r, hr, heq⟩
      rw [Prod.mk.injEq] at heq
      rcases heq with ⟨_, rfl⟩
      have hmore : displayed r.2 = [] := by
        split at hr
        . unfold State.waiting at hr
          split at hr
          . cases hr
          . cases hr
            rfl
        . unfold State.running at hr
          dsimp only at hr
          split at hr
          . cases hr
          . split at hr
            . cases hr
              exact displayed_settle pod
            . cases hr
              rfl
      rw [displayed, List.filterMap_append, ← displayed, ← displayed, displayed_turn, hmore]
      rfl

theorem moved_of_step {fromSlice : Json} {s s' : State} {event : Event} {rows : List Row}
    (h : s.step fromSlice event = .ok (s', rows))
    : Moved fromSlice s event s' (displayed rows) := by
  cases event with
  | look listing now later =>
    simp only [State.step] at h
    split at h
    . next hguard =>
      rw [displayed_look h]
      exact .look hguard.1 hguard.2.1 hguard.2.2 (looked_of_ok h)
    . cases h
  | opened ok =>
    simp only [State.step] at h
    split at h
    . next f hfollow =>
      split at h
      . cases h
      . split at h
        . next hok =>
          cases h
          rw [hok]
          exact .opened hfollow
        . next hok =>
          cases h
          exact .reattach _ hfollow (Or.inl (by simpa using hok))
    . cases h
  | chunk bytes =>
    simp only [State.step] at h
    split at h
    . next f hfollow =>
      split at h
      . cases h
        exact .chunk bytes hfollow
      . cases h
    . cases h
  | record now =>
    simp only [State.step] at h
    split at h
    . next f c hfollow hclock =>
      split at h
      . next record rest hqueue =>
        split at h
        . next hnow =>
          cases h
          exact .record hfollow hclock hqueue hnow
        . cases h
      . cases h
    . cases h
  | eof =>
    simp only [State.step] at h
    split at h
    . next f hfollow =>
      split at h
      . cases h
        rw [displayed_settle]
        exact .finish hfollow
      . cases h
    . cases h
  | dropped =>
    simp only [State.step] at h
    split at h
    . next f hfollow =>
      split at h
      . cases h
        exact .reattach _ hfollow (Or.inr rfl)
      . cases h
    . cases h
  | timeout now =>
    simp only [State.step] at h
    split at h
    . split at h
      . cases h
      . cases h
    . cases h

/--
The pod that the state is about: the followed one, or the one whose attempt it remembers.
-/
def State.current (s : State) : Option String := (s.follow.map (·.name)).or (s.attempt.map (·.name))

section Invariant

variable (fromSlice : Json)

structure Inv (s : State) : Prop where
  starts : Starts s
  agrees : ∀ f ∈ s.follow, ∀ a ∈ s.attempt, a.name = f.name
  blank : s.clock = none → s.reads = []
  live : ∀ c ∈ s.clock, Live s.total s.now (signals fromSlice s.here) c
  here : ∀ r ∈ s.here, r ∈ s.reads ∧ s.current = some r.pod

theorem inv_init (total : UInt64) (now : Nanos) : Inv fromSlice (.init total now) where
  starts := ⟨rfl, rfl⟩
  agrees := nofun
  blank _ := rfl
  live := nofun
  here := nofun

variable {fromSlice}

theorem Inv.turn {s : State} (h : Inv fromSlice s) (name : String)
    : Inv fromSlice (s.turn name).1 ∧ ∀ a ∈ (s.turn name).1.attempt, a.name = name := by
  rcases turn_cases s name with ⟨a, ha, hne, heq⟩ | ⟨hsame, heq⟩
  . rw [heq]
    refine ⟨?_, nofun⟩
    exact {
      starts := ⟨h.starts.unscheduled, h.starts.erring⟩
      agrees := nofun
      blank := by
        intro hclock
        exact h.blank (Option.map_eq_none_iff.mp hclock)
      live := by
        intro c hc
        rcases Option.map_eq_some_iff.mp hc with ⟨old, hold, rfl⟩
        exact (h.live old hold).nextAttempt
      here := nofun }
  . rw [heq]
    exact ⟨h, hsame⟩

theorem Inv.look {s s' : State} {listing : Option (List Pod)} {now later : Nanos} (h : Inv fromSlice s)
    (hfollow : s.follow = none) (hnow : s.now ≤ now) (hlater : now ≤ later)
    (hlooked : Looked s listing now later s')
    : Inv fromSlice s' := by
  have hstarts := h.starts.look hlooked
  cases hlooked with
  | nowhere =>
    exact {
      starts := hstarts
      agrees := h.agrees
      blank := h.blank
      live := fun c hc => (h.live c hc).later hnow
      here := h.here }
  | waiting l start =>
    rcases h.turn l.name with ⟨hturned, _⟩
    exact {
      starts := hstarts
      agrees := hturned.agrees
      blank := hturned.blank
      live := fun c hc => (hturned.live c hc).later (by rw [turn_now]; exact hnow)
      here := hturned.here }
  | running l clock follow hlook hrunning hclock hf =>
    rcases h.turn l.name with ⟨hturned, hnames⟩
    have hnone : (s.turn l.name).1.follow = none := by rw [turn_follow, hfollow]
    exact {
      starts := hstarts
      agrees := by
        intro f hmem a ha
        rcases hf with rfl | ⟨f', rfl, hname, _⟩
        . rw [hfollow] at hmem
          cases hmem
        . cases hmem
          rw [hname]
          exact hnames a ha
      blank := nofun
      live := by
        rintro c ⟨⟩
        cases hold : (s.turn l.name).1.clock with
        | some c =>
          rw [hclock, hold]
          apply (hturned.live c hold).later
          rw [turn_now]
          exact Nat.le_trans hnow hlater
        | none =>
          have hblank : (s.turn l.name).1.here = [] := by
            apply List.eq_nil_iff_forall_not_mem.mpr
            intro r hr
            have hmem := (hturned.here r hr).1
            rw [hturned.blank hold] at hmem
            cases hmem
          rw [hclock, hold]
          show Live (s.turn l.name).1.total later (signals fromSlice (s.turn l.name).1.here) (.new s.total now)
          rw [turn_total, hblank]
          exact (live_new s.total now).later hlater
      here := by
        intro r hr
        rcases hturned.here r hr with ⟨hmem, hcurrent⟩
        refine ⟨hmem, ?_⟩
        rw [State.current, hnone, Option.map_none, Option.none_or] at hcurrent
        rcases Option.map_eq_some_iff.mp hcurrent with ⟨a, ha, hpod⟩
        rcases hf with rfl | ⟨f, rfl, hname, _⟩
        . rw [← hcurrent, State.current, hfollow]
          rfl
        . rw [← hpod, hnames a ha, ← hname]
          rfl }

theorem current_follow {s : State} {f : Follow} (h : s.follow = some f) : s.current = some f.name := by
  rw [State.current, h]
  rfl

theorem signals_concat (reads : List Read) (r : Read)
    : signals fromSlice (reads ++ [r]) = signals fromSlice reads ++ (signal fromSlice r.record).toList := by
  rw [signals, List.filterMap_append, ← signals]
  congr 1

theorem Inv.read {s : State} {f : Follow} {c : Liveness} {record : Bytes} {now : Nanos} (h : Inv fromSlice s)
    (hfollow : s.follow = some f) (hclock : s.clock = some c) (hnow : s.now ≤ now)
    : Inv fromSlice (s.read fromSlice f c record now) where
  starts := ⟨h.starts.unscheduled, h.starts.erring⟩
  agrees := by
    rintro f' ⟨⟩ a ha
    exact h.agrees f hfollow a ha
  blank := nofun
  live := by
    rintro c' ⟨⟩
    show Live s.total now (signals fromSlice (s.here ++ [⟨now, f.name, record⟩])) _
    rw [signals_concat, handle_clock]
    exact (h.live c hclock).heed hnow
  here := by
    intro r hr
    rcases List.mem_append.mp hr with hr | hr
    . rcases h.here r hr with ⟨hmem, hcurrent⟩
      rw [current_follow hfollow] at hcurrent
      exact ⟨List.mem_append_left _ hmem, hcurrent⟩
    . rw [List.mem_singleton.mp hr]
      exact ⟨List.mem_append_right _ List.mem_cons_self, rfl⟩

theorem Inv.current {s : State} (h : Inv fromSlice s) {follow : Option Follow} {attempt : Option Attempt}
    (hagrees : ∀ f ∈ follow, ∀ a ∈ attempt, a.name = f.name)
    (hcurrent : { s with follow, attempt }.current = s.current)
    : Inv fromSlice { s with follow, attempt } where
  starts := ⟨h.starts.unscheduled, h.starts.erring⟩
  agrees := hagrees
  blank := h.blank
  live := h.live
  here r hr := ⟨(h.here r hr).1, by rw [hcurrent]; exact (h.here r hr).2⟩

theorem Inv.step {s s' : State} {event : Event} {shown : List UInt64} (h : Inv fromSlice s)
    (hmoved : Moved fromSlice s event s' shown)
    : Inv fromSlice s' := by
  cases hmoved with
  | look hfollow hnow hlater hlooked => exact h.look hfollow hnow hlater hlooked
  | @opened f hfollow =>
    apply h.current
    . rintro f' ⟨⟩ a ha
      exact h.agrees f hfollow a ha
    . rw [current_follow hfollow]
      rfl
  | @reattach _ f hfollow =>
    apply h.current
    . nofun
    . rw [current_follow hfollow]
      rfl
  | @chunk bytes f hfollow =>
    apply h.current
    . rintro f' ⟨⟩ a ha
      exact h.agrees f hfollow a ha
    . rw [current_follow hfollow]
      rfl
  | record hfollow hclock _ hnow => exact h.read hfollow hclock hnow
  | @finish f hfollow =>
    apply h.current
    . nofun
    . rw [current_follow hfollow]
      rfl

end Invariant

end Watch
end Materialize
