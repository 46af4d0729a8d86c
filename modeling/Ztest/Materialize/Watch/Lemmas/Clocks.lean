import Ztest.Materialize.Watch.Impl
import Ztest.Lib.Trace

/-!
This module contains the clocks of `watch_puller`. That of the transfer: what it says about the signals
of the attempt so far, and what moves it. The two of a pod that has not started: each is a stopwatch over the
looks at all pods, so it says something about one pod only where that pod has set it.
-/

namespace Materialize
namespace Watch

inductive Signal where
  | bytes (count : UInt64)
  | verified (relpath : Bytes)

section Live

variable (fromSlice : Json)

def signal (record : Bytes) : Option Signal :=
  match statsBytes fromSlice record with
  | some count => some (.bytes count)
  | none => (verifiedPath record).map .verified

def signals (reads : List Read) : List Signal := reads.filterMap fun r => signal fromSlice r.record

def Liveness.heed (c : Liveness) (now : Nanos) : Option Signal → Liveness
  | some (.bytes count) => c.observe count now
  | some (.verified relpath) => c.observeVerified relpath now
  | none => c

theorem handle_clock (c : Liveness) (record : Bytes) (now : Nanos)
    : (State.handle fromSlice c record now).1 = c.heed now (signal fromSlice record) := by
  unfold State.handle signal
  cases statsBytes fromSlice record with
  | some count => rfl
  | none => cases verifiedPath record <;> rfl

end Live

/--
More bytes than before, or a later path.
-/
def Raises (before : List Signal) : Signal → Prop
  | .bytes count => 0 < count.toNat ∧ ∀ c, .bytes c ∈ before → c.toNat < count.toNat
  | .verified relpath => ∀ p, .verified p ∈ before → p < relpath

def top (signals : List Signal) : Nat :=
  signals.foldr (fun signal high => match signal with | .bytes count => max count.toNat high | .verified _ => high) 0

theorem le_top {signals : List Signal} {count : UInt64} (h : .bytes count ∈ signals) : count.toNat ≤ top signals := by
  induction signals with
  | nil => cases h
  | cons signal rest ih =>
    have htail : top rest ≤ top (signal :: rest) := by
      cases signal with
      | bytes c => exact Nat.le_max_right _ _
      | verified p => exact Nat.le_refl _
    rcases List.mem_cons.mp h with rfl | h
    . exact Nat.le_max_left _ _
    . exact Nat.le_trans (ih h) htail

theorem top_lt {signals : List Signal} {n : Nat} (hpos : 0 < n) (h : ∀ c, .bytes c ∈ signals → c.toNat < n)
    : top signals < n := by
  induction signals with
  | nil => exact hpos
  | cons signal rest ih =>
    have htail := ih fun c hc => h c (List.mem_cons_of_mem _ hc)
    cases signal with
    | bytes c => exact Nat.max_lt.mpr ⟨h c List.mem_cons_self, htail⟩
    | verified p => exact htail

theorem top_concat (signals : List Signal) (signal : Signal)
    : top (signals ++ [signal]) = max (top signals) (top [signal]) := by
  induction signals with
  | nil => simp [top]
  | cons s rest ih =>
    cases s with
    | bytes c =>
      show max c.toNat (top (rest ++ [signal])) = max (max c.toNat (top rest)) (top [signal])
      rw [ih, Nat.max_assoc]
    | verified p =>
      show top (rest ++ [signal]) = max (top rest) (top [signal])
      exact ih

/--
The transfer's clock after the signals of the attempt so far.
-/
structure Live (total : UInt64) (now : Nanos) (signals : List Signal) (c : Liveness) : Prop where
  total : c.total = total
  transferred : c.transferred.toNat = min (c.base.toNat + top signals) (2 ^ 64 - 1)
  verified : ∀ p, .verified p ∈ signals → ∃ last ∈ c.verified, p ≤ last
  latest : ∀ last ∈ c.verified, .verified last ∈ signals
  idle : c.idleSince ≤ now

theorem live_new (total : UInt64) (now : Nanos) : Live total now [] (.new total now) where
  total := rfl
  transferred := rfl
  verified := by simp
  latest := by simp [Liveness.new]
  idle := Nat.le_refl _

section Heed

variable {total : UInt64} {now : Nanos} {signals : List Signal} {c : Liveness} (h : Live total now signals c)
include h

theorem Live.later {now' : Nanos} (hnow : now ≤ now') : Live total now' signals c :=
  { h with idle := Nat.le_trans h.idle hnow }

theorem Live.nextAttempt : Live total now [] c.nextAttempt where
  total := h.total
  transferred := by
    have := c.transferred.toNat_lt
    show c.transferred.toNat = min (c.transferred.toNat + 0) (2 ^ 64 - 1)
    omega
  verified := by simp
  latest := by simp [Liveness.nextAttempt]
  idle := h.idle

theorem Live.observe_le {count : UInt64} {now' : Nanos} (hcount : count.toNat ≤ top signals)
    : c.observe count now' = c := by
  apply if_pos
  rw [UInt64.le_iff_toNat_le, UInt64.toNat_saturatingAdd, h.transferred]
  omega

theorem Live.observe {count : UInt64} {now' : Nanos} (hnow : now ≤ now')
    : Live total now' (signals ++ [.bytes count]) (c.observe count now') := by
  have htop : top (signals ++ [.bytes count]) = max (top signals) count.toNat := by
    rw [top_concat]
    simp [top]
  by_cases hcount : count.toNat ≤ top signals
  . rw [h.observe_le hcount]
    exact {
      total := h.total
      transferred := by rw [htop, Nat.max_eq_left hcount, h.transferred]
      verified := by simpa using h.verified
      latest := by
        intro last hlast
        exact List.mem_append_left _ (h.latest last hlast)
      idle := Nat.le_trans h.idle hnow }
  . have htransferred := h.transferred
    have hsum := UInt64.toNat_saturatingAdd c.base count
    unfold Liveness.observe
    dsimp only
    split
    . next hle =>
      rw [UInt64.le_iff_toNat_le] at hle
      exact {
        total := h.total
        transferred := by
          rw [htop]
          omega
        verified := by simpa using h.verified
        latest := by
          intro last hlast
          exact List.mem_append_left _ (h.latest last hlast)
        idle := Nat.le_trans h.idle hnow }
    . exact {
        total := h.total
        transferred := by
          show (c.base.saturatingAdd count).toNat = min (c.base.toNat + _) _
          rw [htop, hsum]
          omega
        verified := by simpa using h.verified
        latest := by
          intro last hlast
          exact List.mem_append_left _ (h.latest last hlast)
        idle := Nat.le_refl _ }

theorem Live.observeVerified {relpath : Bytes} {now' : Nanos} (hnow : now ≤ now')
    : Live total now' (signals ++ [.verified relpath]) (c.observeVerified relpath now') := by
  have htop : top (signals ++ [.verified relpath]) = top signals := by
    rw [top_concat]
    simp [top]
  unfold Liveness.observeVerified
  split
  . next hlast =>
    exact {
      total := h.total
      transferred := by rw [htop, h.transferred]
      verified := by
        intro p hp
        rcases List.mem_append.mp hp with hp | hp
        . exact h.verified p hp
        . cases List.mem_singleton.mp hp
          exact hlast
      latest := by
        intro last hlast
        exact List.mem_append_left _ (h.latest last hlast)
      idle := Nat.le_trans h.idle hnow }
  . next hlast =>
    exact {
      total := h.total
      transferred := by rw [htop, h.transferred]
      verified := by
        intro p hp
        rcases List.mem_append.mp hp with hp | hp
        . rcases h.verified p hp with ⟨last, hmem, hle⟩
          refine ⟨relpath, rfl, List.le_trans hle ?_⟩
          apply List.le_of_lt
          rw [← List.not_le]
          exact fun hle => hlast ⟨last, hmem, hle⟩
        . cases List.mem_singleton.mp hp
          exact ⟨relpath, rfl, List.le_refl _⟩
      latest := by
        rintro last ⟨⟩
        exact List.mem_append_right _ List.mem_cons_self
      idle := Nat.le_refl _ }

theorem Live.heed {signal : Option Signal} {now' : Nanos} (hnow : now ≤ now')
    : Live total now' (signals ++ signal.toList) (c.heed now' signal) := by
  cases signal with
  | none =>
    rw [Option.toList_none, List.append_nil]
    exact h.later hnow
  | some signal =>
    cases signal with
    | bytes count => exact h.observe hnow
    | verified relpath => exact h.observeVerified hnow

/--
A signal that the attempt has seen leaves the clock as it is.
-/
theorem Live.replayed {signal : Signal} {now' : Nanos} (hmem : signal ∈ signals) : c.heed now' (some signal) = c := by
  cases signal with
  | bytes count => exact h.observe_le (le_top hmem)
  | verified relpath => exact if_pos (h.verified relpath hmem)

theorem Live.raised {signal : Signal} {now' : Nanos} (hraises : Raises signals signal)
    (hfits : ∀ count, signal = .bytes count → c.base.toNat + count.toNat < 2 ^ 64)
    : (c.heed now' (some signal)).idleSince = now' := by
  cases signal with
  | bytes count =>
    have hlt := top_lt hraises.1 hraises.2
    have hsum := hfits count rfl
    have htransferred := h.transferred
    have hmoves : ¬c.base.saturatingAdd count ≤ c.transferred := by
      rw [UInt64.le_iff_toNat_le, UInt64.toNat_saturatingAdd]
      omega
    show (c.observe count now').idleSince = now'
    unfold Liveness.observe
    dsimp only
    rw [if_neg hmoves]
  | verified relpath =>
    have hlater : ¬∃ last ∈ c.verified, relpath ≤ last := by
      rintro ⟨last, hlast, hle⟩
      exact List.not_le.mpr (hraises last (h.latest last hlast)) hle
    show (c.observeVerified relpath now').idleSince = now'
    rw [Liveness.observeVerified, if_neg hlater]

end Heed

theorem heed_transferred (c : Liveness) (now : Nanos) (signal : Option Signal)
    : c.transferred.toNat ≤ (c.heed now signal).transferred.toNat := by
  unfold Liveness.heed
  split
  . unfold Liveness.observe
    dsimp only
    split
    . exact Nat.le_refl _
    . next hmoves =>
      rw [UInt64.le_iff_toNat_le] at hmoves
      exact Nat.le_of_not_le hmoves
  . unfold Liveness.observeVerified
    split <;> exact Nat.le_refl _
  . exact Nat.le_refl _

theorem heed_total (c : Liveness) (now : Nanos) (signal : Option Signal) : (c.heed now signal).total = c.total := by
  unfold Liveness.heed
  split
  . unfold Liveness.observe
    dsimp only
    split <;> rfl
  . unfold Liveness.observeVerified
    split <;> rfl
  . rfl

theorem shown_toNat (c : Liveness) : c.shown.toNat = min c.transferred.toNat c.total.toNat := by
  show (if c.transferred ≤ c.total then c.transferred else c.total).toNat = _
  split
  . next hle =>
    rw [UInt64.le_iff_toNat_le] at hle
    omega
  . next hle =>
    rw [UInt64.le_iff_toNat_le] at hle
    omega

namespace Look

def unscheduled (l : Look) : Bool := l.status.isPending && !l.status.isScheduled

def erring (l : Look) : Bool := l.status.isPending && l.status.imageError.isSome

def clean (l : Look) : Bool := l.status.isPending && l.status.imageError.isNone

end Look

-- The look that a turn of the loop takes at a pod.
def lookOf : Event → Option Look
  | .look listing now _ =>
    (pullerPod listing).bind fun pod => pod.name.map fun name => ⟨now, name, pod.status.getD .default⟩
  | _ => none

/--
What one turn of the loop leaves when it does not end the wait.
-/
inductive Looked (s : State) (listing : Option (List Pod)) (now later : Nanos) : State → Prop where
  | nowhere (h : lookOf (.look listing now later) = none) : Looked s listing now later { s with now }
  | waiting (l : Look) (start : StartWatch) (h : lookOf (.look listing now later) = some l)
      (hpending : l.status.isPending = true) (hstart : s.start.observe l.status now = (start, none)) :
      Looked s listing now later { (s.turn l.name).1.see l with start, now }
  | running (l : Look) (clock : Liveness) (follow : Option Follow)
      (h : lookOf (.look listing now later) = some l) (hrunning : l.status.isPending = false)
      (hclock : clock = (s.turn l.name).1.clock.getD (.new s.total now))
      (hfollow : follow = s.follow ∨ ∃ f, follow = some f ∧ f.name = l.name ∧ f.queue = []) :
      Looked s listing now later
        { (s.turn l.name).1.see l with clock := some clock, now := later, follow }

/--
A turn either forgets the attempt or leaves the state as it is.
-/
theorem turn_cases (s : State) (name : String)
    : (∃ a, s.attempt = some a ∧ a.name ≠ name ∧
          (s.turn name).1 = { s with clock := s.clock.map Liveness.nextAttempt, attempt := none, here := [] }) ∨
        (∀ a ∈ s.attempt, a.name = name) ∧ (s.turn name).1 = s := by
  unfold State.turn
  split
  . next a ha =>
    split
    . next hne => exact Or.inl ⟨a, ha, hne, rfl⟩
    . next heq =>
      right
      refine ⟨?_, rfl⟩
      intro b hb
      rw [ha] at hb
      cases hb
      exact Decidable.not_not.mp heq
  . next ha =>
    right
    refine ⟨?_, rfl⟩
    intro b hb
    rw [ha] at hb
    cases hb

theorem turn_frame (s : State) (name : String)
    : ∃ clock attempt here, (s.turn name).1 = { s with clock, attempt, here } := by
  rcases turn_cases s name with ⟨_, _, _, heq⟩ | ⟨_, heq⟩
  . exact ⟨_, _, _, heq⟩
  . exact ⟨_, _, _, heq⟩

@[simp] theorem turn_start (s : State) (name : String) : (s.turn name).1.start = s.start := by
  rcases turn_frame s name with ⟨_, _, _, heq⟩
  rw [heq]

@[simp] theorem turn_looks (s : State) (name : String) : (s.turn name).1.looks = s.looks := by
  rcases turn_frame s name with ⟨_, _, _, heq⟩
  rw [heq]

@[simp] theorem turn_total (s : State) (name : String) : (s.turn name).1.total = s.total := by
  rcases turn_frame s name with ⟨_, _, _, heq⟩
  rw [heq]

@[simp] theorem turn_follow (s : State) (name : String) : (s.turn name).1.follow = s.follow := by
  rcases turn_frame s name with ⟨_, _, _, heq⟩
  rw [heq]

@[simp] theorem turn_now (s : State) (name : String) : (s.turn name).1.now = s.now := by
  rcases turn_frame s name with ⟨_, _, _, heq⟩
  rw [heq]

@[simp] theorem turn_reads (s : State) (name : String) : (s.turn name).1.reads = s.reads := by
  rcases turn_frame s name with ⟨_, _, _, heq⟩
  rw [heq]

theorem lookOf_named {listing : Option (List Pod)} {pod : Pod} {name : String} (now later : Nanos)
    (hpod : pullerPod listing = some pod) (hname : pod.name = some name)
    : lookOf (.look listing now later) = some ⟨now, name, pod.status.getD .default⟩ := by
  simp [lookOf, hpod, hname]

theorem looked_of_ok {s s' : State} {listing : Option (List Pod)} {now later : Nanos} {rows : List Row}
    (h : s.look listing now later = .ok (s', rows))
    : Looked s listing now later s' := by
  unfold State.look at h
  split at h
  . next hpod =>
    cases h
    exact .nowhere (by simp [lookOf, hpod])
  . next pod hpod =>
    split at h
    . next hname =>
      cases h
      exact .nowhere (by simp [lookOf, hpod, hname])
    . next name hname =>
      rcases Run.map_ok h with ⟨r, hr, heq⟩
      rw [Prod.mk.injEq] at heq
      rcases heq with ⟨rfl, _⟩
      have hlook := lookOf_named now later hpod hname
      split at hr
      . next hpending =>
        unfold State.waiting at hr
        split at hr
        . cases hr
        . next start hstart =>
          cases hr
          apply Looked.waiting _ start hlook hpending
          rw [← turn_start s name]
          exact hstart
      . next hrunning =>
        unfold State.running at hr
        dsimp only at hr
        split at hr
        . cases hr
        . split at hr
          . cases hr
            apply Looked.running _ _ _ hlook (by simpa using hrunning) _ (.inl (turn_follow s name))
            simp [State.see]
          . cases hr
            apply Looked.running _ _ _ hlook (by simpa using hrunning) _ (.inr ⟨_, rfl, rfl, rfl⟩)
            simp [State.see]

/--
A turn of the loop that ends the wait.
-/
inductive Ended (s : State) (listing : Option (List Pod)) (now later : Nanos) : Stall → Prop where
  | waiting (l : Look) (start : StartWatch) {stall : Stall} (h : lookOf (.look listing now later) = some l)
      (hpending : l.status.isPending = true) (hstart : s.start.observe l.status l.now = (start, some stall)) :
      Ended s listing now later stall
  | running (l : Look) (clock : Liveness) (h : lookOf (.look listing now later) = some l)
      (hclock : clock = (s.turn l.name).1.clock.getD (.new s.total now)) (hexpired : clock.expired later = true) :
      Ended s listing now later clock.stall

theorem ended_of_error {s : State} {listing : Option (List Pod)} {now later : Nanos} {stall : Stall}
    (h : s.look listing now later = .error (.ended stall))
    : Ended s listing now later stall := by
  unfold State.look at h
  split at h
  . cases h
  . next pod hpod =>
    split at h
    . cases h
    . next name hname =>
      have hr := Run.map_error h
      have hlook := lookOf_named now later hpod hname
      split at hr
      . next hpending =>
        unfold State.waiting at hr
        split at hr
        . next start stall' hstart =>
          cases hr
          apply Ended.waiting _ start hlook hpending
          rw [← turn_start s name]
          exact hstart
        . cases hr
      . next hrunning =>
        unfold State.running at hr
        dsimp only at hr
        split at hr
        . next hexpired =>
          cases hr
          apply Ended.running _ _ hlook _ hexpired
          simp [State.see]
        . split at hr
          . cases hr
          . cases hr

def never (_ : Look) : Bool := false

/--
Each of the two clocks is the time of the look that set the stopwatch.
-/
structure Starts (s : State) : Prop where
  unscheduled : s.start.unscheduledSince = (Stopwatch.since Look.unscheduled never s.looks).head?.map (·.now)
  erring : s.start.pullErrorSince = (Stopwatch.since Look.erring Look.clean s.looks).head?.map (·.now)

theorem observeImage_unscheduled (w : StartWatch) (status : PodStatus) (now : Nanos)
    : (w.observeImage status now).1.unscheduledSince = w.unscheduledSince := by
  unfold StartWatch.observeImage
  split <;> rfl

theorem observeImage_pullError (w : StartWatch) (status : PodStatus) (now : Nanos)
    : (w.observeImage status now).1.pullErrorSince =
        if status.imageError.isSome then w.pullErrorSince.or (some now) else none := by
  unfold StartWatch.observeImage
  split
  . next reason h =>
    rw [h]
    cases w.pullErrorSince <;> rfl
  . next h => simp [h]

theorem observe_scheduled {w : StartWatch} {status : PodStatus} {now : Nanos} (h : status.isScheduled = true)
    : w.observe status now = w.observeImage status now := by
  rw [StartWatch.observe, if_pos h]

def StartWatch.wait (w : StartWatch) (now : Nanos) : StartWatch :=
  { w with unscheduledSince := some (w.unscheduledSince.getD now) }

theorem observe_unscheduled {w : StartWatch} {status : PodStatus} {now : Nanos} (h : status.isScheduled = false)
    : w.observe status now =
        if PodStatus.pendingTimeout ≤ now - w.unscheduledSince.getD now then
          (w.wait now, some (.unschedulable (status.scheduleBlocker.getD "no PodScheduled condition")
            (now - w.unscheduledSince.getD now)))
        else
          (w.wait now).observeImage status now := by
  rw [StartWatch.observe, if_neg (by simp [h])]
  rfl

theorem observe_clocks {w start : StartWatch} {status : PodStatus} {now : Nanos}
    (h : w.observe status now = (start, none))
    : start.unscheduledSince =
        (if status.isScheduled then w.unscheduledSince else w.unscheduledSince.or (some now)) ∧
      start.pullErrorSince = if status.imageError.isSome then w.pullErrorSince.or (some now) else none := by
  cases hscheduled : status.isScheduled with
  | true =>
    rw [observe_scheduled hscheduled] at h
    have hstart : start = (w.observeImage status now).1 := by rw [h]
    rw [hstart, observeImage_unscheduled, observeImage_pullError]
    exact ⟨rfl, rfl⟩
  | false =>
    rw [observe_unscheduled hscheduled] at h
    split at h
    . cases h
    . have hstart : start = ((w.wait now).observeImage status now).1 := by rw [h]
      rw [hstart, observeImage_unscheduled, observeImage_pullError]
      refine ⟨?_, rfl⟩
      cases hsince : w.unscheduledSince <;> simp [StartWatch.wait, hsince]

theorem map_or_now {first : Option Look} {l : Look} {bad : Bool}
    : (first.or (if bad then some l else none)).map (·.now) =
        if bad then (first.map (·.now)).or (some l.now) else first.map (·.now) := by
  cases bad <;> cases first <;> rfl

theorem Starts.waiting {s : State} (h : Starts s) {l : Look} {start : StartWatch}
    (hpending : l.status.isPending = true) (hstart : s.start.observe l.status l.now = (start, none))
    : start.unscheduledSince = (Stopwatch.since Look.unscheduled never (s.looks ++ [l])).head?.map (·.now) ∧
        start.pullErrorSince = (Stopwatch.since Look.erring Look.clean (s.looks ++ [l])).head?.map (·.now) := by
  rcases observe_clocks hstart with ⟨hunscheduled, herring⟩
  refine ⟨?_, ?_⟩
  . rw [Stopwatch.head?_since rfl, map_or_now, ← h.unscheduled, hunscheduled]
    cases hscheduled : l.status.isScheduled <;> simp [Look.unscheduled, hpending, hscheduled]
  . cases himage : l.status.imageError with
    | none =>
      rw [Stopwatch.since_clear (by simp [Look.clean, hpending, himage]), herring, himage]
      rfl
    | some reason =>
      rw [Stopwatch.head?_since (by simp [Look.clean, himage]), map_or_now, ← h.erring, herring]
      simp [Look.erring, hpending, himage]

theorem Starts.running {s : State} (h : Starts s) {l : Look} (hrunning : l.status.isPending = false)
    : s.start.unscheduledSince = (Stopwatch.since Look.unscheduled never (s.looks ++ [l])).head?.map (·.now) ∧
        s.start.pullErrorSince = (Stopwatch.since Look.erring Look.clean (s.looks ++ [l])).head?.map (·.now) := by
  refine ⟨?_, ?_⟩
  . rw [Stopwatch.head?_since rfl, map_or_now, ← h.unscheduled]
    simp [Look.unscheduled, hrunning]
  . rw [Stopwatch.head?_since (by simp [Look.clean, hrunning]), map_or_now, ← h.erring]
    simp [Look.erring, hrunning]

theorem lookOf_now {listing : Option (List Pod)} {now later : Nanos} {l : Look}
    (h : lookOf (.look listing now later) = some l)
    : l.now = now := by
  simp only [lookOf, Option.bind_eq_some_iff, Option.map_eq_some_iff] at h
  rcases h with ⟨pod, _, name, _, rfl⟩
  rfl

theorem Starts.look {s s' : State} {listing : Option (List Pod)} {now later : Nanos} (h : Starts s)
    (hlooked : Looked s listing now later s')
    : Starts s' := by
  cases hlooked with
  | nowhere => exact ⟨h.unscheduled, h.erring⟩
  | waiting l start hlook hpending hstart =>
    rw [← lookOf_now hlook] at hstart
    have hclocks := h.waiting hpending hstart
    refine ⟨?_, ?_⟩
    . simpa [State.see] using hclocks.1
    . simpa [State.see] using hclocks.2
  | running l clock follow hlook hrunning =>
    have hclocks := h.running hrunning
    refine ⟨?_, ?_⟩
    . simpa [State.see] using hclocks.1
    . simpa [State.see] using hclocks.2

/--
At every look at the pod `name` since one that is at least `window` old, the pod was bad.
-/
def Observed (bad : Look → Bool) (looks : List Look) (name : String) (window now : Nanos) : Prop :=
  ∃ before first rest, looks = before ++ first :: rest ∧ first.name = name ∧ window ≤ now - first.now ∧
    ∀ l ∈ first :: rest, l.name = name → bad l = true

/--
Where the stopwatch runs, the pod of `l` has set it and was bad at every look since.
-/
def Kept (bad clears : Look → Bool) (looks : List Look) (l : Look) : Prop :=
  ∀ first rest, Stopwatch.since bad clears looks = first :: rest →
    first.name = l.name ∧ ∀ x ∈ first :: rest, x.name = l.name → bad x = true

theorem observed_of_kept {bad clears : Look → Bool} {looks : List Look} {l : Look} {window : Nanos}
    (hkept : Kept bad clears looks l) (hbad : bad l = true) (hpos : 0 < window)
    (hwindow : window ≤ l.now - ((Stopwatch.since bad clears looks).head?.map (·.now)).getD l.now)
    : Observed bad (looks ++ [l]) l.name window l.now := by
  cases hsince : Stopwatch.since bad clears looks with
  | nil =>
    rw [hsince, List.head?_nil, Option.map_none, Option.getD_none, Nat.sub_self] at hwindow
    exact absurd hwindow (Nat.not_le_of_lt hpos)
  | cons first rest =>
    rw [hsince] at hwindow
    rcases hkept first rest hsince with ⟨hname, hall⟩
    rcases Stopwatch.since_suffix bad clears looks with ⟨before, hbefore⟩
    refine ⟨before, first, rest ++ [l], ?_, hname, hwindow, ?_⟩
    . rw [← hbefore, hsince, List.append_assoc]
      rfl
    . intro x hx hxname
      rw [← List.cons_append, List.mem_append, List.mem_singleton] at hx
      rcases hx with hx | rfl
      . exact hall x hx hxname
      . exact hbad

-- Unscheduled looks are at one pod, which is not scheduled in between.
def OnePodUnscheduled (s : State) (event : Event) : Prop :=
  ∀ l ∈ lookOf event, l.unscheduled = true → Kept Look.unscheduled never s.looks l

-- So are the looks with an image error since the last pending one without.
def OnePodErring (s : State) (event : Event) : Prop :=
  ∀ l ∈ lookOf event, l.erring = true → Kept Look.erring Look.clean s.looks l

theorem observeImage_stall {w : StartWatch} {status : PodStatus} {now : Nanos} {stall : Stall}
    (h : (w.observeImage status now).2 = some stall)
    : ∃ reason, stall = .imagePull reason ∧ status.imageError = some reason ∧
        (reason = "InvalidImageName" ∨ PodStatus.imagePullGrace ≤ now - w.pullErrorSince.getD now) := by
  unfold StartWatch.observeImage at h
  split at h
  . next reason himage =>
    dsimp only at h
    split at h
    . next hterminal =>
      cases h
      exact ⟨reason, rfl, himage, by simpa [PodStatus.pullErrorIsTerminal] using hterminal⟩
    . cases h
  . cases h

/--
What ends the wait for a pending pod.
-/
theorem observe_stall {w : StartWatch} {status : PodStatus} {now : Nanos} {start : StartWatch} {stall : Stall}
    (h : w.observe status now = (start, some stall))
    : (∃ reason elapsed, stall = .unschedulable reason elapsed ∧ status.isScheduled = false ∧
        PodStatus.pendingTimeout ≤ now - w.unscheduledSince.getD now) ∨
      ∃ reason, stall = .imagePull reason ∧ status.imageError = some reason ∧
        (reason = "InvalidImageName" ∨ PodStatus.imagePullGrace ≤ now - w.pullErrorSince.getD now) := by
  cases hscheduled : status.isScheduled with
  | true =>
    rw [observe_scheduled hscheduled] at h
    exact Or.inr (observeImage_stall (by rw [h]))
  | false =>
    rw [observe_unscheduled hscheduled] at h
    split at h
    . next htimeout =>
      cases h
      exact Or.inl ⟨_, _, rfl, rfl, htimeout⟩
    . right
      have himage := observeImage_stall (w := w.wait now) (by rw [h])
      exact himage

theorem stall_ran (c : Liveness) : (∀ reason elapsed, c.stall ≠ .unschedulable reason elapsed) ∧
    ∀ reason, c.stall ≠ .imagePull reason := by
  unfold Liveness.stall
  split
  . exact ⟨nofun, nofun⟩
  . exact ⟨nofun, nofun⟩

theorem Starts.unschedulable {s : State} (h : Starts s) {listing : Option (List Pod)} {now later : Nanos}
    {reason : String} {elapsed : Nanos} (hended : Ended s listing now later (.unschedulable reason elapsed))
    (hpod : OnePodUnscheduled s (.look listing now later))
    : ∃ l ∈ lookOf (.look listing now later),
        Observed Look.unscheduled (s.looks ++ [l]) l.name PodStatus.pendingTimeout l.now := by
  generalize hstall : Stall.unschedulable reason elapsed = stall at hended
  cases hended with
  | waiting l start hlook hpending hstart =>
    rcases observe_stall hstart with ⟨_, _, _, hscheduled, htimeout⟩ | ⟨_, himage, _⟩
    . have hbad : l.unscheduled = true := by simp [Look.unscheduled, hpending, hscheduled]
      refine ⟨l, hlook, observed_of_kept (hpod l hlook hbad) hbad (by decide) ?_⟩
      rw [← h.unscheduled]
      exact htimeout
    . rw [← hstall] at himage
      cases himage
  | running l clock => exact absurd hstall.symm ((stall_ran clock).1 reason elapsed)

theorem Starts.imagePull {s : State} (h : Starts s) {listing : Option (List Pod)} {now later : Nanos}
    {reason : String} (hended : Ended s listing now later (.imagePull reason))
    (hpod : OnePodErring s (.look listing now later))
    : ∃ l ∈ lookOf (.look listing now later), l.status.imageError = some reason ∧
        (reason = "InvalidImageName" ∨
          Observed Look.erring (s.looks ++ [l]) l.name PodStatus.imagePullGrace l.now) := by
  generalize hstall : Stall.imagePull reason = stall at hended
  cases hended with
  | waiting l start hlook hpending hstart =>
    rcases observe_stall hstart with ⟨_, _, hunscheduled, _⟩ | ⟨reason', hreason, himage, hterminal⟩
    . rw [← hstall] at hunscheduled
      cases hunscheduled
    . rw [← hstall] at hreason
      cases hreason
      refine ⟨l, hlook, himage, ?_⟩
      rcases hterminal with hname | hgrace
      . exact Or.inl hname
      . right
        have hbad : l.erring = true := by simp [Look.erring, hpending, himage]
        apply observed_of_kept (hpod l hlook hbad) hbad (by decide)
        rw [← h.erring]
        exact hgrace
  | running l clock => exact absurd hstall.symm ((stall_ran clock).2 reason)

end Watch
end Materialize
