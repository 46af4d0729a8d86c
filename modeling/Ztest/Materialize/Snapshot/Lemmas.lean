import Ztest.Lib.Trace
import Ztest.Materialize.Snapshot.Impl

/-!
This module contains the proof that the wait for a snapshot ends on evidence: what was read up to an iteration
is told from the iterations alone, the clock stands at the last of them that brought something new, and each
fault quotes a window in which there was none.
-/

namespace Materialize
namespace Snapshot

open Watch (Nanos secs)

namespace Look

def readsBound (look : Look) : Bool := (look.object.bind (·.boundContent)).isSome

def sampled (look : Look) : Option Snap :=
  match look.exec with
  | .ok out => parseSnap out
  | .error _ => none

end Look

-- Each of these is about the iterations up to some point.
def boundBy (past : List Look) : Bool := past.any Look.readsBound

def metered (meter : Meter) (past : List Look) : Bool := meter.metered && past.all fun look => look.exec.isOk

def lastStamp (past : List Look) : Option Text := (past.filterMap Look.object).getLast?.bind (·.time)

def lastSnap (past : List Look) : Option Snap := (past.filterMap Look.sampled).getLast?

-- Each of these is about an iteration, after those in the past.
def Binds (past : List Look) (look : Look) : Prop := boundBy past = false ∧ look.readsBound = true

def NewStamp (past : List Look) (look : Look) : Prop :=
  ∃ status, look.object = some status ∧ status.time ≠ none ∧ status.time ≠ lastStamp past

def Read (meter : Meter) (past : List Look) (look : Look) (snap : Snap) : Prop :=
  metered meter (past ++ [look]) = true ∧ look.sampled = some snap

-- The newest file is larger than at the reading before, or another one.
def Grown (meter : Meter) (past : List Look) (look : Look) : Prop :=
  ∃ snap prev, Read meter past look snap ∧ lastSnap past = some prev ∧ (prev.name ≠ snap.name ∨ prev.bytes < snap.bytes)

def Moves (meter : Meter) (past : List Look) (look : Look) : Prop :=
  Binds past look ∨ NewStamp past look ∨ Grown meter past look

structure Ordered (started : Nanos) (looks : List Look) : Prop where
  started : ∀ look ∈ looks, started ≤ look.now
  sorted : looks.Pairwise fun a b => a.now ≤ b.now

-- Nothing that `Q` marks was read within the window.
def Silence (Q : List Look → Look → Prop) (window : Nanos) (past : List Look) (now : Nanos) : Prop :=
  Trace.Before (fun before look => Q before look → window ≤ now - look.now) past

/--
What the iterations up to one must show for it to end the wait with a fault.
-/
def Evidence (meter : Meter) (started : Nanos) (past : List Look) (look : Look) : SnapFault → Prop
  | .driver reason => ∃ message, look.object.bind (·.message) = some message ∧ fatal message = some reason
  | .unbound _ =>
    boundBy (past ++ [look]) = false ∧ blindStall ≤ look.now - started ∧ Silence NewStamp blindStall (past ++ [look]) look.now
  | .silent _ =>
    boundBy (past ++ [look]) = true ∧ metered meter (past ++ [look]) = false ∧
      Silence (fun before look => Binds before look ∨ NewStamp before look) blindStall (past ++ [look]) look.now
  | .noProgress _ _ =>
    boundBy (past ++ [look]) = true ∧ metered meter (past ++ [look]) = true ∧
      ∃ before first between second after, past ++ [look] = before ++ first :: (between ++ second :: after) ∧
        (∃ snap, Read meter before first snap) ∧ (∃ snap, Read meter (before ++ first :: between) second snap) ∧
        meteredStall ≤ second.now - first.now ∧
        Trace.Before (fun mid look => ¬Grown meter (before ++ first :: mid) look) (between ++ second :: after)

section Channels

variable {c c' : Liveness} {status : Status} {stamp : Option Text} {snap : Snap} {now : Nanos} {look : Look}

@[simp]
theorem bind_bound : (c.bind status now).bound = (c.bound || status.boundContent.isSome) := by
  unfold Liveness.bind
  split
  next h => simp_all [Liveness.moved]
  next h => cases hc : c.bound <;> simp_all

@[simp]
theorem bind_lastStamp : (c.bind status now).lastStamp = c.lastStamp := by
  unfold Liveness.bind
  split <;> rfl

@[simp]
theorem bind_snap : (c.bind status now).snap = c.snap := by
  unfold Liveness.bind
  split <;> rfl

@[simp]
theorem bind_idleSince : (c.bind status now).idleSince = if !c.bound && status.boundContent.isSome then now else c.idleSince := by
  unfold Liveness.bind
  split <;> rfl

@[simp]
theorem errorRaised_bound : (c.errorRaised stamp now).bound = c.bound := by
  unfold Liveness.errorRaised
  dsimp only
  split <;> rfl

@[simp]
theorem errorRaised_lastStamp : (c.errorRaised stamp now).lastStamp = stamp := rfl

@[simp]
theorem errorRaised_snap : (c.errorRaised stamp now).snap = c.snap := by
  unfold Liveness.errorRaised
  dsimp only
  split <;> rfl

@[simp]
theorem errorRaised_idleSince
    : (c.errorRaised stamp now).idleSince = if stamp.isSome && stamp ≠ c.lastStamp then now else c.idleSince := by
  unfold Liveness.errorRaised
  dsimp only
  split <;> rfl

@[simp]
theorem meter_bound : (c.meter snap now).bound = c.bound := by
  unfold Liveness.meter
  dsimp only
  split <;> rfl

@[simp]
theorem meter_lastStamp : (c.meter snap now).lastStamp = c.lastStamp := by
  unfold Liveness.meter
  dsimp only
  split <;> rfl

@[simp]
theorem meter_snap : (c.meter snap now).snap = some snap := rfl

@[simp]
theorem meter_idleSince : (c.meter snap now).idleSince = if Liveness.motion c.snap snap then now else c.idleSince := by
  unfold Liveness.meter
  dsimp only
  split <;> rfl

theorem observe_ok (h : c.observe look.object look.now = .ok c')
    : look.object = none ∧ c' = c ∨
      ∃ status, look.object = some status ∧
        c' = { (c.bind status look.now).errorRaised status.time look.now with lastError := status.message } := by
  unfold Liveness.observe at h
  split at h
  next hobject =>
    cases h
    exact .inl ⟨hobject, rfl⟩
  next status hobject =>
    split at h
    next => cases h
    next =>
      cases h
      exact .inr ⟨status, hobject, rfl⟩

theorem observe_error {fault : SnapFault} (h : c.observe look.object look.now = .error fault)
    : ∃ reason message, fault = .driver reason ∧ look.object.bind (·.message) = some message ∧ fatal message = some reason := by
  unfold Liveness.observe at h
  split at h
  next => cases h
  next status hobject =>
    split at h
    next reason hreason =>
      cases h
      rcases Option.bind_eq_some_iff.mp hreason with ⟨message, hmessage, hfatal⟩
      exact ⟨reason, message, rfl, by rw [hobject]; exact hmessage, hfatal⟩
    next => cases h

theorem observe_bound (h : c.observe look.object look.now = .ok c') : c'.bound = (c.bound || look.readsBound) := by
  rcases observe_ok h with ⟨hobject, rfl⟩ | ⟨status, hobject, rfl⟩
  . simp [Look.readsBound, hobject]
  . simp [Look.readsBound, hobject]

theorem observe_snap (h : c.observe look.object look.now = .ok c') : c'.snap = c.snap := by
  rcases observe_ok h with ⟨_, rfl⟩ | ⟨status, _, rfl⟩
  . rfl
  . simp

theorem observe_lastStamp {past : List Look} (h : c.observe look.object look.now = .ok c') (hc : c.lastStamp = lastStamp past)
    : c'.lastStamp = lastStamp (past ++ [look]) := by
  rcases observe_ok h with ⟨hobject, rfl⟩ | ⟨status, hobject, rfl⟩
  . rw [hc]
    simp [lastStamp, hobject]
  . simp [lastStamp, hobject]

theorem observe_idleSince {past : List Look} (h : c.observe look.object look.now = .ok c') (hstamp : c.lastStamp = lastStamp past)
    (hbound : c.bound = boundBy past)
    : (Binds past look ∨ NewStamp past look → c'.idleSince = look.now) ∧
      (¬(Binds past look ∨ NewStamp past look) → c'.idleSince = c.idleSince) := by
  rcases observe_ok h with ⟨hobject, rfl⟩ | ⟨status, hobject, rfl⟩
  . have hbinds : ¬Binds past look := by simp [Binds, Look.readsBound, hobject]
    have hnew : ¬NewStamp past look := by simp [NewStamp, hobject]
    simp [hbinds, hnew]
  . have hbinds : Binds past look ↔ (!c.bound && status.boundContent.isSome) = true := by
      simp [Binds, Look.readsBound, hobject, hbound]
    have hnew : NewStamp past look ↔ (status.time.isSome && status.time ≠ c.lastStamp) = true := by
      simp [NewStamp, hobject, hstamp, Option.isSome_iff_ne_none]
    rw [hbinds, hnew]
    simp only [errorRaised_idleSince, bind_idleSince, bind_lastStamp]
    constructor
    . rintro (h | h)
      . rw [if_pos h]
        split <;> rfl
      . rw [if_pos h]
    . intro h
      rw [not_or] at h
      rw [if_neg h.2, if_neg h.1]

end Channels

section Known

variable {meter : Meter} {started : Nanos} {past : List Look} {look : Look} {s t : State}

structure Known (meter : Meter) (started : Nanos) (past : List Look) (s : State) : Prop where
  metered : s.meter.metered = Snapshot.metered meter past
  bound : s.clock.bound = boundBy past
  stamp : s.clock.lastStamp = lastStamp past
  snap : Snapshot.metered meter past = true → s.clock.snap = lastSnap past
  idle : ∃ pre post, past = pre ++ post ∧ Trace.Since (Moves meter) pre post ∧
    (pre = [] ∧ s.clock.idleSince = started ∨ ∃ init m, pre = init ++ [m] ∧ s.clock.idleSince = m.now)

theorem known_init (driver : Text) (pods : Option (List (Option Text))) (total : UInt64) (started : Nanos)
    : Known (.attach driver pods) started [] (.init driver pods total started) where
  metered := by simp [Snapshot.metered, State.init]
  bound := rfl
  stamp := rfl
  snap := fun _ => rfl
  idle := ⟨[], [], rfl, .nil, .inl ⟨rfl, rfl⟩⟩

theorem boundBy_concat : boundBy (past ++ [look]) = (boundBy past || look.readsBound) := by simp [boundBy]

theorem metered_concat : metered meter (past ++ [look]) = (metered meter past && look.exec.isOk) := by
  simp [metered, Bool.and_assoc]

theorem sample_metered (m : Meter) (exec : Except Text Text) : (m.sample exec).1.metered = (m.metered && exec.isOk) := by
  cases m <;> cases exec <;> rfl

theorem sample_eq (m : Meter) (look : Look) : (m.sample look.exec).2 = if m.metered then look.sampled else none := by
  cases m <;> cases hexec : look.exec <;> simp [Meter.sample, Meter.metered, Look.sampled, hexec]

theorem advance_ok (h : s.advance look = .ok t)
    : ∃ clock, s.clock.observe look.object look.now = .ok clock ∧ t.meter = (s.meter.sample look.exec).1 ∧
        t.clock = match (s.meter.sample look.exec).2 with
          | some snap => clock.meter snap look.now
          | none => clock := by
  unfold State.advance at h
  split at h
  next => cases h
  next clock hclock =>
    refine ⟨clock, hclock, ?_⟩
    split at h <;> cases h <;> simp [*]

theorem read_iff {snap : Snap} : Read meter past look snap ↔ metered meter past = true ∧ look.sampled = some snap := by
  unfold Read
  rw [metered_concat, Bool.and_eq_true, and_assoc, and_congr_right_iff]
  intro _
  constructor
  . exact fun h => h.2
  . intro h
    refine ⟨?_, h⟩
    unfold Look.sampled at h
    split at h
    next hexec => rw [hexec]; rfl
    next => cases h

theorem motion_iff {prev : Option Snap} {snap : Snap}
    : Liveness.motion prev snap = true ↔ ∃ p, prev = some p ∧ (p.name ≠ snap.name ∨ p.bytes < snap.bytes) := by
  cases prev with
  | none => simp [Liveness.motion]
  | some p => simp [Liveness.motion]

theorem sample_eq_some_iff (h : Known meter started past s) {snap : Snap}
    : (s.meter.sample look.exec).2 = some snap ↔ Read meter past look snap := by
  rw [sample_eq, h.metered, read_iff]
  split <;> simp [*]

theorem grown_iff (h : Known meter started past s)
    : Grown meter past look ↔ ∃ snap, (s.meter.sample look.exec).2 = some snap ∧ Liveness.motion s.clock.snap snap = true := by
  unfold Grown
  constructor
  . rintro ⟨snap, prev, hread, hprev, hgrown⟩
    refine ⟨snap, (sample_eq_some_iff h).mpr hread, motion_iff.mpr ⟨prev, ?_, hgrown⟩⟩
    rw [h.snap (read_iff.mp hread).1, hprev]
  . rintro ⟨snap, hsample, hmotion⟩
    have hread := (sample_eq_some_iff h).mp hsample
    rcases motion_iff.mp hmotion with ⟨prev, hprev, hgrown⟩
    rw [h.snap (read_iff.mp hread).1] at hprev
    exact ⟨snap, prev, hread, hprev, hgrown⟩

theorem advance_idleSince (h : Known meter started past s) (hadvance : s.advance look = .ok t)
    : (Moves meter past look → t.clock.idleSince = look.now) ∧
      (¬Moves meter past look → t.clock.idleSince = s.clock.idleSince) := by
  rcases advance_ok hadvance with ⟨clock, hclock, _, ht⟩
  have hobject := observe_idleSince hclock h.stamp h.bound
  have hsnap := observe_snap hclock
  unfold Moves
  rw [← or_assoc, grown_iff h, ← hsnap]
  cases hsample : (s.meter.sample look.exec).2 with
  | none =>
    rw [hsample] at ht
    simp only [reduceCtorEq, false_and, exists_false, or_false, ht]
    exact hobject
  | some snap =>
    rw [hsample] at ht
    simp only [Option.some.injEq, exists_eq_left', ht, meter_idleSince]
    by_cases hmotion : Liveness.motion clock.snap snap = true
    . simp [hmotion]
    . simp only [hmotion, or_false, if_false, Bool.false_eq_true]
      exact hobject

theorem lastSnap_concat : lastSnap (past ++ [look]) = look.sampled.or (lastSnap past) := by
  unfold lastSnap
  cases hsampled : look.sampled with
  | none => simp [hsampled]
  | some snap => simp [hsampled]

theorem advance_known (h : Known meter started past s) (hadvance : s.advance look = .ok t) : Known meter started (past ++ [look]) t := by
  rcases advance_ok hadvance with ⟨clock, hclock, hmeter, ht⟩
  have hclockBound : clock.bound = boundBy (past ++ [look]) := by
    rw [observe_bound hclock, h.bound, boundBy_concat]
  have hclockStamp := observe_lastStamp hclock h.stamp
  refine ⟨?_, ?_, ?_, ?_, ?_⟩
  . rw [hmeter, sample_metered, h.metered, metered_concat]
  . rw [ht]
    split <;> simp [hclockBound]
  . rw [ht]
    split <;> simp [hclockStamp]
  . intro hmetered
    rw [metered_concat, Bool.and_eq_true] at hmetered
    rw [ht, sample_eq, h.metered, if_pos hmetered.1, lastSnap_concat]
    cases look.sampled with
    | none => exact (observe_snap hclock).trans (h.snap hmetered.1)
    | some snap => rfl
  . rcases advance_idleSince h hadvance with ⟨hmoves, hrests⟩
    by_cases hmove : Moves meter past look
    . exact ⟨past ++ [look], [], by simp, .of_marked hmove, .inr ⟨past, look, rfl, hmoves hmove⟩⟩
    . rcases h.idle with ⟨pre, post, rfl, hsince, hidle⟩
      refine ⟨pre, post ++ [look], by simp, hsince.concat hmove, ?_⟩
      rw [hrests hmove]
      exact hidle

end Known

section Verdict

variable {meter : Meter} {started : Nanos} {past : List Look} {look : Look} {s t : State}

theorem step_ok {u : Unit} (h : s.step look = .ok (t, u)) : s.advance look = .ok t := by
  unfold State.step at h
  split at h
  next => cases h
  next t' hadvance =>
    split at h
    next => cases h
    next =>
      cases h
      exact hadvance

theorem step_error {fault : SnapFault} (h : s.step look = .error fault)
    : (∃ reason message, fault = .driver reason ∧ look.object.bind (·.message) = some message ∧ fatal message = some reason) ∨
      ∃ t, s.advance look = .ok t ∧ fault = t.clock.fault t.meter.metered ∧
        t.clock.window t.meter.metered ≤ look.now - t.clock.idleSince := by
  unfold State.step at h
  split at h
  next fault' hadvance =>
    cases h
    unfold State.advance at hadvance
    split at hadvance
    next fault' hobserve =>
      cases hadvance
      exact .inl (observe_error hobserve)
    next => split at hadvance <;> cases hadvance
  next t hadvance =>
    split at h
    next hexpired =>
      cases h
      exact .inr ⟨t, hadvance, rfl, of_decide_eq_true hexpired⟩
    next => cases h

theorem Known.moves_le (h : Known meter started past s) (hordered : Ordered started past) {before after : List Look}
    (heq : past = before ++ look :: after) (hmoves : Moves meter before look)
    : look.now ≤ s.clock.idleSince := by
  rcases h.idle with ⟨pre, post, hpast, hsince, hidle⟩
  rcases hsince.of_mem (hpast.symm.trans heq) hmoves with ⟨rest, hpre⟩
  rcases hidle with ⟨hnil, _⟩ | ⟨init, m, hm, hnow⟩
  . rw [hnil] at hpre
    simp at hpre
  . rw [hnow]
    have hsorted : pre.Pairwise fun a b => a.now ≤ b.now := (List.pairwise_append.mp (hpast ▸ hordered.sorted)).1
    cases rest using List.reverseRecOn with
    | nil =>
      rw [hm, List.append_singleton_inj] at hpre
      rw [hpre.2]
    | append_singleton rest last _ =>
      have hlast : m = last := by
        rw [hm, ← List.cons_append, ← List.append_assoc, List.append_singleton_inj] at hpre
        exact hpre.2
      rw [hpre, ← List.cons_append, ← List.append_assoc, List.pairwise_append] at hsorted
      rw [hlast]
      exact hsorted.2.2 look (by simp) last (by simp)

theorem Known.started_le (h : Known meter started past s) (hordered : Ordered started past) : started ≤ s.clock.idleSince := by
  rcases h.idle with ⟨pre, post, hpast, _, ⟨_, hnow⟩ | ⟨init, m, hm, hnow⟩⟩
  . exact Nat.le_of_eq hnow.symm
  . rw [hnow]
    exact hordered.started m (by simp [hpast, hm])

theorem Known.silence (h : Known meter started past s) (hordered : Ordered started past) {Q : List Look → Look → Prop}
    (hQ : ∀ before look, Q before look → Moves meter before look) {window now : Nanos} (hwindow : window ≤ now - s.clock.idleSince)
    : Silence Q window past now := by
  intro before l after heq hl
  exact Nat.le_trans hwindow (Nat.sub_le_sub_left (h.moves_le hordered heq (hQ before l hl)) now)

theorem fault_cases (c : Liveness) (metered : Bool)
    : c.bound = false ∧ (∃ last, c.fault metered = .unbound last) ∧ c.window metered = blindStall ∨
      c.bound = true ∧ metered = true ∧ (∃ copied total, c.fault metered = .noProgress copied total) ∧
        c.window metered = meteredStall ∨
      c.bound = true ∧ metered = false ∧ (∃ last, c.fault metered = .silent last) ∧ c.window metered = blindStall := by
  unfold Liveness.fault Liveness.window
  cases c.bound <;> cases metered <;> simp

theorem meteredStall_le_window (c : Liveness) (metered : Bool) : meteredStall ≤ c.window metered := by
  unfold Liveness.window
  split
  . exact Nat.le_refl _
  . decide

theorem boundBy_of_clear {pre post : List Look} (h : Trace.Before (fun mid look => ¬Moves meter (pre ++ mid) look) post)
    (hbound : boundBy (pre ++ post) = true)
    : boundBy pre = true := by
  induction post using List.reverseRecOn with
  | nil => rwa [List.append_nil] at hbound
  | append_singleton post look ih =>
    have hlast : ¬Moves meter (pre ++ post) look := h post look [] rfl
    apply ih
    . intro mid l rest heq
      exact h mid l (rest ++ [look]) (by rw [heq]; simp)
    . cases hpost : boundBy (pre ++ post) with
      | true => rfl
      | false =>
        have hreads : look.readsBound = true := by
          rw [← List.append_assoc, boundBy_concat, hpost] at hbound
          exact hbound
        exact absurd (.inl ⟨hpost, hreads⟩) hlast

theorem metered_of_append {pre post : List Look} (h : metered meter (pre ++ post) = true) : metered meter pre = true := by
  unfold metered at h ⊢
  rw [List.all_append] at h
  simp_all

/--
When nothing has moved the clock of a bound snapshot for a window, the meter gives a reading, as it did when the clock
was last moved.
-/
def Sighted (meter : Meter) (looks : List Look) : Prop :=
  Trace.Before (fun past look => boundBy (past ++ [look]) = true → metered meter (past ++ [look]) = true →
    Silence (Moves meter) meteredStall (past ++ [look]) look.now →
      look.sampled.isSome ∧ ∀ before first after, past = before ++ first :: after →
        Trace.Since (Moves meter) (before ++ [first]) after → first.sampled.isSome) looks

theorem noProgress_evidence (h : Known meter started (past ++ [look]) t) (hordered : Ordered started (past ++ [look]))
    (hsighted : Sighted meter (past ++ [look])) (hbound : t.clock.bound = true) (hmetered : t.meter.metered = true)
    (hwindow : meteredStall ≤ look.now - t.clock.idleSince) (copied total : UInt64)
    : Evidence meter started past look (.noProgress copied total) := by
  rw [h.bound] at hbound
  rw [h.metered] at hmetered
  rcases hsighted past look [] rfl hbound hmetered (h.silence hordered (fun _ _ => id) hwindow) with ⟨hlook, hlast⟩
  refine ⟨hbound, hmetered, ?_⟩
  rcases h.idle with ⟨pre, post, hpast, hsince, hidle⟩
  have hpre : boundBy pre = true := boundBy_of_clear hsince.clear (hpast ▸ hbound)
  rcases hidle with ⟨rfl, _⟩ | ⟨before, first, rfl, hfirst⟩
  . cases hpre
  cases post using List.reverseRecOn with
  | nil =>
    rw [List.append_nil, List.append_singleton_inj] at hpast
    rw [hfirst, ← hpast.2, Nat.sub_self] at hwindow
    exact absurd hwindow (by decide)
  | append_singleton between second _ =>
    have hsecond : past = before ++ first :: between ∧ look = second := by
      rw [← List.append_assoc, List.append_singleton_inj] at hpast
      simpa using hpast
    have hfirstMetered : metered meter (before ++ [first]) = true := metered_of_append (hpast ▸ hmetered)
    have hbetween : Trace.Since (Moves meter) (before ++ [first]) between := by
      refine ⟨?_, hsince.marked⟩
      intro mid l rest heq
      exact hsince.clear mid l (rest ++ [second]) (by rw [heq]; simp)
    refine ⟨before, first, between, second, [], by rw [hpast]; simp, ?_, ?_, ?_, ?_⟩
    . rcases Option.isSome_iff_exists.mp (hlast before first between hsecond.1 hbetween) with ⟨snap, hsnap⟩
      exact ⟨snap, hfirstMetered, hsnap⟩
    . rcases Option.isSome_iff_exists.mp hlook with ⟨snap, hsnap⟩
      rw [← hsecond.1, ← hsecond.2]
      exact ⟨snap, hmetered, hsnap⟩
    . rw [← hsecond.2, ← hfirst]
      exact hwindow
    . intro mid l rest heq hgrown
      refine hsince.clear mid l rest heq (.inr (.inr ?_))
      simpa using hgrown

theorem evidence_of_step (h : Known meter started past s) (hordered : Ordered started (past ++ [look]))
    (hsighted : Sighted meter (past ++ [look])) {fault : SnapFault} (hstep : s.step look = .error fault)
    : Evidence meter started past look fault := by
  rcases step_error hstep with ⟨reason, message, rfl, hmessage, hfatal⟩ | ⟨t, hadvance, rfl, hwindow⟩
  . exact ⟨message, hmessage, hfatal⟩
  . have hknown := advance_known h hadvance
    rcases fault_cases t.clock t.meter.metered with
      ⟨hbound, ⟨last, hfault⟩, hblind⟩ | ⟨hbound, hmetered, ⟨copied, total, hfault⟩, hstall⟩ | ⟨hbound, hmetered, ⟨last, hfault⟩, hblind⟩
    . rw [hblind] at hwindow
      rw [hfault]
      have hstarted := hknown.started_le hordered
      refine ⟨by rw [← hknown.bound, hbound], ?_, hknown.silence hordered (fun _ _ hnew => .inr (.inl hnew)) hwindow⟩
      exact Nat.le_trans hwindow (Nat.sub_le_sub_left hstarted look.now)
    . rw [hstall] at hwindow
      rw [hfault]
      exact noProgress_evidence hknown hordered hsighted hbound hmetered hwindow copied total
    . rw [hblind] at hwindow
      rw [hfault]
      refine ⟨by rw [← hknown.bound, hbound], by rw [← hknown.metered, hmetered], hknown.silence hordered ?_ hwindow⟩
      rintro before l (hbinds | hnew)
      . exact .inl hbinds
      . exact .inr (.inl hnew)

-- The file grew within the window, or the wait is younger than it.
def Growing (meter : Meter) (started : Nanos) (past : List Look) (now : Nanos) : Prop :=
  now - started < meteredStall ∨ ∃ before look after, past = before ++ look :: after ∧ Grown meter before look ∧
    now - look.now < meteredStall

theorem not_stall_of_growing (h : Known meter started past s) (hordered : Ordered started (past ++ [look]))
    (hgrowing : Growing meter started (past ++ [look]) look.now) {fault : SnapFault} (hstep : s.step look = .error fault)
    : fault.isStall = false := by
  rcases step_error hstep with ⟨reason, message, rfl, _⟩ | ⟨t, hadvance, rfl, hwindow⟩
  . rfl
  . exfalso
    have hknown := advance_known h hadvance
    have hstall := Nat.le_trans (meteredStall_le_window t.clock t.meter.metered) hwindow
    rcases hgrowing with hyoung | ⟨before, l, after, heq, hgrown, hrecent⟩
    . have hstarted := Nat.sub_le_sub_left (hknown.started_le hordered) look.now
      exact absurd (Nat.le_trans hstall hstarted) (Nat.not_le_of_lt hyoung)
    . have hle := Nat.sub_le_sub_left (hknown.moves_le hordered heq (.inr (.inr hgrown))) look.now
      exact absurd (Nat.le_trans hstall hle) (Nat.not_le_of_lt hrecent)

theorem watch_error {driver : Text} {pods : Option (List (Option Text))} {total : UInt64} {looks : List Look} {fault : SnapFault}
    (h : watch driver pods total started looks = .error fault)
    : ∃ past look rest s, looks = past ++ look :: rest ∧ watch driver pods total started past = .ok s ∧
        s.step look = .error fault ∧ Known (.attach driver pods) started past s := by
  rcases Run.exec_error h with ⟨past, look, rest, s, rfl, hpast, hstep⟩
  refine ⟨past, look, rest, s, rfl, hpast, hstep, ?_⟩
  have hrun : Known (.attach driver pods) started ([] ++ past) s := by
    refine Run.exec_history ?_ (known_init driver pods total started) hpast
    intro past s look t u hs hok
    exact advance_known hs (step_ok hok)
  rwa [List.nil_append] at hrun

theorem Ordered.front {pre post : List Look} (h : Ordered started (pre ++ post)) : Ordered started pre where
  started := fun look hlook => h.started look (List.mem_append_left post hlook)
  sorted := (List.pairwise_append.mp h.sorted).1

-- The wait ends at an iteration that shows why, and while the file grows no stall ends it.
theorem genuine (driver : Text) (pods : Option (List (Option Text))) (total : UInt64) {started : Nanos} {looks : List Look}
    (hordered : Ordered started looks) (hsighted : Sighted (.attach driver pods) looks) {fault : SnapFault}
    (h : watch driver pods total started looks = .error fault)
    : (∃ past look rest s, looks = past ++ look :: rest ∧ watch driver pods total started past = .ok s ∧
        s.step look = .error fault ∧ Evidence (.attach driver pods) started past look fault) ∧
      (Trace.Before (fun past look => Growing (.attach driver pods) started (past ++ [look]) look.now) looks →
        fault.isStall = false) := by
  rcases watch_error h with ⟨past, look, rest, s, rfl, hpast, hstep, hknown⟩
  have happ : past ++ look :: rest = past ++ [look] ++ rest := by simp
  have hpast' : Ordered started (past ++ [look]) := (happ ▸ hordered).front
  constructor
  . refine ⟨past, look, rest, s, rfl, hpast, hstep, evidence_of_step hknown hpast' ?_ hstep⟩
    intro before l after heq
    exact hsighted before l (after ++ rest) (by rw [happ, heq]; simp)
  . intro hgrowing
    exact not_stall_of_growing hknown hpast' (hgrowing past look rest rfl) hstep

def boundStatus : Status := ⟨some ['c'], none, none⟩

def flat (now : Nanos) : Look := ⟨now, some boundStatus, .ok ['a', ' ', '1']⟩

def plugin : Option (List (Option Text)) := some [some ['p']]

theorem genuine_flat
    : (∃ past look rest s, [flat 0, flat meteredStall] = past ++ look :: rest ∧ watch hostpathDriver plugin 0 0 past = .ok s ∧
        s.step look = .error (.noProgress 0 0) ∧ Evidence (.attach hostpathDriver plugin) 0 past look (.noProgress 0 0)) ∧
      (Trace.Before (fun past look => Growing (.attach hostpathDriver plugin) 0 (past ++ [look]) look.now)
        [flat 0, flat meteredStall] → (SnapFault.noProgress 0 0).isStall = false) := by
  have hordered : Ordered 0 [flat 0, flat meteredStall] := ⟨by simp, by simp [flat]⟩
  have hsighted : Sighted (.attach hostpathDriver plugin) [flat 0, flat meteredStall] := by
    have hseen : ∀ look ∈ [flat 0, flat meteredStall], look.sampled.isSome := by
      intro look hlook
      simp only [List.mem_cons, List.not_mem_nil, or_false] at hlook
      rcases hlook with rfl | rfl <;> rfl
    intro past look rest heq _ _ _
    refine ⟨hseen look (by simp [heq]), ?_⟩
    intro before first after hpast _
    exact hseen first (by simp [heq, hpast])
  exact genuine hostpathDriver plugin 0 hordered hsighted rfl

def unread (now : Nanos) : Look := ⟨now, some boundStatus, .ok []⟩

-- The wait ends with a stalled copy although there was no reading at all.
theorem unread_stalled
    : Ordered 0 [unread 0, unread meteredStall] ∧
      watch hostpathDriver plugin 0 0 [unread 0, unread meteredStall] = .error (.noProgress 0 0) ∧
      ∀ past look rest, [unread 0, unread meteredStall] = past ++ look :: rest →
        ¬Evidence (.attach hostpathDriver plugin) 0 past look (.noProgress 0 0) := by
  refine ⟨⟨by simp, by simp [unread]⟩, rfl, ?_⟩
  rintro past look rest hlooks ⟨_, _, before, first, between, second, after, heq, ⟨snap, hread⟩, _⟩
  have hmem : first ∈ past ++ look :: rest := by
    have hfirst : first ∈ past ++ [look] := by simp [heq]
    rcases List.mem_append.mp hfirst with h | h
    . exact List.mem_append_left _ h
    . rw [List.mem_singleton.mp h]
      simp
  rw [← hlooks] at hmem
  simp only [List.mem_cons, List.not_mem_nil, or_false] at hmem
  rcases hmem with rfl | rfl <;> cases hread.2

end Verdict

end Snapshot
end Materialize
