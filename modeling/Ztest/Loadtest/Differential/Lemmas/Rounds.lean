import Ztest.Loadtest.Differential.Impl
import Mathlib.Data.List.Dedup

/-!
This module contains the proof that two backends which pass the gates of a differential run gave the
same answers: a response that the oracle has nothing to say about is in strict order, and two such
responses without a diff are equal.
-/

namespace Loadtest
namespace Load

theorem checkLinks_sorted {blocks : List CompactBlock} {prevHash : Option Bytes} {lastHeight : Option Nat}
    (h : checkLinks prevHash lastHeight blocks = [])
    : (blocks.map (·.height)).Pairwise (· < ·) ∧
        ∀ last, lastHeight = some last → ∀ block ∈ blocks, last < block.height := by
  induction blocks generalizing prevHash lastHeight with
  | nil =>
    refine ⟨List.Pairwise.nil, ?_⟩
    intro last _ block hblock
    cases hblock
  | cons block rest ih =>
    unfold checkLinks at h
    dsimp only at h
    rw [List.append_eq_nil_iff] at h
    rcases h with ⟨horder, hrest⟩
    have htail : ∃ prevHash', checkLinks prevHash' (some block.height) rest = [] := by
      split at hrest
      . cases hrest
      . cases hrest
      . rw [List.append_eq_nil_iff] at hrest
        exact ⟨_, hrest.2⟩
    rcases htail with ⟨prevHash', htail⟩
    rcases ih htail with ⟨hsorted, hafter⟩
    refine ⟨?_, ?_⟩
    . rw [List.map_cons, List.pairwise_cons]
      refine ⟨?_, hsorted⟩
      intro height hheight
      rcases List.mem_map.mp hheight with ⟨b, hb, rfl⟩
      exact hafter block.height rfl b hb
    . rintro last rfl b hb
      have hlast : last < block.height := by
        unfold checkOrder at horder
        dsimp only at horder
        split at horder
        . cases horder
        . omega
      rcases List.mem_cons.mp hb with rfl | hb
      . exact hlast
      . exact Nat.lt_trans hlast (hafter block.height rfl b hb)

theorem observe_sorted {overflowChecks : Bool} {stableBelow : Option Nat} {seen seen' : Seen} {start stop : Nat}
    {blocks : List CompactBlock} (h : observe overflowChecks stableBelow seen start stop blocks = some (seen', []))
    : (blocks.map (·.height)).Pairwise (· < ·) := by
  have hlinks : checkLinks none none blocks = [] := by
    rcases Option.map_eq_some_iff.mp h with ⟨complete, _, hobserve⟩
    dsimp only at hobserve
    split at hobserve
    . exact (List.append_eq_nil_iff.mp (Prod.mk.inj hobserve).2).1
    . exact (List.append_eq_nil_iff.mp (List.append_eq_nil_iff.mp (Prod.mk.inj hobserve).2).1).1
  exact (checkLinks_sorted hlinks).1

theorem diffAt_eq_none {a b : List CompactBlock} {height : Nat} (h : diffAt a b height = none)
    : collect (byHeight a) height = collect (byHeight b) height := by
  unfold diffAt at h
  split at h
  . next x y hx hy =>
    split at h
    . next heq => rw [hx, hy, heq]
    . cases h
  . cases h
  . cases h
  . next ha hb => rw [ha, hb]

theorem collect_byHeight_eq_none {blocks : List CompactBlock} {height : Nat}
    (h : height ∉ blocks.map (·.height))
    : collect (byHeight blocks) height = none := by
  rw [collect_eq_none_iff, byHeight, List.map_map]
  exact h

theorem diffRanges_eq_nil {a b : List CompactBlock} (h : diffRanges a b = []) (height : Nat)
    : collect (byHeight a) height = collect (byHeight b) height := by
  by_cases hmem : height ∈ (a ++ b).map (·.height)
  . apply diffAt_eq_none
    apply List.filterMap_eq_nil_iff.mp h
    exact (List.mem_insertionSort _).mpr (List.mem_dedup.mpr hmem)
  . rw [List.map_append, List.mem_append, not_or] at hmem
    rw [collect_byHeight_eq_none hmem.1, collect_byHeight_eq_none hmem.2]

/--
Two ordered responses without a diff are equal as lists.
-/
theorem eq_of_diffRanges {a b : List CompactBlock} (ha : (a.map (·.height)).Pairwise (· < ·))
    (hb : (b.map (·.height)).Pairwise (· < ·)) (h : diffRanges a b = [])
    : a = b :=
  eq_of_collect_eq ha hb (diffRanges_eq_nil h)

/--
Nothing is held against either side of the connection.
-/
structure Task.Clean (t : Task) : Prop where
  violationsA : t.ta.violations = []
  violationsB : t.tb.violations = []
  errorsA : t.ta.errors = 0
  errorsB : t.tb.errors = 0
  parity : t.parity = []

-- As long as a list of findings is empty, no key was seen.
structure Task.Unseen (t : Task) : Prop where
  seenA : t.ta.violations = [] → t.seenA = []
  seenB : t.tb.violations = [] → t.seenB = []
  seenDiff : t.parity = [] → t.seenDiff = []

theorem keepNew_append {α κ : Type} [DecidableEq κ] {key : α → κ} {seen : List κ} {old xs : List α}
    (hunseen : old = [] → seen = []) (h : old ++ (keepNew key seen xs).2 = [])
    : old = [] ∧ xs = [] ∧ (keepNew key seen xs).1 = [] := by
  rcases List.append_eq_nil_iff.mp h with ⟨hold, hkept⟩
  rw [hunseen hold] at hkept ⊢
  have hxs := keepNew_nil hkept
  rw [hxs]
  exact ⟨hold, rfl, rfl⟩

section Note

variable {v : List Violation} {t : Task} (hu : t.Unseen)
include hu

theorem noteA_unseen : (Driver.noteA v t).Unseen where
  seenA h := (keepNew_append hu.seenA h).2.2
  seenB := hu.seenB
  seenDiff := hu.seenDiff

theorem noteA_clean (h : (Driver.noteA v t).Clean) : t.Clean ∧ v = [] := by
  rcases keepNew_append hu.seenA h.violationsA with ⟨hold, hv, _⟩
  exact ⟨⟨hold, h.violationsB, h.errorsA, h.errorsB, h.parity⟩, hv⟩

theorem noteB_unseen : (Driver.noteB v t).Unseen where
  seenA := hu.seenA
  seenB h := (keepNew_append hu.seenB h).2.2
  seenDiff := hu.seenDiff

theorem noteB_clean (h : (Driver.noteB v t).Clean) : t.Clean ∧ v = [] := by
  rcases keepNew_append hu.seenB h.violationsB with ⟨hold, hv, _⟩
  exact ⟨⟨h.violationsA, hold, h.errorsA, h.errorsB, h.parity⟩, hv⟩

theorem compare_unseen (a b : List CompactBlock) : (Driver.compare a b t).Unseen where
  seenA := hu.seenA
  seenB := hu.seenB
  seenDiff h := (keepNew_append hu.seenDiff h).2.2

theorem compare_clean {a b : List CompactBlock} (h : (Driver.compare a b t).Clean)
    : t.Clean ∧ diffRanges a b = [] := by
  rcases keepNew_append hu.seenDiff h.parity with ⟨hold, hdiff, _⟩
  exact ⟨⟨h.violationsA, h.violationsB, h.errorsA, h.errorsB, hold⟩, hdiff⟩

end Note

-- The times at which a connection stood at the head of its loop.
def heads (i : Nat) (events : List Event) : List Nat :=
  events.filterMap fun event =>
    match event with
    | .round conn elapsed _ _ => if conn = i then some elapsed else none
    | .second _ => none

def Requested (d : Driver) (events : List Event) (i : Nat) (ra rb : Except String (List CompactBlock)) : Prop :=
  ∃ elapsed, .round i elapsed ra rb ∈ events ∧ elapsed < d.duration

def Answered (ra rb : Except String (List CompactBlock)) (P : List CompactBlock → List CompactBlock → Prop) : Prop :=
  ∃ a b, ra = .ok a ∧ rb = .ok b ∧ P (blockRange a) (blockRange b)

/--
What the task of a connection says about its events so far.
-/
structure Tracked (d : Driver) (events : List Event) (i : Nat) (t : Task) : Prop where
  unseen : t.Unseen
  -- In a clean task every round but the pending one saw equal answers.
  rounds : t.Clean → ∀ ra rb, Requested d events i ra rb →
    Answered ra rb fun a b => a = b ∨ t.pending = some (a, b)
  sorted : t.Clean → ∀ a b, t.pending = some (a, b) → (a.map (·.height)).Pairwise (· < ·)
  heads : ∃ before, (∀ e ∈ before, e < d.duration) ∧
    (heads i events = before ∧ t.done = false ∨
      ∃ e, d.duration ≤ e ∧ heads i events = before ++ [e] ∧ t.done = true ∧ t.pending = none)

theorem requested_append {d : Driver} {events : List Event} {event : Event} {i : Nat}
    {ra rb : Except String (List CompactBlock)} (h : Requested d (events ++ [event]) i ra rb)
    : Requested d events i ra rb ∨ ∃ elapsed, event = .round i elapsed ra rb ∧ elapsed < d.duration := by
  rcases h with ⟨elapsed, hmem, hlt⟩
  rcases List.mem_append.mp hmem with hmem | hmem
  . exact Or.inl ⟨elapsed, hmem, hlt⟩
  . exact Or.inr ⟨elapsed, (List.mem_singleton.mp hmem).symm, hlt⟩

theorem heads_round (i : Nat) (events : List Event) (elapsed : Nat) (ra rb : Except String (List CompactBlock))
    : heads i (events ++ [.round i elapsed ra rb]) = heads i events ++ [elapsed] := by
  simp [heads]

def Event.passesBy (event : Event) (i : Nat) : Prop := ∀ elapsed ra rb, event ≠ .round i elapsed ra rb

theorem heads_passesBy {i : Nat} {event : Event} (h : event.passesBy i) (events : List Event)
    : heads i (events ++ [event]) = heads i events := by
  have hnone : heads i [event] = [] := by
    cases event with
    | round conn elapsed ra rb =>
      have hne : conn ≠ i := by
        rintro rfl
        exact h elapsed ra rb rfl
      simp [heads, hne]
    | second conn => rfl
  unfold heads at hnone ⊢
  rw [List.filterMap_append, hnone, List.append_nil]

theorem requested_passesBy {d : Driver} {events : List Event} {event : Event} {i : Nat}
    {ra rb : Except String (List CompactBlock)} (hpass : event.passesBy i)
    (h : Requested d (events ++ [event]) i ra rb)
    : Requested d events i ra rb := by
  rcases requested_append h with h | ⟨elapsed, heq, _⟩
  . exact h
  . exact absurd heq (hpass elapsed ra rb)

theorem Tracked.passesBy {d : Driver} {events : List Event} {event : Event} {i : Nat} {t : Task}
    (h : Tracked d events i t) (hpass : event.passesBy i)
    : Tracked d (events ++ [event]) i t where
  unseen := h.unseen
  rounds hclean ra rb hreq := h.rounds hclean ra rb (requested_passesBy hpass hreq)
  sorted := h.sorted
  heads := by
    rw [heads_passesBy hpass]
    exact h.heads

section Round

variable {d : Driver} {events : List Event} {i elapsed : Nat} {s : State}
variable {ra rb : Except String (List CompactBlock)}
variable (h : Tracked d events i (s.tasks i)) (hdone : (s.tasks i).done = false)
  (hpending : (s.tasks i).pending = none)
include h hdone

theorem Tracked.heads_open
    : (∀ e ∈ Load.heads i events, e < d.duration) := by
  rcases h.heads with ⟨before, hbefore, ⟨heq, _⟩ | ⟨_, _, _, hd, _⟩⟩
  . rw [heq]
    exact hbefore
  . rw [hdone] at hd
    cases hd

theorem Tracked.heads_more {t : Task} (ht : t.done = false) (hlt : elapsed < d.duration)
    : ∃ before, (∀ e ∈ before, e < d.duration) ∧
        (Load.heads i (events ++ [.round i elapsed ra rb]) = before ∧ t.done = false ∨
          ∃ e, d.duration ≤ e ∧ Load.heads i (events ++ [.round i elapsed ra rb]) = before ++ [e] ∧
            t.done = true ∧ t.pending = none) := by
  refine ⟨_, ?_, Or.inl ⟨rfl, ht⟩⟩
  rw [heads_round]
  intro e he
  rcases List.mem_append.mp he with he | he
  . exact h.heads_open hdone e he
  . rw [List.mem_singleton.mp he]
    exact hlt

theorem Tracked.failed (hlt : elapsed < d.duration) (herr : 0 < Driver.failed ra + Driver.failed rb)
    : Tracked d (events ++ [.round i elapsed ra rb]) i (Driver.countErrors true ra rb (s.tasks i)) := by
  have hdirty : ¬(Driver.countErrors true ra rb (s.tasks i)).Clean := by
    intro hclean
    have ha : (s.tasks i).ta.errors + Driver.failed ra = 0 := hclean.errorsA
    have hb : (s.tasks i).tb.errors + Driver.failed rb = 0 := hclean.errorsB
    omega
  exact {
    unseen := ⟨h.unseen.seenA, h.unseen.seenB, h.unseen.seenDiff⟩
    rounds := fun hclean => absurd hclean hdirty
    sorted := fun hclean => absurd hclean hdirty
    heads := h.heads_more hdone hdone hlt
  }

include hpending

theorem Tracked.finish (hge : d.duration ≤ elapsed)
    : Tracked d (events ++ [.round i elapsed ra rb]) i { s.tasks i with done := true } where
  unseen := ⟨h.unseen.seenA, h.unseen.seenB, h.unseen.seenDiff⟩
  rounds := by
    intro hclean ra' rb' hreq
    rcases requested_append hreq with hreq | ⟨e, heq, hlt⟩
    . exact h.rounds ⟨hclean.1, hclean.2, hclean.3, hclean.4, hclean.5⟩ ra' rb' hreq
    . cases heq
      omega
  sorted := by
    intro _ a b hp
    rw [show ({ s.tasks i with done := true } : Task).pending = (s.tasks i).pending from rfl, hpending] at hp
    cases hp
  heads := ⟨_, h.heads_open hdone, Or.inr ⟨elapsed, hge, heads_round i events elapsed ra rb, rfl, hpending⟩⟩

theorem Tracked.answered {a b : List CompactBlock} {seen' : Seen} {v : List Violation} (hlt : elapsed < d.duration)
    (hobserved : d.observed s i (blockRange a) = some (seen', v))
    : Tracked d (events ++ [.round i elapsed (.ok a) (.ok b)]) i
        { Driver.noteA v (Driver.countOps true (s.tasks i)) with pending := some (blockRange a, blockRange b) } := by
  have hu : (Driver.countOps true (s.tasks i)).Unseen := ⟨h.unseen.seenA, h.unseen.seenB, h.unseen.seenDiff⟩
  have hnoted := noteA_unseen (v := v) hu
  have hback : ∀ t : Task, t = { Driver.noteA v (Driver.countOps true (s.tasks i)) with
      pending := some (blockRange a, blockRange b) } → t.Clean →
      (s.tasks i).Clean ∧ ((blockRange a).map (·.height)).Pairwise (· < ·) := by
    rintro t rfl hclean
    rcases noteA_clean hu ⟨hclean.1, hclean.2, hclean.3, hclean.4, hclean.5⟩ with ⟨hold, rfl⟩
    exact ⟨⟨hold.1, hold.2, hold.3, hold.4, hold.5⟩, observe_sorted hobserved⟩
  refine ⟨⟨hnoted.seenA, hnoted.seenB, hnoted.seenDiff⟩, ?_, ?_, h.heads_more hdone hdone hlt⟩
  . intro hclean ra' rb' hreq
    rcases requested_append hreq with hreq | ⟨e, heq, _⟩
    . rcases h.rounds (hback _ rfl hclean).1 ra' rb' hreq with ⟨x, y, hx, hy, hxy⟩
      refine ⟨x, y, hx, hy, Or.inl ?_⟩
      rw [hpending] at hxy
      rcases hxy with hxy | hxy
      . exact hxy
      . cases hxy
    . cases heq
      exact ⟨a, b, rfl, rfl, Or.inr rfl⟩
  . intro hclean x y hp
    cases hp
    exact (hback _ rfl hclean).2

theorem Tracked.request (hpaired : d.paired = true) (hlt : elapsed < d.duration) {s' : State}
    (hrequest : d.request s i ra rb = some s')
    : Tracked d (events ++ [.round i elapsed ra rb]) i (s'.tasks i) := by
  unfold Driver.request at hrequest
  rw [hpaired] at hrequest
  cases ra with
  | error e =>
    cases hrequest
    dsimp only
    rw [Function.update_self]
    exact h.failed hdone hlt (Nat.add_pos_left Nat.one_pos _)
  | ok a =>
    cases rb with
    | error e =>
      cases hrequest
      dsimp only
      rw [Function.update_self]
      exact h.failed hdone hlt (Nat.add_pos_right _ Nat.one_pos)
    | ok b =>
      rcases Option.map_eq_some_iff.mp hrequest with ⟨⟨seen', v⟩, hobserved, rfl⟩
      dsimp only
      rw [Function.update_self]
      exact h.answered hdone hpending hlt hobserved

end Round

theorem Tracked.second {d : Driver} {events : List Event} {i : Nat} {s : State} {a b : List CompactBlock}
    {seen' : Seen} {v : List Violation} (h : Tracked d events i (s.tasks i)) (hp : (s.tasks i).pending = some (a, b))
    (hobserved : d.observed s i b = some (seen', v))
    : Tracked d (events ++ [.second i]) i
        (Driver.compare a b (Driver.noteB v { s.tasks i with pending := none })) := by
  have hpass : (Event.second i).passesBy i := by
    intro _ _ _ heq
    cases heq
  have hu : ({ s.tasks i with pending := none } : Task).Unseen :=
    ⟨h.unseen.seenA, h.unseen.seenB, h.unseen.seenDiff⟩
  have hnoted := noteB_unseen (v := v) hu
  have hopen : (s.tasks i).done = false := by
    rcases h.heads with ⟨_, _, ⟨_, hdone⟩ | ⟨_, _, _, _, hnone⟩⟩
    . exact hdone
    . rw [hp] at hnone
      cases hnone
  have hpending : (Driver.compare a b (Driver.noteB v { s.tasks i with pending := none })).pending = none := rfl
  refine ⟨compare_unseen hnoted a b, ?_, ?_, ?_⟩
  . intro hclean ra rb hreq
    rcases compare_clean hnoted hclean with ⟨hclean, hdiff⟩
    rcases noteB_clean hu hclean with ⟨hold, rfl⟩
    have hbefore : (s.tasks i).Clean := ⟨hold.1, hold.2, hold.3, hold.4, hold.5⟩
    have heq := eq_of_diffRanges (h.sorted hbefore a b hp) (observe_sorted hobserved) hdiff
    rcases h.rounds hbefore ra rb (requested_passesBy hpass hreq) with ⟨x, y, hx, hy, hxy⟩
    refine ⟨x, y, hx, hy, Or.inl ?_⟩
    rcases hxy with hxy | hxy
    . exact hxy
    . rw [hp, Option.some.injEq, Prod.mk.injEq] at hxy
      rw [← hxy.1, ← hxy.2, heq]
  . intro _ x y hxy
    rw [hpending] at hxy
    cases hxy
  . rw [heads_passesBy hpass]
    exact ⟨_, h.heads_open hopen, Or.inl ⟨rfl, hopen⟩⟩

theorem request_other {d : Driver} {s s' : State} {i j : Nat} {ra rb : Except String (List CompactBlock)}
    (h : d.request s i ra rb = some s') (hne : j ≠ i)
    : s'.tasks j = s.tasks j := by
  unfold Driver.request at h
  dsimp only at h
  split at h
  . rcases Option.map_eq_some_iff.mp h with ⟨_, _, rfl⟩
    exact Function.update_of_ne hne _ _
  . rcases Option.map_eq_some_iff.mp h with ⟨_, _, rfl⟩
    exact Function.update_of_ne hne _ _
  . cases h
    exact Function.update_of_ne hne _ _

theorem Tracked.step {d : Driver} (hpaired : d.paired = true) {events : List Event} {s s' : State} {event : Event}
    {r : Unit} (h : ∀ j, Tracked d events j (s.tasks j)) (hstep : d.step s event = .ok (s', r)) (j : Nat)
    : Tracked d (events ++ [event]) j (s'.tasks j) := by
  cases event with
  | round i elapsed ra rb =>
    have hpass : j ≠ i → (Event.round i elapsed ra rb).passesBy j := by
      intro hne _ _ _ heq
      cases heq
      exact hne rfl
    unfold Driver.step at hstep
    dsimp only at hstep
    split at hstep
    . next hguard =>
      rcases hguard with ⟨_, hdone, hpending⟩
      split at hstep
      . next hlt =>
        split at hstep
        . next s' hrequest =>
          cases hstep
          by_cases hj : j = i
          . subst hj
            exact (h j).request hdone hpending hpaired hlt hrequest
          . rw [request_other hrequest hj]
            exact (h j).passesBy (hpass hj)
        . cases hstep
      . next hge =>
        cases hstep
        dsimp only
        by_cases hj : j = i
        . subst hj
          rw [Function.update_self]
          exact (h j).finish hdone hpending (Nat.le_of_not_lt hge)
        . rw [Function.update_of_ne hj]
          exact (h j).passesBy (hpass hj)
    . cases hstep
  | second i =>
    have hpass : (Event.second i).passesBy j := by
      intro _ _ _ heq
      cases heq
    unfold Driver.step at hstep
    dsimp only at hstep
    split at hstep
    . next a b hp =>
      split at hstep
      . next seen' v hobserved =>
        cases hstep
        dsimp only
        by_cases hj : j = i
        . subst hj
          rw [Function.update_self]
          exact (h j).second hp hobserved
        . rw [Function.update_of_ne hj]
          exact (h j).passesBy hpass
      . cases hstep
    . cases hstep

theorem Tracked.init (d : Driver) (i : Nat) : Tracked d [] i Task.new where
  unseen := ⟨fun _ => rfl, fun _ => rfl, fun _ => rfl⟩
  rounds := by
    rintro _ ra rb ⟨_, hmem, _⟩
    cases hmem
  sorted := by
    intro _ a b hp
    cases hp
  heads := ⟨[], List.forall_mem_nil _, Or.inl ⟨rfl, rfl⟩⟩

theorem Tracked.run {d : Driver} (hpaired : d.paired = true) {events : List Event} {s : State}
    (hexec : Run.exec d.step .init events = .ok s) (i : Nat)
    : Tracked d events i (s.tasks i) := by
  have hall := Run.exec_history (I := fun past s => ∀ j, Tracked d past j (s.tasks j))
    (fun past s event s' r h hstep j => Tracked.step hpaired h hstep j)
    (fun j => Tracked.init d j) hexec
  exact hall i

end Load
end Loadtest
