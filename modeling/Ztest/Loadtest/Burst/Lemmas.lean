import Ztest.Loadtest.Burst.Impl
import Mathlib.Data.List.Nodup
import Mathlib.Data.List.Perm.Subperm

namespace Loadtest
namespace Steady

-- Between `fetch_add` and `fetch_sub`.
def Phase.Connected : Phase → Prop
  | .waiting | .bursting _ | .leaving => True
  | .opening | .marked | .gone => False

def Phase.Early : Phase → Prop
  | .opening | .marked => True
  | _ => False

/--
What a step does to the state, one case for each access.
-/
inductive Moved (s : State) : Event → State → Prop where
  | count (late : Bool) : Moved s (.count late) { s with counting := some (s.connected, s.roll) }
  | send (r : Reading) {wallets : Nat} {counted : List Nat} (h : s.counting = some (wallets, counted)) :
      Moved s (.send r) { s with bursts := s.bursts ++ [.new wallets counted r], counting := none }
  | mark {wallet : Nat} (h : (s.sessions wallet).phase = .opening) :
      Moved s (.mark wallet) (s.set wallet ⟨.marked, s.bursts.length⟩)
  | join {wallet : Nat} (h : (s.sessions wallet).phase = .marked) :
      Moved s (.join wallet)
        { s.enter wallet .waiting with connected := s.connected + 1, roll := wallet :: s.roll }
  | take {wallet : Nat} (h : (s.sessions wallet).phase = .waiting)
      (hseen : (s.sessions wallet).seen < s.bursts.length) :
      Moved s (.take wallet) (s.set wallet ⟨.bursting (s.bursts.length - 1), s.bursts.length⟩)
  | finish {wallet : Nat} (r : Reading) {burst : Nat} (h : (s.sessions wallet).phase = .bursting burst) :
      Moved s (.finish wallet r) ((s.acknowledge burst fun b => b.finish wallet r).enter wallet .waiting)
  | stop {wallet : Nat} (h : (s.sessions wallet).phase = .waiting) :
      Moved s (.stop wallet) (s.enter wallet .leaving)
  | depart {wallet : Nat} (h : (s.sessions wallet).phase = .leaving) :
      Moved s (.depart wallet)
        { s.enter wallet .gone with connected := s.connected - 1, roll := s.roll.erase wallet }
  | drop {wallet : Nat} (r : Reading) {burst : Nat} (h : (s.sessions wallet).phase = .bursting burst) :
      Moved s (.abort wallet r) ((s.acknowledge burst fun b => b.done wallet r).enter wallet .gone)
  | abort {wallet : Nat} (r : Reading) : Moved s (.abort wallet r) (s.enter wallet .gone)

theorem moved_of_step {s s' : State} {event : Event} {u : Unit} (h : step s event = .ok (s', u))
    : Moved s event s' := by
  cases event with
  | count late =>
    simp only [step] at h
    split at h
    . cases h
      exact .count late
    . cases h
  | send r =>
    simp only [step] at h
    split at h
    . next wallets counted hcounting =>
      cases h
      exact .send r hcounting
    . cases h
  | mark wallet =>
    simp only [step] at h
    split at h
    . next hphase =>
      cases h
      exact .mark hphase
    . cases h
  | join wallet =>
    simp only [step] at h
    split at h
    . next hphase =>
      cases h
      exact .join hphase
    . cases h
  | take wallet =>
    simp only [step] at h
    split at h
    . next seen hsession =>
      split at h
      . next hseen =>
        cases h
        exact .take (by rw [hsession]) (by rw [hsession]; exact hseen)
      . cases h
    . cases h
  | finish wallet r =>
    simp only [step] at h
    split at h
    . next burst hphase =>
      cases h
      exact .finish r hphase
    . cases h
  | stop wallet =>
    simp only [step] at h
    split at h
    . next hphase =>
      cases h
      exact .stop hphase
    . cases h
  | depart wallet =>
    simp only [step] at h
    split at h
    . next hphase =>
      cases h
      exact .depart hphase
    . cases h
  | abort wallet r =>
    simp only [step] at h
    split at h
    . cases h
    . next burst hphase =>
      cases h
      exact .drop r hphase
    . cases h
      exact .abort r

/--
Announcement `k` in terms of its own counter and of the sessions that acknowledged it.
-/
structure Burst.Inv (sessions : Nat → Session) (k : Nat) (b : Burst) : Prop where
  length : b.acked.length + b.pending = b.counted.length
  counted : b.counted.Nodup
  acked : b.acked.Nodup
  past : ∀ wallet ∈ b.acked, k < (sessions wallet).seen ∧ (sessions wallet).phase ≠ .bursting k
  ended : ∀ wallet ∈ b.acked, wallet ∈ b.finished ∨ (sessions wallet).phase = .gone
  once : b.measured.length ≤ 1
  drained : b.measured ≠ [] → b.pending = 0

/--
`session` may replace `old`: it does not return to an announcement that the old one has seen.
-/
structure Session.Advances (old session : Session) : Prop where
  seen : old.seen ≤ session.seen
  fresh : ∀ k, session.phase = .bursting k → old.phase = .bursting k ∨ old.seen ≤ k
  gone : old.phase = .gone → session.phase = .gone

theorem Burst.Inv.set {sessions : Nat → Session} {k : Nat} {b : Burst} (h : b.Inv sessions k) {wallet : Nat}
    {session : Session} (hadvances : (sessions wallet).Advances session)
    : b.Inv (Function.update sessions wallet session) k where
  length := h.length
  counted := h.counted
  acked := h.acked
  past := by
    intro i hi
    rcases h.past i hi with ⟨hseen, hphase⟩
    by_cases heq : i = wallet
    . subst heq
      rw [Function.update_self]
      refine ⟨Nat.lt_of_lt_of_le hseen hadvances.seen, ?_⟩
      intro hbursting
      rcases hadvances.fresh k hbursting with hold | hold
      . exact hphase hold
      . omega
    . rw [Function.update_of_ne heq]
      exact ⟨hseen, hphase⟩
  ended := by
    intro i hi
    by_cases heq : i = wallet
    . subst heq
      rw [Function.update_self]
      exact (h.ended i hi).imp id hadvances.gone
    . rw [Function.update_of_ne heq]
      exact h.ended i hi
  once := h.once
  drained := h.drained

theorem Burst.new_inv (sessions : Nat → Session) (k : Nat) {wallets : Nat} {counted : List Nat} (r : Reading)
    (hlength : counted.length = wallets) (hnodup : counted.Nodup)
    : (Burst.new wallets counted r).Inv sessions k where
  length := by simp [Burst.new, hlength]
  counted := hnodup
  acked := List.nodup_nil
  past := by simp [Burst.new]
  ended := by simp [Burst.new]
  once := by simp [Burst.new]
  drained := by simp [Burst.new]

theorem Burst.done_zero {b : Burst} (wallet : Nat) (r : Reading) (h : b.pending = 0) : b.done wallet r = b := by
  rw [Burst.done, h]

theorem Burst.done_pos {b : Burst} (wallet : Nat) (r : Reading) (h : b.pending ≠ 0)
    : (b.done wallet r).pending = b.pending - 1 ∧ (b.done wallet r).acked = wallet :: b.acked ∧
        (b.done wallet r).measured = if b.pending = 1 then b.measured ++ [b.drain r] else b.measured := by
  unfold Burst.done
  split
  . next hpending => exact absurd hpending h
  . next hpending => simp [hpending]
  . next left hpending => simp [hpending]

@[simp] theorem Burst.done_counted (b : Burst) (wallet : Nat) (r : Reading)
    : (b.done wallet r).counted = b.counted := by
  unfold Burst.done
  split <;> rfl

@[simp] theorem Burst.done_finished (b : Burst) (wallet : Nat) (r : Reading)
    : (b.done wallet r).finished = b.finished := by
  unfold Burst.done
  split <;> rfl

theorem Burst.done_acked {b : Burst} {wallet : Nat} {r : Reading} {i : Nat} (h : i ∈ (b.done wallet r).acked)
    : i ∈ b.acked ∨ b.pending ≠ 0 ∧ i = wallet := by
  by_cases hpending : b.pending = 0
  . rw [Burst.done_zero wallet r hpending] at h
    exact Or.inl h
  . rw [(Burst.done_pos wallet r hpending).2.1] at h
    rcases List.mem_cons.mp h with rfl | h
    . exact Or.inr ⟨hpending, rfl⟩
    . exact Or.inl h

/--
The session that holds announcement `k` acknowledges it and holds none afterwards.
-/
theorem Burst.Inv.done {sessions : Nat → Session} {k : Nat} {b : Burst} (h : b.Inv sessions k) {wallet : Nat}
    (r : Reading) (hphase : (sessions wallet).phase = .bursting k) {session : Session}
    (hadvances : (sessions wallet).Advances session) (hseen : k < session.seen)
    (hfree : session.phase ≠ .bursting k) (hgone : wallet ∈ b.finished ∨ session.phase = .gone)
    : (b.done wallet r).Inv (Function.update sessions wallet session) k := by
  by_cases hpending : b.pending = 0
  . rw [Burst.done_zero wallet r hpending]
    exact h.set hadvances
  . rcases Burst.done_pos wallet r hpending with ⟨hleft, hacked, hmeasured⟩
    have hfresh : wallet ∉ b.acked := fun hmem => (h.past wallet hmem).2 hphase
    have hnone : b.measured = [] := by
      by_contra hne
      exact hpending (h.drained hne)
    exact {
      length := by
        have := h.length
        rw [hacked, hleft, Burst.done_counted, List.length_cons]
        omega
      counted := by
        rw [Burst.done_counted]
        exact h.counted
      acked := by
        rw [hacked]
        exact List.nodup_cons.mpr ⟨hfresh, h.acked⟩
      past := by
        rw [hacked, List.forall_mem_cons, Function.update_self]
        exact ⟨⟨hseen, hfree⟩, (h.set hadvances).past⟩
      ended := by
        rw [hacked, List.forall_mem_cons, Function.update_self, Burst.done_finished]
        exact ⟨hgone, (h.set hadvances).ended⟩
      once := by
        rw [hmeasured, hnone]
        split <;> simp
      drained := by
        intro hne
        rw [hmeasured, hnone] at hne
        split at hne
        . next hone => rw [hleft, hone]
        . exact absurd rfl hne }

theorem Burst.Inv.finished {sessions : Nat → Session} {k : Nat} {b : Burst} (h : b.Inv sessions k) (wallet : Nat)
    : Burst.Inv sessions k { b with finished := wallet :: b.finished } where
  length := h.length
  counted := h.counted
  acked := h.acked
  past := h.past
  ended i hi := (h.ended i hi).imp (List.mem_cons_of_mem _) id
  once := h.once
  drained := h.drained

theorem Burst.finish_eq (b : Burst) (wallet : Nat) (r : Reading)
    : b.finish wallet r = Burst.done { b with finished := wallet :: b.finished } wallet r := by
  unfold Burst.finish Burst.done
  dsimp only
  split <;> rfl

structure Inv (s : State) : Prop where
  connected : s.roll.length = s.connected
  nodup : s.roll.Nodup
  onRoll : ∀ wallet ∈ s.roll, ¬(s.sessions wallet).phase.Early
  rolled : ∀ wallet, (s.sessions wallet).phase.Connected → wallet ∈ s.roll
  counting : ∀ counting ∈ s.counting, counting.2.length = counting.1 ∧ counting.2.Nodup
  seen : ∀ wallet, (s.sessions wallet).seen ≤ s.bursts.length
  holds : ∀ wallet k, (s.sessions wallet).phase = .bursting k → k < (s.sessions wallet).seen
  bursts : ∀ k (b : Burst), s.bursts[k]? = some b → b.Inv s.sessions k

/--
A step of one session that leaves the roll as it is.
-/
theorem Inv.set {s : State} (h : Inv s) {wallet : Nat} {session : Session}
    (hadvances : (s.sessions wallet).Advances session) (hseen : session.seen ≤ s.bursts.length)
    (hearly : session.phase.Early → (s.sessions wallet).phase.Early)
    (hconnected : session.phase.Connected → (s.sessions wallet).phase.Connected)
    (hholds : ∀ k, session.phase = .bursting k → k < session.seen)
    : Inv (s.set wallet session) where
  connected := h.connected
  nodup := h.nodup
  onRoll := by
    intro i hi
    by_cases heq : i = wallet
    . subst heq
      simp only [State.set, Function.update_self]
      exact fun hphase => h.onRoll i hi (hearly hphase)
    . simp only [State.set, Function.update_of_ne heq]
      exact h.onRoll i hi
  rolled := by
    intro i hi
    by_cases heq : i = wallet
    . subst heq
      simp only [State.set, Function.update_self] at hi
      exact h.rolled i (hconnected hi)
    . simp only [State.set, Function.update_of_ne heq] at hi
      exact h.rolled i hi
  counting := h.counting
  seen := by
    intro i
    by_cases heq : i = wallet
    . subst heq
      simpa [State.set] using hseen
    . simpa [State.set, Function.update_of_ne heq] using h.seen i
  holds := by
    intro i k hk
    by_cases heq : i = wallet
    . subst heq
      simp only [State.set, Function.update_self] at hk ⊢
      exact hholds k hk
    . simp only [State.set, Function.update_of_ne heq] at hk ⊢
      exact h.holds i k hk
  bursts k b hb := (h.bursts k b hb).set hadvances

theorem Inv.enter {s : State} (h : Inv s) {wallet : Nat} {phase : Phase}
    (hfree : ∀ k, phase ≠ .bursting k) (hgone : (s.sessions wallet).phase = .gone → phase = .gone)
    (hearly : ¬phase.Early) (hconnected : phase.Connected → (s.sessions wallet).phase.Connected)
    : Inv (s.enter wallet phase) := by
  apply h.set
  . exact ⟨Nat.le_refl _, fun k hk => absurd hk (hfree k), hgone⟩
  . exact h.seen wallet
  . exact fun hphase => absurd hphase hearly
  . exact hconnected
  . exact fun k hk => absurd hk (hfree k)

/--
The session that holds announcement `k` acknowledges it and moves on to `phase`.
-/
theorem Inv.acknowledge {s : State} (h : Inv s) {wallet k : Nat} {f : Burst → Burst} {phase : Phase}
    (hphase : (s.sessions wallet).phase = .bursting k) (hfree : ∀ k, phase ≠ .bursting k)
    (hearly : ¬phase.Early)
    (hf : ∀ b : Burst, b.Inv s.sessions k →
      (f b).Inv (Function.update s.sessions wallet { s.sessions wallet with phase }) k)
    : Inv ((s.acknowledge k f).enter wallet phase) := by
  have henter : Inv (s.enter wallet phase) := by
    apply h.enter hfree
    . intro hgone
      rw [hphase] at hgone
      cases hgone
    . exact hearly
    . intro _
      rw [hphase]
      trivial
  exact {
    connected := henter.connected
    nodup := henter.nodup
    onRoll := henter.onRoll
    rolled := henter.rolled
    counting := henter.counting
    seen := by
      intro i
      have := henter.seen i
      simpa [State.acknowledge, State.enter, State.set] using this
    holds := henter.holds
    bursts := by
      intro j b hb
      simp only [State.acknowledge, State.enter, State.set, List.getElem?_modify, Option.map_eq_map,
        Option.map_eq_some_iff] at hb
      rcases hb with ⟨old, hold, rfl⟩
      split
      . next heq =>
        subst heq
        exact hf old (h.bursts k old hold)
      . exact henter.bursts j old hold }

theorem inv_init : Inv .init where
  connected := rfl
  nodup := List.nodup_nil
  onRoll := by simp [State.init]
  rolled := by simp [State.init, Phase.Connected]
  counting := by simp [State.init]
  seen := by simp [State.init]
  holds := by simp [State.init]
  bursts := by simp [State.init]

theorem Inv.send {s : State} (h : Inv s) (r : Reading) {wallets : Nat} {counted : List Nat}
    (hcounting : s.counting = some (wallets, counted))
    : Inv { s with bursts := s.bursts ++ [.new wallets counted r], counting := none } where
  connected := h.connected
  nodup := h.nodup
  onRoll := h.onRoll
  rolled := h.rolled
  counting := by simp
  seen i := by
    rw [List.length_append]
    exact Nat.le_add_right_of_le (h.seen i)
  holds := h.holds
  bursts := by
    intro k b hb
    rcases h.counting _ hcounting with ⟨hlength, hnodup⟩
    rw [List.getElem?_append] at hb
    split at hb
    . exact h.bursts k b hb
    . rw [List.getElem?_singleton] at hb
      split at hb
      . cases hb
        exact Burst.new_inv s.sessions k r hlength hnodup
      . cases hb

theorem Inv.join {s : State} (h : Inv s) {wallet : Nat} (hphase : (s.sessions wallet).phase = .marked)
    : Inv { s.enter wallet .waiting with connected := s.connected + 1, roll := wallet :: s.roll } where
  connected := by
    rw [List.length_cons, h.connected]
  nodup := by
    apply List.nodup_cons.mpr ⟨?_, h.nodup⟩
    intro hmem
    apply h.onRoll wallet hmem
    rw [hphase]
    trivial
  onRoll := by
    intro i hi
    by_cases heq : i = wallet
    . subst heq
      simp [State.enter, State.set, Phase.Early]
    . simp only [State.enter, State.set, Function.update_of_ne heq]
      exact h.onRoll i ((List.mem_cons.mp hi).resolve_left heq)
  rolled := by
    intro i hi
    by_cases heq : i = wallet
    . rw [heq]
      exact List.mem_cons_self
    . simp only [State.enter, State.set, Function.update_of_ne heq] at hi
      exact List.mem_cons_of_mem _ (h.rolled i hi)
  counting := h.counting
  seen i := by
    by_cases heq : i = wallet
    . subst heq
      simpa [State.enter, State.set] using h.seen i
    . simpa [State.enter, State.set, Function.update_of_ne heq] using h.seen i
  holds i k hk := by
    by_cases heq : i = wallet
    . subst heq
      simp [State.enter, State.set] at hk
    . simp only [State.enter, State.set, Function.update_of_ne heq] at hk ⊢
      exact h.holds i k hk
  bursts k b hb := by
    apply (h.bursts k b hb).set
    refine ⟨Nat.le_refl _, ?_, ?_⟩
    . intro j hj
      cases hj
    . intro hgone
      rw [hphase] at hgone
      cases hgone

theorem Inv.depart {s : State} (h : Inv s) {wallet : Nat} (hphase : (s.sessions wallet).phase = .leaving)
    : Inv { s.enter wallet .gone with connected := s.connected - 1, roll := s.roll.erase wallet } := by
  have hmem : wallet ∈ s.roll := by
    apply h.rolled
    rw [hphase]
    trivial
  have henter : Inv (s.enter wallet .gone) := by
    apply h.enter
    . intro k hk
      cases hk
    . intro _
      rfl
    . exact id
    . exact False.elim
  exact {
    connected := by
      rw [List.length_erase_of_mem hmem, h.connected]
    nodup := h.nodup.erase wallet
    onRoll := fun i hi => henter.onRoll i (List.mem_of_mem_erase hi)
    rolled := by
      intro i hi
      by_cases heq : i = wallet
      . subst heq
        simp [State.enter, State.set, Phase.Connected] at hi
      . exact (List.mem_erase_of_ne heq).mpr (henter.rolled i hi)
    counting := henter.counting
    seen := henter.seen
    holds := henter.holds
    bursts := henter.bursts }

theorem Inv.take {s : State} (h : Inv s) {wallet : Nat} (hphase : (s.sessions wallet).phase = .waiting)
    (hseen : (s.sessions wallet).seen < s.bursts.length)
    : Inv (s.set wallet ⟨.bursting (s.bursts.length - 1), s.bursts.length⟩) := by
  apply h.set
  . refine ⟨Nat.le_of_lt hseen, ?_, ?_⟩
    . intro k hk
      cases hk
      right
      omega
    . intro hgone
      rw [hphase] at hgone
      cases hgone
  . exact Nat.le_refl _
  . exact False.elim
  . intro _
    rw [hphase]
    trivial
  . intro k hk
    cases hk
    dsimp only
    omega

theorem Inv.step {s s' : State} {event : Event} (h : Inv s) (hmoved : Moved s event s') : Inv s' := by
  cases hmoved with
  | count late =>
    exact { h with
      counting := by
        rintro counting ⟨⟩
        exact ⟨h.connected, h.nodup⟩ }
  | send r hcounting => exact h.send r hcounting
  | @mark wallet hphase =>
    apply h.set
    . refine ⟨h.seen wallet, ?_, ?_⟩
      . intro k hk
        cases hk
      . intro hgone
        rw [hphase] at hgone
        cases hgone
    . exact Nat.le_refl _
    . intro _
      rw [hphase]
      trivial
    . exact False.elim
    . intro k hk
      cases hk
  | join hphase => exact h.join hphase
  | take hphase hseen => exact h.take hphase hseen
  | @finish wallet r burst hphase =>
    have hseen := h.holds wallet burst hphase
    apply h.acknowledge hphase
    . intro k hk
      cases hk
    . exact id
    . intro b hb
      rw [Burst.finish_eq]
      apply (hb.finished wallet).done r hphase
      . refine ⟨Nat.le_refl _, ?_, ?_⟩
        . intro k hk
          cases hk
        . intro hgone
          rw [hphase] at hgone
          cases hgone
      . exact hseen
      . intro hk
        cases hk
      . exact Or.inl List.mem_cons_self
  | stop hphase =>
    apply h.enter
    . intro k hk
      cases hk
    . intro hgone
      rw [hphase] at hgone
      cases hgone
    . exact id
    . intro _
      rw [hphase]
      trivial
  | depart hphase => exact h.depart hphase
  | @drop wallet r burst hphase =>
    have hseen := h.holds wallet burst hphase
    apply h.acknowledge hphase
    . intro k hk
      cases hk
    . exact id
    . intro b hb
      apply hb.done r hphase
      . refine ⟨Nat.le_refl _, ?_, fun _ => rfl⟩
        intro k hk
        cases hk
      . exact hseen
      . intro hk
        cases hk
      . exact Or.inr rfl
  | abort r =>
    apply h.enter
    . intro k hk
      cases hk
    . exact fun _ => rfl
    . exact id
    . exact False.elim

/--
Who acknowledges a burst that is still pending is one of those it counted.
-/
def Counted (s : State) (event : Event) : Prop :=
  ∀ wallet r, (event = .finish wallet r ∨ event = .abort wallet r) →
    ∀ k b, (s.sessions wallet).phase = .bursting k → s.bursts[k]? = some b → b.pending ≠ 0 →
      wallet ∈ b.counted

def OnlyCounted (s : State) : Prop := ∀ b ∈ s.bursts, ∀ wallet ∈ b.acked, wallet ∈ b.counted

theorem OnlyCounted.acknowledge {s : State} (h : OnlyCounted s) {wallet k : Nat} (r : Reading)
    {f : Burst → Burst} {phase : Phase}
    (hcounted : ∀ b, s.bursts[k]? = some b → b.pending ≠ 0 → wallet ∈ b.counted)
    (hf : ∀ b, (f b).acked = (b.done wallet r).acked ∧ (f b).counted = b.counted)
    : OnlyCounted ((s.acknowledge k f).enter wallet phase) := by
  intro b hb i hi
  rcases List.mem_iff_getElem?.mp hb with ⟨j, hj⟩
  simp only [State.acknowledge, State.enter, State.set, List.getElem?_modify, Option.map_eq_map,
    Option.map_eq_some_iff] at hj
  rcases hj with ⟨old, hold, rfl⟩
  have hmem : old ∈ s.bursts := List.mem_iff_getElem?.mpr ⟨j, hold⟩
  split at hi
  . next heq =>
    subst heq
    rw [if_pos rfl, (hf old).2]
    rw [(hf old).1] at hi
    rcases Burst.done_acked hi with hi | ⟨hpending, rfl⟩
    . exact h old hmem i hi
    . exact hcounted old hold hpending
  . next hne =>
    rw [if_neg hne]
    exact h old hmem i hi

theorem OnlyCounted.step {s s' : State} {event : Event} (h : OnlyCounted s) (hcounted : Counted s event)
    (hmoved : Moved s event s')
    : OnlyCounted s' := by
  cases hmoved with
  | send r hcounting =>
    intro b hb
    rcases List.mem_append.mp hb with hb | hb
    . exact h b hb
    . rw [List.mem_singleton.mp hb]
      simp [Burst.new]
  | @finish wallet r burst hphase =>
    apply h.acknowledge r
    . exact fun b => hcounted wallet r (Or.inl rfl) burst b hphase
    . intro b
      simp [Burst.finish]
  | @drop wallet r burst hphase =>
    apply h.acknowledge r
    . exact fun b => hcounted wallet r (Or.inr rfl) burst b hphase
    . intro b
      simp
  | count | mark | join | take | stop | depart | abort => exact h

def Ended (s : State) (b : Burst) (wallet : Nat) : Prop :=
  wallet ∈ b.finished ∨ (s.sessions wallet).phase = .leaving ∨ (s.sessions wallet).phase = .gone

def Complete (s : State) (b : Burst) : Prop := b.measured ≠ [] → ∀ wallet ∈ b.counted, Ended s b wallet

theorem inv_exec {events : List Event} {s : State} (hexec : Run.exec step .init events = .ok s) : Inv s := by
  apply Run.exec_invariant ?_ inv_init hexec
  intro s event s' u hinv hstep
  exact hinv.step (moved_of_step hstep)

theorem onlyCounted_exec {events : List Event} {s : State} (hexec : Run.exec step .init events = .ok s)
    (halong : Run.Along step Counted .init events)
    : OnlyCounted s := by
  apply Run.exec_invariant_along ?_ ?_ halong hexec
  . intro s event s' u honly hcounted hstep
    exact honly.step hcounted (moved_of_step hstep)
  . intro b hb
    cases hb

theorem Burst.Inv.all_acked {sessions : Nat → Session} {k : Nat} {b : Burst} (h : b.Inv sessions k)
    (honly : ∀ wallet ∈ b.acked, wallet ∈ b.counted) (hmeasured : b.measured ≠ [])
    : ∀ wallet ∈ b.counted, wallet ∈ b.acked := by
  have hpending := h.drained hmeasured
  have hlength := h.length
  have hperm : b.acked.Perm b.counted := by
    apply (List.subperm_of_subset h.acked honly).perm_of_length_le
    omega
  exact fun wallet hwallet => hperm.mem_iff.mpr hwallet

/--
A burst measures its drain at most once, in every run. Where only those that it counted
acknowledge it while it is pending, it does so once each of them ended it or left.
-/
theorem drain_measured {events : List Event} {s : State} (hexec : Run.exec step .init events = .ok s)
    : (∀ b ∈ s.bursts, b.measured.length ≤ 1) ∧
        (Run.Along step Counted .init events → ∀ b ∈ s.bursts, Complete s b) := by
  have hinv := inv_exec hexec
  refine ⟨?_, ?_⟩
  . intro b hb
    rcases List.mem_iff_getElem?.mp hb with ⟨k, hk⟩
    exact (hinv.bursts k b hk).once
  . intro halong b hb hmeasured wallet hwallet
    rcases List.mem_iff_getElem?.mp hb with ⟨k, hk⟩
    have hacked := (hinv.bursts k b hk).all_acked (onlyCounted_exec hexec halong b hb) hmeasured wallet hwallet
    exact ((hinv.bursts k b hk).ended wallet hacked).imp id Or.inr

theorem counted_of_ne {s : State} {event : Event} (hfinish : ∀ wallet r, event ≠ .finish wallet r)
    (habort : ∀ wallet r, event ≠ .abort wallet r)
    : Counted s event := by
  intro wallet r h
  exact absurd h (not_or.mpr ⟨hfinish wallet r, habort wallet r⟩)

def alone : List Event :=
  [.mark 1, .join 1, .count false, .send ⟨0, none⟩, .take 1, .finish 1 ⟨5, none⟩]

theorem last_counted {s : State} (h : Run.exec step .init (alone.take 5) = .ok s)
    : Counted s (.finish 1 ⟨5, none⟩) := by
  cases h
  rintro wallet r (h | h) k b hphase hb _
  . cases h
    cases hphase
    cases hb
    exact List.mem_singleton_self 1
  . cases h

theorem alone_counted : Run.Along step Counted .init alone :=
  Run.along_cons (counted_of_ne nofun nofun) rfl (Run.along_cons (counted_of_ne nofun nofun) rfl
    (Run.along_cons (counted_of_ne nofun nofun) rfl (Run.along_cons (counted_of_ne nofun nofun) rfl
      (Run.along_cons (counted_of_ne nofun nofun) rfl (Run.along_cons (last_counted rfl) rfl trivial)))))

theorem alone_measured : ∃ s, Run.exec step .init alone = .ok s ∧ s.bursts.map (·.measured) = [[⟨5, none⟩]] ∧
    (∀ b ∈ s.bursts, b.measured.length ≤ 1) ∧ ∀ b ∈ s.bursts, Complete s b := by
  obtain ⟨s, hexec, hmeasured⟩ : ∃ s, Run.exec step .init alone = .ok s ∧
      s.bursts.map (·.measured) = [[⟨5, none⟩]] := ⟨_, rfl, rfl⟩
  exact ⟨s, hexec, hmeasured, (drain_measured hexec).1, (drain_measured hexec).2 alone_counted⟩

-- The third session has seen the channel but is not among the connected when they are counted.
def early : List Event :=
  [.mark 1, .join 1, .mark 2, .join 2, .mark 3, .count false, .send ⟨0, none⟩, .join 3, .take 1, .take 2,
    .take 3, .finish 3 ⟨4, none⟩, .finish 1 ⟨5, none⟩]

theorem early_not_complete
    : ¬∀ events s, Run.exec step .init events = .ok s → ∀ b ∈ s.bursts, b.measured.length ≤ 1 ∧ Complete s b := by
  intro h
  have hended := (h early _ rfl _ (List.mem_singleton_self _)).2 (by decide) 2 (by decide)
  revert hended
  unfold Ended
  decide

end Steady
end Loadtest
