import Mathlib.Order.Basic
import Mathlib.Tactic.Common

/-!
This module contains runs of a machine: a step function that consumes one input at a time, answers
with a result and may abort. `Run.exec` is the state a list of inputs leads to, `Run.Along` says that
a condition on the state and the next input holds at every step of a run. Then there are sweeps, loops
over a list that update every element in place, thread a state and may leave early, and computations that
answer nothing when their fuel runs out.
-/

namespace Run

variable {σ ι ρ ε : Type}

-- An input does not come in the state, or it ends the run.
inductive Stop (ε : Type) where
  | disabled
  | ended (reason : ε)
  deriving DecidableEq

-- Of a machine that nothing ends.
abbrev Disabled : Type := Stop Empty

def guarded {α : Type} (condition : Bool) (a : α) : Except Disabled α :=
  if condition then .ok a else .error .disabled

theorem guarded_ok {α : Type} {condition : Bool} {a a' : α} (h : guarded condition a = .ok a')
    : condition = true ∧ a' = a := by
  unfold guarded at h
  split at h
  . next htrue =>
    cases h
    exact ⟨htrue, rfl⟩
  . cases h

def exec (step : σ → ι → Except ε (σ × ρ)) (s : σ) : List ι → Except ε σ
  | [] => .ok s
  | i :: is =>
    match step s i with
    | .ok (s', _) => exec step s' is
    | .error e => .error e

/--
`Q` holds of the state and the input at every step of the run from `s`, up to the step that aborts.
-/
def Along (step : σ → ι → Except ε (σ × ρ)) (Q : σ → ι → Prop) (s : σ) : List ι → Prop
  | [] => True
  | i :: is => Q s i ∧ ∀ s' r, step s i = .ok (s', r) → Along step Q s' is

variable {step : σ → ι → Except ε (σ × ρ)}

theorem map_ok {α β : Type} {f : α → β} {x : Except ε α} {b : β}
    (h : x.map f = .ok b) : ∃ a, x = .ok a ∧ b = f a := by
  cases x with
  | error e => cases h
  | ok a =>
    cases h
    exact ⟨a, rfl, rfl⟩

theorem map_error {α β : Type} {f : α → β} {x : Except ε α} {e : ε} (h : x.map f = .error e) : x = .error e := by
  cases x with
  | error e' =>
    cases h
    rfl
  | ok a => cases h

theorem bind_ok {α β : Type} {f : α → Except ε β} {x : Except ε α} {b : β}
    (h : (x >>= f) = .ok b) : ∃ a, x = .ok a ∧ f a = .ok b := by
  cases x with
  | error e => cases h
  | ok a => exact ⟨a, rfl, h⟩

theorem exec_cons_ok {s s' : σ} {i : ι} {is : List ι} (h : exec step s (i :: is) = .ok s')
    : ∃ t r, step s i = .ok (t, r) ∧ exec step t is = .ok s' := by
  unfold exec at h
  split at h
  . next t r hstep => exact ⟨t, r, hstep, h⟩
  . cases h

theorem exec_error {s : σ} {is : List ι} {e : ε} (h : exec step s is = .error e)
    : ∃ pre i post t, is = pre ++ i :: post ∧ exec step s pre = .ok t ∧ step t i = .error e := by
  induction is generalizing s with
  | nil => cases h
  | cons i is ih =>
    unfold exec at h
    split at h
    . next s' r hstep =>
      obtain ⟨pre, j, post, t, rfl, ht, he⟩ := ih h
      refine ⟨i :: pre, j, post, t, rfl, ?_, he⟩
      simp only [exec, hstep]
      exact ht
    . next e' hstep =>
      cases h
      exact ⟨[], i, is, s, rfl, rfl, hstep⟩

theorem exec_append {s t : σ} {pre post : List ι} (h : exec step s pre = .ok t)
    : exec step s (pre ++ post) = exec step t post := by
  induction pre generalizing s with
  | nil =>
    cases h
    rfl
  | cons i is ih =>
    obtain ⟨u, r, hstep, hrest⟩ := exec_cons_ok h
    simp only [List.cons_append, exec, hstep]
    exact ih hrest

theorem along_cons {Q : σ → ι → Prop} {s t : σ} {i : ι} {is : List ι} {r : ρ} (hq : Q s i)
    (hstep : step s i = .ok (t, r)) (hrest : Along step Q t is) : Along step Q s (i :: is) := by
  refine ⟨hq, ?_⟩
  intro s' r' h
  cases hstep.symm.trans h
  exact hrest

theorem Along.get {Q : σ → ι → Prop} {s t : σ} {pre post : List ι} {i : ι}
    (halong : Along step Q s (pre ++ i :: post)) (h : exec step s pre = .ok t)
    : Q t i := by
  induction pre generalizing s with
  | nil =>
    cases h
    exact halong.1
  | cons j js ih =>
    obtain ⟨u, r, hstep, hrest⟩ := exec_cons_ok h
    exact ih (halong.2 u r hstep) hrest

theorem Along.left {Q : σ → ι → Prop} {s : σ} {pre post : List ι}
    (halong : Along step Q s (pre ++ post))
    : Along step Q s pre := by
  induction pre generalizing s with
  | nil => trivial
  | cons i is ih => exact ⟨halong.1, fun s' r hstep => ih (halong.2 s' r hstep)⟩

theorem Along.right {Q : σ → ι → Prop} {s t : σ} {pre post : List ι}
    (halong : Along step Q s (pre ++ post)) (h : exec step s pre = .ok t)
    : Along step Q t post := by
  induction pre generalizing s with
  | nil =>
    cases h
    exact halong
  | cons j js ih =>
    rcases exec_cons_ok h with ⟨u, r, hstep, hrest⟩
    exact ih (halong.2 u r hstep) hrest

theorem along_of_get {Q : σ → ι → Prop} {s : σ} {is : List ι}
    (h : ∀ pre i post t, is = pre ++ i :: post → exec step s pre = .ok t → Q t i)
    : Along step Q s is := by
  induction is generalizing s with
  | nil => trivial
  | cons i is ih =>
    refine ⟨h [] i is s rfl rfl, ?_⟩
    intro s' r hstep
    apply ih
    intro pre j post t heq ht
    apply h (i :: pre) j post t (by rw [heq]; rfl)
    simp only [exec, hstep]
    exact ht

/--
The invariant rule: what holds at the start and is kept by every step meeting `Q` holds at the end
of every run that meets `Q`.
-/
theorem exec_invariant_along {I : σ → Prop} {Q : σ → ι → Prop}
    (hstep : ∀ s i s' r, I s → Q s i → step s i = .ok (s', r) → I s')
    {s s' : σ} {is : List ι} (hinit : I s) (halong : Along step Q s is)
    (hexec : exec step s is = .ok s')
    : I s' := by
  induction is generalizing s with
  | nil =>
    cases hexec
    exact hinit
  | cons i is ih =>
    obtain ⟨t, r, ht, hrest⟩ := exec_cons_ok hexec
    exact ih (hstep _ _ _ _ hinit halong.1 ht) (halong.2 _ _ ht) hrest

theorem along_of_forall {Q : σ → ι → Prop} (h : ∀ s i, Q s i) (s : σ) (is : List ι)
    : Along step Q s is := by
  induction is generalizing s with
  | nil => trivial
  | cons i is ih => exact ⟨h s i, fun s' _ _ => ih s'⟩

theorem along_of_mem {Q : ι → Prop} {is : List ι} (h : ∀ i ∈ is, Q i) (s : σ)
    : Along step (fun _ i => Q i) s is := by
  induction is generalizing s with
  | nil => trivial
  | cons i is ih =>
    rw [List.forall_mem_cons] at h
    exact ⟨h.1, fun s' _ _ => ih h.2 s'⟩

theorem exec_invariant {I : σ → Prop} (hstep : ∀ s i s' r, I s → step s i = .ok (s', r) → I s')
    {s s' : σ} {is : List ι} (hinit : I s) (hexec : exec step s is = .ok s')
    : I s' := by
  apply exec_invariant_along (Q := fun _ _ => True) (I := I) ?_ hinit ?_ hexec
  . intro s i s' r hs _ h
    exact hstep s i s' r hs h
  . exact along_of_forall (fun _ _ => trivial) s is

/--
The invariant rule for what a state says about the inputs consumed so far.
-/
theorem exec_history {I : List ι → σ → Prop}
    (hstep : ∀ past s i s' r, I past s → step s i = .ok (s', r) → I (past ++ [i]) s')
    {s s' : σ} {past is : List ι} (hinit : I past s) (hexec : exec step s is = .ok s')
    : I (past ++ is) s' := by
  induction is generalizing past s with
  | nil =>
    cases hexec
    rw [List.append_nil]
    exact hinit
  | cons i is ih =>
    rcases exec_cons_ok hexec with ⟨t, r, ht, hrest⟩
    have hnext := ih (hstep past s i t r hinit ht) hrest
    rwa [List.append_assoc] at hnext

/--
The results of the steps of a run, up to the step that aborts.
-/
def outputs (step : σ → ι → Except ε (σ × ρ)) (s : σ) : List ι → List ρ
  | [] => []
  | i :: is =>
    match step s i with
    | .ok (s', r) => r :: outputs step s' is
    | .error _ => []

/--
The rule for what the results of a run so far say about its state.
-/
theorem outputs_invariant {I : List ρ → σ → Prop}
    (hstep : ∀ past s i s' r, I past s → step s i = .ok (s', r) → I (past ++ [r]) s')
    {s : σ} {past : List ρ} (hinit : I past s) (is : List ι)
    : ∃ s', I (past ++ outputs step s is) s' := by
  induction is generalizing past s with
  | nil => exact ⟨s, by rwa [outputs, List.append_nil]⟩
  | cons i is ih =>
    unfold outputs
    split
    . next t r ht =>
      rcases ih (hstep past s i t r hinit ht) with ⟨s', hs'⟩
      exact ⟨s', by rwa [List.append_assoc] at hs'⟩
    . exact ⟨s, by rwa [List.append_nil]⟩

/--
What the steps of a run add up to, up to the step that aborts.
-/
def total (step : σ → ι → Except ε (σ × ρ)) (weigh : σ → ι → σ → Nat) (s : σ) : List ι → Nat
  | [] => 0
  | i :: is =>
    match step s i with
    | .ok (s', _) => weigh s i s' + total step weigh s' is
    | .error _ => 0

/--
The rule for what a state says about the inputs consumed so far and the sum of their weights.
-/
theorem exec_total {weigh : σ → ι → σ → Nat} {I : List ι → σ → Nat → Prop}
    (hstep : ∀ past s i s' r n, I past s n → step s i = .ok (s', r) → I (past ++ [i]) s' (n + weigh s i s'))
    {s s' : σ} {past is : List ι} {n : Nat} (hinit : I past s n) (hexec : exec step s is = .ok s')
    : I (past ++ is) s' (n + total step weigh s is) := by
  induction is generalizing past s n with
  | nil =>
    cases hexec
    rw [List.append_nil]
    exact hinit
  | cons i is ih =>
    rcases exec_cons_ok hexec with ⟨t, r, ht, hrest⟩
    have hnext := ih (hstep past s i t r n hinit ht) hrest
    rw [List.append_assoc, Nat.add_assoc] at hnext
    rw [total, ht]
    exact hnext

theorem exec_ne_error_along {I : σ → Prop} {Q : σ → ι → Prop} {e : ε}
    (hstep : ∀ s i s' r, I s → Q s i → step s i = .ok (s', r) → I s')
    (herror : ∀ s i, I s → Q s i → step s i ≠ .error e)
    {s : σ} {is : List ι} (hinit : I s) (halong : Along step Q s is)
    : exec step s is ≠ .error e := by
  induction is generalizing s with
  | nil =>
    intro h
    cases h
  | cons i is ih =>
    intro h
    unfold exec at h
    split at h
    . next s' r hs => exact ih (hstep _ _ _ _ hinit halong.1 hs) (halong.2 _ _ hs) h
    . next e' hs =>
      cases h
      exact herror s i hinit halong.1 hs

theorem along_iff_along {I : σ → Prop} {Q R : σ → ι → Prop}
    (hiff : ∀ s i, I s → (Q s i ↔ R s i))
    (hstep : ∀ s i s' r, I s → Q s i → step s i = .ok (s', r) → I s')
    {s : σ} (is : List ι) (hinit : I s)
    : Along step Q s is ↔ Along step R s is := by
  induction is generalizing s with
  | nil => exact Iff.rfl
  | cons i is ih =>
    unfold Along
    constructor
    . rintro ⟨hq, hrest⟩
      refine ⟨(hiff s i hinit).mp hq, ?_⟩
      intro s' r h
      exact (ih (hstep _ _ _ _ hinit hq h)).mp (hrest s' r h)
    . rintro ⟨hr, hrest⟩
      have hq := (hiff s i hinit).mpr hr
      refine ⟨hq, ?_⟩
      intro s' r h
      exact (ih (hstep _ _ _ _ hinit hq h)).mpr (hrest s' r h)

end Run

namespace Sweep

variable {α σ ε : Type}

def sweep (f : Nat → α → σ → α × σ × Option ε) (i : Nat) : List α → σ → List α × σ × Option ε
  | [], s => ([], s, none)
  | a :: as, s =>
    match f i a s with
    | (a, s, some e) => (a :: as, s, some e)
    | (a, s, none) =>
      let (as, s, e) := sweep f (i + 1) as s
      (a :: as, s, e)

variable {f : Nat → α → σ → α × σ × Option ε}

theorem sweep_cons_none {i : Nat} {a : α} {as as' : List α} {s s' : σ}
    (h : sweep f i (a :: as) s = (as', s', none))
    : ∃ b t bs, f i a s = (b, t, none) ∧ sweep f (i + 1) as t = (bs, s', none) ∧ as' = b :: bs := by
  unfold sweep at h
  split at h
  . next => cases h
  . next b t hf =>
    rw [Prod.mk.injEq, Prod.mk.injEq] at h
    obtain ⟨rfl, rfl, he⟩ := h
    refine ⟨b, t, (sweep f (i + 1) as t).1, hf, ?_, rfl⟩
    rw [← he]

variable {P : Nat → List α → σ → Prop}

theorem sweep_none_from
    (hstep : ∀ pre a post s b t, P pre.length (pre ++ a :: post) s → f pre.length a s = (b, t, none) →
      P (pre.length + 1) (pre ++ b :: post) t)
    (pre : List α) {as as' : List α} {s s' : σ} (hinit : P pre.length (pre ++ as) s)
    (h : sweep f pre.length as s = (as', s', none))
    : P (pre ++ as').length (pre ++ as') s' := by
  induction as generalizing pre as' s with
  | nil =>
    cases h
    simpa using hinit
  | cons a as ih =>
    obtain ⟨b, t, bs, hf, hrest, rfl⟩ := sweep_cons_none h
    have hnext := hstep pre a as s b t hinit hf
    have := ih (pre ++ [b]) (by simpa using hnext) (by simpa using hrest)
    simpa using this

/--
The rule of a sweep that does not leave early: `P` speaks of the position, of the whole list and of
the state, and one call of the body moves it one position on.
-/
theorem sweep_none
    (hstep : ∀ pre a post s b t, P pre.length (pre ++ a :: post) s → f pre.length a s = (b, t, none) →
      P (pre.length + 1) (pre ++ b :: post) t)
    {as as' : List α} {s s' : σ} (hinit : P 0 as s) (h : sweep f 0 as s = (as', s', none))
    : P as'.length as' s' :=
  sweep_none_from hstep [] hinit h

variable {R : Nat → α → α → σ → Prop}

/--
The rule of the single element: `R` says what the turn of an element does to it, and the later turns
do not undo it.
-/
theorem sweep_none_each (hturn : ∀ i a s b t, f i a s = (b, t, none) → R i a b t)
    (hlater : ∀ i a b s, R i a b s → ∀ i' a' b' t, f i' a' s = (b', t, none) → R i a b t)
    {as as' : List α} {s s' : σ} (h : sweep f 0 as s = (as', s', none))
    : ∀ k a, as[k]? = some a → ∃ b, as'[k]? = some b ∧ R k a b s' := by
  have hall := sweep_none (P := fun n cur t =>
    (∀ k, n ≤ k → cur[k]? = as[k]?) ∧
      ∀ k a, k < n → as[k]? = some a → ∃ b, cur[k]? = some b ∧ R k a b t) ?_ ?_ h
  . intro k a hk
    have hlt : k < as'.length := by
      apply Nat.lt_of_not_le
      intro hle
      have hnone := hall.1 k hle
      rw [List.getElem?_eq_none hle, hk] at hnone
      cases hnone
    exact hall.2 k a hlt hk
  . rintro pre a post s b t ⟨hrest, hdone⟩ hf
    constructor
    . intro k hk
      rw [← hrest k (Nat.le_of_succ_le hk), List.getElem?_append_right (Nat.le_of_succ_le hk),
        List.getElem?_append_right (Nat.le_of_succ_le hk)]
      rcases Nat.exists_eq_add_of_lt hk with ⟨d, hd⟩
      rw [show k - pre.length = d + 1 from by omega, List.getElem?_cons_succ, List.getElem?_cons_succ]
    . intro k x hk hx
      by_cases heq : k = pre.length
      . subst heq
        have hfirst := hrest pre.length (Nat.le_refl _)
        rw [List.getElem?_append_right (Nat.le_refl _), Nat.sub_self, List.getElem?_cons_zero, hx,
          Option.some.injEq] at hfirst
        subst hfirst
        refine ⟨b, ?_, hturn _ _ _ _ _ hf⟩
        rw [List.getElem?_append_right (Nat.le_refl _), Nat.sub_self, List.getElem?_cons_zero]
      . have hlt : k < pre.length := by omega
        rcases hdone k x hlt hx with ⟨y, hy, hR⟩
        rw [List.getElem?_append_left hlt] at hy
        exact ⟨y, by rw [List.getElem?_append_left hlt, hy], hlater _ _ _ _ hR _ _ _ _ hf⟩
  . constructor
    . intro k _
      rfl
    . intro k a hk
      exact absurd hk (Nat.not_lt_zero k)

end Sweep

namespace Fuel

variable {ρ : Type} {f g : Nat → Option ρ} {r r' : ρ}

def Stable (f : Nat → Option ρ) : Prop := ∀ n r, f n = some r → f (n + 1) = some r

def Returns (f : Nat → Option ρ) (r : ρ) : Prop := ∃ n, f n = some r

theorem Stable.mono (h : Stable f) {n m : Nat} (hle : n ≤ m) (hn : f n = some r) : f m = some r := by
  induction hle with
  | refl => exact hn
  | step _ ih => exact h _ _ ih

theorem Returns.unique (h : Stable f) (hr : Returns f r) (hr' : Returns f r') : r = r' := by
  rcases hr with ⟨n, hn⟩
  rcases hr' with ⟨m, hm⟩
  have := h.mono (Nat.le_max_left n m) hn
  rw [h.mono (Nat.le_max_right n m) hm] at this
  exact (Option.some.inj this).symm

theorem returns_iff_of_step (hzero : f 0 = none) (hstep : ∀ n, f (n + 1) = g n)
    : Returns f r ↔ Returns g r := by
  constructor
  . rintro ⟨n, hn⟩
    cases n with
    | zero =>
      rw [hzero] at hn
      cases hn
    | succ n => exact ⟨n, by rw [← hstep, hn]⟩
  . rintro ⟨n, hn⟩
    exact ⟨n + 1, by rw [hstep, hn]⟩

end Fuel
