import Ztest.Loadtest.Desk.Lemmas.Entries

namespace Loadtest
namespace Desk

/--
The first answer comes back behind a different one.
-/
def FirstReturns {α : Type} (xs : List α) : Prop := ∃ x, xs.head? = some x ∧ Later xs x

section Distinct

variable {α : Type} [DecidableEq α]

theorem card_insertNone_filter_later (x : α) (xs : List α) [DecidablePred (Later (x :: xs))]
    : (((x :: xs).toFinset.filter (Later (x :: xs))).insertNone).card
        = (x :: xs).toFinset.card + if Later (x :: xs) x then 1 else 0 := by
  rw [Finset.card_insertNone]
  split
  . next hlater =>
    rw [Finset.filter_true_of_mem]
    intro y hy
    by_cases heq : y = x
    . rw [heq]
      exact hlater
    . exact (later_iff_of_ne (Ne.symm heq)).mpr (List.mem_toFinset.mp hy)
  . next hnot =>
    have herase : (x :: xs).toFinset.filter (Later (x :: xs)) = (x :: xs).toFinset.erase x := by
      ext y
      rw [Finset.mem_filter, Finset.mem_erase, List.mem_toFinset]
      by_cases heq : y = x
      . rw [heq]
        simp [hnot]
      . simp [heq, later_iff_of_ne (Ne.symm heq)]
    rw [herase, Finset.card_erase_of_mem (by simp), Nat.add_zero]
    have hpos : 0 < (x :: xs).toFinset.card := Finset.card_pos.mpr ⟨x, by simp⟩
    omega

theorem card_toFinset_map {β : Type} [DecidableEq β] {f : α → β} {xs : List α} (hf : Set.InjOn f {x | x ∈ xs})
    : (xs.map f).toFinset.card = xs.toFinset.card := by
  have himage : (xs.map f).toFinset = xs.toFinset.image f := by
    ext y
    simp
  rw [himage, Finset.card_image_of_injOn]
  intro x hx y hy
  exact hf (by simpa using hx) (by simpa using hy)

end Distinct

section Audits

variable {wire : Wire} {key : Key} {calls : List Call} {s : State} {n : Nat}

theorem Moving.audits (h : Moving key calls s n) (hdone : s.pending = [])
    (hdigests : Set.InjOn Ledger.low {digest | digest ∈ asked key calls})
    : n = (asked key calls).toFinset.card ↔ ¬FirstReturns (asked key calls) := by
  classical
  have hbooked := h.booked
  cases hasked : asked key calls with
  | nil =>
    rw [hasked] at hbooked
    have hnone : n = (∅ : Finset (Option Nat)).card := hbooked.card hdone (by simp [entriesOf])
    constructor
    . rintro - ⟨x, hx, -⟩
      cases hx
    . intro _
      exact hnone
  | cons first rest =>
    rw [hasked] at hbooked hdigests
    have hcard := @Booked.card _ _ _ _ hbooked hdone
      (((first :: rest).map Ledger.low).toFinset.filter
        (Later ((first :: rest).map Ledger.low))).insertNone ?_
    . have hmap := card_toFinset_map hdigests
      rw [List.map_cons] at hcard hmap
      rw [card_insertNone_filter_later, hmap] at hcard
      have hlater : Later (Ledger.low first :: rest.map Ledger.low) (Ledger.low first) ↔ Later (first :: rest) first :=
        Later.map hdigests List.mem_cons_self
      have hreturns : FirstReturns (first :: rest) ↔ Later (first :: rest) first := by
        simp [FirstReturns]
      rw [hreturns, ← hlater, hcard]
      split
      . next hyes => simp [hyes]
      . next hno => simp [hno]
    . intro o
      cases o with
      | none => simp [none_mem_entriesOf]
      | some x =>
        rw [some_mem_entriesOf, Finset.some_mem_insertNone, Finset.mem_filter, List.mem_toFinset]
        constructor
        . exact And.right
        . rintro ⟨pre, post, heq, hbehind⟩
          refine ⟨?_, ⟨pre, post, heq, hbehind⟩⟩
          rw [heq]
          simp

theorem Fixed.audits (h : Fixed key calls s n) (hdone : s.pending = []) (hasked : asked key calls ≠ []) : n = 1 := by
  apply h.booked.card hdone (show ∀ o, o ∈ ({none} : Finset (Option Nat)) ↔ _ from ?_)
  intro o
  simp [hasked]

end Audits

section Violations

variable {wire : Wire} {key : Key} {past : List Call} {s s' : State} {n : Nat} {r : Unit}

def violations (s : State) : Nat := s.ledger.tallies.violations

theorem head?_concat_eq_iff {α β : Type} {f : α → β} {xs : List α} {x : α} (hf : Set.InjOn f {y | y ∈ xs ++ [x]})
    : (xs ++ [x]).head? = some x ↔ xs.head?.map f = none ∨ xs.head?.map f = some (f x) := by
  cases xs with
  | nil => simp
  | cons y xs =>
    simp only [List.cons_append, List.head?_cons, Option.some.injEq, Option.map_some, reduceCtorEq, false_or]
    constructor
    . intro heq
      rw [heq]
    . intro heq
      exact hf (by simp) (by simp) heq

theorem Fixed.violation {digest : Nat} {audit : Audit} (h : Fixed key past s n)
    (hstep : step wire s (.answer key digest true audit) = .ok (s', r))
    (hdigests : Set.InjOn Ledger.low {d | d ∈ asked key (past ++ [.answer key digest true audit])})
    : violations s' = violations s
        + if (asked key (past ++ [.answer key digest true audit])).head? = some digest then 0 else 1 := by
  rcases step_answer hstep with ⟨entry, hlooked, -⟩
  rw [asked_append, asked_answer] at hdigests ⊢
  rw [if_congr (head?_concat_eq_iff hdigests) rfl rfl, ← h.first]
  rcases s' with ⟨l', pending'⟩
  dsimp only at hlooked
  cases hlooked with
  | same held =>
    rw [held, if_pos (Or.inr rfl)]
    rfl
  | differs hheld hne =>
    rw [hheld, if_neg (by simpa using hne)]
    rfl
  | moved _ _ hstable => cases hstable
  | first hnone =>
    rw [hnone, if_pos (Or.inl rfl)]
    rfl

/--
Of each height below `stableBelow`, the first message is kept.
-/
structure Holding (wire : Wire) (stableBelow : Nat) (past : List Call) (s : State) : Prop where
  below : s.ledger.stableBelow = stableBelow
  first : ∀ height, height < stableBelow → s.ledger.blocks height = (((shown height past).head?).map (kept wire)).getD 0

theorem shown_append (height : Nat) (pre post : List Call)
    : shown height (pre ++ post) = shown height pre ++ shown height post := List.filterMap_append

theorem kept_pos (wire : Wire) (message : Bytes) : kept wire message ≠ 0 := by
  unfold kept
  omega

theorem Holding.other {stableBelow : Nat} {c : Call} (hother : ∀ height, shown height [c] = [])
    (h : Holding wire stableBelow past s) (hstep : step wire s c = .ok (s', r))
    : Holding wire stableBelow (past ++ [c]) s' := by
  have hframe : s'.ledger.blocks = s.ledger.blocks ∧ s'.ledger.stableBelow = s.ledger.stableBelow := by
    cases c with
    | answer key digest stable audit =>
      rcases step_answer hstep with ⟨entry, hlooked, -⟩
      exact ⟨hlooked.frame.2.2.1, hlooked.frame.2.2.2.1⟩
    | mark i =>
      unfold step at hstep
      dsimp only at hstep
      split at hstep
      . next entry audit _ =>
        cases hstep
        exact (queueOnce_frame s.ledger entry audit).2
      . cases hstep
    | shielded height message =>
      have := hother height
      simp [shown] at this
  refine ⟨hframe.2.trans h.below, ?_⟩
  intro height hlt
  rw [hframe.1, shown_append, hother, List.append_nil]
  exact h.first height hlt

theorem Holding.shown {stableBelow height : Nat} {message : Bytes} (h : Holding wire stableBelow past s)
    (hstep : step wire s (.shielded height message) = .ok (s', r))
    : Holding wire stableBelow (past ++ [.shielded height message]) s' := by
  cases hstep
  have hshown := shieldedBlock_shown wire s.ledger height message
  refine ⟨hshown.frame.2.2.trans h.below, ?_⟩
  intro height' hlt
  rw [shown_append]
  have hfirst := h.first height' hlt
  by_cases hheight : height' = height
  . subst hheight
    have hlast : Desk.shown height' [.shielded height' message] = [message] := by simp [Desk.shown]
    rw [hlast]
    dsimp only
    cases hpast : Desk.shown height' past with
    | nil =>
      rw [hpast] at hfirst
      generalize s.ledger.shieldedBlock wire height' message = l' at hshown
      cases hshown with
      | above habove => rw [h.below] at habove; omega
      | first _ _ hblocks =>
        rw [hblocks]
        exact Function.update_self ..
      | same _ hheld | differs _ hheld => exact absurd hfirst hheld
    | cons first rest =>
      rw [hpast] at hfirst
      generalize s.ledger.shieldedBlock wire height' message = l' at hshown
      cases hshown with
      | above | same | differs => exact hfirst
      | first _ hnone =>
        rw [hfirst] at hnone
        exact absurd hnone (kept_pos wire first)
  . have hnone : Desk.shown height' [.shielded height message] = [] := by simp [Desk.shown, Ne.symm hheight]
    rw [hnone, List.append_nil, ← hfirst]
    dsimp only
    generalize s.ledger.shieldedBlock wire height message = l' at hshown
    cases hshown with
    | above | same | differs => rfl
    | first _ _ hblocks =>
      rw [hblocks]
      exact Function.update_of_ne hheight _ _

theorem Holding.stepped {stableBelow : Nat} {c : Call} (h : Holding wire stableBelow past s)
    (hstep : step wire s c = .ok (s', r))
    : Holding wire stableBelow (past ++ [c]) s' := by
  cases c with
  | shielded height message => exact h.shown hstep
  | _ => exact h.other (fun _ => rfl) hstep

theorem exec_holding {stableBelow : Nat} {auditEvery : UInt64} {capacity : Nat} {calls : List Call}
    (hexec : Run.exec (step wire) (.new stableBelow auditEvery capacity) calls = .ok s)
    : Holding wire stableBelow calls s := by
  have hinit : Holding wire stableBelow [] (.new stableBelow auditEvery capacity) := ⟨rfl, fun _ _ => rfl⟩
  apply Run.exec_history (I := fun past s => Holding wire stableBelow past s) ?_ hinit hexec
  intro past s c s' r h hstep
  exact h.stepped hstep

theorem Holding.violation {stableBelow height : Nat} {message : Bytes} (h : Holding wire stableBelow past s)
    (hlt : height < stableBelow) (hstep : step wire s (.shielded height message) = .ok (s', r))
    (hmessages : Set.InjOn (kept wire) {m | m ∈ Desk.shown height (past ++ [.shielded height message])})
    : violations s' = violations s
        + if (Desk.shown height (past ++ [.shielded height message])).head? = some message then 0 else 1 := by
  cases hstep
  have hlast : Desk.shown height [.shielded height message] = [message] := by simp [Desk.shown]
  have hshown := shieldedBlock_shown wire s.ledger height message
  have hfirst := h.first height hlt
  rw [shown_append, hlast] at hmessages ⊢
  rw [if_congr (head?_concat_eq_iff hmessages) rfl rfl]
  unfold violations
  dsimp only
  generalize s.ledger.shieldedBlock wire height message = l' at hshown
  cases hkept : (Desk.shown height past).head?.map (kept wire) with
  | none =>
    rw [hkept] at hfirst
    rw [if_pos (Or.inl rfl)]
    cases hshown with
    | above => rfl
    | first _ _ _ _ _ hothers => exact hothers.2
    | same _ hheld | differs _ hheld => exact absurd hfirst hheld
  | some held =>
    rw [hkept, Option.getD_some] at hfirst
    cases hshown with
    | above habove => rw [h.below] at habove; omega
    | first _ hnone =>
      rcases Option.map_eq_some_iff.mp hkept with ⟨first, -, rfl⟩
      rw [hfirst] at hnone
      exact absurd hnone (kept_pos wire first)
    | same _ _ hsame =>
      rw [hfirst] at hsame
      rw [hsame, if_pos (Or.inr rfl)]
      rfl
    | differs _ _ hne =>
      rw [hfirst] at hne
      rw [if_neg (by simpa using hne)]
      rfl

end Violations

section Counts

/--
Exactly one of the three counters is one higher.
-/
def Bumps (l l' : Ledger) : Prop :=
  (l'.tallies.blocksHeld = l.tallies.blocksHeld + 1 ∧ l'.tallies.consistent = l.tallies.consistent ∧
    l'.tallies.violations = l.tallies.violations) ∨
  (l'.tallies.blocksHeld = l.tallies.blocksHeld ∧ l'.tallies.consistent = l.tallies.consistent + 1 ∧
    l'.tallies.violations = l.tallies.violations) ∨
  (l'.tallies.blocksHeld = l.tallies.blocksHeld ∧ l'.tallies.consistent = l.tallies.consistent ∧
    l'.tallies.violations = l.tallies.violations + 1)

def counted (l : Ledger) : Nat := l.tallies.blocksHeld + l.tallies.consistent + l.tallies.violations

def isSettled (stableBelow : Nat) : Call → Bool
  | .shielded height _ => height < stableBelow
  | _ => false

-- What a block below `stableBelow` adds to the three counters.
def countedBy (stableBelow : Nat) (s : State) (c : Call) (s' : State) : Nat :=
  if isSettled stableBelow c then counted s'.ledger - counted s.ledger else 0

variable {wire : Wire} {stableBelow : Nat} {auditEvery : UInt64} {capacity : Nat} {calls pre post : List Call}
variable {s t t' : State} {r : Unit}

theorem Shown.bumps {l l' : Ledger} {height : Nat} {message : Bytes} (h : Shown wire l height message l')
    (hbelow : height < l.stableBelow) : Bumps l l' := by
  cases h with
  | above habove => omega
  | first _ _ _ _ hheld hothers => exact Or.inl ⟨hheld, hothers⟩
  | same => exact Or.inr (Or.inl ⟨rfl, rfl, rfl⟩)
  | differs => exact Or.inr (Or.inr ⟨rfl, rfl, rfl⟩)

theorem Bumps.counted {l l' : Ledger} (h : Bumps l l') : Desk.counted l' = Desk.counted l + 1 := by
  unfold Bumps at h
  unfold Desk.counted
  omega

theorem exec_counted (hexec : Run.exec (step wire) (.new stableBelow auditEvery capacity) calls = .ok s)
    : Run.total (step wire) (countedBy stableBelow) (.new stableBelow auditEvery capacity) calls
        = (calls.filter (isSettled stableBelow)).length := by
  have hrun := @Run.exec_total _ _ _ _ (step wire) (countedBy stableBelow)
    (fun past s n => Holding wire stableBelow past s ∧ n = (past.filter (isSettled stableBelow)).length)
    ?_ _ _ [] _ 0 ⟨⟨rfl, fun _ _ => rfl⟩, rfl⟩ hexec
  . rw [Nat.zero_add] at hrun
    exact hrun.2
  . rintro past s c s' r n ⟨hholding, rfl⟩ hstep
    refine ⟨hholding.stepped hstep, ?_⟩
    rw [List.filter_append, List.length_append]
    congr 1
    unfold countedBy
    split
    . next hsettled =>
      cases c with
      | shielded height message =>
        have hbelow : height < s.ledger.stableBelow := by
          rw [hholding.below]
          exact of_decide_eq_true hsettled
        cases hstep
        dsimp only
        rw [((shieldedBlock_shown wire s.ledger height message).bumps hbelow).counted, Nat.add_sub_cancel_left,
          List.filter_cons_of_pos hsettled]
        rfl
      | answer | mark => cases hsettled
    . next hother =>
      rw [List.filter_cons_of_neg hother]
      rfl

/--
Of a run of calls: a key that is always stable is audited once, a violation is recorded of exactly the answers
that differ from the first one of a stable key or of a height below `stableBelow`, and each block below
`stableBelow` is counted once.
-/
structure Counts (wire : Wire) (stableBelow : Nat) (auditEvery : UInt64) (capacity : Nat) (calls : List Call)
    : Prop where
  stableAudits : ∀ key, StableAs true key calls → asked key calls ≠ [] →
    Run.total (step wire) (handedFor key) (.new stableBelow auditEvery capacity) calls = 1
  stableViolations : ∀ key, StableAs true key calls → ∀ pre digest audit post t t',
    calls = pre ++ .answer key digest true audit :: post →
    Run.exec (step wire) (.new stableBelow auditEvery capacity) pre = .ok t →
    step wire t (.answer key digest true audit) = .ok (t', ()) →
    violations t' = violations t + if (asked key calls).head? = some digest then 0 else 1
  blockViolations : ∀ height, height < stableBelow → ∀ pre message post t t',
    calls = pre ++ .shielded height message :: post →
    Run.exec (step wire) (.new stableBelow auditEvery capacity) pre = .ok t →
    step wire t (.shielded height message) = .ok (t', ()) →
    violations t' = violations t + if (shown height calls).head? = some message then 0 else 1
  blockCounts : ∀ height, height < stableBelow → ∀ pre message post t t',
    calls = pre ++ .shielded height message :: post →
    Run.exec (step wire) (.new stableBelow auditEvery capacity) pre = .ok t →
    step wire t (.shielded height message) = .ok (t', ()) → Bumps t.ledger t'.ledger
  blockSum : Run.total (step wire) (countedBy stableBelow) (.new stableBelow auditEvery capacity) calls
    = (calls.filter (isSettled stableBelow)).length

theorem head?_asked {key : Key} {digest : Nat} {stable : Bool} {audit : Audit}
    : (asked key (pre ++ .answer key digest stable audit :: post)).head?
        = (asked key (pre ++ [.answer key digest stable audit])).head? := by
  rw [List.append_cons, asked_append key (pre ++ _), asked_append key pre, asked_answer]
  cases asked key pre <;> rfl

theorem head?_shown {height : Nat} {message : Bytes}
    : (shown height (pre ++ .shielded height message :: post)).head?
        = (shown height (pre ++ [.shielded height message])).head? := by
  have hlast : shown height [.shielded height message] = [message] := by simp [shown]
  rw [List.append_cons, shown_append height (pre ++ _), shown_append height pre, hlast]
  cases shown height pre <;> rfl

/--
The ledger counts a run of calls, once all of them returned, as it says it does, except that the first answer of
a key that is never stable is audited again when it comes back behind a different one.
-/
theorem counts_and_audits_iff (hexec : Run.exec (step wire) (.new stableBelow auditEvery capacity) calls = .ok s)
    (hdone : s.pending = []) (hdigests : ∀ key, Set.InjOn Ledger.low {digest | digest ∈ asked key calls})
    (hmessages : ∀ height, Set.InjOn (kept wire) {message | message ∈ shown height calls})
    : ((∀ key, StableAs false key calls →
          Run.total (step wire) (handedFor key) (.new stableBelow auditEvery capacity) calls
            = (asked key calls).toFinset.card) ↔
        ∀ key, StableAs false key calls → ¬FirstReturns (asked key calls)) ∧
      Counts wire stableBelow auditEvery capacity calls := by
  refine ⟨?_, ?_, ?_, ?_, ?_, exec_counted hexec⟩
  . apply forall_congr'
    intro key
    apply imp_congr_right
    intro hstable
    exact (exec_moving hexec hstable).audits hdone (hdigests key)
  . intro key hstable hasked
    exact (exec_fixed hexec hstable).audits hdone hasked
  . rintro key hstable pre digest audit post t t' rfl hpre hstep
    rw [head?_asked]
    apply (exec_fixed hpre hstable.left).violation hstep
    apply (hdigests key).mono
    intro d hd
    rw [List.append_cons, asked_append]
    exact List.mem_append_left _ hd
  . rintro height hlt pre message post t t' rfl hpre hstep
    rw [head?_shown]
    apply (exec_holding hpre).violation hlt hstep
    apply (hmessages height).mono
    intro m hm
    rw [List.append_cons, shown_append]
    exact List.mem_append_left _ hm
  . rintro height hlt pre message post t t' rfl hpre hstep
    rw [← (exec_holding hpre).below] at hlt
    cases hstep
    exact (shieldedBlock_shown wire t.ledger height message).bumps hlt

end Counts

namespace Sample

def wire : Wire where
  blockId _ := .error ""
  compactBlock _ := .error ""
  treeState _ := .error ""
  subtreeRoot _ := .error ""
  rawTransaction _ := .error ""
  lightdInfo _ := .error ""
  addressUtxos _ := .error ""
  digest message := message.foldl (fun sum byte => 256 * sum + byte.toNat) 1

def tip (digest : Nat) : Call := .answer (.tip 7) digest false (.tip [])

def mempool (digest : Nat) : Call := .answer (.mempool 5) digest true (.mempool [])

-- The answer at the tip goes back and forth between two.
def alternating : List Call := [tip 1, .mark 0, tip 2, .mark 0, tip 1, .mark 0, tip 2, .mark 0]

-- Two wallets have asked for the tip before the first of them comes to its second lock.
def overlapping : List Call :=
  [tip 1, tip 2, .mark 1, .shielded 3 [1], .mark 0, .shielded 3 [2], mempool 5, .mark 0, mempool 6]

theorem low_injOn {digests : Set Nat} (h : ∀ d ∈ digests, d < 100) : Set.InjOn Ledger.low digests := by
  intro d hd d' hd' heq
  have hlt := h d hd
  have hlt' := h d' hd'
  unfold Ledger.low at heq
  omega

theorem overlapping_digests (key : Key) : Set.InjOn Ledger.low {digest | digest ∈ asked key overlapping} := by
  apply low_injOn
  intro d hd
  rcases List.mem_filterMap.mp hd with ⟨c, hc, hd⟩
  simp only [overlapping, List.mem_cons, List.not_mem_nil, or_false] at hc
  rcases hc with rfl | rfl | rfl | rfl | rfl | rfl | rfl | rfl | rfl
  all_goals simp [tip, mempool] at hd
  all_goals omega

theorem overlapping_messages (height : Nat) : Set.InjOn (kept wire) {message | message ∈ shown height overlapping} := by
  have hmessages : ∀ m ∈ shown height overlapping, m = [1] ∨ m = [2] := by
    intro m hm
    rcases List.mem_filterMap.mp hm with ⟨c, hc, hm⟩
    simp only [overlapping, List.mem_cons, List.not_mem_nil, or_false] at hc
    rcases hc with rfl | rfl | rfl | rfl | rfl | rfl | rfl | rfl | rfl
    all_goals simp [tip, mempool] at hm
    . exact Or.inl hm.2.symm
    . exact Or.inr hm.2.symm
  intro m hm m' hm' heq
  rcases hmessages m hm with rfl | rfl <;> rcases hmessages m' hm' with rfl | rfl
  . rfl
  . exact absurd heq (by decide)
  . exact absurd heq (by decide)
  . rfl

end Sample

theorem overlapping_counts_and_audits
    : ((∀ key, StableAs false key Sample.overlapping →
          Run.total (step Sample.wire) (handedFor key) (.new 10 1 8) Sample.overlapping
            = (asked key Sample.overlapping).toFinset.card) ↔
        ∀ key, StableAs false key Sample.overlapping → ¬FirstReturns (asked key Sample.overlapping)) ∧
      Counts Sample.wire 10 1 8 Sample.overlapping :=
  counts_and_audits_iff (s := _) rfl rfl Sample.overlapping_digests Sample.overlapping_messages

/--
Of two answers that alternate, the first one is audited twice.
-/
theorem alternating_audited_again
    : (∃ s, Run.exec (step Sample.wire) (.new 10 1 8) Sample.alternating = .ok s ∧ s.pending = []) ∧
      StableAs false (.tip 7) Sample.alternating ∧
      Set.InjOn Ledger.low {digest | digest ∈ asked (.tip 7) Sample.alternating} ∧
      (asked (.tip 7) Sample.alternating).toFinset.card = 2 ∧
      Run.total (step Sample.wire) (handedFor (.tip 7)) (.new 10 1 8) Sample.alternating = 3 := by
  refine ⟨⟨_, rfl, rfl⟩, ?_, ?_, rfl, rfl⟩
  . intro digest stable audit hmem
    simp only [Sample.alternating, Sample.tip, List.mem_cons, List.not_mem_nil, or_false, Call.answer.injEq,
      reduceCtorEq, false_or] at hmem
    tauto
  . apply Sample.low_injOn
    intro d hd
    have hasked : asked (.tip 7) Sample.alternating = [1, 2, 1, 2] := rfl
    rw [hasked] at hd
    simp only [Set.mem_ofPred_eq, List.mem_cons, List.not_mem_nil, or_false] at hd
    omega

end Desk
end Loadtest
