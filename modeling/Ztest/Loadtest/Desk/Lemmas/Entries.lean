import Ztest.Loadtest.Desk.Impl
import Mathlib.Data.Finset.Option
import Mathlib.Data.Finset.Dedup
import Mathlib.Data.List.Nodup

namespace Loadtest
namespace Desk

section Later

variable {α : Type}

theorem later_concat {xs : List α} {x y : α} : Later (xs ++ [y]) x ↔ Later xs x ∨ (x = y ∧ ∃ z ∈ xs, z ≠ x) := by
  constructor
  . rintro ⟨pre, post, heq, z, hz, hne⟩
    rcases List.eq_nil_or_concat' post with rfl | ⟨post, last, rfl⟩
    . have heq := List.append_inj' heq rfl
      cases heq.2
      cases heq.1
      exact Or.inr ⟨rfl, z, hz, hne⟩
    . rw [← List.cons_append, ← List.append_assoc] at heq
      have heq := List.append_inj' heq rfl
      exact Or.inl ⟨pre, post, heq.1, z, hz, hne⟩
  . rintro (⟨pre, post, rfl, hlater⟩ | ⟨rfl, z, hz, hne⟩)
    . exact ⟨pre, post ++ [y], by simp, hlater⟩
    . exact ⟨xs, [], rfl, z, hz, hne⟩

theorem later_of_getLast? {xs : List α} {x z : α} (h : xs.getLast? = some x) (hz : z ∈ xs) (hne : z ≠ x)
    : Later xs x := by
  rcases List.getLast?_eq_some_iff.mp h with ⟨init, rfl⟩
  rw [List.mem_append, List.mem_singleton] at hz
  cases hz with
  | inl hz => exact ⟨init, [], rfl, z, hz, hne⟩
  | inr hz => exact absurd hz hne

theorem later_iff_of_ne {x y : α} {xs : List α} (hne : y ≠ x) : Later (y :: xs) x ↔ x ∈ y :: xs := by
  constructor
  . rintro ⟨pre, post, heq, -⟩
    rw [heq]
    simp
  . intro hmem
    rcases List.append_of_mem hmem with ⟨pre, post, heq⟩
    refine ⟨pre, post, heq, y, ?_, hne⟩
    cases pre with
    | nil =>
      cases heq
      exact absurd rfl hne
    | cons z pre =>
      cases heq
      exact List.mem_cons_self

theorem Later.map {β : Type} {f : α → β} {xs : List α} (hf : Set.InjOn f {x | x ∈ xs}) {x : α} (hx : x ∈ xs)
    : Later (xs.map f) (f x) ↔ Later xs x := by
  constructor
  . rintro ⟨pre, post, heq, z, hz, hne⟩
    rcases List.map_eq_append_iff.mp heq with ⟨pre', post', rfl, rfl, hpost⟩
    rcases List.map_eq_cons_iff.mp hpost with ⟨x', rest, rfl, hx', rfl⟩
    have hmem : x' ∈ pre' ++ x' :: rest := by simp
    cases hf hmem hx hx'
    rcases List.mem_map.mp hz with ⟨z', hz', rfl⟩
    exact ⟨pre', rest, rfl, z', hz', fun heq => hne (by rw [heq])⟩
  . rintro ⟨pre, post, rfl, z, hz, hne⟩
    refine ⟨pre.map f, post.map f, by simp, f z, List.mem_map_of_mem hz, ?_⟩
    intro heq
    exact hne (hf (by simp [hz]) (by simp) heq)

end Later

section Look

variable {l l' : Ledger} {key : Key} {digest : Nat} {stable : Bool} {entry : Option Entry}

/--
What the first lock of a call decides.
-/
inductive Looked (l : Ledger) (key : Key) (digest : Nat) (stable : Bool) : Ledger → Option Entry → Prop where
  | same (held : l.answers key = some (Ledger.low digest))
    : Looked l key digest stable { l with tallies.consistent := l.tallies.consistent + 1 } none
  | differs {held : Nat} (hheld : l.answers key = some held) (hne : held ≠ Ledger.low digest) (hstable : stable = true)
    : Looked l key digest stable (l.violated "answer_consistent" 0 (key.display ++ ": bytes differ from its first answer")) none
  | moved {held : Nat} (hheld : l.answers key = some held) (hne : held ≠ Ledger.low digest) (hstable : stable = false)
    : Looked l key digest stable { l with answers := Function.update l.answers key (some (Ledger.low digest)) }
        (some (key, some (Ledger.low digest)))
  | first (hnone : l.answers key = none)
    : Looked l key digest stable { l with answers := Function.update l.answers key (some (Ledger.low digest)) }
        (some (key, none))

theorem look_looked (l : Ledger) (key : Key) (digest : Nat) (stable : Bool)
    : Looked l key digest stable (l.look key digest stable).1 (l.look key digest stable).2 := by
  unfold Ledger.look
  dsimp only
  split
  . next held hheld =>
    split
    . next heq =>
      rw [heq] at hheld
      exact .same hheld
    . next hne =>
      split
      . next hstable => exact .differs hheld hne hstable
      . next hmoving => exact .moved hheld hne (by simpa using hmoving)
  . next hnone => exact .first hnone

theorem Looked.frame (h : Looked l key digest stable l' entry)
    : handed l' = handed l ∧ l'.queuedKeys = l.queuedKeys ∧ l'.blocks = l.blocks ∧
        l'.stableBelow = l.stableBelow ∧ ∀ other, other ≠ key → l'.answers other = l.answers other := by
  cases h with
  | same | differs => exact ⟨rfl, rfl, rfl, rfl, fun _ _ => rfl⟩
  | moved | first => exact ⟨rfl, rfl, rfl, rfl, fun other hne => Function.update_of_ne hne _ _⟩

theorem handed_queue (l : Ledger) (audit : Audit) : handed (l.queue audit) = handed l + 1 := by
  unfold Ledger.queue handed
  split
  . dsimp only
    omega
  . dsimp only
    omega

theorem queueOnce_of_mem {entry : Entry} (h : entry ∈ l.queuedKeys) (audit : Audit) : l.queueOnce entry audit = l :=
  if_pos h

/--
What a block off a stream changes. The first one of its height may be sampled for the queue.
-/
inductive Shown (wire : Wire) (l : Ledger) (height : Nat) (message : Bytes) : Ledger → Prop where
  | above (habove : l.stableBelow ≤ height) : Shown wire l height message l
  | first {l' : Ledger} (hbelow : height < l.stableBelow) (hnone : l.blocks height = 0)
    (hblocks : l'.blocks = Function.update l.blocks height (kept wire message))
    (hkeys : l'.answers = l.answers ∧ l'.queuedKeys = l.queuedKeys ∧ l'.stableBelow = l.stableBelow)
    (hheld : l'.tallies.blocksHeld = l.tallies.blocksHeld + 1)
    (hothers : l'.tallies.consistent = l.tallies.consistent ∧ l'.tallies.violations = l.tallies.violations)
    : Shown wire l height message l'
  | same (hbelow : height < l.stableBelow) (hheld : l.blocks height ≠ 0) (hsame : l.blocks height = kept wire message)
    : Shown wire l height message { l with tallies.consistent := l.tallies.consistent + 1 }
  | differs (hbelow : height < l.stableBelow) (hheld : l.blocks height ≠ 0) (hne : l.blocks height ≠ kept wire message)
    : Shown wire l height message
        (l.violated "block_consistent" height "default-pools bytes differ from this height's first answer")

theorem queue_frame (l : Ledger) (audit : Audit)
    : (l.queue audit).blocks = l.blocks ∧
        ((l.queue audit).answers = l.answers ∧ (l.queue audit).queuedKeys = l.queuedKeys ∧
          (l.queue audit).stableBelow = l.stableBelow) ∧
        (l.queue audit).tallies.blocksHeld = l.tallies.blocksHeld ∧
        (l.queue audit).tallies.consistent = l.tallies.consistent ∧
        (l.queue audit).tallies.violations = l.tallies.violations := by
  unfold Ledger.queue
  split <;> exact ⟨rfl, ⟨rfl, rfl, rfl⟩, rfl, rfl, rfl⟩

theorem queueOnce_frame (l : Ledger) (entry : Entry) (audit : Audit)
    : (l.queueOnce entry audit).answers = l.answers ∧ (l.queueOnce entry audit).blocks = l.blocks ∧
        (l.queueOnce entry audit).stableBelow = l.stableBelow := by
  unfold Ledger.queueOnce
  split
  . exact ⟨rfl, rfl, rfl⟩
  . rcases queue_frame { l with queuedKeys := entry :: l.queuedKeys } audit with ⟨hblocks, ⟨hanswers, -, hbelow⟩, -⟩
    exact ⟨hanswers, hblocks, hbelow⟩

theorem handed_queueOnce {entry : Entry} (h : entry ∉ l.queuedKeys) (audit : Audit)
    : handed (l.queueOnce entry audit) = handed l + 1 ∧ (l.queueOnce entry audit).queuedKeys = entry :: l.queuedKeys := by
  unfold Ledger.queueOnce
  rw [if_neg h, handed_queue, (queue_frame _ audit).2.1.2.1]
  exact ⟨rfl, rfl⟩

theorem shieldedBlock_shown (wire : Wire) (l : Ledger) (height : Nat) (message : Bytes)
    : Shown wire l height message (l.shieldedBlock wire height message) := by
  unfold Ledger.shieldedBlock
  split
  . next hbelow =>
    dsimp only
    split
    . next hnone =>
      split
      . rcases queue_frame { l with
          blocks := Function.update l.blocks height (kept wire message)
          tallies.blocksHeld := l.tallies.blocksHeld + 1 } (.shielded height message)
          with ⟨hblocks, hkeys, hheld, hothers⟩
        exact .first hbelow hnone hblocks hkeys hheld hothers
      . exact .first hbelow hnone rfl ⟨rfl, rfl, rfl⟩ rfl ⟨rfl, rfl⟩
    . next hheld =>
      split
      . next hsame => exact .same hbelow hheld hsame
      . next hne => exact .differs hbelow hheld hne
  . next habove => exact .above (Nat.le_of_not_lt habove)

theorem Shown.frame {wire : Wire} {height : Nat} {message : Bytes} (h : Shown wire l height message l')
    : l'.answers = l.answers ∧ l'.queuedKeys = l.queuedKeys ∧ l'.stableBelow = l.stableBelow := by
  cases h with
  | first _ _ _ hkeys => exact hkeys
  | _ => exact ⟨rfl, rfl, rfl⟩

end Look

section Booked

variable {wire : Wire} {key : Key} {names : Set (Option Nat)} {s s' : State} {n : Nat} {r : Unit}

/--
The entries of a key that were handed over and those of its pending calls are the ones in `names`, each handed
over once.
-/
structure Booked (key : Key) (names : Set (Option Nat)) (s : State) (n : Nat) : Prop where
  nodup : s.ledger.queuedKeys.Nodup
  count : n = (s.ledger.queuedKeys.filter fun e => e.1 = key).length
  names : ∀ o, (key, o) ∈ s.ledger.queuedKeys ∨ (∃ p ∈ s.pending, p.1 = (key, o)) ↔ o ∈ names

theorem mem_eraseIdx_or {α : Type} {xs : List α} {i : Nat} {x y : α} (hx : xs[i]? = some x)
    : y ∈ xs ↔ y = x ∨ y ∈ xs.eraseIdx i := by
  rcases List.getElem?_eq_some_iff.mp hx with ⟨hlt, hget⟩
  have hperm := List.getElem_cons_eraseIdx_perm hlt
  rw [hget] at hperm
  rw [← hperm.mem_iff, List.mem_cons]

theorem Booked.mark {i : Nat} (h : Booked key names s n) (hstep : step wire s (.mark i) = .ok (s', r))
    : s'.ledger.answers = s.ledger.answers ∧ Booked key names s' (n + handedFor key s (.mark i) s') := by
  unfold step at hstep
  dsimp only at hstep
  split at hstep
  . next entry audit hget =>
    cases hstep
    refine ⟨(queueOnce_frame _ entry audit).1, ?_⟩
    have hnames : ∀ o, (∃ p ∈ s.pending, p.1 = (key, o)) ↔
        entry = (key, o) ∨ ∃ p ∈ s.pending.eraseIdx i, p.1 = (key, o) := by
      intro o
      simp only [mem_eraseIdx_or hget]
      constructor
      . rintro ⟨p, rfl | hp, heq⟩
        . exact Or.inl heq
        . exact Or.inr ⟨p, hp, heq⟩
      . rintro (heq | ⟨p, hp, heq⟩)
        . exact ⟨(entry, audit), Or.inl rfl, heq⟩
        . exact ⟨p, Or.inr hp, heq⟩
    by_cases hmem : entry ∈ s.ledger.queuedKeys
    . rw [queueOnce_of_mem hmem]
      refine ⟨h.nodup, ?_, ?_⟩
      . rw [← h.count, handedFor, Nat.sub_self, ite_self]
        rfl
      . intro o
        rw [← h.names o, hnames o, ← or_assoc]
        apply or_congr_left
        constructor
        . exact Or.inl
        . rintro (hold | rfl)
          . exact hold
          . exact hmem
    . rcases handed_queueOnce hmem audit with ⟨hhanded, hkeys⟩
      refine ⟨?_, ?_, ?_⟩
      . dsimp only
        rw [hkeys]
        exact h.nodup.cons hmem
      . dsimp only [handedFor]
        rw [hkeys, hhanded, hget, h.count, Option.map_some, List.filter_cons]
        by_cases hkey : entry.1 = key
        . simp [hkey]
        . simp [hkey]
      . intro o
        dsimp only
        rw [hkeys, ← h.names o, hnames o, List.mem_cons, ← or_assoc, eq_comm, or_comm (a := entry = (key, o))]
  . cases hstep

theorem Booked.extend {added : List (Entry × Audit)} (h : Booked key names s n)
    (hkeys : s'.ledger.queuedKeys = s.ledger.queuedKeys) (hpending : s'.pending = s.pending ++ added)
    : Booked key (names ∪ {o | ∃ p ∈ added, p.1 = (key, o)}) s' n := by
  refine ⟨?_, ?_, ?_⟩
  . rw [hkeys]
    exact h.nodup
  . rw [hkeys]
    exact h.count
  . intro o
    rw [hkeys, hpending, Set.mem_union, ← h.names o, or_assoc]
    apply or_congr_right
    constructor
    . rintro ⟨p, hp, heq⟩
      cases List.mem_append.mp hp with
      | inl hp => exact Or.inl ⟨p, hp, heq⟩
      | inr hp => exact Or.inr ⟨p, hp, heq⟩
    . rintro (⟨p, hp, heq⟩ | ⟨p, hp, heq⟩)
      . exact ⟨p, List.mem_append_left _ hp, heq⟩
      . exact ⟨p, List.mem_append_right _ hp, heq⟩

theorem Booked.keep {added : List (Entry × Audit)} (h : Booked key names s n)
    (hkeys : s'.ledger.queuedKeys = s.ledger.queuedKeys) (hpending : s'.pending = s.pending ++ added)
    (hother : ∀ p ∈ added, p.1.1 ≠ key)
    : Booked key names s' n := by
  have hbooked := h.extend hkeys hpending
  have hnone : {o | ∃ p ∈ added, p.1 = (key, o)} = (∅ : Set (Option Nat)) := by
    apply Set.eq_empty_of_forall_notMem
    rintro o ⟨p, hp, heq⟩
    exact hother p hp (by rw [heq])
  rw [hnone, Set.union_empty] at hbooked
  exact hbooked

theorem step_answer {digest : Nat} {stable : Bool} {audit : Audit}
    (hstep : step wire s (.answer key digest stable audit) = .ok (s', r))
    : ∃ entry, Looked s.ledger key digest stable s'.ledger entry ∧
        s'.pending = s.pending ++ (entry.map fun e => (e, audit)).toList := by
  have hlooked := look_looked s.ledger key digest stable
  unfold step at hstep
  dsimp only at hstep
  split at hstep
  . next l entry hlook =>
    cases hstep
    rw [hlook] at hlooked
    exact ⟨some entry, hlooked, rfl⟩
  . next l hlook =>
    cases hstep
    rw [hlook] at hlooked
    exact ⟨none, hlooked, (List.append_nil _).symm⟩

theorem Looked.entry_key {l l' : Ledger} {digest : Nat} {stable : Bool} {entry : Entry}
    (h : Looked l key digest stable l' (some entry)) : entry.1 = key := by
  cases h <;> rfl

theorem Booked.other {c : Call} (hother : asked key [c] = []) (h : Booked key names s n)
    (hstep : step wire s c = .ok (s', r))
    : s'.ledger.answers key = s.ledger.answers key ∧ Booked key names s' (n + handedFor key s c s') := by
  cases c with
  | mark i =>
    rcases h.mark hstep with ⟨hanswers, hbooked⟩
    exact ⟨by rw [hanswers], hbooked⟩
  | shielded height message =>
    cases hstep
    rcases (shieldedBlock_shown wire s.ledger height message).frame with ⟨hanswers, hkeys, -⟩
    refine ⟨by rw [hanswers], h.keep hkeys (List.append_nil _).symm ?_⟩
    intro p hp
    cases hp
  | answer key' digest stable audit =>
    have hne : key' ≠ key := by
      rintro rfl
      simp [asked] at hother
    rcases step_answer hstep with ⟨entry, hlooked, hpending⟩
    rcases hlooked.frame with ⟨-, hkeys, -, -, hanswers⟩
    refine ⟨hanswers key hne.symm, h.keep hkeys hpending ?_⟩
    intro p hp
    cases entry with
    | none => cases hp
    | some entry =>
      cases List.mem_singleton.mp hp
      rw [hlooked.entry_key]
      exact hne

theorem Booked.answered {digest : Nat} {stable : Bool} {audit : Audit} (h : Booked key names s n)
    (hstep : step wire s (.answer key digest stable audit) = .ok (s', r))
    : ∃ entry, Looked s.ledger key digest stable s'.ledger entry ∧
        Booked key (names ∪ {o | entry = some (key, o)}) s' n := by
  rcases step_answer hstep with ⟨entry, hlooked, hpending⟩
  refine ⟨entry, hlooked, ?_⟩
  have hbooked := h.extend hlooked.frame.2.1 hpending
  have hnew : {o | ∃ p ∈ (entry.map fun e => (e, audit)).toList, p.1 = (key, o)} = {o | entry = some (key, o)} := by
    ext o
    cases entry <;> simp
  rw [hnew] at hbooked
  exact hbooked

theorem Booked.card (h : Booked key names s n) (hdone : s.pending = []) {entries : Finset (Option Nat)}
    (hentries : ∀ o, o ∈ entries ↔ o ∈ names)
    : n = entries.card := by
  have hsecond : ((s.ledger.queuedKeys.filter fun e => e.1 = key).map Prod.snd).Nodup := by
    apply List.Nodup.map_on ?_ (h.nodup.filter _)
    rintro ⟨k, o⟩ hx ⟨k', o'⟩ hy heq
    rw [List.mem_filter, decide_eq_true_eq] at hx hy
    exact Prod.ext (hx.2.trans hy.2.symm) heq
  have hfinset : ((s.ledger.queuedKeys.filter fun e => e.1 = key).map Prod.snd).toFinset = entries := by
    ext o
    rw [hentries, ← h.names o, hdone, List.mem_toFinset, List.mem_map]
    constructor
    . rintro ⟨⟨k, o'⟩, he, rfl⟩
      rw [List.mem_filter, decide_eq_true_eq] at he
      cases he.2
      exact Or.inl he.1
    . rintro (hmem | ⟨p, hp, -⟩)
      . exact ⟨(key, o), by simpa using hmem, rfl⟩
      . cases hp
  rw [← hfinset, List.toFinset_card_of_nodup hsecond, List.length_map, h.count]

end Booked

section Keys

variable {wire : Wire} {key : Key} {past calls : List Call} {s s' t : State} {n : Nat} {r : Unit}

theorem asked_append (key : Key) (pre post : List Call) : asked key (pre ++ post) = asked key pre ++ asked key post :=
  List.filterMap_append

theorem asked_answer (key : Key) (digest : Nat) (stable : Bool) (audit : Audit)
    : asked key [.answer key digest stable audit] = [digest] := by
  simp [asked]

theorem asked_cases (key : Key) (c : Call)
    : asked key [c] = [] ∨ ∃ digest stable audit, c = .answer key digest stable audit := by
  cases c with
  | answer key' digest stable audit =>
    by_cases hkey : key' = key
    . cases hkey
      exact Or.inr ⟨digest, stable, audit, rfl⟩
    . left
      simp [asked, hkey]
  | _ => exact Or.inl rfl

theorem StableAs.left {stable : Bool} {pre post : List Call} (h : StableAs stable key (pre ++ post))
    : StableAs stable key pre := fun digest stable' audit hmem => h digest stable' audit (List.mem_append_left _ hmem)

-- The entries of a key that is never stable: of its first answer, and of what came behind a different one.
def entriesOf (answers : List Nat) : Set (Option Nat) := {o | answers ≠ [] ∧ ∀ x ∈ o, Later answers x}

theorem none_mem_entriesOf {answers : List Nat} : none ∈ entriesOf answers ↔ answers ≠ [] := by
  constructor
  . exact And.left
  . intro hne
    refine ⟨hne, ?_⟩
    intro x hx
    cases hx

theorem some_mem_entriesOf {answers : List Nat} {x : Nat} : some x ∈ entriesOf answers ↔ Later answers x := by
  constructor
  . intro h
    exact h.2 x rfl
  . intro h
    refine ⟨?_, ?_⟩
    . rintro rfl
      rcases h with ⟨pre, post, heq, -⟩
      cases pre <;> cases heq
    . intro y hy
      cases hy
      exact h

theorem mem_entriesOf_concat {answers : List Nat} {y : Nat} {o : Option Nat}
    : o ∈ entriesOf (answers ++ [y]) ↔
        o ∈ entriesOf answers ∨ (answers = [] ∧ o = none) ∨ (∃ z, answers.getLast? = some z ∧ z ≠ y ∧ o = some y) := by
  cases o with
  | none =>
    rw [none_mem_entriesOf, none_mem_entriesOf]
    by_cases hnil : answers = []
    . simp [hnil]
    . simp [hnil]
  | some x =>
    rw [some_mem_entriesOf, some_mem_entriesOf, later_concat]
    constructor
    . rintro (hlater | ⟨rfl, z, hz, hne⟩)
      . exact Or.inl hlater
      . cases hlast : answers.getLast? with
        | none =>
          rw [List.getLast?_eq_none_iff.mp hlast] at hz
          cases hz
        | some last =>
          by_cases hsame : last = x
          . cases hsame
            exact Or.inl (later_of_getLast? hlast hz hne)
          . exact Or.inr (Or.inr ⟨last, rfl, hsame, rfl⟩)
    . rintro (hlater | ⟨-, hnone⟩ | ⟨z, hz, hne, heq⟩)
      . exact Or.inl hlater
      . cases hnone
      . cases heq
        exact Or.inr ⟨rfl, z, List.mem_of_getLast? hz, hne⟩

/--
Of a key that is never stable, the latest answer is kept.
-/
structure Moving (key : Key) (past : List Call) (s : State) (n : Nat) : Prop where
  latest : s.ledger.answers key = ((asked key past).map Ledger.low).getLast?
  booked : Booked key (entriesOf ((asked key past).map Ledger.low)) s n

/--
Of a key that is always stable, the first answer is kept.
-/
structure Fixed (key : Key) (past : List Call) (s : State) (n : Nat) : Prop where
  first : s.ledger.answers key = (asked key past).head?.map Ledger.low
  booked : Booked key {o | asked key past ≠ [] ∧ o = none} s n

theorem Moving.other {c : Call} (hother : asked key [c] = []) (h : Moving key past s n)
    (hstep : step wire s c = .ok (s', r))
    : Moving key (past ++ [c]) s' (n + handedFor key s c s') := by
  rcases h.booked.other hother hstep with ⟨hanswers, hbooked⟩
  refine ⟨?_, ?_⟩
  . rw [hanswers, asked_append, hother, List.append_nil]
    exact h.latest
  . rw [asked_append, hother, List.append_nil]
    exact hbooked

theorem Fixed.other {c : Call} (hother : asked key [c] = []) (h : Fixed key past s n)
    (hstep : step wire s c = .ok (s', r))
    : Fixed key (past ++ [c]) s' (n + handedFor key s c s') := by
  rcases h.booked.other hother hstep with ⟨hanswers, hbooked⟩
  refine ⟨?_, ?_⟩
  . rw [hanswers, asked_append, hother, List.append_nil]
    exact h.first
  . rw [asked_append, hother, List.append_nil]
    exact hbooked

theorem Booked.congr {names names' : Set (Option Nat)} (h : Booked key names s n) (heq : ∀ o, o ∈ names ↔ o ∈ names')
    : Booked key names' s n := by
  rw [← Set.ext heq]
  exact h

theorem Moving.answered {digest : Nat} {audit : Audit} (h : Moving key past s n)
    (hstep : step wire s (.answer key digest false audit) = .ok (s', r))
    : Moving key (past ++ [.answer key digest false audit]) s' n := by
  rcases h.booked.answered hstep with ⟨entry, hlooked, hbooked⟩
  rcases s' with ⟨l', pending'⟩
  dsimp only at hlooked
  have hasked : (asked key (past ++ [.answer key digest false audit])).map Ledger.low
      = (asked key past).map Ledger.low ++ [Ledger.low digest] := by
    rw [asked_append, asked_answer, List.map_append]
    rfl
  have hlatest := h.latest
  constructor
  . rw [hasked, List.getLast?_concat]
    cases hlooked with
    | same held => exact held
    | differs _ _ hstable => cases hstable
    | moved | first => exact Function.update_self ..
  . rw [hasked]
    apply hbooked.congr
    intro o
    rw [mem_entriesOf_concat, ← hlatest, Set.mem_union]
    apply or_congr_right
    cases hlooked with
    | same held =>
      rw [held] at hlatest ⊢
      constructor
      . intro hentry
        cases hentry
      . rintro (⟨hnil, -⟩ | ⟨z, hz, hne, -⟩)
        . rw [hnil] at hlatest
          cases hlatest
        . cases hz
          exact absurd rfl hne
    | differs _ _ hstable => cases hstable
    | moved hheld hne =>
      rw [hheld] at hlatest ⊢
      constructor
      . intro hentry
        cases hentry
        exact Or.inr ⟨_, rfl, hne, rfl⟩
      . rintro (⟨hnil, -⟩ | ⟨z, -, -, rfl⟩)
        . rw [hnil] at hlatest
          cases hlatest
        . rfl
    | first hnone =>
      rw [hnone] at hlatest ⊢
      constructor
      . intro hentry
        cases hentry
        exact Or.inl ⟨List.getLast?_eq_none_iff.mp hlatest.symm, rfl⟩
      . rintro (⟨-, rfl⟩ | ⟨z, hz, -⟩)
        . rfl
        . cases hz

theorem Fixed.answered {digest : Nat} {audit : Audit} (h : Fixed key past s n)
    (hstep : step wire s (.answer key digest true audit) = .ok (s', r))
    : Fixed key (past ++ [.answer key digest true audit]) s' n := by
  rcases h.booked.answered hstep with ⟨entry, hlooked, hbooked⟩
  rcases s' with ⟨l', pending'⟩
  dsimp only at hlooked
  have hasked : asked key (past ++ [.answer key digest true audit]) = asked key past ++ [digest] := by
    rw [asked_append, asked_answer]
  have hfirst := h.first
  cases hpast : asked key past with
  | nil =>
    rw [hpast] at hfirst hasked
    constructor
    . rw [hasked]
      cases hlooked with
      | first => exact Function.update_self ..
      | same held => rw [held] at hfirst; cases hfirst
      | differs hheld => rw [hheld] at hfirst; cases hfirst
      | moved _ _ hstable => cases hstable
    . rw [hasked]
      apply hbooked.congr
      intro o
      rw [hpast]
      cases hlooked with
      | first => simp [eq_comm]
      | same held => rw [held] at hfirst; cases hfirst
      | differs hheld => rw [hheld] at hfirst; cases hfirst
      | moved _ _ hstable => cases hstable
  | cons head rest =>
    rw [hpast] at hfirst hasked
    constructor
    . rw [hasked]
      cases hlooked with
      | same | differs => exact hfirst
      | first hnone => rw [hnone] at hfirst; cases hfirst
      | moved _ _ hstable => cases hstable
    . rw [hasked]
      apply hbooked.congr
      intro o
      rw [hpast]
      cases hlooked with
      | same | differs => simp
      | first hnone => rw [hnone] at hfirst; cases hfirst
      | moved _ _ hstable => cases hstable

theorem Booked.new (key : Key) {names : Set (Option Nat)} (hnames : ∀ o, o ∉ names) (stableBelow : Nat)
    (auditEvery : UInt64) (capacity : Nat)
    : Booked key names (.new stableBelow auditEvery capacity) 0 := by
  refine ⟨.nil, rfl, ?_⟩
  intro o
  simp [State.new, Ledger.new, hnames o]

variable {stableBelow : Nat} {auditEvery : UInt64} {capacity : Nat}
  (hexec : Run.exec (step wire) (.new stableBelow auditEvery capacity) calls = .ok s)

include hexec

theorem exec_moving (hstable : StableAs false key calls)
    : Moving key calls s (Run.total (step wire) (handedFor key) (.new stableBelow auditEvery capacity) calls) := by
  have hrun := @Run.exec_total _ _ _ _ (step wire) (handedFor key)
    (fun past s n => StableAs false key past → Moving key past s n) ?_ _ _ [] _ 0 ?_ hexec
  . rw [Nat.zero_add] at hrun
    exact hrun hstable
  . intro past s c s' r n ih hstep hpast
    have hmoving := ih hpast.left
    rcases asked_cases key c with hother | ⟨digest, stable, audit, rfl⟩
    . exact hmoving.other hother hstep
    . cases hpast digest stable audit (by simp)
      exact hmoving.answered hstep
  . intro _
    refine ⟨rfl, Booked.new key ?_ stableBelow auditEvery capacity⟩
    rintro o ⟨hne, -⟩
    exact hne rfl

theorem exec_fixed (hstable : StableAs true key calls)
    : Fixed key calls s (Run.total (step wire) (handedFor key) (.new stableBelow auditEvery capacity) calls) := by
  have hrun := @Run.exec_total _ _ _ _ (step wire) (handedFor key)
    (fun past s n => StableAs true key past → Fixed key past s n) ?_ _ _ [] _ 0 ?_ hexec
  . rw [Nat.zero_add] at hrun
    exact hrun hstable
  . intro past s c s' r n ih hstep hpast
    have hfixed := ih hpast.left
    rcases asked_cases key c with hother | ⟨digest, stable, audit, rfl⟩
    . exact hfixed.other hother hstep
    . cases hpast digest stable audit (by simp)
      exact hfixed.answered hstep
  . intro _
    refine ⟨rfl, Booked.new key ?_ stableBelow auditEvery capacity⟩
    rintro o ⟨hne, -⟩
    exact hne rfl

end Keys

end Desk
end Loadtest
