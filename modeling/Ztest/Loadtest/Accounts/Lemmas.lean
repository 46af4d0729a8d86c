import Ztest.Lib.Sums
import Ztest.Loadtest.Accounts.Impl
import Ztest.Loadtest.Differential.Lemmas.Exact

namespace Loadtest
namespace Load

-- Both backends that were asked answered.
def full (d : Driver) (r : Answer × Answer) : Bool := r.1.isOk && (!d.paired || r.2.isOk)

def missed (who : Who) (r : Answer × Answer) : Bool := (answer who r).isNone

def Task.waiting (t : Task) : Who → List (List CompactBlock)
  | .a => []
  | .b => (t.pending.map (·.2)).toList

/--
What the task and the meters of a connection say about its rounds so far.
-/
structure Booked (d : Driver) (rounds : List (Answer × Answer)) (t : Task) (m : Who → Meter) (who : Who)
    : Prop where
  ops : (t.tally who).ops = (rounds.filter (full d)).length
  errors : (t.tally who).errors = (rounds.filter (missed who)).length
  samples : ((m who).hists opKind).length = (rounds.filter (full d)).length
  passes : (m who).passes.map (·.blocks) ++ t.waiting who = (rounds.filter (full d)).filterMap (answer who)
  violations : keepNew Driver.violationKey [] ((m who).passes.flatMap (·.findings))
      = (t.seenOf who, (t.tally who).violations)

variable {d : Driver} {rounds : List (Answer × Answer)} {t : Task} {m : Who → Meter} {who : Who}

theorem record_self (hists : Hists) (op : OpKind) (micros : Nat)
    : hists.record op micros op = hists op ++ [micros] := by
  simp [Hists.record]

theorem keepNew_pass {passes : List Pass} {seen : List (Nat × String)} {kept : List Violation}
    (h : keepNew Driver.violationKey [] (passes.flatMap (·.findings)) = (seen, kept)) (p : Pass)
    : keepNew Driver.violationKey [] ((passes ++ [p]).flatMap (·.findings))
        =
      ((keepNew Driver.violationKey seen p.findings).1,
        kept ++ (keepNew Driver.violationKey seen p.findings).2) := by
  rw [List.flatMap_append, List.flatMap_singleton, keepNew_append_eq, h]

theorem booked_new (d : Driver) (micros : Who → Nat) (who : Who)
    : Booked d [] .new (d.dialed micros) who := by
  have hdialed : (d.dialed micros who).hists opKind = [] ∧ (d.dialed micros who).passes = [] := by
    unfold Driver.dialed
    dsimp only
    split
    . exact ⟨by simp [Meter.sample, Hists.record, opKind], rfl⟩
    . exact ⟨rfl, rfl⟩
  refine ⟨?_, ?_, ?_, ?_, ?_⟩
  . cases who <;> rfl
  . cases who <;> rfl
  . rw [hdialed.1]
    rfl
  . rw [hdialed.2]
    cases who <;> rfl
  . rw [hdialed.2]
    cases who <;> rfl

section Round

variable {s s' : State} {i : Nat} {ra rb : Answer} {micros : Who → Nat} {kept : List Violation}

theorem Booked.failed (h : Booked d rounds t m who) (hasked : who = .b → d.paired = true)
    (hfull : full d (ra, rb) = false)
    : Booked d (rounds ++ [(ra, rb)]) (Driver.countErrors d.paired ra rb t) m who := by
  have hkept : (rounds ++ [(ra, rb)]).filter (full d) = rounds.filter (full d) := by
    simp [List.filter_append, hfull]
  refine ⟨?_, ?_, ?_, ?_, ?_⟩
  . rw [hkept, ← h.ops]
    cases who <;> rfl
  . rw [List.filter_append, List.length_append, ← h.errors]
    cases who with
    | a => cases ra <;> rfl
    | b =>
      rw [hasked rfl]
      cases rb <;> rfl
  . rw [hkept]
    exact h.samples
  . rw [hkept, ← h.passes]
    cases who <;> rfl
  . rw [h.violations]
    cases who <;> rfl

theorem filter_full_concat {r : Answer × Answer} (hfull : full d r = true)
    : (rounds ++ [r]).filter (full d) = rounds.filter (full d) ++ [r] := by
  simp [List.filter_append, hfull]

theorem missed_concat {r : Answer × Answer} (hanswer : missed who r = false)
    : (rounds ++ [r]).filter (missed who) = rounds.filter (missed who) := by
  simp [List.filter_append, hanswer]

theorem Booked.answeredA {ba : List CompactBlock} (h : Booked d rounds t m .a)
    (hfull : full d (.ok ba, rb) = true) {t' : Task} {m' : Who → Meter}
    (hta : t'.ta.ops = t.ta.ops + 1 ∧ t'.ta.errors = t.ta.errors)
    (hfound : keepNew Driver.violationKey t.seenA (d.findings s i (blockRange ba)) = (t'.seenA, kept) ∧
      t'.ta.violations = t.ta.violations ++ kept)
    (hm : m' .a = ((m .a).sample opKind (micros .a)).pass (blockRange ba) (d.findings s i (blockRange ba)))
    : Booked d (rounds ++ [(.ok ba, rb)]) t' m' .a := by
  refine ⟨?_, ?_, ?_, ?_, ?_⟩
  . rw [filter_full_concat hfull, List.length_append, ← h.ops]
    exact hta.1
  . rw [missed_concat rfl, ← h.errors]
    exact hta.2
  . rw [filter_full_concat hfull, List.length_append, ← h.samples, hm]
    simp [Meter.sample, Meter.pass, record_self]
  . rw [filter_full_concat hfull, List.filterMap_append, ← h.passes, hm]
    simp [Meter.sample, Meter.pass, Task.waiting, answer, Except.toOption]
  . rw [hm]
    have hpass := keepNew_pass h.violations ⟨blockRange ba, d.findings s i (blockRange ba)⟩
    dsimp only [Task.seenOf, Task.tally] at hpass ⊢
    rw [hfound.1] at hpass
    rw [hfound.2]
    exact hpass

theorem Booked.answeredB {ba bb : List CompactBlock} (h : Booked d rounds t m .b)
    (hpending : t.pending = none) (hfull : full d (.ok ba, .ok bb) = true) {t' : Task} {m' : Who → Meter}
    (htb : t'.tb.ops = t.tb.ops + 1 ∧ t'.tb.errors = t.tb.errors ∧ t'.tb.violations = t.tb.violations)
    (hseen : t'.seenB = t.seenB) (hwait : t'.pending = some (blockRange ba, blockRange bb))
    (hm : m' .b = (m .b).sample opKind (micros .b))
    : Booked d (rounds ++ [(.ok ba, .ok bb)]) t' m' .b := by
  refine ⟨?_, ?_, ?_, ?_, ?_⟩
  . rw [filter_full_concat hfull, List.length_append, ← h.ops]
    exact htb.1
  . rw [missed_concat rfl, ← h.errors]
    exact htb.2.1
  . rw [filter_full_concat hfull, List.length_append, ← h.samples, hm]
    simp [Meter.sample, record_self]
  . rw [filter_full_concat hfull, List.filterMap_append, ← h.passes, hm]
    simp [Meter.sample, Task.waiting, answer, Except.toOption, hpending, hwait]
  . rw [hm]
    have hold := h.violations
    dsimp only [Task.seenOf, Task.tally, Meter.sample] at hold ⊢
    rw [hseen, htb.2.2]
    exact hold

theorem request_failed (hfull : full d (ra, rb) = false) (h : d.request s i ra rb = some s')
    : s'.tasks i = Driver.countErrors d.paired ra rb (s.tasks i) ∧ d.meterRound s i ra rb micros m = m := by
  unfold full at hfull
  unfold Driver.request at h
  unfold Driver.meterRound
  generalize d.paired = paired at *
  cases ra with
  | error e =>
    cases paired
    all_goals
      cases h
      exact ⟨Function.update_self .., rfl⟩
  | ok ba =>
    cases paired with
    | false => cases hfull
    | true =>
      cases rb with
      | error e =>
        cases h
        exact ⟨Function.update_self .., rfl⟩
      | ok bb => cases hfull

theorem findings_eq {blocks : List CompactBlock} {seen : Seen} {v : List Violation}
    (h : d.observed s i blocks = some (seen, v))
    : d.findings s i blocks = v := by
  rw [Driver.findings, h]
  rfl

theorem request_single {ba : List CompactBlock} (hp : d.paired = false) (h : d.request s i (.ok ba) rb = some s')
    : s'.tasks i = Driver.noteA (d.findings s i (blockRange ba)) (Driver.countOps false (s.tasks i)) := by
  unfold Driver.request at h
  rw [hp] at h
  rcases Option.map_eq_some_iff.mp h with ⟨⟨_, v⟩, hobserved, rfl⟩
  rw [findings_eq hobserved]
  exact Function.update_self ..

theorem request_paired {ba bb : List CompactBlock} (hp : d.paired = true)
    (h : d.request s i (.ok ba) (.ok bb) = some s')
    : s'.tasks i = { Driver.noteA (d.findings s i (blockRange ba)) (Driver.countOps true (s.tasks i)) with
        pending := some (blockRange ba, blockRange bb) } := by
  unfold Driver.request at h
  rw [hp] at h
  rcases Option.map_eq_some_iff.mp h with ⟨⟨_, v⟩, hobserved, rfl⟩
  rw [findings_eq hobserved]
  exact Function.update_self ..

theorem meterRound_a {ba : List CompactBlock} (hfull : full d (.ok ba, rb) = true)
    : d.meterRound s i (.ok ba) rb micros m .a
        = ((m .a).sample opKind (micros .a)).pass (blockRange ba) (d.findings s i (blockRange ba)) := by
  unfold full at hfull
  unfold Driver.meterRound
  generalize d.paired = paired at *
  cases paired with
  | false => rfl
  | true =>
    cases rb with
    | error e => cases hfull
    | ok bb => rfl

theorem meterRound_b {ba bb : List CompactBlock} (hp : d.paired = true)
    : d.meterRound s i (.ok ba) (.ok bb) micros m .b = (m .b).sample opKind (micros .b) := by
  unfold Driver.meterRound
  rw [hp]

theorem Booked.round (h : Booked d rounds (s.tasks i) m who) (hasked : who = .b → d.paired = true)
    (hpending : (s.tasks i).pending = none) (hrequest : d.request s i ra rb = some s')
    : Booked d (rounds ++ [(ra, rb)]) (s'.tasks i) (d.meterRound s i ra rb micros m) who := by
  cases hfull : full d (ra, rb) with
  | false =>
    rcases @request_failed d m s s' i ra rb micros hfull hrequest with ⟨htask, hmeter⟩
    rw [htask, hmeter]
    exact h.failed hasked hfull
  | true =>
    cases ra with
    | error e => cases hfull
    | ok ba =>
      cases hp : d.paired with
      | false =>
        rw [request_single hp hrequest]
        cases who with
        | a => exact h.answeredA hfull ⟨rfl, rfl⟩ ⟨rfl, rfl⟩ (meterRound_a hfull)
        | b => exact absurd (hasked rfl) (by simp [hp])
      | true =>
        cases rb with
        | error e => simp [full, hp, Except.isOk, Except.toBool] at hfull
        | ok bb =>
          rw [request_paired hp hrequest]
          cases who with
          | a => exact h.answeredA hfull ⟨rfl, rfl⟩ ⟨rfl, rfl⟩ (meterRound_a hfull)
          | b => exact h.answeredB hpending hfull ⟨rfl, rfl, rfl⟩ rfl rfl (meterRound_b hp)

theorem Booked.second {a b : List CompactBlock} (h : Booked d rounds (s.tasks i) m who)
    (hp : (s.tasks i).pending = some (a, b))
    : Booked d rounds (Driver.compare a b (Driver.noteB (d.findings s i b) { s.tasks i with pending := none }))
        (d.meterSecond s i b m) who := by
  cases who with
  | a => exact ⟨h.ops, h.errors, h.samples, h.passes, h.violations⟩
  | b =>
    refine ⟨h.ops, h.errors, h.samples, ?_, ?_⟩
    . rw [← h.passes]
      simp [Driver.meterSecond, Meter.pass, Task.waiting, hp, Driver.compare, Driver.noteB]
    . exact keepNew_pass h.violations ⟨b, d.findings s i b⟩

end Round

theorem sent_append (d : Driver) (events : List TimedEvent) (e : TimedEvent) (i : Nat)
    : sent d (events ++ [e]) i = sent d events i ++ sent d [e] i := by
  simp [sent, List.filterMap_append]

section Run

variable {s s' : Metered} {past events : List TimedEvent} {e : TimedEvent} {r : Unit}

theorem Booked.idle {i : Nat} (h : Booked d (sent d past i) t m who) (hsent : sent d [e] i = [])
    : Booked d (sent d (past ++ [e]) i) t m who := by
  rw [sent_append, hsent, List.append_nil]
  exact h

theorem timedStep_ok (h : d.timedStep s e = .ok (s', r))
    : d.step s.core e.event = .ok (s'.core, ()) ∧ s'.meters = d.meter s e := by
  unfold Driver.timedStep at h
  split at h
  . next core _ hstep =>
    cases h
    exact ⟨hstep, rfl⟩
  . cases h

theorem Booked.step (hasked : who = .b → d.paired = true)
    (h : ∀ j, Booked d (sent d past j) (s.core.tasks j) (s.meters j) who)
    (hstep : d.timedStep s e = .ok (s', r)) (j : Nat)
    : Booked d (sent d (past ++ [e]) j) (s'.core.tasks j) (s'.meters j) who := by
  rcases timedStep_ok hstep with ⟨hcore, hmeters⟩
  rw [hmeters]
  rcases e with ⟨event, micros⟩
  rcases s' with ⟨core, meters⟩
  unfold Driver.meter
  cases event with
  | round i elapsed ra rb =>
    dsimp only at hcore ⊢
    unfold Driver.step at hcore
    dsimp only at hcore
    split at hcore
    . next hguard =>
      split at hcore
      . next hlt =>
        split at hcore
        . next s' hrequest =>
          cases hcore
          rw [if_pos hlt]
          by_cases hj : j = i
          . subst hj
            rw [Function.update_self, sent_append]
            have hsent : sent d [⟨.round j elapsed ra rb, micros⟩] j = [(ra, rb)] := by
              simp [sent, hlt]
            rw [hsent]
            exact (h j).round hasked hguard.2.2 hrequest
          . rw [request_other hrequest hj, Function.update_of_ne hj]
            exact (h j).idle (by simp [sent, Ne.symm hj])
        . cases hcore
      . next hge =>
        cases hcore
        rw [if_neg hge]
        have hidle := (h j).idle (e := ⟨.round i elapsed ra rb, micros⟩) (by simp [sent, hge])
        by_cases hj : j = i
        . subst hj
          dsimp only
          rw [Function.update_self]
          cases who <;> exact ⟨hidle.ops, hidle.errors, hidle.samples, hidle.passes, hidle.violations⟩
        . dsimp only
          rw [Function.update_of_ne hj]
          exact hidle
    . cases hcore
  | second i =>
    dsimp only at hcore ⊢
    unfold Driver.step at hcore
    dsimp only at hcore
    split at hcore
    . next a b hp =>
      split at hcore
      . next seen v hobserved =>
        cases hcore
        rw [hp]
        dsimp only
        by_cases hj : j = i
        . subst hj
          rw [Function.update_self, Function.update_self, ← findings_eq hobserved]
          exact ((h j).second hp).idle rfl
        . rw [Function.update_of_ne hj, Function.update_of_ne hj]
          exact (h j).idle rfl
      . cases hcore
    . cases hcore

theorem Booked.run (hasked : who = .b → d.paired = true) {dials : Nat → Who → Nat}
    (hexec : Run.exec d.timedStep (d.timedInit dials) events = .ok s) (i : Nat)
    : Booked d (sent d events i) (s.core.tasks i) (s.meters i) who := by
  have hinit : ∀ j, Booked d (sent d [] j) ((d.timedInit dials).core.tasks j) ((d.timedInit dials).meters j) who :=
    fun j => booked_new d (dials j) who
  have hall := Run.exec_history
    (I := fun past s => ∀ j, Booked d (sent d past j) (s.core.tasks j) (s.meters j) who)
    (fun past s e s' r h hstep j => Booked.step hasked h hstep j) hinit hexec
  exact hall i

end Run

def Merged.tally (x : Merged) : Who → Tally
  | .a => x.ma
  | .b => x.mb

theorem foldl_join_tally (tasks : List Task) (x : Merged) (who : Who)
    : (tasks.foldl Merged.join x).tally who = (tasks.map (·.tally who)).foldl Tally.merge (x.tally who) := by
  induction tasks generalizing x with
  | nil => rfl
  | cons t tasks ih =>
    rw [List.foldl_cons, ih, List.map_cons, List.foldl_cons]
    cases who <;> rfl

theorem foldl_merge (ts : List Tally) (t : Tally)
    : ts.foldl Tally.merge t
        =
      ⟨t.ops + (ts.map (·.ops)).sum, t.errors + (ts.map (·.errors)).sum,
        t.violations ++ ts.flatMap (·.violations)⟩ := by
  induction ts generalizing t with
  | nil => simp
  | cons u ts ih =>
    rw [List.foldl_cons, ih]
    simp [Tally.merge, Nat.add_assoc]

theorem foldl_hists {ι : Type} (f : ι → Hists) (op : OpKind) (l : List ι) (hists : Hists)
    : l.foldl (fun hists i => hists.merge (f i)) hists op = hists op ++ l.flatMap fun i => f i op := by
  induction l generalizing hists with
  | nil => simp
  | cons i l ih =>
    rw [List.foldl_cons, ih, List.flatMap_cons]
    simp [Hists.merge]

theorem length_merged (s : Metered)
    : (d.merged s who opKind).length
        = ((List.range d.connections).map fun i => ((s.meters i who).hists opKind).length).sum := by
  unfold Driver.merged
  rw [foldl_hists (fun i => (s.meters i who).hists), List.nil_append, List.length_flatMap]

theorem side_eq {core : State} {side : Side} (h : (d.report core).side who = some side)
    : (who = .b → d.paired = true) ∧
      side.totalOps = ((List.range d.connections).map fun i => ((core.tasks i).tally who).ops).sum ∧
      side.errors = ((List.range d.connections).map fun i => ((core.tasks i).tally who).errors).sum ∧
      side.violations = (List.range d.connections).flatMap fun i => ((core.tasks i).tally who).violations := by
  have htally : (who = .b → d.paired = true) ∧
      side = ((((List.range d.connections).map core.tasks).foldl Merged.join ⟨.new, .new, [], []⟩).tally
        who).intoSide := by
    cases who with
    | a =>
      cases h
      exact ⟨by simp, rfl⟩
    | b =>
      unfold Driver.report LoadReport.side at h
      dsimp only at h
      split at h
      . next hp =>
        cases h
        exact ⟨fun _ => hp, rfl⟩
      . cases h
  refine ⟨htally.1, ?_⟩
  rw [htally.2, foldl_join_tally, foldl_merge]
  cases who <;> simp [Tally.intoSide, Merged.tally, Tally.new, Function.comp_def, List.flatMap_map]

section Counts

variable (hasked : who = .b → d.paired = true)
include hasked

theorem answer_of_full {r : Answer × Answer} (h : full d r = true) : (answer who r).isSome = true := by
  rcases r with ⟨ra, rb⟩
  unfold full at h
  rw [Bool.and_eq_true] at h
  cases who with
  | a =>
    cases ra with
    | ok ba => rfl
    | error e => cases h.1
  | b =>
    rw [hasked rfl] at h
    cases rb with
    | ok bb => rfl
    | error e => cases h.2

theorem not_missed_of_full {r : Answer × Answer} (h : full d r = true) : missed who r = false := by
  unfold missed
  cases hans : answer who r with
  | none =>
    have := answer_of_full hasked h
    rw [hans] at this
    cases this
  | some blocks => rfl

theorem counts_le (rounds : List (Answer × Answer))
    : (rounds.filter (full d)).length + (rounds.filter (missed who)).length ≤ rounds.length := by
  induction rounds with
  | nil => simp
  | cons r rounds ih =>
    rw [List.filter_cons, List.filter_cons, List.length_cons]
    cases hfull : full d r with
    | true =>
      rw [not_missed_of_full hasked hfull]
      simp
      omega
    | false =>
      cases missed who r with
      | true =>
        simp
        omega
      | false =>
        simp
        omega

theorem counts_eq_iff (rounds : List (Answer × Answer))
    : (rounds.filter (full d)).length + (rounds.filter (missed who)).length = rounds.length ↔
      ∀ r ∈ rounds, (answer who r).isSome = true → full d r = true := by
  induction rounds with
  | nil => simp
  | cons r rounds ih =>
    have hle := counts_le hasked rounds
    rw [List.filter_cons, List.filter_cons, List.length_cons, List.forall_mem_cons, ← ih]
    cases hfull : full d r with
    | true =>
      rw [not_missed_of_full hasked hfull]
      simp
      omega
    | false =>
      cases hans : answer who r with
      | none =>
        simp [missed, hans]
        omega
      | some blocks =>
        simp [missed, hans]
        omega

theorem filterMap_full {rounds : List (Answer × Answer)}
    (h : ∀ r ∈ rounds, (answer who r).isSome = true → full d r = true)
    : (rounds.filter (full d)).filterMap (answer who) = rounds.filterMap (answer who) := by
  induction rounds with
  | nil => rfl
  | cons r rounds ih =>
    rw [List.forall_mem_cons] at h
    rw [List.filter_cons, List.filterMap_cons]
    cases hans : answer who r with
    | none =>
      have hfull : full d r = false := by
        rw [Bool.eq_false_iff]
        intro hfull
        have := answer_of_full hasked hfull
        rw [hans] at this
        cases this
      rw [hfull]
      exact ih h.2
    | some blocks =>
      have hfull : full d r = true := h.1 (by rw [hans]; rfl)
      rw [hfull, if_pos rfl, List.filterMap_cons, hans, ih h.2]

theorem length_filter_full (rounds : List (Answer × Answer))
    : ((rounds.filter (full d)).filterMap (answer who)).length = (rounds.filter (full d)).length := by
  rw [List.length_filterMap_eq_countP, List.countP_eq_length]
  intro r hr
  exact answer_of_full hasked (List.mem_filter.mp hr).2

end Counts

theorem answered_of_issued {s : Metered} {events : List TimedEvent} {side : Side}
    (hasked : who = .b → d.paired = true)
    (hbooked : ∀ i, Booked d (sent d events i) (s.core.tasks i) (s.meters i) who)
    (hside : (d.report s.core).side who = some side)
    (h : side.totalOps + side.errors = ((List.range d.connections).map fun i => (sent d events i).length).sum)
    : ∀ i < d.connections, ∀ r ∈ sent d events i, (answer who r).isSome = true → full d r = true := by
  intro i hi
  rcases side_eq hside with ⟨-, hops, herrors, -⟩
  rw [hops, herrors, ← List.sum_map_add] at h
  rw [← counts_eq_iff hasked]
  have hle : ∀ j ∈ List.range d.connections,
      ((s.core.tasks j).tally who).ops + ((s.core.tasks j).tally who).errors ≤ (sent d events j).length := by
    intro j _
    rw [(hbooked j).ops, (hbooked j).errors]
    exact counts_le hasked _
  have heq := Sums.eq_of_sum_eq hle h i (List.mem_range.mpr hi)
  rw [(hbooked i).ops, (hbooked i).errors] at heq
  exact heq

theorem charged_of_answered {s : Metered} {events : List TimedEvent} {side : Side}
    (hasked : who = .b → d.paired = true)
    (hbooked : ∀ i, Booked d (sent d events i) (s.core.tasks i) (s.meters i) who)
    (hsettled : ∀ i < d.connections, (s.core.tasks i).pending = none)
    (hside : (d.report s.core).side who = some side)
    (h : ∀ i < d.connections, ∀ r ∈ sent d events i, (answer who r).isSome = true → full d r = true)
    : Charged d events s who side := by
  rcases side_eq hside with ⟨-, hops, herrors, hviolations⟩
  refine ⟨?_, ?_, ?_, ?_⟩
  . rw [hops, herrors, ← List.sum_map_add]
    congr 1
    apply List.map_congr_left
    intro i hi
    rw [(hbooked i).ops, (hbooked i).errors, counts_eq_iff hasked]
    exact h i (List.mem_range.mp hi)
  . rw [length_merged]
    congr 1
    apply List.map_congr_left
    intro i hi
    rw [(hbooked i).samples, ← length_filter_full hasked, filterMap_full hasked (h i (List.mem_range.mp hi))]
  . intro i hi
    have hpasses := (hbooked i).passes
    have hwaiting : (s.core.tasks i).waiting who = [] := by
      cases who <;> simp [Task.waiting, hsettled i hi]
    rw [hwaiting, List.append_nil, filterMap_full hasked (h i hi)] at hpasses
    exact hpasses
  . rw [hviolations]
    congr 1
    funext i
    rw [(hbooked i).violations]

section Same

variable {ra rb : Answer}

theorem full_of_single (hp : d.paired = false) (hans : (answer .a (ra, rb)).isSome = true)
    : full d (ra, rb) = true := by
  unfold full
  rw [hp]
  cases ra with
  | ok ba => rfl
  | error e => cases hans

theorem full_of_same (hsame : ra.isOk = rb.isOk) (hans : (answer who (ra, rb)).isSome = true)
    : full d (ra, rb) = true := by
  have hboth : ra.isOk = true ∧ rb.isOk = true := by
    cases who with
    | a =>
      cases ra with
      | ok ba => exact ⟨rfl, hsame.symm⟩
      | error e => cases hans
    | b =>
      cases rb with
      | ok bb => exact ⟨hsame, rfl⟩
      | error e => cases hans
  unfold full
  rw [hboth.1, hboth.2, Bool.or_true, Bool.and_true]

theorem same_of_full (hp : d.paired = true)
    (h : ∀ who, (answer who (ra, rb)).isSome = true → full d (ra, rb) = true)
    : ra.isOk = rb.isOk := by
  unfold full at h
  rw [hp] at h
  cases ra with
  | ok ba => exact (h .a rfl).symm
  | error e =>
    cases rb with
    | ok bb => exact absurd (h .b rfl) (by simp [Except.isOk, Except.toBool])
    | error e' => rfl

end Same

/--
A run whose rounds are complete charges each side with exactly its own, unless a round of two backends
was answered by one of them alone.
-/
theorem charged_iff (d : Driver) (dials : Nat → Who → Nat) (events : List TimedEvent) (s : Metered)
    (hexec : Run.exec d.timedStep (d.timedInit dials) events = .ok s)
    (hsettled : ∀ i < d.connections, (s.core.tasks i).pending = none)
    : (∀ who side, (d.report s.core).side who = some side → Charged d events s who side) ↔
      (d.paired = true → ∀ i < d.connections, ∀ ra rb, (ra, rb) ∈ sent d events i → ra.isOk = rb.isOk) := by
  constructor
  . intro h hp i hi ra rb hr
    apply same_of_full hp
    intro who hans
    have hside : ∃ side, (d.report s.core).side who = some side := by
      cases who with
      | a => exact ⟨_, rfl⟩
      | b => exact ⟨_, if_pos hp⟩
    rcases hside with ⟨side, hside⟩
    have hasked := (side_eq hside).1
    exact answered_of_issued hasked (Booked.run hasked hexec) hside (h who side hside).issued i hi _ hr hans
  . intro h who side hside
    have hasked := (side_eq hside).1
    refine charged_of_answered hasked (Booked.run hasked hexec) hsettled hside ?_
    rintro i hi ⟨ra, rb⟩ hr hans
    cases hp : d.paired with
    | true => exact full_of_same (h hp i hi ra rb hr) hans
    | false =>
      cases who with
      | a => exact full_of_single hp hans
      | b => exact absurd (hasked rfl) (by simp [hp])

namespace Sample

def lopsided : List TimedEvent := [⟨.round 0 10 (.ok [block]) (.error "unavailable"), fun _ => 5⟩]

def answered : List TimedEvent := [⟨.round 0 10 (.ok []) (.ok []), fun _ => 5⟩, ⟨.second 0, fun _ => 0⟩]

theorem sent_answered : ∀ i < (driver 1000).connections, ∀ ra rb, (ra, rb) ∈ sent (driver 1000) answered i →
    ra.isOk = rb.isOk := by
  intro i hi ra rb h
  rw [Nat.lt_one_iff.mp hi] at h
  rcases List.mem_singleton.mp h with ⟨⟩
  rfl

end Sample

theorem answered_charged
    : ∃ s, Run.exec (Sample.driver 1000).timedStep ((Sample.driver 1000).timedInit fun _ _ => 1) Sample.answered = .ok s ∧
        ∀ who side, ((Sample.driver 1000).report s.core).side who = some side →
          Charged (Sample.driver 1000) Sample.answered s who side := by
  refine ⟨_, rfl, (charged_iff (Sample.driver 1000) (fun _ _ => 1) Sample.answered _ rfl ?_).mpr ?_⟩
  . intro i hi
    rw [Nat.lt_one_iff.mp hi]
    rfl
  . exact fun _ => Sample.sent_answered

/--
The answer of backend A is neither counted nor checked.
-/
theorem lopsided_drops_answer
    : ∃ s, Run.exec (Sample.driver 1000).timedStep ((Sample.driver 1000).timedInit fun _ _ => 1) Sample.lopsided = .ok s ∧
        (∀ i < (Sample.driver 1000).connections, (s.core.tasks i).pending = none) ∧
        ¬∀ who side, ((Sample.driver 1000).report s.core).side who = some side →
          Charged (Sample.driver 1000) Sample.lopsided s who side := by
  refine ⟨_, rfl, ?_, ?_⟩
  . intro i hi
    rw [Nat.lt_one_iff.mp hi]
    rfl
  . intro h
    have hissued := (h .a _ rfl).issued
    revert hissued
    decide

end Load
end Loadtest
