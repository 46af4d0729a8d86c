import Mathlib.Algebra.BigOperators.Group.List.Basic
import Ztest.Lib.Binary64
import Ztest.Lib.Sums

/-!
This module contains what a load window measures (`loadtest/measure.rs`): the samples that the wallets report, the
switch that has them counted, and the window of each method. What the histogram makes of its samples is a parameter.
The sums are `u64` in the source. They count requests and bytes of one window, so they are `Nat` here.
-/

namespace Loadtest
namespace Ramp

inductive Method where
  | connect
  | getLatestBlock
  | getBlock
  | getBlockRange
  | getTreeState
  | getSubtreeRoots
  | getLightdInfo
  | getMempoolStream
  | getAddressUtxos
  | getTaddressTxids
  deriving DecidableEq

def Method.all : List Method :=
  [.connect, .getLatestBlock, .getBlock, .getBlockRange, .getTreeState, .getSubtreeRoots, .getLightdInfo,
    .getMempoolStream, .getAddressUtxos, .getTaddressTxids]

inductive Code where
  | ok
  | cancelled
  | unknown
  | invalidArgument
  | deadlineExceeded
  | notFound
  | alreadyExists
  | permissionDenied
  | resourceExhausted
  | failedPrecondition
  | aborted
  | outOfRange
  | unimplemented
  | internal
  | unavailable
  | dataLoss
  | unauthenticated
  deriving DecidableEq

def Code.all : List Code :=
  [.ok, .cancelled, .unknown, .invalidArgument, .deadlineExceeded, .notFound, .alreadyExists, .permissionDenied,
    .resourceExhausted, .failedPrecondition, .aborted, .outOfRange, .unimplemented, .internal, .unavailable, .dataLoss,
    .unauthenticated]

-- The samples of the histogram, in microseconds. A code that was not seen has no count.
structure MethodTally where
  latency : List Nat
  codes : Code → Nat
  bytes : Nat

def MethodTally.empty : MethodTally := ⟨[], fun _ => 0, 0⟩

structure Measure where
  isOpen : Bool
  methods : Method → MethodTally
  drains : List Nat
  busiest : Option Binary64

def Measure.default : Measure := ⟨false, fun _ => .empty, [], none⟩

-- Durations in nanoseconds.
inductive Sample where
  | request (method : Method) (elapsed bytes : Nat) (code : Code)
  | streamed (method : Method) (bytes : Nat)
  | burst (drain : Nat) (busy : Option Binary64)

def micros (nanos : Nat) : Nat := max (nanos / 1000) 1

def maxF64 (x y : Binary64) : Binary64 := if x = .nan then y else if x.lt y then y else x

def MethodTally.request (t : MethodTally) (elapsed bytes : Nat) (code : Code) : MethodTally where
  latency := if code = .ok then t.latency ++ [micros elapsed] else t.latency
  codes c := if c = code then t.codes c + 1 else t.codes c
  bytes := t.bytes + bytes

def Measure.modify (m : Measure) (method : Method) (f : MethodTally → MethodTally) : Measure :=
  { m with methods := fun n => if n = method then f (m.methods n) else m.methods n }

def Measure.sample (m : Measure) (s : Sample) : Measure :=
  if !m.isOpen then
    m
  else
    match s with
    | .request method elapsed bytes code => m.modify method fun t => t.request elapsed bytes code
    | .streamed method bytes => m.modify method fun t => { t with bytes := t.bytes + bytes }
    | .burst drain busy =>
      { m with
        drains := m.drains ++ [micros drain]
        busiest := match m.busiest, busy with | none, b => b | b, none => b | some a, some b => some (maxF64 a b) }

def Measure.samples (m : Measure) (l : List Sample) : Measure := l.foldl Measure.sample m

def Measure.open (_ : Measure) : Measure := { Measure.default with isOpen := true }

def Measure.close (m : Measure) : Measure := { m with isOpen := false }

structure LatencyStats where
  p99 : Nat
  count : Nat

structure MethodWindow where
  method : Method
  latency : LatencyStats
  ok : Nat
  failed : List (Code × Nat)
  bytes : Nat

/--
`value_at_quantile(0.99)` of a histogram with these samples.
-/
abbrev Quantile := List Nat → Nat

variable (quantile : Quantile)

def MethodTally.seen (t : MethodTally) : Bool := Code.all.any fun c => t.codes c ≠ 0

def MethodTally.window (t : MethodTally) (method : Method) : MethodWindow where
  method := method
  latency := ⟨quantile t.latency * 1000, t.latency.length⟩
  ok := t.codes .ok
  failed := (Code.all.filter fun c => c ≠ .ok ∧ t.codes c ≠ 0).map fun c => (c, t.codes c)
  bytes := t.bytes

def Measure.windows (m : Measure) : List MethodWindow :=
  (Method.all.filter fun n => (m.methods n).seen ∨ 0 < (m.methods n).bytes).map fun n => (m.methods n).window quantile n

def Measure.answered (m : Measure) : List Nat := (Method.all.filter (· ≠ .connect)).flatMap fun n => (m.methods n).latency

def Measure.p99 (m : Measure) : Option Nat :=
  if m.answered = [] then none else some (quantile m.answered * 1000)

section Window

-- What a sample is for the window of a method.
def Sample.answer (n : Method) : Sample → Option Nat
  | .request method elapsed _ code => if method = n ∧ code = .ok then some (micros elapsed) else none
  | _ => none

def Sample.hasCode (n : Method) (c : Code) : Sample → Bool
  | .request method _ _ code => method = n ∧ code = c
  | _ => false

def Sample.received (n : Method) : Sample → Nat
  | .request method _ bytes _ => if method = n then bytes else 0
  | .streamed method bytes => if method = n then bytes else 0
  | .burst .. => 0

def Sample.isOk : Sample → Bool
  | .request _ _ _ code => code = .ok
  | _ => false

def Sample.isFailed : Sample → Bool
  | .request _ _ _ code => code ≠ .ok
  | _ => false

def tally (window : List Sample) (n : Method) : MethodTally where
  latency := window.filterMap (·.answer n)
  codes c := window.countP (·.hasCode n c)
  bytes := (window.map (·.received n)).sum

theorem Method.mem_all (n : Method) : n ∈ Method.all := by
  cases n <;> simp [Method.all]

theorem Method.nodup_all : Method.all.Nodup := by
  decide

theorem Code.mem_all (c : Code) : c ∈ Code.all := by
  cases c <;> simp [Code.all]

theorem Measure.samples_append (m : Measure) (l k : List Sample)
    : m.samples (l ++ k) = (m.samples l).samples k :=
  List.foldl_append

theorem Measure.sample_of_not_open {m : Measure} (h : m.isOpen = false) (s : Sample) : m.sample s = m := by
  simp [Measure.sample, h]

theorem Measure.samples_of_not_open {m : Measure} (h : m.isOpen = false) (l : List Sample) : m.samples l = m := by
  induction l with
  | nil => rfl
  | cons s l ih =>
    have : m.samples (s :: l) = (m.sample s).samples l := rfl
    rw [this, m.sample_of_not_open h, ih]

theorem Measure.isOpen_sample (m : Measure) (s : Sample) : (m.sample s).isOpen = m.isOpen := by
  unfold Measure.sample
  split
  . rfl
  . cases s <;> rfl

-- What one more sample makes of the tally of a method.
def MethodTally.add (t : MethodTally) (n : Method) (s : Sample) : MethodTally where
  latency := t.latency ++ (s.answer n).toList
  codes c := t.codes c + if s.hasCode n c then 1 else 0
  bytes := t.bytes + s.received n

theorem tally_append_singleton (l : List Sample) (s : Sample) (n : Method)
    : tally (l ++ [s]) n = (tally l n).add n s := by
  unfold tally MethodTally.add
  congr
  . rw [List.filterMap_append]
    cases h : s.answer n <;> simp [h]
  . funext c
    rw [List.countP_append, List.countP_singleton]
  . simp

theorem MethodTally.request_eq_add (t : MethodTally) (n : Method) (elapsed bytes : Nat) (code : Code)
    : t.request elapsed bytes code = t.add n (.request n elapsed bytes code) := by
  unfold MethodTally.request MethodTally.add
  congr
  . by_cases h : code = .ok <;> simp [Sample.answer, h]
  . funext c
    by_cases h : code = c <;> simp [Sample.hasCode, h, eq_comm]
  . simp [Sample.received]

theorem MethodTally.add_of_ne (t : MethodTally) {n method : Method} (h : n ≠ method) (elapsed bytes : Nat) (code : Code)
    : t.add n (.request method elapsed bytes code) = t := by
  simp [MethodTally.add, Sample.answer, Sample.hasCode, Sample.received, h.symm]

theorem Measure.methods_sample {m : Measure} (h : m.isOpen = true) (s : Sample) (n : Method)
    : (m.sample s).methods n = (m.methods n).add n s := by
  cases s with
  | request method elapsed bytes code =>
    by_cases hn : n = method
    . subst hn
      simp [Measure.sample, h, Measure.modify, MethodTally.request_eq_add _ n]
    . simp [Measure.sample, h, Measure.modify, hn, MethodTally.add_of_ne _ hn]
  | streamed method bytes =>
    by_cases hn : n = method
    . simp [Measure.sample, h, Measure.modify, MethodTally.add, Sample.answer, Sample.hasCode, Sample.received, hn]
    . simp [Measure.sample, h, Measure.modify, MethodTally.add, Sample.answer, Sample.hasCode, Sample.received, hn,
        Ne.symm hn]
  | burst drain busy =>
    simp [Measure.sample, h, MethodTally.add, Sample.answer, Sample.hasCode, Sample.received]

theorem Measure.isOpen_samples (m : Measure) (l : List Sample) : (m.samples l).isOpen = m.isOpen := by
  induction l using List.reverseRecOn with
  | nil => rfl
  | append_singleton l s ih =>
    rw [m.samples_append]
    exact ((m.samples l).isOpen_sample s).trans ih

/--
An open window has the tally of the samples since it was opened.
-/
theorem Measure.methods_open_samples (m : Measure) (l : List Sample) (n : Method)
    : (m.open.samples l).methods n = tally l n := by
  induction l using List.reverseRecOn with
  | nil => rfl
  | append_singleton l s ih =>
    have hopen : (m.open.samples l).isOpen = true := m.open.isOpen_samples l
    rw [samples_append, tally_append_singleton, ← ih]
    exact methods_sample hopen s n

end Window

section Reports

variable (quantile : Quantile) {l : List Sample} {m : Measure}

theorem pairwise_hasCode (l : List Code) (n : Method) (h : l.Nodup)
    : l.Pairwise fun c d => ∀ s : Sample, s.hasCode n c = true → s.hasCode n d = false := by
  apply List.Pairwise.imp _ h
  intro c d hne s hs
  cases s <;> simp_all [Sample.hasCode]

theorem sum_hasCode (p : Code → Bool) (l : List Sample)
    : (Method.all.map fun n => ((Code.all.filter p).map fun c => l.countP (·.hasCode n c)).sum).sum =
      l.countP fun s => Method.all.any fun n => (Code.all.filter p).any fun c => s.hasCode n c := by
  have hinner : ∀ n, ((Code.all.filter p).map fun c => l.countP (·.hasCode n c)).sum =
      l.countP fun s => (Code.all.filter p).any fun c => s.hasCode n c := by
    intro n
    have hcodes : (Code.all.filter p).Nodup := List.Nodup.filter p (by decide)
    exact Sums.sum_map_countP (pairwise_hasCode _ n hcodes) l
  simp only [hinner]
  apply Sums.sum_map_countP
  apply List.Pairwise.imp _ Method.nodup_all
  intro n k hne s hs
  cases s <;> simp_all [Sample.hasCode]

theorem any_hasCode (p : Code → Bool) (s : Sample)
    : (Method.all.any fun n => (Code.all.filter p).any fun c => s.hasCode n c) =
      match s with | .request _ _ _ code => p code | _ => false := by
  cases s with
  | request method elapsed bytes code =>
    cases hp : p code with
    | true =>
      show _ = p code
      rw [hp]
      simp only [List.any_eq_true, List.mem_filter, Sample.hasCode, decide_eq_true_eq]
      exact ⟨method, method.mem_all, code, ⟨code.mem_all, hp⟩, rfl, rfl⟩
    | false =>
      show _ = p code
      rw [hp]
      simp only [List.any_eq_false, List.any_eq_true, List.mem_filter, Sample.hasCode, decide_eq_true_eq]
      rintro n - ⟨c, ⟨-, hc⟩, -, rfl⟩
      rw [hp] at hc
      cases hc
  | streamed => simp [Sample.hasCode]
  | burst => simp [Sample.hasCode]

theorem countP_isOk (l : List Sample)
    : (Method.all.map fun n => (tally l n).codes .ok).sum = l.countP Sample.isOk := by
  have hsum := sum_hasCode (· = .ok) l
  have hcodes : Code.all.filter (· = .ok) = [.ok] := by decide
  simp only [hcodes, List.map_cons, List.map_nil, List.sum_cons, List.sum_nil, Nat.add_zero] at hsum
  rw [show (Method.all.map fun n => (tally l n).codes .ok).sum = _ from hsum]
  congr 1
  funext s
  rw [← hcodes, any_hasCode]
  cases s <;> rfl

theorem countP_isFailed (l : List Sample)
    : (Method.all.map fun n => ((Code.all.filter (· ≠ .ok)).map (tally l n).codes).sum).sum =
      l.countP Sample.isFailed := by
  rw [show (Method.all.map fun n => ((Code.all.filter (· ≠ .ok)).map (tally l n).codes).sum).sum = _ from
    sum_hasCode (· ≠ .ok) l]
  congr 1
  funext s
  rw [any_hasCode]
  cases s <;> rfl

theorem length_answers (l : List Sample) (n : Method) : (tally l n).latency.length = (tally l n).codes .ok := by
  unfold tally
  dsimp only
  rw [List.length_filterMap_eq_countP]
  congr 1
  funext s
  cases s with
  | request method elapsed bytes code =>
    by_cases h : method = n ∧ code = .ok <;> simp [Sample.answer, Sample.hasCode, h]
  | streamed => rfl
  | burst => rfl

theorem sum_failed (t : MethodTally) (n : Method)
    : ((t.window quantile n).failed.map Prod.snd).sum = ((Code.all.filter (· ≠ .ok)).map t.codes).sum := by
  have hfailed : (t.window quantile n).failed.map Prod.snd =
      (((Code.all.filter (· ≠ .ok)).filter fun c => t.codes c ≠ 0).map t.codes) := by
    simp only [MethodTally.window, List.map_map, List.filter_filter]
    congr 1
    apply List.filter_congr
    intro c _
    rw [Bool.eq_iff_iff]
    simp [and_comm]
  rw [hfailed]
  exact Sums.sum_map_filter_of_eq_zero fun c _ h => by simpa using h

theorem codes_of_not_seen {t : MethodTally} (h : t.seen = false) (c : Code) : t.codes c = 0 := by
  simp only [MethodTally.seen, List.any_eq_false, decide_eq_true_eq, not_not] at h
  exact h c c.mem_all

/--
What the windows of the methods say of the samples they were made of.
-/
structure Reports (l : List Sample) (windows : List MethodWindow) (p99 : Option Nat) : Prop where
  methods : (windows.map (·.method)).Nodup
  mem_methods n :
    n ∈ windows.map (·.method) ↔ ∃ s ∈ l, (∃ c, s.hasCode n c = true) ∨ 0 < s.received n
  window w : w ∈ windows → w = (tally l w.method).window quantile w.method
  count w : w ∈ windows → w.latency.count = w.ok
  ok : (windows.map (·.ok)).sum = l.countP Sample.isOk
  failures : (windows.flatMap fun w => w.failed.map Prod.snd).sum = l.countP Sample.isFailed
  p99 : p99 = none ↔ ∀ s ∈ l, ∀ n, n ≠ .connect → s.answer n = none

theorem seen_tally (l : List Sample) (n : Method)
    : (tally l n).seen = true ∨ 0 < (tally l n).bytes ↔
      ∃ s ∈ l, (∃ c, s.hasCode n c = true) ∨ 0 < s.received n := by
  have hbytes : 0 < (tally l n).bytes ↔ ∃ s ∈ l, 0 < s.received n := by
    simp only [tally, Nat.pos_iff_ne_zero, ne_eq, List.sum_eq_zero_iff, List.mem_map, not_forall]
    constructor
    . rintro ⟨_, ⟨s, hs, rfl⟩, hne⟩
      exact ⟨s, hs, hne⟩
    . rintro ⟨s, hs, hne⟩
      exact ⟨_, ⟨s, hs, rfl⟩, hne⟩
  have hseen : (tally l n).seen = true ↔ ∃ s ∈ l, ∃ c, s.hasCode n c = true := by
    simp only [MethodTally.seen, tally, List.any_eq_true, decide_eq_true_eq, ← Nat.pos_iff_ne_zero, List.countP_pos_iff]
    constructor
    . rintro ⟨c, -, s, hs, hc⟩
      exact ⟨s, hs, c, hc⟩
    . rintro ⟨s, hs, c, hc⟩
      exact ⟨c, c.mem_all, s, hs, hc⟩
  rw [hseen, hbytes]
  constructor
  . rintro (⟨s, hs, hc⟩ | ⟨s, hs, hb⟩)
    . exact ⟨s, hs, .inl hc⟩
    . exact ⟨s, hs, .inr hb⟩
  . rintro ⟨s, hs, hc | hb⟩
    . exact .inl ⟨s, hs, hc⟩
    . exact .inr ⟨s, hs, hb⟩

theorem reports_of_methods {m : Measure} (h : ∀ n, m.methods n = tally l n)
    : Reports quantile l (m.windows quantile) (m.p99 quantile) := by
  have hwindows : m.windows quantile =
      (Method.all.filter fun n => (tally l n).seen ∨ 0 < (tally l n).bytes).map fun n => (tally l n).window quantile n := by
    simp only [Measure.windows, h]
  have hmethods : (m.windows quantile).map (·.method) =
      Method.all.filter fun n => (tally l n).seen ∨ 0 < (tally l n).bytes := by
    rw [hwindows, List.map_map]
    exact List.map_id _
  -- A method without a window has nothing to add.
  have hunseen : ∀ n ∈ Method.all, decide ((tally l n).seen = true ∨ 0 < (tally l n).bytes) = false →
      (tally l n).seen = false := by
    intro n _ hn
    simp only [decide_eq_false_iff_not, not_or, Bool.not_eq_true] at hn
    exact hn.1
  have hwindow : ∀ w ∈ m.windows quantile, w = (tally l w.method).window quantile w.method := by
    intro w hw
    rw [hwindows] at hw
    rcases List.mem_map.mp hw with ⟨n, -, rfl⟩
    rfl
  refine ⟨?methods, ?mem, hwindow, ?count, ?ok, ?failures, ?p99⟩
  case methods =>
    rw [hmethods]
    exact Method.nodup_all.filter _
  case mem =>
    intro n
    rw [hmethods, List.mem_filter, decide_eq_true_eq, seen_tally]
    exact and_iff_right n.mem_all
  case count =>
    intro w hw
    rw [hwindow w hw]
    exact length_answers l _
  case ok =>
    rw [hwindows, List.map_map, ← countP_isOk]
    exact Sums.sum_map_filter_of_eq_zero fun n hn h => codes_of_not_seen (hunseen n hn h) .ok
  case failures =>
    rw [hwindows, List.flatMap_map, List.flatMap_def, List.sum_flatten, List.map_map, ← countP_isFailed]
    simp only [Function.comp_def, sum_failed]
    apply Sums.sum_map_filter_of_eq_zero
    intro n hn h
    rw [List.sum_eq_zero]
    intro x hx
    rcases List.mem_map.mp hx with ⟨c, -, rfl⟩
    exact codes_of_not_seen (hunseen n hn h) c
  case p99 =>
    have hanswered : m.answered = [] ↔ ∀ s ∈ l, ∀ n, n ≠ .connect → s.answer n = none := by
      simp only [Measure.answered, List.flatMap_eq_nil_iff, List.mem_filter, decide_eq_true_eq, h, tally,
        List.filterMap_eq_nil_iff]
      constructor
      . intro hnil s hs n hn
        exact hnil n ⟨n.mem_all, hn⟩ s hs
      . intro hnil n hn s hs
        exact hnil s hs n hn.2
    rw [← hanswered]
    unfold Measure.p99
    split
    . next hnil => simp [hnil]
    . next hne => simp [hne]

/--
Only the samples between the opening and the closing count, whatever was measured before and comes in after.
-/
theorem reports (m : Measure) (settling l late : List Sample)
    : Reports quantile l ((((m.samples settling).open.samples l).close.samples late).windows quantile)
        ((((m.samples settling).open.samples l).close.samples late).p99 quantile) := by
  apply reports_of_methods
  intro n
  rw [Measure.samples_of_not_open rfl]
  exact (m.samples settling).methods_open_samples l n

end Reports

end Ramp
end Loadtest
