import Ztest.Rate
import Ztest.Lib.Collect
import Ztest.Resource.Graph.Lemmas.Provision
import Mathlib.Data.Prod.Lex
import Mathlib.Data.String.Basic

/-!
This module contains the column of transfers beside a build (`ui/src/console/buildphase.rs`): what a row shows
(`TransferState` of `ui/src/lib.rs`), the registry of the rows and the loop that repaints it while the graph of
resources is provisioned. Stamps are in nanoseconds.
-/

namespace Ui
namespace Transfers

open Resource (NodeId NodeState)
open Rate (Pace Window)

inductive Progress where
  | note (note : String)
  | bytes (done total : UInt64)
  | finalizing
  deriving DecidableEq

inductive TransferKind where
  | download
  | image
  | seed
  deriving DecidableEq

inductive TransferProgress where
  | stage (note : String)
  | bytes (done total : UInt64) (pace : Option Pace)
  | failed (detail : String)

def byteSampleInterval : Nat := 1000000000

structure TransferState where
  rate : Window UInt64
  progress : TransferProgress

namespace TransferState

def new (stage : String) : TransferState := ⟨.new byteSampleInterval, .stage stage⟩

def isFailed (s : TransferState) : Bool :=
  match s.progress with
  | .failed _ => true
  | _ => false

def apply (s : TransferState) (ev : Progress) (stamp : Nat) : TransferState :=
  if s.isFailed then
    s
  else
    match ev with
    | .bytes done total =>
      let rate := s.rate.push stamp done
      ⟨rate, .bytes done total (rate.pace (some (.ofRat (total.toNat - done.toNat : Nat))))⟩
    | .note note => ⟨.new byteSampleInterval, .stage note⟩
    | .finalizing => ⟨.new byteSampleInterval, .stage "finalizing"⟩

def fail (s : TransferState) (detail : String) : TransferState := { s with progress := .failed detail }

end TransferState

-- `split(':').next()` and `rsplit('/').next()`
def leafOf (tag : String) : String :=
  let repo := tag.toList.takeWhile (· ≠ ':')
  .ofList (repo.reverse.takeWhile (· ≠ '/')).reverse

def displayLabel : NodeId → String
  | .image tag => tag
  | .seed name => name
  | .namespace name => s!"ns/{name}"
  | .nodeLabel key => s!"label/{key}"
  | .runIdentity => "run-identity"
  | .buildkit => "buildkit"
  | .observability => "metrics-stack"
  | .metricsApi => "metrics-api"

def describeNode : NodeId → String × TransferKind
  | .image tag => (s!"dev-{leafOf tag}", .image)
  | .seed name => (name, .seed)
  | other => (displayLabel other, .image)

-- The derived order of `NodeId`: the variants in their order, then what they carry.
def rank : NodeId → Nat ×ₗ String
  | .image tag => toLex (0, tag)
  | .seed name => toLex (1, name)
  | .namespace name => toLex (2, name)
  | .nodeLabel key => toLex (3, key)
  | .runIdentity => toLex (4, "")
  | .buildkit => toLex (5, "")
  | .observability => toLex (6, "")
  | .metricsApi => toLex (7, "")

theorem rank_injective : Function.Injective rank := by
  intro x y h
  cases x <;> cases y <;> simp_all [rank]

instance : LinearOrder NodeId := LinearOrder.lift' rank rank_injective

inductive TransferEvent where
  | state (id : NodeId) (st : NodeState)
  | progress (id : NodeId) (progress : Progress)
  deriving DecidableEq

structure TrackedRow where
  label : String
  kind : TransferKind
  state : TransferState

structure TransferRow where
  label : String
  kind : TransferKind
  progress : TransferProgress

-- `TransferRegistry`, a map in the order of the nodes.
abbrev Registry := List (NodeId × TrackedRow)

namespace Registry

def newRow (id : NodeId) : TrackedRow := ⟨(describeNode id).1, (describeNode id).2, .new "acquiring"⟩

def apply (r : Registry) (ev : TransferEvent) (stamp : Nat) : Registry :=
  match ev with
  | .state id .acquiring => Entries.orInsert id (newRow id) r
  | .state id .ready => Entries.erase id r
  | .state id (.failed detail) => Entries.modify id (fun row => { row with state := row.state.fail detail }) r
  | .state _ .pending => r
  | .state _ .blocked => r
  | .progress id progress => Entries.modify id (fun row => { row with state := row.state.apply progress stamp }) r

def snapshot (r : Registry) : List TransferRow := r.map fun e => ⟨e.2.label, e.2.kind, e.2.state.progress⟩

-- The registry after the events that came, each with the moment at which it was taken off the channel.
def after (events : List (TransferEvent × Nat)) : Registry := events.foldl (fun r e => r.apply e.1 e.2) []

end Registry

/--
What `provision_with_tracker` paints: once for each event that comes while the graph is provisioned, and once more when
that is over and the stragglers were taken off the channel.
-/
def painted (events stragglers : List (TransferEvent × Nat)) : List (List TransferRow) :=
  ((List.range events.length).map fun n => (Registry.after (events.take (n + 1))).snapshot) ++
    [(Registry.after (events ++ stragglers)).snapshot]

section Rows

variable {x : NodeId} {r : Registry} {events : List (TransferEvent × Nat)}

def TransferEvent.id : TransferEvent → NodeId
  | .state id _ => id
  | .progress id _ => id

-- What an event does to the row of its own node.
def stepRow (row : Option TrackedRow) (e : TransferEvent × Nat) : Option TrackedRow :=
  match e.1 with
  | .state id .acquiring => some (row.getD (Registry.newRow id))
  | .state _ .ready => none
  | .state _ (.failed detail) => row.map fun row => { row with state := row.state.fail detail }
  | .state _ .pending => row
  | .state _ .blocked => row
  | .progress _ progress => row.map fun row => { row with state := row.state.apply progress e.2 }

theorem Registry.sorted_apply (h : Entries.Sorted r) (ev : TransferEvent) (stamp : Nat)
    : Entries.Sorted (r.apply ev stamp) := by
  cases ev with
  | state id st =>
    cases st with
    | pending => exact h
    | acquiring => exact h.orInsert id _
    | ready => exact h.erase id
    | failed detail =>
      rw [Registry.apply]
      exact h.modify id _
    | blocked => exact h
  | progress id progress =>
    rw [Registry.apply]
    exact h.modify id _

theorem Registry.get_apply (h : Entries.Sorted r) (x : NodeId) (ev : TransferEvent) (stamp : Nat)
    : Entries.get x (r.apply ev stamp) = if ev.id = x then stepRow (Entries.get x r) (ev, stamp) else Entries.get x r := by
  cases ev with
  | state id st =>
    cases st with
    | pending => simp [Registry.apply, stepRow]
    | acquiring =>
      rw [Registry.apply, Entries.get_orInsert h]
      by_cases hx : x = id
      . simp [TransferEvent.id, stepRow, hx]
      . simp [TransferEvent.id, hx, Ne.symm hx]
    | ready =>
      rw [Registry.apply, Entries.get_erase]
      by_cases hx : x = id
      . simp [TransferEvent.id, stepRow, hx]
      . simp [TransferEvent.id, hx, Ne.symm hx]
    | failed detail =>
      rw [Registry.apply, Entries.get_modify]
      by_cases hx : x = id
      . simp [TransferEvent.id, stepRow, hx]
      . simp [TransferEvent.id, hx, Ne.symm hx]
    | blocked => simp [Registry.apply, stepRow]
  | progress id progress =>
    rw [Registry.apply, Entries.get_modify]
    by_cases hx : x = id
    . simp [TransferEvent.id, stepRow, hx]
    . simp [TransferEvent.id, hx, Ne.symm hx]

theorem Registry.after_append (l k : List (TransferEvent × Nat))
    : Registry.after (l ++ k) = k.foldl (fun r e => r.apply e.1 e.2) (Registry.after l) :=
  List.foldl_append

theorem Registry.sorted_after (events : List (TransferEvent × Nat)) : Entries.Sorted (Registry.after events) := by
  induction events using List.reverseRecOn with
  | nil => exact List.Pairwise.nil
  | append_singleton l e ih =>
    rw [Registry.after_append]
    exact sorted_apply ih e.1 e.2

theorem Registry.get_after_concat (x : NodeId) (l : List (TransferEvent × Nat)) (e : TransferEvent × Nat)
    : Entries.get x (Registry.after (l ++ [e])) =
        if e.1.id = x then stepRow (Entries.get x (Registry.after l)) e else Entries.get x (Registry.after l) := by
  rw [Registry.after_append]
  exact get_apply (sorted_after l) x e.1 e.2

-- The states that a node was reported in.
def reported (x : NodeId) (events : List (TransferEvent × Nat)) : List NodeState :=
  events.filterMap fun e => match e.1 with | .state id st => if id = x then some st else none | .progress _ _ => none

def stateAt (x : NodeId) (events : List (TransferEvent × Nat)) : NodeState :=
  ((reported x events).getLast?).getD .pending

def progressOf (x : NodeId) (e : TransferEvent × Nat) : Option (Progress × Nat) :=
  match e.1 with
  | .state _ _ => none
  | .progress id progress => if id = x then some (progress, e.2) else none

-- The reports of a node since it is being acquired.
def sinceStart (x : NodeId) (events : List (TransferEvent × Nat)) : List (Progress × Nat) :=
  (events.dropWhile fun e => e.1 ≠ .state x .acquiring).filterMap (progressOf x)

-- The byte reports since the row last showed a stage.
def byteRun (reports : List (Progress × Nat)) : List (Nat × UInt64) :=
  reports.foldl (fun run r => match r.1 with | .bytes done _ => run ++ [(r.2, done)] | _ => []) []

/--
What a row shows after the reports since its node is being acquired.
-/
def shows (reports : List (Progress × Nat)) : TransferProgress :=
  match reports.getLast? with
  | none => .stage "acquiring"
  | some (.note note, _) => .stage note
  | some (.finalizing, _) => .stage "finalizing"
  | some (.bytes done total, _) =>
    .bytes done total (((Window.new byteSampleInterval).pushes (byteRun reports)).pace
      (some (.ofRat (total.toNat - done.toNat : Nat))))

def TrackedRow.row (r : TrackedRow) : TransferRow := ⟨r.label, r.kind, r.state.progress⟩

def shown (x : NodeId) (st : NodeState) (reports : List (Progress × Nat)) : Option TransferRow :=
  match st with
  | .acquiring => some ⟨(describeNode x).1, (describeNode x).2, shows reports⟩
  | .failed detail => some ⟨(describeNode x).1, (describeNode x).2, .failed detail⟩
  | .pending => none
  | .ready => none
  | .blocked => none

theorem byteRun_concat (l : List (Progress × Nat)) (r : Progress × Nat)
    : byteRun (l ++ [r]) = match r.1 with | .bytes done _ => byteRun l ++ [(r.2, done)] | _ => [] :=
  List.foldl_append

-- The state of a row that is being acquired.
def tracked (reports : List (Progress × Nat)) : TransferState :=
  ⟨(Window.new byteSampleInterval).pushes (byteRun reports), shows reports⟩

theorem isFailed_tracked (l : List (Progress × Nat)) : (tracked l).isFailed = false := by
  unfold tracked TransferState.isFailed shows
  split
  . split at * <;> simp_all
  . rfl

theorem apply_tracked (l : List (Progress × Nat)) (r : Progress × Nat)
    : (tracked l).apply r.1 r.2 = tracked (l ++ [r]) := by
  obtain ⟨progress, stamp⟩ := r
  unfold TransferState.apply
  rw [if_neg (by simp [isFailed_tracked])]
  cases progress with
  | note note => simp [tracked, byteRun_concat, shows, Window.pushes]
  | finalizing => simp [tracked, byteRun_concat, shows, Window.pushes]
  | bytes done total => simp [tracked, byteRun_concat, shows, Window.pushes]

theorem reported_concat (x : NodeId) (l : List (TransferEvent × Nat)) (e : TransferEvent × Nat)
    : reported x (l ++ [e]) =
        reported x l ++ match e.1 with | .state id st => if id = x then [st] else [] | .progress _ _ => [] := by
  obtain ⟨ev, stamp⟩ := e
  cases ev with
  | state id st => by_cases h : id = x <;> simp [reported, h]
  | progress => simp [reported]

theorem acquiring_mem_reported {l : List (TransferEvent × Nat)}
    : NodeState.acquiring ∈ reported x l ↔ ∃ e ∈ l, e.1 = .state x .acquiring := by
  simp only [reported, List.mem_filterMap]
  constructor
  . rintro ⟨⟨ev, stamp⟩, he, h⟩
    cases ev with
    | state id st =>
      by_cases hid : id = x
      . simp [hid] at h
        exact ⟨_, he, by simp [hid, h]⟩
      . simp [hid] at h
    | progress => simp at h
  . rintro ⟨e, he, h⟩
    exact ⟨e, he, by simp [h]⟩

theorem sinceStart_concat {l : List (TransferEvent × Nat)} (h : NodeState.acquiring ∈ reported x l)
    (e : TransferEvent × Nat)
    : sinceStart x (l ++ [e]) = sinceStart x l ++ (progressOf x e).toList := by
  obtain ⟨start, hmem, hstart⟩ := acquiring_mem_reported.mp h
  have hne : l.dropWhile (fun e => decide (e.1 ≠ .state x .acquiring)) ≠ [] := by
    intro hnil
    have := List.dropWhile_eq_nil_iff.mp hnil start hmem
    simp [hstart] at this
  unfold sinceStart
  rw [List.dropWhile_append, if_neg (by simpa using hne), List.filterMap_append]
  cases hp : progressOf x e <;> simp [hp]

theorem sinceStart_start {l : List (TransferEvent × Nat)} (h : NodeState.acquiring ∉ reported x l) (stamp : Nat)
    : sinceStart x (l ++ [(.state x .acquiring, stamp)]) = [] := by
  have hnil : l.dropWhile (fun e => decide (e.1 ≠ .state x .acquiring)) = [] := by
    rw [List.dropWhile_eq_nil_iff]
    intro e he
    exact decide_eq_true fun heq => h (acquiring_mem_reported.mpr ⟨e, he, heq⟩)
  unfold sinceStart
  rw [List.dropWhile_append, hnil]
  simp [progressOf]

/--
The row of a node in a state, where it was reported in the states on the way there.
-/
def Tracks (x : NodeId) (st : NodeState) (reports : List (Progress × Nat)) (row : Option TrackedRow) : Prop :=
  match st with
  | .acquiring => row = some ⟨(describeNode x).1, (describeNode x).2, tracked reports⟩
  | .failed detail => ∃ state : TransferState, row = some ⟨(describeNode x).1, (describeNode x).2, state⟩ ∧
      state.progress = .failed detail
  | .pending => row = none
  | .ready => row = none
  | .blocked => row = none

theorem Tracks.progress {st : NodeState} {reports : List (Progress × Nat)} {row : Option TrackedRow}
    (h : Tracks x st reports row) (progress : Progress) (stamp : Nat)
    : Tracks x st (reports ++ [(progress, stamp)]) (stepRow row (.progress x progress, stamp)) := by
  cases st with
  | acquiring =>
    obtain rfl := h
    exact congrArg (fun state => some (TrackedRow.mk _ _ state)) (apply_tracked reports (progress, stamp))
  | failed detail =>
    obtain ⟨state, rfl, hstate⟩ := h
    have hfailed : state.isFailed = true := by simp [TransferState.isFailed, hstate]
    exact ⟨state, by simp [stepRow, TransferState.apply, hfailed], hstate⟩
  | pending =>
    obtain rfl := h
    rfl
  | ready =>
    obtain rfl := h
    rfl
  | blocked =>
    obtain rfl := h
    rfl

theorem Tracks.of_ne {st : NodeState} {reports reports' : List (Progress × Nat)} {row : Option TrackedRow}
    (h : Tracks x st reports row) (hreports : st = .acquiring → reports' = reports)
    : Tracks x st reports' row := by
  cases st with
  | acquiring =>
    rw [hreports rfl]
    exact h
  | failed => exact h
  | pending => exact h
  | ready => exact h
  | blocked => exact h

-- The last step on the way to a state.
inductive LastStep : NodeState → NodeState → Prop where
  | start : LastStep .pending .acquiring
  | block : LastStep .pending .blocked
  | ready : LastStep .acquiring .ready
  | fail (detail : String) : LastStep .acquiring (.failed detail)

theorem concat_eq_pair {α : Type} {l : List α} {a b c : α} (h : l ++ [c] = [a, b]) : l = [a] ∧ c = b := by
  have h : l ++ [c] = [a] ++ [b] := h
  simpa using List.append_inj' h rfl

theorem lastStep_of_path {l : List NodeState} {st st' : NodeState} (h : l ++ [st'] = st.path)
    : st = st' ∧ ∃ before, l = before.path ∧ LastStep before st' := by
  cases st with
  | pending => simp [NodeState.path] at h
  | acquiring =>
    obtain ⟨rfl, rfl⟩ : l = [] ∧ st' = .acquiring := by simpa [NodeState.path, List.append_eq_cons_iff] using h
    exact ⟨rfl, .pending, rfl, .start⟩
  | ready =>
    obtain ⟨rfl, rfl⟩ := concat_eq_pair h
    exact ⟨rfl, .acquiring, rfl, .ready⟩
  | failed detail =>
    obtain ⟨rfl, rfl⟩ := concat_eq_pair h
    exact ⟨rfl, .acquiring, rfl, .fail detail⟩
  | blocked =>
    obtain ⟨rfl, rfl⟩ : l = [] ∧ st' = .blocked := by simpa [NodeState.path, List.append_eq_cons_iff] using h
    exact ⟨rfl, .pending, rfl, .block⟩

theorem Tracks.state {st st' : NodeState} {reports reports' : List (Progress × Nat)} {row : Option TrackedRow}
    (h : Tracks x st reports row) (hstep : LastStep st st') (hstart : st' = .acquiring → reports' = []) (stamp : Nat)
    : Tracks x st' reports' (stepRow row (.state x st', stamp)) := by
  cases hstep with
  | start =>
    obtain rfl := h
    rw [hstart rfl]
    rfl
  | block =>
    obtain rfl := h
    rfl
  | ready => rfl
  | fail detail =>
    obtain rfl := h
    exact ⟨_, rfl, rfl⟩

theorem tracks (x : NodeId) (events : List (TransferEvent × Nat)) (st : NodeState) (h : reported x events = st.path)
    : Tracks x st (sinceStart x events) (Entries.get x (Registry.after events)) := by
  induction events using List.reverseRecOn generalizing st with
  | nil =>
    cases st <;> first | rfl | cases h
  | append_singleton l e ih =>
    obtain ⟨ev, stamp⟩ := e
    rw [Registry.get_after_concat]
    rw [reported_concat] at h
    by_cases hid : ev.id = x
    . rw [if_pos hid]
      cases ev with
      | progress id progress =>
        obtain rfl : id = x := hid
        rw [List.append_nil] at h
        have hrow := (ih st h).progress progress stamp
        apply hrow.of_ne
        rintro rfl
        rw [sinceStart_concat (by simp [h, NodeState.path])]
        simp [progressOf]
      | state id st' =>
        obtain rfl : id = x := hid
        change reported id l ++ (if id = id then [st'] else []) = st.path at h
        rw [if_pos rfl] at h
        obtain ⟨rfl, before, hbefore, hstep⟩ := lastStep_of_path h
        apply (ih before hbefore).state hstep
        rintro rfl
        cases hstep
        exact sinceStart_start (by simp [hbefore, NodeState.path]) stamp
    . rw [if_neg hid]
      have hother : (match ev with | .state id st => if id = x then [st] else [] | .progress _ _ => []) = [] := by
        cases ev with
        | state id st' => exact if_neg hid
        | progress => rfl
      rw [hother, List.append_nil] at h
      apply (ih st h).of_ne
      rintro rfl
      rw [sinceStart_concat (by simp [h, NodeState.path])]
      cases ev with
      | state => simp [progressOf]
      | progress id progress => simp [progressOf, show id ≠ x from hid]

end Rows

section Changes

open Resource.Provisioning (starts ends)

-- What a node was reported in, of the calls of `on_change`.
def reportsOf (x : NodeId) (changes : List (NodeId × NodeState)) : List NodeState :=
  (changes.filter (·.1 = x)).map (·.2)

def OnPath (changes : List (NodeId × NodeState)) : Prop := ∀ x, ∃ st : NodeState, reportsOf x changes = st.path

theorem starts_split (x : NodeId) (l : List (NodeId × NodeState))
    : starts l = starts (l.filter (·.1 = x)) + starts (l.filter (·.1 ≠ x)) := by
  have h := List.countP_eq_countP_filter_add l (fun c => decide (c.2 = .acquiring)) (fun c => decide (c.1 = x))
  simpa [starts] using h

theorem ends_split (x : NodeId) (l : List (NodeId × NodeState))
    : ends l = ends (l.filter (·.1 = x)) + ends (l.filter (·.1 ≠ x)) := by
  have h := List.countP_eq_countP_filter_add l (fun c => c.2.isTerminal && c.2 ≠ .blocked) (fun c => decide (c.1 = x))
  simpa [ends] using h

theorem starts_of_reports {x : NodeId} {l : List (NodeId × NodeState)}
    : starts (l.filter (·.1 = x)) = (reportsOf x l).count .acquiring := by
  rw [reportsOf, List.count, List.countP_map]
  rfl

theorem ends_of_reports {x : NodeId} {l : List (NodeId × NodeState)}
    : ends (l.filter (·.1 = x)) = (reportsOf x l).countP fun st => st.isTerminal && st ≠ .blocked := by
  rw [reportsOf, List.countP_map]
  rfl

theorem reportsOf_without_self (x : NodeId) (l : List (NodeId × NodeState))
    : reportsOf x (l.filter (·.1 ≠ x)) = [] := by
  simp [reportsOf]

theorem reportsOf_without_ne {x y : NodeId} (h : y ≠ x) (l : List (NodeId × NodeState))
    : reportsOf y (l.filter (·.1 ≠ x)) = reportsOf y l := by
  unfold reportsOf
  rw [List.filter_filter]
  congr 1
  apply List.filter_congr
  intro c _
  by_cases hc : c.1 = y
  . simp [hc, h]
  . simp [hc]

theorem OnPath.without {l : List (NodeId × NodeState)} (h : OnPath l) (x : NodeId) : OnPath (l.filter (·.1 ≠ x)) := by
  intro y
  by_cases hy : y = x
  . subst hy
    exact ⟨.pending, reportsOf_without_self y l⟩
  . rw [reportsOf_without_ne hy]
    exact h y

theorem length_without_lt {x : NodeId} {l : List (NodeId × NodeState)} (h : ∃ c ∈ l, c.1 = x)
    : (l.filter (·.1 ≠ x)).length < l.length := by
  obtain ⟨c, hc, hx⟩ := h
  apply List.length_filter_lt_length_iff_exists.mpr
  exact ⟨c, hc, by simp [hx]⟩

theorem ends_le_starts_of_path (st : NodeState)
    : (st.path.countP fun st => st.isTerminal && st ≠ .blocked) ≤ st.path.count .acquiring := by
  cases st <;> simp [NodeState.path, NodeState.isTerminal]

/--
Nodes that are being acquired have started and not ended.
-/
theorem OnPath.ends_add_le {l : List (NodeId × NodeState)} (h : OnPath l) {active : List NodeId}
    (hnodup : active.Nodup) (hactive : ∀ x ∈ active, reportsOf x l = NodeState.acquiring.path)
    : ends l + active.length ≤ starts l := by
  induction hn : l.length using Nat.strong_induction_on generalizing l active with
  | _ n ih =>
    cases active with
    | cons x rest =>
      obtain ⟨hx, hrest⟩ := List.nodup_cons.mp hnodup
      have hreports := hactive x List.mem_cons_self
      have hmem : ∃ c ∈ l, c.1 = x := by
        have hne : reportsOf x l ≠ [] := by simp [hreports, NodeState.path]
        obtain ⟨_, hst⟩ := List.exists_mem_of_ne_nil _ hne
        obtain ⟨c, hc, -⟩ := List.mem_map.mp hst
        exact ⟨c, (List.mem_filter.mp hc).1, by simpa using (List.mem_filter.mp hc).2⟩
      have hle := ih _ (hn ▸ length_without_lt hmem) (h.without x) hrest
        (fun y hy => by
          rw [reportsOf_without_ne (ne_of_mem_of_not_mem hy hx)]
          exact hactive y (List.mem_cons_of_mem x hy)) rfl
      have hstart : NodeState.acquiring.path.count .acquiring = 1 := by decide
      have hend : (NodeState.acquiring.path.countP fun st => st.isTerminal && st ≠ .blocked) = 0 := by decide
      rw [starts_split x l, ends_split x l, starts_of_reports, ends_of_reports, hreports, hstart, hend,
        List.length_cons]
      omega
    | nil =>
      cases l with
      | nil => simp [ends]
      | cons c l =>
        have hmem : ∃ d ∈ c :: l, d.1 = c.1 := ⟨c, List.mem_cons_self, rfl⟩
        have hle := ih _ (hn ▸ length_without_lt hmem) (h.without c.1) List.nodup_nil (by simp) rfl
        obtain ⟨st, hst⟩ := h c.1
        have hown := ends_le_starts_of_path st
        rw [starts_split c.1 (c :: l), ends_split c.1 (c :: l), starts_of_reports, ends_of_reports, hst]
        simp only [List.length_nil, Nat.add_zero] at hle ⊢
        omega

-- The calls of `on_change` among the events.
def stateChanges (events : List (TransferEvent × Nat)) : List (NodeId × NodeState) :=
  events.filterMap fun e => match e.1 with | .state id st => some (id, st) | .progress _ _ => none

theorem reported_eq (x : NodeId) (events : List (TransferEvent × Nat))
    : reported x events = reportsOf x (stateChanges events) := by
  unfold reported reportsOf stateChanges
  rw [List.filter_filterMap, List.map_filterMap]
  congr 1
  funext e
  obtain ⟨ev, stamp⟩ := e
  cases ev with
  | state id st => by_cases h : id = x <;> simp [h]
  | progress => rfl

theorem exists_path_of_isPrefix {l : List NodeState} {st : NodeState} (h : l <+: st.path)
    : ∃ st' : NodeState, l = st'.path := by
  rw [List.prefix_iff_eq_take] at h
  rw [h]
  generalize l.length = n
  match n with
  | 0 => exact ⟨.pending, rfl⟩
  | 1 =>
    cases st with
    | pending => exact ⟨.pending, rfl⟩
    | acquiring => exact ⟨.acquiring, rfl⟩
    | ready => exact ⟨.acquiring, rfl⟩
    | failed detail => exact ⟨.acquiring, rfl⟩
    | blocked => exact ⟨.blocked, rfl⟩
  | n + 2 =>
    refine ⟨st, List.take_of_length_le ?_⟩
    cases st <;> simp [NodeState.path]

theorem OnPath.of_isPrefix {l pre : List (NodeId × NodeState)} (h : OnPath l) (hpre : pre <+: l) : OnPath pre := by
  intro x
  obtain ⟨st, hst⟩ := h x
  refine @exists_path_of_isPrefix _ st ?_
  rw [← hst]
  exact (hpre.filter _).map _

theorem stateAt_of_path {x : NodeId} {events : List (TransferEvent × Nat)} {st : NodeState}
    (h : reported x events = st.path)
    : stateAt x events = st := by
  unfold stateAt
  rw [h]
  cases st <;> rfl

theorem path_stateAt {events : List (TransferEvent × Nat)} (h : OnPath (stateChanges events)) (x : NodeId)
    : reported x events = (stateAt x events).path := by
  obtain ⟨st, hst⟩ := h x
  rw [← reported_eq] at hst
  rw [hst, stateAt_of_path hst]

end Changes

section Column

variable {events : List (TransferEvent × Nat)}

theorem Tracks.row {x : NodeId} {st : NodeState} {reports : List (Progress × Nat)} {row : Option TrackedRow}
    (h : Tracks x st reports row)
    : row.map TrackedRow.row = shown x st reports := by
  cases st with
  | failed detail =>
    obtain ⟨state, rfl, hstate⟩ := h
    simp [TrackedRow.row, shown, hstate]
  | acquiring =>
    obtain rfl := h
    rfl
  | pending =>
    obtain rfl := h
    rfl
  | ready =>
    obtain rfl := h
    rfl
  | blocked =>
    obtain rfl := h
    rfl

/--
The column after some events: the rows of the nodes that are being acquired or have failed, in the order of the nodes.
-/
def Column (events : List (TransferEvent × Nat)) (column : List TransferRow) : Prop :=
  ∃ rows : List (NodeId × TransferRow), Entries.Sorted rows ∧ column = rows.map Prod.snd ∧
    ∀ x, Entries.get x rows = shown x (stateAt x events) (sinceStart x events)

theorem column_after (h : OnPath (stateChanges events)) : Column events (Registry.after events).snapshot := by
  refine ⟨(Registry.after events).map fun e => (e.1, e.2.row), (Registry.sorted_after events).map _, ?_, ?_⟩
  . rw [List.map_map]
    rfl
  . intro x
    rw [Entries.get_map]
    exact (tracks x events _ (path_stateAt h x)).row

theorem eq_of_acquiring (h : OnPath (stateChanges events)) {x y : NodeId}
    (hcap : Resource.Provisioning.starts (stateChanges events) ≤ Resource.Provisioning.ends (stateChanges events) + 1)
    (hx : stateAt x events = .acquiring) (hy : stateAt y events = .acquiring)
    : x = y := by
  by_contra hne
  have hle := @OnPath.ends_add_le _ h [x, y] (by simp [hne]) (by
    intro z hz
    rw [← reported_eq, path_stateAt h]
    rcases List.mem_pair.mp hz with rfl | rfl
    . rw [hx]
    . rw [hy])
  simp only [List.length_cons, List.length_nil] at hle
  omega

theorem stateChanges_of_isPrefix {pre : List (TransferEvent × Nat)} (h : pre <+: events)
    : stateChanges pre <+: stateChanges events :=
  h.filterMap _

theorem mem_painted {stragglers : List (TransferEvent × Nat)} {column : List TransferRow}
    (h : column ∈ painted events stragglers)
    : ∃ pre, pre <+: events ++ stragglers ∧ column = (Registry.after pre).snapshot := by
  rcases List.mem_append.mp h with h | h
  . obtain ⟨n, -, rfl⟩ := List.mem_map.mp h
    exact ⟨events.take (n + 1), (List.take_prefix _ _).trans (List.prefix_append _ _), rfl⟩
  . exact ⟨_, List.prefix_rfl, List.mem_singleton.mp h⟩

/--
While a graph is provisioned with one future at a time, and with the reports of the providers coming in between, every
column that is painted has the rows of the nodes that are being acquired or have failed by then. At most one of them is being
acquired. The last column has the failed nodes and no others.
-/
theorem painted_spec (g : Resource.Graph) (order : List NodeId) (horder : order.Perm g.nodes.keys)
    (hvalid : g.validate order = .ok (.ok ())) (pick : Nat → Nat) (s : Resource.Provisioning)
    (hs : g.provision 1 pick = some s) (events stragglers : List (TransferEvent × Nat))
    (hevents : stateChanges (events ++ stragglers) = s.changes)
    : (∀ column ∈ painted events stragglers, ∃ pre, pre <+: events ++ stragglers ∧ Column pre column ∧
        ∀ x y, stateAt x pre = .acquiring → stateAt y pre = .acquiring → x = y) ∧
      ∃ rows : List (NodeId × TransferRow), Entries.Sorted rows ∧
        (painted events stragglers).getLast? = some (rows.map Prod.snd) ∧
        ∀ x row, (x, row) ∈ rows ↔ ∃ detail, s.state.lookup x = some (.failed detail) ∧
          row = ⟨(describeNode x).1, (describeNode x).2, .failed detail⟩ := by
  have hexec := ((Resource.Graph.validate_ok_iff horder).mp hvalid).1
  obtain ⟨t, ht, hinv, hsettled⟩ := Resource.Graph.provision_ok hexec 1 pick
  obtain rfl : s = t := Option.some.inj (hs.symm.trans ht)
  have hpath : OnPath (stateChanges (events ++ stragglers)) := by
    intro x
    rw [hevents]
    cases hx : s.state.lookup x with
    | none => exact ⟨.pending, (hinv.states.reports x).trans (by rw [hx]; rfl)⟩
    | some st => exact ⟨st, (hinv.states.reports x).trans (by rw [hx]; rfl)⟩
  constructor
  . intro column hcolumn
    obtain ⟨pre, hpre, rfl⟩ := mem_painted hcolumn
    have hchanges := stateChanges_of_isPrefix hpre
    have honPath := hpath.of_isPrefix hchanges
    rw [hevents] at hchanges
    refine ⟨pre, hpre, column_after honPath, fun x y => eq_of_acquiring honPath ?_⟩
    exact hinv.futures.capped _ hchanges
  . obtain ⟨rows, hsorted, hsnapshot, hrows⟩ := column_after hpath
    refine ⟨rows, hsorted, ?_, ?_⟩
    . rw [painted, List.getLast?_concat, hsnapshot]
    . intro x row
      rw [← Entries.get_eq_some_iff hsorted, hrows]
      have hstate : stateAt x (events ++ stragglers) = (s.state.lookup x).getD .pending := by
        apply stateAt_of_path
        rw [reported_eq, hevents]
        refine (hinv.states.reports x).trans ?_
        cases s.state.lookup x <;> rfl
      rw [hstate]
      cases hx : s.state.lookup x with
      | none => simp [shown]
      | some st =>
        obtain ⟨st', hst', hterminal⟩ := hsettled x ((hinv.states.known x).mp (by simp [hx]))
        obtain rfl : st = st' := Option.some.inj (hx.symm.trans hst')
        cases st with
        | pending => cases hterminal
        | acquiring => cases hterminal
        | ready => simp [shown]
        | failed detail => simp [shown, eq_comm]
        | blocked => simp [shown]

-- Two nodes become ready one after the other, the first one reports in between.
def pairEvents : List (TransferEvent × Nat) :=
  [(.state .runIdentity .acquiring, 0), (.progress .runIdentity .finalizing, 1), (.state .runIdentity .ready, 2),
    (.state .buildkit .acquiring, 3), (.state .buildkit .ready, 4)]

theorem painted_pair
    : ∃ rows : List (NodeId × TransferRow), Entries.Sorted rows ∧
        (painted pairEvents []).getLast? = some (rows.map Prod.snd) := by
  have horder : [NodeId.runIdentity, .buildkit].Perm (Resource.Graph.pair [.runIdentity]).nodes.keys := by decide
  have hvalid : (Resource.Graph.pair [.runIdentity]).validate [.runIdentity, .buildkit] = .ok (.ok ()) := by rfl
  have hchanges : ((Resource.Graph.pair [.runIdentity]).provision 1 id).map (·.changes) =
      some (stateChanges (pairEvents ++ [])) := by rfl
  obtain ⟨s, hs, heq⟩ := Option.map_eq_some_iff.mp hchanges
  obtain ⟨-, rows, hsorted, hlast, -⟩ := painted_spec _ _ horder hvalid id s hs pairEvents [] heq.symm
  exact ⟨rows, hsorted, hlast⟩

end Column

end Transfers
end Ui
