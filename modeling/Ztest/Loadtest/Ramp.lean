import Ztest.Loadtest.Measure
import Mathlib.Data.List.Basic

/-!
This module contains the load ramp of `loadtest/load.rs`: how a level is judged, the fleet of wallets and the
stair-step of levels up to the first one that breaks the SLO.
-/

namespace Loadtest
namespace Ramp

section Judge

inductive Scenario where
  | incremental
  | fresh
  deriving DecidableEq

structure Level where
  scenario : Scenario
  wallets : Nat
  connected : Nat
  window : Nat
  methods : List MethodWindow
  p99 : Option Nat
  offered : Option Binary64
  serverSlow : Option (List (Method × Nat))
  clientBusy : Option Binary64
  clientBusiestBurst : Option Binary64
  throttled : Option Binary64

structure Slo where
  p99 : Nat
  errors : Binary64
  goodput : Binary64

inductive Breach where
  | clientBound
  | errors (rate : Binary64)
  | nothingAnswered
  | latency (method : Method) (p99 : Nat) (server : Option Binary64)
  | goodput (share : Binary64)

def throttledLimit : Binary64 := .ofRat (5 / 100)

def saturatedLimit : Binary64 := .ofRat (7 / 10)

def tail : Binary64 := .ofRat (1 / 100)

namespace Level

def clientBound (l : Level) : Bool :=
  l.throttled.any throttledLimit.lt || l.clientBusy.any saturatedLimit.lt || l.clientBusiestBurst.any saturatedLimit.lt

def atMostOne (x : Binary64) : Binary64 := if x = .nan ∨ Binary64.lt (.finite 1) x then .finite 1 else x

def serverShareSlow (l : Level) (m : MethodWindow) : Option Binary64 :=
  (l.serverSlow.bind (·.lookup m.method)).map fun slow =>
    atMostOne ((Binary64.ofRat slow).divide (.ofRat (max m.latency.count 1 : Nat)))

def failures (l : Level) : Nat := (l.methods.flatMap fun m => m.failed.map Prod.snd).sum

def errorRate (l : Level) : Binary64 :=
  (Binary64.ofRat l.failures).divide (.ofRat (max ((l.methods.map (·.ok)).sum + l.failures) 1 : Nat))

def goodput (l : Level) : Option Binary64 :=
  (l.methods.find? fun m => m.method = .getBlockRange).bind fun range =>
    (l.offered.filter fun offered => Binary64.lt (.finite 0) offered).map fun offered =>
      ((Binary64.ofRat range.bytes).divide (.ofNanos l.window)).divide offered

end Level

namespace Slo

-- The loop over the methods: the breach it returns, or whether a slow one was voided.
def judge (slo : Slo) (level : Level) : List MethodWindow → Bool → Breach ⊕ Bool
  | [], voided => .inr voided
  | m :: rest, voided =>
    if m.method = .connect ∨ m.latency.count = 0 ∨ m.latency.p99 ≤ slo.p99 then
      judge slo level rest voided
    else if !level.clientBound ∨ (level.serverShareSlow m).any tail.lt then
      .inl (.latency m.method m.latency.p99 (level.serverShareSlow m))
    else
      judge slo level rest true

def breach (slo : Slo) (level : Level) : Option Breach :=
  if slo.errors.lt level.errorRate then some (.errors level.errorRate)
  else if level.p99 = none then some .nothingAnswered
  else
    match slo.judge level level.methods false with
    | .inl breach => some breach
    | .inr voided =>
      match level.goodput.filter (·.lt slo.goodput) with
      | some share => if !level.clientBound then some (.goodput share) else some .clientBound
      | none => if voided then some .clientBound else none

-- A method with answers whose p99 is past the SLO, and one that is not the driver's to answer for.
def Slow (slo : Slo) (m : MethodWindow) : Prop := m.method ≠ .connect ∧ m.latency.count ≠ 0 ∧ slo.p99 < m.latency.p99

def Blamed (level : Level) (m : MethodWindow) : Prop :=
  level.clientBound = false ∨ (level.serverShareSlow m).any tail.lt = true

def Short (slo : Slo) (level : Level) : Prop := ∃ share, level.goodput = some share ∧ share.lt slo.goodput = true

/--
The level holds the SLO.
-/
structure Served (slo : Slo) (level : Level) : Prop where
  errors : slo.errors.lt level.errorRate = false
  answered : level.p99 ≠ none
  latency m : m ∈ level.methods → ¬slo.Slow m
  goodput : ¬slo.Short level

variable {slo : Slo} {level : Level}

theorem judge_cons_of_not_slow {m : MethodWindow} (h : ¬slo.Slow m) (rest : List MethodWindow) (voided : Bool)
    : slo.judge level (m :: rest) voided = slo.judge level rest voided := by
  rw [judge, if_pos]
  unfold Slow at h
  grind

theorem judge_cons_of_blamed {m : MethodWindow} (h : slo.Slow m) (hblamed : Blamed level m)
    (rest : List MethodWindow) (voided : Bool)
    : slo.judge level (m :: rest) voided = .inl (.latency m.method m.latency.p99 (level.serverShareSlow m)) := by
  rw [judge, if_neg, if_pos]
  . simpa [Blamed] using hblamed
  . unfold Slow at h
    grind

theorem judge_cons_of_voided {m : MethodWindow} (h : slo.Slow m) (hblamed : ¬Blamed level m)
    (rest : List MethodWindow) (voided : Bool)
    : slo.judge level (m :: rest) voided = slo.judge level rest true := by
  rw [judge, if_neg, if_neg]
  . simpa [Blamed] using hblamed
  . unfold Slow at h
    grind

-- The first slow method that is not voided.
def FirstBlamed (slo : Slo) (level : Level) (methods : List MethodWindow) (m : MethodWindow) : Prop :=
  ∃ before after, methods = before ++ m :: after ∧ slo.Slow m ∧ Blamed level m ∧
    ∀ x ∈ before, slo.Slow x → ¬Blamed level x

theorem FirstBlamed.cons {m x : MethodWindow} {methods : List MethodWindow} (h : slo.FirstBlamed level methods m)
    (hx : slo.Slow x → ¬Blamed level x)
    : slo.FirstBlamed level (x :: methods) m := by
  rcases h with ⟨before, after, rfl, hslow, hblamed, hbefore⟩
  refine ⟨x :: before, after, rfl, hslow, hblamed, ?_⟩
  intro y hy
  rcases List.mem_cons.mp hy with rfl | hy
  . exact hx
  . exact hbefore y hy

/--
The loop stops at the first slow method that is not voided. Where there is none it tells whether one was slow.
-/
theorem judge_spec (methods : List MethodWindow) (voided : Bool)
    : (∃ m, slo.FirstBlamed level methods m ∧
        slo.judge level methods voided = .inl (.latency m.method m.latency.p99 (level.serverShareSlow m))) ∨
      (∀ m ∈ methods, slo.Slow m → ¬Blamed level m) ∧
        ∃ slow, slo.judge level methods voided = .inr slow ∧
          (slow = true ↔ voided = true ∨ ∃ m ∈ methods, slo.Slow m) := by
  induction methods generalizing voided with
  | nil => exact .inr ⟨by simp, voided, rfl, by simp⟩
  | cons x methods ih =>
    by_cases hslow : slo.Slow x
    . by_cases hblamed : Blamed level x
      . exact .inl ⟨x, ⟨[], methods, rfl, hslow, hblamed, by simp⟩, judge_cons_of_blamed hslow hblamed _ _⟩
      . rw [judge_cons_of_voided hslow hblamed]
        rcases ih true with ⟨m, hfirst, heq⟩ | ⟨hnone, slow, heq, hvoided⟩
        . exact .inl ⟨m, hfirst.cons fun _ => hblamed, heq⟩
        . refine .inr ⟨List.forall_mem_cons.mpr ⟨fun _ => hblamed, hnone⟩, slow, heq, ?_⟩
          simp [hvoided, hslow]
    . rw [judge_cons_of_not_slow hslow]
      rcases ih voided with ⟨m, hfirst, heq⟩ | ⟨hnone, slow, heq, hvoided⟩
      . exact .inl ⟨m, hfirst.cons fun h => absurd h hslow, heq⟩
      . refine .inr ⟨List.forall_mem_cons.mpr ⟨fun h => absurd h hslow, hnone⟩, slow, heq, ?_⟩
        simp [hvoided, hslow]

theorem FirstBlamed.mem {methods : List MethodWindow} {m : MethodWindow} (h : slo.FirstBlamed level methods m)
    : m ∈ methods ∧ slo.Slow m ∧ Blamed level m := by
  rcases h with ⟨before, after, rfl, hslow, hblamed, -⟩
  exact ⟨by simp, hslow, hblamed⟩

theorem not_short_iff : level.goodput.filter (·.lt slo.goodput) = none ↔ ¬slo.Short level := by
  unfold Short
  cases level.goodput <;> simp [Option.filter]

inductive Tells (slo : Slo) (level : Level) : Option Breach → Prop where
  | errors (h : slo.errors.lt level.errorRate = true) : Tells slo level (some (.errors level.errorRate))
  | nothingAnswered (herrors : slo.errors.lt level.errorRate = false) (h : level.p99 = none)
    : Tells slo level (some .nothingAnswered)
  | latency {m : MethodWindow} (herrors : slo.errors.lt level.errorRate = false) (hanswered : level.p99 ≠ none)
    (h : slo.FirstBlamed level level.methods m)
    : Tells slo level (some (.latency m.method m.latency.p99 (level.serverShareSlow m)))
  | goodput {share : Binary64} (herrors : slo.errors.lt level.errorRate = false) (hanswered : level.p99 ≠ none)
    (hvoided : ∀ m ∈ level.methods, slo.Slow m → ¬Blamed level m) (hgoodput : level.goodput = some share)
    (hshort : share.lt slo.goodput = true) (h : level.clientBound = false)
    : Tells slo level (some (.goodput share))
  | clientBound (herrors : slo.errors.lt level.errorRate = false) (hanswered : level.p99 ≠ none)
    (hvoided : ∀ m ∈ level.methods, slo.Slow m → ¬Blamed level m)
    (h : (∃ m ∈ level.methods, slo.Slow m) ∨ slo.Short level) (hbound : level.clientBound = true)
    : Tells slo level (some .clientBound)
  | served (h : slo.Served level) : Tells slo level none

theorem tells (slo : Slo) (level : Level) : slo.Tells level (slo.breach level) := by
  unfold breach
  cases herrors : slo.errors.lt level.errorRate with
  | true => exact .errors herrors
  | false =>
    by_cases hp99 : level.p99 = none
    . simpa [hp99] using .nothingAnswered herrors hp99
    . simp only [hp99, Bool.false_eq_true, if_false]
      rcases @judge_spec slo level level.methods false with ⟨m, hfirst, heq⟩ | ⟨hvoided, slow, heq, hslow⟩
      . rw [heq]
        exact .latency herrors hp99 hfirst
      . rw [heq]
        cases hshort : level.goodput.filter (·.lt slo.goodput) with
        | some share =>
          obtain ⟨hgoodput, hlt⟩ := Option.filter_eq_some_iff.mp hshort
          cases hbound : level.clientBound with
          | false => exact .goodput herrors hp99 hvoided hgoodput hlt hbound
          | true => exact .clientBound herrors hp99 hvoided (.inr ⟨share, hgoodput, hlt⟩) hbound
        | none =>
          have hnot : ¬slo.Short level := not_short_iff.mp hshort
          cases hs : slow with
          | false =>
            refine .served ⟨herrors, hp99, ?_, hnot⟩
            intro m hm hmslow
            have := hslow.mpr (.inr ⟨m, hm, hmslow⟩)
            rw [hs] at this
            cases this
          | true =>
            rcases hslow.mp hs with h | ⟨m, hm, hmslow⟩
            . cases h
            . apply Tells.clientBound herrors hp99 hvoided (.inl ⟨m, hm, hmslow⟩)
              have := hvoided m hm hmslow
              simp only [Blamed, not_or, Bool.not_eq_false] at this
              exact this.1

theorem Tells.eq_none_iff {b : Option Breach} (h : slo.Tells level b) : b = none ↔ slo.Served level := by
  constructor
  . rintro rfl
    cases h with
    | served hserved => exact hserved
  . intro hserved
    cases h with
    | errors herrors => simp [hserved.errors] at herrors
    | nothingAnswered _ hp99 => exact absurd hp99 hserved.answered
    | latency _ _ hfirst => exact absurd hfirst.mem.2.1 (hserved.latency _ hfirst.mem.1)
    | goodput _ _ _ hgoodput hshort => exact absurd ⟨_, hgoodput, hshort⟩ hserved.goodput
    | clientBound _ _ _ hwhy =>
      rcases hwhy with ⟨m, hm, hslow⟩ | hshort
      . exact absurd hslow (hserved.latency m hm)
      . exact absurd hshort hserved.goodput
    | served => rfl

-- What a level falls short of, where no slow method of it is the server's.
def Voided (slo : Slo) (level : Level) : Prop :=
  slo.errors.lt level.errorRate = false ∧ level.p99 ≠ none ∧ (∀ m ∈ level.methods, slo.Slow m → ¬Blamed level m) ∧
    ((∃ m ∈ level.methods, slo.Slow m) ∨ slo.Short level)

theorem Tells.eq_clientBound_iff {b : Option Breach} (h : slo.Tells level b)
    : b = some .clientBound ↔ slo.Voided level ∧ level.clientBound = true := by
  constructor
  . rintro rfl
    cases h with
    | clientBound herrors hanswered hvoided hwhy hbound => exact ⟨⟨herrors, hanswered, hvoided, hwhy⟩, hbound⟩
  . rintro ⟨⟨herrors, hanswered, hvoided, hwhy⟩, hbound⟩
    cases h with
    | errors h => simp [herrors] at h
    | nothingAnswered _ hp99 => exact absurd hp99 hanswered
    | latency _ _ hfirst => exact absurd hfirst.mem.2.2 (hvoided _ hfirst.mem.1 hfirst.mem.2.1)
    | goodput _ _ _ _ _ hfree => simp [hbound] at hfree
    | clientBound => rfl
    | served hserved =>
      rcases hwhy with ⟨m, hm, hslow⟩ | hshort
      . exact absurd hslow (hserved.latency m hm)
      . exact absurd hshort hserved.goodput

/--
A level holds exactly where it serves what the SLO asks for. One that falls short under a saturated driver is told to be
the driver's, unless the clock of the server alone breaks the SLO.
-/
theorem breach_spec (slo : Slo) (level : Level)
    : (slo.breach level = none ↔ slo.Served level) ∧
      (slo.breach level = some .clientBound ↔ slo.Voided level ∧ level.clientBound = true) ∧
      (∀ method p99 server, slo.breach level = some (.latency method p99 server) →
        ∃ m, slo.FirstBlamed level level.methods m ∧ method = m.method ∧ p99 = m.latency.p99 ∧
          server = level.serverShareSlow m) ∧
      ∀ share, slo.breach level = some (.goodput share) → slo.Voided level ∧ level.clientBound = false := by
  have htells := slo.tells level
  refine ⟨htells.eq_none_iff, htells.eq_clientBound_iff, ?latency, ?goodput⟩
  case latency =>
    intro method p99 server h
    rw [h] at htells
    cases htells with
    | latency _ _ hfirst => exact ⟨_, hfirst, rfl, rfl, rfl⟩
  case goodput =>
    intro share h
    rw [h] at htells
    cases htells with
    | goodput herrors hanswered hvoided hgoodput hshort hfree =>
      exact ⟨⟨herrors, hanswered, hvoided, .inr ⟨_, hgoodput, hshort⟩⟩, hfree⟩

end Slo
end Judge

section Climb

-- `usize` counts of wallets.
structure Stair where
  scenario : Scenario
  start : Nat
  growth : Binary64
  ceiling : Nat

def Stair.next (r : Stair) (wallets : Nat) : Nat :=
  min (max ((Binary64.ofRat wallets).mul r.growth).ceilToUsize (wallets + 1)) r.ceiling

inductive Session where
  | coordinator
  | steady (id : Nat) (mobile : Bool)
  | pepperSync (id : Nat)
  | librustzcash (id : Nat)

structure Plan where
  slo : Slo
  pace : Option Nat
  mobileEvery : Nat
  librustzcashEvery : Nat

/--
The sessions spawned, each with its token; the coordinator has that of the fleet. The tokens of the wallets are
in the order of their ids.
-/
structure Fleet where
  scenario : Scenario
  mobileEvery : Nat
  librustzcashEvery : Nat
  measure : Measure
  sessions : List (Session × Option Nat)
  wallets : List Nat
  cancelled : List Nat

namespace Fleet

def new (plan : Plan) (scenario : Scenario) : Fleet where
  scenario := scenario
  mobileEvery := max plan.mobileEvery 1
  librustzcashEvery := max plan.librustzcashEvery 1
  measure := .default
  sessions := if scenario = .incremental then [(.coordinator, none)] else []
  wallets := []
  cancelled := []

def session (f : Fleet) (id : Nat) : Session :=
  match f.scenario with
  | .incremental => .steady id (id % f.mobileEvery = 0)
  | .fresh => if id % f.librustzcashEvery = f.librustzcashEvery - 1 then .librustzcash id else .pepperSync id

-- One turn of the loop of `grow_to`, with a new token.
def growOnce (f : Fleet) : Fleet :=
  { f with
    sessions := f.sessions ++ [(f.session f.wallets.length, some f.sessions.length)]
    wallets := f.wallets ++ [f.sessions.length] }

def grow (f : Fleet) : Nat → Fleet
  | 0 => f
  | n + 1 => f.growOnce.grow n

def growTo (f : Fleet) (wallets : Nat) : Fleet := f.grow (wallets - f.wallets.length)

def shrinkTo (f : Fleet) (wallets : Nat) : Fleet :=
  { f with wallets := f.wallets.take wallets, cancelled := f.cancelled ++ f.wallets.drop wallets }

-- The sessions that are not told to stop.
def live (f : Fleet) : List Session :=
  (f.sessions.filter fun s => s.2.all (· ∉ f.cancelled)).map Prod.fst

end Fleet

/--
What comes of one level: the samples while it settles, those of its window and those after that, and the readings
at the edges of the window.
-/
structure Watched where
  settling : List Sample
  window : List Sample
  late : List Sample
  elapsed : Nat
  connected : Nat
  slowBefore : Option (List (Method × Nat))
  slowAfter : Option (List (Method × Nat))
  clientBusy : Option Binary64
  throttled : Option Binary64

structure ScenarioReport where
  ramp : Stair
  levels : List Level
  stopped : Option Breach
  capacity : Option Nat
  soak : Option Level
  soakBreach : Option Breach

variable (quantile : Quantile) (plan : Plan)

def measured (f : Fleet) (w : Watched) : Fleet :=
  { f with measure := (((f.measure.samples w.settling).open.samples w.window).close.samples w.late) }

def slowSince (before after : List (Method × Nat)) : List (Method × Nat) :=
  after.map fun x => (x.1, x.2 - (before.lookup x.1).getD 0)

def offered (scenario : Scenario) (connected : Nat) : Option Binary64 :=
  match scenario, plan.pace with
  | .fresh, some pace => some ((Binary64.ofRat connected).mul (.ofRat pace))
  | _, _ => none

def level (f : Fleet) (w : Watched) : Level where
  scenario := f.scenario
  wallets := f.wallets.length
  connected := w.connected
  window := w.elapsed
  methods := f.measure.windows quantile
  p99 := f.measure.p99 quantile
  offered := offered plan f.scenario w.connected
  serverSlow := w.slowBefore.bind fun before => w.slowAfter.map fun after => slowSince before after
  clientBusy := w.clientBusy
  clientBusiestBurst := f.measure.busiest
  throttled := w.throttled

-- `fleets` are those that the levels ran with, as they were grown; `fleet` is the last one, measured.
structure Climb where
  levels : List Level
  stopped : Option Breach
  fleet : Fleet
  fleets : List Fleet

theorem lt_next {r : Stair} {wallets : Nat} (h : wallets < r.ceiling) : wallets < r.next wallets := by
  unfold Stair.next
  omega

-- The loop of `Engine::ramp`. What level `n` meets is `world n`.
def climb (r : Stair) (world : Nat → Watched) (n : Nat) (fleet : Fleet) (wallets : Nat) : Climb :=
  let grown := fleet.growTo wallets
  let fleet := measured grown (world n)
  let here := level quantile plan fleet (world n)
  let breach := plan.slo.breach here
  if h : breach.isSome ∨ r.ceiling ≤ wallets then
    ⟨[here], breach, fleet, [grown]⟩
  else
    have : r.ceiling - r.next wallets < r.ceiling - wallets := by
      have := lt_next (Nat.lt_of_not_le (not_or.mp h).2)
      omega
    let above := climb r world (n + 1) fleet (r.next wallets)
    { above with levels := here :: above.levels, fleets := grown :: above.fleets }
  termination_by r.ceiling - wallets

def capacity (c : Climb) : Option Nat :=
  (c.levels.reverse[if c.stopped.isSome then 1 else 0]?).map (·.wallets)

-- The fleet of the soak.
def soaking (c : Climb) (world : Nat → Watched) (wallets : Nat) : Fleet :=
  measured (c.fleet.shrinkTo wallets) (world c.levels.length)

def ascent (r : Stair) (world : Nat → Watched) : Climb :=
  climb quantile plan r world 0 (.new plan r.scenario) (min r.start r.ceiling)

def ramp (r : Stair) (world : Nat → Watched) : ScenarioReport :=
  let c := ascent quantile plan r world
  let soak := (capacity c).map fun wallets => level quantile plan (soaking c world wallets) (world c.levels.length)
  { ramp := r
    levels := c.levels
    stopped := c.stopped
    capacity := capacity c
    soak
    soakBreach := soak.bind plan.slo.breach }

theorem next_le (r : Stair) (wallets : Nat) : r.next wallets ≤ r.ceiling :=
  Nat.min_le_right _ _

section Staffed

-- The sessions that `wallets` wallets are.
def roster (scenario : Scenario) (wallets : Nat) : List Session :=
  (if scenario = .incremental then [.coordinator] else []) ++
    (List.range wallets).map (Fleet.new plan scenario).session

namespace Fleet

/--
What a new fleet has grown to.
-/
structure Grown (plan : Plan) (scenario : Scenario) (wallets : Nat) (f : Fleet) : Prop where
  session : f.session = (new plan scenario).session
  sessions : f.sessions = (new plan scenario).sessions ++
    (List.range wallets).map fun id =>
      ((new plan scenario).session id, some ((new plan scenario).sessions.length + id))
  wallets : f.wallets = (List.range wallets).map ((new plan scenario).sessions.length + ·)
  cancelled : f.cancelled = []

variable {plan : Plan} {scenario : Scenario} {wallets : Nat} {f : Fleet}

theorem grown_new : Grown plan scenario 0 (new plan scenario) where
  session := rfl
  sessions := (List.append_nil _).symm
  wallets := rfl
  cancelled := rfl

theorem Grown.length_wallets (h : Grown plan scenario wallets f) : f.wallets.length = wallets := by
  rw [h.wallets, List.length_map, List.length_range]

theorem Grown.growOnce (h : Grown plan scenario wallets f) : Grown plan scenario (wallets + 1) f.growOnce where
  session := h.session
  sessions := by
    simp [Fleet.growOnce, h.sessions, h.length_wallets, h.session, List.range_succ]
  wallets := by
    simp [Fleet.growOnce, h.sessions, h.wallets, List.range_succ]
  cancelled := h.cancelled

theorem Grown.grow (h : Grown plan scenario wallets f) (n : Nat) : Grown plan scenario (wallets + n) (f.grow n) := by
  induction n generalizing wallets f with
  | zero => exact h
  | succ n ih =>
    rw [← Nat.succ_add_eq_add_succ]
    exact ih h.growOnce

theorem Grown.growTo (h : Grown plan scenario wallets f) {more : Nat} (hle : wallets ≤ more)
    : Grown plan scenario more (f.growTo more) := by
  have hgrow := h.grow (more - wallets)
  rw [Nat.add_sub_cancel' hle] at hgrow
  rw [Fleet.growTo, h.length_wallets]
  exact hgrow

theorem Grown.measured (h : Grown plan scenario wallets f) (w : Watched) : Grown plan scenario wallets (measured f w) :=
  ⟨h.session, h.sessions, h.wallets, h.cancelled⟩

theorem map_fst_new : (new plan scenario).sessions.map Prod.fst = if scenario = .incremental then [.coordinator] else [] := by
  unfold new
  dsimp only
  split <;> rfl

theorem Grown.live (h : Grown plan scenario wallets f) : f.live = roster plan scenario wallets := by
  simp [Fleet.live, h.cancelled, h.sessions, roster, map_fst_new]

/--
The first wallets stay, and those above them are told to stop.
-/
theorem Grown.shrinkTo (h : Grown plan scenario wallets f) {fewer : Nat} (hle : fewer ≤ wallets)
    : (f.shrinkTo fewer).live = roster plan scenario fewer ∧ (f.shrinkTo fewer).wallets.length = fewer := by
  obtain ⟨gone, rfl⟩ := Nat.exists_eq_add_of_le hle
  have hcancelled : (f.shrinkTo fewer).cancelled =
      (List.range gone).map fun k => (new plan scenario).sessions.length + (fewer + k) := by
    simp [Fleet.shrinkTo, h.cancelled, h.wallets, List.range_add, Nat.add_assoc]
  have hnew : (new plan scenario).sessions.filter (fun s => s.2.all (· ∉ (f.shrinkTo fewer).cancelled)) =
      (new plan scenario).sessions := by
    rw [List.filter_eq_self]
    intro s hs
    unfold new at hs
    dsimp only at hs
    split at hs
    . rw [List.mem_singleton.mp hs]
      rfl
    . cases hs
  constructor
  . have hsessions : (f.shrinkTo fewer).sessions = f.sessions := rfl
    rw [Fleet.live, hsessions, h.sessions, List.range_add, List.map_append, List.filter_append, List.filter_append, hnew]
    rw [List.filter_eq_self.mpr ?kept, List.filter_eq_nil_iff.mpr ?gone]
    . simp [roster, map_fst_new]
    case kept =>
      intro s hs
      rcases List.mem_map.mp hs with ⟨id, hid, rfl⟩
      have := List.mem_range.mp hid
      simp only [Option.all_some, hcancelled, List.mem_map, decide_eq_true_eq, not_exists, not_and]
      omega
    case gone =>
      intro s hs
      rcases List.mem_map.mp hs with ⟨id, hid, rfl⟩
      rcases List.mem_map.mp hid with ⟨k, hk, rfl⟩
      simp only [Option.all_some, hcancelled, List.mem_map, decide_eq_true_eq, not_not]
      exact ⟨k, hk, rfl⟩
  . simp [Fleet.shrinkTo, h.wallets]

end Fleet

end Staffed

section Ascent

variable {quantile : Quantile} {plan : Plan} {r : Stair}

theorem level_wallets {f : Fleet} {wallets : Nat} (h : f.Grown plan r.scenario wallets) (w : Watched)
    : (level quantile plan f w).wallets = wallets :=
  h.length_wallets

/--
The levels of the stair-step from `wallets` up. Every level but the last one holds.
-/
inductive Ascends (r : Stair) (slo : Slo) : List Level → Option Breach → Prop where
  | last {l : Level} (h : (slo.breach l).isSome ∨ r.ceiling ≤ l.wallets) : Ascends r slo [l] (slo.breach l)
  | step {l m : Level} {levels : List Level} {stopped : Option Breach} (held : slo.breach l = none)
    (below : l.wallets < r.ceiling) (next : m.wallets = r.next l.wallets) (h : Ascends r slo (m :: levels) stopped)
    : Ascends r slo (l :: m :: levels) stopped

-- What a level reports of its fleet, and who is in that.
structure Staffed (quantile : Quantile) (plan : Plan) (scenario : Scenario) (f : Fleet) (w : Watched) (l : Level) : Prop where
  live : f.live = roster plan scenario l.wallets
  level : l = level quantile plan (measured f w) w

/--
What the loop of `Engine::ramp` makes of a fleet of fewer wallets.
-/
structure Climbed (quantile : Quantile) (plan : Plan) (r : Stair) (world : Nat → Watched) (n wallets : Nat) (c : Climb) :
    Prop where
  ascends : Ascends r plan.slo c.levels c.stopped
  head : c.levels.head?.map (·.wallets) = some wallets
  staffed i l : c.levels[i]? = some l → ∃ f, c.fleets[i]? = some f ∧ Staffed quantile plan r.scenario f (world (n + i)) l
  fleet : ∃ last, c.levels.getLast? = some last ∧ c.fleet.Grown plan r.scenario last.wallets

theorem climbed (world : Nat → Watched) (n : Nat) (fleet : Fleet) (wallets below : Nat)
    (hgrown : fleet.Grown plan r.scenario below) (hle : below ≤ wallets)
    : Climbed quantile plan r world n wallets (climb quantile plan r world n fleet wallets) := by
  fun_induction climb quantile plan r world n fleet wallets generalizing below with
  | case1 n fleet wallets grown measured here breach h =>
    have hfleet : grown.Grown plan r.scenario wallets := hgrown.growTo hle
    have hmeasured : measured.Grown plan r.scenario wallets := hfleet.measured (world n)
    have hhere : here.wallets = wallets := level_wallets hmeasured (world n)
    refine ⟨.last (by rw [hhere]; exact h), by simp [hhere], ?_, here, rfl, by rw [hhere]; exact hmeasured⟩
    intro i l hl
    obtain ⟨rfl, rfl⟩ : i = 0 ∧ l = here := by
      cases i <;> simp_all
    exact ⟨grown, rfl, by rw [hhere]; exact hfleet.live, rfl⟩
  | case2 n fleet wallets grown measured here breach h hlt above ih =>
    have hfleet : grown.Grown plan r.scenario wallets := hgrown.growTo hle
    have hmeasured : measured.Grown plan r.scenario wallets := hfleet.measured (world n)
    have hhere : here.wallets = wallets := level_wallets hmeasured (world n)
    obtain ⟨hheld, hbelow⟩ : breach = none ∧ wallets < r.ceiling := by
      simpa using h
    have habove := ih wallets hmeasured (lt_next hbelow).le
    obtain ⟨m, levels, hlevels, hm⟩ : ∃ m levels, above.levels = m :: levels ∧ m.wallets = r.next wallets := by
      have hhead := habove.head
      cases hl : above.levels with
      | nil =>
        rw [hl] at hhead
        cases hhead
      | cons m levels =>
        rw [hl] at hhead
        exact ⟨m, levels, rfl, Option.some.inj hhead⟩
    refine ⟨?ascends, by simp [hhere], ?staffed, ?fleet⟩
    case ascends =>
      have hascends := habove.ascends
      rw [hlevels] at hascends ⊢
      exact .step hheld (by rw [hhere]; exact hbelow) (by rw [hhere]; exact hm) hascends
    case staffed =>
      intro i l hl
      cases i with
      | zero =>
        obtain rfl : here = l := Option.some.inj hl
        exact ⟨grown, rfl, by rw [hhere]; exact hfleet.live, rfl⟩
      | succ i =>
        rw [← Nat.succ_add_eq_add_succ n i]
        exact habove.staffed i l hl
    case fleet =>
      rcases habove.fleet with ⟨last, hlast, hgrown⟩
      exact ⟨last, by rw [List.getLast?_cons, hlast]; rfl, hgrown⟩

variable {slo : Slo} {levels : List Level} {stopped : Option Breach}

theorem Ascends.isChain (h : Ascends r slo levels stopped)
    : levels.IsChain fun l m => slo.breach l = none ∧ m.wallets = r.next l.wallets ∧ l.wallets < m.wallets := by
  induction h with
  | last => exact List.isChain_singleton _
  | step held below next _ ih =>
    have hlt := lt_next below
    exact List.isChain_cons_cons.mpr ⟨⟨held, next, by rw [next]; exact hlt⟩, ih⟩

theorem Ascends.le_ceiling (h : Ascends r slo levels stopped) (hhead : ∀ l ∈ levels.head?, l.wallets ≤ r.ceiling)
    : ∀ l ∈ levels, l.wallets ≤ r.ceiling := by
  induction h with
  | @last l => exact List.forall_mem_singleton.mpr (hhead l rfl)
  | @step l m levels _ _ below next _ ih =>
    have hm : m.wallets ≤ r.ceiling := by
      rw [next]
      exact next_le r l.wallets
    refine List.forall_mem_cons.mpr ⟨below.le, ih ?_⟩
    intro k hk
    obtain rfl : m = k := Option.some.inj hk
    exact hm

theorem Ascends.getLast (h : Ascends r slo levels stopped)
    : ∃ last, levels.getLast? = some last ∧ stopped = slo.breach last ∧ (stopped = none → r.ceiling ≤ last.wallets) := by
  induction h with
  | @last l h =>
    refine ⟨l, rfl, rfl, fun hnone => ?_⟩
    simpa [hnone] using h
  | step _ _ _ _ ih =>
    rcases ih with ⟨last, hlast, hstopped⟩
    exact ⟨last, by rw [List.getLast?_cons, hlast]; rfl, hstopped⟩

theorem getElem?_concat_of_le {α : Type} {l : List α} {k : Nat} (h : k ≤ l.length) (x : α)
    : (l ++ [x])[k]? = some (l[k]?.getD x) := by
  rcases Nat.lt_or_eq_of_le h with hlt | rfl
  . rw [List.getElem?_append_left hlt, List.getElem?_eq_getElem hlt]
    rfl
  . simp

/--
The level that `Engine::ramp` picks is the last one that held.
-/
theorem Ascends.reverse_getElem (h : Ascends r slo levels stopped)
    : levels.reverse[if stopped.isSome then 1 else 0]? = (levels.filter (slo.breach · = none)).getLast? := by
  induction h with
  | @last l h => cases hbreach : slo.breach l <;> simp [hbreach]
  | @step l m levels stopped held _ _ _ ih =>
    rw [List.filter_cons_of_pos (by simpa using held), List.getLast?_cons, ← ih, List.reverse_cons]
    apply getElem?_concat_of_le
    rw [List.length_reverse, List.length_cons]
    split <;> omega

theorem Ascends.pairwise (h : Ascends r slo levels stopped) : levels.Pairwise fun l m => l.wallets < m.wallets := by
  rw [← List.pairwise_map, ← List.isChain_iff_pairwise, List.isChain_map]
  exact h.isChain.imp fun _ _ h => h.2.2

theorem Ascends.le_last (h : Ascends r slo levels stopped) {last : Level} (hlast : levels.getLast? = some last)
    : ∀ l ∈ levels, l.wallets ≤ last.wallets := by
  rcases List.getLast?_eq_some_iff.mp hlast with ⟨front, rfl⟩
  intro l hl
  rcases List.mem_append.mp hl with hl | hl
  . exact (List.pairwise_append.mp h.pairwise).2.2 l hl last (List.mem_singleton_self last) |>.le
  . rw [List.mem_singleton.mp hl]

theorem Ascends.capacity_iff (h : Ascends r slo levels stopped) (wallets : Nat)
    : (levels.reverse[if stopped.isSome then 1 else 0]?).map (·.wallets) = some wallets ↔
      ∃ l ∈ levels, slo.breach l = none ∧ l.wallets = wallets ∧
        ∀ m ∈ levels, slo.breach m = none → m.wallets ≤ wallets := by
  have hmem : ∀ m, m ∈ levels.filter (slo.breach · = none) ↔ m ∈ levels ∧ slo.breach m = none := by
    simp [List.mem_filter]
  have hmost : ∀ l, (levels.filter (slo.breach · = none)).getLast? = some l →
      ∀ m ∈ levels.filter (slo.breach · = none), m.wallets ≤ l.wallets := by
    intro l hl m hm
    rcases List.getLast?_eq_some_iff.mp hl with ⟨front, hfront⟩
    have hpairwise := h.pairwise.filter (slo.breach · = none)
    rw [hfront] at hpairwise hm
    rcases List.mem_append.mp hm with hm | hm
    . exact (List.pairwise_append.mp hpairwise).2.2 m hm l (List.mem_singleton_self l) |>.le
    . rw [List.mem_singleton.mp hm]
  rw [h.reverse_getElem, Option.map_eq_some_iff]
  constructor
  . rintro ⟨l, hl, rfl⟩
    obtain ⟨hlevels, hheld⟩ := (hmem l).mp (List.mem_of_getLast? hl)
    exact ⟨l, hlevels, hheld, rfl, fun m hm hmheld => hmost l hl m ((hmem m).mpr ⟨hm, hmheld⟩)⟩
  . rintro ⟨l, hlevels, hheld, rfl, hle⟩
    have hl := (hmem l).mpr ⟨hlevels, hheld⟩
    have htop := List.getLast?_eq_some_getLast (List.ne_nil_of_mem hl)
    obtain ⟨htoplevels, htopheld⟩ := (hmem _).mp (List.mem_of_getLast? htop)
    exact ⟨_, htop, le_antisymm (hle _ htoplevels htopheld) (hmost _ htop l hl)⟩

theorem Ascends.capacity_eq_none_iff (h : Ascends r slo levels stopped)
    : (levels.reverse[if stopped.isSome then 1 else 0]?).map (·.wallets) = none ↔
      ∀ l ∈ levels, slo.breach l ≠ none := by
  rw [h.reverse_getElem, Option.map_eq_none_iff, List.getLast?_eq_none_iff, List.filter_eq_nil_iff]
  simp

end Ascent

section Ramp

variable (quantile : Quantile) (plan : Plan) (r : Stair) (world : Nat → Watched)

theorem climbed_new
    : Climbed quantile plan r world 0 (min r.start r.ceiling) (ascent quantile plan r world) :=
  climbed world 0 _ _ 0 Fleet.grown_new (Nat.zero_le _)

/--
The levels of a ramp: from its start (or its ceiling) up by `Ramp::next`, each one above the one before, no further than
the ceiling, as long as they hold.
-/
theorem ramp_climbs
    : (ramp quantile plan r world).levels.head?.map (·.wallets) = some (min r.start r.ceiling) ∧
        (ramp quantile plan r world).levels.IsChain (fun l m =>
          plan.slo.breach l = none ∧ m.wallets = r.next l.wallets ∧ l.wallets < m.wallets) ∧
        (∀ l ∈ (ramp quantile plan r world).levels, l.wallets ≤ r.ceiling) ∧
        ∃ last, (ramp quantile plan r world).levels.getLast? = some last ∧
          (ramp quantile plan r world).stopped = plan.slo.breach last ∧
          ((ramp quantile plan r world).stopped = none → last.wallets = r.ceiling) := by
  have h : Climbed quantile plan r world 0 (min r.start r.ceiling) _ := climbed_new quantile plan r world
  have hle : ∀ l ∈ (ramp quantile plan r world).levels, l.wallets ≤ r.ceiling := by
    apply h.ascends.le_ceiling
    intro l hl
    have hhead := h.head
    rw [hl] at hhead
    exact (Option.some.inj hhead).trans_le (Nat.min_le_right _ _)
  refine ⟨h.head, h.ascends.isChain, hle, ?_⟩
  rcases h.ascends.getLast with ⟨last, hlast, hstopped, hceiling⟩
  exact ⟨last, hlast, hstopped, fun hnone => le_antisymm (hle last (List.mem_of_getLast? hlast)) (hceiling hnone)⟩

/--
The capacity of a ramp is the most wallets that a level of it held.
-/
theorem ramp_capacity
    : ((ramp quantile plan r world).capacity = none ↔
          ∀ l ∈ (ramp quantile plan r world).levels, plan.slo.breach l ≠ none) ∧
        ∀ wallets, (ramp quantile plan r world).capacity = some wallets ↔
          ∃ l ∈ (ramp quantile plan r world).levels, plan.slo.breach l = none ∧ l.wallets = wallets ∧
            ∀ m ∈ (ramp quantile plan r world).levels, plan.slo.breach m = none → m.wallets ≤ wallets :=
  have h := (climbed_new quantile plan r world).ascends
  ⟨h.capacity_eq_none_iff, h.capacity_iff⟩

theorem Staffed.reports {quantile : Quantile} {plan : Plan} {scenario : Scenario} {f : Fleet} {w : Watched} {l : Level}
    (h : Staffed quantile plan scenario f w l)
    : Reports quantile w.window l.methods l.p99 := by
  rw [h.level]
  exact Ramp.reports quantile f.measure w.settling w.window w.late

theorem soaks {c : Climb} {above wallets : Nat} (h : c.fleet.Grown plan r.scenario above) (hle : wallets ≤ above)
    : let soak := level quantile plan (soaking c world wallets) (world c.levels.length)
      soak.wallets = wallets ∧
        Staffed quantile plan r.scenario (c.fleet.shrinkTo wallets) (world c.levels.length) soak := by
  obtain ⟨hlive, hlength⟩ := h.shrinkTo hle
  refine ⟨hlength, ?_, rfl⟩
  rw [hlive]
  exact congrArg _ hlength.symm

/--
At every level exactly the wallets of that level are running in the fleet, each once, and at the soak exactly those of the
capacity. What is reported are the requests of the level's own window.
-/
theorem ramp_staffed
    : (∀ i l, (ramp quantile plan r world).levels[i]? = some l →
        ∃ fleet, (ascent quantile plan r world).fleets[i]? = some fleet ∧
          Staffed quantile plan r.scenario fleet (world i) l ∧ Reports quantile (world i).window l.methods l.p99) ∧
        ∀ wallets, (ramp quantile plan r world).capacity = some wallets →
          ∃ soak, (ramp quantile plan r world).soak = some soak ∧ soak.wallets = wallets ∧
          Staffed quantile plan r.scenario ((ascent quantile plan r world).fleet.shrinkTo wallets)
            (world (ramp quantile plan r world).levels.length) soak ∧
          Reports quantile (world (ramp quantile plan r world).levels.length).window soak.methods soak.p99 ∧
          (ramp quantile plan r world).soakBreach = plan.slo.breach soak := by
  have h := climbed_new quantile plan r world
  constructor
  . intro i l hl
    obtain ⟨fleet, hfleet, hstaffed⟩ := h.staffed i l hl
    rw [Nat.zero_add] at hstaffed
    exact ⟨fleet, hfleet, hstaffed, hstaffed.reports⟩
  . intro wallets hcapacity
    rcases h.fleet with ⟨last, hlast, hgrown⟩
    rcases (h.ascends.capacity_iff wallets).mp hcapacity with ⟨l, hl, -, rfl, -⟩
    have hle := h.ascends.le_last hlast l hl
    obtain ⟨hwallets, hstaffed⟩ := soaks quantile plan r world hgrown hle
    refine ⟨_, congrArg (Option.map _) hcapacity, hwallets, hstaffed, hstaffed.reports, ?_⟩
    exact congrArg (fun capacity => (Option.map _ capacity).bind plan.slo.breach) hcapacity

end Ramp

end Climb

end Ramp
end Loadtest
