import Ztest.Lib.Run
import Ztest.Qos.Lease
import Mathlib.Data.Finset.Dedup

/-!
This module contains the orphan reaping of an admission over a cluster that others keep changing
(`resource/entry.rs`). The four object listings, the lease listing and the reading of the clock are steps
of their own. The steps of the others are those of runs that write their lease before they create an
object and keep it unexpired until their objects are gone, and of whoever deletes objects; a run that
stops, crashed or with `--no-cleanup`, leaves its objects behind and its lease lapses.
-/

namespace Orphans

open Run (guarded)

-- The kinds that carry a run id, in the order in which their listings are looked at.
inductive Kind where
  | namespaces
  | runPods
  | buildPods
  | seedBindings
  deriving DecidableEq

def kinds : List Kind := [.namespaces, .runPods, .buildPods, .seedBindings]

abbrev Labels := List (String × String)

def labelRunId : String := "ztest.io/run-id"

def labelHoldUntil : String := "ztest.io/hold-until"

def labelKind : String := "ztest.io/kind"

-- `RUN_SCOPED`: it carries a run id and belongs to no sync.
def runScoped (labels : Labels) : Bool :=
  (labels.lookup labelRunId).isSome && (labels.lookup labelKind).isNone

-- The labels of an object that the selector lets through.
structure Scoped where
  labels : Labels
  selected : runScoped labels = true

def Scoped.runId (s : Scoped) : String :=
  (s.labels.lookup labelRunId).get (Bool.and_eq_true_iff.mp s.selected).1

def parseI64 (text : String) : Option Int :=
  let (negative, digits) :=
    match text.toList with
    | '-' :: rest => (true, rest)
    | '+' :: rest => (false, rest)
    | rest => (false, rest)
  let magnitude : Int := Nat.ofDigitChars 10 digits 0
  let value := if negative then -magnitude else magnitude
  if digits ≠ [] ∧ digits.all Char.isDigit ∧ -9223372036854775808 ≤ value ∧ value < 9223372036854775808 then
    some value
  else
    none

-- A held object outlives its run's lease until `now`, which is in seconds.
def Scoped.held (s : Scoped) (now : Int) : Bool :=
  match s.labels.lookup labelHoldUntil with
  | none => false
  | some text =>
    match parseI64 text with
    | none => false
    | some t => now < t

structure Lease where
  name : Option String
  -- In nanoseconds.
  renewTime : Option Int
  -- In seconds.
  duration : Option Int

def isExpired (lease : Lease) (now : Int) : Bool :=
  Qos.isExpired lease.renewTime (lease.duration.map (· * 1000000000)) now

def timestamp (now : Int) : Int := now / 1000000000

def liveRuns (leases : List Lease) (now : Int) : List String :=
  (leases.filter fun l => !isExpired l now).filterMap (·.name)

def heldRuns (labels : List Scoped) (now : Int) : List String :=
  (labels.filter (·.held now)).map Scoped.runId

def orphanedRuns (labels : List Scoped) (live : List String) (now : Int) : Finset String :=
  ((labels.map Scoped.runId).filter fun id => !live.contains id && !(heldRuns labels now).contains id).toFinset

structure Object where
  kind : Kind
  labels : Labels

def Object.runId (o : Object) : Option String := o.labels.lookup labelRunId

-- What a list request for one kind selects.
def select (objects : List Object) (kind : Kind) : List Scoped :=
  objects.filterMap fun o =>
    if h : o.kind = kind ∧ runScoped o.labels = true then some ⟨o.labels, h.2⟩ else none

inductive Action where
  | tick (nanos : Nat)
  | writeLease (run : String) (seconds : Nat)
  | dropLease (run : String)
  | create (kind : Kind) (labels : Labels)
  | remove (i : Nat)
  | stop (run : String)

structure Cluster where
  now : Int
  leases : List Lease
  objects : List Object
  -- The runs whose process keeps the lease.
  runs : List String

namespace Cluster

def live (c : Cluster) (run : String) : Bool :=
  c.leases.any fun l => l.name = some run && !isExpired l c.now

def owns (c : Cluster) (run : String) : Bool := c.objects.any fun o => o.runId = some run

-- Every run that is not gone has an unexpired lease while it has objects.
def covered (c : Cluster) : Bool := c.runs.all fun run => !c.owns run || c.live run

def unlease (c : Cluster) (run : String) : List Lease := c.leases.filter fun l => l.name ≠ some run

def tick (c : Cluster) (nanos : Nat) : Except Run.Disabled Cluster :=
  let c' := { c with now := c.now + nanos }
  guarded c'.covered c'

-- Acquiring and renewing are one request.
def writeLease (c : Cluster) (run : String) (seconds : Nat) : Cluster :=
  { c with leases := c.unlease run ++ [⟨some run, some c.now, some seconds⟩], runs := run :: c.runs }

def dropLease (c : Cluster) (run : String) : Except Run.Disabled Cluster :=
  guarded (!c.runs.contains run || !c.owns run) { c with leases := c.unlease run }

def create (c : Cluster) (kind : Kind) (labels : Labels) : Except Run.Disabled Cluster :=
  let o : Object := ⟨kind, labels⟩
  guarded (o.runId.all fun run => c.runs.contains run && c.live run) { c with objects := c.objects ++ [o] }

def act (c : Cluster) : Action → Except Run.Disabled Cluster
  | .tick nanos => c.tick nanos
  | .writeLease run seconds => .ok (c.writeLease run seconds)
  | .dropLease run => c.dropLease run
  | .create kind labels => c.create kind labels
  | .remove i => .ok { c with objects := c.objects.eraseIdx i }
  | .stop run => .ok { c with runs := c.runs.filter (· ≠ run) }

end Cluster

-- `notFound` is the answer for a kind that the cluster does not have.
inductive Answer where
  | ok
  | notFound
  | failed
  deriving DecidableEq

structure Listed where
  answer : Answer
  -- What the kind had at that moment, which only `ok` answers with.
  present : List Scoped

def Listed.items (l : Listed) : List Scoped :=
  match l.answer with
  | .ok => l.present
  | _ => []

inductive Fault where
  | objects (kind : Kind)
  | leases

-- What the pass knows when it has read the clock.
structure Judgement where
  seen : Kind → Listed
  -- The cluster at the moment the leases were listed.
  atLeases : Cluster
  now : Int

namespace Judgement

def labels (j : Judgement) : List Scoped := kinds.flatMap fun kind => (j.seen kind).items

def present (j : Judgement) : List Scoped := kinds.flatMap fun kind => (j.seen kind).present

def errors (j : Judgement) : List Fault :=
  (kinds.filter fun kind => (j.seen kind).answer = .failed).map .objects

def live (j : Judgement) : List String := liveRuns j.atLeases.leases j.now

def reaped (j : Judgement) : Finset String := orphanedRuns j.labels j.live (timestamp j.now)

end Judgement

inductive Stage where
  | listing (seen : Kind → Option Listed)
  | listed (seen : Kind → Listed) (atLeases : Cluster)
  | reaping (judgement : Judgement)
  | stopped (errors : List Fault)

structure World where
  cluster : Cluster
  stage : Stage

def World.start (c : Cluster) : World := ⟨c, .listing fun _ => none⟩

inductive Input where
  | other (action : Action)
  | listKind (kind : Kind) (answer : Answer)
  | listLeases (answer : Answer)
  | readClock

def gathered (seen : Kind → Option Listed) : Option (Kind → Listed) :=
  match seen .namespaces, seen .runPods, seen .buildPods, seen .seedBindings with
  | some namespaces, some runPods, some buildPods, some seedBindings =>
    some fun
      | .namespaces => namespaces
      | .runPods => runPods
      | .buildPods => buildPods
      | .seedBindings => seedBindings
  | _, _, _, _ => none

namespace World

def listKind (w : World) (kind : Kind) (answer : Answer) : Except Run.Disabled World :=
  match w.stage with
  | .listing seen =>
    let listed : Listed := ⟨answer, select w.cluster.objects kind⟩
    guarded (seen kind).isNone { w with stage := .listing (Function.update seen kind (some listed)) }
  | _ => .error .disabled

-- Objects before leases.
def listLeases (w : World) (answer : Answer) : Except Run.Disabled World :=
  match w.stage with
  | .listing seen =>
    match gathered seen, answer with
    | some seen, .ok => .ok { w with stage := .listed seen w.cluster }
    | some _, _ => .ok { w with stage := .stopped [.leases] }
    | none, _ => .error .disabled
  | _ => .error .disabled

def readClock (w : World) : Except Run.Disabled World :=
  match w.stage with
  | .listed seen atLeases => .ok { w with stage := .reaping ⟨seen, atLeases, w.cluster.now⟩ }
  | _ => .error .disabled

def act (w : World) : Input → Except Run.Disabled World
  | .other action => (w.cluster.act action).map fun cluster => { w with cluster }
  | .listKind kind answer => w.listKind kind answer
  | .listLeases answer => w.listLeases answer
  | .readClock => w.readClock

def step (w : World) (input : Input) : Except Run.Disabled (World × Unit) := (w.act input).map fun w => (w, ())

end World
end Orphans
