import Ztest.Lib.Collect
import Ztest.Lib.Run
import Ztest.Lib.Lines
import Ztest.Qos.Lease
import Ztest.Qos.Resources
import Mathlib.Data.Char
import Mathlib.Data.List.Lex
import Mathlib.Data.List.Sort

/-!
This module contains a pass of `ztest cleanup` over a cluster that others keep changing
(`resource/reclaim.rs`). Every list request and every delete request of the pass is a step of its
own. The steps of the others are those of runs that write their lease before they create an object
and keep it unexpired until their objects are gone, of detached syncs, and of whoever else deletes
objects. The pods inside a test namespace go with the namespace and have no object here.
-/

namespace Reclaim

open Qos (PodPhase)
open Run (guarded)

-- `RUN_NAMESPACE`, `BUILD_NAMESPACE` and `SYNC_NAMESPACE`.
inductive Home where
  | run
  | build
  | sync
  deriving DecidableEq

inductive Place where
  | namespaces
  | pods (home : Home)
  | bindings
  | records
  deriving DecidableEq

structure Object where
  place : Place
  name : Text
  uid : Nat
  runId : Option Text
  user : Option Text
  -- `ztest.io/role=test-env`
  testEnv : Bool
  -- `ztest.io/kind=sync`, the one value that is ever written.
  kind : Bool
  syncId : Option Text
  deleting : Bool
  phase : Option PodPhase
  deriving DecidableEq

def Object.at (o : Object) (place : Place) (name : Text) : Bool := o.place = place && o.name = name

def Object.settled (o : Object) : Bool :=
  match o.phase with
  | some .succeeded => true
  | some .failed => true
  | _ => false

structure Lease where
  -- The name, which is also the run-id label.
  run : Text
  user : Text
  renewTime : Option Nat
  duration : Option Nat
  deleting : Bool

def isExpired (lease : Lease) (now : Nat) : Bool := Qos.isExpired lease.renewTime lease.duration now

def buildPod : Text := ['z', 't', 'e', 's', 't', '-', 'b', 'u', 'i', 'l', 'd', 'k', 'i', 't']

def driverPodFor (syncId : Text) : Text :=
  ['z', 't', 'e', 's', 't', '-', 's', 'y', 'n', 'c', '-'] ++ syncId

def reportCmName (syncId : Text) : Text :=
  ['z', 't', 'e', 's', 't', '-', 's', 'y', 'n', 'c', '-', 'r', 'e', 'p', 'o', 'r', 't', '-'] ++ syncId

def syncLeaseId (syncId : Text) : Text := ['s', 'y', 'n', 'c', '-'] ++ syncId

structure Cluster where
  now : Nat
  leases : List Lease
  objects : List Object
  nextUid : Nat
  -- Every random name that was given to an object, and every sync id, are drawn once.
  drawn : List Text
  syncs : List Text

namespace Cluster

def live (c : Cluster) (run : Text) : Bool := c.leases.any fun l => l.run = run && !isExpired l c.now

def owns (c : Cluster) (run : Text) : Bool := c.objects.any fun o => o.runId = some run

def taken (c : Cluster) (place : Place) (name : Text) : Bool := c.objects.any (·.at place name)

def add (c : Cluster) (o : Object) : Cluster :=
  { c with objects := c.objects ++ [{ o with uid := c.nextUid }], nextUid := c.nextUid + 1 }

def remove (c : Cluster) (place : Place) (name : Text) : Cluster :=
  { c with objects := c.objects.filter fun o => !o.at place name }

def update (c : Cluster) (place : Place) (name : Text) (f : Object → Object) : Cluster :=
  { c with objects := c.objects.map fun o => if o.at place name then f o else o }

def mark (c : Cluster) (place : Place) (name : Text) : Cluster :=
  c.update place name fun o => { o with deleting := true }

end Cluster

inductive Scope where
  | user (name : Text)
  | allUsers

inductive Kind where
  | testEnv
  | sync
  | runPod
  | seedBinding
  | reservation
  deriving DecidableEq

def Kind.rank : Kind → Nat
  | testEnv => 0
  | sync => 1
  | runPod => 2
  | seedBinding => 3
  | reservation => 4

inductive SyncStatus where
  | pending
  | running
  | unresolved
  deriving DecidableEq

def SyncStatus.observe : Option PodPhase → SyncStatus
  | some .pending => pending
  | some .running => running
  | _ => unresolved

def SyncStatus.isLive : SyncStatus → Bool
  | pending => true
  | running => true
  | unresolved => false

inductive Reason where
  | runInFlight (run : Text)
  | phaseUnreadable
  | syncIs (status : SyncStatus) (syncId : Text)
  | stillRenewed

inductive Liveness where
  | finished
  | terminating
  | live (why : Reason)

structure Target where
  kind : Kind
  name : Text
  home : Option Home
  id : Option Text
  owner : Option Text
  liveness : Liveness

def Target.matches (t : Target) (token : Text) : Bool := t.name = token || t.id = some token

inductive Listing where
  | leases
  | testNamespaces
  | syncPods
  | syncNamespaces
  | syncRecords
  | runPods
  | buildPods
  | seedBindings
  | reservations
  deriving DecidableEq

inductive Fault where
  | list (listing : Listing)
  | unmatched (token : Text)
  | delete (kind : Kind) (name : Text)

def unknownRun : Text := ['?']

def liveRunIds (c : Cluster) : List Text := (c.leases.filter fun l => !isExpired l c.now).map (·.run)

def classifyTestEnv (run : Text) (liveRuns : List Text) : Liveness :=
  if liveRuns.contains run then .live (.runInFlight run) else .finished

def terminatingOr (deleting : Bool) (otherwise : Liveness) : Liveness :=
  if deleting then .terminating else otherwise

def owned (scope : Scope) (user : Option Text) : Bool :=
  match scope with
  | .user u => user = some u
  | .allUsers => true

def ofRuns (scope : Scope) (user runId : Option Text) : Bool :=
  match scope with
  | .user u => user = some u
  | .allUsers => runId.isSome

def testEnvTarget (liveRuns : List Text) (ns : Object) : Target where
  kind := .testEnv
  name := ns.name
  home := none
  id := some (ns.runId.getD unknownRun)
  owner := ns.user
  liveness := terminatingOr ns.deleting (classifyTestEnv (ns.runId.getD unknownRun) liveRuns)

def discoverTestEnvs (c : Cluster) (scope : Scope) (liveRuns : List Text) : List Target :=
  (c.objects.filter fun o => o.place = .namespaces && o.testEnv && !o.kind && owned scope o.user).map
    (testEnvTarget liveRuns)

def listSyncs (c : Cluster) (scope : Scope) (place : Place) : List Object :=
  c.objects.filter fun o => o.place = place && o.kind && owned scope o.user

-- `Api::<Pod>::all` with the sync selector.
def listSyncPods (c : Cluster) (scope : Scope) : List Object :=
  c.objects.filter fun o =>
    (o.place = .pods .run || o.place = .pods .build || o.place = .pods .sync) && o.kind && owned scope o.user

-- `phase`: outer `none` when the pods were not listed, inner `none` when there is no such pod.
def classifySync (syncId : Text) (phase : Option (Option PodPhase)) : Liveness :=
  match phase with
  | none => .live .phaseUnreadable
  | some phase =>
    let status := SyncStatus.observe phase
    if status.isLive then .live (.syncIs status syncId) else .finished

structure SyncParts where
  ns : Option Object
  pod : Option Object
  record : Option Object

def syncKey (o : Object) : Text := o.syncId.getD o.name

def SyncParts.syncId (parts : SyncParts) : Option Text :=
  ((parts.ns.bind (·.syncId)).or (parts.pod.bind (·.syncId))).or (parts.record.bind (·.syncId))

def syncTarget (pods : Option (List Object)) (parts : SyncParts) : Target :=
  let id := parts.syncId.getD unknownRun
  { kind := .sync
    name := ((parts.ns.map (·.name)).or (parts.pod.map (·.name))).getD (driverPodFor id)
    home := none
    id := parts.syncId
    owner := ((parts.ns.bind (·.user)).or (parts.pod.bind (·.user))).or (parts.record.bind (·.user))
    liveness :=
      terminatingOr (parts.ns.any (·.deleting)) <|
        terminatingOr (parts.pod.any (·.deleting)) <|
          classifySync id (pods.map fun _ => parts.pod.bind (·.phase)) }

-- A record is keyed by its label only.
def recordEntries (records : List Object) : List (Text × Object) :=
  records.filterMap fun r => r.syncId.map fun id => (id, r)

def syncTargets (namespaces : List Object) (pods : Option (List Object)) (records : List Object)
    : List Target :=
  let nsEntries := namespaces.map fun o => (syncKey o, o)
  let podEntries := (pods.getD []).map fun o => (syncKey o, o)
  let keys := (nsEntries ++ podEntries ++ recordEntries records).map (·.1)
  (keys.dedup.insertionSort (· ≤ ·)).map fun key =>
    syncTarget pods ⟨collect nsEntries key, collect podEntries key, collect (recordEntries records) key⟩

def runPodTarget (liveRuns : List Text) (home : Home) (pod : Object) : Target where
  kind := .runPod
  name := pod.name
  home := some home
  id := some (pod.runId.getD unknownRun)
  owner := pod.user
  liveness :=
    terminatingOr pod.deleting <|
      if pod.settled then .finished else classifyTestEnv (pod.runId.getD unknownRun) liveRuns

def discoverRunPods (c : Cluster) (scope : Scope) (liveRuns : List Text) (home : Home) : List Target :=
  (c.objects.filter fun o => o.place = .pods home && !o.kind && ofRuns scope o.user o.runId).map
    (runPodTarget liveRuns home)

def seedBindingTarget (liveRuns : List Text) (obj : Object) : Target where
  kind := .seedBinding
  name := obj.name
  home := none
  id := some (obj.runId.getD unknownRun)
  owner := obj.user
  liveness := terminatingOr obj.deleting (classifyTestEnv (obj.runId.getD unknownRun) liveRuns)

def discoverSeedBindings (c : Cluster) (scope : Scope) (liveRuns : List Text) : List Target :=
  (c.objects.filter fun o => o.place = .bindings && ofRuns scope o.user o.runId).map
    (seedBindingTarget liveRuns)

def reservationTarget (now : Nat) (lease : Lease) : Target where
  kind := .reservation
  name := lease.run
  home := none
  id := some lease.run
  owner := some lease.user
  liveness :=
    terminatingOr lease.deleting (if isExpired lease now then .finished else .live .stillRenewed)

def discoverReservations (c : Cluster) (scope : Scope) : List Target :=
  (c.leases.filter fun l => ofRuns scope (some l.user) (some l.run)).map (reservationTarget c.now)

structure Plan where
  targets : List Target
  errors : List Fault

namespace Plan

def targetLe (a b : Target) : Bool :=
  a.kind.rank < b.kind.rank || (a.kind.rank = b.kind.rank && a.name ≤ b.name)

def sort (plan : Plan) : Plan :=
  { plan with targets := plan.targets.insertionSort fun a b => targetLe a b }

def restrictTo (plan : Plan) (tokens : List Text) : Plan :=
  if tokens.isEmpty then plan
  else
    { targets := plan.targets.filter fun t => tokens.any t.matches
      errors := plan.errors ++
        (tokens.filter fun token => !plan.targets.any (·.matches token)).map .unmatched }

end Plan

structure Outcome where
  deleted : List Target
  terminating : List Target
  skipped : List Target
  errors : List Fault

def triage (force : Bool) : List Target → Outcome → List Target × Outcome
  | [], outcome => ([], outcome)
  | target :: rest, outcome =>
    match target.liveness with
    | .terminating => triage force rest { outcome with terminating := outcome.terminating ++ [target] }
    | .live _ =>
      if force then
        let (reclaimable, outcome) := triage force rest outcome
        (target :: reclaimable, outcome)
      else
        triage force rest { outcome with skipped := outcome.skipped ++ [target] }
    | .finished =>
      let (reclaimable, outcome) := triage force rest outcome
      (target :: reclaimable, outcome)

inductive Removal where
  | gone
  | terminating
  deriving DecidableEq

def Removal.and : Removal → Removal → Removal
  | gone, other => other
  | terminating, _ => terminating

-- What the API server does with a delete request that reaches an object.
inductive Reply where
  | removed
  | queued
  | failed
  deriving DecidableEq

def deleteOne (c : Cluster) (place : Place) (name : Text) (reply : Reply) : Cluster × Option Removal :=
  match reply with
  | .failed => (c, none)
  | .removed => (c.remove place name, some .gone)
  | .queued =>
    if c.taken place name then (c.mark place name, some .terminating) else (c, some .gone)

def deleteLease (c : Cluster) (run : Text) (reply : Reply) : Cluster × Option Removal :=
  match reply with
  | .failed => (c, none)
  | .removed => ({ c with leases := c.leases.filter fun l => l.run ≠ run }, some .gone)
  | .queued =>
    if c.leases.any fun l => l.run = run then
      ({ c with leases := c.leases.map fun l => if l.run = run then { l with deleting := true } else l },
        some .terminating)
    else (c, some .gone)

def driverPodOf (target : Target) : Text :=
  match target.id with
  | some id => driverPodFor id
  | none => target.name

-- The one delete of a target, or the first of the two of a sync.
def delete (c : Cluster) (target : Target) (reply : Reply) : Cluster × Option Removal :=
  match target.kind with
  | .testEnv => deleteOne c .namespaces target.name reply
  | .sync => deleteOne c .namespaces target.name reply
  | .runPod => deleteOne c (.pods (target.home.getD .run)) target.name reply
  | .seedBinding => deleteOne c .bindings target.name reply
  | .reservation => deleteLease c target.name reply

def deleteDriver (c : Cluster) (target : Target) (reply : Reply) : Cluster × Option Removal :=
  deleteOne c (.pods .sync) (driverPodOf target) reply

def Outcome.record (outcome : Outcome) (target : Target) : Option Removal → Outcome
  | some .gone => { outcome with deleted := outcome.deleted ++ [target] }
  | some .terminating =>
    { outcome with terminating := outcome.terminating ++ [{ target with liveness := .terminating }] }
  | none => { outcome with errors := outcome.errors ++ [.delete target.kind target.name] }

structure Options where
  scope : Scope
  tokens : List Text
  force : Bool
  dryRun : Bool

inductive Stage where
  | listing (next : Listing)
  | deleting (remaining : List Target)
  -- The namespace of a sync was asked for, its driver pod is next.
  | deletingDriver (target : Target) (ns : Option Removal) (remaining : List Target)

structure Pass where
  options : Options
  stage : Stage
  liveRuns : List Text
  syncPods : Option (List Object)
  syncNamespaces : List Object
  -- The version of the build pod list, which the pass does not look at.
  buildVersion : Nat
  plan : Plan
  outcome : Outcome

inductive Answer where
  | ok
  | notFound
  | failed
  deriving DecidableEq

namespace Pass

def start (options : Options) : Pass where
  options := options
  stage := .listing .leases
  liveRuns := []
  syncPods := none
  syncNamespaces := []
  buildVersion := 0
  plan := ⟨[], []⟩
  outcome := ⟨[], [], [], []⟩

def goto (p : Pass) (next : Listing) : Pass := { p with stage := .listing next }

def found (p : Pass) (targets : List Target) : Pass :=
  { p with plan := { p.plan with targets := p.plan.targets ++ targets } }

def fault (p : Pass) (listing : Listing) : Pass :=
  { p with plan := { p.plan with errors := p.plan.errors ++ [.list listing] } }

-- `reclaim` up to its first delete; what it drops from the observability stores is not modelled.
def reclaim (p : Pass) : Pass :=
  let plan := p.plan.sort.restrictTo p.options.tokens
  let (reclaimable, outcome) := triage p.options.force plan.targets ⟨[], [], [], plan.errors⟩
  if p.options.dryRun then
    { p with plan, outcome := { outcome with deleted := reclaimable }, stage := .deleting [] }
  else
    { p with plan, outcome, stage := .deleting reclaimable }

-- `discover`, one list request at a time.
def list (p : Pass) (c : Cluster) (listing : Listing) (answer : Answer) : Pass :=
  match listing, answer with
  | .leases, .ok => { p with liveRuns := liveRunIds c }.goto .testNamespaces
  -- No evidence that anything is live.
  | .leases, _ => (p.fault .leases).goto .testNamespaces
  | .testNamespaces, .ok => (p.found (discoverTestEnvs c p.options.scope p.liveRuns)).goto .syncPods
  | .testNamespaces, _ => (p.fault .testNamespaces).goto .syncPods
  | .syncPods, .ok => { p with syncPods := some (listSyncPods c p.options.scope) }.goto .syncNamespaces
  | .syncPods, _ => (p.fault .syncPods).goto .syncNamespaces
  | .syncNamespaces, .ok =>
    { p with syncNamespaces := listSyncs c p.options.scope .namespaces }.goto .syncRecords
  | .syncNamespaces, _ => (p.fault .syncNamespaces).goto .runPods
  | .syncRecords, .ok =>
    (p.found (syncTargets p.syncNamespaces p.syncPods (listSyncs c p.options.scope .records))).goto .runPods
  | .syncRecords, _ => (p.fault .syncRecords).goto .runPods
  | .runPods, .ok => (p.found (discoverRunPods c p.options.scope p.liveRuns .run)).goto .buildPods
  | .runPods, _ => (p.fault .runPods).goto .buildPods
  | .buildPods, .ok =>
    { p.found (discoverRunPods c p.options.scope p.liveRuns .build) with buildVersion := c.nextUid }.goto
      .seedBindings
  | .buildPods, _ => (p.fault .buildPods).goto .seedBindings
  | .seedBindings, .ok => (p.found (discoverSeedBindings c p.options.scope p.liveRuns)).goto .reservations
  -- No snapshot CRD.
  | .seedBindings, .notFound => p.goto .reservations
  | .seedBindings, .failed => (p.fault .seedBindings).goto .reservations
  | .reservations, .ok => (p.found (discoverReservations c p.options.scope)).reclaim
  | .reservations, .notFound => p.reclaim
  | .reservations, .failed => (p.fault .reservations).reclaim

end Pass

structure World where
  cluster : Cluster
  pass : Pass

def World.start (c : Cluster) (options : Options) : World := ⟨c, .start options⟩

inductive Input where
  | list (answer : Answer)
  | delete (reply : Reply)
  -- The steps of the others.
  | tick (seconds : Nat)
  | writeLease (run user : Text) (duration : Nat)
  | releaseLease (run : Text)
  | create (place : Place) (name run user : Text) (phase : Option PodPhase)
  | launch (place : Place) (syncId user : Text) (phase : Option PodPhase)
  | setPhase (home : Home) (name : Text) (phase : PodPhase)
  | remove (place : Place) (name : Text)
  | mark (place : Place) (name : Text)

namespace Cluster

-- A run keeps its lease unexpired while it has objects.
def tick (c : Cluster) (seconds : Nat) : Except Run.Disabled Cluster :=
  guarded (c.leases.all fun l => isExpired l c.now || !isExpired l (c.now + seconds) || !c.owns l.run)
    { c with now := c.now + seconds }

def writeLease (c : Cluster) (run user : Text) (duration : Nat) : Cluster :=
  { c with
    leases := c.leases.filter (fun l => l.run ≠ run) ++ [⟨run, user, some c.now, some duration, false⟩] }

def releaseLease (c : Cluster) (run : Text) : Except Run.Disabled Cluster :=
  guarded (!c.owns run) { c with leases := c.leases.filter fun l => l.run ≠ run }

-- A name is the one of the build pod, or it has a random suffix.
def nameFor (c : Cluster) (place : Place) (name : Text) : Bool :=
  match place with
  | .pods .build => name = buildPod
  | .pods .sync => false
  | .records => false
  | _ => !c.drawn.contains name && !c.syncs.any fun id => driverPodFor id = name

def create (c : Cluster) (place : Place) (name run user : Text) (phase : Option PodPhase)
    : Except Run.Disabled Cluster :=
  let o : Object :=
    { place, name, uid := 0, runId := some run, user := some user, testEnv := place = .namespaces,
      kind := false, syncId := none, deleting := false, phase }
  guarded (c.live run && c.nameFor place name && !c.taken place name)
    { c.add o with drawn := name :: c.drawn }

def syncName (place : Place) (syncId : Text) : Text :=
  match place with
  | .records => reportCmName syncId
  | _ => driverPodFor syncId

def launch (c : Cluster) (place : Place) (syncId user : Text) (phase : Option PodPhase)
    : Except Run.Disabled Cluster :=
  let o : Object :=
    { place, name := syncName place syncId, uid := 0,
      runId := if place = .pods .sync then some (syncLeaseId syncId) else none, user := some user,
      testEnv := place = .namespaces, kind := true, syncId := some syncId, deleting := false, phase }
  guarded
    ((place = .namespaces || place = .pods .sync || place = .records) && c.live (syncLeaseId syncId) &&
      (c.syncs.contains syncId || !c.drawn.contains (driverPodFor syncId)) &&
      !c.taken place (syncName place syncId))
    { c.add o with syncs := syncId :: c.syncs }

-- A settled pod stays settled.
def setPhase (c : Cluster) (home : Home) (name : Text) (phase : PodPhase) : Cluster :=
  c.update (.pods home) name fun o => if o.settled then o else { o with phase := some phase }

def act (c : Cluster) : Input → Except Run.Disabled Cluster
  | .tick seconds => c.tick seconds
  | .writeLease run user duration => .ok (c.writeLease run user duration)
  | .releaseLease run => c.releaseLease run
  | .create place name run user phase => c.create place name run user phase
  | .launch place syncId user phase => c.launch place syncId user phase
  | .setPhase home name phase => .ok (c.setPhase home name phase)
  | .remove place name => .ok (c.remove place name)
  | .mark place name => .ok (c.mark place name)
  | .list _ => .error .disabled
  | .delete _ => .error .disabled

end Cluster

namespace World

def list (w : World) (answer : Answer) : Except Run.Disabled World :=
  match w.pass.stage with
  | .listing listing => .ok { w with pass := w.pass.list w.cluster listing answer }
  | _ => .error .disabled

def delete (w : World) (reply : Reply) : Except Run.Disabled World :=
  match w.pass.stage with
  | .deleting (target :: rest) =>
    let (cluster, removal) := Reclaim.delete w.cluster target reply
    if target.kind = .sync then
      .ok { cluster, pass := { w.pass with stage := .deletingDriver target removal rest } }
    else
      .ok { cluster, pass := { w.pass with stage := .deleting rest, outcome := w.pass.outcome.record target removal } }
  | .deletingDriver target ns rest =>
    let (cluster, driver) := deleteDriver w.cluster target reply
    let removal := ns.bind fun ns => driver.map ns.and
    .ok { cluster, pass := { w.pass with stage := .deleting rest, outcome := w.pass.outcome.record target removal } }
  | _ => .error .disabled

def act (w : World) : Input → Except Run.Disabled World
  | .list answer => w.list answer
  | .delete reply => w.delete reply
  | input => (w.cluster.act input).map fun cluster => { w with cluster }

def step (w : World) (input : Input) : Except Run.Disabled (World × Unit) := (w.act input).map fun w => (w, ())

end World
end Reclaim
