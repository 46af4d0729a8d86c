import Ztest.Image.Impl
import Ztest.Lib.Decimal
import Ztest.Lib.Lines

/-!
This module contains named cluster profiles and the environment that one of them is bound to
(`cluster_config.rs`). The environment is a map from variables to values, where the variables that
`apply` manages have names of their own.
-/

namespace ClusterConfig

open Image (ClusterClass ContainerRuntime)

inductive Var where
  | kubeContext
  | clusterClass
  | storageDriver
  | storageClass
  | snapshotClass
  | runtime
  | registry
  | pushRegistry
  | pushSecret
  | other (name : String)
  deriving DecidableEq

def Var.managed : Var → Bool
  | other _ => false
  | _ => true

abbrev Environ := Var → Option Text

def classStr : ClusterClass → Text
  | .local => ['l', 'o', 'c', 'a', 'l']
  | .remote => ['r', 'e', 'm', 'o', 't', 'e']

def runtimeStr : ContainerRuntime → Text
  | .docker => ['d', 'o', 'c', 'k', 'e', 'r']
  | .podman => ['p', 'o', 'd', 'm', 'a', 'n']

def runtimeParse (s : Text) : Option ContainerRuntime :=
  if Decimal.trim s = runtimeStr .docker then some .docker
  else if Decimal.trim s = runtimeStr .podman then some .podman
  else none

structure Profile where
  context : Option Text
  push : Option Text
  pull : Option Text
  pushSecret : Option Text
  storageDriver : Option Text
  storageClass : Option Text
  snapshotClass : Option Text
  runtime : Option ContainerRuntime
  cls : ClusterClass

inductive ProfileError where
  | localHasRegistry
  | localNeedsKind
  | remoteNeedsPush
  | remoteHasKind
  | halfPinnedStorage
  | registryScheme (addr : Text)
  deriving DecidableEq

def schemeOf : Text → Option Text
  | ':' :: '/' :: '/' :: _ => some []
  | c :: rest =>
    match schemeOf rest with
    | none => none
    | some scheme => some (c :: scheme)
  | [] => none

def badScheme (addr : Text) : Bool :=
  match schemeOf addr with
  | none => false
  | some scheme => scheme ≠ ['h', 't', 't', 'p'] && scheme ≠ ['h', 't', 't', 'p', 's']

namespace Profile

def kindCluster (p : Profile) : Option Text :=
  match p.context with
  | none => none
  | some context => context.dropPrefix? ['k', 'i', 'n', 'd', '-']

def registryCheck (p : Profile) : Except ProfileError Unit :=
  match (p.push.toList ++ p.pull.toList).find? badScheme with
  | some addr => .error (.registryScheme addr)
  | none => .ok ()

def classCheck (p : Profile) : Except ProfileError Unit :=
  match p.cls with
  | .local =>
    if p.push.isSome || p.pull.isSome then .error .localHasRegistry
    else if p.kindCluster.isNone then .error .localNeedsKind
    else .ok ()
  | .remote =>
    if p.push.isNone then .error .remoteNeedsPush
    else if p.kindCluster.isSome then .error .remoteHasKind
    else .ok ()

def validate (p : Profile) : Except ProfileError Unit :=
  if p.storageClass.isSome ≠ p.snapshotClass.isSome then
    .error .halfPinnedStorage
  else
    match p.registryCheck with
    | .error e => .error e
    | .ok () => p.classCheck

def pullAddress (p : Profile) : Option Text := p.pull.or p.push

end Profile

section Apply

-- An empty value counts as unset.
def occupied (env : Environ) (key : Var) : Bool :=
  match env key with
  | none => false
  | some v => !v.isEmpty

def set (key : Var) (val : Option Text) (force : Bool) (env : Environ) : Environ :=
  match val with
  | none => env
  | some val => if force || !occupied env key then Function.update env key (some val) else env

def remove (key : Var) (env : Environ) : Environ := Function.update env key none

def pairWritable (force classSet snapshotSet : Bool) : Bool := force || !(classSet || snapshotSet)

def setStoragePair (profile : Profile) (force : Bool) (env : Environ) : Environ :=
  match profile.storageClass, profile.snapshotClass with
  | some cls, some snapshot =>
    if pairWritable force (occupied env .storageClass) (occupied env .snapshotClass) then
      Function.update (Function.update env .storageClass (some cls)) .snapshotClass (some snapshot)
    else
      env
  | _, _ => if force then remove .snapshotClass (remove .storageClass env) else env

def setRegistry (profile : Profile) (force : Bool) (env : Environ) : Environ :=
  match profile.cls with
  | .remote =>
    set .pushSecret profile.pushSecret force
      (set .pushRegistry profile.push force (set .registry profile.pullAddress force env))
  | .local =>
    if force then remove .pushSecret (remove .pushRegistry (remove .registry env)) else env

def apply (profile : Profile) (force : Bool) (env : Environ) : Environ :=
  let env := set .kubeContext profile.context force env
  let env := set .clusterClass (some (classStr profile.cls)) force env
  let env := set .storageDriver profile.storageDriver force env
  let env := setStoragePair profile force env
  let env := set .runtime (profile.runtime.map runtimeStr) force env
  setRegistry profile force env

end Apply

section Activate

structure Config where
  current : Option Text
  clusters : List (Text × Profile)

inductive ConfigError where
  | noProfile (name : Text) (known : List Text)
  | badRuntime (value : Text)
  | unknownContext (context : Text) (known : List Text)
  | profile (name : Text) (source : ProfileError)

-- Inside a pod there is no kubeconfig to check against.
def verifyContext (inCluster : Bool) (contexts : List Text) (context : Text) : Except ConfigError Unit :=
  if inCluster || contexts.contains context then .ok () else .error (.unknownContext context contexts)

def verified (inCluster : Bool) (contexts : List Text) : Option Text → Except ConfigError Unit
  | none => .ok ()
  | some context => verifyContext inCluster contexts context

def runtimeCheck (env : Environ) : Except ConfigError Unit :=
  match env .runtime with
  | none => .ok ()
  | some value => if (runtimeParse value).isNone then .error (.badRuntime value) else .ok ()

-- The environment of the process and the profile bound to it.
def activate (flag : Option Text) (cfg : Config) (inCluster : Bool) (contexts : List Text) (env : Environ)
    : Except ConfigError (Environ × Option Text) :=
  match runtimeCheck env with
  | .error e => .error e
  | .ok () =>
    match flag.or cfg.current with
    | none => .ok (env, none)
    | some name =>
      match cfg.clusters.lookup name with
      | none => .error (.noProfile name (cfg.clusters.map Prod.fst))
      | some profile =>
        match profile.validate with
        | .error e => .error (.profile name e)
        | .ok () =>
          match verified inCluster contexts profile.context with
          | .error e => .error e
          | .ok () => .ok (apply profile flag.isSome env, some name)

end Activate

section Active

def nonempty (v : Option Text) : Option Text := v.filter fun s => !s.isEmpty

def activeContext (env : Environ) (inCluster : Bool) (currentContext : Option Text) : Option Text :=
  match nonempty (env .kubeContext) with
  | some context => some context
  | none => if inCluster then none else currentContext

def activeStorageDriver (env : Environ) : Option Text :=
  (env .storageDriver).filter fun s => !(Decimal.trim s).isEmpty

def activeRegistry (env : Environ) : Option Text × Option Text :=
  (nonempty (env .pushRegistry), nonempty (env .registry))

end Active

end ClusterConfig
