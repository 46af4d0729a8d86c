import Mathlib.Data.List.DropRight
import Ztest.Lib.Lines

/-!
This module contains the names of a test's components (`env.rs`): the pods they become, the check of the
topology, the peers of a validator and the volumes that are shared. `Api::create` is a parameter.
-/

namespace Env

structure ComponentOpts where
  name : Option Text
  peers : List Text

structure Disk where
  bytes : Nat
  minBps : Option Nat
  minIops : Option Nat

structure SharedVolume where
  claim : Text
  mountPath : Text

structure PendingSharedVolume where
  claim : Text
  disk : Disk

structure TestEnv where
  pendingValidators : List ComponentOpts
  pendingIndexers : List ComponentOpts
  pendingWallets : List ComponentOpts
  pendingSharedVolumes : List PendingSharedVolume

inductive EnvError where
  -- `v1 supports at most two indexers per env (found {found})`
  | indexers (found : Nat)
  -- `v1 supports at most one wallet per env (found {found})`
  | wallets (found : Nat)
  -- `duplicate component name {name}`
  | duplicate (name : Text)
  -- `no validator peer {name:?}; known: {known:?}`
  | peer (name : Text) (known : List Text)
  -- An answer of the API server.
  | api (reason : Text)

def trimMatches (c : Char) (s : Text) : Text := (s.dropWhile (· = c)).rdropWhile (· = c)

def kindChar (c : Char) : Char := if c.isAlphanum then c.toLower else '-'

def shortKind (s : Text) : Text :=
  let s := s.map kindChar
  let s := trimMatches '-' s
  if s = [] then ['x'] else s.take 20

-- The name that a component is given.
def ComponentOpts.original (opts : ComponentOpts) : Text := opts.name.getD ['x']

def podNameOf (opts : ComponentOpts) : Text := shortKind opts.original

namespace TestEnv

def components (env : TestEnv) : List ComponentOpts :=
  env.pendingValidators ++ env.pendingIndexers ++ env.pendingWallets

def insertAll (seen : List Text) : List Text → Except EnvError Unit
  | [] => .ok ()
  | name :: names => if name ∈ seen then .error (.duplicate name) else insertAll (name :: seen) names

def validateTopology (env : TestEnv) : Except EnvError Unit :=
  if env.pendingIndexers.length > 2 then
    .error (.indexers env.pendingIndexers.length)
  else if env.pendingWallets.length > 1 then
    .error (.wallets env.pendingWallets.length)
  else
    insertAll [] (env.components.map podNameOf)

def zebradP2p : Nat := 18233

def knownValidators (env : TestEnv) : List Text := env.pendingValidators.map podNameOf

def peerTuplesFor (env : TestEnv) (opts : ComponentOpts) : Except EnvError (List (Text × Nat)) :=
  opts.peers.mapM fun name =>
    let host := shortKind name
    if host ∈ env.knownValidators then .ok (host, zebradP2p) else .error (.peer name env.knownValidators)

def sharedVolumeSized (env : TestEnv) (name : Text) (disk : Disk) : SharedVolume × TestEnv :=
  let slug := shortKind name
  let claim := ['s', 'h', 'a', 'r', 'e', 'd', '-'] ++ slug
  (⟨claim, ['/', 's', 'h', 'a', 'r', 'e', 'd', '/'] ++ slug⟩,
    { env with pendingSharedVolumes := env.pendingSharedVolumes ++ [⟨claim, disk⟩] })

-- The volumes of some declarations, one after the other.
def sharedVolumes (env : TestEnv) : List (Text × Disk) → List SharedVolume × TestEnv
  | [] => ([], env)
  | (name, disk) :: declared =>
    let (volume, env) := env.sharedVolumeSized name disk
    let (volumes, env) := env.sharedVolumes declared
    (volume :: volumes, env)

-- The claims that `build` leaves in the namespace, where `create` is given the ones it holds.
def createSharedPvcs (create : List Text → PendingSharedVolume → Except EnvError (List Text)) (env : TestEnv)
    : Except EnvError (List Text) := env.pendingSharedVolumes.foldlM create []

end TestEnv

end Env
