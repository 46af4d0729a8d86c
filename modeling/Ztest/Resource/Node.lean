import Mathlib.Tactic.Common

/-!
This module contains the identity, the observable state, the lifetime and the errors of a managed
cluster resource (`resource/provider.rs`, `resource/state.rs`).
-/

namespace Resource

inductive NodeId where
  | image (tag : String)
  | seed (name : String)
  | «namespace» (name : String)
  | nodeLabel (key : String)
  | runIdentity
  | buildkit
  | observability
  | metricsApi
  deriving DecidableEq

def NodeId.debug : NodeId → String
  | .image tag => s!"Image({tag.quote})"
  | .seed name => s!"Seed({name.quote})"
  | .namespace name => s!"Namespace({name.quote})"
  | .nodeLabel key => s!"NodeLabel({key.quote})"
  | .runIdentity => "RunIdentity"
  | .buildkit => "Buildkit"
  | .observability => "Observability"
  | .metricsApi => "MetricsApi"

inductive NodeState where
  | pending
  | acquiring
  | ready
  | failed (detail : String)
  | blocked
  deriving DecidableEq

namespace NodeState

def isReady : NodeState → Bool
  | .ready => true
  | _ => false

def isTerminal : NodeState → Bool
  | .ready => true
  | .failed _ => true
  | .blocked => true
  | _ => false

def isUnavailable : NodeState → Bool
  | .failed _ => true
  | .blocked => true
  | _ => false

end NodeState

inductive Lifetime where
  | cached
  | runScoped
  deriving DecidableEq

def Lifetime.isReaped : Lifetime → Bool
  | .cached => false
  | .runScoped => true

inductive Readiness where
  | ready
  | absent
  deriving DecidableEq

inductive ResourceError where
  | provision (detail : String)
  | teardown (detail : String)

def ResourceError.toString : ResourceError → String
  | .provision detail => s!"provision: {detail}"
  | .teardown detail => s!"teardown: {detail}"

end Resource
