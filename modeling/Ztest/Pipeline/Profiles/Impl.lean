import Ztest.Lib.Conditional
import Ztest.Qos.Footprint

/-!
This module contains the search of a test root for the profiles that its source declares
(`pipeline/profiles.rs`).
-/

namespace Pipeline
namespace Profiles

open Conditional

structure SyncTestArgs where
  name : String
  description : String
  subject : String
  timeout : String
  qos : String
  footprint : Option Qos.Footprint
  runner : Option Qos.Footprint
  tags : List String

-- `attr.span().start()`
structure Pos where
  line : Nat
  column : Nat
  deriving DecidableEq

-- An attribute other than `cfg` and `cfg_attr`. `args` is what `parse_args` makes of its arguments.
structure Invocation where
  path : List String
  args : Except String SyncTestArgs
  start : Pos
  not_cfg : path ≠ ["cfg"]
  not_cfg_attr : path ≠ ["cfg_attr"]

def pathOf {α : Type} : Attr α Invocation → List String
  | .cfg _ => ["cfg"]
  | .cfgAttr _ _ => ["cfg_attr"]
  | .plain inv => inv.path

-- The source keeps only the line of `start`.
structure ProfileStub where
  name : String
  description : String
  subject : String
  qos : String
  footprint : Option Qos.Footprint
  runner : Option Qos.Footprint
  timeout : String
  tags : List String
  package : String
  target : String
  file : String
  start : Pos
  gated : Bool
  deriving DecidableEq

structure BlindSpot where
  file : String
  reason : String

structure Scan where
  profiles : List ProfileStub
  blindSpots : List BlindSpot

def Scan.isUncertain (s : Scan) : Bool := !s.blindSpots.isEmpty || s.profiles.any ProfileStub.gated

def isSyncTestPath : List String → Bool
  | [one] => one = "sync_test"
  | krate :: segs => krate = "ztest" && segs.getLast? = some "sync_test"
  | [] => false

variable {α : Type}

def hasCfg (attrs : List (Attr α Invocation)) : Bool := attrs.any fun a => pathOf a = ["cfg"]

-- The names of a test root.
structure Target where
  path : String
  package : String
  target : String

def stub (args : SyncTestArgs) (t : Target) (start : Pos) (gated : Bool) : ProfileStub where
  name := args.name
  description := args.description
  subject := args.subject
  qos := args.qos
  footprint := args.footprint
  runner := args.runner
  timeout := args.timeout
  tags := args.tags
  package := t.package
  target := t.target
  file := t.path
  start := start
  gated := gated

def Scan.blind (found : Scan) (t : Target) (reason : String) : Scan :=
  { found with blindSpots := found.blindSpots ++ [⟨t.path, reason⟩] }

-- The loop over the attributes of a function. No path of a sync test is that of `cfg` or `cfg_attr`.
def visitAttr (t : Target) (gated : Bool) (found : Scan) : Attr α Invocation → Scan
  | .plain inv =>
    if isSyncTestPath inv.path then
      match inv.args with
      | .ok args => { found with profiles := found.profiles ++ [stub args t inv.start gated] }
      | .error e => found.blind t ("sync_test attribute did not parse: " ++ e)
    else
      found
  | _ => found

mutual

def visitItem (t : Target) (gated : Bool) (found : Scan) : Item α Invocation → Scan
  | .fn attrs => attrs.foldl (visitAttr t (gated || hasCfg attrs)) found
  | .mod attrs items => visitItems t (gated || hasCfg attrs) found items
  | .outOfLine _ ident => found.blind t ("out-of-line `mod " ++ ident ++ ";` not followed")
  | .other => found

def visitItems (t : Target) (gated : Bool) (found : Scan) : List (Item α Invocation) → Scan
  | [] => found
  | item :: items => visitItems t gated (visitItem t gated found item) items

end

inductive Source (α : Type) where
  | unreadable (e : String)
  | unparsable (e : String)
  | parsed (file : File α Invocation)

def scanFile (source : Source α) (t : Target) (blindSpots : List BlindSpot) : Scan :=
  match source with
  | .unreadable e => Scan.blind ⟨[], blindSpots⟩ t ("unreadable: " ++ e)
  | .unparsable e => Scan.blind ⟨[], blindSpots⟩ t ("unparsable: " ++ e)
  | .parsed file => visitItems t false ⟨[], blindSpots⟩ file.items

end Profiles
end Pipeline
