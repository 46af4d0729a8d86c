import Mathlib.Logic.Function.Basic
import Ztest.Qos.Quantity
import Ztest.Qos.Resources

/-!
This module contains what the pods and volume claims of a cluster reserve (`pipeline/cluster.rs`). Both are
listed over all namespaces.
-/

namespace Pipeline

def annotationDiskBps : String := "qos.ztest.io/disk-bps"

def annotationDiskIops : String := "qos.ztest.io/disk-iops"

def annotationDiskBytes : String := "qos.ztest.io/disk-bytes"

structure Pvc where
  ns : String
  name : Option String
  annotations : List (String × String)
  -- `spec.resources.requests["storage"]`
  storage : Option String
  deriving DecidableEq

-- `volumes` are those of its spec, each with the claim it mounts.
structure Pod extends Qos.Pod where
  ns : String
  volumes : List (Option String)

def pvcRequestedStorage (pvc : Pvc) : UInt64 := (pvc.storage.map fun q => Qos.parseMemBytes q.toList).getD 0

def pvcReservation (pvc : Pvc) : Qos.Resources :=
  let annotated := fun k => pvc.annotations.lookup k
  let diskBps := ((annotated annotationDiskBps).map fun s => Qos.parseMemBytes s.toList).getD 0
  let diskIops := ((annotated annotationDiskIops).bind Decimal.parseU64).getD 0
  let disk := ((annotated annotationDiskBytes).map fun s => Qos.parseMemBytes s.toList).getD
    (pvcRequestedStorage pvc)
  (Qos.Resources.new 0 0 diskBps diskIops).withDisk disk

-- The `HashMap` that the claims are collected into.
def byName (pvcs : List Pvc) : String → Option Pvc :=
  pvcs.foldl
    (fun m p =>
      match p.name with
      | some name => Function.update m name (some p)
      | none => m)
    fun _ => none

def podVolumeReservation (pod : Pod) (named : String → Option Pvc) : Qos.Resources :=
  match pod.spec with
  | none => .zero
  | some _ =>
    ((pod.volumes.filterMap id).filterMap named).foldl (fun acc pvc => acc.saturatingAdd (pvcReservation pvc)) .zero

def clusterReserved (pods : List Pod) (pvcs : List Pvc) : Qos.Resources :=
  (pods.filter fun p => Qos.podHoldsCapacity p.toPod).foldl
    (fun acc pod =>
      (acc.saturatingAdd (Qos.podFootprint pod.toPod)).saturatingAdd (podVolumeReservation pod (byName pvcs)))
    .zero

end Pipeline
