import Ztest.Lib.Collect
import Ztest.Lib.Saturating
import Ztest.Lib.Lines
import Mathlib.Data.UInt

/-!
This module contains the directory of the recordings of a workspace: what a recorder puts there
(`RunRecorder::create`), which of it is listed as a run (`record/locate.rs`) and what the garbage collection
after each run deletes (`record/retention.rs`).
-/

namespace Engine
namespace Retention

structure Entry where
  name : Text
  isDir : Bool
  -- Every file below it, with its length.
  files : List (Text × UInt64)
  -- What its metadata say, in nanoseconds from the epoch on.
  modified : Option Int
  -- A `RunRecorder` is open on it.
  opened : Bool
  deriving DecidableEq

def logName : Text := ['r', 'u', 'n', '.', 'l', 'o', 'g', '.', 'z', 's', 't']

def metaName : Text := ['m', 'e', 't', 'a', '.', 'j', 's', 'o', 'n']

namespace Entry

def hasLog (e : Entry) : Bool := e.files.any (·.1 = logName)

def write (e : Entry) (path : Text) (len : UInt64) : Entry :=
  { e with files := (path, len) :: e.files.filter (·.1 ≠ path) }

def size (e : Entry) : UInt64 := (e.files.map Prod.snd).sum

theorem hasLog_write (e : Entry) (path : Text) (len : UInt64) (h : e.hasLog = true) : (e.write path len).hasLog = true := by
  unfold hasLog write at *
  by_cases hpath : path = logName
  . simp [hpath]
  . rcases List.any_eq_true.mp h with ⟨file, hfile, hname⟩
    have hname := of_decide_eq_true hname
    refine List.any_eq_true.mpr ⟨file, List.mem_cons_of_mem _ (List.mem_filter.mpr ⟨hfile, ?_⟩), decide_eq_true hname⟩
    rw [hname]
    exact decide_eq_true (Ne.symm hpath)

theorem hasLog_log (e : Entry) (len : UInt64) : (e.write logName len).hasLog = true := by
  simp [hasLog, write]

end Entry

/--
The directory `{cache}/records/{workspace_id}`. No recorder is open without a log.
-/
structure Root where
  entries : List Entry
  distinct : (entries.map Entry.name).Nodup
  logged : ∀ e ∈ entries, e.opened = true → e.isDir = true ∧ e.hasLog = true

namespace Root

def empty : Root := ⟨[], List.nodup_nil, by simp⟩

def put (root : Root) (e : Entry) (h : e.opened = true → e.isDir = true ∧ e.hasLog = true) : Root where
  entries := e :: root.entries.filter (·.name ≠ e.name)
  distinct := by
    rw [List.map_cons, List.nodup_cons]
    refine ⟨?_, root.distinct.sublist (List.filter_sublist.map _)⟩
    intro hmem
    rcases List.mem_map.mp hmem with ⟨other, hother, hname⟩
    exact absurd hname (of_decide_eq_true (List.mem_filter.mp hother).2)
  logged := by
    intro other hother
    rcases List.mem_cons.mp hother with rfl | hother
    . exact h
    . exact root.logged other (List.mem_filter.mp hother).1

def remove (root : Root) (p : Entry → Bool) : Root where
  entries := root.entries.filter fun e => !p e
  distinct := root.distinct.sublist (List.filter_sublist.map _)
  logged := fun e he => root.logged e (List.mem_filter.mp he).1

def find (root : Root) (name : Text) : Option Entry := root.entries.find? (·.name = name)

theorem logged_of_find {root : Root} {name : Text} {e : Entry} (h : root.find name = some e)
    : e.opened = true → e.isDir = true ∧ e.hasLog = true := root.logged e (List.mem_of_find?_eq_some h)

-- `create_dir_all`, `none` when there is something else than a directory.
def createDir (root : Root) (name : Text) (modified : Option Int)
    : Option { e : Entry // e.isDir = true ∧ (e.opened = true → e.hasLog = true) } :=
  match h : root.find name with
  | some e => if hdir : e.isDir = true then some ⟨e, hdir, fun hopened => (logged_of_find h hopened).2⟩ else none
  | none => some ⟨⟨name, true, [], modified, false⟩, rfl, by simp⟩

-- The first call of `RunRecorder::create` to fail after `create_dir_all`.
inductive CreateFault where
  | metaJson
  | log
  deriving DecidableEq

def create (root : Root) (name : Text) (metaLen : UInt64) (modified : Option Int) (fault : Option CreateFault) : Root :=
  match root.createDir name modified with
  | none => root
  | some ⟨e, hdir, hlog⟩ =>
    match fault with
    | some .metaJson => root.put { e with modified } fun h => ⟨hdir, hlog h⟩
    | some .log => root.put { e.write metaName metaLen with modified } fun h => ⟨hdir, e.hasLog_write _ _ (hlog h)⟩
    | none =>
      root.put { (e.write metaName metaLen).write logName 0 with modified, opened := true } fun _ =>
        ⟨hdir, Entry.hasLog_log _ 0⟩

-- An open recorder writes to its log or puts a blob beside it.
def record (root : Root) (name path : Text) (len : UInt64) (modified : Option Int) : Root :=
  match h : root.find name with
  | some e =>
    if e.opened then
      root.put { e.write path len with modified } fun hopened =>
        ⟨(logged_of_find h hopened).1, e.hasLog_write _ _ (logged_of_find h hopened).2⟩
    else
      root
  | none => root

def close (root : Root) (name : Text) : Root :=
  match root.find name with
  | some e => root.put { e with opened := false } (by simp)
  | none => root

end Root

structure RunEntry where
  dir : Entry
  modified : Int
  deriving DecidableEq

def RunEntry.runId (run : RunEntry) : Text := run.dir.name

def RunEntry.ofEntry (e : Entry) : RunEntry := ⟨e, e.modified.getD 0⟩

-- The newest first. The sort is stable.
def listRunsIn (root : Root) : List RunEntry :=
  sortOn (fun run => -run.modified) ((root.entries.filter fun e => e.isDir && e.hasLog).map RunEntry.ofEntry)

def latest (root : Root) : Option Entry := (listRunsIn root).head?.map RunEntry.dir

structure RetentionPolicy where
  maxAge : Option Nat
  maxRuns : Option Nat
  maxBytes : Option UInt64

def RetentionPolicy.default : RetentionPolicy where
  maxAge := some (30 * 24 * 60 * 60 * 1000000000)
  maxRuns := some 100
  maxBytes := some (1024 * 1024 * 1024)

section Gc

variable (policy : RetentionPolicy) (now : Int)

-- No age is known of a run that was modified after `now`.
def tooOld (run : RunEntry) : Bool := policy.maxAge.any fun (age : Nat) => run.modified ≤ now && age < now - run.modified

def overCount (rank : Nat) : Bool := policy.maxRuns.any (· ≤ rank)

def overBytes (keptBytes size : UInt64) : Bool := policy.maxBytes.any (· < keptBytes.saturatingAdd size)

def stale (rank : Nat) (keptBytes : UInt64) (run : RunEntry) : Bool :=
  tooOld policy now run || overCount policy rank || overBytes policy keptBytes run.dir.size

-- What the loop passes over, and what it deletes.
def sweep : Nat → UInt64 → List RunEntry → List RunEntry × List RunEntry
  | _, _, [] => ([], [])
  | rank, keptBytes, run :: rest =>
    if stale policy now rank keptBytes run then
      let swept := sweep (rank + 1) keptBytes rest
      (swept.1, run :: swept.2)
    else
      let swept := sweep (rank + 1) (keptBytes.saturatingAdd run.dir.size) rest
      (run :: swept.1, swept.2)

-- `removes` says whether the deletion of a directory succeeds.
def gcIn (removes : Entry → Bool) (root : Root) : Root × Nat :=
  let deleted := (sweep policy now 0 0 (listRunsIn root)).2.filter fun run => removes run.dir
  (root.remove fun e => deleted.any (·.runId = e.name), deleted.length)

end Gc

end Retention
end Engine
