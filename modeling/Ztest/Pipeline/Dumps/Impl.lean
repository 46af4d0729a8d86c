import Ztest.Lib.Decimal
import Ztest.Lib.Lines
import Ztest.Lib.Utf8
import Ztest.Plan.Sync.Impl

/-!
This module contains the export of the runner image: the inventories of all suites in one file, framed as the
loop of `runner.Dockerfile` frames them, and how the file is taken apart and read (`pipeline/runner.rs`,
`parse_inventory` of `pipeline/images.rs`).

The JSON of one line is read by `Json.line`, and `list.json` is what `parse_list_summary` makes of it.
-/

namespace Pipeline
namespace Dumps

open Planner (SelectedBinary SyncDumped SyncInventory)

-- `ZTEST_DUMP_BEGIN ` and `ZTEST_DUMP_END `
def beginMark : Text := ['Z', 'T', 'E', 'S', 'T', '_', 'D', 'U', 'M', 'P', '_', 'B', 'E', 'G', 'I', 'N', ' ']

def endMark : Text := ['Z', 'T', 'E', 'S', 'T', '_', 'D', 'U', 'M', 'P', '_', 'E', 'N', 'D', ' ']

def rcMark : Text := ['r', 'c', '=']

-- One turn of the loop: the file name of a test binary, what the binary printed and its exit status.
structure Suite where
  name : Text
  stdout : Text
  rc : UInt8
  deriving DecidableEq

def Suite.beginLine (s : Suite) : Text := beginMark ++ s.name

def Suite.endLine (s : Suite) : Text := endMark ++ s.name ++ ' ' :: (rcMark ++ Nat.toDigits 10 s.rc.toNat)

def Suite.frame (s : Suite) : Text := '\n' :: s.beginLine ++ '\n' :: s.stdout ++ '\n' :: s.endLine ++ ['\n']

def exported (suites : List Suite) : Text := suites.flatMap Suite.frame

def lines (text : Text) : List Text := Lines.rows '\n' '\r' text

inductive InventoryLine where
  | dev (entry : Image.DevImageEntry)
  | qos (entry : Planner.QosEntry)
  | seed (entry : Planner.SeedEntry)
  | dep (entry : Planner.TestDepEntry)
  | syncTest (entry : Planner.SyncTestEntry)

-- What stands outside: `serde_json` on a line, the format `{:?}` of a text, and `rehome_dump`.
structure Json where
  line : Text → Except Text InventoryLine
  debug : Text → Text
  rehome : SyncInventory → SyncInventory

def SyncDumped.push (d : SyncDumped) : InventoryLine → SyncDumped
  | .dev entry => { d with dev := d.dev ++ [entry] }
  | .qos entry => { d with qos := d.qos ++ [entry] }
  | .seed entry => { d with seeds := d.seeds ++ [entry] }
  | .dep entry => { d with deps := d.deps ++ [entry] }
  | .syncTest entry => { d with syncTests := d.syncTests ++ [entry] }

def SyncDumped.default : SyncDumped where
  dev := []
  qos := []
  seeds := []
  deps := []
  syncTests := []

variable (json : Json)

def parseLine (dumped : SyncDumped) (line : Text) : Except Text SyncDumped :=
  match json.line line with
  | .ok entry => .ok (SyncDumped.push dumped entry)
  | .error e =>
    if (line.dropWhile Decimal.isWhitespace).head? ≠ some '{' then
      .error ("`".toList ++ line ++ ("` is not an inventory line: the binary ran without ztest's dump hook (its crate does "
        ++ "not depend on `ztest`)").toList)
    else
      .error ("malformed inventory line `".toList ++ line ++ "`: ".toList ++ e)

def parseInventory (stdout : Text) : Except Text SyncDumped :=
  ((lines stdout).filter (· ≠ [])).foldlM (parseLine json) SyncDumped.default

structure Scan where
  byName : Text → Option (Text × Int)
  cur : Option (Text × Text)

def Scan.init : Scan where
  byName := fun _ => none
  cur := none

def rcOf (word : Option Text) : Int := ((word.bind (·.dropPrefix? rcMark)).bind Decimal.parseI32).getD 1

def scanLine (s : Scan) (line : Text) : Except Text Scan :=
  match line.dropPrefix? beginMark with
  | some rest => .ok { s with cur := some (Decimal.trim rest, []) }
  | none =>
    match line.dropPrefix? endMark with
    | some rest =>
      match Decimal.words rest with
      | [] => .error ("bad dump end marker: ".toList ++ json.debug line)
      | name :: words =>
        match s.cur with
        | some (n, buf) =>
          if n = name then .ok ⟨Function.update s.byName name (some (buf, rcOf words.head?)), none⟩
          else .error ("mismatched dump markers at ".toList ++ json.debug name)
        | none => .error ("mismatched dump markers at ".toList ++ json.debug name)
    | none =>
      match s.cur with
      | some (n, buf) => .ok { s with cur := some (n, buf ++ line ++ ['\n']) }
      | none => .ok s

-- `file_name`, or nothing
def fileName (path : Text) : Text :=
  match ((path.splitOn '/').filter fun part => part ≠ [] ∧ part ≠ ['.']).getLast? with
  | some name => if name = ['.', '.'] then [] else name
  | none => []

-- Each block is taken out of the map.
def takeBlocks (byName : Text → Option (Text × Int)) : List SelectedBinary → Except Text (List (Text × Int))
  | [] => .ok []
  | b :: rest =>
    match byName (fileName b.binaryPath) with
    | none => .error ("inventory: no block for ".toList ++ json.debug (fileName b.binaryPath))
    | some block => (takeBlocks (Function.update byName (fileName b.binaryPath) none) rest).map (block :: ·)

def splitDumpsByName (out : Text) (selected : List SelectedBinary) : Except Text (List (Text × Int)) :=
  match (lines out).foldlM (scanLine json) Scan.init with
  | .error e => .error e
  | .ok s => takeBlocks json s.byName selected

def tail (s : Text) (n : Nat) : Text := Lines.join '\n' ((lines s).drop ((lines s).length - n))

def readDumps : List (SelectedBinary × Text × Int) → Except Text (List SyncDumped)
  | [] => .ok []
  | (bin, chunk, rc) :: rest =>
    if rc ≠ 0 then
      .error ("inventory dump of ".toList ++ bin.binaryId ++ " failed (exit ".toList ++ (toString rc).toList ++ "):\n".toList
        ++ tail chunk 40)
    else
      match parseInventory json chunk with
      | .error e => .error ("parse inventory of ".toList ++ bin.binaryId ++ ": ".toList ++ e)
      | .ok dumped => (readDumps rest).map (dumped :: ·)

-- What `parse_list_summary` says: an error, no selection, or the selected binaries.
abbrev Listed : Type := Except Text (Option (List SelectedBinary))

structure CompileOutcome where
  selected : List SelectedBinary
  dump : SyncInventory
  runnerImageRef : Text

def assembleOutcome (listed : Listed) (inventory runnerImageRef : Text) : Except Text CompileOutcome :=
  match listed with
  | .error e => .error ("parse nextest list: ".toList ++ e)
  | .ok none => .error "nextest list produced no selection".toList
  | .ok (some selected) =>
    if selected = [] then
      .error "nextest list selected no test binaries".toList
    else
      match splitDumpsByName json inventory selected with
      | .error e => .error e
      | .ok sections =>
        (readDumps json (selected.zip sections)).map fun dumps =>
          ⟨selected, json.rehome (Planner.assembleSync selected dumps), runnerImageRef⟩

-- The end of `compile`, from the exported file on.
def outcomeOfFile (listed : Listed) (file : List UInt8) (runnerImageRef : Text) : Except Text CompileOutcome :=
  match Utf8.decode file with
  | none => .error "read exported inventory.jsonl: stream did not contain valid UTF-8".toList
  | some inventory => assembleOutcome json listed inventory runnerImageRef

end Dumps
end Pipeline
