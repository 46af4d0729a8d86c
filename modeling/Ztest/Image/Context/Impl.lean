import Ztest.Lib.Files
import Mathlib.Data.List.Lex
import Mathlib.Data.List.Sort
import Mathlib.Data.Prod.Lex

/-!
This module contains build contexts (`Context` in `backends/image/mod.rs`, `selected_files` and `spawn_tar` in
`backends/image/buildpod.rs`) and the tag of the runner image (`runner_key` in `pipeline/runner.rs`).

`Checkout` is the world outside: the file system, what git lists in a repository and the ceiling on the size
of a context. SHA-256 is a parameter. A read of a file that fails is left out.
-/

namespace Image

open Files (Path Node)
open Frame (Blob lenPrefixed leBytes hex)

structure Context where
  root : Path
  repos : List Path

structure Checkout where
  files : Files.Tree
  -- The output of `git ls-files -z --cached --others --exclude-standard`.
  lsFiles : Path → Except String (List UInt8)
  -- `git rev-parse --show-toplevel` succeeds.
  inWorkTree : Path → Bool
  contextMaxBytes : Nat

inductive ShipError where
  | outsideRoot (repo : Path)
  | git (message : String)
  | nothing
  | capacityOverflow
  | oversized (total : Nat) (sized : List (Nat × Path))
  | noWorkTree (repo : Path)
  deriving DecidableEq

-- Of the archive: a name with what is there. A hard link to the entry of an earlier name has no bytes.
structure Entry where
  name : Path
  node : Node
  hardLink : Option Path
  deriving DecidableEq

def displayPath (path : Path) : List UInt8 := path.flatMap (47 :: ·)

def joinNames (path : Path) : List UInt8 := (path.intersperse [47]).flatten

def stripPrefix (root path : Path) : Option Path := if root <+: path then some (path.drop root.length) else none

section Context

variable (checkout : Checkout)

-- `Vec::with_capacity` panics on what no allocation holds.
def relative (repoRel : Path) (name : List UInt8) : Except ShipError Blob :=
  let rel := if repoRel = [] then name else joinNames repoRel ++ 47 :: name
  if h : rel.length < 2 ^ 63 then .ok ⟨rel, h⟩ else .error .capacityOverflow

def listRepo (root repo : Path) : Except ShipError (List Blob) :=
  match stripPrefix root repo with
  | none => .error (.outsideRoot repo)
  | some repoRel =>
    match checkout.lsFiles repo with
    | .error message => .error (.git message)
    | .ok stdout => ((stdout.splitOn 0).filter (· ≠ [])).mapM (relative repoRel)

def selectedFiles (context : Context) : Except ShipError (List (Blob × Path)) := do
  let names ← context.repos.mapM (listRepo checkout context.root)
  let selected := names.flatten.map fun rel => (rel, context.root ++ Files.components rel.val)
  if selected = [] then .error .nothing else .ok selected

def nodeText : Node → List UInt8
  | .file executable bytes => 0 :: (if executable then 1 else 0) :: lenPrefixed bytes
  | .link target => 1 :: lenPrefixed target
  | .dir => [2]

def entryText (entry : Blob × Node) : List UInt8 := lenPrefixed entry.1 ++ nodeText entry.2

def present (selected : List (Blob × Path)) : List (Blob × Node) :=
  selected.filterMap fun (rel, path) => (checkout.files.symlinkMetadata path).map (rel, ·)

def contentText (context : Context) : Except ShipError (List UInt8) :=
  (selectedFiles checkout context).map fun selected => (present checkout selected).flatMap entryText

-- What `tar` comes by: the name in the archive, the place in the tree and what is there.
structure Visit where
  name : Path
  real : Path
  node : Node

-- `tar` takes a directory with everything below it, and a symbolic link as the link.
def visits (rel : Blob) (path : Path) : List Visit :=
  match checkout.files.locate path with
  | none => []
  | some real =>
    match checkout.files.lookup real with
    | none => []
    | some .dir =>
      (checkout.files.below real).map fun (name, node) => ⟨Files.components rel.val ++ name, real ++ name, node⟩
    | some node => [⟨Files.components rel.val, real, node⟩]

def Visit.sameFile (v u : Visit) : Bool :=
  u.node ≠ .dir && checkout.files.inode u.real = checkout.files.inode v.real

-- The name under which the file was archived before.
def Visit.hardLink (before : List Visit) (v : Visit) : Option Path :=
  if v.node = .dir then none else (before.find? (v.sameFile checkout)).map Visit.name

def archive (before : List Visit) : List Visit → List Entry
  | [] => []
  | v :: rest => ⟨v.name, v.node, v.hardLink checkout before⟩ :: archive (before ++ [v]) rest

-- The sizes of the regular files, links followed.
def sizes (selected : List (Blob × Path)) : List (Nat × Path) :=
  selected.filterMap fun (_, path) =>
    match checkout.files.metadata path with
    | some (.file _ bytes) => some (bytes.val.length, path)
    | _ => none

def spawnTar (context : Context) : Except ShipError (List Entry) := do
  let selected ← selectedFiles checkout context
  let sized := sizes checkout selected
  let total := (sized.map Prod.fst).sum
  if checkout.contextMaxBytes < total then
    .error (.oversized total sized)
  else
    let list := selected.filter fun (_, path) => (checkout.files.metadata path).isSome
    .ok (archive checkout [] (list.flatMap fun (rel, path) => visits checkout rel path))

def tarContext (context : Context) : Except ShipError (List Entry) :=
  match context.repos.find? fun repo => !checkout.inWorkTree repo with
  | some repo => .error (.noWorkTree repo)
  | none => spawnTar checkout context

end Context

section Keys

variable (sha256 : List UInt8 → List UInt8)

def contentDigest (checkout : Checkout) (context : Context) : Except ShipError (List UInt8) :=
  (contentText checkout context).map fun text => hex (sha256 text)

def shortHash (bytes : List UInt8) : List UInt8 := hex ((sha256 bytes).take 8)

def Context.key (context : Context) : List UInt8 :=
  shortHash sha256 (displayPath context.root ++ context.repos.flatMap fun repo => 0 :: displayPath repo)

abbrev Arg : Type := Blob × Blob

def argOrder (arg : Arg) : List Nat ×ₗ List Nat := toLex (arg.1.val.map UInt8.toNat, arg.2.val.map UInt8.toNat)

def argLe (a b : Arg) : Prop := argOrder a ≤ argOrder b

instance : DecidableRel argLe := fun a b => inferInstanceAs (Decidable (argOrder a ≤ argOrder b))

def argText (arg : Arg) : List UInt8 := lenPrefixed arg.1 ++ lenPrefixed arg.2

def runnerKeySchema : Nat := 1

def keyText (dockerfile : List UInt8) (buildArgs : List Arg) (content : List UInt8) : List UInt8 :=
  leBytes 4 runnerKeySchema ++ dockerfile ++ (buildArgs.insertionSort argLe).flatMap argText ++ content

def foldKey (dockerfile : List UInt8) (buildArgs : List Arg) (content : List UInt8) : List UInt8 :=
  shortHash sha256 (keyText dockerfile buildArgs content)

-- The Dockerfile is the one compiled in.
def runnerKey (dockerfile : List UInt8) (checkout : Checkout) (context : Context) (buildArgs : List Arg)
    : Except ShipError (List UInt8) :=
  (contentDigest sha256 checkout context).map fun content => foldKey sha256 dockerfile buildArgs content

end Keys

end Image
