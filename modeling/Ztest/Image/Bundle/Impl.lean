import Mathlib.Data.List.Infix
import Ztest.Lib.Decimal
import Ztest.Image.Context.Impl
import Ztest.Image.Impl

/-!
This module contains `pack` of `backends/image/bundle.rs`, which archives the directory of a dev image for
its tag, and the tag itself. What it leaves out is said by the built-in names and by the patterns of
`.dockerignore`.

The crates `globset` and `tar` are parameters: what a glob matches, and the bytes that a `Builder` holds
after a list of calls to `append_data`.
-/

namespace Image
namespace Bundle

open Files (Path Node)
open Frame (Blob hex)

def dockerfileName : List UInt8 := [68, 111, 99, 107, 101, 114, 102, 105, 108, 101]

def ignoreName : List UInt8 := [46, 100, 111, 99, 107, 101, 114, 105, 103, 110, 111, 114, 101]

def defaultIgnores : List (List UInt8) :=
  [[116, 97, 114, 103, 101, 116], [46, 103, 105, 116],
    [110, 111, 100, 101, 95, 109, 111, 100, 117, 108, 101, 115]]

def isBuiltInIgnore (rel : Path) : Bool := rel.any fun name => name ∈ defaultIgnores

structure Pattern where
  matcher : Path → Bool
  negated : Bool
  dirOnly : Bool

-- The proper ancestors of a path, from its parent up to the last one that is not empty.
def ancestors (rel : Path) : List Path := ((List.range' 1 (rel.length - 1)).map rel.take).reverse

def Pattern.matches (p : Pattern) (rel : Path) (isDir : Bool) : Bool :=
  if p.matcher rel then !p.dirOnly || isDir else (ancestors rel).any p.matcher

def excludes (patterns : List Pattern) (rel : Path) (isDir : Bool) : Bool :=
  if rel = [dockerfileName] ∨ rel = [ignoreName] then
    false
  else if isBuiltInIgnore rel then
    true
  else
    patterns.foldl (fun excluded p => if p.matches rel isDir then !p.negated else excluded) false

-- Of a line that is trimmed, empty lines and comments left out. `glob` is `GlobBuilder` with `literal_separator`.
def Pattern.parse (glob : List Char → Option (Path → Bool)) (line : List Char) : Option Pattern :=
  match Decimal.trim line with
  | [] | '#' :: _ => none
  | first :: rest =>
    let negated := first = '!'
    let body := if negated then Decimal.trim rest else first :: rest
    let dirOnly := body.getLast? = some '/'
    let body := (body.dropWhile (· = '/')).rdropWhile (· = '/')
    let body := if ['.', '/'] <+: body then body.drop 2 else body
    if body = [] then none else (glob body).map fun matcher => ⟨matcher, negated, dirOnly⟩

structure Worktree where
  checkout : Checkout
  context : Path
  dockerfile : Path

section Pack

variable (glob : List Char → Option (Path → Bool)) (tree : Files.Tree)

def read (path : Path) : Option Blob :=
  match tree.metadata path with
  | some (.file _ bytes) => some bytes
  | _ => none

-- `Ignore::load`. A file that is none, or is not UTF-8, has no patterns.
def load (context : Path) : List Pattern :=
  match (read tree (context ++ [ignoreName])).bind fun bytes => String.fromUTF8? ⟨bytes.val.toArray⟩ with
  | some text => (text.toList.splitOn '\n').filterMap (Pattern.parse glob)
  | none => []

inductive Kind where
  | dir
  | file (bytes : Blob)
  deriving DecidableEq

structure Entry where
  path : List UInt8
  kind : Kind
  deriving DecidableEq

-- How many bytes the next sequence of UTF-8 has, and whether it is complete. As many bytes as may begin a
-- sequence make up a broken one.
def sequence : List UInt8 → Nat × Bool
  | [] => (0, true)
  | lead :: rest =>
    let continues (lo hi : UInt8) (n : Nat) : Bool := rest[n]?.any fun byte => lo ≤ byte ∧ byte ≤ hi
    let tail (lo hi : UInt8) (width : Nat) : Nat × Bool :=
      if !continues lo hi 0 then (1, false)
      else if width = 2 then (2, true)
      else if !continues 128 191 1 then (2, false)
      else if width = 3 then (3, true)
      else if !continues 128 191 2 then (3, false)
      else (4, true)
    if lead < 128 then (1, true)
    else if 194 ≤ lead ∧ lead ≤ 223 then tail 128 191 2
    else if lead = 224 then tail 160 191 3
    else if lead = 237 then tail 128 159 3
    else if 225 ≤ lead ∧ lead ≤ 239 then tail 128 191 3
    else if lead = 240 then tail 144 191 4
    else if 241 ≤ lead ∧ lead ≤ 243 then tail 128 191 4
    else if lead = 244 then tail 128 143 4
    else (1, false)

def replacement : List UInt8 := [239, 191, 189]

def lossyFrom : Nat → List UInt8 → List UInt8
  | 0, _ => []
  | fuel + 1, bytes =>
    if bytes = [] then []
    else
      let (width, whole) := sequence bytes
      (if whole then bytes.take width else replacement) ++ lossyFrom fuel (bytes.drop width)

def lossy (bytes : List UInt8) : List UInt8 := lossyFrom bytes.length bytes

def entryPath (rel : Path) : List UInt8 := lossy (joinNames rel)

-- `filter_entry`, which prunes the built-in directories with what is below.
def pruned (real rel : Path) : Bool :=
  (rel :: ancestors rel).any fun dir => tree.lookup (real ++ dir) = some .dir ∧ isBuiltInIgnore dir

-- What `WalkDir` gives, but for the context itself.
def walk (context : Path) : Option (List (Path × Node)) :=
  (tree.realPath context).map fun real =>
    (tree.below real).filter fun (rel, _) => rel ≠ [] ∧ !pruned tree real rel

-- A link to a file is the file.
def collectEntry (context : Path) (patterns : List Pattern) (walked : Path × Node) : Option Entry :=
  if excludes patterns walked.1 (walked.2 = .dir) then
    none
  else
    match walked.2 with
    | .dir => some ⟨entryPath walked.1, .dir⟩
    | .file _ bytes => some ⟨entryPath walked.1, .file bytes⟩
    | .link _ => (read tree (context ++ walked.1)).map fun bytes => ⟨entryPath walked.1, .file bytes⟩

inductive PackError where
  | walk
  | readFile (path : Path)
  | bundle (message : String)
  deriving DecidableEq

def collect (context : Path) : Except PackError (List Entry) :=
  match walk tree context with
  | some walked => .ok (walked.filterMap (collectEntry tree context (load glob tree context)))
  | none => .error .walk

-- The entries that `pack` writes, with the Dockerfile in the place of the context's own.
def entries (w : Worktree) : Except PackError (List Entry) := do
  let collected ← collect glob w.checkout.files w.context
  match read w.checkout.files w.dockerfile with
  | none => .error (.readFile w.dockerfile)
  | some bytes =>
    let staged : Entry := ⟨dockerfileName, .file bytes⟩
    .ok ((collected.filter (·.path ≠ dockerfileName) ++ [staged]).insertionSort fun a b => a.path ≤ b.path)

end Pack

inductive EntryType where
  | directory
  | regular
  deriving DecidableEq

structure Header where
  entryType : EntryType
  mode : Nat
  size : Nat
  mtime : Nat
  uid : Nat
  gid : Nat

structure Append where
  header : Header
  path : List UInt8
  data : List UInt8

-- The mode is that of any file, and of any directory.
def append (entry : Entry) : Append :=
  match entry.kind with
  | .dir => ⟨⟨.directory, 0o755, 0, 0, 0, 0⟩, entry.path ++ [47], []⟩
  | .file bytes => ⟨⟨.regular, 0o644, bytes.val.length, 0, 0, 0⟩, entry.path, bytes.val⟩

section Tag

variable (glob : List Char → Option (Path → Bool)) (tar : List Append → Except String (List UInt8))
  (sha256 : List UInt8 → List UInt8)

def writeTar (es : List Entry) : Except PackError (List UInt8) := (tar (es.map append)).mapError .bundle

def pack (w : Worktree) : Except PackError (List UInt8) := do
  let es ← entries glob w
  writeTar tar es

def rustMark : List UInt8 := [114, 117, 115, 116, 58]

def suffixText (base : List UInt8) (features : List (List UInt8)) (rustVersion : Option (List UInt8)) : List UInt8 :=
  foldText 44 rustMark base features rustVersion

def foldSuffix (base : List UInt8) (features : List (List UInt8)) (rustVersion : Option (List UInt8)) : List UInt8 :=
  hex ((sha256 (suffixText base features rustVersion)).take 6)

-- `tag_suffix` of `DevSource::Local`
def tagSuffix (w : Worktree) (features : List (List UInt8)) (rustVersion : Option (List UInt8))
    : Except PackError (List UInt8) :=
  (pack glob tar w).map fun bytes => foldSuffix sha256 (hex (sha256 bytes)) features rustVersion

end Tag

-- The context of `dev_request`: the directory, which is its own work tree.
def devContext (w : Worktree) : Context := ⟨w.context, [w.context]⟩

end Bundle
end Image
