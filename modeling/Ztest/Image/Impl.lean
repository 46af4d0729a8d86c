import Ztest.Resource.Node
import Mathlib.Data.List.Sort

/-!
This module contains dev images: their tag, their path-free identity, the image nodes that
`plan_runtime` plans for a run, the builds of these nodes and what a test looks up
(`backends/image/mod.rs`, `resource/entry.rs`).

`Host` is the world outside: SHA-256, the digest of a packed worktree, what is shipped of it, and the trees
that git revisions name. A fetch that fails builds nothing and is left out, as are the seeds of a plan.
-/

namespace Image

open Resource (NodeId NodeState)

inductive DevSource where
  | «local» (dockerfile context : String)
  | git (url rev dockerfile context : String)
  deriving DecidableEq

structure DevImageEntry where
  repo : String
  source : DevSource
  features : List String
  rustVersion : Option String
  deriving DecidableEq

-- What an image is built from: what is shipped of a worktree, or two paths in the tree of a revision.
inductive Content (Tree : Type) where
  | worktree (shipped : List UInt8)
  | tree (root : Tree) (dockerfile context : String)
  deriving DecidableEq

structure Host (Tree : Type) where
  -- Of the UTF-8 of a text, in hex.
  sha256 : String → String
  -- The digest of `bundle::pack`. Only the tag is made of it.
  digest : String → String → Except String String
  -- The selection of git in a context, and the Dockerfile.
  ship : String → String → List UInt8
  checkout : String → String → Tree
  -- The `channel` in the `rust-toolchain.toml` of a context, if it is a version.
  toolchainRustVersion : Content Tree → Option String

def isHexDigit (c : Char) : Bool := c.isDigit || ('a' ≤ c && c ≤ 'f') || ('A' ≤ c && c ≤ 'F')

def sanitizeRev (rev : String) : String :=
  let chars := rev.toList
  if 12 ≤ chars.length ∧ chars.all isHexDigit then
    String.ofList (chars.take 12)
  else
    String.ofList (chars.map fun c => if c.isAlphanum then c else '-')

-- The path-free origin of a source.
def DevSource.originKind : DevSource → String
  | .local _ _ => "local"
  | .git url rev _ _ => "git:" ++ url ++ "@" ++ rev

def DevSource.describe : DevSource → String
  | .local dockerfile _ => dockerfile
  | .git url rev _ _ => url ++ "@" ++ rev

-- What `fold_suffix` hashes, as characters or as bytes.
def foldText {α : Type} (comma : α) (mark base : List α) (features : List (List α)) (rustVersion : Option (List α))
    : List α :=
  base ++ features.flatMap (· ++ [comma]) ++ (rustVersion.map (mark ++ ·)).getD []

def foldFeatures (features : List String) : String := String.join (features.map (· ++ ","))

variable {Tree : Type} (host : Host Tree)

-- The first `bytes` bytes of a hash.
def shortHex (bytes : Nat) (text : String) : String :=
  String.ofList ((host.sha256 text).toList.take (2 * bytes))

def foldSuffix (base : String) (features : List String) (rustVersion : Option String) : String :=
  shortHex host 6 (String.ofList
    (foldText ',' "rust:".toList base.toList (features.map String.toList) (rustVersion.map String.toList)))

def tagSuffix (source : DevSource) (features : List String) (rustVersion : Option String)
    : Except String String :=
  match source with
  | .local dockerfile context =>
    match host.digest context dockerfile with
    | .error e => .error e
    | .ok digest => .ok (foldSuffix host digest features rustVersion)
  | .git _ rev _ _ =>
    let base := sanitizeRev rev
    if features.isEmpty ∧ rustVersion.isNone then
      .ok base
    else
      .ok (base ++ "-" ++ foldSuffix host "" features rustVersion)

def devTag (e : DevImageEntry) : Except String String :=
  match tagSuffix host e.source e.features e.rustVersion with
  | .error err => .error err
  | .ok suffix => .ok (e.repo ++ ":dev-" ++ suffix)

-- The text that a `DevImageId` is the hash of.
def idText (e : DevImageEntry) : String :=
  e.repo ++ "\x00" ++ foldFeatures (e.features.insertionSort (· ≤ ·)) ++ "\x00" ++ e.rustVersion.getD ""
    ++ "\x00" ++ e.source.originKind

def devImageId (e : DevImageEntry) : String := shortHex host 12 (idText e)

abbrev DevTags := String → Option String

namespace DevTags

def hash (tags : DevTags) : List DevImageEntry → Except String DevTags
  | [] => .ok tags
  | e :: rest =>
    match devTag host e with
    | .error err => .error err
    | .ok tag => hash (Function.update tags (devImageId host e) (some tag)) rest

def tag (tags : DevTags) (e : DevImageEntry) : String := (tags (devImageId host e)).getD ""

end DevTags

structure ImageNode where
  entry : DevImageEntry
  tag : String
  deriving DecidableEq

def ImageNode.id (node : ImageNode) : NodeId := .image node.tag

def addDedup (nodes : List ImageNode) (node : ImageNode) : List ImageNode :=
  if node.id ∈ nodes.map ImageNode.id then nodes else nodes ++ [node]

structure Plan where
  tags : DevTags
  nodes : List ImageNode

def planRuntime (images : List DevImageEntry) : Except String Plan :=
  match DevTags.hash host (fun _ => none) images with
  | .error err => .error err
  | .ok tags =>
    .ok ⟨tags, images.foldl (fun nodes e => addDedup nodes ⟨e, tags.tag host e⟩) []⟩

-- `Source` is a context and a Dockerfile, in the form that its reader needs.
structure BuildRequest (Source Text Output : Type) where
  source : Source
  -- A stage of the Dockerfile.
  target : Option Text
  buildArgs : List (Text × Text)
  output : Output
  deriving DecidableEq

-- The trees under `git-src`, by the name of their directory.
abbrev GitSrc (Tree : Type) := String → Option Tree

def fetchGitRev (cache : GitSrc Tree) (url rev : String) : GitSrc Tree × Tree :=
  let key := sanitizeRev rev
  match cache key with
  | some root => (cache, root)
  | none => (Function.update cache key (some (host.checkout url rev)), host.checkout url rev)

def materialize (cache : GitSrc Tree) : DevSource → GitSrc Tree × Content Tree
  | .local dockerfile context => (cache, .worktree (host.ship context dockerfile))
  | .git url rev dockerfile context =>
    let fetched := fetchGitRev host cache url rev
    (fetched.1, .tree fetched.2 dockerfile context)

def buildArgs (e : DevImageEntry) (content : Content Tree) : List (String × String) :=
  (match e.rustVersion.or (host.toolchainRustVersion content) with
    | none => []
    | some version => [("RUST_VERSION", version)])
  ++ (if e.features.isEmpty then [] else
      let joined := ",".intercalate e.features
      [("CARGO_FEATURES", joined), ("FEATURES", joined)])

def devRequest (cache : GitSrc Tree) (node : ImageNode) : GitSrc Tree × BuildRequest (Content Tree) String String :=
  let materialized := materialize host cache node.entry.source
  (materialized.1, ⟨materialized.2, none, buildArgs host node.entry materialized.2, node.tag⟩)

def builds (cache : GitSrc Tree) : List ImageNode → List (ImageNode × BuildRequest (Content Tree) String String)
  | [] => []
  | node :: rest =>
    let requested := devRequest host cache node
    (node, requested.2) :: builds requested.1 rest

inductive ClusterClass where
  | «local»
  | remote
  deriving DecidableEq

inductive ContainerRuntime where
  | docker
  | podman
  deriving DecidableEq

def ContainerRuntime.localTagPrefix : ContainerRuntime → String
  | .docker => ""
  | .podman => "localhost/"

-- What of the environment names the registry.
structure Site where
  selectedClass : ClusterClass
  runtime : ContainerRuntime
  pullBase : Option String
  pushBase : Option String

def join (base tag : String) : String :=
  String.ofList (base.toList.reverse.dropWhile (· == '/')).reverse ++ "/" ++ tag

def podReference (site : Site) (tag : String) : String :=
  match site.selectedClass with
  | .local => site.runtime.localTagPrefix ++ tag
  | .remote =>
    match site.pullBase.or site.pushBase with
    | none => tag
    | some base => join base tag

def isFailed : Option NodeState → Bool
  | some (.failed _) => true
  | _ => false

-- `DevImageId → pull ref` of every planned image that did not fail.
def DevTags.imageRefs (site : Site) (tags : DevTags) (states : NodeId → Option NodeState)
    : String → Option String :=
  fun id => match tags id with
  | none => none
  | some tag => if isFailed (states (.image tag)) then none else some (podReference site tag)

inductive ImageError where
  | devImageMissing (image declaredBy : String)
  deriving DecidableEq

def imageReference (manifest : String → Option String) (e : DevImageEntry) : Except ImageError String :=
  match manifest (devImageId host e) with
  | none => .error (.devImageMissing e.repo e.source.describe)
  | some reference => .ok reference

end Image
