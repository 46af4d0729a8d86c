import Ztest.Image.Context.Impl
import Ztest.Image.Impl
import Mathlib.Logic.Function.Basic

/-!
This module contains the builds of one build pod (`RemoteBuildkit::build` in `backends/image/cluster.rs`, with
`dir_exists`, `stage_file` and `ship_context` of `backends/image/buildpod.rs`).

Of the work volume there are the context directories and the Dockerfile directories: the directory of an
export is read back and no more. What the target and the build arguments change is the command alone. When
a Dockerfile has the line that ends a heredoc, the lines after it are run as commands, which are taken to
leave the volume alone.
-/

namespace Image
namespace BuildPod

open Files (Path Node)
open Frame (Blob)

inductive Dir where
  | ctx (key : List UInt8)
  | df (hash : List UInt8)
  deriving DecidableEq

abbrev Contents : Type := Path → Option Node

abbrev Volume : Type := Dir → Option Contents

inductive Dockerfile where
  | path (path : Path)
  | text (text : List UInt8)

inductive Output where
  | image (tag : String)
  | files (dest : String)

structure Source where
  context : Context
  dockerfile : Dockerfile

inductive Built where
  | image (tag : String)
  | files

-- An API call is lost after some of the steps it makes in the pod.
structure Lost where
  steps : Nat
  message : String

-- A build with what happens to it.
structure Call where
  request : BuildRequest Source String Output
  checkout : Checkout
  -- The probe of a directory is answered.
  ctxProbe : Bool
  ship : Option Lost
  dfProbe : Bool
  stage : Option Lost
  exec : Except String Int
  fetch : Option String

inductive BuildError where
  | context (error : ShipError)
  | ship (message : String)
  | readDockerfile (path : Path)
  | stage (message : String)
  | exec (message : String)
  | failed (code : Int)
  | fetch (message : String)

-- `mkdir -p`, and then one entry after the other. A hard link is made to what the earlier entry left there.
def extract (contents : Contents) (entries : List Entry) : Contents :=
  entries.foldl (fun contents entry => Function.update contents entry.name (some entry.node)) contents

def Volume.fill (volume : Volume) (dir : Dir) (entries : List Entry) : Nat → Volume
  | 0 => volume
  | steps + 1 =>
    Function.update volume dir (some (extract ((volume dir).getD fun _ => none) (entries.take steps)))

-- A directory is filled, up to the step at which the call is lost.
def Volume.transfer (volume : Volume) (dir : Dir) (entries : List Entry) (failure : String → BuildError)
    : Option Lost → Volume × Except BuildError Unit
  | none => (volume.fill dir entries (entries.length + 1), .ok ())
  | some lost => (volume.fill dir entries lost.steps, .error (failure lost.message))

def shipContext (volume : Volume) (call : Call) (dir : Dir) : Volume × Except BuildError Unit :=
  match tarContext call.checkout call.request.source.context with
  | .error e => (volume, .error (.context e))
  | .ok entries => volume.transfer dir entries .ship call.ship

-- `ZTEST_DF_EOF`
def delimiter : List UInt8 := [90, 84, 69, 83, 84, 95, 68, 70, 95, 69, 79, 70]

def dockerfileName : List UInt8 := [68, 111, 99, 107, 101, 114, 102, 105, 108, 101]

-- The lines before the delimiter.
def heredoc (text : List UInt8) : List UInt8 :=
  ((text.splitOn 10).takeWhile (· ≠ delimiter)).flatMap (· ++ [10])

def stageFile (volume : Volume) (call : Call) (dir : Dir) (text : List UInt8) : Volume × Except BuildError Unit :=
  if h : (heredoc text).length < 2 ^ 63 then
    volume.transfer dir [⟨[dockerfileName], .file false ⟨heredoc text, h⟩, none⟩] .stage call.stage
  else
    (volume, .error (.stage "capacity overflow"))

def dockerfileText (checkout : Checkout) : Dockerfile → Except BuildError (List UInt8)
  | .text text => .ok text
  | .path path =>
    match checkout.files.metadata path with
    | some (.file _ bytes) => .ok bytes.val
    | _ => .error (.readDockerfile path)

variable (sha256 : List UInt8 → List UInt8)

def ctxDir (request : BuildRequest Source String Output) : Dir := .ctx (request.source.context.key sha256)

def dfDir (text : List UInt8) : Dir := .df (shortHash sha256 text)

-- A probe that is not answered says `false`.
def dirExists (volume : Volume) (answered : Bool) (dir : Dir) : Bool := answered && (volume dir).isSome

def prepareContext (volume : Volume) (call : Call) : Volume × Except BuildError Unit :=
  if dirExists volume call.ctxProbe (ctxDir sha256 call.request) then (volume, .ok ())
  else shipContext volume call (ctxDir sha256 call.request)

def prepareDockerfile (volume : Volume) (call : Call) : Volume × Except BuildError Unit :=
  match dockerfileText call.checkout call.request.source.dockerfile with
  | .error e => (volume, .error e)
  | .ok text =>
    if dirExists volume call.dfProbe (dfDir sha256 text) then (volume, .ok ())
    else stageFile volume call (dfDir sha256 text) text

-- Up to the `buildctl` command, which is run after an `ok`.
def prepare (volume : Volume) (call : Call) : Volume × Except BuildError Unit :=
  match prepareContext sha256 volume call with
  | (volume, .error e) => (volume, .error e)
  | (volume, .ok ()) => prepareDockerfile sha256 volume call

def finish (call : Call) : Except BuildError Built :=
  match call.exec with
  | .error message => .error (.exec message)
  | .ok code =>
    if code ≠ 0 then .error (.failed code)
    else
      match call.request.output with
      | .image tag => .ok (.image tag)
      | .files _ =>
        match call.fetch with
        | some message => .error (.fetch message)
        | none => .ok .files

def build (volume : Volume) (call : Call) : Volume × Except BuildError Built :=
  match prepare sha256 volume call with
  | (volume, .error e) => (volume, .error e)
  | (volume, .ok ()) => (volume, finish call)

def step (volume : Volume) (call : Call) : Except Empty (Volume × Except BuildError Built) :=
  .ok (build sha256 volume call)

end BuildPod
end Image
