import Ztest.Image.Impl
import Ztest.Lib.Shell

/-!
This module contains the `buildctl` command of one build (`backends/image/cluster.rs`), the selection that the
runner image is built with (`pipeline/runner.rs`) and the two commands of `runner.Dockerfile` that it reaches,
with the ones that a laptop runs instead (`pipeline/build.rs`).
-/

namespace Image
namespace Buildctl

@[irreducible]
def chars (text : String) : Text := text.toList

def shellQuote (s : Text) : Text :=
  ['\''] ++ s.flatMap (fun c => if c = '\'' then ['\'', '\\', '\'', '\''] else [c]) ++ ['\'']

-- An output with the place it has in the pod.
inductive Export where
  | image (reference : Text)
  | files (podDir : Text)

inductive Route where
  | pty
  | lines
  deriving DecidableEq

def Route.progress : Route → Text
  | .pty => chars "auto"
  | .lines => chars "plain"

-- What the configuration of the cluster says.
structure Registry where
  pushSecret : Option Text
  plaintext : Bool

def imageOutputCompression : Text := chars "compression=zstd,compression-level=1,oci-mediatypes=true"

def imageOutputAttrs (plaintext : Bool) : Text :=
  imageOutputCompression ++ if plaintext then chars ",registry.insecure=true" else []

def registryMount : Text := chars "/etc/ztest/registry"

def auth (registry : Registry) (out : Export) : Text :=
  match out, registry.pushSecret with
  | .image _, some _ => chars "export DOCKER_CONFIG=" ++ registryMount ++ ['\n']
  | _, _ => []

def output (registry : Registry) : Export → Text
  | .image reference =>
    chars "--output type=image,name=" ++ shellQuote reference ++ chars ",push=true," ++ imageOutputAttrs registry.plaintext
  | .files podDir => chars "--output type=local,dest=" ++ shellQuote podDir

def buildArg (k v : Text) : Text := chars "build-arg:" ++ k ++ ['='] ++ v

variable {Source Output : Type}

def buildctlCmd (registry : Registry) (req : BuildRequest Source Text Output) (ctxDir dfDir : Text) (out : Export)
    (route : Route) : Text :=
  let target := (req.target.map fun t => chars " --opt target=" ++ shellQuote t).getD []
  let opts := req.buildArgs.flatMap fun (k, v) => chars " --opt " ++ shellQuote (buildArg k v)
  chars "set -eu\n" ++ auth registry out ++ chars "buildctl build --frontend dockerfile.v0 --local context="
    ++ shellQuote ctxDir ++ chars " --local dockerfile=" ++ shellQuote dfDir ++ chars " --opt filename=Dockerfile"
    ++ target ++ opts ++ chars " " ++ output registry out ++ chars " --progress=" ++ route.progress ++ ['\n']

def nextestArgs (listArgs : List Text) : Text := Lines.join ' ' (listArgs.map shellQuote)

def nextestArgsName : Text := chars "NEXTEST_ARGS"

def buildArgs (listArgs : List Text) (workspaceRel : Text) : List (Text × Text) :=
  [(nextestArgsName, nextestArgs listArgs), (chars "WORKSPACE_REL", workspaceRel)]

def request (source : Source) (listArgs : List Text) (workspaceRel target : Text) (output : Output)
    : BuildRequest Source Text Output where
  source := source
  target := some target
  buildArgs := buildArgs listArgs workspaceRel
  output := output

def evalLine (command : Text) : Text := chars "eval \"" ++ command ++ chars " $\x7bNEXTEST_ARGS\x7d\""

def compileLine : Text := evalLine (chars "mold -run cargo nextest run --no-run")

def listLine : Text := evalLine (chars "cargo nextest list --message-format json")

def compileArgv (listArgs : List Text) : List Text := [chars "nextest", chars "run", chars "--no-run"] ++ listArgs

def indexArgv (listArgs : List Text) : List Text :=
  [chars "nextest", chars "list", chars "--message-format=json"] ++ listArgs

end Buildctl
end Image
