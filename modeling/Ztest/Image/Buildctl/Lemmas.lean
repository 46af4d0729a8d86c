import Ztest.Image.Buildctl.Impl

/-!
This module contains the proofs that a selection of tests reaches nextest as it stands: `buildctl` is run with
one argument for each that was quoted, and the command which is read from one of them ends in the arguments
of the selection.
-/

namespace Image
namespace Buildctl

open Shell (Env Spells Reads Script)

variable {env : Env}

theorem spells_shellQuote (s : Text) : Spells env (shellQuote s) s := by
  rintro ⟨mode, word, fields, commands⟩ rfl
  have hopen : Shell.steps env ⟨.plain, word, fields, commands⟩ ['\''] = some ⟨.single, some (word.getD []), fields, commands⟩ := by
    simp [Shell.steps_cons, Shell.steps_nil, Shell.step, Shell.State.add]
  have hbody : ∀ before : Text,
      Shell.steps env ⟨.single, some before, fields, commands⟩
          (s.flatMap fun c => if c = '\'' then ['\'', '\\', '\'', '\''] else [c])
        = some ⟨.single, some (before ++ s), fields, commands⟩ := by
    induction s with
    | nil =>
      intro before
      rw [List.append_nil]
      rfl
    | cons c s ih =>
      intro before
      have hc : Shell.steps env ⟨.single, some before, fields, commands⟩ (if c = '\'' then ['\'', '\\', '\'', '\''] else [c])
          = some ⟨.single, some (before ++ [c]), fields, commands⟩ := by
        split
        next h =>
          subst h
          simp [Shell.steps_cons, Shell.steps_nil, Shell.step, Shell.State.add]
        next h => exact Shell.steps_single (by simpa using Ne.symm h)
      rw [List.flatMap_cons, Shell.steps_append, hc, Option.bind_some, ih, List.append_assoc, List.singleton_append]
  rw [shellQuote, Shell.steps_append, Shell.steps_append, hopen, Option.bind_some, hbody]
  rfl

theorem spells_quoted {lead : Text} (hne : lead ≠ []) (h : lead.all Shell.isPlain = true) (s : Text)
    : Spells env (lead ++ shellQuote s) (lead ++ s) := (Shell.spells_plain hne h).append (spells_shellQuote s)

theorem spells_map_shellQuote (args : List Text) : List.Forall₂ (Spells env) (args.map shellQuote) args := by
  induction args with
  | nil => exact .nil
  | cons arg args ih => exact .cons (spells_shellQuote arg) ih

-- The words that are written as they are, in the command and in the Dockerfile, and the ones that a quoted text
-- is written after.
def plainWords : List Text :=
  [chars "buildctl", chars "build", chars "--frontend", chars "dockerfile.v0", chars "--local", chars "context=",
    chars "dockerfile=", chars "--opt", chars "filename=Dockerfile", chars "target=", chars "--output",
    chars "type=image,name=", chars "type=local,dest=", chars "set", chars "-eu", chars "export",
    chars "DOCKER_CONFIG=/etc/ztest/registry", chars "cargo", chars "nextest", chars "list", chars "--message-format",
    chars "json", chars "mold", chars "-run", chars "run", chars "--no-run"]

theorem plain_of_mem_plainWords
    : ∀ word ∈ plainWords, word ≠ [] ∧ word.all Shell.isPlain = true := by
  simp only [plainWords, chars, String.reduceToList]
  decide +kernel

theorem spells_plainWord {word : Text} (h : word ∈ plainWords) : Spells env word word :=
  Shell.spells_plain (plain_of_mem_plainWords word h).1 (plain_of_mem_plainWords word h).2

theorem spells_quotedAfter {lead : Text} (h : lead ∈ plainWords) (s : Text)
    : Spells env (lead ++ shellQuote s) (lead ++ s) :=
  spells_quoted (plain_of_mem_plainWords lead h).1 (plain_of_mem_plainWords lead h).2 s

theorem plain_outputAttrs (plaintext : Bool)
    : chars ",push=true," ++ imageOutputAttrs plaintext ≠ [] ∧
        (chars ",push=true," ++ imageOutputAttrs plaintext).all Shell.isPlain = true := by
  cases plaintext with
  | false => decide +kernel
  | true => decide +kernel

theorem plain_progress (route : Route)
    : chars "--progress=" ++ route.progress ≠ [] ∧ (chars "--progress=" ++ route.progress).all Shell.isPlain = true := by
  cases route with
  | pty =>
    simp only [Route.progress, chars, String.reduceToList]
    decide +kernel
  | lines =>
    simp only [Route.progress, chars, String.reduceToList]
    decide +kernel

-- The value of `--output`, with `quote` around the name.
def outWord (registry : Registry) (out : Export) (quote : Text → Text) : Text :=
  match out with
  | .image reference =>
    chars "type=image,name=" ++ quote reference ++ (chars ",push=true," ++ imageOutputAttrs registry.plaintext)
  | .files podDir => chars "type=local,dest=" ++ quote podDir

variable {Source Output : Type}

def buildctlArgv (registry : Registry) (req : BuildRequest Source Text Output) (ctxDir dfDir : Text) (out : Export) (route : Route) : List Text :=
  [chars "buildctl", chars "build", chars "--frontend", chars "dockerfile.v0", chars "--local", chars "context=" ++ ctxDir,
      chars "--local", chars "dockerfile=" ++ dfDir, chars "--opt", chars "filename=Dockerfile"]
    ++ (req.target.map fun t => [chars "--opt", chars "target=" ++ t]).getD []
    ++ req.buildArgs.flatMap (fun (k, v) => [chars "--opt", buildArg k v])
    ++ [chars "--output", outWord registry out id, chars "--progress=" ++ route.progress]

-- What is run before it.
def prelude (registry : Registry) (out : Export) : List (List Text) :=
  [chars "set", chars "-eu"] ::
    match out, registry.pushSecret with
    | .image _, some _ => [[chars "export", chars "DOCKER_CONFIG=/etc/ztest/registry"]]
    | _, _ => []

section Command

variable {registry : Registry} {req : BuildRequest Source Text Output} {ctxDir dfDir : Text} {out : Export} {route : Route}

-- The words of the command after the first, as they are spelled.
def spelling (registry : Registry) (req : BuildRequest Source Text Output) (ctxDir dfDir : Text) (out : Export) (route : Route) : List Text :=
  [chars "build", chars "--frontend", chars "dockerfile.v0", chars "--local", chars "context=" ++ shellQuote ctxDir,
      chars "--local", chars "dockerfile=" ++ shellQuote dfDir, chars "--opt", chars "filename=Dockerfile"]
    ++ (req.target.map fun t => [chars "--opt", chars "target=" ++ shellQuote t]).getD []
    ++ req.buildArgs.flatMap (fun (k, v) => [chars "--opt", shellQuote (buildArg k v)])
    ++ [chars "--output", outWord registry out shellQuote, chars "--progress=" ++ route.progress]

theorem output_eq (registry : Registry) (out : Export)
    : output registry out = chars "--output" ++ ' ' :: outWord registry out shellQuote := by
  have himage : chars "--output type=image,name=" = chars "--output" ++ ' ' :: chars "type=image,name=" := by simp [chars]
  have hfiles : chars "--output type=local,dest=" = chars "--output" ++ ' ' :: chars "type=local,dest=" := by simp [chars]
  cases out with
  | image reference =>
    rw [output, himage, outWord]
    simp only [List.append_assoc, List.cons_append]
  | files podDir =>
    rw [output, hfiles, outWord]
    simp only [List.append_assoc, List.cons_append]

theorem buildctlCmd_eq (registry : Registry) (req : BuildRequest Source Text Output) (ctxDir dfDir : Text) (out : Export) (route : Route)
    : buildctlCmd registry req ctxDir dfDir out route
        = chars "set -eu\n" ++ auth registry out
          ++ (chars "buildctl" ++ (spelling registry req ctxDir dfDir out route).flatMap (' ' :: ·) ++ ['\n']) := by
  have htarget : (req.target.map fun t => chars " --opt target=" ++ shellQuote t).getD []
      = ((req.target.map fun t => [chars "--opt", chars "target=" ++ shellQuote t]).getD []).flatMap (' ' :: ·) := by
    have hopt : chars " --opt target=" = ' ' :: chars "--opt" ++ ' ' :: chars "target=" := by simp [chars]
    cases req.target with
    | none => rfl
    | some t => simp [hopt]
  have hopts : req.buildArgs.flatMap (fun (k, v) => chars " --opt " ++ shellQuote (buildArg k v))
      = (req.buildArgs.flatMap fun (k, v) => [chars "--opt", shellQuote (buildArg k v)]).flatMap (' ' :: ·) := by
    have hopt : chars " --opt " = ' ' :: chars "--opt" ++ [' '] := by simp [chars]
    rw [List.flatMap_assoc]
    simp [hopt]
  have hlead : chars "buildctl build --frontend dockerfile.v0 --local context="
      = chars "buildctl" ++ [chars "build", chars "--frontend", chars "dockerfile.v0", chars "--local"].flatMap (' ' :: ·)
        ++ ' ' :: chars "context=" := by simp [chars]
  have hdockerfile : chars " --local dockerfile=" = ' ' :: chars "--local" ++ ' ' :: chars "dockerfile=" := by simp [chars]
  have hfilename : chars " --opt filename=Dockerfile" = ' ' :: chars "--opt" ++ ' ' :: chars "filename=Dockerfile" := by simp [chars]
  have hblank : chars " " = [' '] := by simp [chars]
  have hprogress : chars " --progress=" = ' ' :: chars "--progress=" := by simp [chars]
  rw [buildctlCmd]
  dsimp only
  rw [htarget, hopts, output_eq, hlead, hdockerfile, hfilename, hblank, hprogress, spelling]
  simp only [List.flatMap_append, List.flatMap_cons, List.flatMap_nil, List.append_assoc, List.cons_append, List.nil_append,
    List.append_nil]

theorem spells_spelling
    : List.Forall₂ (Spells env) (chars "buildctl" :: spelling registry req ctxDir dfDir out route)
        (buildctlArgv registry req ctxDir dfDir out route) := by
  have htarget : List.Forall₂ (Spells env) ((req.target.map fun t => [chars "--opt", chars "target=" ++ shellQuote t]).getD [])
      ((req.target.map fun t => [chars "--opt", chars "target=" ++ t]).getD []) := by
    cases req.target with
    | none => exact .nil
    | some t =>
      exact .cons (spells_plainWord (by simp [plainWords])) (.cons (spells_quotedAfter (by simp [plainWords]) t) .nil)
  have hopts : List.Forall₂ (Spells env) (req.buildArgs.flatMap fun (k, v) => [chars "--opt", shellQuote (buildArg k v)])
      (req.buildArgs.flatMap fun (k, v) => [chars "--opt", buildArg k v]) := by
    induction req.buildArgs with
    | nil => exact .nil
    | cons kv buildArgs ih => exact .cons (spells_plainWord (by simp [plainWords])) (.cons (spells_shellQuote _) ih)
  have hout : Spells env (outWord registry out shellQuote) (outWord registry out id) := by
    cases out with
    | image reference =>
      have hattrs : Spells env (chars ",push=true," ++ imageOutputAttrs registry.plaintext)
          (chars ",push=true," ++ imageOutputAttrs registry.plaintext) :=
        Shell.spells_plain (plain_outputAttrs _).1 (plain_outputAttrs _).2
      exact (spells_quotedAfter (by simp [plainWords]) reference).append hattrs
    | files podDir => exact spells_quotedAfter (by simp [plainWords]) podDir
  have hprogress : Spells env (chars "--progress=" ++ route.progress) (chars "--progress=" ++ route.progress) :=
    Shell.spells_plain (plain_progress route).1 (plain_progress route).2
  have hplain : ∀ word ∈ plainWords, Spells env word word := fun word => spells_plainWord
  rw [spelling, buildctlArgv, ← List.cons_append, ← List.cons_append, ← List.cons_append]
  refine List.rel_append (List.rel_append (List.rel_append ?_ htarget) hopts) ?_
  . refine .cons (hplain _ (by simp [plainWords])) (.cons (hplain _ (by simp [plainWords])) ?_)
    refine .cons (hplain _ (by simp [plainWords])) (.cons (hplain _ (by simp [plainWords])) ?_)
    refine .cons (hplain _ (by simp [plainWords])) (.cons (spells_quotedAfter (by simp [plainWords]) ctxDir) ?_)
    refine .cons (hplain _ (by simp [plainWords])) (.cons (spells_quotedAfter (by simp [plainWords]) dfDir) ?_)
    exact .cons (hplain _ (by simp [plainWords])) (.cons (hplain _ (by simp [plainWords])) .nil)
  . exact .cons (hplain _ (by simp [plainWords])) (.cons hout (.cons hprogress .nil))

theorem script_plainWords {name arg : Text} (hname : name ∈ plainWords) (harg : arg ∈ plainWords)
    : Script env (name ++ ' ' :: arg ++ ['\n']) [[name, arg]] := by
  have hreads : Reads env (name ++ ' ' :: arg) ([name] ++ [arg]) :=
    (spells_plainWord hname).reads.append (spells_plainWord harg).reads
  exact hreads.script (List.cons_ne_nil _ _)

theorem script_prelude (registry : Registry) (out : Export)
    : Script env (chars "set -eu\n" ++ auth registry out) (prelude registry out) := by
  have hset : Script env (chars "set -eu\n") [[chars "set", chars "-eu"]] := by
    have hline : chars "set -eu\n" = chars "set" ++ ' ' :: chars "-eu" ++ ['\n'] := by simp [chars]
    rw [hline]
    exact script_plainWords (by simp [plainWords]) (by simp [plainWords])
  have hauth : Script env (chars "export DOCKER_CONFIG=" ++ registryMount ++ ['\n'])
      [[chars "export", chars "DOCKER_CONFIG=/etc/ztest/registry"]] := by
    have hline : chars "export DOCKER_CONFIG=" ++ registryMount
        = chars "export" ++ ' ' :: chars "DOCKER_CONFIG=/etc/ztest/registry" := by simp [chars, registryMount]
    rw [hline]
    exact script_plainWords (by simp [plainWords]) (by simp [plainWords])
  cases out with
  | files podDir => simpa [auth, prelude] using hset
  | image reference =>
    cases hsecret : registry.pushSecret with
    | none => simpa [auth, prelude, hsecret] using hset
    | some secret =>
      have hboth := hset.append hauth
      simpa [auth, prelude, hsecret] using hboth

theorem script_buildctlCmd
    : Script env (buildctlCmd registry req ctxDir dfDir out route)
        (prelude registry out ++ [buildctlArgv registry req ctxDir dfDir out route]) := by
  rw [buildctlCmd_eq]
  cases hargv : buildctlArgv registry req ctxDir dfDir out route with
  | nil => cases hargv
  | cons word words =>
    have hspelling := @spells_spelling env Source Output registry req ctxDir dfDir out route
    rw [hargv] at hspelling
    cases hspelling with
    | cons hword hwords => exact (script_prelude registry out).append ((hword.reads.spaced hwords).script (List.cons_ne_nil _ _))

theorem exec_buildctlCmd (depth : Nat)
    : Shell.exec env (depth + 1) (buildctlCmd registry req ctxDir dfDir out route)
        = some (prelude registry out ++ [buildctlArgv registry req ctxDir dfDir out route]) := by
  have hnames : ∀ command ∈ prelude registry out ++ [buildctlArgv registry req ctxDir dfDir out route],
      ∃ name args, command = name :: args ∧ ('=' ∉ name ∧ name ∉ Shell.reserved) ∧ name ≠ Shell.evalName := by
    have hset : ('=' ∉ chars "set" ∧ chars "set" ∉ Shell.reserved) ∧ chars "set" ≠ Shell.evalName := by simp [chars, Shell.reserved, Shell.evalName]
    have hexport : ('=' ∉ chars "export" ∧ chars "export" ∉ Shell.reserved) ∧ chars "export" ≠ Shell.evalName := by
      simp [chars, Shell.reserved, Shell.evalName]
    have hbuildctl : ('=' ∉ chars "buildctl" ∧ chars "buildctl" ∉ Shell.reserved) ∧ chars "buildctl" ≠ Shell.evalName := by
      simp [chars, Shell.reserved, Shell.evalName]
    intro command hmem
    rcases List.mem_append.mp hmem with hmem | hmem
    . rcases List.mem_cons.mp hmem with rfl | hmem
      . exact ⟨_, _, rfl, hset⟩
      . split at hmem
        next => exact ⟨_, _, List.mem_singleton.mp hmem, hexport⟩
        next => cases hmem
    . exact ⟨_, _, List.mem_singleton.mp hmem, hbuildctl⟩
  apply Shell.exec_of_read
  . apply script_buildctlCmd.read
    rw [List.all_eq_true]
    intro command hmem
    rcases hnames command hmem with ⟨name, args, rfl, hname, _⟩
    exact Shell.isCommand_cons hname
  . intro command hmem
    rcases hnames command hmem with ⟨name, args, heq, _, hname⟩
    exact ⟨name, args, heq, hname⟩

end Command

section Eval

variable {words listArgs : List Text}

theorem exec_evalLine (hwords : ∀ word ∈ words, word ≠ [] ∧ word.all Shell.isPlain = true)
    (hcommand : Shell.isCommand words = true) (hname : words.head? ≠ some Shell.evalName)
    (henv : env nextestArgsName = some (nextestArgs listArgs)) (depth : Nat)
    : Shell.exec env (depth + 2) (evalLine (Lines.join ' ' words)) = some [words ++ listArgs] := by
  have hplain : List.Forall₂ (Spells env) words words :=
    List.forall₂_same.mpr fun word hword => Shell.spells_plain (hwords word hword).1 (hwords word hword).2
  have hbody : Shell.Holds env (Lines.join ' ' words ++ (chars " " ++ (['$', '{'] ++ nextestArgsName ++ ['}'])))
      (Lines.join ' ' words ++ (chars " " ++ nextestArgs listArgs)) := by
    have hblank : Shell.Holds env (chars " ") (chars " ") := Shell.holds_plain (by simp [chars])
    have hbrace := Shell.holds_brace (by simp [nextestArgsName, chars, Shell.isName]) henv
    refine (Shell.holds_plain ?_).append (hblank.append hbrace)
    intro c hc
    rcases Lines.mem_join hc with rfl | ⟨word, hword, hmem⟩
    . decide
    . have hall := List.all_eq_true.mp (hwords word hword).2 c hmem
      intro hspecial
      simp only [List.mem_cons, List.not_mem_nil, or_false] at hspecial
      rcases hspecial with rfl | rfl | rfl | rfl
      all_goals exact absurd hall (by decide)
  have hline : evalLine (Lines.join ' ' words)
      = Shell.evalName ++ ' ' :: (['"'] ++ (Lines.join ' ' words ++ (chars " " ++ (['$', '{'] ++ nextestArgsName ++ ['}']))) ++ ['"']) := by
    have hopen : chars "eval \"" = Shell.evalName ++ [' ', '"'] := by simp [chars, Shell.evalName]
    have hclose : chars " $\x7bNEXTEST_ARGS\x7d\"" = chars " " ++ (['$', '{'] ++ nextestArgsName ++ ['}']) ++ ['"'] := by
      simp [chars, nextestArgsName]
    rw [evalLine, hopen, hclose]
    simp only [List.append_assoc, List.cons_append, List.nil_append]
  have heval : Shell.read env (evalLine (Lines.join ' ' words))
      = some [Shell.evalName :: [Lines.join ' ' words ++ (chars " " ++ nextestArgs listArgs)]] := by
    have hname : Spells env Shell.evalName Shell.evalName := Shell.spells_plain (by decide) (by decide)
    have hreads := hname.reads.append hbody.spells.reads
    rw [hline]
    exact hreads.read (Shell.isCommand_cons (by decide))
  apply Shell.exec_eval heval
  have hblank : chars " " = [' '] := by simp [chars]
  rw [Lines.join, List.intercalate_singleton, hblank, List.singleton_append]
  have hreads : Reads env (Lines.join ' ' words ++ ' ' :: nextestArgs listArgs) (words ++ listArgs) :=
    (Reads.join hplain).append (Reads.join (spells_map_shellQuote listArgs))
  cases words with
  | nil => cases hcommand
  | cons name words =>
    apply Shell.exec_of_read (hreads.read hcommand)
    intro command hmem
    rw [List.mem_singleton.mp hmem]
    exact ⟨name, words ++ listArgs, rfl, fun heq => hname (congrArg some heq)⟩

theorem exec_listLine (henv : env nextestArgsName = some (nextestArgs listArgs)) (depth : Nat)
    : Shell.exec env (depth + 2) listLine
        = some [[chars "cargo", chars "nextest", chars "list", chars "--message-format", chars "json"] ++ listArgs] := by
  have hwords : listLine
      = evalLine (Lines.join ' ' [chars "cargo", chars "nextest", chars "list", chars "--message-format", chars "json"]) := by
    simp [chars, listLine, Lines.join, List.intercalate]
  have hsub : [chars "cargo", chars "nextest", chars "list", chars "--message-format", chars "json"] ⊆ plainWords := by
    simp [plainWords]
  rw [hwords]
  exact exec_evalLine (fun word hword => plain_of_mem_plainWords word (hsub hword)) (by simp [Shell.isCommand, Shell.reserved, chars])
    (by simp [chars, Shell.evalName]) henv depth

theorem exec_compileLine (henv : env nextestArgsName = some (nextestArgs listArgs)) (depth : Nat)
    : Shell.exec env (depth + 2) compileLine = some [[chars "mold", chars "-run", chars "cargo"] ++ compileArgv listArgs] := by
  have hwords : compileLine
      = evalLine (Lines.join ' ' [chars "mold", chars "-run", chars "cargo", chars "nextest", chars "run", chars "--no-run"]) := by
    simp [chars, compileLine, Lines.join, List.intercalate]
  have hsub : [chars "mold", chars "-run", chars "cargo", chars "nextest", chars "run", chars "--no-run"] ⊆ plainWords := by
    simp [plainWords]
  rw [hwords]
  exact exec_evalLine (fun word hword => plain_of_mem_plainWords word (hsub hword))
    (by simp [Shell.isCommand, Shell.reserved, chars]) (by simp [chars, Shell.evalName]) henv depth

end Eval

def isNextestArgs (arg : Text) : Bool := (buildArg nextestArgsName []).isPrefixOf arg

theorem isNextestArgs_append {lead : Text} (h : ¬buildArg nextestArgsName [] <+: lead ∧ ¬lead <+: buildArg nextestArgsName [])
    (rest : Text)
    : isNextestArgs (lead ++ rest) = false := by
  rw [isNextestArgs, Bool.eq_false_iff]
  intro hpre
  rcases List.prefix_or_prefix_of_prefix (List.isPrefixOf_iff_prefix.mp hpre) (List.prefix_append lead rest) with hlead | hlead
  . exact h.1 hlead
  . exact h.2 hlead

theorem filter_buildctlArgv (registry : Registry) (source : Source) (listArgs : List Text)
    (workspaceRel target ctxDir dfDir : Text) (output : Output) (out : Export) (route : Route)
    : (buildctlArgv registry (request source listArgs workspaceRel target output) ctxDir dfDir out route).filter isNextestArgs
        = [chars "build-arg:NEXTEST_ARGS=" ++ nextestArgs listArgs] := by
  have hout : isNextestArgs (outWord registry out id) = false := by
    cases out with
    | image reference =>
      rw [outWord, List.append_assoc]
      exact isNextestArgs_append (by simp [buildArg, nextestArgsName, chars]) _
    | files podDir => exact isNextestArgs_append (by simp [buildArg, nextestArgsName, chars]) _
  have hself : ∀ value, isNextestArgs (buildArg nextestArgsName value) = true := by
    intro value
    rw [isNextestArgs, List.isPrefixOf_iff_prefix]
    exact ⟨value, by simp [buildArg]⟩
  have hworkspace : isNextestArgs (buildArg (chars "WORKSPACE_REL") workspaceRel) = false := by
    rw [buildArg]
    exact isNextestArgs_append (by simp [buildArg, nextestArgsName, chars]) _
  have hctx : isNextestArgs (chars "context=" ++ ctxDir) = false := isNextestArgs_append (by simp [buildArg, nextestArgsName, chars]) _
  have hdf : isNextestArgs (chars "dockerfile=" ++ dfDir) = false := isNextestArgs_append (by simp [buildArg, nextestArgsName, chars]) _
  have htarget : isNextestArgs (chars "target=" ++ target) = false := isNextestArgs_append (by simp [buildArg, nextestArgsName, chars]) _
  have hprogress : isNextestArgs (chars "--progress=" ++ route.progress) = false := isNextestArgs_append (by simp [buildArg, nextestArgsName, chars]) _
  have hplain : isNextestArgs (chars "buildctl") = false ∧ isNextestArgs (chars "build") = false ∧
      isNextestArgs (chars "--frontend") = false ∧ isNextestArgs (chars "dockerfile.v0") = false ∧
      isNextestArgs (chars "--local") = false ∧ isNextestArgs (chars "--opt") = false ∧
      isNextestArgs (chars "filename=Dockerfile") = false ∧ isNextestArgs (chars "--output") = false := by
    simp only [isNextestArgs, buildArg, nextestArgsName, chars, String.reduceToList]
    decide +kernel
  have hvalue : buildArg nextestArgsName (nextestArgs listArgs) = chars "build-arg:NEXTEST_ARGS=" ++ nextestArgs listArgs := by
    have hname : chars "build-arg:" ++ nextestArgsName ++ ['='] = chars "build-arg:NEXTEST_ARGS=" := by simp [chars, nextestArgsName]
    rw [buildArg, hname]
  rw [← hvalue]
  simp only [buildctlArgv, request, buildArgs, Option.map_some, Option.getD_some, List.flatMap_cons, List.flatMap_nil,
    List.append_nil, List.cons_append, List.nil_append, List.filter_cons, List.filter_nil, hout, hself, hworkspace, hctx, hdf,
    htarget, hprogress, hplain, Bool.false_eq_true, if_false, if_true]

theorem selection_verbatim (registry : Registry) (source : Source) (listArgs : List Text)
    (workspaceRel target ctxDir dfDir : Text) (output : Output) (out : Export) (route : Route) (env : Env) (depth : Nat)
    : let req := request source listArgs workspaceRel target output
      Shell.exec env (depth + 1) (buildctlCmd registry req ctxDir dfDir out route)
          = some (prelude registry out ++ [buildctlArgv registry req ctxDir dfDir out route]) ∧
        (buildctlArgv registry req ctxDir dfDir out route).filter isNextestArgs
          = [chars "build-arg:NEXTEST_ARGS=" ++ nextestArgs listArgs] ∧
        (env nextestArgsName = some (nextestArgs listArgs) →
          Shell.exec env (depth + 2) listLine
              = some [[chars "cargo", chars "nextest", chars "list", chars "--message-format", chars "json"] ++ listArgs] ∧
            Shell.exec env (depth + 2) compileLine = some [[chars "mold", chars "-run", chars "cargo"] ++ compileArgv listArgs]) ∧
        indexArgv listArgs = [chars "nextest", chars "list", chars "--message-format=json"] ++ listArgs := by
  refine ⟨exec_buildctlCmd depth, filter_buildctlArgv registry source listArgs workspaceRel target ctxDir dfDir output out route, ?_, rfl⟩
  exact fun henv => ⟨exec_listLine henv depth, exec_compileLine henv depth⟩

def quotedArgs : List Text := [chars "-E", chars "test(=it's $HOME)", []]

theorem selection_verbatim_quotedArgs
    : Shell.exec (fun _ => some (nextestArgs quotedArgs)) 2 listLine
        = some [[chars "cargo", chars "nextest", chars "list", chars "--message-format", chars "json", chars "-E",
            chars "test(=it's $HOME)", []]] :=
  ((selection_verbatim ⟨none, false⟩ () quotedArgs (chars ".") (chars "runner") (chars "/c") (chars "/d") () (.files (chars "/o"))
    .lines (fun _ => some (nextestArgs quotedArgs)) 0).2.2.1 rfl).1

end Buildctl
end Image
