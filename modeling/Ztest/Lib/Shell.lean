import Ztest.Lib.Lines

/-!
This module contains the reading of a script by a POSIX shell, character by character: simple commands made of
fields, the three ways to quote, and parameters in double quotes. What else has a meaning to a shell outside
quotes (operators, patterns, comments, reserved words, assignments) is refused. An unset parameter is
an error, as it is under `set -u`.
-/

namespace Shell

abbrev Env : Type := Text → Option Text

inductive Mode where
  | plain
  | escaped
  | single
  | double
  | doubleEscaped
  | dollar
  | brace (name : Text)
  deriving DecidableEq

structure State where
  mode : Mode
  -- Of the field that is being read, what was read so far.
  word : Option Text
  fields : List Text
  commands : List (List Text)
  deriving DecidableEq

namespace State

def init : State where
  mode := .plain
  word := none
  fields := []
  commands := []

def add (s : State) (text : Text) : State := { s with word := some (s.word.getD [] ++ text) }

def endWord (s : State) : State :=
  match s.word with
  | none => s
  | some word => { s with word := none, fields := s.fields ++ [word] }

def endLine (s : State) : State :=
  match s.endWord.fields with
  | [] => s
  | field :: fields => { s.endWord with fields := [], commands := s.commands ++ [field :: fields] }

end State

def foreign : Text := ['|', '&', ';', '<', '>', '(', ')', '$', '`', '*', '?', '[', ']', '#', '~', '!', '{', '}']

def isBlank (c : Char) : Bool := c = ' ' || c = '\t'

def isName (c : Char) : Bool := c.isAlphanum || c = '_'

variable (env : Env)

def step (s : State) (c : Char) : Option State :=
  match s.mode with
  | .plain =>
    if c = '\'' then some { s.add [] with mode := .single }
    else if c = '"' then some { s.add [] with mode := .double }
    else if c = '\\' then some { s with mode := .escaped }
    else if isBlank c then some s.endWord
    else if c = '\n' then some s.endLine
    else if c ∈ foreign then none
    else some (s.add [c])
  | .escaped =>
    -- A newline is taken away with its backslash.
    if c = '\n' then some { s with mode := .plain } else some { s.add [c] with mode := .plain }
  | .single => if c = '\'' then some { s with mode := .plain } else some (s.add [c])
  | .double =>
    if c = '"' then some { s with mode := .plain }
    else if c = '\\' then some { s with mode := .doubleEscaped }
    else if c = '$' then some { s with mode := .dollar }
    else if c = '`' then none
    else some (s.add [c])
  | .doubleEscaped =>
    if c = '\n' then some { s with mode := .double }
    else if c = '"' || c = '\\' || c = '$' || c = '`' then some { s.add [c] with mode := .double }
    else some { s.add ['\\', c] with mode := .double }
  | .dollar => if c = '{' then some { s with mode := .brace [] } else none
  | .brace name =>
    if c = '}' then (env name).map fun value => { s.add value with mode := .double }
    else if isName c then some { s with mode := .brace (name ++ [c]) }
    else none

def steps (s : State) (text : Text) : Option State := text.foldlM (step env) s

def reserved : List Text :=
  ["if".toList, "then".toList, "else".toList, "elif".toList, "fi".toList, "do".toList, "done".toList, "case".toList,
    "esac".toList, "while".toList, "until".toList, "for".toList, "in".toList]

def isCommand : List Text → Bool
  | [] => false
  | name :: _ => '=' ∉ name ∧ name ∉ reserved

def read (text : Text) : Option (List (List Text)) :=
  match steps env .init text with
  | none => none
  | some s =>
    if s.mode = .plain ∧ s.endLine.commands.all isCommand then some s.endLine.commands else none

def evalName : Text := ['e', 'v', 'a', 'l']

def runs (again : Text → Option (List (List Text))) : List Text → Option (List (List Text))
  | [] => some []
  | name :: args => if name = evalName then again (Lines.join ' ' args) else some [name :: args]

-- The commands of a script when none of them fails. `eval` reads its arguments again, which may go `depth` deep.
def exec : Nat → Text → Option (List (List Text))
  | 0, _ => none
  | depth + 1, text =>
    match read env text with
    | none => none
    | some commands => (commands.mapM (runs (exec depth))).map List.flatten

variable {env : Env} {s : State} {text text' word word' name : Text} {fields fields' : List Text} {commands commands' : List (List Text)}

theorem steps_append (text text' : Text) : steps env s (text ++ text') = (steps env s text).bind (steps env · text') := by
  rw [steps, List.foldlM_append]
  rfl

theorem steps_cons (c : Char) (text : Text) : steps env s (c :: text) = (step env s c).bind (steps env · text) := rfl

theorem steps_nil : steps env s [] = some s := rfl

theorem State.add_add (a b : Text) : (s.add a).add b = s.add (a ++ b) := by simp [State.add]

-- A part of a field, whatever came before.
def Spells (env : Env) (text word : Text) : Prop := ∀ s : State, s.mode = .plain → steps env s text = some (s.add word)

-- A part of a double-quoted string.
def Holds (env : Env) (text word : Text) : Prop :=
  ∀ before fields commands, steps env ⟨.double, some before, fields, commands⟩ text
    = some ⟨.double, some (before ++ word), fields, commands⟩

def Reads (env : Env) (text : Text) (fields : List Text) : Prop :=
  ∀ s : State, s.mode = .plain → s.word = none →
    ∃ s', steps env s text = some s' ∧ s'.mode = .plain ∧ s'.endWord = { s with fields := s.fields ++ fields }

def Script (env : Env) (text : Text) (commands : List (List Text)) : Prop :=
  ∀ s : State, s.mode = .plain → s.word = none → s.fields = [] →
    steps env s text = some { s with commands := s.commands ++ commands }

theorem Spells.append (h : Spells env text word) (h' : Spells env text' word') : Spells env (text ++ text') (word ++ word') := by
  intro s hs
  rw [steps_append, h s hs, Option.bind_some, h' (s.add word) hs, State.add_add]

def isPlain (c : Char) : Bool := c ≠ '\'' ∧ c ≠ '"' ∧ c ≠ '\\' ∧ !isBlank c ∧ c ≠ '\n' ∧ c ∉ foreign

theorem step_plain {c : Char} (hs : s.mode = .plain) (h : isPlain c = true) : step env s c = some (s.add [c]) := by
  simp only [isPlain, decide_eq_true_eq] at h
  rcases h with ⟨h₁, h₂, h₃, h₄, h₅, h₆⟩
  rw [step, hs]
  dsimp only
  rw [if_neg h₁, if_neg h₂, if_neg h₃, if_neg (by simpa using h₄), if_neg h₅, if_neg h₆]

theorem spells_plain (hne : text ≠ []) (h : text.all isPlain = true) : Spells env text text := by
  intro s hs
  induction text generalizing s with
  | nil => exact absurd rfl hne
  | cons c text ih =>
    rw [List.all_cons, Bool.and_eq_true] at h
    rw [steps_cons, step_plain hs h.1, Option.bind_some]
    by_cases hnil : text = []
    . rw [hnil]
      rfl
    . rw [ih hnil h.2 (s.add [c]) hs, State.add_add]
      rfl

theorem steps_single (h : '\'' ∉ text)
    : steps env ⟨.single, some word, fields, commands⟩ text = some ⟨.single, some (word ++ text), fields, commands⟩ := by
  induction text generalizing word with
  | nil => rw [List.append_nil, steps_nil]
  | cons c text ih =>
    rw [List.mem_cons, not_or] at h
    have hstep : step env ⟨.single, some word, fields, commands⟩ c = some ⟨.single, some (word ++ [c]), fields, commands⟩ :=
      if_neg (Ne.symm h.1)
    rw [steps_cons, hstep, Option.bind_some, ih h.2, List.append_assoc, List.singleton_append]

theorem Holds.append (h : Holds env text word) (h' : Holds env text' word') : Holds env (text ++ text') (word ++ word') := by
  intro before fields commands
  rw [steps_append, h, Option.bind_some, h', List.append_assoc]

theorem holds_plain (h : ∀ c ∈ text, c ∉ ['"', '\\', '$', '`']) : Holds env text text := by
  intro before fields commands
  induction text generalizing before with
  | nil => rw [List.append_nil, steps_nil]
  | cons c text ih =>
    rw [List.forall_mem_cons] at h
    have hstep : step env ⟨.double, some before, fields, commands⟩ c = some ⟨.double, some (before ++ [c]), fields, commands⟩ := by
      rcases h with ⟨hc, _⟩
      simp only [List.mem_cons, List.not_mem_nil, or_false, not_or] at hc
      rcases hc with ⟨h₁, h₂, h₃, h₄⟩
      rw [step]
      dsimp only
      rw [if_neg h₁, if_neg h₂, if_neg h₃, if_neg h₄]
      rfl
    rw [steps_cons, hstep, Option.bind_some, ih h.2, List.append_assoc, List.singleton_append]

theorem steps_brace (h : name.all isName = true)
    : steps env ⟨.brace word, some word', fields, commands⟩ name = some ⟨.brace (word ++ name), some word', fields, commands⟩ := by
  induction name generalizing word with
  | nil => rw [List.append_nil, steps_nil]
  | cons c name ih =>
    rw [List.all_cons, Bool.and_eq_true] at h
    have hne : c ≠ '}' := by
      rintro rfl
      exact absurd h.1 (by decide)
    have hstep : step env ⟨.brace word, some word', fields, commands⟩ c
        = some ⟨.brace (word ++ [c]), some word', fields, commands⟩ := by
      rw [step]
      dsimp only
      rw [if_neg hne, if_pos h.1]
    rw [steps_cons, hstep, Option.bind_some, ih h.2, List.append_assoc, List.singleton_append]

theorem holds_brace {value : Text} (hname : name.all isName = true) (h : env name = some value)
    : Holds env (['$', '{'] ++ name ++ ['}']) value := by
  intro before fields commands
  have hopen : steps env ⟨.double, some before, fields, commands⟩ ['$', '{'] = some ⟨.brace [], some before, fields, commands⟩ := rfl
  have hclose : steps env ⟨.brace name, some before, fields, commands⟩ ['}']
      = some ⟨.double, some (before ++ value), fields, commands⟩ := by
    rw [steps_cons, step]
    dsimp only
    rw [if_pos rfl, h]
    rfl
  rw [steps_append, steps_append, hopen, Option.bind_some, steps_brace hname, Option.bind_some, List.nil_append, hclose]

theorem Holds.spells (h : Holds env text word) : Spells env (['"'] ++ text ++ ['"']) word := by
  rintro ⟨mode, before, fields, commands⟩ rfl
  have hopen : steps env ⟨.plain, before, fields, commands⟩ ['"'] = some ⟨.double, some (before.getD []), fields, commands⟩ := by
    simp [steps_cons, steps_nil, step, State.add]
  rw [steps_append, steps_append, hopen, Option.bind_some, h]
  rfl

theorem Reads.nil : Reads env [] [] := by
  rintro ⟨mode, word, fields, commands⟩ rfl rfl
  exact ⟨_, rfl, rfl, by simp [State.endWord]⟩

theorem Spells.reads (h : Spells env text word) : Reads env text [word] := by
  rintro ⟨mode, before, fields, commands⟩ rfl rfl
  exact ⟨_, h _ rfl, rfl, rfl⟩

theorem Reads.append (h : Reads env text fields) (h' : Reads env text' fields')
    : Reads env (text ++ ' ' :: text') (fields ++ fields') := by
  intro s hs hword
  rcases h s hs hword with ⟨s₁, hsteps, hmode, hend⟩
  have hblank : step env s₁ ' ' = some s₁.endWord := by
    rw [step, hmode]
    rfl
  have hmode' : s₁.endWord.mode = .plain := by
    rw [hend]
    exact hs
  have hword' : s₁.endWord.word = none := by
    rw [hend]
    exact hword
  rcases h' _ hmode' hword' with ⟨s₂, hsteps', hmode₂, hend₂⟩
  refine ⟨s₂, ?_, hmode₂, ?_⟩
  . rw [steps_append, hsteps, Option.bind_some, steps_cons, hblank, Option.bind_some, hsteps']
  . rw [hend₂, hend, List.append_assoc]

theorem Reads.join {texts words : List Text} (h : List.Forall₂ (Spells env) texts words)
    : Reads env (Lines.join ' ' texts) words := by
  induction h with
  | nil => exact .nil
  | cons hword htail ih =>
    cases htail with
    | nil =>
      rw [Lines.join, List.intercalate_singleton]
      exact hword.reads
    | cons _ _ =>
      rw [Lines.join, List.intercalate_cons_cons, List.append_assoc, List.singleton_append]
      exact hword.reads.append ih

theorem Reads.spaced {texts words : List Text} (h : Reads env text fields) (htexts : List.Forall₂ (Spells env) texts words)
    : Reads env (text ++ texts.flatMap (' ' :: ·)) (fields ++ words) := by
  induction htexts generalizing text fields with
  | nil => simpa using h
  | cons hword _ ih =>
    have hrest := ih (h.append hword.reads)
    simpa using hrest

theorem State.endLine_of_endWord {s s' : State} (h : s'.endWord = { s with fields := s.fields ++ fields }) (hne : fields ≠ [])
    (hfields : s.fields = [])
    : s'.endLine = { s with commands := s.commands ++ [fields] } := by
  have hcommands : s'.commands = s.commands := by
    have hfield := congrArg State.commands h
    rw [← hfield]
    unfold State.endWord
    split <;> rfl
  cases fields with
  | nil => exact absurd rfl hne
  | cons field fields =>
    rw [State.endLine, h, hfields, List.nil_append]
    dsimp only
    rw [hcommands, ← hfields]

theorem Script.nil : Script env [] [] := by
  rintro ⟨mode, word, fields, commands⟩ rfl rfl rfl
  rw [List.append_nil, steps_nil]

theorem Script.append (h : Script env text commands) (h' : Script env text' commands')
    : Script env (text ++ text') (commands ++ commands') := by
  intro s hs hword hfields
  rw [steps_append, h s hs hword hfields, Option.bind_some,
    h' { s with commands := s.commands ++ commands } hs hword hfields, List.append_assoc]

theorem Reads.script (h : Reads env text fields) (hne : fields ≠ []) : Script env (text ++ ['\n']) [fields] := by
  intro s hs hword hfields
  rcases h s hs hword with ⟨s', hsteps, hmode, hend⟩
  have hline : step env s' '\n' = some s'.endLine := by
    rw [step, hmode]
    rfl
  rw [steps_append, hsteps, Option.bind_some, steps_cons, hline, Option.bind_some, steps_nil,
    State.endLine_of_endWord hend hne hfields]

theorem Script.read (h : Script env text commands) (hcommands : commands.all isCommand = true)
    : read env text = some commands := by
  rw [Shell.read, h .init rfl rfl rfl]
  exact if_pos ⟨rfl, hcommands⟩

theorem Reads.read (h : Reads env text fields) (hfields : isCommand fields = true) : read env text = some [fields] := by
  have hne : fields ≠ [] := by
    rintro rfl
    exact absurd hfields (by decide)
  rcases h .init rfl rfl with ⟨s, hsteps, hmode, hend⟩
  have hline := State.endLine_of_endWord hend hne rfl
  rw [Shell.read, hsteps]
  dsimp only
  rw [hline, if_pos ⟨hmode, by simpa [State.init] using hfields⟩]
  rfl

theorem isCommand_cons {name : Text} {args : List Text} (h : '=' ∉ name ∧ name ∉ reserved) : isCommand (name :: args) = true :=
  decide_eq_true h

theorem exec_of_read (h : read env text = some commands) (hcommands : ∀ command ∈ commands, ∃ name args,
    command = name :: args ∧ name ≠ evalName) (depth : Nat)
    : exec env (depth + 1) text = some commands := by
  rw [exec, h]
  dsimp only
  suffices hmap : commands.mapM (runs (exec env depth)) = some (commands.map ([·])) by
    rw [hmap, Option.map_some, ← List.flatMap_def, List.flatMap_singleton']
  clear h
  induction commands with
  | nil => rfl
  | cons command commands ih =>
    rw [List.forall_mem_cons] at hcommands
    rcases hcommands with ⟨⟨name, args, rfl, hname⟩, hrest⟩
    rw [List.mapM_cons, ih hrest, runs, if_neg hname]
    rfl

theorem exec_eval {depth : Nat} (h : read env text = some [evalName :: fields])
    (hexec : exec env depth (Lines.join ' ' fields) = some commands)
    : exec env (depth + 1) text = some commands := by
  rw [exec, h]
  simp [runs, hexec]

end Shell
