import Ztest.Lib.Argv
import Ztest.Cli.RunOptions.Impl

namespace Cli

open Argv

-- The flags and their values as the arguments of the run spell them.
def runArgv : Grammar String where
  cut := "--"
  split := splitEq
  kind flag :=
    if flag ∈ runBool ∨ flag ∈ ignoredBool then
      .switch
    else if flag ∈ runValue ∨ flag ∈ ignoredValue then
      .valued
    else
      .other

def RunOptions.apply (o : RunOptions) : Item String → Except String RunOptions
  | .switch _ flag => .ok (if flag ∈ runBool then o.setBool flag else o.warn flag)
  | .inline _ flag value => o.setValue flag (some value)
  | .spaced _ flag value => o.setValue flag (some value)
  | .bare _ flag => o.setValue flag none
  | .kept arg => .ok { o with listArgs := o.listArgs ++ [arg] }
  | .rest args => .ok { o with listArgs := o.listArgs ++ "--" :: args }

section Kind

variable {flag : String}

theorem kind_other (h : runArgv.kind flag = .other)
    : flag ∉ runBool ∧ flag ∉ ignoredBool ∧ ¬(flag ∈ runValue ∨ flag ∈ ignoredValue) := by
  simp only [runArgv] at h
  split_ifs at h with hswitch hvalued
  exact ⟨fun hmem => hswitch (.inl hmem), fun hmem => hswitch (.inr hmem), hvalued⟩

theorem kind_switch (h : runArgv.kind flag = .switch) : flag ∈ runBool ∨ flag ∈ ignoredBool := by
  simp only [runArgv] at h
  split_ifs at h with hswitch hvalued
  exact hswitch

theorem kind_valued (h : runArgv.kind flag = .valued)
    : flag ∉ runBool ∧ flag ∉ ignoredBool ∧ (flag ∈ runValue ∨ flag ∈ ignoredValue) := by
  simp only [runArgv] at h
  split_ifs at h with hswitch hvalued
  exact ⟨fun hmem => hswitch (.inl hmem), fun hmem => hswitch (.inr hmem), hvalued⟩

end Kind

section Loop

variable {o : RunOptions} {arg value : String} {args : List String}

theorem RunOptions.parseFrom_cons (o : RunOptions) (arg : String) (it : List String)
    : o.parseFrom (arg :: it)
        =
      if arg = "--" then
        .ok { o with listArgs := o.listArgs ++ arg :: it }
      else if (splitEq arg).1 ∈ runBool then
        (o.setBool (splitEq arg).1).parseFrom it
      else if (splitEq arg).1 ∈ ignoredBool then
        (o.warn (splitEq arg).1).parseFrom it
      else if (splitEq arg).1 ∈ runValue ∨ (splitEq arg).1 ∈ ignoredValue then
        match (splitEq arg).2, it with
        | some inline, it => o.setValue (splitEq arg).1 (some inline) >>= fun o => o.parseFrom it
        | none, value :: it => o.setValue (splitEq arg).1 (some value) >>= fun o => o.parseFrom it
        | none, [] => o.setValue (splitEq arg).1 none
      else
        parseFrom { o with listArgs := o.listArgs ++ [arg] } it := parseFrom.eq_def o (arg :: it)

theorem RunOptions.parseFrom_cut : o.parseFrom ("--" :: args) = .ok { o with listArgs := o.listArgs ++ "--" :: args } := by
  rw [parseFrom_cons, if_pos rfl]

theorem RunOptions.parseFrom_kept (hcut : arg ≠ "--") (hkind : runArgv.kind (splitEq arg).1 = .other)
    : o.parseFrom (arg :: args) = parseFrom { o with listArgs := o.listArgs ++ [arg] } args := by
  have hnone := kind_other hkind
  rw [parseFrom_cons, if_neg hcut, if_neg hnone.1, if_neg hnone.2.1, if_neg hnone.2.2]

theorem RunOptions.parseFrom_switch (hcut : arg ≠ "--") (hkind : runArgv.kind (splitEq arg).1 = .switch)
    : o.parseFrom (arg :: args) =
      (if (splitEq arg).1 ∈ runBool then o.setBool (splitEq arg).1 else o.warn (splitEq arg).1).parseFrom args := by
  rw [parseFrom_cons, if_neg hcut]
  by_cases hbool : (splitEq arg).1 ∈ runBool
  . rw [if_pos hbool, if_pos hbool]
  . rw [if_neg hbool, if_neg hbool, if_pos ((kind_switch hkind).resolve_left hbool)]

theorem RunOptions.parseFrom_inline (hcut : arg ≠ "--") (hkind : runArgv.kind (splitEq arg).1 = .valued)
    (hvalue : (splitEq arg).2 = some value)
    : o.parseFrom (arg :: args) = o.setValue (splitEq arg).1 (some value) >>= fun o => o.parseFrom args := by
  have hvalued := kind_valued hkind
  rw [parseFrom_cons, if_neg hcut, if_neg hvalued.1, if_neg hvalued.2.1, if_pos hvalued.2.2, hvalue]

theorem RunOptions.parseFrom_spaced (hcut : arg ≠ "--") (hkind : runArgv.kind (splitEq arg).1 = .valued)
    (hvalue : (splitEq arg).2 = none)
    : o.parseFrom (arg :: value :: args) = o.setValue (splitEq arg).1 (some value) >>= fun o => o.parseFrom args := by
  have hvalued := kind_valued hkind
  rw [parseFrom_cons, if_neg hcut, if_neg hvalued.1, if_neg hvalued.2.1, if_pos hvalued.2.2, hvalue]

theorem RunOptions.parseFrom_bare (hcut : arg ≠ "--") (hkind : runArgv.kind (splitEq arg).1 = .valued)
    (hvalue : (splitEq arg).2 = none) : o.parseFrom [arg] = o.setValue (splitEq arg).1 none := by
  have hvalued := kind_valued hkind
  rw [parseFrom_cons, if_neg hcut, if_neg hvalued.1, if_neg hvalued.2.1, if_pos hvalued.2.2, hvalue]

theorem RunOptions.parseFrom_eq (o : RunOptions) (args : List String)
    : o.parseFrom args = (read runArgv args).foldlM apply o := by
  induction args using read.induct runArgv generalizing o with
  | case1 => rfl
  | case2 args =>
    rw [read_cut, List.foldlM_cons]
    exact parseFrom_cut
  | case3 arg args hcut hkind ih =>
    rw [read_kept hcut hkind, List.foldlM_cons, parseFrom_kept hcut hkind, ih]
    rfl
  | case4 arg args hcut hkind ih =>
    rw [read_switch hcut hkind, List.foldlM_cons, parseFrom_switch hcut hkind, ih]
    rfl
  | case5 arg hcut hkind value args hvalue ih =>
    rw [read_inline hcut hkind hvalue, List.foldlM_cons, parseFrom_inline hcut hkind hvalue]
    exact bind_congr ih
  | case6 arg hcut hkind hvalue =>
    rw [read_bare hcut hkind hvalue, List.foldlM_cons, parseFrom_bare hcut hkind hvalue]
    exact (bind_pure _).symm
  | case7 arg hcut hkind value args hvalue ih =>
    rw [read_spaced hcut hkind hvalue, List.foldlM_cons, parseFrom_spaced hcut hkind hvalue]
    exact bind_congr ih

end Loop

def threadFlags : List String := ["-j", "--test-threads", "--jobs"]

-- `num-cpus` is every slot.
def parseThreads (value : String) : Option (Option UInt32) :=
  if value = "num-cpus" then some none else (parseU32 value).map some

-- What an item gives for one of some flags.
def valueOf (flags : List String) (item : Item String) : Option (Option String) :=
  item.given.bind fun g => if g.1 ∈ flags then some g.2 else none

def switchOf (flags : List String) (item : Item String) : Option String :=
  item.switched.bind fun flag => if flag ∈ flags then some flag else none

-- An option is the value of its last occurrence.
def Given (flags : List String) (value : String → Option β) (default : β) (items : List (Item String)) (x : β)
    : Prop :=
  Written (items.filterMap (valueOf flags)).getLast? (fun v x => v.bind value = some x) default x

def Switched (on off : List String) (items : List (Item String)) (x : Bool) : Prop :=
  Written (items.filterMap (switchOf (on ++ off))).getLast? (fun flag x => x = decide (flag ∈ on)) false x

def asText (value : String) : Option (Option String) := some (some value)

structure Assigned (items : List (Item String)) (o : RunOptions) : Prop where
  testThreads : Given threadFlags parseThreads none items o.testThreads
  retries : Given ["--retries"] parseU32 0 items o.retries
  slowAfter : Given ["--slow-timeout"] (fun s => (parseDurationSecs s).map some) none items o.slowAfter
  noTests : Given ["--no-tests"] asText none items o.noTests
  successOutput : Given ["--success-output"] asText none items o.successOutput
  failureOutput : Given ["--failure-output"] asText none items o.failureOutput
  logTail : Given ["--log-tail"] asText none items o.logTail
  noCleanup : Switched ["--no-cleanup"] [] items o.noCleanup
  failFast : Switched ["--fail-fast", "--ff"] ["--no-fail-fast", "--nff"] items o.failFast
  noCapture : Switched ["--no-capture", "--nocapture"] [] items o.noCapture
  rerun : o.rerun = none

structure Faithful (args : List String) (items : List (Item String)) : Prop where
  forwarded : ∀ o, RunOptions.parse args = .ok o →
    o.listArgs = items.flatMap (Item.forwarded "--") ∧ o.listArgs.Sublist args ∧
      ∀ after, .rest after ∈ items → "--" :: after <:+ o.listArgs
  assigned : ∀ o, RunOptions.parse args = .ok o → Assigned items o
  warned : ∀ o, RunOptions.parse args = .ok o →
    o.unsupported = (items.filterMap Item.flag).filter fun flag => decide (flag ∈ warnUnsupported)
  refused : ∀ item ∈ items, ∀ flag ∈ runValue, item.missing "--" = some flag →
    ∃ e, RunOptions.parse args = .error e

def Classified (args : List String) : Prop := ∃ items, Reads runArgv args items ∧ Faithful args items

-- The flags whose value is kept as it is, or not at all.
def textFlags : List String :=
  ["--log-tail", "--message-format", "--no-tests", "--success-output", "--failure-output"]

def Unusable (item : Item String) : Prop :=
  ∃ flag value, item.given = some (flag, value) ∧
    (flag ∈ threadFlags ∧ value.bind parseThreads = none ∨ flag = "--retries" ∧ value.bind parseU32 = none ∨
      flag = "--slow-timeout" ∧ value.bind parseDurationSecs = none)

def Heeded (args : List String) : Prop :=
  ∀ items, Reads runArgv args items →
    (∃ item ∈ items, ∃ flag ∈ textFlags, item.missing "--" = some flag) → ∃ item ∈ items, Unusable item

section Apply

variable {o o' : RunOptions} {item : Item String} {flag : String} {value : Option String}

theorem parseFlag_ok {parse : String → Option β} {b : β} (h : parseFlag flag value parse = .ok b)
    : value.bind parse = some b := by
  unfold parseFlag at h
  cases value with
  | none => cases h
  | some v =>
    cases hparse : parse v with
    | none => simp [hparse] at h
    | some b' => simpa [hparse] using h

theorem parseFlag_error_iff {parse : String → Option β}
    : (∃ e, parseFlag flag value parse = .error e) ↔ value.bind parse = none := by
  unfold parseFlag
  cases value with
  | none => simp
  | some v => cases hparse : parse v <;> simp [hparse]

inductive Outcome (o : RunOptions) (value : Option String) : String → Except String RunOptions → Prop where
  | threads {flag : String} (hmem : flag ∈ threadFlags)
    : Outcome o value flag
      (if value = some "num-cpus" then
        .ok { o with testThreads := none }
      else
        (parseFlag flag value parseU32).map fun n => { o with testThreads := some n })
  | noTests : Outcome o value "--no-tests" (.ok { o with noTests := value })
  | retries
    : Outcome o value "--retries" ((parseFlag "--retries" value parseU32).map fun n => { o with retries := n })
  | slowTimeout
    : Outcome o value "--slow-timeout"
      ((parseFlag "--slow-timeout" value parseDurationSecs).map fun n => { o with slowAfter := some n })
  | successOutput : Outcome o value "--success-output" (.ok { o with successOutput := value })
  | failureOutput : Outcome o value "--failure-output" (.ok { o with failureOutput := value })
  | logTail : Outcome o value "--log-tail" (.ok { o with logTail := value })
  | other {flag : String} (hother : flag ∉ threadFlags ++ ["--no-tests", "--retries", "--slow-timeout",
      "--success-output", "--failure-output", "--log-tail"]) : Outcome o value flag (.ok (o.warn flag))

theorem Outcome.of_eq {result result' : Except String RunOptions} (h : Outcome o value flag result)
    (heq : result' = result) : Outcome o value flag result' := by
  rwa [heq]

theorem bind_ok_eq_map (x : Except String β) (f : β → RunOptions) : (do .ok (f (← x))) = x.map f := by
  cases x <;> rfl

theorem Outcome.numCpus (hmem : flag ∈ threadFlags)
    : Outcome o (some "num-cpus") flag (.ok { o with testThreads := none }) :=
  (Outcome.threads hmem).of_eq (if_pos rfl).symm

theorem Outcome.count (hmem : flag ∈ threadFlags) (hne : value ≠ some "num-cpus")
    : Outcome o value flag (do .ok { o with testThreads := some (← parseFlag flag value parseU32) }) :=
  (Outcome.threads hmem).of_eq (by
    rw [if_neg hne]
    exact bind_ok_eq_map _ _)

theorem setValue_outcome (o : RunOptions) (flag : String) (value : Option String)
    : Outcome o value flag (o.setValue flag value) := by
  unfold RunOptions.setValue
  split
  . split
    . exact .numCpus (by simp [threadFlags])
    . next hne => exact .count (by simp [threadFlags]) hne
  . split
    . exact .numCpus (by simp [threadFlags])
    . next hne => exact .count (by simp [threadFlags]) hne
  . split
    . exact .numCpus (by simp [threadFlags])
    . next hne => exact .count (by simp [threadFlags]) hne
  . exact .noTests
  . exact Outcome.retries.of_eq (bind_ok_eq_map _ _)
  . exact Outcome.slowTimeout.of_eq (bind_ok_eq_map _ _)
  . exact .successOutput
  . exact .failureOutput
  . exact .logTail
  . apply Outcome.other
    simp_all [threadFlags]

structure Applied (o : RunOptions) (item : Item String) (o' : RunOptions) : Prop where
  listArgs : o'.listArgs = o.listArgs ++ item.forwarded "--"
  unsupported : o'.unsupported = o.unsupported ++ item.flag.toList.filter fun flag => decide (flag ∈ warnUnsupported)
  testThreads : Written (valueOf threadFlags item) (fun v x => v.bind parseThreads = some x) o.testThreads o'.testThreads
  retries : Written (valueOf ["--retries"] item) (fun v x => v.bind parseU32 = some x) o.retries o'.retries
  slowAfter : Written (valueOf ["--slow-timeout"] item)
    (fun v x => (v.bind fun s => (parseDurationSecs s).map some) = some x) o.slowAfter o'.slowAfter
  noTests : Written (valueOf ["--no-tests"] item) (fun v x => x = v) o.noTests o'.noTests
  successOutput : Written (valueOf ["--success-output"] item) (fun v x => x = v) o.successOutput o'.successOutput
  failureOutput : Written (valueOf ["--failure-output"] item) (fun v x => x = v) o.failureOutput o'.failureOutput
  logTail : Written (valueOf ["--log-tail"] item) (fun v x => x = v) o.logTail o'.logTail
  noCleanup : Written (switchOf ["--no-cleanup"] item) (fun flag x => x = decide (flag ∈ ["--no-cleanup"]))
    o.noCleanup o'.noCleanup
  failFast : Written (switchOf ["--fail-fast", "--ff", "--no-fail-fast", "--nff"] item)
    (fun flag x => x = decide (flag ∈ ["--fail-fast", "--ff"])) o.failFast o'.failFast
  noCapture : Written (switchOf ["--no-capture", "--nocapture"] item)
    (fun flag x => x = decide (flag ∈ ["--no-capture", "--nocapture"])) o.noCapture o'.noCapture
  rerun : o'.rerun = o.rerun

theorem warn_eq (o : RunOptions) (flag : String)
    : o.warn flag =
      { o with unsupported := o.unsupported ++ [flag].filter fun flag => decide (flag ∈ warnUnsupported) } := by
  unfold RunOptions.warn
  by_cases hwarn : flag ∈ warnUnsupported <;> simp [hwarn]

theorem bind_parseThreads {t : UInt32} (hne : value ≠ some "num-cpus") (h : value.bind parseU32 = some t)
    : value.bind parseThreads = some (some t) := by
  cases value with
  | none => cases h
  | some v =>
    have hnum : v ≠ "num-cpus" := fun heq => hne (by rw [heq])
    have hparse : parseU32 v = some t := h
    simp [parseThreads, hnum, hparse]

theorem applied_setValue (hgiven : item.given = some (flag, value)) (hswitched : item.switched = none)
    (hforwarded : item.forwarded "--" = []) (h : o.setValue flag value = .ok o') : Applied o item o' := by
  have hvalueOf : ∀ flags, valueOf flags item = if flag ∈ flags then some value else none := by
    intro flags
    rw [valueOf, hgiven]
    rfl
  have hswitchOf : ∀ flags, switchOf flags item = none := by
    intro flags
    rw [switchOf, hswitched]
    rfl
  have hflag : item.flag = some flag := by
    rw [Item.flag, hswitched, hgiven]
    rfl
  have houtcome := setValue_outcome o flag value
  rw [h] at houtcome
  generalize hresult : Except.ok (ε := String) o' = result at houtcome
  cases houtcome with
  | threads hmem =>
    have hthreads : ∃ t, value.bind parseThreads = some t ∧ o' = { o with testThreads := t } := by
      split_ifs at hresult with hnum
      . cases hresult
        exact ⟨none, by rw [hnum]; rfl, rfl⟩
      . rcases Run.map_ok hresult.symm with ⟨n, hn, rfl⟩
        exact ⟨some n, bind_parseThreads hnum (parseFlag_ok hn), rfl⟩
    rcases hthreads with ⟨t, ht, rfl⟩
    simp only [threadFlags, List.mem_cons, List.not_mem_nil, or_false] at hmem
    rcases hmem with rfl | rfl | rfl
    all_goals
      constructor <;> simp [hforwarded, hflag, hvalueOf, hswitchOf, Written, warnUnsupported, threadFlags, ht]
  | retries =>
    rcases Run.map_ok hresult.symm with ⟨n, hn, rfl⟩
    have hparse := parseFlag_ok hn
    constructor <;> simp [hforwarded, hflag, hvalueOf, hswitchOf, Written, warnUnsupported, threadFlags, hparse]
  | slowTimeout =>
    rcases Run.map_ok hresult.symm with ⟨n, hn, rfl⟩
    rcases Option.bind_eq_some_iff.mp (parseFlag_ok hn) with ⟨s, rfl, hparse⟩
    constructor <;> simp [hforwarded, hflag, hvalueOf, hswitchOf, Written, warnUnsupported, threadFlags, hparse]
  | noTests | successOutput | failureOutput | logTail =>
    cases hresult
    constructor <;> simp [hforwarded, hflag, hvalueOf, hswitchOf, Written, warnUnsupported, threadFlags]
  | other hother =>
    cases hresult
    simp only [threadFlags, List.cons_append, List.nil_append, List.mem_cons, List.not_mem_nil, or_false, not_or]
      at hother
    rw [warn_eq]
    constructor <;> simp [hforwarded, hflag, hvalueOf, hswitchOf, Written, threadFlags, hother]

theorem applied_switch {arg : String}
    : Applied o (.switch arg flag) (if flag ∈ runBool then o.setBool flag else o.warn flag) := by
  have hvalueOf : ∀ flags, valueOf flags (.switch arg flag) = none := fun _ => rfl
  have hswitchOf : ∀ flags, switchOf flags (.switch arg flag) = if flag ∈ flags then some flag else none := fun _ => rfl
  have hflag : (Item.switch arg flag).flag = some flag := rfl
  have hforwarded : (Item.switch arg flag).forwarded "--" = [] := rfl
  by_cases hbool : flag ∈ runBool
  . rw [if_pos hbool]
    simp only [runBool, List.mem_cons, List.not_mem_nil, or_false] at hbool
    rcases hbool with rfl | rfl | rfl | rfl | rfl | rfl | rfl
    all_goals
      constructor <;> simp [hforwarded, hflag, hvalueOf, hswitchOf, Written, warnUnsupported, RunOptions.setBool]
  . rw [if_neg hbool, warn_eq]
    simp only [runBool, List.mem_cons, List.not_mem_nil, or_false, not_or] at hbool
    constructor <;> simp [hforwarded, hflag, hvalueOf, hswitchOf, Written, hbool]

theorem applied_apply (h : o.apply item = .ok o') : Applied o item o' := by
  cases item with
  | switch arg flag =>
    cases h
    exact applied_switch
  | inline arg flag value => exact applied_setValue rfl rfl rfl h
  | spaced arg flag value => exact applied_setValue rfl rfl rfl h
  | bare arg flag => exact applied_setValue rfl rfl rfl h
  | kept arg =>
    cases h
    constructor <;> simp [Item.forwarded, Item.flag, Item.switched, Item.given, valueOf, switchOf, Written]
  | rest args =>
    cases h
    constructor <;> simp [Item.forwarded, Item.flag, Item.switched, Item.given, valueOf, switchOf, Written]

theorem bind_parseThreads_eq_none
    : value.bind parseThreads = none ↔ value ≠ some "num-cpus" ∧ value.bind parseU32 = none := by
  cases value with
  | none => simp
  | some v =>
    by_cases hnum : v = "num-cpus"
    . simp [parseThreads, hnum]
    . simp [parseThreads, hnum]

theorem map_error_iff {α β : Type} {f : α → β} {x : Except String α}
    : (∃ e, x.map f = .error e) ↔ ∃ e, x = .error e := by
  cases x <;> simp [Except.map]

theorem setValue_error_iff
    : (∃ e, o.setValue flag value = .error e) ↔
      flag ∈ threadFlags ∧ value.bind parseThreads = none ∨ flag = "--retries" ∧ value.bind parseU32 = none ∨
        flag = "--slow-timeout" ∧ value.bind parseDurationSecs = none := by
  have houtcome := setValue_outcome o flag value
  generalize o.setValue flag value = result at houtcome
  cases houtcome with
  | threads hmem =>
    have hretries : flag ≠ "--retries" := by
      rintro rfl
      simp [threadFlags] at hmem
    have hslow : flag ≠ "--slow-timeout" := by
      rintro rfl
      simp [threadFlags] at hmem
    simp only [hmem, hretries, hslow, false_and, or_false, true_and, bind_parseThreads_eq_none]
    split_ifs with hnum
    . simp [hnum]
    . rw [map_error_iff, parseFlag_error_iff]
      simp [hnum]
  | retries | slowTimeout =>
    rw [map_error_iff, parseFlag_error_iff]
    simp [threadFlags]
  | noTests | successOutput | failureOutput | logTail => simp [threadFlags]
  | other hother =>
    simp only [List.mem_append, List.mem_cons, List.not_mem_nil, or_false, not_or] at hother
    simp [hother]

theorem apply_error_iff (o : RunOptions) (item : Item String) : (∃ e, o.apply item = .error e) ↔ Unusable item := by
  cases item with
  | switch arg flag => simp [RunOptions.apply, Unusable, Item.given]
  | kept arg => simp [RunOptions.apply, Unusable, Item.given]
  | rest args => simp [RunOptions.apply, Unusable, Item.given]
  | inline arg flag value =>
    rw [RunOptions.apply, setValue_error_iff]
    simp [Unusable, Item.given]
  | spaced arg flag value =>
    rw [RunOptions.apply, setValue_error_iff]
    simp [Unusable, Item.given]
  | bare arg flag =>
    rw [RunOptions.apply, setValue_error_iff]
    simp [Unusable, Item.given]

end Apply

section Parse

variable {args : List String} {o : RunOptions}

theorem parse_eq (args : List String)
    : RunOptions.parse args = (read runArgv args).foldlM RunOptions.apply {} := RunOptions.parseFrom_eq {} args

theorem parse_error_iff : (∃ e, RunOptions.parse args = .error e) ↔ ∃ item ∈ read runArgv args, Unusable item := by
  rw [parse_eq]
  exact foldlM_error_iff apply_error_iff

theorem last_of_parse {field : RunOptions → β} {touches : Item String → Option γ} {Sets : γ → β → Prop}
    (h : RunOptions.parse args = .ok o)
    (happlied : ∀ {o item o'}, Applied o item o' → Written (touches item) Sets (field o) (field o'))
    : Written ((read runArgv args).filterMap touches).getLast? Sets (field {}) (field o) := by
  rw [parse_eq] at h
  exact foldlM_last (fun o item o' hstep => happlied (applied_apply hstep)) h

theorem not_missing_of_heeded (hheeded : Heeded args) (h : RunOptions.parse args = .ok o) {flag : String}
    (hflag : flag ∈ textFlags) {item : Item String} (hmem : item ∈ read runArgv args)
    : item.missing "--" ≠ some flag := by
  intro hmissing
  have hunusable := hheeded _ (reads_read runArgv args) ⟨item, hmem, flag, hflag, hmissing⟩
  rcases parse_error_iff.mpr hunusable with ⟨e, herror⟩
  rw [h] at herror
  cases herror

theorem given_none {item : Item String} {flag : String} (h : item.given = some (flag, none))
    : item.missing "--" = some flag := by
  cases item with
  | bare arg flag' =>
    cases h
    rfl
  | inline _ _ _ | spaced _ _ _ | switch _ _ | kept _ | rest _ => cases h

theorem text_of_parse (hheeded : Heeded args) (h : RunOptions.parse args = .ok o) {flag : String}
    (hflag : flag ∈ textFlags) {x : Option String}
    (hwritten : Written ((read runArgv args).filterMap (valueOf [flag])).getLast? (fun v x => x = v) none x)
    : Given [flag] asText none (read runArgv args) x := by
  refine hwritten.imp fun c hlast heq => ?_
  subst heq
  cases x with
  | some s => rfl
  | none =>
    rcases List.mem_filterMap.mp (List.mem_of_getLast? hlast) with ⟨item, hmem, hvalue⟩
    rcases Option.bind_eq_some_iff.mp hvalue with ⟨⟨flag', value⟩, hgiven, hif⟩
    split_ifs at hif with heq
    rw [Option.some.injEq] at hif
    rw [List.mem_singleton] at heq
    subst heq hif
    exact absurd (given_none hgiven) (not_missing_of_heeded hheeded h hflag hmem)

theorem assigned_of_parse (hheeded : Heeded args) (h : RunOptions.parse args = .ok o)
    : Assigned (read runArgv args) o where
  testThreads := last_of_parse h Applied.testThreads
  retries := last_of_parse h Applied.retries
  slowAfter := last_of_parse h Applied.slowAfter
  noTests := text_of_parse hheeded h (by simp [textFlags]) (last_of_parse h Applied.noTests)
  successOutput := text_of_parse hheeded h (by simp [textFlags]) (last_of_parse h Applied.successOutput)
  failureOutput := text_of_parse hheeded h (by simp [textFlags]) (last_of_parse h Applied.failureOutput)
  logTail := text_of_parse hheeded h (by simp [textFlags]) (last_of_parse h Applied.logTail)
  noCleanup := last_of_parse h Applied.noCleanup
  failFast := last_of_parse h Applied.failFast
  noCapture := last_of_parse h Applied.noCapture
  rerun := by
    have hkept : ∀ {o item o'}, Applied o item o' →
        Written (none : Option Unit) (fun _ _ => False) o.rerun o'.rerun := fun happlied => happlied.rerun
    have hlast := last_of_parse h hkept
    rwa [List.filterMap_none] at hlast

theorem listArgs_of_parse (h : RunOptions.parse args = .ok o)
    : o.listArgs = (read runArgv args).flatMap (Item.forwarded "--") := by
  rw [parse_eq] at h
  have hadd : ∀ o item o', RunOptions.apply o item = .ok o' → o'.listArgs = o.listArgs ++ item.forwarded "--" :=
    fun o item o' hstep => (applied_apply hstep).listArgs
  exact foldlM_flatMap hadd h

theorem unsupported_of_parse (h : RunOptions.parse args = .ok o)
    : o.unsupported = ((read runArgv args).filterMap Item.flag).filter fun flag => decide (flag ∈ warnUnsupported) := by
  rw [parse_eq] at h
  have hadd : ∀ o item o', RunOptions.apply o item = .ok o' →
      o'.unsupported = o.unsupported ++ item.flag.toList.filter fun flag => decide (flag ∈ warnUnsupported) :=
    fun o item o' hstep => (applied_apply hstep).unsupported
  rw [foldlM_flatMap hadd h, List.filterMap_eq_flatMap_toList, List.filter_flatMap]
  rfl

theorem unusable_of_missing {item : Item String} {flag : String} (hmissing : item.missing "--" = some flag)
    (hflag : flag ∈ runValue) (htext : flag ∉ textFlags) : Unusable item := by
  have hgiven : ∃ value, item.given = some (flag, value) ∧ (value = none ∨ value = some "--") := by
    cases item with
    | bare arg flag' =>
      cases hmissing
      exact ⟨none, rfl, .inl rfl⟩
    | spaced arg flag' value =>
      simp only [Item.missing] at hmissing
      split_ifs at hmissing with hcut
      cases hmissing
      exact ⟨some value, rfl, .inr (by rw [hcut])⟩
    | inline _ _ _ | switch _ _ | kept _ | rest _ => cases hmissing
  rcases hgiven with ⟨value, hgiven, hvalue⟩
  refine ⟨flag, value, hgiven, ?_⟩
  have hthreads : value.bind parseThreads = none := by
    rcases hvalue with rfl | rfl
    . rfl
    . decide
  have hretries : value.bind parseU32 = none := by
    rcases hvalue with rfl | rfl
    . rfl
    . decide
  have hslow : value.bind parseDurationSecs = none := by
    rcases hvalue with rfl | rfl
    . rfl
    . decide
  simp only [textFlags, List.mem_cons, List.not_mem_nil, or_false, not_or] at htext
  simp only [runValue, List.mem_cons, List.not_mem_nil, or_false, htext, false_or] at hflag
  rcases hflag with rfl | rfl | rfl | rfl | rfl
  . exact .inl ⟨by simp [threadFlags], hthreads⟩
  . exact .inl ⟨by simp [threadFlags], hthreads⟩
  . exact .inl ⟨by simp [threadFlags], hthreads⟩
  . exact .inr (.inl ⟨rfl, hretries⟩)
  . exact .inr (.inr ⟨rfl, hslow⟩)

end Parse

theorem classified_iff (args : List String) : Classified args ↔ Heeded args := by
  constructor
  . rintro ⟨items, hreads, hfaithful⟩ items' hreads' ⟨item, hmem, flag, hflag, hmissing⟩
    have hread := hreads.eq_read
    rw [hreads'.eq_read] at hmem ⊢
    rw [hread] at hfaithful
    have hrun : flag ∈ runValue := by
      simp only [textFlags, List.mem_cons, List.not_mem_nil, or_false] at hflag
      rcases hflag with rfl | rfl | rfl | rfl | rfl
      all_goals simp [runValue]
    exact parse_error_iff.mp (hfaithful.refused item hmem flag hrun hmissing)
  . intro hheeded
    have hreads := reads_read runArgv args
    refine ⟨_, hreads, ?_⟩
    constructor
    . intro o h
      have hlist := listArgs_of_parse h
      refine ⟨hlist, ?_, fun after hmem => ?_⟩
      . rw [hlist]
        exact hreads.forwarded_sublist
      . rw [hlist]
        exact hreads.suffix_of_rest hmem
    . exact fun o h => assigned_of_parse hheeded h
    . exact fun o h => unsupported_of_parse h
    . intro item hmem flag hflag hmissing
      apply parse_error_iff.mpr
      by_cases htext : flag ∈ textFlags
      . exact hheeded _ hreads ⟨item, hmem, flag, htext, hmissing⟩
      . exact ⟨item, hmem, unusable_of_missing hmissing hflag htext⟩

theorem missing_log_tail_accepted : ¬Classified ["--log-tail"] := by
  rintro ⟨items, hreads, hfaithful⟩
  have hparse : RunOptions.parse ["--log-tail"] = .ok {} := by decide +kernel
  have hitems : items = [.bare "--log-tail" "--log-tail"] := by
    rw [hreads.eq_read]
    decide +kernel
  rw [hitems] at hfaithful
  have hrefused := hfaithful.refused _ List.mem_cons_self "--log-tail" (by simp [runValue]) rfl
  rcases hrefused with ⟨e, herror⟩
  rw [hparse] at herror
  cases herror

end Cli
