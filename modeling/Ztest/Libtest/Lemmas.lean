import Ztest.Libtest.Impl

namespace Libtest

section Idempotent

-- A line that a pass drops, shortens or cuts at.
def isFraming (testName : String) (line : Line) : Bool :=
  isRunHeader line || (marker testName).isPrefixOf line || isResult line

def unmarked (testName : String) (line : Line) : Line := (line.dropPrefix? (marker testName)).getD line

def beforeResult (lines : List Line) : List Line :=
  match Lines.rposition isResult lines with
  | none => lines
  | some r => lines.take r

/--
No line before the last `test result: ` line reads as framing once its marker is taken off, the run
headers aside.
-/
def Bare (testName : String) (output : List UInt8) : Prop :=
  ∀ line ∈ beforeResult (output.splitOn newline),
    isRunHeader line = true ∨ isFraming testName (unmarked testName line) = false

variable {testName : String} {line kept : Line} {lines : List Line}

theorem marker_eq (testName : String) : marker testName = utf8 "test " ++ utf8 testName ++ utf8 " ... " := by
  simp [marker, utf8, toString]

theorem marker_cons (testName : String) : ∃ rest, marker testName = 116 :: rest := ⟨_, marker_eq testName⟩

theorem head_of_isPrefixOf {lead : Line} (h : lead.isPrefixOf line = true) (hne : lead ≠ []) : line.head? = lead.head? := by
  rcases List.isPrefixOf_iff_prefix.mp h with ⟨rest, rfl⟩
  cases lead with
  | nil => exact absurd rfl hne
  | cons b lead => rfl

theorem heads_disjoint {heads heads' : List (Option UInt8)} (h : line.head? ∈ heads) (h' : line.head? ∈ heads')
    (hdisjoint : ∀ head ∈ heads, head ∉ heads')
    : False := hdisjoint _ h h'

theorem head_of_isVerdict (h : isVerdict line = true) : line.head? ∈ [some 111, some 105, some 70] := by
  simp only [isVerdict, Bool.or_eq_true, beq_iff_eq] at h
  rcases h with ((rfl | rfl) | rfl) | h
  . decide
  . decide
  . decide
  . rw [head_of_isPrefixOf h (by decide)]
    decide

theorem head_of_isFooter (h : isFooter line = true) : line.head? ∈ [none, some 102, some 32, some 45] := by
  simp only [isFooter, Bool.or_eq_true, Bool.and_eq_true, beq_iff_eq, List.isEmpty_iff] at h
  rcases h with ((rfl | rfl) | h) | ⟨h, _⟩
  . decide
  . decide
  . rw [head_of_isPrefixOf h (by decide)]
    decide
  . rw [head_of_isPrefixOf h (by decide)]
    decide

theorem head_of_isRunHeader (h : isRunHeader line = true) : line.head? ∈ [some 114] := by
  unfold isRunHeader at h
  split at h
  next => simp at h
  next rest hdrop =>
    rcases List.dropPrefix?_eq_some_iff.mp hdrop with ⟨lead, rfl, heq⟩
    rw [beq_iff_eq] at heq
    rw [heq]
    exact List.mem_singleton_self _

theorem head_of_isResult (h : isResult line = true) : line.head? ∈ [some 116] := by
  rw [isResult] at h
  rw [head_of_isPrefixOf h (by decide)]
  decide

theorem head_of_marker (h : (marker testName).isPrefixOf line = true) : line.head? ∈ [some 116] := by
  rcases marker_cons testName with ⟨rest, hrest⟩
  rw [hrest] at h
  rw [head_of_isPrefixOf h (List.cons_ne_nil 116 rest)]
  exact List.mem_singleton_self _

theorem not_isRunHeader_of_marker (h : (marker testName).isPrefixOf line = true) : ¬isRunHeader line = true :=
  fun hheader => heads_disjoint (head_of_marker h) (head_of_isRunHeader hheader) (by simp)

theorem isPrefixOf_marker (testName : String) (rest : Line)
    : (marker testName).isPrefixOf (marker testName ++ rest) = true :=
  List.isPrefixOf_iff_prefix.mpr (List.prefix_append _ _)

theorem dropPrefix?_marker (testName : String) (rest : Line)
    : (marker testName ++ rest).dropPrefix? (marker testName) = some rest :=
  List.dropPrefix?_eq_some_iff.mpr ⟨_, rfl, beq_self_eq_true _⟩

theorem dropPrefix?_eq_none (h : (marker testName).isPrefixOf line = false) : line.dropPrefix? (marker testName) = none := by
  rw [Option.eq_none_iff_forall_ne_some]
  intro rest hdrop
  rcases List.dropPrefix?_eq_some_iff.mp hdrop with ⟨lead, rfl, heq⟩
  rw [beq_iff_eq] at heq
  rw [heq, List.isPrefixOf_iff_prefix.mpr (List.prefix_append _ _)] at h
  cases h

section Footer

theorem popFooter_spec (lines : List Line)
    : ∃ popped, lines = popped ++ popFooter lines ∧ ∀ line ∈ popped, isFooter line = true ∨ isVerdict line = true := by
  induction lines with
  | nil => exact ⟨[], rfl, by simp⟩
  | cons last rest ih =>
    rcases ih with ⟨popped, heq, hpopped⟩
    unfold popFooter
    split
    next hfooter =>
      refine ⟨last :: popped, congrArg _ heq, ?_⟩
      intro line hmem
      rcases List.mem_cons.mp hmem with rfl | hmem
      . exact .inl hfooter
      . exact hpopped line hmem
    next =>
      split
      next hverdict =>
        refine ⟨[last], rfl, ?_⟩
        intro line hmem
        rw [List.mem_singleton.mp hmem]
        exact .inr hverdict
      next => exact ⟨[], rfl, by simp⟩

theorem stripFooterGrammar_spec (lines : List Line)
    : ∃ popped, lines = stripFooterGrammar lines ++ popped ∧
        ∀ line ∈ popped, isFooter line = true ∨ isVerdict line = true := by
  rcases popFooter_spec lines.reverse with ⟨popped, heq, hpopped⟩
  refine ⟨popped.reverse, ?_, fun line hmem => hpopped line (List.mem_reverse.mp hmem)⟩
  rw [stripFooterGrammar, ← List.reverse_append, ← heq, List.reverse_reverse]

theorem popFooter_append {popped : List Line} (h : ∀ line ∈ popped, isFooter line = true) (lines : List Line)
    : popFooter (popped ++ lines) = popFooter lines := by
  induction popped with
  | nil => rfl
  | cons line popped ih =>
    rw [List.cons_append, popFooter, if_pos (h line List.mem_cons_self)]
    exact ih fun l hl => h l (List.mem_cons_of_mem _ hl)

end Footer

section Keep

theorem keepLine_of_isRunHeader (h : isRunHeader line = true) : keepLine testName line = none := by
  rw [keepLine, if_pos h]

theorem keepLine_marker (testName : String) (rest : Line)
    : keepLine testName (marker testName ++ rest) = if !rest.isEmpty && !isVerdict rest then some rest else none := by
  unfold keepLine
  rw [if_neg (not_isRunHeader_of_marker (isPrefixOf_marker testName rest)), dropPrefix?_marker]

theorem keepLine_self (hheader : isRunHeader line = false) (hmarker : (marker testName).isPrefixOf line = false)
    : keepLine testName line = some line := by
  unfold keepLine
  rw [if_neg (by simp [hheader]), dropPrefix?_eq_none hmarker]

theorem keepLine_suffix (h : keepLine testName line = some kept) : kept <:+ line := by
  cases hmarker : (marker testName).isPrefixOf line with
  | true =>
    rcases List.isPrefixOf_iff_prefix.mp hmarker with ⟨rest, rfl⟩
    rw [keepLine_marker] at h
    split at h
    next =>
      cases h
      exact List.suffix_append _ _
    next => cases h
  | false =>
    cases hheader : isRunHeader line with
    | true =>
      rw [keepLine_of_isRunHeader hheader] at h
      cases h
    | false =>
      rw [keepLine_self hheader hmarker] at h
      cases h
      exact List.suffix_refl _

end Keep

theorem isFraming_eq_false : isFraming testName line = false
    ↔ isRunHeader line = false ∧ (marker testName).isPrefixOf line = false ∧ isResult line = false := by
  simp only [isFraming, Bool.or_eq_false_iff, and_assoc]

theorem head_of_isFraming (h : isFraming testName line = true) : line.head? ∈ [some 114, some 116] := by
  simp only [isFraming, Bool.or_eq_true] at h
  rcases h with (hheader | hmarker) | hresult
  . rw [List.mem_singleton.mp (head_of_isRunHeader hheader)]
    decide
  . rw [List.mem_singleton.mp (head_of_marker hmarker)]
    decide
  . rw [List.mem_singleton.mp (head_of_isResult hresult)]
    decide

theorem isFraming_of_isVerdict (h : isVerdict line = true) : isFraming testName line = false := by
  rw [Bool.eq_false_iff]
  intro hframing
  exact heads_disjoint (head_of_isFraming hframing) (head_of_isVerdict h) (by simp)

theorem isFraming_of_isFooter (h : isFooter line = true) : isFraming testName line = false := by
  rw [Bool.eq_false_iff]
  intro hframing
  exact heads_disjoint (head_of_isFraming hframing) (head_of_isFooter h) (by simp)

theorem isFraming_of_isEmpty (h : line.isEmpty = true) : isFraming testName line = false := by
  apply isFraming_of_isFooter
  simp [isFooter, h]

theorem unmarked_marker (testName : String) (rest : Line) : unmarked testName (marker testName ++ rest) = rest := by
  rw [unmarked, dropPrefix?_marker, Option.getD_some]

theorem unmarked_self (h : (marker testName).isPrefixOf line = false) : unmarked testName line = line := by
  rw [unmarked, dropPrefix?_eq_none h, Option.getD_none]

theorem keepLine_framing_iff (testName : String) (line : Line)
    : (∀ kept, keepLine testName line = some kept → isFraming testName kept = false)
        ↔ isRunHeader line = true ∨ isFraming testName (unmarked testName line) = false := by
  cases hmarker : (marker testName).isPrefixOf line with
  | true =>
    rcases List.isPrefixOf_iff_prefix.mp hmarker with ⟨rest, rfl⟩
    rw [keepLine_marker, unmarked_marker, or_iff_right (not_isRunHeader_of_marker hmarker)]
    split
    next => simp
    next hdropped =>
      have hrest : isFraming testName rest = false := by
        cases hempty : rest.isEmpty with
        | true => exact isFraming_of_isEmpty hempty
        | false => exact isFraming_of_isVerdict (by simpa [hempty] using hdropped)
      simp [hrest]
  | false =>
    cases hheader : isRunHeader line with
    | true => simp [keepLine_of_isRunHeader hheader]
    | false => simp [keepLine_self hheader hmarker, unmarked_self hmarker]

theorem keepLine_of_clear (h : isFraming testName line = false) : keepLine testName line = some line := by
  rcases isFraming_eq_false.mp h with ⟨hheader, hmarker, _⟩
  exact keepLine_self hheader hmarker

theorem mem_cutFooter_iff (testName : String) (lines : List Line)
    : (∀ line ∈ cutFooter lines, ∀ kept, keepLine testName line = some kept → isFraming testName kept = false)
        ↔ ∀ line ∈ beforeResult lines, isRunHeader line = true ∨ isFraming testName (unmarked testName line) = false := by
  simp only [keepLine_framing_iff]
  unfold cutFooter beforeResult
  cases Lines.rposition isResult lines with
  | none => rfl
  | some r =>
    rcases stripFooterGrammar_spec (lines.take r) with ⟨popped, heq, hpopped⟩
    dsimp only
    constructor
    . intro h line hmem
      rw [heq] at hmem
      rcases List.mem_append.mp hmem with hmem | hmem
      . exact h line hmem
      . have hclear : isFraming testName line = false := by
          rcases hpopped line hmem with hfooter | hverdict
          . exact isFraming_of_isFooter hfooter
          . exact isFraming_of_isVerdict hverdict
        rw [unmarked_self (isFraming_eq_false.mp hclear).2.1]
        exact .inr hclear
    . intro h line hmem
      apply h
      rw [heq]
      exact List.mem_append_left _ hmem

theorem stripLines_clear_iff (testName : String) (lines : List Line)
    : (∀ line ∈ stripLines testName lines, isFraming testName line = false)
        ↔ ∀ line ∈ beforeResult lines, isRunHeader line = true ∨ isFraming testName (unmarked testName line) = false := by
  rw [← mem_cutFooter_iff]
  constructor
  . intro h line hmem kept hkept
    cases hempty : kept.isEmpty with
    | true => exact isFraming_of_isEmpty hempty
    | false => exact h kept (Lines.mem_trim (List.mem_filterMap.mpr ⟨line, hmem, hkept⟩) hempty)
  . intro h kept hmem
    rcases List.mem_filterMap.mp (Lines.mem_of_mem_trim hmem) with ⟨line, hline, hkept⟩
    exact h line hline kept hkept

theorem stripLines_of_clear (h : ∀ line ∈ lines, isFraming testName line = false)
    : stripLines testName lines = Lines.trim List.isEmpty lines := by
  have hcut : cutFooter lines = lines := by
    unfold cutFooter
    rw [Lines.rposition_eq_none fun line hmem => (isFraming_eq_false.mp (h line hmem)).2.2]
  have hkeep : lines.filterMap (keepLine testName) = lines := by
    rw [List.filterMap_congr fun line hmem => keepLine_of_clear (h line hmem), List.filterMap_some]
  rw [stripLines, hcut, hkeep]

theorem weight_cutFooter_lt (hmem : line ∈ lines) (h : isResult line = true)
    : Lines.weight (cutFooter lines) < Lines.weight lines := by
  rcases Lines.rposition_cases isResult lines with ⟨_, hall⟩ | ⟨pre, result, post, rfl, _, _, hposition⟩
  . rw [hall line hmem] at h
    cases h
  . rcases stripFooterGrammar_spec pre with ⟨popped, heq, _⟩
    have hcut : cutFooter (pre ++ result :: post) = stripFooterGrammar pre := by
      rw [cutFooter, hposition]
      dsimp only
      rw [List.take_left]
    have hpre : Lines.weight pre = Lines.weight (stripFooterGrammar pre) + Lines.weight popped := by
      rw [← Lines.weight_append, ← heq]
    rw [hcut, Lines.weight_append, Lines.weight_cons]
    omega

theorem cutFooter_of_not (h : ∀ line ∈ lines, isResult line = false) : cutFooter lines = lines := by
  rw [cutFooter, Lines.rposition_eq_none h]

theorem weight_stripLines_lt (hmem : line ∈ lines) (h : isFraming testName line = true)
    : Lines.weight (stripLines testName lines) < Lines.weight lines := by
  have htrim : Lines.weight (stripLines testName lines) ≤ Lines.weight ((cutFooter lines).filterMap (keepLine testName)) :=
    Lines.weight_sublist (Lines.trim_sublist _ _)
  by_cases hresult : ∃ l ∈ lines, isResult l = true
  . rcases hresult with ⟨result, hresult, his⟩
    have hcut := weight_cutFooter_lt hresult his
    have hkeep : Lines.weight ((cutFooter lines).filterMap (keepLine testName)) ≤ Lines.weight (cutFooter lines) :=
      Lines.weight_filterMap_le fun _ _ h => (keepLine_suffix h).length_le
    omega
  . have hnone : ∀ l ∈ lines, isResult l = false := by
      intro l hl
      rw [Bool.eq_false_iff]
      exact fun his => hresult ⟨l, hl, his⟩
    have hkeep : Lines.weight (lines.filterMap (keepLine testName)) < Lines.weight lines := by
      apply Lines.weight_filterMap_lt (fun _ _ h => (keepLine_suffix h).length_le) hmem
      intro kept hkept
      simp only [isFraming, hnone line hmem, Bool.or_false, Bool.or_eq_true] at h
      rcases h with hheader | hmarker
      . rw [keepLine_of_isRunHeader hheader] at hkept
        cases hkept
      . rcases List.isPrefixOf_iff_prefix.mp hmarker with ⟨rest, rfl⟩
        rw [keepLine_marker] at hkept
        split at hkept
        next =>
          cases hkept
          rcases marker_cons testName with ⟨tail, htail⟩
          simp only [htail, List.length_append, List.length_cons]
          omega
        next => cases hkept
    rw [cutFooter_of_not hnone] at htrim
    omega

theorem stripLines_oneLine (hlines : ∀ line ∈ lines, newline ∉ line) : ∀ line ∈ stripLines testName lines, newline ∉ line := by
  intro kept hmem hnewline
  rcases List.mem_filterMap.mp (Lines.mem_of_mem_trim hmem) with ⟨line, hline, hkept⟩
  have hcut : line ∈ lines := by
    unfold cutFooter at hline
    split at hline
    next => exact hline
    next r _ =>
      rcases stripFooterGrammar_spec (lines.take r) with ⟨popped, heq, _⟩
      apply List.mem_of_mem_take (i := r)
      rw [heq]
      exact List.mem_append_left _ hline
  exact hlines line hcut ((keepLine_suffix hkept).subset hnewline)

theorem strip_idempotent_iff (output : List UInt8) (testName : String)
    : stripLibtestFrame (stripLibtestFrame output testName) testName = stripLibtestFrame output testName
        ↔ Bare testName output := by
  have honeLine : ∀ line ∈ stripLines testName (output.splitOn newline), newline ∉ line :=
    stripLines_oneLine fun _ => Lines.not_mem_of_mem_splitOn
  have htrimmed : Lines.trim List.isEmpty (stripLines testName (output.splitOn newline))
      = stripLines testName (output.splitOn newline) := Lines.trim_trim _ _
  rw [Bare, ← stripLines_clear_iff]
  simp only [stripLibtestFrame]
  generalize stripLines testName (output.splitOn newline) = lines at honeLine htrimmed
  have hblank : lines ≠ [[]] := by
    rw [← htrimmed]
    exact Lines.trim_ne_singleton rfl
  by_cases hne : lines = []
  . subst hne
    have hempty : stripLines testName [[]] = [] := by
      rw [stripLines_of_clear]
      . rfl
      . intro line hmem
        rw [List.mem_singleton.mp hmem]
        exact isFraming_of_isEmpty rfl
    simp [Lines.join, hempty]
  . rw [Lines.splitOn_join honeLine hne]
    constructor
    . intro hjoin line hmem
      rw [Bool.eq_false_iff]
      intro hframing
      have hlt := weight_stripLines_lt hmem hframing
      have heq : stripLines testName lines = lines :=
        Lines.join_inj hjoin (stripLines_oneLine honeLine) honeLine (Lines.trim_ne_singleton rfl) hblank
      rw [heq] at hlt
      exact Nat.lt_irrefl _ hlt
    . intro hclear
      rw [stripLines_of_clear hclear, htrimmed]

-- A test that runs another test binary, and prints its summary first.
def nestedRun : List UInt8 :=
  utf8 "\nrunning 1 test\ntest t ... test result: ok. 3 passed\nall done\nok\n\ntest result: ok. 1 passed\n\n"

theorem strip_not_idempotent
    : ¬ ∀ (output : List UInt8) (testName : String),
        stripLibtestFrame (stripLibtestFrame output testName) testName = stripLibtestFrame output testName := by
  intro h
  have hnested := h nestedRun "t"
  revert hnested
  decide +kernel

end Idempotent

-- Where the lines come out: after the marker, on a terminal, or ahead of it, from a pod.
inductive Layout where
  | glued
  | merged
  deriving DecidableEq

/--
One run of one test: its own lines, none of them framing, and what libtest reports of it.
-/
structure Capture where
  testName : String
  first : Line
  rest : List Line
  layout : Layout
  verdict : Line
  summary : Line
  trailing : Nat
  oneName : newline ∉ utf8 testName
  oneLine : ∀ line ∈ first :: rest, newline ∉ line
  clear : ∀ line ∈ first :: rest, isFraming testName line = false
  judged : isVerdict verdict = true
  oneVerdict : newline ∉ verdict
  oneSummary : newline ∉ summary

namespace Capture

def body (run : Capture) : List Line := run.first :: run.rest

def reported (run : Capture) : List Line :=
  match run.layout with
  | .glued => (marker run.testName ++ run.first) :: run.rest ++ [run.verdict]
  | .merged => run.body ++ [marker run.testName ++ run.verdict]

def failures (run : Capture) : List Line :=
  if (utf8 "FAILED").isPrefixOf run.verdict then
    [[], utf8 "failures:", [], utf8 "failures:", utf8 "    " ++ utf8 run.testName]
  else []

def lines (run : Capture) : List Line :=
  [] :: utf8 "running 1 test" :: run.reported ++ run.failures
    ++ [] :: (utf8 "test result: " ++ run.summary) :: List.replicate run.trailing []

def output (run : Capture) : List UInt8 := Lines.join newline run.lines

variable (run : Capture)

theorem isVerdict_not_isFooter {line : Line} (h : isVerdict line = true) : isFooter line = false := by
  rw [Bool.eq_false_iff]
  intro hfooter
  exact heads_disjoint (head_of_isVerdict h) (head_of_isFooter hfooter) (by simp)

theorem newline_not_mem_marker : newline ∉ marker run.testName := by
  rw [marker_eq, List.mem_append, List.mem_append, not_or, not_or]
  exact ⟨⟨by decide, run.oneName⟩, by decide⟩

theorem reported_oneLine : ∀ line ∈ run.reported, newline ∉ line := by
  have hmarker := run.newline_not_mem_marker
  have hfirst := run.oneLine run.first List.mem_cons_self
  have hrest : ∀ line ∈ run.rest, newline ∉ line := fun line hmem => run.oneLine line (List.mem_cons_of_mem _ hmem)
  intro line hmem
  unfold reported at hmem
  split at hmem
  next =>
    simp only [List.cons_append, List.mem_cons, List.mem_append, List.not_mem_nil, or_false] at hmem
    rcases hmem with rfl | hmem | rfl
    . simp [hmarker, hfirst]
    . exact hrest line hmem
    . exact run.oneVerdict
  next =>
    simp only [body, List.cons_append, List.mem_cons, List.mem_append, List.not_mem_nil, or_false] at hmem
    rcases hmem with rfl | hmem | rfl
    . exact hfirst
    . exact hrest line hmem
    . simp [hmarker, run.oneVerdict]

theorem failures_isFooter : ∀ line ∈ run.failures, isFooter line = true := by
  intro line hmem
  unfold failures at hmem
  split at hmem
  next =>
    simp only [List.mem_cons, List.not_mem_nil, or_false] at hmem
    rcases hmem with rfl | rfl | rfl | rfl | rfl
    . decide +kernel
    . decide +kernel
    . decide +kernel
    . decide +kernel
    . have hindent : (utf8 "    ").isPrefixOf (utf8 "    " ++ utf8 run.testName) = true :=
        List.isPrefixOf_iff_prefix.mpr (List.prefix_append _ _)
      simp [isFooter, hindent]
  next => cases hmem

theorem failures_oneLine : ∀ line ∈ run.failures, newline ∉ line := by
  intro line hmem
  unfold failures at hmem
  split at hmem
  next =>
    simp only [List.mem_cons, List.not_mem_nil, or_false] at hmem
    rcases hmem with rfl | rfl | rfl | rfl | rfl
    . decide +kernel
    . decide +kernel
    . decide +kernel
    . decide +kernel
    . rw [List.mem_append, not_or]
      exact ⟨by decide, run.oneName⟩
  next => cases hmem

theorem lines_oneLine : ∀ line ∈ run.lines, newline ∉ line := by
  intro line hmem
  simp only [lines, List.cons_append, List.append_assoc, List.mem_cons, List.mem_append, List.mem_replicate] at hmem
  rcases hmem with rfl | rfl | hmem | hmem | rfl | rfl | ⟨_, rfl⟩
  . decide +kernel
  . decide +kernel
  . exact run.reported_oneLine line hmem
  . exact run.failures_oneLine line hmem
  . decide +kernel
  . rw [List.mem_append, not_or]
    exact ⟨by decide, run.oneSummary⟩
  . decide +kernel

-- What the summary's cut leaves, run header first.
def uncut (run : Capture) : List Line :=
  match run.layout with
  | .glued => [] :: utf8 "running 1 test" :: (marker run.testName ++ run.first) :: run.rest
  | .merged => [] :: utf8 "running 1 test" :: run.body ++ [marker run.testName ++ run.verdict]

theorem stripFooterGrammar_append {lines footer : List Line} (h : ∀ line ∈ footer, isFooter line = true)
    : stripFooterGrammar (lines ++ footer) = stripFooterGrammar lines := by
  rw [stripFooterGrammar, List.reverse_append, popFooter_append, stripFooterGrammar]
  intro line hmem
  exact h line (List.mem_reverse.mp hmem)

theorem stripFooterGrammar_verdict (lines : List Line) {verdict : Line} (h : isVerdict verdict = true)
    : stripFooterGrammar (lines ++ [verdict]) = lines := by
  simp [stripFooterGrammar, popFooter, isVerdict_not_isFooter h, h]

theorem stripFooterGrammar_self (lines : List Line) {last : Line} (hfooter : isFooter last = false)
    (hverdict : isVerdict last = false)
    : stripFooterGrammar (lines ++ [last]) = lines ++ [last] := by
  simp [stripFooterGrammar, popFooter, hfooter, hverdict]

theorem marker_not_popped (testName : String) (line : Line)
    : isFooter (marker testName ++ line) = false ∧ isVerdict (marker testName ++ line) = false := by
  have hhead := head_of_marker (isPrefixOf_marker testName line)
  constructor
  . rw [Bool.eq_false_iff]
    intro hfooter
    exact heads_disjoint hhead (head_of_isFooter hfooter) (by simp)
  . rw [Bool.eq_false_iff]
    intro hverdict
    exact heads_disjoint hhead (head_of_isVerdict hverdict) (by simp)

theorem cutFooter_lines : cutFooter run.lines = run.uncut := by
  have hresult : isResult (utf8 "test result: " ++ run.summary) = true :=
    List.isPrefixOf_iff_prefix.mpr (List.prefix_append _ _)
  have htrailing : ∀ line ∈ List.replicate run.trailing ([] : Line), isResult line = false := by
    intro line hmem
    rw [List.eq_of_mem_replicate hmem]
    decide +kernel
  have hlines : run.lines = ([] :: utf8 "running 1 test" :: run.reported ++ (run.failures ++ [[]]))
      ++ (utf8 "test result: " ++ run.summary) :: List.replicate run.trailing [] := by
    simp [lines]
  have hfooter : ∀ line ∈ run.failures ++ [[]], isFooter line = true := by
    intro line hmem
    rcases List.mem_append.mp hmem with hmem | hmem
    . exact run.failures_isFooter line hmem
    . rw [List.mem_singleton.mp hmem]
      rfl
  rw [hlines, cutFooter, Lines.rposition_append hresult htrailing]
  dsimp only
  rw [List.take_left, stripFooterGrammar_append hfooter]
  unfold reported uncut
  cases run.layout with
  | glued => exact stripFooterGrammar_verdict (_ :: _ :: _ :: _) run.judged
  | merged =>
    rcases marker_not_popped run.testName run.verdict with ⟨hfooter, hverdict⟩
    exact stripFooterGrammar_self (_ :: _ :: _) hfooter hverdict

theorem filterMap_body {lines : List Line} (h : ∀ line ∈ lines, isFraming run.testName line = false)
    : lines.filterMap (keepLine run.testName) = lines := by
  rw [List.filterMap_congr fun line hmem => keepLine_of_clear (h line hmem), List.filterMap_some]

theorem stripLines_lines : stripLines run.testName run.lines
    = Lines.trim List.isEmpty (if run.layout = .glued ∧ isVerdict run.first = true then run.rest else run.body) := by
  have hrest : run.rest.filterMap (keepLine run.testName) = run.rest :=
    run.filterMap_body fun line hmem => run.clear line (List.mem_cons_of_mem _ hmem)
  have hbody : run.body.filterMap (keepLine run.testName) = run.body := run.filterMap_body run.clear
  have hblank : keepLine run.testName [] = some [] := keepLine_of_clear (isFraming_of_isEmpty rfl)
  have hheader : keepLine run.testName (utf8 "running 1 test") = none := keepLine_of_isRunHeader (by decide +kernel)
  rw [stripLines, cutFooter_lines]
  unfold uncut
  cases run.layout with
  | glued =>
    simp only [List.filterMap_cons, hblank, hheader, keepLine_marker, hrest, true_and]
    rw [Lines.trim_cons_of_pos rfl]
    cases hverdict : isVerdict run.first with
    | true => simp
    | false =>
      cases hempty : run.first.isEmpty with
      | true => simp [body, Lines.trim_cons_of_pos hempty]
      | false => simp [body]
  | merged =>
    simp only [List.cons_append, List.filterMap_cons, List.filterMap_append, hblank, hheader, keepLine_marker, hbody,
      run.judged]
    simp [Lines.trim_cons_of_pos]

theorem strip_capture_iff
    : stripLibtestFrame run.output run.testName = Lines.join newline (Lines.trim List.isEmpty run.body)
        ↔ run.layout = .glued → isVerdict run.first = false := by
  have hne : run.lines ≠ [] := List.cons_ne_nil _ _
  rw [stripLibtestFrame, output, Lines.splitOn_join run.lines_oneLine hne, stripLines_lines]
  by_cases hlost : run.layout = .glued ∧ isVerdict run.first = true
  . rw [if_pos hlost]
    have honeBody : ∀ line ∈ Lines.trim List.isEmpty run.body, newline ∉ line :=
      fun line hmem => run.oneLine line (Lines.mem_of_mem_trim hmem)
    have honeRest : ∀ line ∈ Lines.trim List.isEmpty run.rest, newline ∉ line :=
      fun line hmem => run.oneLine line (List.mem_cons_of_mem _ (Lines.mem_of_mem_trim hmem))
    constructor
    . intro hjoin
      -- A verdict is no blank line, so the body has one line more to show.
      have hlines := Lines.join_inj hjoin honeRest honeBody (Lines.trim_ne_singleton rfl) (Lines.trim_ne_singleton rfl)
      have hfilter := congrArg (List.filter fun line => !line.isEmpty) hlines
      have hshown : (!run.first.isEmpty) = true := by
        cases hempty : run.first.isEmpty with
        | true =>
          have hfooter := isVerdict_not_isFooter hlost.2
          simp [isFooter, hempty] at hfooter
        | false => rfl
      rw [Lines.filter_trim, Lines.filter_trim, body, List.filter_cons, if_pos hshown] at hfilter
      exact absurd (congrArg List.length hfilter) (by simp)
    . intro h
      rw [h hlost.1] at hlost
      cases hlost.2
  . rw [if_neg hlost]
    simp only [true_iff]
    intro hglued
    rw [Bool.eq_false_iff]
    exact fun hverdict => hlost ⟨hglued, hverdict⟩

end Capture

def okFirst : Capture where
  testName := "t"
  first := utf8 "ok"
  rest := [utf8 "done"]
  layout := .glued
  verdict := utf8 "ok"
  summary := utf8 "ok. 1 passed"
  trailing := 2
  oneName := by decide +kernel
  oneLine := by decide +kernel
  clear := by decide +kernel
  judged := by decide +kernel
  oneVerdict := by decide +kernel
  oneSummary := by decide +kernel

theorem strip_loses_first_line
    : ¬ ∀ run : Capture,
        stripLibtestFrame run.output run.testName = Lines.join newline (Lines.trim List.isEmpty run.body) := by
  intro h
  have hlost := h okFirst
  revert hlost
  decide +kernel

end Libtest
