import Mathlib.Data.List.Induction
import Mathlib.Tactic.Common
import Ztest.Lib.Run

/-!
This module contains the reading of an argument vector: flags that stand alone, flags that take a value, in
their own token or in the next one, and a token that ends the flags. `Argv.Reads` is the reading as a
grammar, `Argv.read` computes it.
-/

namespace Argv

inductive Kind where
  | other
  | switch
  | valued
  deriving DecidableEq

structure Grammar (α : Type) where
  -- The token after which there are no flags.
  cut : α
  -- A flag and the value that is written in its own token.
  split : α → α × Option α
  kind : α → Kind

/--
What one or two tokens of an argument vector are: `bare` is a flag whose value is missing, since nothing
follows it.
-/
inductive Item (α : Type) where
  | kept (arg : α)
  | switch (arg flag : α)
  | inline (arg flag value : α)
  | spaced (arg flag value : α)
  | bare (arg flag : α)
  | rest (args : List α)
  deriving DecidableEq

namespace Item

variable {α : Type}

def args (cut : α) : Item α → List α
  | kept arg => [arg]
  | switch arg _ => [arg]
  | inline arg _ _ => [arg]
  | spaced arg _ value => [arg, value]
  | bare arg _ => [arg]
  | rest args => cut :: args

def forwarded (cut : α) : Item α → List α
  | kept arg => [arg]
  | rest args => cut :: args
  | _ => []

def switched : Item α → Option α
  | switch _ flag => some flag
  | _ => none

def given : Item α → Option (α × Option α)
  | inline _ flag value => some (flag, some value)
  | spaced _ flag value => some (flag, some value)
  | bare _ flag => some (flag, none)
  | _ => none

def flag (item : Item α) : Option α := item.switched.or (item.given.map Prod.fst)

-- The flag whose value should stand in the next token, where that is the end or `cut`.
def missing [DecidableEq α] (cut : α) : Item α → Option α
  | spaced _ flag value => if value = cut then some flag else none
  | bare _ flag => some flag
  | _ => none

end Item

variable {α : Type} (g : Grammar α)

inductive Reads : List α → List (Item α) → Prop where
  | nil : Reads [] []
  | rest {args : List α} : Reads (g.cut :: args) [.rest args]
  | kept {arg : α} {args : List α} {items : List (Item α)} (hcut : arg ≠ g.cut)
    (hkind : g.kind (g.split arg).1 = .other) (h : Reads args items) : Reads (arg :: args) (.kept arg :: items)
  | switch {arg : α} {args : List α} {items : List (Item α)} (hcut : arg ≠ g.cut)
    (hkind : g.kind (g.split arg).1 = .switch) (h : Reads args items)
    : Reads (arg :: args) (.switch arg (g.split arg).1 :: items)
  | inline {arg value : α} {args : List α} {items : List (Item α)} (hcut : arg ≠ g.cut)
    (hkind : g.kind (g.split arg).1 = .valued) (hvalue : (g.split arg).2 = some value) (h : Reads args items)
    : Reads (arg :: args) (.inline arg (g.split arg).1 value :: items)
  | spaced {arg value : α} {args : List α} {items : List (Item α)} (hcut : arg ≠ g.cut)
    (hkind : g.kind (g.split arg).1 = .valued) (hvalue : (g.split arg).2 = none) (h : Reads args items)
    : Reads (arg :: value :: args) (.spaced arg (g.split arg).1 value :: items)
  | bare {arg : α} (hcut : arg ≠ g.cut) (hkind : g.kind (g.split arg).1 = .valued)
    (hvalue : (g.split arg).2 = none) : Reads [arg] [.bare arg (g.split arg).1]

section Reads

variable {g} {args : List α} {items : List (Item α)}

-- No token is lost and none is read twice.
theorem Reads.flatMap_args (h : Reads g args items) : items.flatMap (Item.args g.cut) = args := by
  induction h with
  | nil => rfl
  | rest => simp [Item.args]
  | kept _ _ _ ih => simp [Item.args, ih]
  | switch _ _ _ ih => simp [Item.args, ih]
  | inline _ _ _ _ ih => simp [Item.args, ih]
  | spaced _ _ _ _ ih => simp [Item.args, ih]
  | bare _ _ _ => simp [Item.args]

theorem Item.forwarded_sublist (cut : α) (item : Item α) : (item.forwarded cut).Sublist (item.args cut) := by
  cases item with
  | kept _ | rest _ => exact List.Sublist.refl _
  | switch _ _ | inline _ _ _ | spaced _ _ _ | bare _ _ => exact List.nil_sublist _

theorem Reads.forwarded_sublist (h : Reads g args items) : (items.flatMap (Item.forwarded g.cut)).Sublist args := by
  rw [← h.flatMap_args]
  clear h
  induction items with
  | nil => exact List.Sublist.refl _
  | cons item items ih =>
    rw [List.flatMap_cons, List.flatMap_cons]
    exact (item.forwarded_sublist g.cut).append ih

-- Everything after the end of the flags is forwarded.
theorem Reads.suffix_of_rest (h : Reads g args items) {after : List α} (hmem : .rest after ∈ items)
    : g.cut :: after <:+ items.flatMap (Item.forwarded g.cut) := by
  induction h with
  | nil => cases hmem
  | rest =>
    cases List.mem_singleton.mp hmem
    simp [Item.forwarded]
  | bare _ _ _ => cases List.mem_singleton.mp hmem
  | kept _ _ _ ih | switch _ _ _ ih | inline _ _ _ _ ih | spaced _ _ _ _ ih =>
    rcases List.mem_cons.mp hmem with heq | hmem
    . cases heq
    . exact List.suffix_append_of_suffix (ih hmem)

end Reads

variable [DecidableEq α]

def read : List α → List (Item α)
  | [] => []
  | arg :: args =>
    if arg = g.cut then
      [.rest args]
    else
      match g.kind (g.split arg).1 with
      | .other => .kept arg :: read args
      | .switch => .switch arg (g.split arg).1 :: read args
      | .valued =>
        match (g.split arg).2, args with
        | some value, args => .inline arg (g.split arg).1 value :: read args
        | none, [] => [.bare arg (g.split arg).1]
        | none, value :: args => .spaced arg (g.split arg).1 value :: read args

section Read

variable {g} {arg value : α} {args : List α} {items : List (Item α)}

theorem read_nil : read g [] = [] := by rw [read.eq_def]

theorem read_cons (arg : α) (args : List α)
    : read g (arg :: args)
        =
      if arg = g.cut then
        [.rest args]
      else
        match g.kind (g.split arg).1 with
        | .other => .kept arg :: read g args
        | .switch => .switch arg (g.split arg).1 :: read g args
        | .valued =>
          match (g.split arg).2, args with
          | some value, args => .inline arg (g.split arg).1 value :: read g args
          | none, [] => [.bare arg (g.split arg).1]
          | none, value :: args => .spaced arg (g.split arg).1 value :: read g args := by
  rw [read.eq_def]

theorem read_cut : read g (g.cut :: args) = [.rest args] := by
  rw [read_cons]
  simp only [if_true]

theorem read_kept (hcut : arg ≠ g.cut) (hkind : g.kind (g.split arg).1 = .other)
    : read g (arg :: args) = .kept arg :: read g args := by
  rw [read_cons]
  simp only [if_neg hcut, hkind]

theorem read_switch (hcut : arg ≠ g.cut) (hkind : g.kind (g.split arg).1 = .switch)
    : read g (arg :: args) = .switch arg (g.split arg).1 :: read g args := by
  rw [read_cons]
  simp only [if_neg hcut, hkind]

theorem read_inline (hcut : arg ≠ g.cut) (hkind : g.kind (g.split arg).1 = .valued)
    (hvalue : (g.split arg).2 = some value)
    : read g (arg :: args) = .inline arg (g.split arg).1 value :: read g args := by
  rw [read_cons]
  simp only [if_neg hcut, hkind, hvalue]

theorem read_spaced (hcut : arg ≠ g.cut) (hkind : g.kind (g.split arg).1 = .valued)
    (hvalue : (g.split arg).2 = none)
    : read g (arg :: value :: args) = .spaced arg (g.split arg).1 value :: read g args := by
  rw [read_cons]
  simp only [if_neg hcut, hkind, hvalue]

theorem read_bare (hcut : arg ≠ g.cut) (hkind : g.kind (g.split arg).1 = .valued)
    (hvalue : (g.split arg).2 = none) : read g [arg] = [.bare arg (g.split arg).1] := by
  rw [read_cons]
  simp only [if_neg hcut, hkind, hvalue]

theorem reads_read (g : Grammar α) (args : List α) : Reads g args (read g args) := by
  induction args using read.induct g with
  | case1 =>
    rw [read_nil]
    exact .nil
  | case2 args =>
    rw [read_cut]
    exact .rest
  | case3 arg args hcut hkind ih =>
    rw [read_kept hcut hkind]
    exact .kept hcut hkind ih
  | case4 arg args hcut hkind ih =>
    rw [read_switch hcut hkind]
    exact .switch hcut hkind ih
  | case5 arg hcut hkind value args hvalue ih =>
    rw [read_inline hcut hkind hvalue]
    exact .inline hcut hkind hvalue ih
  | case6 arg hcut hkind hvalue =>
    rw [read_bare hcut hkind hvalue]
    exact .bare hcut hkind hvalue
  | case7 arg hcut hkind value args hvalue ih =>
    rw [read_spaced hcut hkind hvalue]
    exact .spaced hcut hkind hvalue ih

theorem Reads.eq_read (h : Reads g args items) : items = read g args := by
  induction h with
  | nil => rw [read_nil]
  | rest => rw [read_cut]
  | kept hcut hkind _ ih => rw [read_kept hcut hkind, ih]
  | switch hcut hkind _ ih => rw [read_switch hcut hkind, ih]
  | inline hcut hkind hvalue _ ih => rw [read_inline hcut hkind hvalue, ih]
  | spaced hcut hkind hvalue _ ih => rw [read_spaced hcut hkind hvalue, ih]
  | bare hcut hkind hvalue => rw [read_bare hcut hkind hvalue]

end Read

section Fold

variable {σ ι ε β γ : Type} {step : σ → ι → Except ε σ} {touches : ι → Option γ} {field : σ → β}
  {Sets : γ → β → Prop} {inputs : List ι} {s s' : σ}

theorem foldlM_concat_ok {i : ι} (h : (inputs ++ [i]).foldlM step s = .ok s')
    : ∃ mid, inputs.foldlM step s = .ok mid ∧ step mid i = .ok s' := by
  rw [List.foldlM_append] at h
  rcases Run.bind_ok h with ⟨mid, hmid, hstep⟩
  refine ⟨mid, hmid, ?_⟩
  simpa only [List.foldlM_cons, List.foldlM_nil, bind_pure] using hstep

-- What the last of some inputs that touch a field leaves there.
def Written (touched : Option γ) (Sets : γ → β → Prop) (before after : β) : Prop :=
  match touched with
  | none => after = before
  | some c => Sets c after

theorem Written.imp {Sets' : γ → β → Prop} {touched : Option γ} {before after : β}
    (h : Written touched Sets before after) (himp : ∀ c, touched = some c → Sets c after → Sets' c after)
    : Written touched Sets' before after := by
  cases touched with
  | none => exact h
  | some c => exact himp c rfl h

theorem foldlM_last (hstep : ∀ s i s', step s i = .ok s' → Written (touches i) Sets (field s) (field s'))
    (h : inputs.foldlM step s = .ok s')
    : Written (inputs.filterMap touches).getLast? Sets (field s) (field s') := by
  induction inputs using List.reverseRecOn generalizing s' with
  | nil =>
    cases h
    rfl
  | append_singleton inputs i ih =>
    rcases foldlM_concat_ok h with ⟨mid, hmid, hlast⟩
    have hwritten := hstep mid i s' hlast
    rw [List.filterMap_append]
    cases htouch : touches i with
    | none =>
      rw [htouch] at hwritten
      have hsame : field s' = field mid := hwritten
      simp only [List.filterMap_cons, htouch, List.filterMap_nil, List.append_nil]
      rw [hsame]
      exact ih hmid
    | some c =>
      rw [htouch] at hwritten
      simp only [List.filterMap_cons, htouch, List.filterMap_nil, List.getLast?_append, List.getLast?_singleton,
        Option.some_or]
      exact hwritten

-- A field that every input adds to is what they all add.
theorem foldlM_flatMap {adds : ι → List β} {field : σ → List β}
    (hadd : ∀ s i s', step s i = .ok s' → field s' = field s ++ adds i) (h : inputs.foldlM step s = .ok s')
    : field s' = field s ++ inputs.flatMap adds := by
  induction inputs using List.reverseRecOn generalizing s' with
  | nil =>
    cases h
    simp
  | append_singleton inputs i ih =>
    rcases foldlM_concat_ok h with ⟨mid, hmid, hstep⟩
    rw [hadd mid i s' hstep, ih hmid]
    simp

-- Where an input fails in all states or in none, the fold fails on the inputs that do.
theorem foldlM_error_iff {Fails : ι → Prop} (hfails : ∀ s i, (∃ e, step s i = .error e) ↔ Fails i)
    : (∃ e, inputs.foldlM step s = .error e) ↔ ∃ i ∈ inputs, Fails i := by
  induction inputs generalizing s with
  | nil => simp [pure, Except.pure]
  | cons i inputs ih =>
    rw [List.foldlM_cons]
    cases hstep : step s i with
    | error e =>
      have hfail := (hfails s i).mp ⟨e, hstep⟩
      constructor
      . intro _
        exact ⟨i, List.mem_cons_self, hfail⟩
      . intro _
        exact ⟨e, rfl⟩
    | ok t =>
      have hfine : ¬Fails i := by
        intro hfail
        rcases (hfails s i).mpr hfail with ⟨e, herror⟩
        rw [hstep] at herror
        cases herror
      have hrest : (∃ e, inputs.foldlM step t = .error e) ↔ ∃ i ∈ inputs, Fails i := ih
      simp only [List.mem_cons, exists_eq_or_imp, hfine, false_or]
      exact hrest

end Fold

end Argv
