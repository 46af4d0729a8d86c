import Mathlib.Tactic.Common

/-!
This module contains dialogs: programs that ask questions of a world they do not know and go on with
the answers, a tree whose branches are the answers. A loop is a dialog only with a bound on its turns.
`Dialog.Runs` is a dialog that was given a list of answers to its end. `Dialog.Safe` is for a dialog that
is one of many: between two of its questions the world moves on. `Dialog.Plays` is one such dialog to its
end, and `Dialog.Asks` says what a dialog may ask at all.
-/

inductive Dialog (Q : Type) (A : Q → Type) (α : Type) where
  | done (a : α)
  | ask (q : Q) (k : A q → Dialog Q A α)

namespace Dialog

variable {Q : Type} {A : Q → Type} {α β : Type}

def bind (d : Dialog Q A α) (f : α → Dialog Q A β) : Dialog Q A β :=
  match d with
  | .done a => f a
  | .ask q k => .ask q fun r => (k r).bind f

instance : Monad (Dialog Q A) where
  pure := .done
  bind := bind

@[simp]
theorem bind_done (a : α) (f : α → Dialog Q A β) : (Dialog.done a >>= f) = f a := rfl

@[simp]
theorem bind_ask (q : Q) (k : A q → Dialog Q A α) (f : α → Dialog Q A β)
    : (Dialog.ask q k >>= f) = .ask q fun r => k r >>= f := rfl

@[simp]
theorem pure_eq (a : α) : (pure a : Dialog Q A α) = .done a := rfl

inductive Runs : Dialog Q A α → List (Sigma A) → α → Prop where
  | done {a : α} : Runs (.done a) [] a
  | ask {q : Q} {k : A q → Dialog Q A α} {r : A q} {rest : List (Sigma A)} {a : α}
    : Runs (k r) rest a → Runs (.ask q k) (⟨q, r⟩ :: rest) a

theorem runs_done {a b : α} {answers : List (Sigma A)}
    : Runs (Dialog.done a : Dialog Q A α) answers b ↔ answers = [] ∧ b = a := by
  constructor
  . intro h
    cases h
    exact ⟨rfl, rfl⟩
  . rintro ⟨rfl, rfl⟩
    exact .done

theorem runs_ask {q : Q} {k : A q → Dialog Q A α} {answers : List (Sigma A)} {a : α}
    : Runs (.ask q k) answers a ↔ ∃ r rest, answers = ⟨q, r⟩ :: rest ∧ Runs (k r) rest a := by
  constructor
  . intro h
    cases h with
    | ask h => exact ⟨_, _, rfl, h⟩
  . rintro ⟨r, rest, rfl, h⟩
    exact .ask h

theorem runs_call {q : Q} {f : A q → Dialog Q A β} {answers : List (Sigma A)} {b : β}
    : Runs (Dialog.ask q .done >>= f) answers b
      ↔ ∃ r rest, answers = ⟨q, r⟩ :: rest ∧ Runs (f r) rest b := runs_ask

theorem Runs.bind {d : Dialog Q A α} {f : α → Dialog Q A β} {before after : List (Sigma A)} {a : α}
    {b : β} (hd : Runs d before a) (hf : Runs (f a) after b)
    : Runs (d >>= f) (before ++ after) b := by
  induction hd with
  | done => exact hf
  | ask _ ih => exact .ask (ih hf)

theorem runs_bind {d : Dialog Q A α} {f : α → Dialog Q A β} {answers : List (Sigma A)} {b : β}
    : Runs (d >>= f) answers b
      ↔ ∃ before after a, answers = before ++ after ∧ Runs d before a ∧ Runs (f a) after b := by
  constructor
  . intro h
    induction d generalizing answers with
    | done a => exact ⟨[], answers, a, rfl, .done, h⟩
    | ask q k ih =>
      obtain ⟨r, rest, rfl, hrest⟩ := runs_ask.mp h
      obtain ⟨before, after, a, rfl, hd, hf⟩ := ih r hrest
      exact ⟨⟨q, r⟩ :: before, after, a, rfl, .ask hd, hf⟩
  . rintro ⟨before, after, a, rfl, hd, hf⟩
    exact hd.bind hf

/--
How a world `W` deals with a dialog: `rely` is what the others may do to it, `pre` what must hold when
a question is asked, `post` what an answer is and leaves.
-/
structure Contract (Q : Type) (A : Q → Type) (W : Type) where
  rely : W → W → Prop
  pre : W → Q → Prop
  post : W → (q : Q) → A q → W → Prop
  refl : ∀ w, rely w w
  trans : ∀ {w₁ w₂ w₃}, rely w₁ w₂ → rely w₂ w₃ → rely w₁ w₃

def Safe {W : Type} (c : Contract Q A W) (R : W → α → Prop) : Dialog Q A α → W → Prop
  | .done a, w => ∀ w', c.rely w w' → R w' a
  | .ask q k, w => ∀ w', c.rely w w' → c.pre w' q ∧ ∀ r w'', c.post w' q r w'' → Safe c R (k r) w''

section Safe

variable {W : Type} {c : Contract Q A W} {R : W → α → Prop} {R' : W → β → Prop} {w w' : W}

theorem Safe.rely {d : Dialog Q A α} (h : Safe c R d w) (hrely : c.rely w w') : Safe c R d w' := by
  cases d with
  | done a =>
    intro w'' hrely'
    exact h w'' (c.trans hrely hrely')
  | ask q k =>
    intro w'' hrely'
    exact h w'' (c.trans hrely hrely')

theorem Safe.imp {R' : W → α → Prop} {d : Dialog Q A α} (h : Safe c R d w) (hR : ∀ w a, R w a → R' w a)
    : Safe c R' d w := by
  induction d generalizing w with
  | done a => exact fun w' hrely => hR w' a (h w' hrely)
  | ask q k ih =>
    intro w' hrely
    obtain ⟨hpre, hpost⟩ := h w' hrely
    exact ⟨hpre, fun r w'' hr => ih r (hpost r w'' hr)⟩

theorem safe_call {q : Q} {f : A q → Dialog Q A α}
    (h : ∀ w', c.rely w w' → c.pre w' q ∧ ∀ r w'', c.post w' q r w'' → Safe c R (f r) w'')
    : Safe c R (Dialog.ask q .done >>= f) w := h

theorem Safe.bind {d : Dialog Q A α} {f : α → Dialog Q A β} (hd : Safe c R d w)
    (hf : ∀ w a, R w a → Safe c R' (f a) w) : Safe c R' (d >>= f) w := by
  induction d generalizing w with
  | done a => exact hf w a (hd w (c.refl w))
  | ask q k ih =>
    intro w' hrely
    obtain ⟨hpre, hpost⟩ := hd w' hrely
    exact ⟨hpre, fun r w'' hr => ih r (hpost r w'' hr)⟩

end Safe

section Asks

variable {P : Q → Prop}

/--
Every question of the dialog is one of `P`, whatever the answers are.
-/
def Asks (P : Q → Prop) : Dialog Q A α → Prop
  | .done _ => True
  | .ask q k => P q ∧ ∀ r, Asks P (k r)

theorem asks_done (a : α) : Asks P (.done a : Dialog Q A α) := trivial

theorem asks_call {q : Q} (h : P q) : Asks P (Dialog.ask q .done : Dialog Q A (A q)) := ⟨h, asks_done⟩

theorem Asks.bind {d : Dialog Q A α} {f : α → Dialog Q A β} (hd : Asks P d) (hf : ∀ a, Asks P (f a))
    : Asks P (d >>= f) := by
  induction d with
  | done a => exact hf a
  | ask q k ih => exact ⟨hd.1, fun r => ih r (hd.2 r)⟩

theorem Runs.asks {d : Dialog Q A α} {answers : List (Sigma A)} {a : α} (h : Runs d answers a) (hd : Asks P d)
    : ∀ x ∈ answers, P x.1 := by
  induction h with
  | done => simp
  | ask _ ih =>
    intro x hx
    rcases List.mem_cons.mp hx with rfl | hx
    . exact hd.1
    . exact ih (hd.2 _) x hx

end Asks

section Plays

variable {W : Type}

/--
A dialog that was given its answers while the world went from one state to another as the contract says.
-/
inductive Plays (c : Contract Q A W) : Dialog Q A α → W → List (Sigma A) → α → W → Prop where
  | done {a : α} {w w' : W} : c.rely w w' → Plays c (.done a) w [] a w'
  | ask {q : Q} {k : A q → Dialog Q A α} {r : A q} {rest : List (Sigma A)} {a : α} {w w₁ w₂ w' : W}
    : c.rely w w₁ → c.post w₁ q r w₂ → Plays c (k r) w₂ rest a w' → Plays c (.ask q k) w (⟨q, r⟩ :: rest) a w'

variable {c : Contract Q A W} {w w' : W} {answers : List (Sigma A)}

theorem plays_ask {q : Q} {k : A q → Dialog Q A α} {a : α}
    : Plays c (.ask q k) w answers a w'
      ↔ ∃ r rest w₁ w₂, answers = ⟨q, r⟩ :: rest ∧ c.rely w w₁ ∧ c.post w₁ q r w₂ ∧ Plays c (k r) w₂ rest a w' := by
  constructor
  . intro h
    cases h with
    | ask hrely hpost h => exact ⟨_, _, _, _, rfl, hrely, hpost, h⟩
  . rintro ⟨r, rest, w₁, w₂, rfl, hrely, hpost, h⟩
    exact .ask hrely hpost h

theorem Plays.runs {d : Dialog Q A α} {a : α} (h : Plays c d w answers a w') : Runs d answers a := by
  induction h with
  | done _ => exact .done
  | ask _ _ _ ih => exact .ask ih

/--
What is there at the end was there all the time, or one question made it and no later one ended it.
-/
theorem Plays.exists_made {d : Dialog Q A α} {a : α} (h : Plays c d w answers a w') (I : W → Prop)
    (makes ends : Sigma A → Prop) (hrely : ∀ w w', c.rely w w' → I w' → I w)
    (hpost : ∀ w q r w', c.post w q r w' → I w' → makes ⟨q, r⟩ ∨ I w ∧ ¬ends ⟨q, r⟩) (hend : I w')
    : (I w ∧ ∀ x ∈ answers, ¬ends x) ∨
        ∃ before x after, answers = before ++ x :: after ∧ makes x ∧ ∀ y ∈ after, ¬ends y := by
  induction h with
  | done h => exact .inl ⟨hrely _ _ h hend, by simp⟩
  | @ask q k r rest a w w₁ w₂ w' h hr _ ih =>
    rcases ih hend with ⟨hthere, hrest⟩ | ⟨before, x, after, rfl, hmakes, hafter⟩
    . rcases hpost _ _ _ _ hr hthere with hmakes | ⟨hthere, hends⟩
      . exact .inr ⟨[], ⟨q, r⟩, rest, rfl, hmakes, hrest⟩
      . refine .inl ⟨hrely _ _ h hthere, ?_⟩
        intro y hy
        rcases List.mem_cons.mp hy with rfl | hy
        . exact hends
        . exact hrest y hy
    . exact .inr ⟨⟨q, r⟩ :: before, x, after, rfl, hmakes, hafter⟩

end Plays
end Dialog
