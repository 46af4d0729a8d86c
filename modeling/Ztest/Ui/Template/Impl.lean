import Mathlib.Algebra.Ring.Nat
import Mathlib.Tactic.Common
import Ztest.Lib.Lines

/-!
This module contains the parser of row templates. A source is its characters, with the offsets in
bytes that the errors name. The parser is given fuel, one unit for each round of a loop or each call.
-/

namespace Ui
namespace Template

inductive Align where
  | left
  | right
  | center
  deriving DecidableEq

inductive Width where
  | fixed (n : Nat)
  | star

inductive Tone where
  | plain
  | dim
  | count
  | pass
  | fail
  | skip
  | scriptId
  deriving DecidableEq

inductive MetricUnit where
  | count
  | perSec
  | fraction
  | bytes
  | bytesPerSec
  | millis
  | cores
  deriving DecidableEq

inductive Cell where
  | lit (s : Text)
  | text (key : Text) (width : Option Width) (align : Align) (tone : Tone)
  | value (key : Text) (width : Option Width) (align : Align) (unit : Option MetricUnit)
      (prec : Option Nat) (thousands : Bool) (tone : Tone)
  | pair (key : Text) (tone : Tone)
  | bar (key : Text) (width : Nat)
  | spark (key : Text) (width : Nat)
  | spinner (tone : Tone)
  | glyph (name : Text) (tone : Tone)
  | group (cells : List Cell)

def toneOf (s : Text) : Option Tone :=
  match String.ofList s with
  | "dim" => some .dim
  | "bold" => some .count
  | "pass" => some .pass
  | "fail" => some .fail
  | "skip" => some .skip
  | "script_id" => some .scriptId
  | _ => none

def unitOf (s : Text) : Option MetricUnit :=
  match String.ofList s with
  | "count" => some .count
  | "per_sec" => some .perSec
  | "fraction" => some .fraction
  | "percent" => some .fraction
  | "bytes" => some .bytes
  | "bytes_per_sec" => some .bytesPerSec
  | "millis" => some .millis
  | "cores" => some .cores
  | _ => none

def glyphs : List String :=
  ["ok", "fail", "warn", "dot", "bullet", "arrow", "progress", "up", "ellipsis", "vbar", "na", "dash",
    "mine", "blocked", "pending", "stem_mid", "stem_last"]

def parseUsize (digits : Text) : Except String Nat :=
  if digits = [] then
    .error "cannot parse integer from empty string"
  else if Nat.ofDigitChars 10 digits 0 < 2 ^ 64 then
    .ok (Nat.ofDigitChars 10 digits 0)
  else
    .error "number too large to fit in target type"

inductive Kind where
  | bar
  | spark
  | pair
  deriving DecidableEq

def alignOf : Text → Align × Text
  | '<' :: cs => (.left, cs)
  | '>' :: cs => (.right, cs)
  | '^' :: cs => (.center, cs)
  | cs => (.left, cs)

def widthOf (cs : Text) : Except String (Option Width × Text) := do
  let digits := cs.takeWhile Char.isDigit
  let width ← if digits = [] then pure none else (some ∘ Width.fixed) <$> parseUsize digits
  match cs.dropWhile Char.isDigit with
  | '*' :: rest => pure (some .star, rest)
  | rest => pure (width, rest)

def precOf : Text → Except String (Option Nat × Text)
  | '.' :: cs => do
    let prec ← parseUsize (cs.takeWhile Char.isDigit)
    pure (some prec, cs.dropWhile Char.isDigit)
  | cs => pure (none, cs)

def kindOf : Text → Except String (Option Kind × Text)
  | '#' :: cs => .ok (some .bar, cs)
  | '~' :: cs => .ok (some .spark, cs)
  | '%' :: cs => .ok (some .pair, cs)
  | c :: _ => .error ("unknown cell kind `" ++ String.singleton c ++ "`")
  | [] => .ok (none, [])

def specOf (spec : Text) : Except String (Align × Option Width × Option Nat × Option Kind) := do
  let (align, cs) := alignOf spec
  let (width, cs) ← widthOf cs
  let (prec, cs) ← precOf cs
  let (kind, cs) ← kindOf cs
  match cs with
  | c :: _ => .error ("trailing `" ++ String.singleton c ++ "` in spec")
  | [] => pure (align, width, prec, kind)

def fixed (w : Option Width) (default : Nat) : Nat :=
  match w with
  | some (.fixed n) => n
  | _ => default

structure Opts where
  unit : Option MetricUnit
  tone : Tone
  thousands : Bool

def Opts.apply (o : Opts) (opt : Text) : Except String Opts :=
  if opt = "thousands".toList then
    .ok { o with thousands := true }
  else
    match toneOf opt with
    | some t => .ok { o with tone := t }
    | none =>
      match unitOf opt with
      | some u => .ok { o with unit := some u }
      | none => .error ("unknown option `" ++ String.ofList opt ++ "`")

def optsOf (opts : Option Text) : Except String Opts :=
  ((opts.elim [] (·.splitOn '.')).filter (· ≠ [])).foldlM Opts.apply ⟨none, .plain, false⟩

-- The key of a placeholder and its spec.
def keyOf (head : Text) : Text × Option Text :=
  match Lines.cut [':'] head with
  | some (k, s) => (k, some s)
  | none =>
    match head.getLast? with
    | some c => if c = '%' ∨ c = '#' ∨ c = '~' then (head.dropLast, some [c]) else (head, none)
    | none => (head, none)

-- The key and spec of a placeholder, and its options.
def headOf (body : Text) : Text × Option Text :=
  match Lines.cut ['|'] body with
  | some (head, opts) => (head, some opts)
  | none => (body, none)

def glyphCell (g : Text) (tone : Tone) : Except String Cell :=
  if g = "spin".toList then
    .ok (.spinner tone)
  else if String.ofList g ∈ glyphs then
    .ok (.glyph g tone)
  else
    .error ("unknown `@" ++ String.ofList g ++ "`")

def kindCell (key : Text) (o : Opts) (align : Align) (width : Option Width) (prec : Option Nat)
    : Option Kind → Cell
  | some .bar => .bar key (fixed width 12)
  | some .spark => .spark key (fixed width 12)
  | some .pair => .pair key o.tone
  | none =>
    if o.unit.isSome || prec.isSome || o.thousands then
      .value key width align o.unit prec o.thousands o.tone
    else
      .text key width align o.tone

def build (body : Text) : Except String Cell := do
  let (head, opts) := headOf body
  let (key, spec) := keyOf head
  let o ← optsOf opts
  match key with
  | '@' :: g => glyphCell g o.tone
  | _ => do
    let (align, width, prec, kind) ← specOf (spec.getD [])
    pure (kindCell key o align width prec kind)

structure Parser where
  i : Nat
  -- What stands from byte `i` on.
  rest : Text

namespace Parser

def skip (p : Parser) (n : Nat) : Parser where
  i := p.i + ((p.rest.take n).map Char.utf8Size).sum
  rest := p.rest.drop n

def placeholder (p : Parser) : Except String (Cell × Parser) :=
  let p := p.skip 1
  let body := p.rest.takeWhile (· ≠ '}')
  match p.rest.dropWhile (· ≠ '}') with
  | [] => .error "unclosed `\x7b`"
  | _ :: _ => (build body).map fun cell => (cell, p.skip (body.length + 1))

end Parser

def isDelim (c : Char) : Bool := c = '{' || c = '}' || c = '[' || c = ']'

def flush (lit : Text) (cells : List Cell) : List Cell :=
  if lit = [] then cells else cells ++ [.lit lit]

-- No answer when the fuel runs out.
def row : Nat → Bool → Parser → Text → List Cell → Option (Except String (List Cell × Parser))
  | 0, _, _, _, _ => none
  | fuel + 1, nested, p, lit, cells =>
    match p.rest with
    | [] => some (.ok (flush lit cells, p))
    | c :: rest =>
      if c = ']' ∧ nested then
        some (.ok (flush lit cells, p))
      else if isDelim c ∧ rest.head? = some c then
        row fuel nested (p.skip 2) (lit ++ [c]) cells
      else if c = '{' then
        match p.placeholder with
        | .error e => some (.error e)
        | .ok (cell, p) => row fuel nested p [] (flush lit cells ++ [cell])
      else if c = '[' then
        match row fuel true (p.skip 1) [] [] with
        | none => none
        | some (.error e) => some (.error e)
        | some (.ok (inner, p)) =>
          if p.rest = [] then some (.error "unclosed `[`")
          else row fuel nested (p.skip 1) [] (flush lit cells ++ [.group inner])
      else if c = '}' then
        some (.error ("stray `\x7d` at byte " ++ toString p.i))
      else
        -- A lone closing bracket outside every group ends the run of literals before it begins.
        let run := p.rest.takeWhile fun c => !isDelim c
        row fuel nested (p.skip run.length) (lit ++ run) cells

def parse (fuel : Nat) (src : Text) : Option (Except String (List Cell)) :=
  match row fuel false ⟨0, src⟩ [] [] with
  | none => none
  | some (.error e) => some (.error e)
  | some (.ok (cells, p)) =>
    if p.rest = [] then some (.ok cells)
    else some (.error ("unbalanced `]` at byte " ++ toString p.i))

end Template
end Ui
