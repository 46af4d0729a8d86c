import Mathlib.Algebra.Order.BigOperators.Group.List
import Mathlib.Algebra.Order.Group.Nat
import Mathlib.Data.List.TakeWhile
import Ztest.Lib.Dag
import Ztest.Profiling.Collapse.Impl
import Ztest.Lib.Tiles

/-!
This module contains call trees and their flamebearers, and the proof that the rows are read back. There
is one row for each depth, the children of a node side by side in its span, with gaps where the node
itself ran. The one span above that holds the start of a node is that of its parent.

It also contains what the lines of a collapsed call tree are, and the reading of their values back.
-/

namespace Profiling
namespace Collapse

section Levels

-- `gap` is how much of its parent's own time stands before a node.
inductive Call where
  | node (gap : Nat) (frame : Text) (selfValue : Nat) (children : List Call)

namespace Call

def gap : Call → Nat
  | .node gap _ _ _ => gap

def frame : Call → Text
  | .node _ frame _ _ => frame

def selfValue : Call → Nat
  | .node _ _ selfValue _ => selfValue

def children : Call → List Call
  | .node _ _ _ children => children

mutual

def total : Call → Nat
  | .node _ _ selfValue children => selfValue + totals children

def totals : List Call → Nat
  | [] => 0
  | call :: calls => call.total + totals calls

end

mutual

def depth : Call → Nat
  | .node _ _ _ children => depths children + 1

def depths : List Call → Nat
  | [] => 0
  | call :: calls => max call.depth (depths calls)

end

-- What holds of a node and of all beneath it.
mutual

def Every (P : Call → Prop) : Call → Prop
  | .node gap frame selfValue children => P (.node gap frame selfValue children) ∧ Everywhere P children

def Everywhere (P : Call → Prop) : List Call → Prop
  | [] => True
  | call :: calls => call.Every P ∧ Everywhere P calls

end

-- Each node's frames from the root down, and its own time.
mutual

def paths (above : List Text) : Call → List (List Text × Nat)
  | .node _ frame selfValue children =>
    (above ++ [frame], selfValue) :: pathsBelow (above ++ [frame]) children

def pathsBelow (above : List Text) : List Call → List (List Text × Nat)
  | [] => []
  | call :: calls => call.paths above ++ pathsBelow above calls

end

theorem everywhere_iff {P : Call → Prop} {calls : List Call} : Everywhere P calls ↔ ∀ c ∈ calls, c.Every P := by
  induction calls with
  | nil => simp [Everywhere]
  | cons call calls ih => rw [Everywhere, ih, List.forall_mem_cons]

theorem Every.here {P : Call → Prop} {c : Call} (h : c.Every P) : P c := by
  cases c
  exact h.1

theorem Every.child {P : Call → Prop} {c : Call} (h : c.Every P) : ∀ c' ∈ c.children, c'.Every P := by
  cases c
  exact everywhere_iff.mp h.2

theorem total_eq (c : Call) : c.total = c.selfValue + totals c.children := by
  cases c
  rw [total, selfValue, children]

@[elab_as_elim]
theorem recChildren {motive : Call → Prop}
    (node : ∀ gap frame selfValue children, (∀ c ∈ children, motive c) →
      motive (.node gap frame selfValue children))
    : ∀ c, motive c
  | .node gap frame selfValue children =>
    node gap frame selfValue children fun c _hc => recChildren node c
termination_by c => sizeOf c
decreasing_by
  simp_wf
  have := List.sizeOf_lt_of_mem _hc
  omega

theorem sum_paths (above : List Text) (c : Call) : ((c.paths above).map Prod.snd).sum = c.total := by
  induction c using recChildren generalizing above with
  | node gap frame selfValue children ih =>
    have hbelow : ∀ above, ((pathsBelow above children).map Prod.snd).sum = totals children := by
      intro above
      induction children with
      | nil => rfl
      | cons c children ihs =>
        rw [List.forall_mem_cons] at ih
        rw [pathsBelow, List.map_append, List.sum_append, totals, ih.1, ihs ih.2]
    rw [paths, List.map_cons, List.sum_cons, total, hbelow]

end Call

structure Placed where
  start : Nat
  above : List Text
  call : Call

namespace Placed

def path (p : Placed) : List Text := p.above ++ [p.call.frame]

def stop (p : Placed) : Nat := p.start + p.call.total

def range (p : Placed) : Nat × Nat := (p.start, p.stop)

end Placed

def place (x : Nat) (above : List Text) : List Call → List Placed
  | [] => []
  | call :: calls =>
    ⟨x + call.gap, above, call⟩ :: place (x + call.gap + call.total) above calls

def Placed.children (p : Placed) : List Placed := place p.start p.path p.call.children

def rowsOf (root : Call) : List (List Placed) := Forest.rows Placed.children root.depth [⟨0, [], root⟩]

-- `index` is where a frame stands in the names.
def encodeRow (index : Text → Nat) : Nat → List Placed → List Int
  | _, [] => []
  | past, p :: row =>
    [(p.start - past : Int), (p.call.total : Int), (p.call.selfValue : Int), (index p.call.frame : Int)] ++
      encodeRow index p.stop row

def encode (names : List Text) (index : Text → Nat) (root : Call) : FlameGraph where
  names := names
  levels := (rowsOf root).map (encodeRow index 0)

structure Encodes (names : List Text) (index : Text → Nat) (root : Call) : Prop where
  positive : root.Every fun c => 0 < c.total
  inside : root.Every fun c => (c.children.map Call.gap).sum ≤ c.selfValue
  interned : root.Every fun c => names[index c.frame]? = some c.frame
  oneLine : root.Every fun c => '\n' ∉ c.frame
  small : root.total < 2 ^ 63

open Tiles

section Places

variable {x : Nat} {above : List Text} {calls : List Call} {p q : Placed} {row : List Placed} {lo hi : Nat}

theorem place_follow (h : ∀ c ∈ calls, 0 < c.total)
    : Follow x ((place x above calls).map Placed.range) (x + (calls.map Call.gap).sum + Call.totals calls) := by
  induction calls generalizing x with
  | nil => exact le_refl x
  | cons c calls ih =>
    rw [List.forall_mem_cons] at h
    refine ⟨Nat.le_add_right _ _, Nat.lt_add_of_pos_right h.1, ?_⟩
    apply (@ih (x + c.gap + c.total) h.2).widen (le_refl _)
    rw [List.map_cons, List.sum_cons, Call.totals]
    omega

theorem mem_place (h : q ∈ place x above calls) : q.above = above ∧ q.call ∈ calls := by
  induction calls generalizing x with
  | nil => cases h
  | cons c calls ih =>
    rcases List.mem_cons.mp h with rfl | hmem
    . exact ⟨rfl, List.mem_cons_self⟩
    . exact ⟨(ih hmem).1, List.mem_cons_of_mem _ (ih hmem).2⟩

-- A node of a row: it and all beneath it are laid out as they should be.
structure Sound (names : List Text) (index : Text → Nat) (p : Placed) : Prop where
  positive : p.call.Every fun c => 0 < c.total
  inside : p.call.Every fun c => (c.children.map Call.gap).sum ≤ c.selfValue
  interned : p.call.Every fun c => names[index c.frame]? = some c.frame
  known : ∀ f ∈ p.above, names[index f]? = some f

variable {names : List Text} {index : Text → Nat}

theorem Sound.path (h : Sound names index p) : ∀ f ∈ p.path, names[index f]? = some f := by
  intro f hf
  rcases List.mem_append.mp hf with hf | hf
  . exact h.known f hf
  . rw [List.mem_singleton.mp hf]
    exact h.interned.here

theorem Sound.child (h : Sound names index p) : ∀ q ∈ p.children, Sound names index q := by
  intro q hq
  have hmem := mem_place hq
  refine ⟨h.positive.child _ hmem.2, h.inside.child _ hmem.2, h.interned.child _ hmem.2, ?_⟩
  rw [hmem.1]
  exact h.path

theorem children_follow (h : Sound names index p) : Follow p.start (p.children.map Placed.range) p.stop := by
  have hpositive : ∀ c ∈ p.call.children, 0 < c.total := fun c hc => (h.positive.child c hc).here
  apply (@place_follow p.start p.path p.call.children hpositive).widen (le_refl _)
  have hinside := h.inside.here
  have htotal := p.call.total_eq
  unfold Placed.stop
  omega

theorem next_follow (hrow : Follow lo (row.map Placed.range) hi) (h : ∀ p ∈ row, Sound names index p)
    : Follow lo ((row.flatMap Placed.children).map Placed.range) hi := by
  induction row generalizing lo with
  | nil => exact hrow
  | cons p row ih =>
    rw [List.forall_mem_cons] at h
    rw [List.flatMap_cons, List.map_append]
    have hhere : Follow lo (p.children.map Placed.range) p.stop := (children_follow h.1).widen hrow.1 (le_refl _)
    exact hhere.append (ih hrow.2.2 h.2)

end Places

section Read

variable {names : List Text} {index : Text → Nat} {parents : List Span} {row : List Placed} {past hi : Nat}

def spanOf (index : Text → Nat) (p : Placed) : Span := ⟨p.start, p.stop, p.path.map index⟩

def lineAt (p : Placed) : Text := if 0 < p.call.selfValue then lineOf p.path p.call.selfValue else []

theorem wrapI64_eq {n : Nat} (h : n < 2 ^ 63) : wrapI64 n = n := by
  unfold wrapI64
  apply Int.bmod_eq_of_le <;> omega

theorem framesOf_map {path : List Text} (h : ∀ f ∈ path, names[index f]? = some f)
    : framesOf names (path.map index) = path := by
  unfold framesOf
  rw [List.map_map]
  conv_rhs => rw [← List.map_id path]
  apply List.map_congr_left
  intro f hf
  rw [Function.comp_apply, h f hf]
  rfl

theorem collapseRow_encode (hfollow : Follow past (row.map Placed.range) hi) (hsmall : hi < 2 ^ 63)
    (hstack : ∀ p ∈ row, stackOver parents p.start = p.above.map index)
    (hsound : ∀ p ∈ row, Sound names index p)
    : collapseRow names parents past (nodesOf (encodeRow index past row)) =
      (row.flatMap lineAt, row.map (spanOf index)) := by
  induction row generalizing past with
  | nil => rfl
  | cons p row ih =>
    rw [List.forall_mem_cons] at hstack hsound
    have hrest : collapseRow names parents p.stop (nodesOf (encodeRow index p.stop row)) =
        (row.flatMap lineAt, row.map (spanOf index)) := ih hfollow.2.2 hstack.2 hsound.2
    have hle : p.stop ≤ hi := hfollow.2.2.le
    have hlt : p.start < p.stop := hfollow.2.1
    have hstart : wrapI64 (past + (p.start - past : Int)) = p.start := by
      rw [add_sub_cancel]
      exact wrapI64_eq (by omega)
    have hstop : wrapI64 ((p.start : Int) + (p.call.total : Int)) = p.stop := by
      have hcast : (p.start : Int) + (p.call.total : Int) = (p.stop : Nat) := by
        unfold Placed.stop
        omega
      rw [hcast]
      exact wrapI64_eq (by omega)
    have hname : asUsize (index p.call.frame : Int) = index p.call.frame := by
      unfold asUsize
      rw [if_neg (by omega), Int.toNat_natCast]
    rw [encodeRow, List.cons_append, List.cons_append, List.cons_append, List.singleton_append, nodesOf, collapseRow]
    dsimp only
    rw [hstart, hstop, hname, hstack.1, hrest]
    have hpath : p.above.map index ++ [index p.call.frame] = p.path.map index := by
      rw [Placed.path, List.map_append, List.map_singleton]
    rw [hpath, framesOf_map hsound.1.path, Int.toNat_natCast, List.flatMap_cons, List.map_cons]
    unfold lineAt spanOf
    simp only [Int.natCast_pos]

theorem stackOver_next {lo : Nat} (hfollow : Follow lo (row.map Placed.range) hi)
    (hsound : ∀ p ∈ row, Sound names index p) {q : Placed} (hq : q ∈ row.flatMap Placed.children)
    : stackOver (row.map (spanOf index)) q.start = q.above.map index := by
  rcases List.mem_flatMap.mp hq with ⟨p, hp, hqp⟩
  have hbounds := (children_follow (hsound p hp)).bounds q.range (List.mem_map_of_mem hqp)
  have hpositive : 0 < q.call.total := ((hsound p hp).child q hqp).positive.here
  have hwithin : Within p.range q.start := by
    refine ⟨hbounds.1, ?_⟩
    have := hbounds.2
    unfold Placed.range Placed.stop at this ⊢
    dsimp only at this ⊢
    omega
  have hfind := hfollow.find? hp hwithin
    (p := (fun s : Span => decide (s.start ≤ (q.start : Int)) && decide ((q.start : Int) < s.stop)) ∘ spanOf index)
    (by
      intro c
      rw [Function.comp_apply, Bool.and_eq_true, decide_eq_true_iff, decide_eq_true_iff]
      unfold spanOf Within Placed.range
      dsimp only
      omega)
  unfold stackOver
  rw [List.find?_map, hfind]
  rw [(mem_place hqp).1]
  rfl

theorem collapseLevels_encode (n : Nat) (hfollow : Follow 0 (row.map Placed.range) hi) (hsmall : hi < 2 ^ 63)
    (hstack : ∀ p ∈ row, stackOver parents p.start = p.above.map index)
    (hsound : ∀ p ∈ row, Sound names index p)
    : collapseLevels names parents ((Forest.rows Placed.children n row).map (encodeRow index 0)) =
      (Forest.rows Placed.children n row).flatten.flatMap lineAt := by
  induction n generalizing row parents with
  | zero => rfl
  | succ n ih =>
    have hnext := @ih (row.map (spanOf index)) (row.flatMap Placed.children) (next_follow hfollow hsound)
      (fun q hq => stackOver_next hfollow hsound hq)
      (fun q hq => by
        rcases List.mem_flatMap.mp hq with ⟨p, hp, hqp⟩
        exact (hsound p hp).child q hqp)
    have hhere : collapseRow names parents 0 (nodesOf (encodeRow index 0 row)) =
        (row.flatMap lineAt, row.map (spanOf index)) := collapseRow_encode hfollow hsmall hstack hsound
    rw [Forest.rows, List.map_cons, collapseLevels, hhere, List.flatten_cons, List.flatMap_append]
    dsimp only
    rw [hnext]

end Read

end Levels

section Text

variable {a b rest : Text}

theorem afterSpace_append (h : ' ' ∉ b) : afterSpace (a ++ ' ' :: b) = some b := by
  have hall : ∀ c ∈ b.reverse, decide (c ≠ ' ') = true := by
    intro c hc
    simp only [decide_eq_true_eq]
    rintro rfl
    exact h (List.mem_reverse.mp hc)
  unfold afterSpace List.rtakeWhile
  rw [if_pos (by simp), List.reverse_append, List.reverse_cons, List.append_assoc,
    List.takeWhile_append_of_pos hall, List.singleton_append, List.takeWhile_cons_of_neg (by simp),
    List.append_nil, List.reverse_reverse]

theorem linesOf_append (h : '\n' ∉ b) : linesOf (b ++ '\n' :: rest) = stripReturn b :: linesOf rest := by
  have hall : ∀ c ∈ b, decide (c ≠ '\n') = true := by
    intro c hc
    simp only [decide_eq_true_eq]
    rintro rfl
    exact h hc
  rw [linesOf, if_pos (by simp), List.takeWhile_append_of_pos hall, List.dropWhile_append_of_pos hall,
    List.takeWhile_cons_of_neg (by simp), List.dropWhile_cons_of_neg (by simp), List.append_nil]
  rfl

end Text

section Nanos

variable {frames : List Text} {v : Nat}

def body (frames : List Text) (v : Nat) : Text := Lines.join ';' frames ++ ' ' :: Nat.toDigits 10 v

theorem digit_ne {c d : Char} (hc : c ∈ Nat.toDigits 10 v) (hd : d.isDigit = false) : c ≠ d := by
  rintro rfl
  rw [Decimal.isDigit_of_mem_toDigits hc] at hd
  cases hd

theorem body_oneLine (h : ∀ f ∈ frames, '\n' ∉ f) : '\n' ∉ body frames v := by
  intro hmem
  unfold body at hmem
  rw [List.mem_append, List.mem_cons] at hmem
  rcases hmem with hmem | hspace | hdigit
  . rcases Lines.mem_join hmem with heq | ⟨f, hf, hnl⟩
    . exact absurd heq (by decide)
    . exact h f hf hnl
  . exact absurd hspace (by decide)
  . exact digit_ne hdigit (by decide) rfl

theorem stripReturn_body : stripReturn (body frames v) = body frames v := by
  apply if_neg
  unfold body
  rw [List.getLast?_append_of_ne_nil _ (by simp)]
  intro hlast
  have hmem := List.mem_of_getLast? hlast
  rcases List.mem_cons.mp hmem with hspace | hdigit
  . exact absurd hspace (by decide)
  . exact digit_ne hdigit (by decide) rfl

theorem valueOf_body (hv : v < 2 ^ 64)
    : (afterSpace (body frames v)).bind Decimal.parse = some (UInt64.ofNat v) := by
  unfold body
  rw [afterSpace_append fun hmem => digit_ne hmem (by decide) rfl, Option.bind_some]
  have hparse := Decimal.parse_toDigits (UInt64.ofNat v)
  rwa [UInt64.toNat_ofNat_of_lt' hv] at hparse

theorem sum_ofNat (vs : List Nat) : (vs.map UInt64.ofNat).sum = UInt64.ofNat vs.sum := by
  induction vs with
  | nil => rfl
  | cons v vs ih => rw [List.map_cons, List.sum_cons, List.sum_cons, ih, UInt64.ofNat_add]

theorem linesOf_lines (items : List (List Text × Nat)) (h : ∀ i ∈ items, ∀ f ∈ i.1, '\n' ∉ f)
    : linesOf (items.flatMap fun i => lineOf i.1 i.2) = items.map fun i => body i.1 i.2 := by
  induction items with
  | nil => rw [List.flatMap_nil, linesOf, if_neg (by simp), if_pos rfl, List.map_nil]
  | cons i items ih =>
    rw [List.forall_mem_cons] at h
    have hline : lineOf i.1 i.2 = body i.1 i.2 ++ ['\n'] := rfl
    rw [List.flatMap_cons, hline, List.append_assoc, List.singleton_append, linesOf_append (body_oneLine h.1),
      stripReturn_body, ih h.2, List.map_cons]

theorem fromUTF8?_toUTF8 (s : String) : String.fromUTF8? s.toUTF8 = some s := by
  have hvalid : s.toUTF8.IsValidUTF8 := s.isValidUTF8
  unfold String.fromUTF8?
  rw [dif_pos hvalid]
  rfl

theorem collapsedNanos_lines (items : List (List Text × Nat)) (h : ∀ i ∈ items, ∀ f ∈ i.1, '\n' ∉ f)
    (hsmall : ∀ i ∈ items, i.2 < 2 ^ 64)
    : collapsedNanos (String.ofList (items.flatMap fun i => lineOf i.1 i.2)).toUTF8 =
      some (UInt64.ofNat (items.map Prod.snd).sum) := by
  have hvalues : (items.map fun i => body i.1 i.2).filterMap (fun line => (afterSpace line).bind Decimal.parse) =
      (items.map Prod.snd).map UInt64.ofNat := by
    rw [List.filterMap_map, List.map_map, ← List.filterMap_eq_map]
    apply List.filterMap_congr
    intro i hi
    exact valueOf_body (hsmall i hi)
  unfold collapsedNanos
  rw [fromUTF8?_toUTF8, Option.map_some, String.toList_ofList, linesOf_lines items h, hvalues, sum_ofNat]

end Nanos

section Tree

variable {names : List Text} {index : Text → Nat} {root : Call}

theorem below_paths (n : Nat) (p : Placed) (hn : p.call.depth ≤ n)
    : (Forest.below Placed.children n p).map (fun q => (q.path, q.call.selfValue)) = p.call.paths p.above := by
  induction n generalizing p with
  | zero =>
    rcases p with ⟨start, above, ⟨gap, frame, selfValue, calls⟩⟩
    rw [Call.depth] at hn
    omega
  | succ n ih =>
    rcases p with ⟨start, above, ⟨gap, frame, selfValue, calls⟩⟩
    have hbelow : ∀ (x : Nat) (path : List Text) (calls : List Call), Call.depths calls ≤ n →
        ((place x path calls).flatMap (Forest.below Placed.children n)).map (fun q => (q.path, q.call.selfValue)) =
          Call.pathsBelow path calls := by
      intro x path calls
      induction calls generalizing x with
      | nil => intro _; rfl
      | cons c calls ihs =>
        intro hdepth
        rw [Call.depths] at hdepth
        rw [place, List.flatMap_cons, List.map_append, ih _ (by dsimp only; omega), ihs _ (by omega),
          Call.pathsBelow]
    rw [Call.depth] at hn
    rw [Forest.below, List.map_cons, Placed.children, hbelow _ _ _ (by dsimp only [Call.children]; omega), Call.paths]
    rfl

theorem rowsOf_perm (root : Call)
    : ((rowsOf root).flatten.map fun p => (p.path, p.call.selfValue)).Perm (root.paths []) := by
  have hperm := (Forest.rows_perm_below Placed.children root.depth [⟨0, [], root⟩]).map
    fun p => (p.path, p.call.selfValue)
  rw [List.flatMap_singleton, below_paths root.depth ⟨0, [], root⟩ (le_refl _)] at hperm
  exact hperm

-- The nodes that ran themselves, row by row.
def printed (root : Call) : List (List Text × Nat) :=
  ((rowsOf root).flatten.map fun p => (p.path, p.call.selfValue)).filter fun i => decide (0 < i.2)

theorem flatMap_lineAt (row : List Placed)
    : row.flatMap lineAt =
      ((row.map fun p => (p.path, p.call.selfValue)).filter fun i => decide (0 < i.2)).flatMap
        fun i => lineOf i.1 i.2 := by
  induction row with
  | nil => rfl
  | cons p row ih =>
    rw [List.flatMap_cons, ih, List.map_cons, List.filter_cons]
    unfold lineAt
    by_cases hpos : 0 < p.call.selfValue
    . rw [if_pos hpos, if_pos (decide_eq_true hpos), List.flatMap_cons]
    . rw [if_neg hpos, if_neg (by simpa using hpos), List.nil_append]

theorem collapse_encode (h : Encodes names index root)
    : collapse (encode names index root) = (printed root).flatMap fun i => lineOf i.1 i.2 := by
  have hsound : ∀ p ∈ [(⟨0, [], root⟩ : Placed)], Sound names index p := by
    intro p hp
    rw [List.mem_singleton.mp hp]
    exact ⟨h.positive, h.inside, h.interned, by simp⟩
  have hfollow : Tiles.Follow 0 ([(⟨0, [], root⟩ : Placed)].map Placed.range) root.total := by
    refine ⟨le_refl _, ?_, ?_⟩
    . exact Nat.lt_add_of_pos_right h.positive.here
    . exact (Nat.zero_add _).le
  have hstack : ∀ p ∈ [(⟨0, [], root⟩ : Placed)], stackOver [] p.start = p.above.map index := by
    intro p hp
    rw [List.mem_singleton.mp hp]
    rfl
  have hlines := collapseLevels_encode root.depth hfollow h.small hstack hsound
  unfold collapse encode printed rowsOf
  rw [hlines, flatMap_lineAt]

theorem sum_printed (root : Call) : ((printed root).map Prod.snd).sum = root.total := by
  have hfilter : ∀ items : List (List Text × Nat),
      ((items.filter fun i => decide (0 < i.2)).map Prod.snd).sum = (items.map Prod.snd).sum := by
    intro items
    induction items with
    | nil => rfl
    | cons i items ih =>
      rw [List.filter_cons]
      split_ifs with hpos
      . rw [List.map_cons, List.map_cons, List.sum_cons, List.sum_cons, ih]
      . have : i.2 = 0 := by simpa using hpos
        rw [List.map_cons, List.sum_cons, ih, this, Nat.zero_add]
  unfold printed
  rw [hfilter, ((rowsOf_perm root).map Prod.snd).sum_eq, Call.sum_paths]

theorem mem_paths {Q : Text → Prop} (c : Call) (h : c.Every fun c => Q c.frame) (above : List Text)
    (habove : ∀ f ∈ above, Q f)
    : ∀ i ∈ c.paths above, ∀ f ∈ i.1, Q f := by
  induction c using Call.recChildren generalizing above with
  | node gap frame selfValue calls ih =>
    have hpath : ∀ f ∈ above ++ [frame], Q f := by
      intro f hf
      rcases List.mem_append.mp hf with hf | hf
      . exact habove f hf
      . rw [List.mem_singleton.mp hf]
        exact h.1
    have hbelow : ∀ i ∈ Call.pathsBelow (above ++ [frame]) calls, ∀ f ∈ i.1, Q f := by
      have hcalls := Call.everywhere_iff.mp h.2
      clear h
      induction calls with
      | nil => simp [Call.pathsBelow]
      | cons c calls ihs =>
        rw [List.forall_mem_cons] at ih hcalls
        intro i hi
        rw [Call.pathsBelow, List.mem_append] at hi
        rcases hi with hi | hi
        . exact ih.1 hcalls.1 _ hpath i hi
        . exact ihs ih.2 hcalls.2 i hi
    rw [Call.paths, List.forall_mem_cons]
    exact ⟨hpath, hbelow⟩

structure Recovers (fg : FlameGraph) (root : Call) : Prop where
  -- One line for each node that ran itself, row by row: its frames from the root down, and its own time.
  lines : collapse fg = (printed root).flatMap fun i => lineOf i.1 i.2
  nodes : ((rowsOf root).flatten.map fun p => (p.path, p.call.selfValue)).Perm (root.paths [])
  nanos : (collapsedNanos (String.ofList (collapse fg)).toUTF8).map UInt64.toNat =
    some ((root.paths []).map Prod.snd).sum
  total : ((root.paths []).map Prod.snd).sum = root.total

theorem collapse_recovers (h : Encodes names index root) : Recovers (encode names index root) root := by
  have hmem : ∀ i ∈ printed root, i ∈ root.paths [] := fun i hi =>
    (rowsOf_perm root).mem_iff.mp (List.mem_of_mem_filter hi)
  have honeLine : ∀ i ∈ printed root, ∀ f ∈ i.1, '\n' ∉ f := fun i hi =>
    mem_paths (Q := fun f => '\n' ∉ f) root h.oneLine [] (by simp) i (hmem i hi)
  have hsmall : ∀ i ∈ printed root, i.2 < 2 ^ 64 := by
    intro i hi
    have hle := List.single_le_sum (fun _ _ => Nat.zero_le _) i.2 (List.mem_map_of_mem (f := Prod.snd) hi)
    have htotal := h.small
    rw [sum_printed] at hle
    omega
  have hlines := collapse_encode h
  refine ⟨hlines, rowsOf_perm root, ?_, Call.sum_paths [] root⟩
  rw [hlines, collapsedNanos_lines _ honeLine hsmall, sum_printed, Call.sum_paths, Option.map_some]
  have htotal := h.small
  rw [UInt64.toNat_ofNat_of_lt' (htotal.trans (by decide))]

-- A root with two children, one of which has its name, between stretches of its own time.
theorem spaced_recovers :
    let root := Call.node 0 ['a'] 3 [.node 1 ['b', ' ', '1', ';'] 4 [], .node 1 ['a'] 2 []]
    let index := fun f : Text => if f = ['a'] then 0 else 1
    Recovers (encode [['a'], ['b', ' ', '1', ';']] index root) root := by
  apply collapse_recovers
  constructor <;> simp [Call.Every, Call.Everywhere, Call.total, Call.totals, Call.children, Call.gap,
    Call.selfValue, Call.frame]

end Tree

end Collapse
end Profiling
