import Mathlib.Data.List.Infix
import Ztest.Lib.Decimal
import Ztest.Lib.Lines

/-!
This module contains the exit status of a command in the build pod, which the shell around the command prints
as a last line (`OUTER` in `backends/image/buildpod.rs`): how it is read back, and how it is kept from the
terminal that the output is shown on, chunk by chunk.

What is reported of a command is its own exit status, unless it prints a line that begins like the shell's, and
its own output, unless a marker stands in a chunk before the shell's or the shell's line is cut by the end of a
chunk.
-/

namespace Image
namespace Exec

-- `ZTEST_EXIT=`
def marker : Text := ['Z', 'T', 'E', 'S', 'T', '_', 'E', 'X', 'I', 'T', '=']

-- The first marker at the start of a line. No two markers overlap, so `match_indices` passes over none.
def sentinelAt (prev : Char) : Text → Option (Text × Text)
  | [] => none
  | c :: rest =>
    if marker.isPrefixOf (c :: rest) && prev = '\n' then some ([], (c :: rest).drop marker.length)
    else (sentinelAt c rest).map fun parts => (c :: parts.1, parts.2)

def exitCode (after : Text) : Int := ((Decimal.words after).head?.bind Decimal.parseI32).getD 1

def splitExitSentinel (out : Text) : Text × Int :=
  match sentinelAt '\n' out with
  | some (before, after) => (before.rdropWhile (· = '\n'), exitCode after)
  | none => (out, 1)

def utf8 (text : Text) : List UInt8 := text.flatMap String.utf8EncodeChar

def visiblePrefix (chunk : List UInt8) : List UInt8 :=
  match Lines.cut (utf8 marker) chunk with
  | some (before, _) => if before.getLast? = some 10 then before.dropLast else before
  | none => chunk

-- `ZTEST_EXIT=%s\n`
def sentinelLine (n : UInt8) : Text := marker ++ (Nat.toDigits 10 n.toNat ++ ['\n'])

-- What `OUTER` prints around what the command does.
def stream (text : Text) (n : UInt8) : Text := text ++ '\n' :: sentinelLine n

variable {text line rest : Text} {prev : Char} {n : UInt8} {chunk before after : List UInt8} {chunks : List (List UInt8)}

theorem newline_not_mem_marker : '\n' ∉ marker := by decide

theorem sentinelAt_cons_of_ne (c : Char) (rest : Text) (h : prev ≠ '\n')
    : sentinelAt prev (c :: rest) = (sentinelAt c rest).map fun parts => (c :: parts.1, parts.2) := by
  rw [sentinelAt, if_neg (by simp [h])]

theorem sentinelAt_cons_of_not_front {c : Char} (h : ¬marker <+: c :: rest)
    : sentinelAt prev (c :: rest) = (sentinelAt c rest).map fun parts => (c :: parts.1, parts.2) := by
  rw [← List.isPrefixOf_iff_prefix] at h
  rw [sentinelAt, if_neg (by simp [h])]

theorem sentinelAt_of_front (h : marker <+: text) : sentinelAt '\n' text = some ([], text.drop marker.length) := by
  cases text with
  | nil => exact absurd (List.prefix_nil.mp h) (by decide)
  | cons c text =>
    rw [← List.isPrefixOf_iff_prefix] at h
    rw [sentinelAt, if_pos (by simp [h])]

theorem sentinelAt_newline (rest : Text)
    : sentinelAt prev ('\n' :: rest) = (sentinelAt '\n' rest).map fun parts => ('\n' :: parts.1, parts.2) := by
  apply sentinelAt_cons_of_not_front
  intro h
  exact absurd (List.cons_prefix_cons.mp h).1 (by decide)

theorem sentinelAt_inside (hline : '\n' ∉ line) (h : prev ≠ '\n') (rest : Text)
    : sentinelAt prev (line ++ '\n' :: rest) = (sentinelAt '\n' rest).map fun parts => (line ++ '\n' :: parts.1, parts.2) := by
  induction line generalizing prev with
  | nil => exact sentinelAt_newline rest
  | cons c line ih =>
    rw [List.mem_cons, not_or] at hline
    rw [List.cons_append, sentinelAt_cons_of_ne c _ h, ih hline.2 (Ne.symm hline.1), Option.map_map]
    rfl

theorem sentinelAt_line (hline : '\n' ∉ line) (h : ¬marker <+: line) (rest : Text)
    : sentinelAt '\n' (line ++ '\n' :: rest) = (sentinelAt '\n' rest).map fun parts => (line ++ '\n' :: parts.1, parts.2) := by
  cases line with
  | nil => exact sentinelAt_newline rest
  | cons c line =>
    have hpre : ¬marker <+: c :: (line ++ '\n' :: rest) := fun hpre =>
      h (Lines.prefix_of_prefix_append_cons hpre newline_not_mem_marker)
    rw [List.mem_cons, not_or] at hline
    rw [List.cons_append, sentinelAt_cons_of_not_front hpre, sentinelAt_inside hline.2 (Ne.symm hline.1), Option.map_map]
    rfl

def Unforged (text : Text) : Prop := ∀ line ∈ text.splitOn '\n', ¬marker <+: line

theorem sentinelAt_unforged (h : Unforged text) (rest : Text)
    : sentinelAt '\n' (text ++ '\n' :: rest) = (sentinelAt '\n' rest).map fun parts => (text ++ '\n' :: parts.1, parts.2) := by
  unfold Unforged at h
  induction text using Lines.line_induction '\n' with
  | last line hline =>
    rw [List.splitOn_eq_singleton hline] at h
    exact sentinelAt_line hline (h line (List.mem_singleton_self line)) rest
  | line line text hline ih =>
    rw [List.splitOn_append_cons_self_of_not_mem hline, List.forall_mem_cons] at h
    rw [List.append_assoc, List.cons_append, sentinelAt_line hline h.1, ih h.2, Option.map_map]
    congr 1
    funext parts
    simp

theorem sentinelAt_forged (h : ¬Unforged text)
    : ∃ before after, text = before ++ (marker ++ after) ∧ ∀ rest, sentinelAt '\n' (text ++ rest) = some (before, after ++ rest) := by
  have hmark : ∀ {line : Text}, marker <+: line → ∃ before after, line = before ++ (marker ++ after) ∧
      ∀ rest, sentinelAt '\n' (line ++ rest) = some (before, after ++ rest) := by
    rintro line ⟨after, rfl⟩
    refine ⟨[], after, rfl, fun rest => ?_⟩
    rw [List.append_assoc, sentinelAt_of_front (List.prefix_append _ _), List.drop_left]
  unfold Unforged at h
  induction text using Lines.line_induction '\n' with
  | last line hline =>
    rw [List.splitOn_eq_singleton hline, List.forall_mem_singleton, not_not] at h
    exact hmark h
  | line line text hline ih =>
    rw [List.splitOn_append_cons_self_of_not_mem hline, List.forall_mem_cons] at h
    by_cases hpre : marker <+: line
    . exact hmark (hpre.trans (List.prefix_append _ _))
    . rcases ih fun hall => h ⟨hpre, hall⟩ with ⟨before, after, rfl, hat⟩
      refine ⟨line ++ '\n' :: before, after, by simp, fun rest => ?_⟩
      rw [List.append_assoc, List.cons_append, sentinelAt_line hline hpre, hat, Option.map_some]

theorem prefix_rdropWhile {p : Char → Bool} {pre : Text} {c : Char} (h : p c = false) (post : Text)
    : pre ++ [c] <+: (pre ++ [c] ++ post).rdropWhile p := by
  induction post using List.reverseRecOn with
  | nil => simp [List.rdropWhile_concat_neg, h]
  | append_singleton post d ih =>
    rw [← List.append_assoc]
    cases hd : p d with
    | true =>
      rw [List.rdropWhile_concat_pos p _ d hd]
      exact ih
    | false =>
      rw [List.rdropWhile_concat_neg p _ d (by simp [hd]), List.append_assoc]
      exact List.prefix_append _ _

theorem sentinelAt_sentinelLine (n : UInt8) : sentinelAt '\n' (sentinelLine n) = some ([], Nat.toDigits 10 n.toNat ++ ['\n']) := by
  rw [sentinelLine, sentinelAt_of_front (List.prefix_append _ _), List.drop_left]

theorem exitCode_toDigits (n : UInt8) : exitCode (Nat.toDigits 10 n.toNat ++ ['\n']) = n.toNat := by
  have hall : ∀ m < 256, exitCode (Nat.toDigits 10 m ++ ['\n']) = m := by decide +kernel
  exact hall n.toNat n.toNat_lt

theorem exitCode_take_ne_zero (hn : n ≠ 0) (k : Nat) : exitCode ((Nat.toDigits 10 n.toNat ++ ['\n']).take k) ≠ 0 := by
  have hall : ∀ m < 256, m ≠ 0 → ∀ k < 5, exitCode ((Nat.toDigits 10 m ++ ['\n']).take k) ≠ 0 := by decide +kernel
  have hlen : ∀ m < 256, (Nat.toDigits 10 m ++ ['\n']).length < 5 := by decide +kernel
  have hne : n.toNat ≠ 0 := fun h => hn (UInt8.toNat_inj.mp h)
  by_cases hk : k < 5
  . exact hall n.toNat n.toNat_lt hne k hk
  . have hlt := hlen n.toNat n.toNat_lt
    rw [List.take_of_length_le (by omega)]
    have hfull := hall n.toNat n.toNat_lt hne 4 (by decide)
    rwa [List.take_of_length_le (by omega)] at hfull

theorem sentinelAt_stream (h : Unforged text) (n : UInt8)
    : sentinelAt '\n' (stream text n) = some (text ++ ['\n'], Nat.toDigits 10 n.toNat ++ ['\n']) := by
  rw [stream, sentinelAt_unforged h, sentinelAt_sentinelLine]
  rfl

theorem splitExitSentinel_stream (h : Unforged text) (n : UInt8)
    : splitExitSentinel (stream text n) = (text.rdropWhile (· = '\n'), (n.toNat : Int)) := by
  rw [splitExitSentinel, sentinelAt_stream h]
  dsimp only
  rw [List.rdropWhile_concat_pos (fun c => decide (c = '\n')) text '\n' rfl, exitCode_toDigits]

theorem splitExitSentinel_forged (h : ¬Unforged text) (n : UInt8)
    : (splitExitSentinel (stream text n)).1 ≠ text.rdropWhile (· = '\n') := by
  rcases sentinelAt_forged h with ⟨before, after, htext, hat⟩
  intro heq
  rw [splitExitSentinel, stream, hat] at heq
  dsimp only at heq
  have hmarker : marker = marker.dropLast ++ ['='] := by decide
  have hlong : before ++ marker.dropLast ++ ['='] <+: text.rdropWhile (· = '\n') := by
    have hpre := @prefix_rdropWhile (fun c => decide (c = '\n')) (before ++ marker.dropLast) '=' (by decide) after
    rw [List.append_assoc before, ← hmarker, List.append_assoc before, ← htext] at hpre
    rwa [List.append_assoc before, ← hmarker]
  have hle := hlong.length_le
  rw [← heq] at hle
  have hshort := (List.rdropWhile_prefix (fun c => decide (c = '\n')) before).length_le
  simp only [List.length_append, List.length_cons, List.length_nil] at hle
  omega

theorem sentinelAt_eq_none_of_length (h : text.length < marker.length) : sentinelAt prev text = none := by
  induction text generalizing prev with
  | nil => rfl
  | cons c text ih =>
    have hpre : ¬marker <+: c :: text := fun hpre => Nat.not_lt_of_le hpre.length_le h
    rw [sentinelAt_cons_of_not_front hpre, ih (Nat.lt_of_succ_lt h)]
    rfl

theorem sentinelAt_prefix {pre before after : Text} (hpre : pre <+: text) (h : sentinelAt prev pre = some (before, after))
    : ∃ rest, after <+: rest ∧ sentinelAt prev text = some (before, rest) := by
  induction pre generalizing text prev before with
  | nil => cases h
  | cons c pre ih =>
    cases text with
    | nil => exact absurd (List.prefix_nil.mp hpre) (List.cons_ne_nil c pre)
    | cons d text =>
      rw [List.cons_prefix_cons] at hpre
      rcases hpre with ⟨rfl, hpre⟩
      have hcons : c :: pre <+: c :: text := List.cons_prefix_cons.mpr ⟨rfl, hpre⟩
      by_cases hstart : marker <+: c :: pre ∧ prev = '\n'
      . rcases hstart with ⟨hmark, rfl⟩
        rw [sentinelAt_of_front hmark] at h
        cases h
        exact ⟨_, List.IsPrefix.drop hcons _, sentinelAt_of_front (hmark.trans hcons)⟩
      . have hskip : sentinelAt prev (c :: pre) = (sentinelAt c pre).map fun parts => (c :: parts.1, parts.2) := by
          by_cases hmark : marker <+: c :: pre
          . exact sentinelAt_cons_of_ne c pre fun hprev => hstart ⟨hmark, hprev⟩
          . exact sentinelAt_cons_of_not_front hmark
        rw [hskip, Option.map_eq_some_iff] at h
        rcases h with ⟨⟨before', after'⟩, hat, heq⟩
        cases heq
        rcases ih hpre hat with ⟨rest, hrest, hat'⟩
        refine ⟨rest, hrest, ?_⟩
        have hskip' : sentinelAt prev (c :: text) = (sentinelAt c text).map fun parts => (c :: parts.1, parts.2) := by
          by_cases hmark : marker <+: c :: text
          . apply sentinelAt_cons_of_ne
            intro hprev
            -- Cut within the marker, the part would be too short to hold another.
            have hshort : pre.length < marker.length := by
              by_contra hlong
              have hle : marker.length ≤ (c :: pre).length := by
                rw [List.length_cons]
                omega
              exact hstart ⟨List.prefix_of_prefix_length_le hmark hcons hle, hprev⟩
            rw [sentinelAt_eq_none_of_length hshort] at hat
            cases hat
          . exact sentinelAt_cons_of_not_front hmark
        rw [hskip', hat', Option.map_some]

theorem splitExitSentinel_prefix_ne_zero (h : Unforged text) (hn : n ≠ 0) {pre : Text} (hpre : pre <+: stream text n)
    : (splitExitSentinel pre).2 ≠ 0 := by
  unfold splitExitSentinel
  split
  next before after hat =>
    rcases sentinelAt_prefix hpre hat with ⟨rest, hrest, hat'⟩
    rw [sentinelAt_stream h] at hat'
    cases hat'
    rw [List.prefix_iff_eq_take.mp hrest]
    exact exitCode_take_ne_zero hn _
  next => exact Int.one_ne_zero

section Shown

-- The bytes of the marker after its first one, which occurs nowhere else in the shell's line.
def markerTail : List UInt8 := utf8 marker.tail

def numberBytes (n : UInt8) : List UInt8 := utf8 (Nat.toDigits 10 n.toNat ++ ['\n'])

theorem utf8_append (a b : Text) : utf8 (a ++ b) = utf8 a ++ utf8 b := List.flatMap_append

theorem utf8_marker : utf8 marker = 90 :: markerTail := by decide

theorem not_mem_markerTail : 90 ∉ markerTail := by decide

theorem not_mem_numberBytes (n : UInt8) : 90 ∉ numberBytes n := by
  have hall : ∀ m < 256, 90 ∉ utf8 (Nat.toDigits 10 m ++ ['\n']) := by decide +kernel
  exact hall n.toNat n.toNat_lt

theorem utf8_sentinelLine (n : UInt8) : utf8 (sentinelLine n) = 90 :: (markerTail ++ numberBytes n) := by
  rw [sentinelLine, utf8_append, utf8_marker]
  rfl

theorem utf8_stream (text : Text) (n : UInt8) : utf8 (stream text n) = (utf8 text ++ [10]) ++ utf8 (sentinelLine n) := by
  have hnewline : utf8 ['\n'] = [10] := by decide
  have hstream : stream text n = text ++ ['\n'] ++ sentinelLine n := by simp [stream]
  rw [hstream, utf8_append, utf8_append, hnewline]

-- For each byte of a chunk, if it reaches the terminal.
def mask (chunk : List UInt8) : List Bool :=
  List.replicate (visiblePrefix chunk).length true
    ++ List.replicate (chunk.length - (visiblePrefix chunk).length) false

theorem visiblePrefix_of_not_inside (h : ¬utf8 marker <:+: chunk) : visiblePrefix chunk = chunk := by
  rw [visiblePrefix, Lines.cut_eq_none_iff.mpr h]

theorem visiblePrefix_of_cut (h : Lines.cut (utf8 marker) chunk = some (before, after))
    : visiblePrefix chunk = if before.getLast? = some 10 then before.dropLast else before := by rw [visiblePrefix, h]

theorem visiblePrefix_front (chunk : List UInt8) : visiblePrefix chunk <+: chunk := by
  unfold visiblePrefix
  split
  next before after hcut =>
    have hbefore : before <+: chunk := by
      rw [Lines.append_of_cut hcut, List.append_assoc]
      exact List.prefix_append _ _
    split
    . exact (List.dropLast_prefix before).trans hbefore
    . exact hbefore
  next => exact List.prefix_refl _

theorem length_mask (chunk : List UInt8) : (mask chunk).length = chunk.length := by
  have hle := (visiblePrefix_front chunk).length_le
  simp only [mask, List.length_append, List.length_replicate]
  omega

theorem length_flatMap_mask (chunks : List (List UInt8)) : (chunks.flatMap mask).length = chunks.flatten.length := by
  rw [List.length_flatMap, List.length_flatten]
  exact congrArg List.sum (List.map_congr_left fun chunk _ => length_mask chunk)

theorem mask_of_not_inside (h : ¬utf8 marker <:+: chunk) : mask chunk = List.replicate chunk.length true := by
  rw [mask, visiblePrefix_of_not_inside h, Nat.sub_self, List.replicate_zero, List.append_nil]

theorem count_mask_of_infix (h : utf8 marker <:+: chunk) : 2 ≤ (mask chunk).count false := by
  cases hcut : Lines.cut (utf8 marker) chunk with
  | none => exact absurd h (Lines.cut_eq_none_iff.mp hcut)
  | some parts =>
    have hlen : (visiblePrefix chunk).length ≤ parts.1.length := by
      rw [visiblePrefix_of_cut hcut]
      split
      . exact (List.dropLast_prefix _).length_le
      . exact Nat.le_refl _
    have hchunk := congrArg List.length (Lines.append_of_cut hcut)
    have hmarker : (utf8 marker).length = 11 := by decide
    simp only [List.length_append, hmarker] at hchunk
    rw [mask, List.count_append, List.count_replicate_self, List.count_replicate]
    omega

-- All of the command's output is shown and none of the shell's line; between them is the newline.
def Shown (text : Text) (n : UInt8) (chunks : List (List UInt8)) : Prop :=
  ∃ separator, chunks.flatMap mask
    = List.replicate (utf8 text).length true ++ separator :: List.replicate (utf8 (sentinelLine n)).length false

-- The shell's line is at the end of a chunk, and the first marker of it.
def Hidden (n : UInt8) (chunks : List (List UInt8)) : Prop :=
  ∃ pre head post, chunks = pre ++ (head ++ utf8 (sentinelLine n)) :: post ∧ (∀ chunk ∈ pre, ¬utf8 marker <:+: chunk) ∧
    ¬utf8 marker <:+: head ∧ ∀ chunk ∈ post, chunk = []

theorem flatMap_mask_of_not_infix (h : ∀ chunk ∈ chunks, ¬utf8 marker <:+: chunk)
    : chunks.flatMap mask = List.replicate chunks.flatten.length true := by
  induction chunks with
  | nil => rfl
  | cons chunk chunks ih =>
    rw [List.forall_mem_cons] at h
    rw [List.flatMap_cons, mask_of_not_inside h.1, ih h.2, List.flatten_cons, List.length_append, List.replicate_append_replicate]

theorem cut_sentinelLine {head : List UInt8} (h : ¬utf8 marker <:+: head) (n : UInt8)
    : Lines.cut (utf8 marker) (head ++ utf8 (sentinelLine n)) = some (head, numberBytes n) := by
  rw [utf8_marker] at h ⊢
  rw [utf8_sentinelLine, ← List.cons_append, ← List.append_assoc]
  exact Lines.cut_append_of_not_infix not_mem_markerTail h _

theorem shown_of_hidden (hflat : chunks.flatten = utf8 (stream text n)) (h : Hidden n chunks) : Shown text n chunks := by
  rcases h with ⟨pre, head, post, rfl, hpre, hhead, hpost⟩
  have hpostflat : post.flatten = [] := List.flatten_eq_nil_iff.mpr hpost
  have hpostmask : post.flatMap mask = [] := by
    apply List.eq_nil_of_length_eq_zero
    rw [length_flatMap_mask, hpostflat]
    rfl
  rw [List.flatten_append, List.flatten_cons, hpostflat, List.append_nil, utf8_stream, ← List.append_assoc,
    List.append_cancel_right_eq] at hflat
  have hlen := congrArg List.length hflat
  simp only [List.length_append, List.length_singleton] at hlen
  rw [Shown, List.flatMap_append, List.flatMap_cons, hpostmask, List.append_nil, flatMap_mask_of_not_infix hpre, mask,
    visiblePrefix_of_cut (cut_sentinelLine hhead n)]
  cases head using List.reverseRecOn with
  | nil =>
    refine ⟨true, ?_⟩
    rw [List.append_nil] at hflat
    have hcut : (if ([] : List UInt8).getLast? = some 10 then [].dropLast else []) = ([] : List UInt8) := rfl
    rw [hcut, List.length_nil, List.replicate_zero, List.nil_append, List.nil_append, Nat.sub_zero, hflat, List.length_append,
      List.length_singleton, List.replicate_succ', List.append_assoc, List.singleton_append]
  | append_singleton head b =>
    refine ⟨false, ?_⟩
    rw [← List.append_assoc] at hflat
    have hb : b = 10 := by simpa using congrArg List.getLast? hflat
    have hhead : pre.flatten ++ head = utf8 text := by
      rw [hb, List.append_cancel_right_eq] at hflat
      exact hflat
    have hrest : (head ++ [b] ++ utf8 (sentinelLine n)).length - head.length = (utf8 (sentinelLine n)).length + 1 := by
      simp only [List.length_append, List.length_singleton]
      omega
    rw [List.getLast?_concat, hb, if_pos rfl, List.dropLast_concat, ← hb, hrest, List.replicate_succ, ← List.append_assoc,
      List.replicate_append_replicate, ← List.length_append, hhead]

theorem not_infix_of_not_mem (h : 90 ∉ chunk) : ¬utf8 marker <:+: chunk := by
  intro hinside
  rw [utf8_marker] at hinside
  exact h (hinside.subset List.mem_cons_self)

-- Of the chunks before the one where the shell's line begins, at most the last byte is hidden.
theorem not_infix_of_shown {pre : List (List UInt8)} {separator : Bool} {k : Nat}
    (h : pre.flatMap mask <+: List.replicate k true ++ [separator])
    : ∀ chunk ∈ pre, ¬utf8 marker <:+: chunk := by
  intro chunk hchunk hinside
  have hmem : mask chunk ∈ pre.map mask := List.mem_map_of_mem hchunk
  have hsub : (mask chunk).Sublist (pre.flatMap mask) := List.sublist_flatten_of_mem hmem
  have hcount := (hsub.trans h.sublist).count_le false
  have htwo := count_mask_of_infix hinside
  have hone : ([separator] : List Bool).count false ≤ 1 := List.count_le_length
  have htrue : (List.replicate k true).count false = 0 :=
    List.count_eq_zero.mpr fun hmem => by cases List.eq_of_mem_replicate hmem
  rw [List.count_append, htrue] at hcount
  omega

theorem eq_nil_of_hidden {post : List (List UInt8)} (hZ : 90 ∉ post.flatten) (h : ∀ shown ∈ post.flatMap mask, shown = false)
    : ∀ chunk ∈ post, chunk = [] := by
  intro chunk hchunk
  have hmem : 90 ∉ chunk := fun hmem => hZ (List.mem_flatten_of_mem hchunk hmem)
  by_contra hne
  have htrue : true ∈ post.flatMap mask := by
    refine List.mem_flatMap.mpr ⟨chunk, hchunk, ?_⟩
    rw [mask_of_not_inside (not_infix_of_not_mem hmem), List.mem_replicate]
    exact ⟨fun hlen => hne (List.eq_nil_of_length_eq_zero hlen), rfl⟩
  exact absurd (h true htrue) (by decide)

theorem getElem?_mask (chunk : List UInt8) (i : Nat)
    : (mask chunk)[i]? = if i < (visiblePrefix chunk).length then some true else if i < chunk.length then some false else none := by
  have hle := (visiblePrefix_front chunk).length_le
  rw [mask, List.getElem?_append, List.getElem?_replicate, List.getElem?_replicate, List.length_replicate]
  split
  next => rfl
  next h =>
    by_cases hi : i < chunk.length
    . rw [if_pos (by omega), if_pos hi]
    . rw [if_neg (by omega), if_neg hi]

theorem cut_of_mask {a b : List UInt8} (hlast : ∀ byte ∈ a.getLast?, byte = 10) (hb : 90 ∉ b)
    (hfalse : (mask (a ++ 90 :: b))[a.length]? = some false)
    (htrue : ∀ i, i + 1 < a.length → (mask (a ++ 90 :: b))[i]? = some true)
    : ∃ rest, Lines.cut (utf8 marker) (a ++ 90 :: b) = some (a, rest) := by
  have hle : (visiblePrefix (a ++ 90 :: b)).length ≤ a.length := by
    rw [getElem?_mask] at hfalse
    by_contra hlt
    rw [if_pos (Nat.lt_of_not_le hlt)] at hfalse
    cases hfalse
  have hge : a.length ≤ (visiblePrefix (a ++ 90 :: b)).length + 1 := by
    by_contra hlt
    have hi := htrue _ (Nat.lt_of_not_le hlt)
    rw [getElem?_mask, if_neg (Nat.lt_irrefl _)] at hi
    split at hi <;> cases hi
  cases hcut : Lines.cut (utf8 marker) (a ++ 90 :: b) with
  | none =>
    rw [visiblePrefix_of_not_inside (Lines.cut_eq_none_iff.mp hcut), List.length_append, List.length_cons] at hle
    omega
  | some parts =>
    have happ := Lines.append_of_cut hcut
    rw [utf8_marker, List.append_assoc, List.cons_append] at happ
    have hbefore : (visiblePrefix (a ++ 90 :: b)).length ≤ parts.1.length := by
      rw [visiblePrefix_of_cut hcut]
      split
      . exact (List.dropLast_prefix _).length_le
      . exact Nat.le_refl _
    have hZ : (a ++ 90 :: b)[parts.1.length]? = some 90 := by
      rw [happ, List.getElem?_append_right (Nat.le_refl _), Nat.sub_self]
      rfl
    -- The marker begins neither in the shell's line nor at the newline before it.
    have hlen : parts.1.length = a.length := by
      rcases Nat.lt_trichotomy parts.1.length a.length with hlt | heq | hgt
      . rw [List.getElem?_append_left hlt] at hZ
        have hend : a.getLast? = some 90 := by
          rw [List.getLast?_eq_getElem?, ← hZ]
          congr 1
          omega
        exact absurd (hlast 90 hend) (by decide)
      . exact heq
      . rw [List.getElem?_append_right (Nat.le_of_lt hgt)] at hZ
        have hpos : parts.1.length - a.length = parts.1.length - a.length - 1 + 1 := by omega
        rw [hpos, List.getElem?_cons_succ] at hZ
        exact absurd (List.mem_of_getElem? hZ) hb
    exact ⟨parts.2, congrArg some (Prod.ext (List.append_inj_left happ hlen.symm).symm rfl)⟩

theorem hidden_of_shown (hflat : chunks.flatten = utf8 (stream text n)) (h : Shown text n chunks) : Hidden n chunks := by
  rcases h with ⟨separator, hmask⟩
  rw [utf8_stream, utf8_sentinelLine] at hflat
  rcases Lines.chunk_of_flatten_eq hflat with ⟨pre, a, b, post, rfl, hpre, hpost⟩
  have hZ : 90 ∉ markerTail ++ numberBytes n := by
    rw [List.mem_append, not_or]
    exact ⟨not_mem_markerTail, not_mem_numberBytes n⟩
  have hlen := congrArg List.length hpre
  have hlen' := congrArg List.length hpost
  have hline : (utf8 (sentinelLine n)).length = (markerTail ++ numberBytes n).length + 1 := by
    rw [utf8_sentinelLine, List.length_cons]
  have hpremask := length_flatMap_mask pre
  have hpostmask := length_flatMap_mask post
  simp only [List.length_append, List.length_singleton] at hlen hlen' hline
  rw [List.flatMap_append, List.flatMap_cons] at hmask
  have hfront : pre.flatMap mask <+: List.replicate (utf8 text).length true ++ [separator] := by
    refine List.prefix_of_prefix_length_le ⟨_, hmask⟩ (by simp) ?_
    simp only [List.length_append, List.length_replicate, List.length_singleton]
    omega
  have hback : post.flatMap mask <:+ List.replicate (utf8 (sentinelLine n)).length false := by
    have hsuffix : post.flatMap mask
        <:+ List.replicate (utf8 text).length true ++ separator :: List.replicate (utf8 (sentinelLine n)).length false := by
      rw [← hmask, ← List.append_assoc]
      exact List.suffix_append _ _
    refine List.suffix_of_suffix_length_le hsuffix ((List.suffix_cons _ _).trans (List.suffix_append _ _)) ?_
    rw [List.length_replicate]
    omega
  have hat : ∀ i < (a ++ 90 :: b).length, (mask (a ++ 90 :: b))[i]?
      = (List.replicate (utf8 text).length true ++ separator :: List.replicate (utf8 (sentinelLine n)).length false)[pre.flatten.length + i]? := by
    intro i hi
    rw [← hmask, List.getElem?_append_right (by omega), hpremask, Nat.add_sub_cancel_left,
      List.getElem?_append_left (by rwa [length_mask])]
  have hcut : ∃ rest, Lines.cut (utf8 marker) (a ++ 90 :: b) = some (a, rest) := by
    apply cut_of_mask
    . intro byte hbyte
      have hlast := congrArg List.getLast? hpre
      rw [List.getLast?_concat, List.getLast?_append, Option.mem_def.mp hbyte] at hlast
      simpa using hlast
    . exact fun hb => hZ (hpost ▸ List.mem_append_left _ hb)
    . rw [hat _ (by simp), List.getElem?_append_right (by rw [List.length_replicate]; omega)]
      have hpos : pre.flatten.length + a.length - (List.replicate (utf8 text).length true).length = 0 + 1 := by
        rw [List.length_replicate]
        omega
      rw [hpos, List.getElem?_cons_succ, List.getElem?_replicate, if_pos (by omega)]
    . intro i hi
      rw [hat i (by rw [List.length_append]; omega), List.getElem?_append_left (by rw [List.length_replicate]; omega), List.getElem?_replicate,
        if_pos (by omega)]
  have hempty : ∀ chunk ∈ post, chunk = [] := by
    apply eq_nil_of_hidden
    . exact fun hmem => hZ (hpost ▸ List.mem_append_right _ hmem)
    . exact fun shown hshown => List.eq_of_mem_replicate (hback.subset hshown)
  have hb : b = markerTail ++ numberBytes n := by
    rw [← hpost, List.flatten_eq_nil_iff.mpr hempty, List.append_nil]
  rcases hcut with ⟨rest, hcut⟩
  refine ⟨pre, a, post, ?_, not_infix_of_shown hfront, ?_, hempty⟩
  . rw [utf8_sentinelLine, hb]
  . exact Lines.not_infix_of_cut (by rw [utf8_marker]; exact List.cons_ne_nil _ _) hcut

def kept (bytes : List UInt8) (shown : List Bool) : List UInt8 := (bytes.zip shown).filterMap fun (byte, shown) => if shown then some byte else none

theorem kept_append {bytes bytes' : List UInt8} {shown shown' : List Bool} (h : bytes.length = shown.length)
    : kept (bytes ++ bytes') (shown ++ shown') = kept bytes shown ++ kept bytes' shown' := by
  rw [kept, List.zip_append h, List.filterMap_append]
  rfl

theorem kept_true (bytes : List UInt8) : kept bytes (List.replicate bytes.length true) = bytes := by
  induction bytes with
  | nil => rfl
  | cons byte bytes ih => exact congrArg (byte :: ·) ih

theorem kept_false (bytes : List UInt8) : kept bytes (List.replicate bytes.length false) = [] := by
  induction bytes with
  | nil => rfl
  | cons byte bytes ih => exact ih

theorem kept_mask (chunk : List UInt8) : kept chunk (mask chunk) = visiblePrefix chunk := by
  rcases visiblePrefix_front chunk with ⟨rest, hrest⟩
  have hlen : chunk.length - (visiblePrefix chunk).length = rest.length := by
    have hsum := congrArg List.length hrest
    rw [List.length_append] at hsum
    omega
  rw [mask, hlen]
  conv => lhs; arg 1; rw [← hrest]
  rw [kept_append (by rw [List.length_replicate]), kept_true, kept_false, List.append_nil]

theorem kept_flatten (chunks : List (List UInt8)) : kept chunks.flatten (chunks.flatMap mask) = chunks.flatMap visiblePrefix := by
  induction chunks with
  | nil => rfl
  | cons chunk chunks ih =>
    rw [List.flatten_cons, List.flatMap_cons, kept_append (length_mask chunk).symm, kept_mask, ih, List.flatMap_cons]

theorem flatMap_visiblePrefix_of_shown (hflat : chunks.flatten = utf8 (stream text n)) (h : Shown text n chunks)
    : chunks.flatMap visiblePrefix = utf8 text ∨ chunks.flatMap visiblePrefix = utf8 text ++ [10] := by
  rcases h with ⟨separator, hmask⟩
  have hmask' : chunks.flatMap mask = List.replicate (utf8 text).length true
      ++ ([separator] ++ List.replicate (utf8 (sentinelLine n)).length false) := hmask
  rw [← kept_flatten, hmask', hflat, utf8_stream, List.append_assoc, kept_append (by rw [List.length_replicate]), kept_true,
    kept_append (by rfl), kept_false, List.append_nil]
  cases separator with
  | false => exact .inl (List.append_nil _)
  | true => exact .inr rfl

end Shown

structure Reports (text : Text) (n : UInt8) (chunks : List (List UInt8)) : Prop where
  code : splitExitSentinel (stream text n) = (text.rdropWhile (· = '\n'), (n.toNat : Int))
  failed : n ≠ 0 → ∀ pre, pre <+: stream text n → (splitExitSentinel pre).2 ≠ 0
  shown : Shown text n chunks

theorem reports_iff (hflat : chunks.flatten = utf8 (stream text n)) : Reports text n chunks ↔ Unforged text ∧ Hidden n chunks := by
  constructor
  . intro h
    refine ⟨?_, hidden_of_shown hflat h.shown⟩
    by_contra hforged
    exact splitExitSentinel_forged hforged n (congrArg Prod.fst h.code)
  . rintro ⟨hunforged, hhidden⟩
    exact
      { code := splitExitSentinel_stream hunforged n
        failed := fun hn _ hpre => splitExitSentinel_prefix_ne_zero hunforged hn hpre
        shown := shown_of_hidden hflat hhidden }

def building : Text := ['d', 'o', 'n', 'e', '\n']

theorem reports_building : Reports building 101 [[100, 111], utf8 (stream building 101) |>.drop 2] := by
  refine (reports_iff (by decide +kernel)).mpr ⟨by unfold Unforged; decide +kernel, [[100, 111]], [110, 101, 10, 10], [], ?_, ?_, ?_, ?_⟩
  all_goals decide +kernel

def forged : Text := marker ++ ['0']

theorem forged_reported
    : splitExitSentinel (stream forged 1) = ([], 0) ∧ ¬Reports forged 1 [utf8 (stream forged 1)] := by
  have hforged : splitExitSentinel (stream forged 1) = ([], 0) := by decide +kernel
  refine ⟨hforged, fun h => ?_⟩
  have hcode := h.code
  rw [hforged] at hcode
  exact absurd (congrArg Prod.snd hcode) (by decide)

end Exec
end Image
