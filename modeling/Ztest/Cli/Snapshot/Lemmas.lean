import Ztest.Cli.Snapshot.Impl
import Mathlib.Data.Set.Defs

/-!
This module contains the proofs that the text of a checksum list is canonical: it is the list again when it is
parsed, it is the same for two lists exactly if they name the same files with the same hashes, and a list
is refused only for one of five reasons.
-/

namespace Cli
namespace Snapshot

def hexDigits : List UInt8 := utf8 "0123456789abcdefABCDEF"

def segmentBytes : List UInt8 := utf8 "ABCDEFGHIJKLMNOPQRSTUVWXYZabcdefghijklmnopqrstuvwxyz0123456789._-"

def IsSha256 (hash : List UInt8) : Prop := hash.length = 64 ∧ ∀ b ∈ hash, b ∈ hexDigits

def Segment (s : List UInt8) : Prop := s ≠ [] ∧ s ≠ utf8 "." ∧ s ≠ utf8 ".." ∧ ∀ b ∈ s, b ∈ segmentBytes

def Publishable (rel : List UInt8) : Prop :=
  rel ≠ sumsFile ∧ ∃ segments, segments ≠ [] ∧ rel = Lines.join 47 segments ∧ ∀ s ∈ segments, Segment s

def relOf (line : List UInt8) : Option (List UInt8) := (Lines.cut separator line).map Prod.snd

-- The files of a listing, with their hashes in lower case.
def pairs (hashsum : List UInt8) : Set (List UInt8 × List UInt8) :=
  {pair | ∃ line ∈ lines hashsum, ∃ hash, Lines.cut separator line = some (hash, pair.2) ∧ pair.1 = hash.map toAsciiLowercase}

inductive Rejected (hashsum : List UInt8) : Prop where
  | empty (h : lines hashsum = [])
  | unseparated (line : List UInt8) (hline : line ∈ lines hashsum) (h : ¬separator <:+: line)
  | hash (line hash rel : List UInt8) (hline : line ∈ lines hashsum) (hcut : Lines.cut separator line = some (hash, rel))
    (h : ¬IsSha256 hash)
  | rel (line hash rel : List UInt8) (hline : line ∈ lines hashsum) (hcut : Lines.cut separator line = some (hash, rel))
    (h : ¬Publishable rel)
  | repeated (h : ¬((lines hashsum).filterMap relOf).Nodup)

theorem forall_byte {p : UInt8 → Prop} (h : ∀ n < 256, p (UInt8.ofNat n)) (b : UInt8) : p b := by
  have hb := h b.toNat b.toNat_lt
  rwa [UInt8.ofNat_toNat] at hb

theorem iff_mem {test : UInt8 → Bool} {bytes : List UInt8} (hall : ∀ n < 256, test (UInt8.ofNat n) = true → UInt8.ofNat n ∈ bytes)
    (hbytes : ∀ b ∈ bytes, test b = true) (b : UInt8) : test b = true ↔ b ∈ bytes :=
  ⟨@forall_byte (fun b => test b = true → b ∈ bytes) hall b, hbytes b⟩

theorem isAsciiHexdigit_toAsciiLowercase (b : UInt8) : isAsciiHexdigit (toAsciiLowercase b) = true ↔ b ∈ hexDigits :=
  @iff_mem (fun b => isAsciiHexdigit (toAsciiLowercase b)) hexDigits (by decide +kernel) (by decide +kernel) b

theorem segmentByte_iff (b : UInt8)
    : (isAsciiAlphanumeric b || b == 46 || b == 95 || b == 45) = true ↔ b ∈ segmentBytes :=
  @iff_mem (fun b => isAsciiAlphanumeric b || b == 46 || b == 95 || b == 45) segmentBytes (by decide +kernel)
    (by decide +kernel) b

theorem validSegment_iff {s : List UInt8} : validSegment s = true ↔ Segment s := by
  simp only [validSegment, Bool.and_eq_true, bne_iff_ne, ne_eq, Bool.not_eq_true', List.isEmpty_eq_false_iff,
    List.all_eq_true, Segment, and_assoc]
  simp only [← segmentByte_iff]

theorem publishable_iff {rel : List UInt8} : ((rel.splitOn 47).all validSegment = true ∧ rel ≠ sumsFile) ↔ Publishable rel := by
  rw [and_comm]
  apply and_congr_right
  intro _
  constructor
  . intro h
    refine ⟨rel.splitOn 47, List.splitOn_ne_nil 47 rel, (List.intercalate_splitOn 47).symm, ?_⟩
    intro s hs
    exact validSegment_iff.mp (List.all_eq_true.mp h s hs)
  . rintro ⟨segments, hne, rfl, hsegments⟩
    have hslash : ∀ s ∈ segments, 47 ∉ s := fun s hs hmem => absurd ((hsegments s hs).2.2.2 47 hmem) (by decide)
    rw [Lines.splitOn_join hslash hne, List.all_eq_true]
    intro s hs
    exact validSegment_iff.mpr (hsegments s hs)

theorem isSha256_iff {hash : List UInt8}
    : ((hash.map toAsciiLowercase).length = 64 ∧ (hash.map toAsciiLowercase).all isAsciiHexdigit = true) ↔ IsSha256 hash := by
  rw [List.length_map, List.all_map, List.all_eq_true]
  exact and_congr_right fun _ => forall₂_congr fun b _ => isAsciiHexdigit_toAsciiLowercase b

section ParseLine

variable {line hash rel : List UInt8} {e : Entry}

theorem parseLine_of_cut (hcut : Lines.cut separator line = some (hash, rel)) (hhash : IsSha256 hash) (hrel : Publishable rel)
    : parseLine line
        = .ok ⟨hash.map toAsciiLowercase, rel, isSha256_iff.mpr hhash, map_toAsciiLowercase hash, publishable_iff.mpr hrel⟩ := by
  rw [parseLine, hcut]
  dsimp only
  rw [dif_pos (isSha256_iff.mpr hhash), dif_pos (publishable_iff.mpr hrel)]

theorem parseLine_eq_ok_iff
    : parseLine line = .ok e ↔ ∃ hash, Lines.cut separator line = some (hash, e.rel) ∧ e.hash = hash.map toAsciiLowercase := by
  constructor
  . intro h
    unfold parseLine at h
    split at h
    next => cases h
    next hash rel hcut =>
      split at h
      next =>
        split at h
        next =>
          cases h
          exact ⟨hash, hcut, rfl⟩
        next => cases h
      next => cases h
  . rintro ⟨hash, hcut, heq⟩
    have hhash : IsSha256 hash := isSha256_iff.mp (heq ▸ e.sha256)
    rw [parseLine_of_cut hcut hhash (publishable_iff.mp e.publishable)]
    exact congrArg Except.ok (Entry.ext heq.symm rfl)

theorem exists_parseLine_iff
    : (∃ e, parseLine line = .ok e)
        ↔ ∃ hash rel, Lines.cut separator line = some (hash, rel) ∧ IsSha256 hash ∧ Publishable rel := by
  constructor
  . rintro ⟨e, h⟩
    rcases parseLine_eq_ok_iff.mp h with ⟨hash, hcut, heq⟩
    exact ⟨hash, e.rel, hcut, isSha256_iff.mp (heq ▸ e.sha256), publishable_iff.mp e.publishable⟩
  . rintro ⟨hash, rel, hcut, hhash, hrel⟩
    exact ⟨_, parseLine_of_cut hcut hhash hrel⟩

end ParseLine

section Line

variable (e : Entry)

theorem Entry.mem_hash {b : UInt8} (hb : b ∈ e.hash) : b ∈ hexDigits := by
  have hsha : IsSha256 e.hash := isSha256_iff.mp (by rw [e.lower]; exact e.sha256)
  exact hsha.2 b hb

theorem Entry.mem_rel {b : UInt8} (hb : b ∈ e.rel) : b = 47 ∨ b ∈ segmentBytes := by
  rcases publishable_iff.mp e.publishable with ⟨_, segments, _, heq, hsegments⟩
  rw [heq] at hb
  rcases Lines.mem_join hb with hslash | ⟨s, hs, hmem⟩
  . exact .inl hslash
  . exact .inr ((hsegments s hs).2.2.2 b hmem)

theorem Entry.rel_ne_nil : e.rel ≠ [] := by
  intro hnil
  have hall := e.publishable.1
  rw [hnil] at hall
  cases hall

theorem Entry.cut_line : Lines.cut separator e.line = some (e.hash, e.rel) := by
  have hspace : 32 ∉ e.hash := fun hmem => absurd (e.mem_hash hmem) (by decide)
  exact Lines.cut_append hspace [32] e.rel

theorem Entry.parseLine_line : parseLine e.line = .ok e := parseLine_eq_ok_iff.mpr ⟨e.hash, e.cut_line, e.lower.symm⟩

theorem Entry.newline_not_mem_line : 10 ∉ e.line := by
  intro hmem
  simp only [Entry.line, List.mem_append] at hmem
  rcases hmem with (hmem | hmem) | hmem
  . exact absurd (e.mem_hash hmem) (by decide)
  . exact absurd hmem (by decide)
  . exact absurd (e.mem_rel hmem) (by decide)

theorem Entry.getLast?_line : e.line.getLast? ≠ some 13 := by
  rw [Entry.line, List.getLast?_append_of_ne_nil _ e.rel_ne_nil]
  intro hlast
  exact absurd (e.mem_rel (List.mem_of_getLast? hlast)) (by decide)

theorem Entry.line_ne_nil : e.line ≠ [] := by simp [Entry.line, e.rel_ne_nil]

end Line

theorem lines_text (sums : Sums) : lines sums.text = sums.entries.map Entry.line := by
  have hrows : Lines.rows 10 13 sums.text = sums.entries.map Entry.line := by
    have htext : sums.text = (sums.entries.map Entry.line).flatMap (· ++ [10]) := by
      rw [List.flatMap_map]
      rfl
    rw [htext, Lines.rows_flatMap]
    intro line hline
    rcases List.mem_map.mp hline with ⟨e, _, rfl⟩
    exact ⟨e.newline_not_mem_line, e.getLast?_line⟩
  rw [lines, hrows, List.filter_eq_self]
  intro line hline
  rcases List.mem_map.mp hline with ⟨e, _, rfl⟩
  exact decide_eq_true e.line_ne_nil

theorem canonical_eq_ok_iff {entries : List Entry} {sums : Sums}
    : canonical entries = .ok sums
        ↔ entries ≠ [] ∧ (entries.map Entry.rel).Nodup ∧ sums.entries = sortOn Entry.rel entries := by
  rw [← twiceOn_sortOn_eq_none_iff]
  unfold canonical
  split
  next hnil => simp [hnil]
  next hne =>
    split
    next rel htwice => simp [htwice]
    next htwice =>
      simp only [Except.ok.injEq, Sums.ext_iff, ne_eq, hne, not_false_eq_true, htwice, true_and]
      exact eq_comm

theorem parse_eq_ok_iff {hashsum : List UInt8} {sums : Sums}
    : Sums.parse hashsum = .ok sums
        ↔ ∃ entries, List.Forall₂ (fun line e => parseLine line = .ok e) (lines hashsum) entries ∧
            entries ≠ [] ∧ (entries.map Entry.rel).Nodup ∧ sums.entries = sortOn Entry.rel entries := by
  simp only [← canonical_eq_ok_iff, ← mapM_eq_ok_iff]
  unfold Sums.parse
  cases (lines hashsum).mapM parseLine with
  | error e => simp [bind, Except.bind]
  | ok entries => simp [bind, Except.bind]

theorem relOf_of_parseLine {line : List UInt8} {e : Entry} (h : parseLine line = .ok e) : relOf line = some e.rel := by
  rcases parseLine_eq_ok_iff.mp h with ⟨hash, hcut, _⟩
  rw [relOf, hcut]
  rfl

theorem filterMap_relOf {hashsum : List (List UInt8)} {entries : List Entry}
    (h : List.Forall₂ (fun line e => parseLine line = .ok e) hashsum entries)
    : hashsum.filterMap relOf = entries.map Entry.rel := by
  induction h with
  | nil => rfl
  | cons hline _ ih => rw [List.filterMap_cons_some (relOf_of_parseLine hline), ih, List.map_cons]

theorem exists_parse_iff {hashsum : List UInt8}
    : (∃ sums, Sums.parse hashsum = .ok sums)
        ↔ (∀ line ∈ lines hashsum, ∃ e, parseLine line = .ok e) ∧ lines hashsum ≠ [] ∧
            ((lines hashsum).filterMap relOf).Nodup := by
  rw [← exists_mapM_eq_ok_iff]
  simp only [parse_eq_ok_iff, mapM_eq_ok_iff]
  constructor
  . rintro ⟨sums, entries, hentries, hne, hnodup, _⟩
    refine ⟨⟨entries, hentries⟩, ?_, ?_⟩
    . rintro hnil
      rw [hnil, List.forall₂_nil_left_iff] at hentries
      exact hne hentries
    . rwa [filterMap_relOf hentries]
  . rintro ⟨⟨entries, hentries⟩, hne, hnodup⟩
    rw [filterMap_relOf hentries] at hnodup
    have hentriesne : entries ≠ [] := by
      rintro rfl
      exact hne (List.forall₂_nil_right_iff.mp hentries)
    have hsorted : SortedOn Entry.rel (sortOn Entry.rel entries) :=
      sortedOn_of_twiceOn (sortOn_pairwise _ _) (twiceOn_sortOn_eq_none_iff.mpr hnodup)
    exact ⟨⟨sortOn Entry.rel entries, sortOn_ne_nil hentriesne, hsorted⟩, entries, hentries, hentriesne, hnodup, rfl⟩

theorem not_rejected_iff {hashsum : List UInt8}
    : ¬Rejected hashsum
        ↔ (∀ line ∈ lines hashsum, ∃ e, parseLine line = .ok e) ∧ lines hashsum ≠ [] ∧
            ((lines hashsum).filterMap relOf).Nodup := by
  constructor
  . intro h
    refine ⟨?_, fun hnil => h (.empty hnil), Classical.not_not.mp fun hrep => h (.repeated hrep)⟩
    intro line hline
    rw [exists_parseLine_iff]
    cases hcut : Lines.cut separator line with
    | none => exact absurd (.unseparated line hline (Lines.cut_eq_none_iff.mp hcut)) h
    | some parts =>
      refine ⟨parts.1, parts.2, rfl, ?_, ?_⟩
      . exact Classical.not_not.mp fun hbad => h (.hash line _ _ hline hcut hbad)
      . exact Classical.not_not.mp fun hbad => h (.rel line _ _ hline hcut hbad)
  . rintro ⟨hparsed, hne, hnodup⟩ hrejected
    have hread : ∀ line ∈ lines hashsum,
        ∃ hash rel, Lines.cut separator line = some (hash, rel) ∧ IsSha256 hash ∧ Publishable rel := fun line hline =>
      exists_parseLine_iff.mp (hparsed line hline)
    cases hrejected with
    | empty hnil => exact hne hnil
    | unseparated line hline hbad =>
      rcases hread line hline with ⟨hash, rel, hcut, _⟩
      rw [Lines.cut_eq_none_iff.mpr hbad] at hcut
      cases hcut
    | hash line hash rel hline hcut hbad =>
      rcases hread line hline with ⟨hash', rel', hcut', hhash, _⟩
      rw [hcut] at hcut'
      cases hcut'
      exact hbad hhash
    | rel line hash rel hline hcut hbad =>
      rcases hread line hline with ⟨hash', rel', hcut', _, hrel⟩
      rw [hcut] at hcut'
      cases hcut'
      exact hbad hrel
    | repeated hrep => exact hrep hnodup

theorem parse_error_iff {hashsum : List UInt8} : (∃ e, Sums.parse hashsum = .error e) ↔ Rejected hashsum := by
  rw [← not_iff_not, not_rejected_iff, ← exists_parse_iff]
  cases Sums.parse hashsum with
  | error e => simp
  | ok sums => simp

theorem forall₂_parseLine (entries : List Entry)
    : List.Forall₂ (fun line e => parseLine line = .ok e) (entries.map Entry.line) entries := by
  induction entries with
  | nil => exact .nil
  | cons e entries ih => exact .cons e.parseLine_line ih

theorem parse_text (sums : Sums) : Sums.parse sums.text = .ok sums := by
  rw [parse_eq_ok_iff, lines_text]
  exact ⟨sums.entries, forall₂_parseLine _, sums.nonempty, sums.sorted.nodup, (sortOn_of_sortedOn sums.sorted).symm⟩

theorem text_inj {sums sums' : Sums} (h : sums.text = sums'.text) : sums = sums' := by
  have hparse := parse_text sums
  rw [h, parse_text sums', Except.ok.injEq] at hparse
  exact hparse.symm

theorem filterMap_relOf_text (sums : Sums) : (lines sums.text).filterMap relOf = sums.entries.map Entry.rel := by
  rw [lines_text]
  exact filterMap_relOf (forall₂_parseLine _)

theorem relpaths_eq (sums : Sums) : sums.relpaths = ((lines sums.text).filterMap relOf).flatMap (· ++ [10]) := by
  rw [filterMap_relOf_text, List.flatMap_map]
  rfl

theorem mem_pairs_iff {hashsum : List UInt8} {sums : Sums} (h : Sums.parse hashsum = .ok sums) (pair : List UInt8 × List UInt8)
    : pair ∈ pairs hashsum ↔ ∃ e ∈ sums.entries, (e.hash, e.rel) = pair := by
  rcases parse_eq_ok_iff.mp h with ⟨entries, hentries, _, _, heq⟩
  simp only [heq, mem_sortOn]
  constructor
  . rintro ⟨line, hline, hash, hcut, hhash⟩
    rcases exists_of_mem_forall₂ hentries hline with ⟨e, he, hparse⟩
    rcases parseLine_eq_ok_iff.mp hparse with ⟨hash', hcut', hhash'⟩
    rw [hcut, Option.some.injEq, Prod.mk.injEq] at hcut'
    rcases hcut' with ⟨rfl, hrel⟩
    exact ⟨e, he, Prod.ext (hhash'.trans hhash.symm) hrel.symm⟩
  . rintro ⟨e, he, rfl⟩
    rcases exists_of_mem_forall₂ hentries.flip he with ⟨line, hline, hparse⟩
    rcases parseLine_eq_ok_iff.mp hparse with ⟨hash, hcut, hhash⟩
    exact ⟨line, hline, hash, hcut, hhash⟩

theorem eq_iff_pairs_eq {hashsum hashsum' : List UInt8} {sums sums' : Sums} (h : Sums.parse hashsum = .ok sums)
    (h' : Sums.parse hashsum' = .ok sums')
    : sums = sums' ↔ pairs hashsum = pairs hashsum' := by
  rw [Set.ext_iff]
  simp only [mem_pairs_iff h, mem_pairs_iff h']
  constructor
  . rintro rfl
    exact fun _ => Iff.rfl
  . intro heq
    have hmem : ∀ {s s' : Sums}, (∀ pair : List UInt8 × List UInt8, (∃ e ∈ s.entries, (e.hash, e.rel) = pair) →
        ∃ e ∈ s'.entries, (e.hash, e.rel) = pair) → ∀ e ∈ s.entries, e ∈ s'.entries := by
      intro s s' hpairs e he
      rcases hpairs _ ⟨e, he, rfl⟩ with ⟨e', he', hpair⟩
      have hsame : e' = e := Entry.ext (congrArg Prod.fst hpair) (congrArg Prod.snd hpair)
      exact hsame ▸ he'
    apply Sums.ext
    apply sums.sorted.eq_of_mem_iff sums'.sorted
    intro e
    exact ⟨hmem (fun pair => (heq pair).mp) e, hmem (fun pair => (heq pair).mpr) e⟩

-- The id of a snapshot is the hash of this text.
theorem text_canonical
    : (∀ hashsum sums, Sums.parse hashsum = .ok sums →
          Sums.parse sums.text = .ok sums ∧
            sums.relpaths = ((lines sums.text).filterMap relOf).flatMap (· ++ [10]) ∧
            ((lines sums.text).filterMap relOf).Pairwise (· < ·) ∧
            ∀ rel ∈ (lines sums.text).filterMap relOf, Publishable rel) ∧
        (∀ hashsum hashsum' sums sums', Sums.parse hashsum = .ok sums → Sums.parse hashsum' = .ok sums' →
          (sums.text = sums'.text ↔ pairs hashsum = pairs hashsum')) ∧
        ∀ hashsum, (∃ e, Sums.parse hashsum = .error e) ↔ Rejected hashsum := by
  refine ⟨?_, ?_, fun _ => parse_error_iff⟩
  . intro hashsum sums _
    refine ⟨parse_text sums, relpaths_eq sums, ?_, ?_⟩
    . rw [filterMap_relOf_text, List.pairwise_map]
      exact sums.sorted
    . intro rel hrel
      rw [filterMap_relOf_text] at hrel
      rcases List.mem_map.mp hrel with ⟨e, _, rfl⟩
      exact publishable_iff.mp e.publishable
  . intro hashsum hashsum' sums sums' h h'
    rw [← eq_iff_pairs_eq h h']
    exact ⟨text_inj, congrArg Sums.text⟩

section Listed

structure Listed (line hash rel : List UInt8) : Prop where
  cut : Lines.cut separator line = some (hash, rel)
  hash : IsSha256 hash
  rel : Publishable rel

variable {hashsum line hash rel line' hash' rel' : List UInt8}

theorem Listed.relOf_eq (h : Listed line hash rel) : relOf line = some rel := by
  rw [relOf, h.cut]
  rfl

theorem exists_parse_of_lines_eq (h : Listed line hash rel) (h' : Listed line' hash' rel') (hne : rel ≠ rel')
    (hlines : lines hashsum = [line, line'])
    : ∃ sums, Sums.parse hashsum = .ok sums := by
  rw [exists_parse_iff, hlines, List.filterMap_cons_some h.relOf_eq, List.filterMap_cons_some h'.relOf_eq]
  refine ⟨?_, List.cons_ne_nil _ _, by simpa using hne⟩
  intro line'' hline''
  rcases List.mem_pair.mp hline'' with rfl | rfl
  . exact ⟨_, parseLine_of_cut h.cut h.hash h.rel⟩
  . exact ⟨_, parseLine_of_cut h'.cut h'.hash h'.rel⟩

theorem mem_pairs_of_lines_eq (h : Listed line hash rel) (h' : Listed line' hash' rel') (hlines : lines hashsum = [line, line'])
    (pair : List UInt8 × List UInt8)
    : pair ∈ pairs hashsum ↔
        pair = (hash.map toAsciiLowercase, rel) ∨ pair = (hash'.map toAsciiLowercase, rel') := by
  constructor
  . rintro ⟨line'', hline'', hash'', hcut, heq⟩
    rw [hlines] at hline''
    rcases List.mem_pair.mp hline'' with rfl | rfl
    . rw [h.cut, Option.some.injEq, Prod.mk.injEq] at hcut
      exact .inl (Prod.ext (by rw [heq, hcut.1]) hcut.2.symm)
    . rw [h'.cut, Option.some.injEq, Prod.mk.injEq] at hcut
      exact .inr (Prod.ext (by rw [heq, hcut.1]) hcut.2.symm)
  . rintro (rfl | rfl)
    . exact ⟨line, by simp [hlines], hash, h.cut, rfl⟩
    . exact ⟨line', by simp [hlines], hash', h'.cut, rfl⟩

end Listed

def lineOf (digit : UInt8) (rel : String) : List UInt8 := List.replicate 64 digit ++ utf8 ("  " ++ rel)

theorem listed_lower : Listed (lineOf 97 "a/b") (List.replicate 64 97) (utf8 "a/b") :=
  ⟨by decide +kernel, isSha256_iff.mp (by decide +kernel), publishable_iff.mp (by decide +kernel)⟩

theorem listed_upper : Listed (lineOf 65 "a/b") (List.replicate 64 65) (utf8 "a/b") :=
  ⟨by decide +kernel, isSha256_iff.mp (by decide +kernel), publishable_iff.mp (by decide +kernel)⟩

theorem listed_other : Listed (lineOf 48 "c") (List.replicate 64 48) (utf8 "c") :=
  ⟨by decide +kernel, isSha256_iff.mp (by decide +kernel), publishable_iff.mp (by decide +kernel)⟩

def sortedFiles : List UInt8 := lineOf 97 "a/b" ++ utf8 "\n" ++ lineOf 48 "c" ++ utf8 "\n"

def shuffledFiles : List UInt8 := utf8 "\n" ++ lineOf 48 "c" ++ utf8 "\n" ++ lineOf 65 "a/b"

theorem text_canonical_shuffled
    : ∃ sums sums', Sums.parse sortedFiles = .ok sums ∧ Sums.parse shuffledFiles = .ok sums' ∧ sums.text = sums'.text := by
  have hsorted : lines sortedFiles = [lineOf 97 "a/b", lineOf 48 "c"] := by decide +kernel
  have hshuffled : lines shuffledFiles = [lineOf 48 "c", lineOf 65 "a/b"] := by decide +kernel
  have hne : utf8 "a/b" ≠ utf8 "c" := by decide +kernel
  rcases exists_parse_of_lines_eq listed_lower listed_other hne hsorted with ⟨sums, hsums⟩
  rcases exists_parse_of_lines_eq listed_other listed_upper hne.symm hshuffled with ⟨sums', hsums'⟩
  have hsame : (List.replicate 64 97).map toAsciiLowercase = (List.replicate 64 65).map toAsciiLowercase := by decide +kernel
  refine ⟨sums, sums', hsums, hsums', (text_canonical.2.1 _ _ _ _ hsums hsums').mpr ?_⟩
  ext pair
  rw [mem_pairs_of_lines_eq listed_lower listed_other hsorted, mem_pairs_of_lines_eq listed_other listed_upper hshuffled, hsame]
  exact or_comm

end Snapshot
end Cli
