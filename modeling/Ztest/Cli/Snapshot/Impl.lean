import Ztest.Lib.Collect
import Ztest.Lib.Lines

/-!
This module contains the checksum list that names a published tree (`Sums` in `cli/src/snapshot.rs`): how it is
read from the output of `rclone hashsum`, and the text whose hash is the id of the snapshot. Texts are the
bytes of a `str`.
-/

namespace Cli
namespace Snapshot

def utf8 (text : String) : List UInt8 := text.toUTF8.data.toList

def sumsFile : List UInt8 := utf8 "SHA256SUMS"

def isAsciiAlphanumeric (b : UInt8) : Bool := (48 ≤ b && b ≤ 57) || (65 ≤ b && b ≤ 90) || (97 ≤ b && b ≤ 122)

def isAsciiHexdigit (b : UInt8) : Bool := (48 ≤ b && b ≤ 57) || (65 ≤ b && b ≤ 70) || (97 ≤ b && b ≤ 102)

def toAsciiLowercase (b : UInt8) : UInt8 := if 65 ≤ b && b ≤ 90 then b + 32 else b

def validSegment (s : List UInt8) : Bool :=
  !s.isEmpty && s != utf8 "." && s != utf8 ".."
    && s.all fun b => isAsciiAlphanumeric b || b == 46 || b == 95 || b == 45

inductive ParseError where
  | unparseable (line : List UInt8)
  | notSha256 (rel hash : List UInt8)
  | notPublishable (rel : List UInt8)
  | emptyTree
  | listedTwice (rel : List UInt8)

-- `debug` is what the format `{:?}` makes of a text.
def ParseError.text (debug : List UInt8 → List UInt8) : ParseError → List UInt8
  | .unparseable line => utf8 "unparseable hashsum line " ++ debug line
  | .notSha256 rel hash => rel ++ utf8 ": " ++ debug hash ++ utf8 " is not a sha256"
  | .notPublishable rel =>
    debug rel ++ utf8 ": not publishable (segments of A-Z a-z 0-9 . _ -, not " ++ sumsFile ++ utf8 ")"
  | .emptyTree => utf8 "empty tree: nothing to publish"
  | .listedTwice rel => rel ++ utf8 " listed twice"

-- One line of the list: a hash in lower case, and a path that the endpoint serves.
@[ext]
structure Entry where
  hash : List UInt8
  rel : List UInt8
  sha256 : hash.length = 64 ∧ hash.all isAsciiHexdigit = true
  lower : hash.map toAsciiLowercase = hash
  publishable : (rel.splitOn 47).all validSegment = true ∧ rel ≠ sumsFile

theorem toAsciiLowercase_toAsciiLowercase (b : UInt8) : toAsciiLowercase (toAsciiLowercase b) = toAsciiLowercase b := by
  unfold toAsciiLowercase
  split
  next h =>
    have hupper : ¬(65 ≤ b + 32 && b + 32 ≤ 90) = true := by
      simp only [Bool.and_eq_true, decide_eq_true_eq, UInt8.le_iff_toNat_le, UInt8.toNat_add, UInt8.reduceToNat] at h ⊢
      omega
    rw [if_neg hupper]
  next => rfl

theorem map_toAsciiLowercase (hash : List UInt8) : (hash.map toAsciiLowercase).map toAsciiLowercase = hash.map toAsciiLowercase := by
  rw [List.map_map]
  exact List.map_congr_left fun b _ => toAsciiLowercase_toAsciiLowercase b

-- Two spaces.
def separator : List UInt8 := [32, 32]

def parseLine (line : List UInt8) : Except ParseError Entry :=
  match Lines.cut separator line with
  | none => .error (.unparseable line)
  | some (hash, rel) =>
    if hhash : (hash.map toAsciiLowercase).length = 64 ∧ (hash.map toAsciiLowercase).all isAsciiHexdigit = true then
      if hrel : (rel.splitOn 47).all validSegment = true ∧ rel ≠ sumsFile then
        .ok ⟨hash.map toAsciiLowercase, rel, hhash, map_toAsciiLowercase hash, hrel⟩
      else
        .error (.notPublishable rel)
    else
      .error (.notSha256 rel (hash.map toAsciiLowercase))

-- In bytewise order of the paths, each listed once.
@[ext]
structure Sums where
  entries : List Entry
  nonempty : entries ≠ []
  sorted : SortedOn Entry.rel entries

def lines (hashsum : List UInt8) : List (List UInt8) := (Lines.rows 10 13 hashsum).filter (· ≠ [])

def canonical (entries : List Entry) : Except ParseError Sums :=
  if hne : entries = [] then
    .error .emptyTree
  else
    match htwice : twiceOn Entry.rel (sortOn Entry.rel entries) with
    | some rel => .error (.listedTwice rel)
    | none =>
      have hsorted : SortedOn Entry.rel (sortOn Entry.rel entries) := sortedOn_of_twiceOn (sortOn_pairwise _ _) htwice
      .ok ⟨sortOn Entry.rel entries, sortOn_ne_nil hne, hsorted⟩

def Sums.parse (hashsum : List UInt8) : Except ParseError Sums := do
  let entries ← (lines hashsum).mapM parseLine
  canonical entries

def Entry.line (e : Entry) : List UInt8 := e.hash ++ separator ++ e.rel

def Sums.text (sums : Sums) : List UInt8 := sums.entries.flatMap (·.line ++ [10])

def Sums.relpaths (sums : Sums) : List UInt8 := sums.entries.flatMap (·.rel ++ [10])

end Snapshot
end Cli
