import Mathlib.Data.List.Induction
import Ztest.Lib.Utf8

/-!
This module contains the decoding of what a pty sends (`decode` and `feed` of `console/render.rs`), and the proof
that it does not depend on how the bytes are cut into chunks.
-/

namespace Ui
namespace Console
namespace Decode

open Utf8 (fromUtf8 lossy replacement)

theorem drop_lt {carry : List UInt8} {e : Utf8.Utf8Error} {bad : Nat} (h : fromUtf8 carry = .error e)
    (hbad : e.errorLen = some bad)
    : (carry.drop (e.validUpTo + bad)).length < carry.length := by
  rcases Utf8.fromUtf8_error h with ⟨_, hdrop, herror, _⟩
  have hlt := Utf8.drop_lt_of_bad ((herror bad).mp hbad)
  rw [← List.drop_drop, hdrop]
  refine Nat.lt_of_lt_of_le hlt ?_
  rw [← hdrop, List.length_drop]
  exact Nat.sub_le _ _

-- An ill-formed sequence is dropped from the carry and the loop goes on, one that may still be completed is kept.
def decodeLoop (carry : List UInt8) (out : Text) : Text × List UInt8 :=
  match _h : fromUtf8 carry with
  | .ok s => (out ++ s, [])
  | .error e =>
    let out := out ++ (Utf8.decode (carry.take e.validUpTo)).getD []
    match _hbad : e.errorLen with
    | some bad => decodeLoop (carry.drop (e.validUpTo + bad)) (out ++ [replacement])
    | none => (out, carry.drop e.validUpTo)
termination_by carry.length
decreasing_by exact drop_lt _h _hbad

def decode (carry chunk : List UInt8) : Text × List UInt8 := decodeLoop (carry ++ chunk) []

section Feed

variable {Vt Line : Type} (feedStr : Vt → Text → Vt × List Line) (ansi : Line → Text)

-- The emulator, the carry, and the lines that have scrolled off.
def feed (s : Vt × List UInt8 × List Text) (bytes : List UInt8) : Vt × List UInt8 × List Text :=
  let decoded := decode s.2.1 bytes
  if decoded.1 = [] then (s.1, decoded.2, s.2.2)
  else
    let fed := feedStr s.1 decoded.1
    (fed.1, decoded.2, s.2.2 ++ fed.2.map ansi)

end Feed

-- What each chunk decodes to, and the carry behind the last.
def decodeAll (chunks : List (List UInt8)) : List Text × List UInt8 :=
  chunks.foldl (fun s chunk => (s.1 ++ [(decode s.2 chunk).1], (decode s.2 chunk).2)) ([], [])

theorem decodeLoop_ok {carry : List UInt8} {s : Text} (h : fromUtf8 carry = .ok s) (out : Text)
    : decodeLoop carry out = (out ++ s, []) := by
  rw [decodeLoop]
  split
  next s' hs =>
    cases hs.symm.trans h
    rfl
  next e he => cases he.symm.trans h

theorem decodeLoop_bad {carry : List UInt8} {e : Utf8.Utf8Error} {bad : Nat} (h : fromUtf8 carry = .error e)
    (hbad : e.errorLen = some bad) (out : Text)
    : decodeLoop carry out =
        decodeLoop (carry.drop (e.validUpTo + bad)) (out ++ (Utf8.decode (carry.take e.validUpTo)).getD [] ++ [replacement]) := by
  rw [decodeLoop]
  split
  next s' hs => cases hs.symm.trans h
  next e he =>
    cases he.symm.trans h
    dsimp only
    split
    next bad' hbad' =>
      cases hbad'.symm.trans hbad
      rfl
    next hnone => cases hnone.symm.trans hbad

theorem decodeLoop_short {carry : List UInt8} {e : Utf8.Utf8Error} (h : fromUtf8 carry = .error e) (hnone : e.errorLen = none)
    (out : Text)
    : decodeLoop carry out = (out ++ (Utf8.decode (carry.take e.validUpTo)).getD [], carry.drop e.validUpTo) := by
  rw [decodeLoop]
  split
  next s' hs => cases hs.symm.trans h
  next e he =>
    cases he.symm.trans h
    dsimp only
    split
    next bad hbad => cases hbad.symm.trans hnone
    next => rfl

theorem decodeLoop_eq (carry : List UInt8) (out : Text)
    : decodeLoop carry out = (out ++ (Utf8.stream carry).1, (Utf8.stream carry).2) := by
  induction h : carry.length using Nat.strongRecOn generalizing carry out with
  | _ n ih =>
    cases hutf8 : fromUtf8 carry with
    | ok s =>
      rw [decodeLoop_ok hutf8, Utf8.stream_of_decode (Utf8.fromUtf8_ok hutf8)]
    | error e =>
      rcases Utf8.fromUtf8_error hutf8 with ⟨htake, hdrop, herror, hnone⟩
      have hvalid : (Utf8.decode (carry.take e.validUpTo)).getD [] = (Utf8.front carry).1 := by
        rw [Utf8.decode_eq_some_iff.mpr htake.symm]
        rfl
      cases hlen : e.errorLen with
      | some bad =>
        have hbad := (herror bad).mp hlen
        rw [decodeLoop_bad hutf8 hlen, ih _ (h ▸ drop_lt hutf8 hlen) _ _ rfl, hvalid, Utf8.stream_front carry,
          Utf8.stream_bad hbad, ← List.drop_drop, hdrop]
        simp only [List.append_assoc, List.singleton_append]
      | none =>
        rw [decodeLoop_short hutf8 hlen, hvalid, Utf8.stream_front carry, Utf8.stream_short (hnone.mp hlen), hdrop,
          List.append_nil]

theorem decode_eq (carry chunk : List UInt8) : decode carry chunk = Utf8.stream (carry ++ chunk) := decodeLoop_eq _ []

theorem decodeAll_concat (chunks : List (List UInt8)) (chunk : List UInt8)
    : decodeAll (chunks ++ [chunk]) =
        ((decodeAll chunks).1 ++ [(Utf8.stream ((decodeAll chunks).2 ++ chunk)).1],
          (Utf8.stream ((decodeAll chunks).2 ++ chunk)).2) := by
  rw [decodeAll, List.foldl_append, ← decode_eq]
  rfl

theorem decodeAll_eq (chunks : List (List UInt8))
    : (decodeAll chunks).1.flatten = (Utf8.stream chunks.flatten).1 ∧ (decodeAll chunks).2 = (Utf8.stream chunks.flatten).2 := by
  induction chunks using List.reverseRecOn with
  | nil =>
    rw [List.flatten_nil, Utf8.stream_short rfl]
    exact ⟨rfl, rfl⟩
  | append_singleton chunks chunk ih =>
    have happ : (chunks ++ [chunk]).flatten = chunks.flatten ++ chunk := by rw [List.flatten_append, List.flatten_singleton]
    rw [decodeAll_concat, happ, Utf8.stream_append chunks.flatten, ← ih.1, ← ih.2]
    exact ⟨by rw [List.flatten_append, List.flatten_singleton], rfl⟩

theorem decodeAll_parts (chunks : List (List UInt8))
    : ∃ parts, parts.flatten ++ (decodeAll chunks).2 = chunks.flatten ∧
        List.Forall₂ (fun out part => out = lossy part) (decodeAll chunks).1 parts := by
  induction chunks using List.reverseRecOn with
  | nil => exact ⟨[], rfl, .nil⟩
  | append_singleton chunks chunk ih =>
    rcases ih with ⟨parts, hparts, hlossy⟩
    rcases Utf8.lossy_part ((decodeAll chunks).2 ++ chunk) with ⟨part, hpart, hout⟩
    rw [decodeAll_concat]
    refine ⟨parts ++ [part], ?_, List.rel_append hlossy (.cons hout.symm .nil)⟩
    rw [List.flatten_append, List.flatten_singleton, List.append_assoc, hpart, ← List.append_assoc, hparts, List.flatten_append,
      List.flatten_singleton]

-- What may wait for more bytes.
def Held (carry : List UInt8) : Prop :=
  carry = [] ∨ carry.length ≤ 3 ∧ ∃ c, carry <+: String.utf8EncodeChar c ∧ carry ≠ String.utf8EncodeChar c

theorem decodeAll_held (chunks : List (List UInt8)) : Held (decodeAll chunks).2 := by
  rw [(decodeAll_eq chunks).2]
  by_cases hnil : (Utf8.stream chunks.flatten).2 = []
  . exact .inl hnil
  . exact .inr (Utf8.head_short (Utf8.head_stream chunks.flatten) hnil)

/--
The chunks do not matter: the outputs and the replaced carry are the decoding of the whole. The carry is always the front of a
character, and every byte is decoded by one chunk at most.
-/
theorem chunked (chunks : List (List UInt8))
    : (decodeAll chunks).1.flatten ++ lossy (decodeAll chunks).2 = lossy chunks.flatten ∧
        (∀ before, before <+: chunks → Held (decodeAll before).2) ∧
        ∃ parts, parts.flatten ++ (decodeAll chunks).2 = chunks.flatten ∧
          List.Forall₂ (fun out part => out = lossy part) (decodeAll chunks).1 parts := by
  refine ⟨?_, fun before _ => decodeAll_held before, decodeAll_parts chunks⟩
  rw [(decodeAll_eq chunks).1, (decodeAll_eq chunks).2, ← Utf8.lossy_eq]

section Feed

variable {Vt Line : Type} {feedStr : Vt → Text → Vt × List Line}

-- The emulator takes one character after another.
def Sequential (feedStr : Vt → Text → Vt × List Line) : Prop :=
  ∀ vt, feedStr vt [] = (vt, []) ∧
    ∀ text next, feedStr vt (text ++ next) =
      ((feedStr (feedStr vt text).1 next).1, (feedStr vt text).2 ++ (feedStr (feedStr vt text).1 next).2)

theorem feed_eq (h : Sequential feedStr) (ansi : Line → Text) (s : Vt × List UInt8 × List Text) (bytes : List UInt8)
    : feed feedStr ansi s bytes =
        ((feedStr s.1 (decode s.2.1 bytes).1).1, (decode s.2.1 bytes).2,
          s.2.2 ++ (feedStr s.1 (decode s.2.1 bytes).1).2.map ansi) := by
  unfold feed
  dsimp only
  split
  next hnil => rw [hnil, (h s.1).1, List.map_nil, List.append_nil]
  next => rfl

theorem feed_chunks (h : Sequential feedStr) (ansi : Line → Text) (vt : Vt) (chunks : List (List UInt8))
    : chunks.foldl (feed feedStr ansi) (vt, [], []) =
        ((feedStr vt (Utf8.stream chunks.flatten).1).1, (Utf8.stream chunks.flatten).2,
          (feedStr vt (Utf8.stream chunks.flatten).1).2.map ansi) := by
  induction chunks using List.reverseRecOn with
  | nil =>
    rw [List.flatten_nil, Utf8.stream_short rfl, (h vt).1]
    rfl
  | append_singleton chunks chunk ih =>
    rw [List.foldl_append, ih, List.foldl_cons, List.foldl_nil, feed_eq h, List.flatten_append, List.flatten_singleton,
      Utf8.stream_append, decode_eq, (h vt).2, List.map_append]

end Feed

end Decode
end Console
end Ui
