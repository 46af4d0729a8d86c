import Ztest.Engine.Record.Impl
import Mathlib.Data.List.Induction

namespace Engine
namespace Record

/--
What the store relies on, for the payloads it is given: the hash tells them apart, decoding undoes
encoding, and a blob cut short yields an error or less, never the whole payload.
-/
structure Codec.Lawful (codec : Codec) (payloads : List Bytes) : Prop where
  hash_inj : ∀ p ∈ payloads, ∀ q ∈ payloads, codec.hash p = codec.hash q → p = q
  decode_encode : ∀ p ∈ payloads, codec.decode (codec.encode p) = some p
  decode_take : ∀ p ∈ payloads, p ≠ [] → ∀ n < (codec.encode p).length,
    codec.decode ((codec.encode p).take n) ≠ some p

theorem suffix_eq_of_append {a b : String} {k k' : BlobKind}
    (h : a ++ "-" ++ k.suffix = b ++ "-" ++ k'.suffix)
    : k = k' := by
  have hlast := congrArg (fun s => s.toList.getLast?) h
  cases k <;> cases k' <;> simp [BlobKind.suffix] at hlast ⊢

theorem Codec.blobName_inj {codec : Codec} {p q : Bytes} {k k' : BlobKind}
    (h : codec.blobName p k = codec.blobName q k')
    : codec.hash p = codec.hash q ∧ k = k' := by
  unfold blobName at h
  have hk := suffix_eq_of_append h
  subst hk
  simp only [String.append_left_inj] at h
  exact ⟨h, rfl⟩

section Truncate

variable {data : Bytes} {max : Nat}

def noticeBytes (omitted : Nat) : Bytes := (truncationNotice omitted).toUTF8.data.toList

theorem noticeBytes_ne_nil (omitted : Nat) : noticeBytes omitted ≠ [] := by
  intro hnil
  simp only [noticeBytes, truncationNotice, toString, String.toUTF8_eq_toByteArray,
    String.toByteArray_append, ByteArray.data_append, Array.toList_append, List.append_eq_nil_iff] at hnil
  cases hnil.1.1

theorem truncate_of_le (h : max = 0 ∨ data.length ≤ max) : truncate data max = (data, none) := by
  unfold truncate
  rw [if_pos]
  simpa using h

theorem truncate_of_lt (hpos : 0 < max) (hlt : max < data.length)
    : ∃ head tail, head <+: data ∧ tail <:+ data ∧
        head.length + tail.length = max - (noticeBytes (data.length - max)).length ∧
        truncate data max = (head ++ noticeBytes (data.length - max) ++ tail, some data.length) := by
  have hcut : ¬ (max = 0 || decide (data.length ≤ max)) = true := by
    simp only [Bool.or_eq_true, decide_eq_true_eq]
    omega
  refine ⟨_, _, List.take_prefix _ _, List.drop_suffix _ _, ?_, if_neg hcut⟩
  rw [List.length_take, List.length_drop, noticeBytes]
  omega

theorem truncate_ne_nil (max : Nat) (h : data ≠ []) : (truncate data max).1 ≠ [] := by
  by_cases hwhole : max = 0 ∨ data.length ≤ max
  . rw [truncate_of_le hwhole]
    exact h
  . rw [not_or, Nat.not_le] at hwhole
    rcases truncate_of_lt (Nat.pos_of_ne_zero hwhole.1) hwhole.2 with ⟨head, tail, _, _, _, heq⟩
    rw [heq]
    simp [noticeBytes_ne_nil]

/--
The cap is kept as long as the notice itself fits.
-/
theorem truncate_length_of_lt (hpos : 0 < max) (hlt : max < data.length)
    : (truncate data max).1.length = Max.max max (noticeBytes (data.length - max)).length := by
  rcases truncate_of_lt hpos hlt with ⟨head, tail, _, _, hkeep, heq⟩
  rw [heq, List.length_append, List.length_append]
  omega

/--
What truncation promises: at most `max` bytes, and where it cuts, a head and a tail of the data around
a notice that counts the bytes left out.
-/
structure Truthful (data : Bytes) (max : Nat) : Prop where
  capped : (truncate data max).1.length ≤ max
  cut : ∀ size, (truncate data max).2 = some size →
    size = data.length ∧
      ∃ head tail, head <+: data ∧ tail <:+ data ∧ head.length + tail.length ≤ data.length ∧
        (truncate data max).1 = head ++ noticeBytes (data.length - max) ++ tail ∧
        data.length - max = data.length - (head.length + tail.length)

theorem not_truthful_of_lt (hpos : 0 < max) (hlt : max < data.length) : ¬ Truthful data max := by
  intro h
  have hlength := truncate_length_of_lt hpos hlt
  have hnotice := List.length_pos_iff.mpr (noticeBytes_ne_nil (data.length - max))
  rcases truncate_of_lt hpos hlt with ⟨_, _, _, _, _, heq⟩
  rcases h.cut data.length (by rw [heq]) with ⟨_, head, tail, _, _, hdisjoint, hpayload, hcount⟩
  have hcapped := h.capped
  rw [hpayload, List.length_append, List.length_append] at hcapped
  omega

theorem truncate_truthful_iff (data : Bytes) (max : Nat) (hpos : 0 < max)
    : Truthful data max ↔ data.length ≤ max := by
  constructor
  . intro h
    apply Nat.le_of_not_lt
    intro hlt
    exact not_truthful_of_lt hpos hlt h
  . intro hle
    have hwhole := truncate_of_le (.inr hle)
    constructor
    . rw [hwhole]
      exact hle
    . rw [hwhole]
      intro size hsize
      cases hsize

theorem truncate_truthful_of_short : Truthful (List.replicate 10 0) 10 :=
  (truncate_truthful_iff (List.replicate 10 0) 10 (by decide)).mpr (by decide)

/--
Of a hundred bytes twelve are kept, and the notice counts fifty.
-/
theorem truncate_miscounts
    : truncate (List.replicate 100 0) 50 =
        (List.replicate 6 0 ++ noticeBytes 50 ++ List.replicate 6 0, some 100) ∧
      ¬ Truthful (List.replicate 100 0) 50 := by
  refine ⟨?_, not_truthful_of_lt (by decide) (by decide)⟩
  decide +kernel

end Truncate

namespace Put

def name? (c : Put) (codec : Codec) : Option String :=
  c.blob.map fun b => codec.blobName b.1 b.2

-- What the call leaves under the name, should it be the one that writes the blob.
def left (c : Put) (codec : Codec) : Option Bytes :=
  match c.fault with
  | some .encode => none
  | some .create => none
  | some (.write written) => some ((codec.encode c.payload).take written)
  | none => some (codec.encode c.payload)

theorem left_of_not_strikes {c : Put} {codec : Codec} (h : ¬c.strikes codec)
    : c.left codec = some (codec.encode c.payload) := by
  unfold strikes at h
  unfold left
  split
  . simp_all
  . simp_all
  . next written hf =>
    rw [hf] at h
    rw [List.take_of_length_le (by simpa using h)]
  . rfl

theorem blob_eq_some {c : Put} {b : Bytes × BlobKind} (h : c.blob = some b)
    : c.data ≠ [] ∧ b = (c.payload, c.kind) := by
  unfold blob at h
  split at h
  . cases h
  . next hne =>
    cases h
    exact ⟨hne, rfl⟩

theorem name?_eq_some {c : Put} {codec : Codec} {name : String} (h : c.name? codec = some name)
    : c.data ≠ [] ∧ name = codec.blobName c.payload c.kind := by
  unfold name? blob at h
  split at h
  . cases h
  . next hne =>
    cases h
    exact ⟨hne, rfl⟩

theorem name?_of_data_ne {c : Put} (codec : Codec) (h : c.data ≠ [])
    : c.name? codec = some (codec.blobName c.payload c.kind) := by
  simp [name?, blob, h]

end Put

namespace OutputStore

variable {codec : Codec} {s : OutputStore}

@[simp]
theorem seen_write (name : String) (payload : Bytes) (fault : Option Fault)
    : (s.write codec name payload fault).1.seen = s.seen := by
  unfold write
  split <;> (try split) <;> rfl

theorem lookup_write_of_ne {name name' : String} (h : name' ≠ name) (payload : Bytes)
    (fault : Option Fault)
    : (s.write codec name payload fault).1.files.lookup name' = s.files.lookup name' := by
  unfold write
  split <;> (try split) <;> simp [AList.lookup_insert_ne h]

/--
One call: a blob that was seen stays as it is, a new one is seen from now on and holds what the call
leaves, the reference goes out unless the call is a new one that fails.
-/
theorem run_cases (c : Put) (codec : Codec) (s : OutputStore)
    : (c.data = [] ∧ c.run codec s = (s, .ok .empty))
      ∨ (∃ name, c.name? codec = some name ∧ name ∈ s.seen
          ∧ c.run codec s = (s, .ok (refOf name (truncate c.data c.maxOutput).2)))
      ∨ (∃ name, c.name? codec = some name ∧ name ∉ s.seen
          ∧ (c.run codec s).1 = ({ s with seen := name :: s.seen }.write codec name c.payload c.fault).1
          ∧ ((c.strikes codec ∧ ∃ e, (c.run codec s).2 = .error e)
            ∨ (¬c.strikes codec
              ∧ (c.run codec s).2 = .ok (refOf name (truncate c.data c.maxOutput).2)))) := by
  by_cases hdata : c.data = []
  . left
    refine ⟨hdata, ?_⟩
    simp [Put.run, put, hdata]
  . right
    have hname := Put.name?_of_data_ne codec hdata
    by_cases hseen : codec.blobName c.payload c.kind ∈ s.seen
    . left
      refine ⟨_, hname, hseen, ?_⟩
      unfold Put.payload at hseen
      simp [Put.run, put, hdata, hseen, Put.payload]
    . right
      refine ⟨_, hname, hseen, ?_⟩
      unfold Put.payload at hseen
      simp only [Put.run, put, if_neg hdata, if_neg hseen, Put.strikes, Put.payload]
      cases hf : c.fault with
      | none => simp [write]
      | some f =>
        cases f with
        | encode => simp [write]
        | create => simp [write]
        | write n =>
          by_cases hn : n < (codec.encode (truncate c.data c.maxOutput).1).length
          . simp [write, hn]
          . simp [write, hn]

theorem lookup_write_self (c : Put) {name : String} (h : s.files.lookup name = none)
    : (s.write codec name c.payload c.fault).1.files.lookup name = c.left codec := by
  unfold Put.left
  cases c.fault with
  | none => simp [write]
  | some fault =>
    cases fault with
    | encode => simp [write, h]
    | create => simp [write, h]
    | write written =>
      by_cases hn : written < (codec.encode c.payload).length
      . simp [write, hn]
      . simp [write, hn, List.take_of_length_le (Nat.le_of_not_lt hn)]

@[simp]
theorem puts_nil (codec : Codec) (s : OutputStore) : s.puts codec [] = s := rfl

theorem puts_append (codec : Codec) (s : OutputStore) (calls calls' : List Put)
    : s.puts codec (calls ++ calls') = (s.puts codec calls).puts codec calls' := by
  simp [puts]

def firstNamed (codec : Codec) (name : String) (calls : List Put) : Option Put :=
  calls.find? fun c => c.name? codec = some name

theorem firstNamed_concat (codec : Codec) (name : String) (calls : List Put) (c : Put)
    : firstNamed codec name (calls ++ [c])
      = (firstNamed codec name calls).or (if c.name? codec = some name then some c else none) := by
  simp only [firstNamed, List.find?_append, List.find?_singleton, decide_eq_true_eq]

theorem firstNamed_eq_some {name : String} {calls : List Put} {c : Put}
    (h : firstNamed codec name calls = some c)
    : c ∈ calls ∧ c.name? codec = some name := by
  refine ⟨List.mem_of_find?_eq_some h, ?_⟩
  have := List.find?_some h
  simpa using this

/--
What a sequence of calls leaves behind: exactly the names some call asked for are seen, and the file
under a name is the one its first call left.
-/
theorem puts_spec (codec : Codec) (calls : List Put) (name : String)
    : (name ∈ (create.puts codec calls).seen ↔ (firstNamed codec name calls).isSome)
      ∧ (create.puts codec calls).files.lookup name
          = (firstNamed codec name calls).bind (·.left codec) := by
  induction calls using List.reverseRecOn generalizing name with
  | nil => simp [create, firstNamed]
  | append_singleton calls c ih =>
    rw [puts_append, firstNamed_concat]
    change (name ∈ (c.run codec _).1.seen ↔ _) ∧ (c.run codec _).1.files.lookup name = _
    have hkept := ih name
    rcases run_cases c codec (create.puts codec calls) with
      ⟨hdata, hrun⟩ | ⟨n, hn, hseen, hrun⟩ | ⟨n, hn, hseen, hrun, -⟩
    . -- Nothing to store.
      have hnone : c.name? codec = none := by simp [Put.name?, Put.blob, hdata]
      simpa [hrun, hnone] using hkept
    . -- The name was seen, so an earlier call is the first one.
      rw [hrun]
      by_cases heq : n = name
      . subst heq
        obtain ⟨c₀, hc₀⟩ := Option.isSome_iff_exists.mp ((ih n).1.mp hseen)
        simpa [hc₀] using hkept
      . have hne : c.name? codec ≠ some name := by simp [hn, heq]
        simpa [hne] using hkept
    . rw [hrun]
      have hnone : firstNamed codec n calls = none := by
        rw [← Option.not_isSome_iff_eq_none]
        exact fun h => hseen ((ih n).1.mpr h)
      by_cases heq : n = name
      . subst heq
        have hfile : (create.puts codec calls).files.lookup n = none := by
          rw [(ih n).2, hnone]
          rfl
        constructor
        . simp [hn]
        . rw [hnone, if_pos hn]
          exact lookup_write_self c hfile
      . have hne : c.name? codec ≠ some name := by simp [hn, heq]
        rw [lookup_write_of_ne (Ne.symm heq)]
        simp only [seen_write, List.mem_cons, Ne.symm heq, false_or, hne, if_false, Option.or_none]
        exact hkept

theorem firstNamed_append_of_some {name : String} {calls : List Put} {c : Put}
    (h : firstNamed codec name calls = some c) (rest : List Put)
    : firstNamed codec name (calls ++ rest) = some c := by
  unfold firstNamed at h ⊢
  rw [List.find?_append, h]
  rfl

theorem firstNamed_append_of_none {name : String} {calls : List Put} {c : Put}
    (h : firstNamed codec name calls = none) (hc : c.name? codec = some name) (rest : List Put)
    : firstNamed codec name (calls ++ c :: rest) = some c := by
  unfold firstNamed at h ⊢
  rw [List.find?_append, h]
  simp [hc]

theorem firstNamed_split {name : String} {calls : List Put} {c : Put}
    (h : firstNamed codec name calls = some c)
    : ∃ pre post, calls = pre ++ c :: post ∧ ∀ b ∈ pre, b.name? codec ≠ some name := by
  obtain ⟨-, pre, post, rfl, hpre⟩ := List.find?_eq_some_iff_append.mp h
  exact ⟨pre, post, rfl, by simpa using hpre⟩

@[simp]
theorem get_refOf (s : OutputStore) (codec : Codec) (name : String) (originalSize : Option Nat)
    : s.get codec (refOf name originalSize) = s.read codec name := by
  cases originalSize <;> rfl

theorem read_of_not_strikes {name : String} {calls : List Put} {c : Put}
    (hdecode : codec.decode (codec.encode c.payload) = some c.payload)
    (hfirst : firstNamed codec name calls = some c) (h : ¬c.strikes codec)
    : (create.puts codec calls).read codec name = some c.payload := by
  have hfile : (create.puts codec calls).files.lookup name = some (codec.encode c.payload) := by
    rw [(puts_spec codec calls name).2, hfirst]
    exact Put.left_of_not_strikes h
  unfold read
  rw [hfile]
  exact hdecode

theorem read_ne_of_strikes {name : String} {calls : List Put} {c : Put}
    (hdecode : c.payload ≠ [] → ∀ n < (codec.encode c.payload).length,
      codec.decode ((codec.encode c.payload).take n) ≠ some c.payload)
    (hfirst : firstNamed codec name calls = some c) (h : c.strikes codec)
    : (create.puts codec calls).read codec name ≠ some c.payload := by
  have hfile : (create.puts codec calls).files.lookup name = c.left codec := by
    rw [(puts_spec codec calls name).2, hfirst]
    rfl
  have hne : c.payload ≠ [] :=
    truncate_ne_nil c.maxOutput (Put.name?_eq_some (firstNamed_eq_some hfirst).2).1
  unfold read
  rw [hfile]
  unfold Put.strikes at h
  unfold Put.left
  match hf : c.fault with
  | none => simp [hf] at h
  | some .encode => simpa using Ne.symm hne
  | some .create => simpa using Ne.symm hne
  | some (.write written) =>
    rw [hf] at h
    exact hdecode hne written h

end OutputStore

open OutputStore

/--
Every reference a call of the sequence returned reads back as the payload of that call, from then on.
-/
def Resolves (codec : Codec) (calls : List Put) : Prop :=
  ∀ pre c mid, pre ++ c :: mid <+: calls →
    ∀ ref, (c.run codec (create.puts codec pre)).2 = .ok ref → ref ≠ .empty →
      (create.puts codec (pre ++ c :: mid)).get codec ref = some c.payload

/--
The first call for a blob does not fail, or it stays the only call for that blob.
-/
def NoFailedFirst (codec : Codec) (calls : List Put) : Prop :=
  ∀ pre c mid c', pre ++ c :: mid ++ [c'] <+: calls → c.blob ≠ none → c'.blob = c.blob →
    (∀ b ∈ pre, b.blob ≠ c.blob) → ¬c.strikes codec

theorem blob_eq_of_name?_eq {codec : Codec} {calls : List Put} {c c' : Put} {name : String}
    (hcodec : codec.Lawful (calls.map Put.payload)) (hc : c ∈ calls) (hc' : c' ∈ calls)
    (h : c.name? codec = some name) (h' : c'.name? codec = some name)
    : c.blob = c'.blob := by
  obtain ⟨hdata, rfl⟩ := Put.name?_eq_some h
  obtain ⟨hdata', heq⟩ := Put.name?_eq_some h'
  obtain ⟨hhash, hkind⟩ := Codec.blobName_inj heq
  have hpayload := hcodec.hash_inj _ (List.mem_map_of_mem hc) _ (List.mem_map_of_mem hc') hhash
  simp [Put.blob, hdata, hdata', hpayload, hkind]

theorem payload_eq_of_blob_eq {c c' : Put} (hdata : c.data ≠ []) (h : c.blob = c'.blob)
    : c.payload = c'.payload := by
  have hc : c.blob = some (c.payload, c.kind) := by simp [Put.blob, hdata]
  rw [hc] at h
  exact (Prod.mk.inj (Put.blob_eq_some h.symm).2).1

theorem resolves_of_noFailedFirst {codec : Codec} {calls : List Put}
    (hcodec : codec.Lawful (calls.map Put.payload)) (h : NoFailedFirst codec calls)
    : Resolves codec calls := by
  intro pre c mid hpre ref hok hne
  have hmem : ∀ b ∈ pre ++ c :: mid, b ∈ calls := fun b hb => hpre.subset hb
  rcases run_cases c codec (create.puts codec pre) with
    ⟨-, hrun⟩ | ⟨name, hname, hseen, hrun⟩ | ⟨name, hname, hseen, -, ⟨-, e, he⟩ | ⟨hstrikes, hrun⟩⟩
  . rw [hrun] at hok
    cases hok
    exact absurd rfl hne
  . -- The blob was seen: the call that wrote it is an earlier one.
    rw [hrun] at hok
    cases hok
    obtain ⟨c₀, hc₀⟩ := Option.isSome_iff_exists.mp ((puts_spec codec pre name).1.mp hseen)
    obtain ⟨hc₀mem, hc₀name⟩ := firstNamed_eq_some hc₀
    obtain ⟨p, q, rfl, hp⟩ := firstNamed_split hc₀
    have hblob : c.blob = c₀.blob :=
      blob_eq_of_name?_eq hcodec (hmem c (by simp)) (hmem c₀ (by simp)) hname hc₀name
    have hdata := (Put.name?_eq_some hname).1
    have hstrikes : ¬c₀.strikes codec := by
      apply h p c₀ q c _ _ hblob
      . intro b hb heq
        apply hp b hb
        unfold Put.name? at hc₀name ⊢
        rw [heq]
        exact hc₀name
      . exact (List.prefix_append (p ++ c₀ :: q ++ [c]) mid).trans (by simpa using hpre)
      . simp [Put.blob, (Put.name?_eq_some hc₀name).1]
    rw [get_refOf, payload_eq_of_blob_eq hdata hblob]
    apply read_of_not_strikes _ (firstNamed_append_of_some hc₀ _) hstrikes
    exact hcodec.decode_encode _ (List.mem_map_of_mem (hmem c₀ (by simp)))
  . rw [he] at hok
    cases hok
  . rw [hrun] at hok
    cases hok
    have hnone : firstNamed codec name pre = none := by
      rw [← Option.not_isSome_iff_eq_none]
      exact fun hsome => hseen ((puts_spec codec pre name).1.mpr hsome)
    rw [get_refOf]
    apply read_of_not_strikes _ (firstNamed_append_of_none hnone hname mid) hstrikes
    exact hcodec.decode_encode _ (List.mem_map_of_mem (hmem c (by simp)))

theorem noFailedFirst_of_resolves {codec : Codec} {calls : List Put}
    (hcodec : codec.Lawful (calls.map Put.payload)) (h : Resolves codec calls)
    : NoFailedFirst codec calls := by
  intro pre c mid c' hpre hsome hblob hfirst hstrikes
  have hmem : ∀ b ∈ pre ++ c :: mid ++ [c'], b ∈ calls := fun b hb => hpre.subset hb
  have hdata : c.data ≠ [] := by
    intro hnil
    apply hsome
    simp [Put.blob, hnil]
  have hname := Put.name?_of_data_ne codec hdata
  have hname' : c'.name? codec = some (codec.blobName c.payload c.kind) := by
    unfold Put.name? at hname ⊢
    rw [hblob]
    exact hname
  have hnone : firstNamed codec (codec.blobName c.payload c.kind) pre = none := by
    unfold firstNamed
    simp only [List.find?_eq_none, decide_eq_true_eq]
    intro b hb heq
    exact hfirst b hb (blob_eq_of_name?_eq hcodec (hmem b (by simp [hb])) (hmem c (by simp)) heq hname)
  have hc := firstNamed_append_of_none hnone hname mid
  have hc' := firstNamed_append_of_some hc [c']
  -- The failed call is the first one, so the later call hands out its reference unwritten.
  have hseen := (puts_spec codec (pre ++ c :: mid) _).1.mpr (Option.isSome_iff_exists.mpr ⟨c, hc⟩)
  rcases run_cases c' codec (create.puts codec (pre ++ c :: mid)) with
    ⟨hnil, -⟩ | ⟨name, hn, -, hrun⟩ | ⟨name, hn, hunseen, -⟩
  . simp [Put.name?, Put.blob, hnil] at hname'
  . rw [hname'] at hn
    cases hn
    have hget := h (pre ++ c :: mid) c' [] hpre _ (congrArg Prod.snd hrun) (by
      unfold refOf
      split <;> simp)
    rw [get_refOf, ← payload_eq_of_blob_eq hdata hblob.symm] at hget
    have hpayload : c.payload ∈ calls.map Put.payload := List.mem_map_of_mem (hmem c (by simp))
    exact read_ne_of_strikes (hcodec.decode_take _ hpayload) hc' hstrikes hget
  . rw [hname'] at hn
    cases hn
    exact hunseen hseen

/--
The references of a sequence of calls resolve exactly if no first call for a blob fails with another
call for the same blob to follow.
-/
theorem resolves_iff (codec : Codec) (calls : List Put)
    (hcodec : codec.Lawful (calls.map Put.payload))
    : Resolves codec calls ↔ NoFailedFirst codec calls := by
  constructor
  . exact noFailedFirst_of_resolves hcodec
  . exact resolves_of_noFailedFirst hcodec

def boom : Bytes := [98, 111, 111, 109, 10]

def ok : Bytes := [111, 107, 10]

def garbled : Bytes := [0xFF]

-- The hashes of the three outputs, and frames of one raw block, which is how such short outputs are
-- compressed.
def rawFrame : Codec where
  hash p :=
    if p = boom then
      "582266c68e07d1712759e167c9d3a419"
    else if p = ok then
      "b576bf327e110a373629f7f0c0ae4aa9"
    else if p = garbled then
      "99d44d377bc5936d8cb7f5df90713d84"
    else
      ""
  encode p := [0x28, 0xB5, 0x2F, 0xFD, 0x00, 0x58, .ofNat (8 * p.length + 1), 0, 0] ++ p
  decode
    | [] => some []
    | file =>
      if file.take 6 = [0x28, 0xB5, 0x2F, 0xFD, 0x00, 0x58]
          && (file.drop 6).head? = some (.ofNat (8 * (file.length - 9) + 1)) then
        some (file.drop 9)
      else
        none

-- A failing test, retried with the same output, while the component log of the first attempt hits a
-- full disk.
def retried : List Put :=
  [⟨boom, .combined, 4194304, none⟩, ⟨ok, .components, 0, some (.write 4)⟩,
    ⟨boom, .combined, 4194304, none⟩]

theorem retried_resolves : Resolves rawFrame retried := by
  have hcodec : rawFrame.Lawful (retried.map Put.payload) := by
    constructor <;> decide
  rw [resolves_iff rawFrame retried hcodec]
  intro pre c mid c' hpre _ hblob _ hstrikes
  have hc : c ∈ retried := hpre.subset (by simp)
  have hc' : c' ∈ retried := hpre.subset (by simp)
  have htwice := hpre.sublist.count_le ⟨ok, .components, 0, some (.write 4)⟩
  simp only [retried, List.mem_cons, List.not_mem_nil, or_false] at hc hc'
  rcases hc with rfl | rfl | rfl
  . exact hstrikes
  . rcases hc' with rfl | rfl | rfl
    . exact absurd hblob (by decide)
    . simp [retried] at htwice
      omega
    . exact absurd hblob (by decide)
  . exact hstrikes

-- The disk is full at the first attempt only.
def lost : List Put :=
  [⟨boom, .combined, 4194304, some (.write 4)⟩, ⟨boom, .combined, 4194304, none⟩]

theorem lost_not_resolves : ¬Resolves rawFrame lost := by
  intro h
  have hget := h [⟨boom, .combined, 4194304, some (.write 4)⟩] ⟨boom, .combined, 4194304, none⟩ []
    (List.prefix_refl _) (.full "582266c68e07d1712759e167c9d3a419-combined") (by decide) (by decide)
  revert hget
  decide

end Record
end Engine
