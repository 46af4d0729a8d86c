import Ztest.Lib.Frame
import Ztest.Loadtest.Proto

/-!
This module contains the framing of gRPC messages and the `Deframer` of `wire.rs`, which takes them out of
DATA frames. It yields the same messages however the frames cut the stream.
-/

namespace Loadtest

def framePrefix : Nat := 5

def framed (request : Bytes) : Bytes := 0 :: Frame.beBytes 4 (request.length % 2 ^ 32) ++ request

inductive DeframeError where
  -- `Status::internal`
  | internal (message : String)
  -- `want - self.partial.len()` below zero.
  | underflow
  -- A loop that takes more turns than there are bytes.
  | spinning
  deriving DecidableEq

def prefixedLen : Bytes → Except DeframeError (Option Nat)
  | flag :: a :: b :: c :: d :: _ =>
    if flag ≠ 0 then .error (.internal "compressed message (none negotiated)")
    else .ok (some (Frame.ofBeBytes [a, b, c, d]))
  | _ => .ok none

structure Deframer where
  pending : Bytes := []
  partialBytes : Bytes := []
  deriving DecidableEq

namespace Deframer

def push (d : Deframer) (frame : Bytes) : Deframer := { d with pending := frame }

def midMessage (d : Deframer) : Bool := !d.partialBytes.isEmpty || !d.pending.isEmpty

-- The loop of `next` for a message that spans frames.
def fill : Nat → Deframer → Except DeframeError (Option Bytes × Deframer)
  | 0, _ => .error .spinning
  | turns + 1, d =>
    match prefixedLen d.partialBytes with
    | .error e => .error e
    | .ok len =>
      let want := len.elim framePrefix (framePrefix + ·)
      if framePrefix ≤ d.partialBytes.length ∧ d.partialBytes.length = want then
        .ok (some (d.partialBytes.drop framePrefix), { d with partialBytes := [] })
      else if d.pending = [] then
        .ok (none, d)
      else if want < d.partialBytes.length then
        .error .underflow
      else
        let take := min (want - d.partialBytes.length) d.pending.length
        fill turns ⟨d.pending.drop take, d.partialBytes ++ d.pending.take take⟩

def next (d : Deframer) : Except DeframeError (Option Bytes × Deframer) :=
  let spanning := d.fill (d.pending.length + 1)
  if d.partialBytes = [] then
    match prefixedLen d.pending with
    | .error e => .error e
    | .ok none => spanning
    | .ok (some len) =>
      if framePrefix + len ≤ d.pending.length then
        let message := d.pending.take (framePrefix + len)
        .ok (some (message.drop framePrefix), { d with pending := d.pending.drop (framePrefix + len) })
      else
        spanning
  else
    spanning

-- `next` until `None`, none of the calls fails.
inductive Drains : Deframer → List Bytes → Deframer → Prop where
  | done {d d' : Deframer} : d.next = .ok (none, d') → Drains d [] d'
  | more {d d' d'' : Deframer} {message : Bytes} {messages : List Bytes} :
    d.next = .ok (some message, d') → Drains d' messages d'' → Drains d (message :: messages) d''

-- Every frame is pushed once the one before it is read, and drained.
inductive Feeds : Deframer → List Bytes → List Bytes → Deframer → Prop where
  | nil {d : Deframer} : Feeds d [] [] d
  | cons {d d' d'' : Deframer} {frame : Bytes} {frames messages later : List Bytes} :
    d.pending = [] → Drains (d.push frame) messages d' → Feeds d' frames later d''
    → Feeds d (frame :: frames) (messages ++ later) d''

end Deframer

-- The messages that the length of a prefix can announce.
structure Message where
  body : Bytes
  short : body.length < 2 ^ 32

def Message.framed (m : Message) : Bytes := Loadtest.framed m.body

def wire (messages : List Message) : Bytes := messages.flatMap Message.framed

theorem wire_cons (m : Message) (messages : List Message) : wire (m :: messages) = m.framed ++ wire messages :=
  List.flatMap_cons

theorem wire_append (before after : List Message) : wire (before ++ after) = wire before ++ wire after :=
  List.flatMap_append

section Prefix

variable {m : Message} {rest : Bytes}

theorem Message.length_framed (m : Message) : m.framed.length = framePrefix + m.body.length := by
  simp only [framed, Loadtest.framed, Frame.beBytes, List.cons_append, List.length_cons, List.length_append,
    List.length_reverse, Frame.length_leBytes, framePrefix]
  omega

theorem Message.length_framed_pos (m : Message) : 0 < m.framed.length := by
  rw [m.length_framed]
  exact Nat.add_pos_left (by decide) _

theorem Message.drop_framed (m : Message) : m.framed.drop framePrefix = m.body := rfl

theorem prefixedLen_eq {bytes : Bytes} (h : bytes <+: m.framed ++ rest)
    : prefixedLen bytes = .ok (if framePrefix ≤ bytes.length then some m.body.length else none) := by
  have hlen : Frame.ofBeBytes (Frame.beBytes 4 (m.body.length % 2 ^ 32)) = m.body.length := by
    rw [Nat.mod_eq_of_lt m.short]
    exact Frame.ofBeBytes_beBytes (Nat.lt_of_lt_of_le m.short (by decide))
  have hframed : ∃ a b c d, m.framed = 0 :: a :: b :: c :: d :: m.body
      ∧ Frame.beBytes 4 (m.body.length % 2 ^ 32) = [a, b, c, d] := ⟨_, _, _, _, rfl, rfl⟩
  rcases hframed with ⟨a, b, c, d, hframed, hbytes⟩
  rw [hbytes] at hlen
  rw [hframed] at h
  rcases bytes with _ | ⟨x₀, _ | ⟨x₁, _ | ⟨x₂, _ | ⟨x₃, _ | ⟨x₄, bytes⟩⟩⟩⟩⟩
  . rfl
  . rfl
  . rfl
  . rfl
  . rfl
  . simp only [List.cons_append, List.cons_prefix_cons] at h
    rcases h with ⟨rfl, rfl, rfl, rfl, rfl, _⟩
    simp [prefixedLen, hlen, framePrefix]

end Prefix

namespace Deframer

variable {m : Message} {rest : Bytes}

-- What `next` answers where the stream goes on with `m`: the message once it is whole.
def answer (m : Message) (bytes : Bytes) : Option Bytes × Deframer :=
  if m.framed.length ≤ bytes.length then (some m.body, ⟨bytes.drop m.framed.length, []⟩)
  else (none, ⟨[], bytes⟩)

theorem fill_spec {turns : Nat} {d : Deframer} (hturns : d.pending.length < turns)
    (hheld : d.partialBytes <+: m.framed) (hstream : d.partialBytes ++ d.pending <+: m.framed ++ rest)
    : d.fill turns = .ok (answer m (d.partialBytes ++ d.pending)) := by
  induction turns generalizing d with
  | zero => omega
  | succ turns ih =>
    have hlen := prefixedLen_eq (hheld.trans (List.prefix_append m.framed []))
    have htotal := m.length_framed
    have hle := hheld.length_le
    unfold fill
    rw [hlen]
    dsimp only
    by_cases hwhole : d.partialBytes.length = m.framed.length
    . have hready : framePrefix ≤ d.partialBytes.length := by omega
      have htake : m.framed.length ≤ (d.partialBytes ++ d.pending).length := by
        rw [List.length_append]
        omega
      rw [if_pos hready, Option.elim_some, if_pos ⟨hready, hwhole.trans htotal⟩, answer, if_pos htake,
        hheld.eq_of_length hwhole, m.drop_framed, List.drop_left]
    . generalize hwant : Option.elim (if framePrefix ≤ d.partialBytes.length then some m.body.length else none)
        framePrefix (framePrefix + ·) = want
      have hbounds : d.partialBytes.length < want ∧ want ≤ m.framed.length := by
        split at hwant
        . rw [Option.elim_some] at hwant
          omega
        . rw [Option.elim_none] at hwant
          omega
      rw [if_neg (by omega)]
      by_cases hempty : d.pending = []
      . rw [if_pos hempty, answer, hempty, List.append_nil, if_neg (by omega), ← hempty]
      . have hpos := List.length_pos_iff.mpr hempty
        rw [if_neg hempty, if_neg (by omega)]
        -- A turn moves bytes from one side to the other and never past the end of the message.
        have hjoin : (d.partialBytes ++ d.pending.take (min (want - d.partialBytes.length) d.pending.length))
            ++ d.pending.drop (min (want - d.partialBytes.length) d.pending.length)
              = d.partialBytes ++ d.pending := by
          rw [List.append_assoc, List.take_append_drop]
        have hmoved : d.partialBytes
              ++ d.pending.take (min (want - d.partialBytes.length) d.pending.length) <+: m.framed := by
          apply List.prefix_of_prefix_length_le ?_ (List.prefix_append m.framed rest)
          . rw [List.length_append, List.length_take]
            omega
          . rw [← hjoin] at hstream
            exact (List.prefix_append _ _).trans hstream
        have hnext := ih (d := ⟨d.pending.drop (min (want - d.partialBytes.length) d.pending.length),
            d.partialBytes ++ d.pending.take (min (want - d.partialBytes.length) d.pending.length)⟩)
          (by rw [List.length_drop]; omega) hmoved (by rw [hjoin]; exact hstream)
        rw [hnext, hjoin]

theorem next_spec {d : Deframer} (hshort : d.partialBytes.length < m.framed.length)
    (hstream : d.partialBytes ++ d.pending <+: m.framed ++ rest)
    : d.next = .ok (answer m (d.partialBytes ++ d.pending)) := by
  have hheld : d.partialBytes <+: m.framed :=
    List.prefix_of_prefix_length_le ((List.prefix_append _ _).trans hstream) (List.prefix_append m.framed rest)
      (Nat.le_of_lt hshort)
  have hfill := fill_spec (Nat.lt_succ_self _) hheld hstream
  have htotal := m.length_framed
  unfold next
  split
  next hnone =>
    rw [hnone, List.nil_append] at hstream
    rw [prefixedLen_eq hstream]
    by_cases hready : framePrefix ≤ d.pending.length
    . rw [if_pos hready]
      dsimp only
      split
      next hfast =>
        rw [← htotal] at hfast ⊢
        have hmessage : m.framed <+: d.pending :=
          List.prefix_of_prefix_length_le (List.prefix_append m.framed rest) hstream hfast
        rw [answer, hnone, List.nil_append, if_pos hfast, ← List.prefix_iff_eq_take.mp hmessage,
          m.drop_framed]
      next => exact hfill
    . rw [if_neg hready]
      exact hfill
  next => exact hfill

theorem drains_spec {messages : List Message} {last : Message} {tail : Bytes} {d : Deframer}
    (hshort : ∀ m ∈ messages.head?, d.partialBytes.length < m.framed.length)
    (htail : tail <+: last.framed) (hcut : tail.length < last.framed.length)
    (hstream : d.partialBytes ++ d.pending = wire messages ++ tail)
    : Drains d (messages.map (·.body)) ⟨[], tail⟩ := by
  induction messages generalizing d with
  | nil =>
    have htaken : d.partialBytes ++ d.pending = tail := hstream
    have hle := congrArg List.length htaken
    rw [List.length_append] at hle
    have hnext := next_spec (m := last) (d := d) (by omega)
      (by rw [htaken]; exact htail.trans (List.prefix_append last.framed []))
    rw [answer, htaken, if_neg (by omega)] at hnext
    exact .done hnext
  | cons m messages ih =>
    have hwire : d.partialBytes ++ d.pending = m.framed ++ (wire messages ++ tail) := by
      rw [hstream, wire_cons, List.append_assoc]
    have hnext := next_spec (m := m) (d := d) (hshort m rfl) ⟨[], by rw [List.append_nil]; exact hwire⟩
    rw [answer, hwire, if_pos (by rw [List.length_append]; omega), List.drop_left] at hnext
    exact .more hnext (ih (fun m' _ => m'.length_framed_pos) rfl)

theorem feeds_spec {frames : List Bytes} {messages : List Message} {last : Message}
    {partialBytes tail : Bytes} (hshort : ∀ m ∈ messages.head?, partialBytes.length < m.framed.length)
    (htail : tail <+: last.framed) (hcut : tail.length < last.framed.length)
    (hstream : partialBytes ++ frames.flatten = wire messages ++ tail)
    : Feeds ⟨[], partialBytes⟩ frames (messages.map (·.body)) ⟨[], tail⟩ := by
  induction frames generalizing partialBytes messages with
  | nil =>
    rw [List.flatten_nil, List.append_nil] at hstream
    cases messages with
    | nil =>
      rw [hstream]
      exact .nil
    | cons m messages =>
      have hlt := hshort m rfl
      rw [hstream, wire_cons, List.length_append, List.length_append] at hlt
      omega
  | cons frame frames ih =>
    rw [List.flatten_cons, ← List.append_assoc] at hstream
    rcases Frame.flatMap_cut hstream with ⟨whole, left, t, rfl, htaken, hrest, hnext⟩
    have hlast : ∃ next : Message, t <+: next.framed ∧ t.length < next.framed.length := by
      cases left with
      | nil =>
        have ht : t <+: tail := ⟨frames.flatten, hrest⟩
        exact ⟨last, ht.trans htail, Nat.lt_of_le_of_lt ht.length_le hcut⟩
      | cons m left =>
        have hlt := hnext m rfl
        rw [List.flatMap_cons, List.append_assoc] at hrest
        exact ⟨m, List.prefix_of_prefix_length_le ⟨_, hrest⟩ ⟨_, rfl⟩ (Nat.le_of_lt hlt), hlt⟩
    rcases hlast with ⟨next, ht, htcut⟩
    have hhead : ∀ m ∈ whole.head?, partialBytes.length < m.framed.length := by
      intro m hm
      apply hshort m
      rw [List.head?_append, hm]
      rfl
    have hdrains : Drains (Deframer.push ⟨[], partialBytes⟩ frame) (whole.map (·.body)) ⟨[], t⟩ :=
      drains_spec hhead ht htcut htaken
    rw [List.map_append]
    exact .cons rfl hdrains (ih hnext hrest)

theorem Drains.unique {d d₁ d₂ : Deframer} {messages₁ messages₂ : List Bytes} (h₁ : Drains d messages₁ d₁)
    (h₂ : Drains d messages₂ d₂)
    : messages₁ = messages₂ ∧ d₁ = d₂ := by
  induction h₁ generalizing messages₂ with
  | done hnext₁ =>
    cases h₂ with
    | done hnext₂ =>
      rw [hnext₁] at hnext₂
      cases hnext₂
      exact ⟨rfl, rfl⟩
    | more hnext₂ =>
      rw [hnext₁] at hnext₂
      cases hnext₂
  | more hnext₁ _ ih =>
    cases h₂ with
    | done hnext₂ =>
      rw [hnext₁] at hnext₂
      cases hnext₂
    | more hnext₂ hrest₂ =>
      rw [hnext₁] at hnext₂
      cases hnext₂
      rcases ih hrest₂ with ⟨rfl, rfl⟩
      exact ⟨rfl, rfl⟩

theorem Feeds.unique {d d₁ d₂ : Deframer} {frames messages₁ messages₂ : List Bytes}
    (h₁ : Feeds d frames messages₁ d₁) (h₂ : Feeds d frames messages₂ d₂)
    : messages₁ = messages₂ ∧ d₁ = d₂ := by
  induction h₁ generalizing messages₂ with
  | nil =>
    cases h₂
    exact ⟨rfl, rfl⟩
  | cons _ hdrains₁ _ ih =>
    cases h₂ with
    | cons _ hdrains₂ hrest₂ =>
      rcases hdrains₁.unique hdrains₂ with ⟨rfl, rfl⟩
      rcases ih hrest₂ with ⟨rfl, rfl⟩
      exact ⟨rfl, rfl⟩

/--
Deframing undoes the framing however the frames cut the stream: all of it yields the messages and leaves
nothing over, and a stream that ends inside of a message yields the messages before it and says so.
-/
theorem deframes (messages : List Message) (frames : List Bytes)
    : (frames.flatten = wire messages
          → ∃ d, Feeds {} frames (messages.map (·.body)) d ∧ d.midMessage = false)
        ∧ ∀ (whole : List Message) (m : Message) (after : List Message) (cut : Nat),
            messages = whole ++ m :: after → (wire whole).length < cut → cut < (wire (whole ++ [m])).length
            → frames.flatten = (wire messages).take cut
            → ∃ d, Feeds {} frames (whole.map (·.body)) d ∧ d.midMessage = true := by
  constructor
  . intro hstream
    have hempty : ∀ m ∈ messages.head?, ([] : Bytes).length < m.framed.length :=
      fun m _ => m.length_framed_pos
    have hlast := (Message.mk [] (by decide)).length_framed_pos
    refine ⟨⟨[], []⟩, ?_, rfl⟩
    exact feeds_spec hempty List.nil_prefix hlast (by rw [List.append_nil]; exact hstream)
  . rintro whole m after cut rfl hbefore hinside hstream
    rw [wire_append, wire_cons, List.length_append, List.length_append] at hinside
    have hlt : cut - (wire whole).length < m.framed.length := by
      have hnil : (wire []).length = 0 := rfl
      omega
    have hwire : (wire (whole ++ m :: after)).take cut
        = wire whole ++ m.framed.take (cut - (wire whole).length) := by
      rw [wire_append, wire_cons, List.take_append, List.take_of_length_le (Nat.le_of_lt hbefore),
        List.take_append_of_le_length (Nat.le_of_lt hlt)]
    have hlength : (m.framed.take (cut - (wire whole).length)).length = cut - (wire whole).length := by
      rw [List.length_take]
      omega
    have hempty : ∀ m ∈ whole.head?, ([] : Bytes).length < m.framed.length :=
      fun m _ => m.length_framed_pos
    have hfeeds : Feeds {} frames (whole.map (·.body)) ⟨[], m.framed.take (cut - (wire whole).length)⟩ :=
      feeds_spec hempty (List.take_prefix _ m.framed) (by omega) (by rw [List.nil_append, hstream, hwire])
    have hne : m.framed.take (cut - (wire whole).length) ≠ [] := by
      apply List.ne_nil_of_length_pos
      omega
    refine ⟨_, hfeeds, ?_⟩
    unfold midMessage
    rw [Bool.or_eq_true_iff, Bool.not_eq_true', List.isEmpty_eq_false_iff]
    exact Or.inl hne

end Deframer
end Loadtest
