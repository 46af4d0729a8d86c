import Ztest.Pipeline.Dumps.Impl
import Ztest.Lib.Collect
import Ztest.Lib.Run

namespace Pipeline
namespace Dumps

open Planner (SelectedBinary SyncDumped SyncInventory)

def Plain (line : Text) : Prop := ¬beginMark <+: line ∧ ¬endMark <+: line

-- What a file may hold: distinct names that are one word each, and no output that could be taken for a frame.
structure Exportable (suites : List Suite) : Prop where
  nodup : (suites.map Suite.name).Nodup
  name : ∀ s ∈ suites, s.name ≠ [] ∧ ∀ c ∈ s.name, Decimal.isWhitespace c = false
  stdout : ∀ s ∈ suites, '\r' ∉ s.stdout ∧ ∀ line ∈ s.stdout.splitOn '\n', Plain line

def Suite.chunk (s : Suite) : Text := (s.stdout.splitOn '\n').flatMap (· ++ ['\n'])

def Suite.block (s : Suite) : Text × Int := (s.chunk, s.rc.toNat)

def Suite.frameLines (s : Suite) : List Text := [[], s.beginLine] ++ s.stdout.splitOn '\n' ++ [s.endLine]

def nonBlank (text : Text) : List Text := (lines text).filter (· ≠ [])

-- The selected binaries are these suites, each once.
def Picks (suites picked : List Suite) (selected : List SelectedBinary) : Prop :=
  picked.Nodup ∧ (∀ s ∈ picked, s ∈ suites) ∧ List.Forall₂ (fun b s => fileName b.binaryPath = s.name) selected picked

section Marks

variable {line rest : Text}

theorem plain_of_prefix (h : line <+: rest) (hplain : Plain rest) : Plain line :=
  ⟨fun hbegin => hplain.1 (hbegin.trans h), fun hend => hplain.2 (hend.trans h)⟩

theorem plain_nil : Plain [] := by
  unfold Plain beginMark endMark
  simp

theorem not_endMark_of_beginMark (h : beginMark <+: line) : ¬endMark <+: line := by
  intro hend
  rcases List.prefix_or_prefix_of_prefix h hend with hpre | hpre
  . exact absurd hpre (by decide)
  . exact absurd hpre (by decide)

theorem isWhitespace_rcMark {c : Char} (h : c ∈ rcMark) : Decimal.isWhitespace c = false := by
  have hall : ∀ c ∈ rcMark, Decimal.isWhitespace c = false := by simp [rcMark, Decimal.isWhitespace]
  exact hall c h

end Marks

section Frame

variable {s : Suite} {suites : List Suite}

theorem frame_eq (s : Suite) : s.frame = s.frameLines.flatMap (· ++ ['\n']) := by
  unfold Suite.frameLines Suite.frame
  rw [List.flatMap_append, List.flatMap_append, Lines.flatMap_splitOn]
  simp

theorem exported_eq (suites : List Suite) : exported suites = (suites.flatMap Suite.frameLines).flatMap (· ++ ['\n']) := by
  unfold exported
  rw [List.flatMap_assoc]
  congr
  funext s
  exact frame_eq s

theorem isWhitespace_rc (rc : UInt8) {c : Char} (h : c ∈ rcMark ++ Nat.toDigits 10 rc.toNat) : Decimal.isWhitespace c = false := by
  rcases List.mem_append.mp h with h | h
  . exact isWhitespace_rcMark h
  . exact Decimal.isWhitespace_of_isDigit (Decimal.isDigit_of_mem_toDigits h)

theorem mem_beginLine {c : Char} (h : c ∈ s.beginLine) (hname : ∀ c ∈ s.name, Decimal.isWhitespace c = false)
    : c = ' ' ∨ Decimal.isWhitespace c = false := by
  rcases List.mem_append.mp h with h | h
  . have hmark : ∀ c ∈ beginMark, c = ' ' ∨ Decimal.isWhitespace c = false := by
      simp [beginMark, Decimal.isWhitespace]
    exact hmark c h
  . exact .inr (hname c h)

theorem mem_endLine {c : Char} (h : c ∈ s.endLine) (hname : ∀ c ∈ s.name, Decimal.isWhitespace c = false)
    : c = ' ' ∨ Decimal.isWhitespace c = false := by
  rw [Suite.endLine, List.append_assoc, List.mem_append, List.mem_append, List.mem_cons] at h
  rcases h with h | h | h | h
  . have hmark : ∀ c ∈ endMark, c = ' ' ∨ Decimal.isWhitespace c = false := by
      simp [endMark, Decimal.isWhitespace]
    exact hmark c h
  . exact .inr (hname c h)
  . exact .inl h
  . exact .inr (isWhitespace_rc s.rc h)

theorem mem_of_mem_splitOn {text line : Text} {c : Char} (hline : line ∈ text.splitOn '\n') (hc : c ∈ line) : c ∈ text := by
  have hjoin : c ∈ (text.splitOn '\n').flatMap (· ++ ['\n']) :=
    List.mem_flatMap.mpr ⟨line, hline, List.mem_append_left _ hc⟩
  rw [Lines.flatMap_splitOn, List.mem_append, List.mem_singleton] at hjoin
  rcases hjoin with hjoin | rfl
  . exact hjoin
  . exact absurd hc (Lines.not_mem_of_mem_splitOn hline)

theorem frameLines_ends (h : Exportable suites) (hs : s ∈ suites) {line : Text} (hline : line ∈ s.frameLines)
    : '\n' ∉ line ∧ line.getLast? ≠ some '\r' := by
  have hends : ∀ {line : Text}, (∀ c ∈ line, c = ' ' ∨ Decimal.isWhitespace c = false) → '\n' ∉ line ∧ '\r' ∉ line := by
    intro line hline
    refine ⟨fun hmem => ?_, fun hmem => ?_⟩
    . exact absurd (hline _ hmem) (by decide)
    . exact absurd (hline _ hmem) (by decide)
  have hboth : '\n' ∉ line ∧ '\r' ∉ line := by
    unfold Suite.frameLines at hline
    simp only [List.cons_append, List.nil_append, List.mem_cons, List.mem_append, List.not_mem_nil, or_false] at hline
    rcases hline with rfl | rfl | hline | rfl
    . simp
    . exact hends fun c hc => mem_beginLine hc (h.name s hs).2
    . exact ⟨Lines.not_mem_of_mem_splitOn hline, fun hcr => (h.stdout s hs).1 (mem_of_mem_splitOn hline hcr)⟩
    . exact hends fun c hc => mem_endLine hc (h.name s hs).2
  exact ⟨hboth.1, fun hlast => hboth.2 (List.mem_of_getLast? hlast)⟩

theorem lines_exported (h : Exportable suites) : lines (exported suites) = suites.flatMap Suite.frameLines := by
  rw [exported_eq]
  apply Lines.rows_flatMap
  intro line hline
  rcases List.mem_flatMap.mp hline with ⟨s, hs, hline⟩
  exact frameLines_ends h hs hline

theorem nonBlank_chunk (h : '\r' ∉ s.stdout) : nonBlank s.chunk = nonBlank s.stdout := by
  have hparts : ∀ line ∈ s.stdout.splitOn '\n', line.getLast? ≠ some '\r' :=
    fun line hline hlast => h (mem_of_mem_splitOn hline (List.mem_of_getLast? hlast))
  have hchunk : lines s.chunk = s.stdout.splitOn '\n' :=
    Lines.rows_flatMap fun line hline => ⟨Lines.not_mem_of_mem_splitOn hline, hparts line hline⟩
  rw [nonBlank, hchunk, nonBlank, lines, Lines.rows, Lines.filter_rowsOf hparts]

theorem parseInventory_eq (json : Json) {text text' : Text} (h : nonBlank text = nonBlank text')
    : parseInventory json text = parseInventory json text' := congrArg (List.foldlM (parseLine json) SyncDumped.default) h

end Frame

section Scan

variable {json : Json} {s : Suite} {suites : List Suite} {line name rest : Text}

theorem dropPrefix?_eq_none {root : Text} (h : ¬root <+: line) : line.dropPrefix? root = none := by
  cases hdrop : line.dropPrefix? root with
  | none => rfl
  | some rest =>
    rcases List.dropPrefix?_eq_some_iff.mp hdrop with ⟨root', happ, heq⟩
    exact absurd ⟨rest, by rw [happ, eq_of_beq heq]⟩ h

theorem dropPrefix?_append (root rest : Text) : (root ++ rest).dropPrefix? root = some rest :=
  List.dropPrefix?_eq_some_iff.mpr ⟨root, rfl, beq_self_eq_true root⟩

theorem scanLine_plain (h : Plain line) (scan : Scan)
    : scanLine json scan line = .ok { scan with cur := scan.cur.map fun block => (block.1, block.2 ++ line ++ ['\n']) } := by
  rw [scanLine, dropPrefix?_eq_none h.1, dropPrefix?_eq_none h.2]
  rcases scan with ⟨byName, cur⟩
  cases cur with
  | none => rfl
  | some block => rfl

theorem scanLine_begin (h : ∀ c ∈ name, Decimal.isWhitespace c = false) (scan : Scan)
    : scanLine json scan (beginMark ++ name) = .ok { scan with cur := some (name, []) } := by
  simp only [scanLine, dropPrefix?_append, Decimal.trim_of_isWhitespace_eq_false h]

theorem scanLine_end (hname : ∀ c ∈ name, Decimal.isWhitespace c = false) (hne : name ≠ [])
    (hrest : ∀ c ∈ rest, Decimal.isWhitespace c = false) (byName : Text → Option (Text × Int)) (buf : Text)
    : scanLine json ⟨byName, some (name, buf)⟩ (endMark ++ (name ++ ' ' :: rest)) =
      .ok ⟨Function.update byName name (some (buf, rcOf (if rest = [] then none else some rest))), none⟩ := by
  have hbegin : ¬beginMark <+: endMark ++ (name ++ ' ' :: rest) :=
    fun hpre => not_endMark_of_beginMark hpre (List.prefix_append endMark _)
  have hwords : Decimal.words (name ++ ' ' :: rest) = name :: if rest = [] then [] else [rest] := by
    rw [Decimal.words_append_cons hname (by decide), if_neg hne, Decimal.words_of_isWhitespace_eq_false hrest]
    rfl
  have hhead : (if rest = [] then [] else [rest]).head? = if rest = [] then none else some rest := by
    split <;> rfl
  simp only [scanLine, dropPrefix?_eq_none hbegin, dropPrefix?_append, hwords, if_pos, hhead]

theorem scanLine_endName (hrest : ∀ c ∈ rest, Decimal.isWhitespace c = false) (byName : Text → Option (Text × Int)) (buf : Text)
    {scan : Scan} (h : scanLine json ⟨byName, some (name, buf)⟩ (endMark ++ rest) = .ok scan)
    : scan = ⟨Function.update byName name (some (buf, 1)), none⟩ := by
  have hbegin : ¬beginMark <+: endMark ++ rest := fun hpre => not_endMark_of_beginMark hpre (List.prefix_append endMark _)
  simp only [scanLine, dropPrefix?_eq_none hbegin, dropPrefix?_append, Decimal.words_of_isWhitespace_eq_false hrest] at h
  by_cases hnil : rest = []
  . rw [if_pos hnil] at h
    cases h
  . rw [if_neg hnil] at h
    simp only at h
    split at h
    next hname =>
      cases h
      rw [← hname]
      rfl
    next => cases h

theorem rcOf_rcMark (digits : Text) : rcOf (some (rcMark ++ digits)) = (Decimal.parseI32 digits).getD 1 := by
  rw [rcOf, Option.bind_some, dropPrefix?_append, Option.bind_some]

theorem rcOf_of_prefix {rc : UInt8} {word : Text} (h : word <+: rcMark ++ Nat.toDigits 10 rc.toNat)
    : rcOf (if word = [] then none else some word) = rc.toNat ∨ rcOf (if word = [] then none else some word) ≠ 0 := by
  by_cases hmark : rcMark <+: word
  . rcases hmark with ⟨digits, rfl⟩
    rw [List.prefix_append_right_inj] at h
    have hne : rcMark ++ digits ≠ [] := by simp [rcMark]
    rw [if_neg hne, rcOf_rcMark]
    cases hparse : Decimal.parseI32 digits with
    | none => exact .inr (by decide)
    | some code =>
      by_cases hzero : code = 0
      . rw [hzero] at hparse ⊢
        have hlt : rc.toNat < 2 ^ 31 := Nat.lt_trans rc.toNat_lt (by decide)
        rw [Decimal.parseI32_prefix h hlt hparse]
        exact .inl rfl
      . exact .inr hzero
  . right
    by_cases hnil : word = []
    . rw [if_pos hnil]
      decide
    . rw [if_neg hnil, rcOf, Option.bind_some, dropPrefix?_eq_none hmark]
      decide

theorem rcOf_eq (rc : UInt8) : rcOf (some (rcMark ++ Nat.toDigits 10 rc.toNat)) = rc.toNat := by
  rw [rcOf_rcMark, Decimal.parseI32_toDigits (Nat.lt_trans rc.toNat_lt (by decide)), Option.getD_some]

theorem scan_plain {text : List Text} (h : ∀ line ∈ text, Plain line) (scan : Scan)
    : text.foldlM (scanLine json) scan =
      .ok { scan with cur := scan.cur.map fun block => (block.1, block.2 ++ text.flatMap (· ++ ['\n'])) } := by
  induction text generalizing scan with
  | nil =>
    rcases scan with ⟨byName, cur⟩
    cases cur with
    | none => rfl
    | some block =>
      rw [List.flatMap_nil, Option.map_some, List.append_nil]
      rfl
  | cons line text ih =>
    rw [foldlM_cons_ok (scanLine_plain (h line List.mem_cons_self) scan),
      ih fun other hother => h other (List.mem_cons_of_mem _ hother), List.flatMap_cons]
    rcases scan with ⟨byName, cur⟩
    cases cur with
    | none => rfl
    | some block => simp

theorem scanLine_closed (h : Exportable suites) (hs : s ∈ suites) (byName : Text → Option (Text × Int)) (buf : Text)
    : scanLine json ⟨byName, some (s.name, buf)⟩ s.endLine =
      .ok ⟨Function.update byName s.name (some (buf, s.rc.toNat)), none⟩ := by
  rcases h.name s hs with ⟨hne, hname⟩
  have hrest : rcMark ++ Nat.toDigits 10 s.rc.toNat ≠ [] := by simp [rcMark]
  rw [Suite.endLine, List.append_assoc, scanLine_end hname hne (fun c hc => isWhitespace_rc s.rc hc), if_neg hrest, rcOf_eq]

def opened (s : Suite) (byName : Text → Option (Text × Int)) : Scan := ⟨byName, some (s.name, [])⟩

theorem scan_opened (h : Exportable suites) (hs : s ∈ suites) (byName : Text → Option (Text × Int))
    : [[], s.beginLine].foldlM (scanLine json) ⟨byName, none⟩ = .ok (opened s byName) := by
  rw [foldlM_cons_ok (scanLine_plain plain_nil _)]
  exact foldlM_cons_ok (scanLine_begin (h.name s hs).2 _) []

theorem scan_stdout (h : Exportable suites) (hs : s ∈ suites) (byName : Text → Option (Text × Int))
    : (s.stdout.splitOn '\n').foldlM (scanLine json) (opened s byName) = .ok ⟨byName, some (s.name, s.chunk)⟩ :=
  scan_plain (h.stdout s hs).2 _

theorem scan_frame (h : Exportable suites) (hs : s ∈ suites) (byName : Text → Option (Text × Int))
    : s.frameLines.foldlM (scanLine json) ⟨byName, none⟩ = .ok ⟨Function.update byName s.name (some s.block), none⟩ := by
  rw [Suite.frameLines, List.append_assoc, foldlM_append_ok (scan_opened h hs byName),
    foldlM_append_ok (scan_stdout h hs byName), foldlM_cons_ok (scanLine_closed h hs byName _)]
  rfl

def blocks (suites : List Suite) : Text → Option (Text × Int) := collect (suites.map fun s => (s.name, s.block))

theorem blocks_of_mem (h : Exportable suites) (hs : s ∈ suites) : blocks suites s.name = some s.block := by
  apply collect_of_mem
  . rw [List.map_map]
    exact h.nodup
  . exact List.mem_map.mpr ⟨s, hs, rfl⟩

theorem scan_frames {rest : List Suite} (h : Exportable suites) (hrest : ∀ s ∈ rest, s ∈ suites)
    (byName : Text → Option (Text × Int))
    : (rest.flatMap Suite.frameLines).foldlM (scanLine json) ⟨byName, none⟩ =
      .ok ⟨fun name => (blocks rest name).or (byName name), none⟩ := by
  induction rest generalizing byName with
  | nil => rfl
  | cons s rest ih =>
    rw [List.flatMap_cons, foldlM_append_ok (scan_frame h (hrest s List.mem_cons_self) byName),
      ih fun other hother => hrest other (List.mem_cons_of_mem _ hother)]
    congr
    funext name
    rw [blocks, blocks, List.map_cons, collect, Option.or_assoc]
    congr
    by_cases hname : name = s.name
    . rw [hname, Function.update_self, if_pos rfl]
      rfl
    . rw [Function.update_of_ne hname, if_neg (Ne.symm hname)]
      rfl

theorem scan_exported (json : Json) (h : Exportable suites)
    : (lines (exported suites)).foldlM (scanLine json) Scan.init = .ok ⟨blocks suites, none⟩ := by
  rw [lines_exported h, Scan.init, scan_frames h fun _ hs => hs]
  simp

end Scan

section Cut

variable {json : Json} {s : Suite} {suites : List Suite} {line : Text}

-- What a scan has of a suite is its block, or a failed one.
def Sound (suites : List Suite) (byName : Text → Option (Text × Int)) : Prop :=
  ∀ s ∈ suites, ∀ block, byName s.name = some block → block = s.block ∨ block.2 ≠ 0

theorem Sound.update {byName : Text → Option (Text × Int)} (h : Sound suites byName) (hsuites : Exportable suites) (hs : s ∈ suites)
    {block : Text × Int} (hblock : block = s.block ∨ block.2 ≠ 0)
    : Sound suites (Function.update byName s.name (some block)) := by
  intro other hother entry hentry
  by_cases hname : other.name = s.name
  . have heq : other = s := List.inj_on_of_nodup_map hsuites.nodup hother hs hname
    rw [heq, Function.update_self, Option.some.injEq] at hentry
    rw [heq, ← hentry]
    exact hblock
  . rw [Function.update_of_ne hname] at hentry
    exact h other hother entry hentry

theorem scanLine_torn_end (hsuites : Exportable suites) (hs : s ∈ suites) {byName : Text → Option (Text × Int)}
    (h : Sound suites byName) {part : Text} (hpart : part <+: s.endLine) {scan : Scan}
    (hscan : scanLine json ⟨byName, some (s.name, s.chunk)⟩ part = .ok scan)
    : Sound suites scan.byName := by
  rcases hsuites.name s hs with ⟨hne, hname⟩
  rw [Suite.endLine, List.append_assoc] at hpart
  by_cases hmark : endMark <+: part
  . rcases hmark with ⟨rest, rfl⟩
    rw [List.prefix_append_right_inj] at hpart
    rcases List.prefix_or_prefix_of_prefix hpart (List.prefix_append s.name _) with hshort | ⟨word, rfl⟩
    . rw [scanLine_endName (fun c hc => hname c (hshort.subset hc)) byName s.chunk hscan]
      exact h.update hsuites hs (.inr Int.one_ne_zero)
    . rw [List.prefix_append_right_inj] at hpart
      cases word with
      | nil =>
        rw [List.append_nil] at hscan
        rw [scanLine_endName hname byName s.chunk hscan]
        exact h.update hsuites hs (.inr Int.one_ne_zero)
      | cons c word =>
        rw [List.cons_prefix_cons] at hpart
        rw [hpart.1, scanLine_end hname hne fun c hc => isWhitespace_rc s.rc (hpart.2.subset hc)] at hscan
        cases hscan
        apply h.update hsuites hs
        rcases rcOf_of_prefix hpart.2 with hrc | hrc
        . left
          rw [hrc]
          rfl
        . exact .inr hrc
  . have hbegin : ¬beginMark <+: part := by
      intro hbegin
      exact not_endMark_of_beginMark (hbegin.trans hpart) (List.prefix_append endMark _)
    rw [scanLine_plain ⟨hbegin, hmark⟩] at hscan
    cases hscan
    exact h

theorem plain_torn {text torn : List Text} (h : ∀ line ∈ text, Plain line) (htorn : Lines.Torn torn text) : ∀ line ∈ torn, Plain line := by
  induction htorn with
  | nil => simp
  | part hpart =>
    intro line hline
    rw [List.mem_singleton.mp hline]
    exact plain_of_prefix hpart (h _ List.mem_cons_self)
  | cons line _ ih =>
    intro other hother
    rcases List.mem_cons.mp hother with rfl | hother
    . exact h _ List.mem_cons_self
    . exact ih (fun line hline => h line (List.mem_cons_of_mem _ hline)) other hother

theorem scanLine_torn_begin {part : Text} (hpart : part <+: s.beginLine) {byName : Text → Option (Text × Int)} {scan : Scan}
    (hscan : scanLine json ⟨byName, none⟩ part = .ok scan)
    : scan.byName = byName := by
  by_cases hmark : beginMark <+: part
  . rcases hmark with ⟨rest, rfl⟩
    simp only [scanLine, dropPrefix?_append] at hscan
    cases hscan
    rfl
  . have hend : ¬endMark <+: part :=
      fun hend => not_endMark_of_beginMark (List.prefix_append beginMark s.name) (hend.trans hpart)
    rw [scanLine_plain ⟨hmark, hend⟩] at hscan
    cases hscan
    rfl

theorem scan_singleton {scan scan' : Scan} (h : [line].foldlM (scanLine json) scan = .ok scan')
    : scanLine json scan line = .ok scan' := by
  rw [List.foldlM_cons] at h
  rcases Run.bind_ok h with ⟨mid, hmid, hlast⟩
  cases hlast
  exact hmid

theorem scan_torn_frame (hsuites : Exportable suites) (hs : s ∈ suites) {byName : Text → Option (Text × Int)}
    (h : Sound suites byName) {torn : List Text} (htorn : Lines.Torn torn s.frameLines) {scan : Scan}
    (hscan : torn.foldlM (scanLine json) ⟨byName, none⟩ = .ok scan)
    : Sound suites scan.byName := by
  rw [Suite.frameLines, List.append_assoc] at htorn
  rcases htorn.append with hhead | ⟨body, rfl, hbody⟩
  . cases hhead with
    | nil =>
      cases hscan
      exact h
    | part hpart =>
      rw [List.prefix_nil.mp hpart, foldlM_cons_ok (scanLine_plain plain_nil _)] at hscan
      cases hscan
      exact h
    | cons _ hhead =>
      rw [foldlM_cons_ok (scanLine_plain plain_nil _)] at hscan
      rcases hhead.eq_of_singleton with rfl | ⟨part, rfl, hpart⟩
      . cases hscan
        exact h
      . rw [scanLine_torn_begin hpart (scan_singleton hscan)]
        exact h
  . rw [foldlM_append_ok (scan_opened hsuites hs byName)] at hscan
    rcases hbody.append with hstdout | ⟨last, rfl, hlast⟩
    . rw [scan_plain (plain_torn (hsuites.stdout s hs).2 hstdout)] at hscan
      cases hscan
      exact h
    . rw [foldlM_append_ok (scan_stdout hsuites hs byName)] at hscan
      rcases hlast.eq_of_singleton with rfl | ⟨part, rfl, hpart⟩
      . cases hscan
        exact h
      . exact scanLine_torn_end hsuites hs h hpart (scan_singleton hscan)

theorem scan_torn (hsuites : Exportable suites) {rest : List Suite} (hrest : ∀ s ∈ rest, s ∈ suites)
    {byName : Text → Option (Text × Int)} (h : Sound suites byName) {torn : List Text}
    (htorn : Lines.Torn torn (rest.flatMap Suite.frameLines)) {scan : Scan}
    (hscan : torn.foldlM (scanLine json) ⟨byName, none⟩ = .ok scan)
    : Sound suites scan.byName := by
  induction rest generalizing byName torn with
  | nil =>
    cases htorn
    cases hscan
    exact h
  | cons s rest ih =>
    have hs : s ∈ suites := hrest s List.mem_cons_self
    rw [List.flatMap_cons] at htorn
    rcases htorn.append with hframe | ⟨later, rfl, hlater⟩
    . exact scan_torn_frame hsuites hs h hframe hscan
    . rw [foldlM_append_ok (scan_frame hsuites hs byName)] at hscan
      exact ih (fun other hother => hrest other (List.mem_cons_of_mem _ hother)) (h.update hsuites hs (.inl rfl)) hlater hscan

end Cut

section Take

variable {json : Json} {suites picked : List Suite} {selected : List SelectedBinary} {byName : Text → Option (Text × Int)}

theorem takeBlocks_eq (h : List.Forall₂ (fun b s => fileName b.binaryPath = s.name) selected picked)
    (hnodup : (picked.map Suite.name).Nodup) (hblocks : ∀ s ∈ picked, byName s.name = some s.block)
    : takeBlocks json byName selected = .ok (picked.map Suite.block) := by
  induction h generalizing byName with
  | nil => rfl
  | @cons b s selected picked hname _ ih =>
    rw [List.map_cons, List.nodup_cons] at hnodup
    have hrest : ∀ t ∈ picked, Function.update byName s.name none t.name = some t.block := by
      intro t ht
      have hne : t.name ≠ s.name := by
        intro heq
        exact hnodup.1 (heq ▸ List.mem_map_of_mem ht)
      rw [Function.update_of_ne hne]
      exact hblocks t (List.mem_cons_of_mem _ ht)
    rw [takeBlocks, hname, hblocks s List.mem_cons_self]
    simp only [ih hnodup.2 hrest]
    rfl

theorem of_takeBlocks {sections : List (Text × Int)} (h : takeBlocks json byName selected = .ok sections)
    : List.Forall₂ (fun b block => byName (fileName b.binaryPath) = some block) selected sections := by
  induction selected generalizing byName sections with
  | nil =>
    cases h
    exact .nil
  | cons b selected ih =>
    rw [takeBlocks] at h
    split at h
    next => cases h
    next block hblock =>
      rcases Run.map_ok h with ⟨later, hlater, rfl⟩
      refine .cons hblock ((ih hlater).imp ?_)
      intro other entry hentry
      by_cases hname : fileName other.binaryPath = fileName b.binaryPath
      . rw [hname, Function.update_self] at hentry
        cases hentry
      . rwa [Function.update_of_ne hname] at hentry

theorem sections_eq {sections : List (Text × Int)} (hpick : List.Forall₂ (fun b s => fileName b.binaryPath = s.name) selected picked)
    (htaken : List.Forall₂ (fun b block => byName (fileName b.binaryPath) = some block) selected sections)
    (hmem : ∀ s ∈ picked, s ∈ suites) (hsound : Sound suites byName) (hzero : ∀ block ∈ sections, block.2 = 0)
    : sections = picked.map Suite.block := by
  induction hpick generalizing sections with
  | nil =>
    cases htaken
    rfl
  | @cons b s selected picked hname _ ih =>
    cases htaken with
    | @cons _ block _ sections hblock htaken =>
      rw [hname] at hblock
      rcases hsound s (hmem s List.mem_cons_self) block hblock with hown | hfailed
      . rw [hown, ih htaken (fun t ht => hmem t (List.mem_cons_of_mem _ ht))
          (fun later hlater => hzero later (List.mem_cons_of_mem _ hlater))]
        rfl
      . exact absurd (hzero block List.mem_cons_self) hfailed

theorem of_readDumps {sections : List (Text × Int)} {dumps : List SyncDumped}
    (htaken : List.Forall₂ (fun b block => byName (fileName b.binaryPath) = some block) selected sections)
    (h : readDumps json (selected.zip sections) = .ok dumps)
    : (∀ block ∈ sections, block.2 = 0) ∧
      List.Forall₂ (fun block dumped => parseInventory json block.1 = .ok dumped) sections dumps := by
  induction htaken generalizing dumps with
  | nil =>
    cases h
    exact ⟨by simp, .nil⟩
  | @cons b block selected sections _ _ ih =>
    rcases block with ⟨chunk, rc⟩
    rw [List.zip_cons_cons, readDumps] at h
    split at h
    next => cases h
    next hrc =>
      split at h
      next => cases h
      next dumped hdumped =>
        rcases Run.map_ok h with ⟨later, hlater, rfl⟩
        rcases ih hlater with ⟨hzero, hparse⟩
        refine ⟨?_, .cons hdumped hparse⟩
        intro other hother
        rcases List.mem_cons.mp hother with rfl | hother
        . exact not_not.mp hrc
        . exact hzero other hother

theorem of_assembleOutcome {inventory runnerImageRef : Text} {outcome : CompileOutcome}
    (h : assembleOutcome json (.ok (some selected)) inventory runnerImageRef = .ok outcome)
    : ∃ sections dumps, splitDumpsByName json inventory selected = .ok sections ∧
        readDumps json (selected.zip sections) = .ok dumps ∧
        outcome = ⟨selected, json.rehome (Planner.assembleSync selected dumps), runnerImageRef⟩ := by
  simp only [assembleOutcome] at h
  split at h
  next => cases h
  next =>
    split at h
    next => cases h
    next sections hsections =>
      rcases Run.map_ok h with ⟨dumps, hdumps, houtcome⟩
      exact ⟨sections, dumps, hsections, hdumps, houtcome⟩

theorem of_splitDumpsByName {text : Text} {sections : List (Text × Int)} (h : splitDumpsByName json text selected = .ok sections)
    : ∃ scan, (lines text).foldlM (scanLine json) Scan.init = .ok scan ∧ takeBlocks json scan.byName selected = .ok sections := by
  unfold splitDumpsByName at h
  split at h
  next => cases h
  next scan hscan => exact ⟨scan, hscan, h⟩

theorem nodup_names (h : Exportable suites) (hpick : Picks suites picked selected) : (picked.map Suite.name).Nodup := by
  apply hpick.1.map_on
  intro s hs t ht heq
  exact List.inj_on_of_nodup_map h.nodup (hpick.2.1 s hs) (hpick.2.1 t ht) heq

theorem splitDumpsByName_exported (json : Json) (h : Exportable suites) (hpick : Picks suites picked selected)
    : splitDumpsByName json (exported suites) selected = .ok (picked.map Suite.block) := by
  simp only [splitDumpsByName, scan_exported json h]
  exact takeBlocks_eq hpick.2.2 (nodup_names h hpick) fun s hs => blocks_of_mem h (hpick.2.1 s hs)

theorem splitDumpsByName_torn (h : Exportable suites) (hpick : Picks suites picked selected) {text : Text}
    (htext : text <+: exported suites) {sections : List (Text × Int)} {dumps : List SyncDumped}
    (hsplit : splitDumpsByName json text selected = .ok sections) (hdumps : readDumps json (selected.zip sections) = .ok dumps)
    : sections = picked.map Suite.block ∧ ∀ s ∈ picked, s.rc = 0 := by
  rcases of_splitDumpsByName hsplit with ⟨scan, hscan, htake⟩
  have htorn : Lines.Torn (lines text) (suites.flatMap Suite.frameLines) := by
    rw [exported_eq] at htext
    apply Lines.torn_rows htext
    intro line hline
    rcases List.mem_flatMap.mp hline with ⟨s, hs, hline⟩
    exact frameLines_ends h hs hline
  have hsound : Sound suites scan.byName := by
    apply scan_torn h (fun _ hs => hs) _ htorn hscan
    intro s _ block hblock
    cases hblock
  have htaken := of_takeBlocks htake
  have hzero := (of_readDumps htaken hdumps).1
  have heq := sections_eq hpick.2.2 htaken hpick.2.1 hsound hzero
  refine ⟨heq, fun s hs => ?_⟩
  have hrc := hzero s.block (heq ▸ List.mem_map_of_mem hs)
  exact UInt8.toNat_inj.mp (Int.natCast_eq_zero.mp hrc)

-- A file that is read is the whole of what it was selected for: cut off anywhere, it gives the same blocks or an error.
theorem demultiplexed (json : Json) (h : Exportable suites) (hpick : Picks suites picked selected)
    : (∃ sections, splitDumpsByName json (exported suites) selected = .ok sections ∧
        List.Forall₂ (fun s block => block.2 = s.rc.toNat ∧ nonBlank block.1 = nonBlank s.stdout ∧
          parseInventory json block.1 = parseInventory json s.stdout) picked sections) ∧
      ∀ size runnerImageRef outcome,
        outcomeOfFile json (.ok (some selected)) ((Utf8.encode (exported suites)).take size) runnerImageRef = .ok outcome →
        (∃ text, Utf8.decode ((Utf8.encode (exported suites)).take size) = some text ∧
          splitDumpsByName json text selected = splitDumpsByName json (exported suites) selected) ∧
        (∀ s ∈ picked, s.rc = 0) ∧
        ∃ dumps, List.Forall₂ (fun s dumped => parseInventory json s.stdout = .ok dumped) picked dumps ∧
          outcome = ⟨selected, json.rehome (Planner.assembleSync selected dumps), runnerImageRef⟩ := by
  have hstdout : ∀ s ∈ picked, nonBlank s.block.1 = nonBlank s.stdout :=
    fun s hs => nonBlank_chunk (h.stdout s (hpick.2.1 s hs)).1
  refine ⟨⟨_, splitDumpsByName_exported json h hpick, ?_⟩, ?_⟩
  . rw [List.forall₂_map_right_iff, List.forall₂_same]
    exact fun s hs => ⟨rfl, hstdout s hs, parseInventory_eq json (hstdout s hs)⟩
  . intro size runnerImageRef outcome houtcome
    unfold outcomeOfFile at houtcome
    split at houtcome
    next => cases houtcome
    next text htext =>
      have hprefix : text <+: exported suites := by
        apply Utf8.prefix_of_encode_prefix
        rw [Utf8.decode_eq_some_iff.mp htext]
        exact List.take_prefix size _
      rcases of_assembleOutcome houtcome with ⟨sections, dumps, hsplit, hdumps, rfl⟩
      rcases splitDumpsByName_torn h hpick hprefix hsplit hdumps with ⟨rfl, hrc⟩
      refine ⟨⟨text, htext, ?_⟩, hrc, dumps, ?_, rfl⟩
      . rw [hsplit, splitDumpsByName_exported json h hpick]
      . rcases of_splitDumpsByName hsplit with ⟨scan, _, htake⟩
        have hparse := (of_readDumps (of_takeBlocks htake) hdumps).2
        rw [List.forall₂_map_left_iff] at hparse
        apply ((List.forall₂_and_left _ _).mpr ⟨hstdout, hparse⟩).imp
        rintro s dumped ⟨hlines, hdumped⟩
        rw [← parseInventory_eq json hlines]
        exact hdumped

-- A suite that fails beside one that declares nothing.
def failing : Suite where
  name := ['a', '-', '1']
  stdout := ['\x7b', '\x7d', '\n', '\n']
  rc := 101

def silent : Suite where
  name := ['b', '-', '2']
  stdout := []
  rc := 0

def silentBinary : SelectedBinary where
  binaryPath := ['/', 'd', '/', 'b', '-', '2']
  cwd := ['/', 'd']
  binaryId := ['b']
  selectedTests := []

def Json.silent : Json where
  line := fun _ => .error ['E', 'O', 'F']
  debug := fun text => '"' :: text ++ ['"']
  rehome := id

theorem exportable_silent : Exportable [failing, silent] where
  nodup := by decide
  name := by simp [failing, silent, Decimal.isWhitespace]
  stdout := by
    unfold Plain
    decide

theorem picks_silent : Picks [failing, silent] [silent] [silentBinary] :=
  ⟨by decide, by decide, .cons (by decide) .nil⟩

theorem demultiplexed_silent
    : (∃ sections, splitDumpsByName Json.silent (exported [failing, silent]) [silentBinary] = .ok sections ∧
        List.Forall₂ (fun s block => block.2 = s.rc.toNat ∧ nonBlank block.1 = nonBlank s.stdout ∧
          parseInventory Json.silent block.1 = parseInventory Json.silent s.stdout) [silent] sections) ∧
      ∀ size runnerImageRef outcome,
        outcomeOfFile Json.silent (.ok (some [silentBinary])) ((Utf8.encode (exported [failing, silent])).take size)
          runnerImageRef = .ok outcome →
        (∃ text, Utf8.decode ((Utf8.encode (exported [failing, silent])).take size) = some text ∧
          splitDumpsByName Json.silent text [silentBinary] =
            splitDumpsByName Json.silent (exported [failing, silent]) [silentBinary]) ∧
        (∀ s ∈ [silent], s.rc = 0) ∧
        ∃ dumps, List.Forall₂ (fun s dumped => parseInventory Json.silent s.stdout = .ok dumped) [silent] dumps ∧
          outcome = ⟨[silentBinary], Json.silent.rehome (Planner.assembleSync [silentBinary] dumps), runnerImageRef⟩ :=
  demultiplexed Json.silent exportable_silent picks_silent

end Take

end Dumps
end Pipeline
