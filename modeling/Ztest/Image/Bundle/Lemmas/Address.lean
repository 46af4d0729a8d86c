import Ztest.Image.Bundle.Lemmas.Excludes
import Ztest.Image.Context.Lemmas

/-!
This module contains when the tag of a local dev image tells its build contexts apart. The archive that is
hashed for the tag says of a selected file what its bytes are, as far as it carries the file, so two
worktrees with one tag have to agree on everything else: the names that git selects, their kinds, their
executable bits, the targets of their links and the files that the archive leaves out.
-/

namespace Image
namespace Bundle

open Files (Path Node)
open Frame (Blob hex)

section Carried

variable (glob : List Char → Option (Path → Bool)) (w : Worktree)

/--
The archive carries the file `rel` and no other under this name.
-/
structure Carried (rel : Blob) (executable : Bool) (bytes : Blob) : Prop where
  here : ∃ real, w.checkout.files.realPath w.context = some real ∧
    w.checkout.files.lookup (real ++ Files.components rel.val) = some (.file executable bytes)
  proper : Files.components rel.val ≠ []
  kept : excludes (load glob w.checkout.files w.context) (Files.components rel.val) false = false
  named : entryPath (Files.components rel.val) ≠ dockerfileName
  alone : ∀ walked ∈ walk w.checkout.files w.context, ∀ other ∈ walked,
    entryPath other.1 = entryPath (Files.components rel.val) → other.1 = Files.components rel.val

variable {glob w}

theorem isBuiltInIgnore_of_excludes {patterns : List Pattern} {rel : Path} {isDir : Bool}
    (h : excludes patterns rel isDir = false)
    : isBuiltInIgnore rel = false := by
  unfold excludes at h
  split at h
  . next hnames =>
    rcases hnames with rfl | rfl
    . decide
    . decide
  . split at h
    . cases h
    . next hbuilt => simpa using hbuilt

theorem isBuiltInIgnore_mono {rel dir : Path} (h : isBuiltInIgnore rel = false) (hdir : dir <+: rel)
    : isBuiltInIgnore dir = false := by
  unfold isBuiltInIgnore at h ⊢
  rw [List.any_eq_false] at h ⊢
  intro name hname
  exact h name (hdir.subset hname)

theorem pruned_eq_false {tree : Files.Tree} {real rel : Path} (h : isBuiltInIgnore rel = false)
    : pruned tree real rel = false := by
  unfold pruned
  rw [List.any_eq_false]
  intro dir hdir
  have hpre : dir <+: rel := by
    rcases List.mem_cons.mp hdir with rfl | hdir
    . exact List.prefix_refl dir
    . exact (mem_ancestors.mp hdir).1
  simp [isBuiltInIgnore_mono h hpre]

theorem collectEntry_path {tree : Files.Tree} {context : Path} {patterns : List Pattern} {walked : Path × Node}
    {entry : Entry} (h : collectEntry tree context patterns walked = some entry)
    : entry.path = entryPath walked.1 := by
  unfold collectEntry at h
  split at h
  . cases h
  . split at h
    . cases h
      rfl
    . cases h
      rfl
    . rcases Option.map_eq_some_iff.mp h with ⟨bytes, _, rfl⟩
      rfl

/--
What the archive of a worktree consists of.
-/
theorem entries_eq_ok {es : List Entry} (h : entries glob w = .ok es)
    : ∃ walked bytes, walk w.checkout.files w.context = some walked ∧ read w.checkout.files w.dockerfile = some bytes ∧
        ∀ entry, entry ∈ es ↔ entry = ⟨dockerfileName, .file bytes⟩ ∨ entry.path ≠ dockerfileName ∧
          ∃ found ∈ walked,
            collectEntry w.checkout.files w.context (load glob w.checkout.files w.context) found = some entry := by
  unfold entries collect at h
  cases hwalk : walk w.checkout.files w.context with
  | none =>
    rw [hwalk] at h
    cases h
  | some walked =>
    rw [hwalk] at h
    simp only [bind, Except.bind] at h
    cases hread : read w.checkout.files w.dockerfile with
    | none =>
      rw [hread] at h
      cases h
    | some bytes =>
      rw [hread] at h
      cases h
      refine ⟨walked, bytes, rfl, rfl, ?_⟩
      intro entry
      rw [List.mem_insertionSort, List.mem_append, List.mem_filter, List.mem_singleton, List.mem_filterMap]
      simp only [decide_eq_true_eq]
      rw [or_comm, and_comm]

theorem dockerfile_of_entries {es : List Entry} (h : entries glob w = .ok es)
    : ∃ bytes, read w.checkout.files w.dockerfile = some bytes ∧ ⟨dockerfileName, .file bytes⟩ ∈ es ∧
        ∀ entry ∈ es, entry.path = dockerfileName → entry = ⟨dockerfileName, .file bytes⟩ := by
  rcases entries_eq_ok h with ⟨walked, bytes, _, hread, hmem⟩
  refine ⟨bytes, hread, (hmem _).mpr (Or.inl rfl), ?_⟩
  intro entry hentry hpath
  rcases (hmem entry).mp hentry with rfl | ⟨hne, _⟩
  . rfl
  . exact absurd hpath hne

theorem Carried.entries {rel : Blob} {executable : Bool} {bytes : Blob} (h : Carried glob w rel executable bytes)
    {es : List Entry} (hes : entries glob w = .ok es)
    : ⟨entryPath (Files.components rel.val), .file bytes⟩ ∈ es ∧
        ∀ entry ∈ es, entry.path = entryPath (Files.components rel.val) → entry.kind = .file bytes := by
  rcases h.here with ⟨real, hreal, hlookup⟩
  rcases entries_eq_ok hes with ⟨walked, staged, hwalk, _, hmem⟩
  have hwalked := hwalk
  rw [walk, hreal, Option.map_some, Option.some.injEq] at hwalked
  have hbuilt := isBuiltInIgnore_of_excludes h.kept
  refine ⟨?_, ?_⟩
  . rw [hmem]
    refine Or.inr ⟨h.named, (Files.components rel.val, .file executable bytes), ?_, ?_⟩
    . rw [← hwalked, List.mem_filter]
      refine ⟨w.checkout.files.mem_below_of_lookup hlookup, ?_⟩
      simp [h.proper, pruned_eq_false hbuilt]
    . unfold collectEntry
      rw [if_neg (by simp [h.kept])]
  . intro entry hentry hpath
    rcases (hmem entry).mp hentry with rfl | ⟨_, found, hfound, hcollect⟩
    . exact absurd hpath.symm h.named
    . have hsame := h.alone walked hwalk found hfound (by rw [← collectEntry_path hcollect, hpath])
      rw [← hwalked, List.mem_filter] at hfound
      have hnode := w.checkout.files.mem_below hfound.1
      rw [hsame, hlookup] at hnode
      unfold collectEntry at hcollect
      rw [hsame, ← Option.some.inj hnode, if_neg (by simp [h.kept])] at hcollect
      cases hcollect
      rfl

end Carried

section Tag

variable (glob : List Char → Option (Path → Bool)) (tar : List Append → Except String (List UInt8))
  (sha256 : List UInt8 → List UInt8) (features : List (List UInt8)) (rustVersion : Option (List UInt8))
  (a b : Worktree)

-- What the content of the request is made of.
def listing (w : Worktree) : Except ShipError (List (Blob × Node)) :=
  (selectedFiles w.checkout (devContext w)).map (present w.checkout)

-- The same, but for the bytes of a file that both archives carry.
def Alike (x y : Blob × Node) : Prop :=
  x.1 = y.1 ∧ (x.2 = y.2 ∨ ∃ executable bytes bytes', x.2 = .file executable bytes ∧ y.2 = .file executable bytes' ∧
    Carried glob a x.1 executable bytes ∧ Carried glob b x.1 executable bytes')

inductive AlikeListings : Except ShipError (List (Blob × Node)) → Except ShipError (List (Blob × Node)) → Prop where
  | ok {xs ys : List (Blob × Node)} (h : List.Forall₂ (Alike glob a b) xs ys) : AlikeListings (.ok xs) (.ok ys)
  | error (e : ShipError) : AlikeListings (.error e) (.error e)

/--
Where two worktrees have one archive, git selects alike in them: the same names in the same order, with the
same kinds, executable bits and targets, and the same bytes in the files that an archive does not carry.
-/
def SameUnpacked : Prop :=
  ∀ es, entries glob a = .ok es → entries glob b = .ok es → (∃ bytes, writeTar tar es = .ok bytes) →
    AlikeListings glob a b (listing a) (listing b)

/--
One tag means one content and one Dockerfile.
-/
def Addressed : Prop :=
  ∀ suffix, tagSuffix glob tar sha256 a features rustVersion = .ok suffix →
    tagSuffix glob tar sha256 b features rustVersion = .ok suffix →
    contentDigest sha256 a.checkout (devContext a) = contentDigest sha256 b.checkout (devContext b) ∧
      read a.checkout.files a.dockerfile = read b.checkout.files b.dockerfile

-- The texts that are hashed for a tag and for a content.
def hashed (w : Worktree) : List (List UInt8) :=
  (match pack glob tar w with
    | .error _ => []
    | .ok bytes => [bytes, suffixText (hex (sha256 bytes)) features rustVersion]) ++
  match contentText w.checkout (devContext w) with
  | .error _ => []
  | .ok text => [text]

def NoCollision (texts : List (List UInt8)) : Prop :=
  ∀ x ∈ texts, ∀ y ∈ texts, (sha256 x).take 6 = (sha256 y).take 6 → x = y

theorem NoCollision.mono {sha256 : List UInt8 → List UInt8} {texts texts' : List (List UInt8)}
    (h : NoCollision sha256 texts) (hsub : texts' ⊆ texts)
    : NoCollision sha256 texts' :=
  fun x hx y hy => h x (hsub hx) y (hsub hy)

-- What an archive holds is what was appended to it.
def Readable : Prop :=
  ∀ es es' bytes, entries glob a = .ok es → entries glob b = .ok es' →
    tar (es.map append) = .ok bytes → tar (es'.map append) = .ok bytes → es.map append = es'.map append

variable {glob tar sha256 features rustVersion a b}

theorem eq_of_alike {es : List Entry} (ha : entries glob a = .ok es) (hb : entries glob b = .ok es)
    {x y : Blob × Node} (h : Alike glob a b x y)
    : x = y := by
  rcases h with ⟨hname, heq | ⟨executable, bytes, bytes', hx, hy, hca, hcb⟩⟩
  . exact Prod.ext hname heq
  . have hkind := (hcb.entries hb).2 _ (hca.entries ha).1 rfl
    cases hkind
    exact Prod.ext hname (by rw [hx, hy])

theorem eq_of_alikeListings {es : List Entry} (ha : entries glob a = .ok es) (hb : entries glob b = .ok es)
    {xs ys : Except ShipError (List (Blob × Node))} (h : AlikeListings glob a b xs ys)
    : xs = ys := by
  cases h with
  | ok h =>
    have heq := h.imp fun x y halike => eq_of_alike ha hb halike
    rw [List.forall₂_eq_eq_eq] at heq
    rw [heq]
  | error e => rfl

theorem alikeListings_refl (xs : Except ShipError (List (Blob × Node))) : AlikeListings glob a b xs xs := by
  cases xs with
  | ok xs => exact .ok (List.forall₂_same.mpr fun x _ => ⟨rfl, Or.inl rfl⟩)
  | error e => exact .error e

theorem contentText_eq (w : Worktree)
    : contentText w.checkout (devContext w) = (listing w).map fun listed => listed.flatMap entryText := by
  rw [contentText, listing]
  cases selectedFiles w.checkout (devContext w) <;> rfl

theorem contentDigest_eq (w : Worktree)
    : contentDigest sha256 w.checkout (devContext w) =
        (listing w).map fun listed => hex (sha256 (listed.flatMap entryText)) := by
  rw [contentDigest, contentText_eq]
  cases listing w <;> rfl

theorem mem_hashed_content {w : Worktree} {listed : List (Blob × Node)} (h : listing w = .ok listed)
    : listed.flatMap entryText ∈ hashed glob tar sha256 features rustVersion w := by
  rw [hashed, contentText_eq, h]
  exact List.mem_append_right _ List.mem_cons_self

variable (sha256 features rustVersion) in
theorem mem_hashed_pack {w : Worktree} {bytes : List UInt8} (h : pack glob tar w = .ok bytes)
    : bytes ∈ hashed glob tar sha256 features rustVersion w ∧
        suffixText (hex (sha256 bytes)) features rustVersion ∈ hashed glob tar sha256 features rustVersion w := by
  rw [hashed, h]
  exact ⟨List.mem_append_left _ List.mem_cons_self,
    List.mem_append_left _ (List.mem_cons_of_mem _ List.mem_cons_self)⟩

theorem append_injective : Function.Injective append := by
  rintro ⟨path, kind⟩ ⟨path', kind'⟩ h
  cases kind with
  | dir =>
    cases kind' with
    | dir => cases List.append_cancel_right (congrArg Append.path h); rfl
    | file bytes' => cases congrArg (·.header.entryType) h
  | file bytes =>
    cases kind' with
    | dir => cases congrArg (·.header.entryType) h
    | file bytes' =>
      cases congrArg Append.path h
      cases Subtype.ext (congrArg Append.data h)
      rfl

theorem writeTar_eq_ok {es : List Entry} {bytes : List UInt8}
    : writeTar tar es = .ok bytes ↔ tar (es.map append) = .ok bytes := by
  rw [writeTar]
  cases tar (es.map append) <;> simp [Except.mapError]

theorem pack_eq_ok {w : Worktree} {bytes : List UInt8}
    : pack glob tar w = .ok bytes ↔ ∃ es, entries glob w = .ok es ∧ writeTar tar es = .ok bytes := by
  rw [pack]
  cases entries glob w with
  | error e => simp [bind, Except.bind]
  | ok es => simp [bind, Except.bind]

theorem suffixText_inj {base base' : List UInt8} (hlength : base.length = base'.length)
    (h : suffixText base features rustVersion = suffixText base' features rustVersion)
    : base = base' := by
  rw [suffixText, suffixText, foldText, foldText, List.append_assoc, List.append_assoc] at h
  exact (List.append_inj h hlength).1

section Collisions

variable (hlength : ∀ text, (sha256 text).length = 32)
  (hfree : NoCollision sha256
    (hashed glob tar sha256 features rustVersion a ++ hashed glob tar sha256 features rustVersion b))
include hfree

theorem contentDigest_inj (h : contentDigest sha256 a.checkout (devContext a) = contentDigest sha256 b.checkout (devContext b))
    : listing a = listing b := by
  rw [contentDigest_eq, contentDigest_eq] at h
  cases ha : listing a with
  | error e =>
    cases hb : listing b with
    | error e' =>
      rw [ha, hb] at h
      cases h
      rfl
    | ok listed' =>
      rw [ha, hb] at h
      cases h
  | ok listed =>
    cases hb : listing b with
    | error e' =>
      rw [ha, hb] at h
      cases h
    | ok listed' =>
      rw [ha, hb] at h
      have hdigests := Frame.hex_injective (Except.ok.inj h)
      have htexts := hfree _ (List.mem_append_left _ (mem_hashed_content ha)) _
        (List.mem_append_right _ (mem_hashed_content hb)) (congrArg (List.take 6) hdigests)
      rw [flatMap_entryText_injective htexts]

include hlength

theorem tagSuffix_inj {suffix : List UInt8} (ha : tagSuffix glob tar sha256 a features rustVersion = .ok suffix)
    (hb : tagSuffix glob tar sha256 b features rustVersion = .ok suffix)
    : ∃ bytes, pack glob tar a = .ok bytes ∧ pack glob tar b = .ok bytes := by
  rcases Run.map_ok ha with ⟨bytes, hpack, hsuffix⟩
  rcases Run.map_ok hb with ⟨bytes', hpack', hsuffix'⟩
  have hmem := mem_hashed_pack sha256 features rustVersion hpack
  have hmem' := mem_hashed_pack sha256 features rustVersion hpack'
  have hfolds := Frame.hex_injective (hsuffix.symm.trans hsuffix')
  have htexts := hfree _ (List.mem_append_left _ hmem.2) _ (List.mem_append_right _ hmem'.2) hfolds
  have hlengths : (hex (sha256 bytes)).length = (hex (sha256 bytes')).length := by
    rw [Frame.length_hex, Frame.length_hex, hlength, hlength]
  have hdigests := Frame.hex_injective (suffixText_inj hlengths htexts)
  have hbytes := hfree _ (List.mem_append_left _ hmem.1) _ (List.mem_append_right _ hmem'.1)
    (congrArg (List.take 6) hdigests)
  exact ⟨bytes, hpack, by rw [hpack', hbytes]⟩

/--
The tag of a local dev image addresses what its build consumes exactly where one archive means that git
selects alike.
-/
theorem addressed_iff_sameUnpacked (hread : Readable glob tar a b)
    : Addressed glob tar sha256 features rustVersion a b ↔ SameUnpacked glob tar a b := by
  constructor
  . rintro h es ha hb ⟨bytes, hbytes⟩
    have htag : ∀ {w : Worktree}, entries glob w = .ok es →
        tagSuffix glob tar sha256 w features rustVersion =
          .ok (foldSuffix sha256 (hex (sha256 bytes)) features rustVersion) := by
      intro w hw
      rw [tagSuffix, pack_eq_ok.mpr ⟨es, hw, hbytes⟩]
      rfl
    rw [contentDigest_inj hfree (h _ (htag ha) (htag hb)).1]
    exact alikeListings_refl _
  . intro h suffix ha hb
    rcases tagSuffix_inj hlength hfree ha hb with ⟨bytes, hpackA, hpackB⟩
    rcases pack_eq_ok.mp hpackA with ⟨es, hes, hbytes⟩
    rcases pack_eq_ok.mp hpackB with ⟨es', hes', hbytes'⟩
    have happend := hread es es' bytes hes hes' (writeTar_eq_ok.mp hbytes) (writeTar_eq_ok.mp hbytes')
    cases append_injective.list_map happend
    refine ⟨?_, ?_⟩
    . rw [contentDigest_eq, contentDigest_eq, eq_of_alikeListings hes hes' (h es hes hes' ⟨bytes, hbytes⟩)]
    . rcases dockerfile_of_entries hes with ⟨staged, hstaged, hmem, _⟩
      rcases dockerfile_of_entries hes' with ⟨staged', hstaged', _, honly⟩
      cases honly _ hmem rfl
      rw [hstaged, hstaged']

end Collisions

end Tag

namespace Sample

def octal (width n : Nat) : List UInt8 :=
  ((List.range (width - 1)).reverse.map fun i => UInt8.ofNat (48 + n / 8 ^ i % 8)) ++ [0]

def padded (width : Nat) (bytes : List UInt8) : List UInt8 := bytes ++ List.replicate (width - bytes.length) 0

-- A GNU header around its checksum.
def around (e : Append) (checksum : List UInt8) : List UInt8 :=
  padded 100 e.path ++ octal 8 e.header.mode ++ octal 8 e.header.uid ++ octal 8 e.header.gid ++
    octal 12 e.header.size ++ octal 12 e.header.mtime ++ checksum ++
    [if e.header.entryType = .directory then 53 else 48] ++
    List.replicate 100 0 ++ [117, 115, 116, 97, 114, 32, 32, 0] ++ List.replicate 247 0

def block (e : Append) : List UInt8 :=
  around e (octal 8 ((around e (List.replicate 8 32)).map UInt8.toNat).sum) ++
    padded ((e.data.length + 511) / 512 * 512) e.data

-- Of names that a header has room for.
def tar (es : List Append) : Except String (List UInt8) :=
  if es.all (·.path.length ≤ 100) then .ok (es.flatMap block ++ List.replicate 1024 0) else .error "long name"

def glob (_ : List Char) : Option (Path → Bool) := none

def root : Path := [[115]]

def dockerfile : Blob := ⟨[70, 82, 79, 77, 32, 97], by simp⟩

def file (executable : Bool) : Node := .file executable ⟨[1], by simp⟩

-- A checkout in `/s`, where git lists the Dockerfile and `a`.
def worktree (files : Files.Tree) : Worktree where
  checkout := ⟨files, fun _ => .ok (dockerfileName ++ [0, 97, 0]), fun _ => true, 1024⟩
  context := root
  dockerfile := root ++ [dockerfileName]

def clean : Worktree :=
  worktree ⟨[([], .dir), (root, .dir), (root ++ [dockerfileName], .file false dockerfile), (root ++ [[97]], file false)],
    id, by decide, by decide, by decide⟩

-- With `target/`, which git ignores.
def built : Worktree :=
  worktree ⟨[([], .dir), (root, .dir), (root ++ [dockerfileName], .file false dockerfile), (root ++ [[97]], file false),
      (root ++ [[116, 97, 114, 103, 101, 116]], .dir), (root ++ [[116, 97, 114, 103, 101, 116], [97]], file true)],
    id, by decide, by decide, by decide⟩

-- After `chmod +x a`.
def marked : Worktree :=
  worktree ⟨[([], .dir), (root, .dir), (root ++ [dockerfileName], .file false dockerfile), (root ++ [[97]], file true)],
    id, by decide, by decide, by decide⟩

def packed : List Entry := [⟨dockerfileName, .file dockerfile⟩, ⟨[97], .file ⟨[1], by simp⟩⟩]

def archive : List UInt8 := (packed.map append).flatMap block ++ List.replicate 1024 0

def contentOf (executable : Bool) : List UInt8 :=
  entryText (⟨dockerfileName, by decide⟩, .file false dockerfile) ++ entryText (⟨[97], by simp⟩, file executable)

def archiveHash : List UInt8 :=
  [3, 99, 35, 4, 129, 212, 114, 2, 58, 206, 121, 141, 31, 94, 22, 251, 133, 193, 129, 36, 14, 40, 183, 127, 82,
    217, 80, 130, 237, 56, 6, 142]

def hashes : List (List UInt8 × List UInt8) :=
  [ (archive, archiveHash),
    (hex archiveHash,
      [168, 247, 28, 219, 212, 49, 80, 150, 93, 200, 154, 134, 94, 6, 55, 154, 112, 215, 41, 88, 140, 227, 177,
      156, 167, 208, 184, 68, 85, 48, 106, 211]),
    (contentOf false,
      [195, 42, 242, 150, 184, 55, 39, 200, 139, 24, 156, 126, 6, 147, 241, 4, 10, 39, 62, 182, 95, 32, 105, 135,
      141, 66, 85, 196, 68, 209, 10, 250]),
    (contentOf true,
      [63, 173, 188, 123, 241, 208, 15, 188, 179, 23, 66, 238, 230, 173, 71, 197, 23, 242, 67, 224, 243, 114, 2,
      27, 177, 111, 94, 146, 11, 19, 79, 166]) ]

def sha256 (text : List UInt8) : List UInt8 := (hashes.lookup text).getD (List.replicate 32 0)

theorem length_sha256 (text : List UInt8) : (sha256 text).length = 32 := by
  unfold sha256
  cases h : hashes.lookup text with
  | none => rfl
  | some digest =>
    have hdigests : hashes.map (·.2.length) = [32, 32, 32, 32] := rfl
    rcases List.lookup_eq_some_iff.mp h with ⟨before, after, heq, _⟩
    rw [heq] at hdigests
    have hmem : digest.length ∈ (before ++ (text, digest) :: after).map (·.2.length) := by simp
    rw [hdigests] at hmem
    simpa using hmem

theorem entries_packed
    : entries glob clean = .ok packed ∧ entries glob built = .ok packed ∧ entries glob marked = .ok packed := by
  decide

theorem readable {a b : Worktree} (ha : entries glob a = .ok packed) (hb : entries glob b = .ok packed)
    : Readable glob tar a b := by
  intro es es' bytes hes hes' _ _
  rw [ha, Except.ok.injEq] at hes
  rw [hb, Except.ok.injEq] at hes'
  rw [← hes, ← hes']

theorem listing_built : listing clean = listing built := by decide

theorem sameUnpacked_built : SameUnpacked glob tar clean built := by
  intro es _ _ _
  rw [listing_built]
  exact alikeListings_refl _

theorem noCollision_hashes : NoCollision sha256 (hashes.map Prod.fst) := by
  unfold NoCollision
  decide +kernel

theorem sha256_archive : sha256 archive = archiveHash := by
  rw [sha256, hashes, List.lookup_cons_self]
  rfl

theorem hashed_packed {w : Worktree} {text : List UInt8} (hentries : entries glob w = .ok packed)
    (htext : contentText w.checkout (devContext w) = .ok text)
    : hashed glob tar sha256 [] none w = [archive, hex archiveHash, text] := by
  have hpack : pack glob tar w = .ok archive := pack_eq_ok.mpr ⟨packed, hentries, rfl⟩
  have hsuffix : suffixText (hex archiveHash) [] none = hex archiveHash := rfl
  rw [hashed, hpack, htext]
  simp only [sha256_archive, hsuffix, List.cons_append, List.nil_append]

theorem contents : contentText clean.checkout (devContext clean) = .ok (contentOf false) ∧
    contentText built.checkout (devContext built) = .ok (contentOf false) ∧
    contentText marked.checkout (devContext marked) = .ok (contentOf true) := by
  decide

theorem noCollision_built
    : NoCollision sha256 (hashed glob tar sha256 [] none clean ++ hashed glob tar sha256 [] none built) := by
  rw [hashed_packed entries_packed.1 contents.1, hashed_packed entries_packed.2.1 contents.2.1]
  apply noCollision_hashes.mono
  simp [hashes]

theorem noCollision_marked
    : NoCollision sha256 (hashed glob tar sha256 [] none clean ++ hashed glob tar sha256 [] none marked) := by
  rw [hashed_packed entries_packed.1 contents.1, hashed_packed entries_packed.2.2 contents.2.2]
  apply noCollision_hashes.mono
  simp [hashes]

end Sample

theorem built_addressed : Addressed Sample.glob Sample.tar Sample.sha256 [] none Sample.clean Sample.built :=
  (addressed_iff_sameUnpacked Sample.length_sha256 Sample.noCollision_built
    (Sample.readable Sample.entries_packed.1 Sample.entries_packed.2.1)).mpr Sample.sameUnpacked_built

/--
An executable bit is shipped under the old tag.
-/
theorem marked_not_addressed
    : ¬∀ a b : Worktree,
        NoCollision Sample.sha256 (hashed Sample.glob Sample.tar Sample.sha256 [] none a ++
          hashed Sample.glob Sample.tar Sample.sha256 [] none b) →
        Addressed Sample.glob Sample.tar Sample.sha256 [] none a b := by
  intro h
  have htag : ∀ {w : Worktree}, entries Sample.glob w = .ok Sample.packed →
      tagSuffix Sample.glob Sample.tar Sample.sha256 w [] none =
        .ok (foldSuffix Sample.sha256 (hex (Sample.sha256 Sample.archive)) [] none) := by
    intro w hw
    rw [tagSuffix, pack_eq_ok.mpr ⟨Sample.packed, hw, rfl⟩]
    rfl
  have hcontent := (h _ _ Sample.noCollision_marked _ (htag Sample.entries_packed.1) (htag Sample.entries_packed.2.2)).1
  rw [contentDigest, contentDigest, Sample.contents.1, Sample.contents.2.2] at hcontent
  revert hcontent
  decide

end Bundle
end Image
