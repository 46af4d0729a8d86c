import Ztest.Image.Context.Impl
import Ztest.Lib.Run

/-!
This module contains when the key of a runner image tells its archives apart: the digest says of a link
where it points to, and of a directory that it is there, so that two checkouts with one key have to agree on
which of their links resolve, on what is below their directories and on which of their files are hard links.
-/

namespace Image

open Files (Path Node)
open Frame (Blob lenPrefixed hex SelfDelimiting)

structure Source where
  checkout : Checkout
  context : Context
  buildArgs : List Arg

section Texts

theorem nodeText_selfDelimiting : SelfDelimiting nodeText := by
  intro a b r s h
  cases a with
  | file executable bytes =>
    cases b with
    | file executable' bytes' =>
      simp only [nodeText, List.cons_append, List.cons.injEq, true_and] at h
      rcases Frame.lenPrefixed_selfDelimiting _ _ _ _ h.2 with ⟨rfl, hrest⟩
      have hexecutable : executable = executable' := by
        cases executable <;> cases executable' <;> simp at h <;> rfl
      rw [hexecutable]
      exact ⟨rfl, hrest⟩
    | link target => simp [nodeText] at h
    | dir => simp [nodeText] at h
  | link target =>
    cases b with
    | file executable bytes => simp [nodeText] at h
    | link target' =>
      simp only [nodeText, List.cons_append, List.cons.injEq, true_and] at h
      rcases Frame.lenPrefixed_selfDelimiting _ _ _ _ h with ⟨rfl, hrest⟩
      exact ⟨rfl, hrest⟩
    | dir => simp [nodeText] at h
  | dir =>
    cases b with
    | file executable bytes => simp [nodeText] at h
    | link target => simp [nodeText] at h
    | dir =>
      simp only [nodeText, List.cons_append, List.nil_append, List.cons.injEq, true_and] at h
      exact ⟨rfl, h⟩

theorem flatMap_entryText_injective : Function.Injective (List.flatMap entryText) := by
  apply SelfDelimiting.flatMap_injective
  . exact Frame.lenPrefixed_selfDelimiting.pair nodeText_selfDelimiting
  . intro entry h
    exact Frame.lenPrefixed_ne_nil entry.1 (List.append_eq_nil_iff.mp h).1

theorem flatMap_argText_injective : Function.Injective (List.flatMap argText) := by
  apply SelfDelimiting.flatMap_injective
  . exact Frame.lenPrefixed_selfDelimiting.pair Frame.lenPrefixed_selfDelimiting
  . intro arg h
    exact Frame.lenPrefixed_ne_nil arg.1 (List.append_eq_nil_iff.mp h).1

theorem argOrder_injective : Function.Injective argOrder := by
  have hmap : Function.Injective (List.map UInt8.toNat) := List.map_injective_iff.mpr fun a b h => UInt8.toNat_inj.mp h
  intro a b h
  rcases Prod.mk.inj (toLex.injective h) with ⟨hfst, hsnd⟩
  exact Prod.ext (Subtype.ext (hmap hfst)) (Subtype.ext (hmap hsnd))

instance : Std.Total argLe := ⟨fun a b => le_total (argOrder a) (argOrder b)⟩

instance : IsTrans Arg argLe := ⟨fun _ _ _ hab hbc => le_trans hab hbc⟩

theorem insertionSort_eq_iff {args args' : List Arg}
    : args.insertionSort argLe = args'.insertionSort argLe ↔ args.Perm args' := by
  have hargs := List.perm_insertionSort argLe args
  have hargs' := List.perm_insertionSort argLe args'
  constructor
  . intro h
    rw [h] at hargs
    exact hargs.symm.trans hargs'
  . intro h
    apply List.Perm.eq_of_pairwise ?_ (List.pairwise_insertionSort argLe args) (List.pairwise_insertionSort argLe args')
    . exact hargs.trans (h.trans hargs'.symm)
    . intro a b _ _ hab hba
      exact argOrder_injective (le_antisymm hab hba)

-- The digest is of one length, so that it can be cut off.
theorem keyText_eq_iff {dockerfile content content' : List UInt8} {args args' : List Arg}
    (hlength : content.length = content'.length)
    : keyText dockerfile args content = keyText dockerfile args' content' ↔ args.Perm args' ∧ content = content' := by
  constructor
  . intro h
    unfold keyText at h
    rcases List.append_inj' h hlength with ⟨hargs, hcontent⟩
    have hsorted := flatMap_argText_injective (List.append_cancel_left hargs)
    exact ⟨insertionSort_eq_iff.mp hsorted, hcontent⟩
  . rintro ⟨hargs, rfl⟩
    rw [keyText, keyText, insertionSort_eq_iff.mpr hargs]

end Texts

section Archive

variable (checkout : Checkout)

def Regular (listed : List (Blob × Node)) (item : Path × Node) : Prop :=
  ∃ rel executable bytes, (rel, .file executable bytes) ∈ listed ∧
    item = (Files.components rel.val, .file executable bytes)

-- What is shipped and not digested: the links that resolve, and the trees of the directories.
def Undigested (selected : List (Blob × Path)) (item : Path × Node) : Prop :=
  ∃ rel path, (rel, path) ∈ selected ∧
    ((∃ target, checkout.files.symlinkMetadata path = some (.link target) ∧ (checkout.files.metadata path).isSome = true ∧
        item = (Files.components rel.val, .link target)) ∨
      ∃ real, checkout.files.locate path = some real ∧ checkout.files.lookup real = some .dir ∧
        ∃ below ∈ checkout.files.below real, item = (Files.components rel.val ++ below.1, below.2))

def Checkout.fits (selected : List (Blob × Path)) : Prop :=
  ((sizes checkout selected).map Prod.fst).sum ≤ checkout.contextMaxBytes

-- What `tar` comes by on its way through the names it is given.
def walked (selected : List (Blob × Path)) : List Visit :=
  (selected.filter fun (_, path) => (checkout.files.metadata path).isSome).flatMap fun (rel, path) =>
    visits checkout rel path

-- `tar` comes by the file again, under `name`, which it has archived under `first`.
def HardLinked (selected : List (Blob × Path)) (name first : Path) : Prop :=
  ∃ before v after, walked checkout selected = before ++ v :: after ∧ v.name = name ∧
    v.hardLink checkout before = some first

variable {checkout}

theorem mem_visits {rel : Blob} {path : Path} {v : Visit}
    : v ∈ visits checkout rel path ↔
        (∃ real node, checkout.files.locate path = some real ∧ checkout.files.lookup real = some node ∧ node ≠ .dir ∧
          v = ⟨Files.components rel.val, real, node⟩) ∨
        ∃ real, checkout.files.locate path = some real ∧ checkout.files.lookup real = some .dir ∧
          ∃ below ∈ checkout.files.below real, v = ⟨Files.components rel.val ++ below.1, real ++ below.1, below.2⟩ := by
  unfold visits
  cases hlocate : checkout.files.locate path with
  | none => simp
  | some real =>
    simp only [Option.some.injEq]
    cases hlookup : checkout.files.lookup real with
    | none =>
      constructor
      . intro h
        cases h
      . rintro (⟨_, _, rfl, hnode, _⟩ | ⟨_, rfl, hdir, _⟩)
        . cases hlookup.symm.trans hnode
        . cases hlookup.symm.trans hdir
    | some node =>
      by_cases hne : node = .dir
      . subst hne
        constructor
        . intro h
          rcases List.mem_map.mp h with ⟨below, hbelow, rfl⟩
          exact Or.inr ⟨real, rfl, hlookup, below, hbelow, rfl⟩
        . rintro (⟨_, node, rfl, hnode, hne, _⟩ | ⟨_, rfl, _, below, hbelow, rfl⟩)
          . cases hlookup.symm.trans hnode
            exact absurd rfl hne
          . exact List.mem_map.mpr ⟨below, hbelow, rfl⟩
      . have hsingle : v ∈ [(⟨Files.components rel.val, real, node⟩ : Visit)] ↔
            (∃ real' node', real = real' ∧ checkout.files.lookup real' = some node' ∧ node' ≠ .dir ∧
              v = ⟨Files.components rel.val, real', node'⟩) ∨
            ∃ real', real = real' ∧ checkout.files.lookup real' = some .dir ∧ ∃ below ∈ checkout.files.below real',
              v = ⟨Files.components rel.val ++ below.1, real' ++ below.1, below.2⟩ := by
          rw [List.mem_singleton]
          constructor
          . rintro rfl
            exact Or.inl ⟨real, node, rfl, hlookup, hne, rfl⟩
          . rintro (⟨_, node', rfl, hnode, _, rfl⟩ | ⟨_, rfl, hdir, _⟩)
            . cases hlookup.symm.trans hnode
              rfl
            . cases hlookup.symm.trans hdir
              exact absurd rfl hne
        cases node with
        | dir => exact absurd rfl hne
        | file executable bytes => exact hsingle
        | link target => exact hsingle

theorem mem_present {selected : List (Blob × Path)} {rel : Blob} {node : Node}
    : (rel, node) ∈ present checkout selected ↔
        ∃ path, (rel, path) ∈ selected ∧ checkout.files.symlinkMetadata path = some node := by
  simp only [present, List.mem_filterMap, Option.map_eq_some_iff, Prod.mk.injEq]
  constructor
  . rintro ⟨⟨rel', path⟩, hmem, node', hnode, rfl, rfl⟩
    exact ⟨path, hmem, hnode⟩
  . rintro ⟨path, hmem, hnode⟩
    exact ⟨(rel, path), hmem, node, hnode, rfl, rfl⟩

theorem spawnTar_eq_ok {context : Context} {entries : List Entry}
    : spawnTar checkout context = .ok entries ↔
        ∃ selected, selectedFiles checkout context = .ok selected ∧ checkout.fits selected ∧
          entries = archive checkout [] (walked checkout selected) := by
  unfold spawnTar Checkout.fits
  cases selectedFiles checkout context with
  | error e => simp [bind, Except.bind]
  | ok selected =>
    simp only [bind, Except.bind, Except.ok.injEq]
    split
    . next hlarge =>
      constructor
      . intro h
        cases h
      . rintro ⟨_, rfl, hfits, _⟩
        omega
    . next hfits =>
      constructor
      . intro h
        cases h
        exact ⟨selected, rfl, by omega, rfl⟩
      . rintro ⟨_, rfl, _, rfl⟩
        rfl

theorem selectedFiles_path {context : Context} {selected : List (Blob × Path)}
    (h : selectedFiles checkout context = .ok selected) {rel : Blob} {path : Path} (hmem : (rel, path) ∈ selected)
    : path = context.root ++ Files.components rel.val := by
  rcases Run.bind_ok h with ⟨names, _, hselected⟩
  dsimp only at hselected
  split at hselected
  . cases hselected
  . cases hselected
    rcases List.mem_map.mp hmem with ⟨_, _, heq⟩
    cases heq
    rfl

theorem walked_located {context : Context} {selected : List (Blob × Path)}
    (h : selectedFiles checkout context = .ok selected) {v : Visit} (hv : v ∈ walked checkout selected)
    : checkout.files.locate (context.root ++ v.name) = some v.real ∧ checkout.files.lookup v.real = some v.node := by
  rcases List.mem_flatMap.mp hv with ⟨⟨rel, path⟩, hmem, hvisit⟩
  cases selectedFiles_path h (List.mem_filter.mp hmem).1
  rcases mem_visits.mp hvisit with ⟨real, node, hreal, hnode, _, rfl⟩ | ⟨real, hreal, _, below, hbelow, rfl⟩
  . exact ⟨hreal, hnode⟩
  . have hlookup := checkout.files.mem_below hbelow
    dsimp only
    rw [← List.append_assoc]
    exact ⟨checkout.files.locate_append hreal hlookup, hlookup⟩

theorem mem_walked {selected : List (Blob × Path)} {item : Path × Node}
    : (∃ v ∈ walked checkout selected, (v.name, v.node) = item) ↔
        Regular (present checkout selected) item ∨ Undigested checkout selected item := by
  simp only [walked, List.mem_flatMap, List.mem_filter, Prod.exists]
  constructor
  . rintro ⟨v, ⟨rel, path, ⟨hmem, hsome⟩, hvisit⟩, rfl⟩
    rcases mem_visits.mp hvisit with ⟨real, node, hreal, hlookup, hne, rfl⟩ | ⟨real, hreal, hdir, below, hbelow, rfl⟩
    . have hnode : checkout.files.symlinkMetadata path = some node := by
        rw [Files.Tree.symlinkMetadata, hreal]
        exact hlookup
      cases node with
      | file executable bytes => exact Or.inl ⟨rel, executable, bytes, mem_present.mpr ⟨path, hmem, hnode⟩, rfl⟩
      | link target => exact Or.inr ⟨rel, path, hmem, Or.inl ⟨target, hnode, hsome, rfl⟩⟩
      | dir => exact absurd rfl hne
    . exact Or.inr ⟨rel, path, hmem, Or.inr ⟨real, hreal, hdir, below, hbelow, rfl⟩⟩
  . rintro (⟨rel, executable, bytes, hlisted, rfl⟩ | ⟨rel, path, hmem, ⟨target, hnode, hsome, rfl⟩ | hdir⟩)
    . rcases mem_present.mp hlisted with ⟨path, hmem, hnode⟩
      have hmetadata := checkout.files.metadata_of_symlinkMetadata hnode rfl
      rw [Files.Tree.symlinkMetadata, Option.bind_eq_some_iff] at hnode
      rcases hnode with ⟨real, hreal, hlookup⟩
      refine ⟨⟨_, real, .file executable bytes⟩, ⟨rel, path, ⟨hmem, Option.isSome_of_eq_some hmetadata⟩, ?_⟩, rfl⟩
      exact mem_visits.mpr (Or.inl ⟨real, _, hreal, hlookup, by simp, rfl⟩)
    . rw [Files.Tree.symlinkMetadata, Option.bind_eq_some_iff] at hnode
      rcases hnode with ⟨real, hreal, hlookup⟩
      refine ⟨⟨_, real, .link target⟩, ⟨rel, path, ⟨hmem, hsome⟩, ?_⟩, rfl⟩
      exact mem_visits.mpr (Or.inl ⟨real, _, hreal, hlookup, by simp, rfl⟩)
    . rcases hdir with ⟨real, hreal, hlookup, below, hbelow, rfl⟩
      have hnode : checkout.files.symlinkMetadata path = some .dir := by
        rw [Files.Tree.symlinkMetadata, hreal]
        exact hlookup
      have hmetadata := checkout.files.metadata_of_symlinkMetadata hnode rfl
      refine ⟨⟨_, real ++ below.1, below.2⟩, ⟨rel, path, ⟨hmem, Option.isSome_of_eq_some hmetadata⟩, ?_⟩, rfl⟩
      exact mem_visits.mpr (Or.inr ⟨real, hreal, hlookup, below, hbelow, rfl⟩)

theorem mem_archive {before vs : List Visit} {entry : Entry}
    : entry ∈ archive checkout before vs ↔
        ∃ pre v post, vs = pre ++ v :: post ∧ entry = ⟨v.name, v.node, v.hardLink checkout (before ++ pre)⟩ := by
  induction vs generalizing before with
  | nil => simp [archive]
  | cons u vs ih =>
    rw [archive, List.mem_cons, ih]
    constructor
    . rintro (rfl | ⟨pre, v, post, rfl, rfl⟩)
      . exact ⟨[], u, vs, rfl, by rw [List.append_nil]⟩
      . exact ⟨u :: pre, v, post, rfl, by rw [List.append_assoc, List.singleton_append]⟩
    . rintro ⟨pre, v, post, hsplit, rfl⟩
      rcases List.cons_eq_append_iff.mp hsplit with ⟨rfl, hcons⟩ | ⟨pre', rfl, hrest⟩
      . cases hcons
        exact Or.inl (by rw [List.append_nil])
      . exact Or.inr ⟨pre', v, post, hrest, by rw [List.append_assoc, List.singleton_append]⟩

theorem walked_determined {context : Context} {selected : List (Blob × Path)}
    (h : selectedFiles checkout context = .ok selected) {u v : Visit} (hu : u ∈ walked checkout selected)
    (hv : v ∈ walked checkout selected) (hname : u.name = v.name)
    : u = v := by
  rcases walked_located h hu with ⟨hureal, hunode⟩
  rcases walked_located h hv with ⟨hvreal, hvnode⟩
  rcases u with ⟨name, ureal, unode⟩
  rcases v with ⟨_, vreal, vnode⟩
  dsimp only at *
  subst hname
  cases hureal.symm.trans hvreal
  cases hunode.symm.trans hvnode
  rfl

theorem hardLink_eq (checkout : Checkout) (before after : List Visit) {v : Visit} (hne : v.node ≠ .dir)
    : ∃ first, (before ++ v :: after).find? (v.sameFile checkout) = some first ∧
        (v.hardLink checkout before = none ∧ first = v ∨ v.hardLink checkout before = some first.name) := by
  have hself : v.sameFile checkout v = true := by simp [Visit.sameFile, hne]
  rw [List.find?_append, Visit.hardLink, if_neg hne]
  cases before.find? (v.sameFile checkout) with
  | none =>
    rw [Option.none_or, List.find?_cons_of_pos hself]
    exact ⟨v, rfl, Or.inl ⟨rfl, rfl⟩⟩
  | some first => exact ⟨first, rfl, Or.inr rfl⟩

theorem hardLink_of_find {vs : List Visit} {v : Visit} (h : vs.find? (v.sameFile checkout) = some v)
    : ∃ before after, vs = before ++ v :: after ∧ v.hardLink checkout before = none := by
  rcases List.find?_eq_some_iff_append.mp h with ⟨_, before, after, rfl, hnone⟩
  refine ⟨before, after, rfl, ?_⟩
  unfold Visit.hardLink
  split
  . rfl
  . rw [Option.map_eq_none_iff, List.find?_eq_none]
    intro u hu
    simpa using hnone u hu

section Same

variable {a b : Checkout} {selected selected' : List (Blob × Path)} {context context' : Context}
variable (ha : selectedFiles a context = .ok selected) (hb : selectedFiles b context' = .ok selected')
variable (hlinks : ∀ name first, HardLinked a selected name first ↔ HardLinked b selected' name first)
include ha hb hlinks

theorem find_of_same {before after : List Visit} {u v : Visit} (hsplit : walked a selected = before ++ v :: after)
    (hlink : v.hardLink a before = none) (hu : u ∈ walked b selected') (hname : u.name = v.name)
    (hnode : u.node = v.node) (hne : v.node ≠ .dir)
    : (walked b selected').find? (u.sameFile b) = some u := by
  rcases List.append_of_mem hu with ⟨before', after', hsplit'⟩
  rcases hardLink_eq b before' after' (v := u) (hnode ▸ hne) with
    ⟨first, hfirst, ⟨_, rfl⟩ | hlink'⟩
  . rw [hsplit']
    exact hfirst
  . have hfirstA : (walked a selected).find? (v.sameFile a) = some v := by
      rcases hardLink_eq a before after hne with ⟨_, hfind, ⟨_, rfl⟩ | hsome⟩
      . rw [hsplit]
        exact hfind
      . cases hlink.symm.trans hsome
    rcases (hlinks u.name first.name).mpr ⟨before', u, after', hsplit', rfl, hlink'⟩ with
      ⟨before'', w, after'', hsplit'', hwname, hwlink⟩
    have hmem : v ∈ walked a selected := by simp [hsplit]
    have hw : w = v := walked_determined ha (by simp [hsplit'']) hmem (hwname.trans hname)
    subst hw
    rcases hardLink_eq a before'' after'' hne with ⟨_, hfind, ⟨hnone, _⟩ | hsome⟩
    . cases hnone.symm.trans hwlink
    -- The first name of the file is its own in `a`, so it is in `b`.
    . rw [← hsplit'', hfirstA] at hfind
      cases hfind
      have hfirstName := Option.some.inj (hsome.symm.trans hwlink)
      rw [← hsplit'] at hfirst
      have hfirstEq := walked_determined hb (List.mem_of_find?_eq_some hfirst) hu (hfirstName.symm.trans hname.symm)
      rw [hfirst, hfirstEq]

theorem archived_of_same {entry : Entry}
    (hitems : ∀ item, (∃ v ∈ walked a selected, (v.name, v.node) = item) →
      ∃ v ∈ walked b selected', (v.name, v.node) = item)
    (h : entry ∈ archive a [] (walked a selected))
    : entry ∈ archive b [] (walked b selected') := by
  rcases mem_archive.mp h with ⟨before, v, after, hsplit, rfl⟩
  rcases hitems _ ⟨v, by simp [hsplit], rfl⟩ with ⟨u, hu, hsame⟩
  rcases Prod.mk.inj hsame with ⟨hname, hnode⟩
  rw [List.nil_append, mem_archive]
  cases hlink : v.hardLink a before with
  | some first =>
    rcases (hlinks v.name first).mp ⟨before, v, after, hsplit, rfl, hlink⟩ with
      ⟨before', w, after', hsplit', hwname, hwlink⟩
    have hw : w = u := walked_determined hb (by simp [hsplit']) hu (hwname.trans hname.symm)
    exact ⟨before', w, after', hsplit', by rw [List.nil_append, hwlink, hwname, hw, hnode]⟩
  | none =>
    by_cases hne : v.node = .dir
    . rcases List.append_of_mem hu with ⟨before', after', hsplit'⟩
      refine ⟨before', u, after', hsplit', ?_⟩
      rw [Visit.hardLink, if_pos (hnode.trans hne), hname, hnode]
    . rcases hardLink_of_find (find_of_same ha hb hlinks hsplit hlink hu hname hnode hne) with
        ⟨before', after', hsplit', hlink'⟩
      exact ⟨before', u, after', hsplit', by rw [List.nil_append, hlink', hname, hnode]⟩

end Same

theorem exists_archived {selected : List (Blob × Path)} {item : Path × Node}
    : (∃ v ∈ walked checkout selected, (v.name, v.node) = item) ↔
        ∃ hardLink, ⟨item.1, item.2, hardLink⟩ ∈ archive checkout [] (walked checkout selected) := by
  simp only [mem_archive, List.nil_append]
  constructor
  . rintro ⟨v, hv, rfl⟩
    rcases List.append_of_mem hv with ⟨before, after, hsplit⟩
    exact ⟨_, before, v, after, hsplit, rfl⟩
  . rintro ⟨_, before, v, after, hsplit, hentry⟩
    rcases Entry.mk.inj hentry with ⟨hname, hnode, _⟩
    exact ⟨v, by simp [hsplit], Prod.ext hname.symm hnode.symm⟩

theorem hardLinked_iff {selected : List (Blob × Path)} {name first : Path}
    : HardLinked checkout selected name first ↔
        ∃ node, ⟨name, node, some first⟩ ∈ archive checkout [] (walked checkout selected) := by
  simp only [mem_archive, List.nil_append]
  constructor
  . rintro ⟨before, v, after, hsplit, rfl, hlink⟩
    exact ⟨v.node, before, v, after, hsplit, by rw [hlink]⟩
  . rintro ⟨_, before, v, after, hsplit, hentry⟩
    rcases Entry.mk.inj hentry with ⟨hname, _, hlink⟩
    exact ⟨before, v, after, hsplit, hname.symm, hlink.symm⟩

/--
Two archives have the same entries exactly where `tar` comes by the same names with the same there, and by
the same files again.
-/
theorem archive_same_iff {a b : Checkout} {selected selected' : List (Blob × Path)} {context context' : Context}
    (ha : selectedFiles a context = .ok selected) (hb : selectedFiles b context' = .ok selected')
    : (∀ entry, entry ∈ archive a [] (walked a selected) ↔ entry ∈ archive b [] (walked b selected')) ↔
        (∀ item, (∃ v ∈ walked a selected, (v.name, v.node) = item) ↔
          ∃ v ∈ walked b selected', (v.name, v.node) = item) ∧
        ∀ name first, HardLinked a selected name first ↔ HardLinked b selected' name first := by
  constructor
  . intro h
    constructor
    . intro item
      simp only [exists_archived, h]
    . intro name first
      simp only [hardLinked_iff, h]
  . rintro ⟨hitems, hlinks⟩ entry
    constructor
    . exact archived_of_same ha hb hlinks fun item => (hitems item).mp
    . exact archived_of_same hb ha (fun name first => (hlinks name first).symm) fun item => (hitems item).mpr

end Archive

section Key

variable (sha256 : List UInt8 → List UInt8) (dockerfile : List UInt8)

/--
One key means one set of archive entries and one multiset of build arguments, whose order is of no concern.
-/
structure Addresses (a b : Source) : Prop where
  entries : ∀ key, runnerKey sha256 dockerfile a.checkout a.context a.buildArgs = .ok key →
    runnerKey sha256 dockerfile b.checkout b.context b.buildArgs = .ok key →
    ∀ es es', spawnTar a.checkout a.context = .ok es → spawnTar b.checkout b.context = .ok es' →
      ∀ entry, entry ∈ es ↔ entry ∈ es'
  args : ∀ key, runnerKey sha256 dockerfile a.checkout a.context a.buildArgs = .ok key →
    runnerKey sha256 dockerfile b.checkout b.context b.buildArgs = .ok key → a.buildArgs.Perm b.buildArgs
  permuted : ∀ args, args.Perm a.buildArgs →
    runnerKey sha256 dockerfile a.checkout a.context args =
      runnerKey sha256 dockerfile a.checkout a.context a.buildArgs

/--
Where two sources select the same names with the same kinds, modes, bytes and targets, and both fit, the
links that resolve and the trees of the directories are the same, but for the files that are selected anyway,
and the same names are hard links to the same earlier ones.
-/
def SameUndigested (a b : Source) : Prop :=
  ∀ selected selected', selectedFiles a.checkout a.context = .ok selected →
    selectedFiles b.checkout b.context = .ok selected' →
    present a.checkout selected = present b.checkout selected' → a.buildArgs.Perm b.buildArgs →
    a.checkout.fits selected → b.checkout.fits selected' →
    (∀ item, ¬Regular (present a.checkout selected) item →
      (Undigested a.checkout selected item ↔ Undigested b.checkout selected' item)) ∧
    ∀ name first, HardLinked a.checkout selected name first ↔ HardLinked b.checkout selected' name first

def hashed (a : Source) : List (List UInt8) :=
  match contentText a.checkout a.context with
  | .error _ => []
  | .ok text => [text, keyText dockerfile a.buildArgs (hex (sha256 text))]

def NoCollision (texts : List (List UInt8)) : Prop :=
  ∀ x ∈ texts, ∀ y ∈ texts, (sha256 x).take 8 = (sha256 y).take 8 → x = y

variable {sha256 dockerfile} {a b : Source}

theorem contentText_of_selected {checkout : Checkout} {context : Context} {selected : List (Blob × Path)}
    (h : selectedFiles checkout context = .ok selected)
    : contentText checkout context = .ok ((present checkout selected).flatMap entryText) := by
  rw [contentText, h]
  rfl

theorem runnerKey_of_selected {selected : List (Blob × Path)} (h : selectedFiles a.checkout a.context = .ok selected)
    (args : List Arg)
    : runnerKey sha256 dockerfile a.checkout a.context args =
        .ok (shortHash sha256 (keyText dockerfile args (hex (sha256 ((present a.checkout selected).flatMap entryText))))) := by
  rw [runnerKey, contentDigest, contentText_of_selected h]
  rfl

theorem selected_of_runnerKey {args : List Arg} {key : List UInt8}
    (h : runnerKey sha256 dockerfile a.checkout a.context args = .ok key)
    : ∃ selected, selectedFiles a.checkout a.context = .ok selected := by
  rcases Run.map_ok h with ⟨content, hcontent, _⟩
  rcases Run.map_ok hcontent with ⟨text, htext, _⟩
  rcases Run.map_ok htext with ⟨selected, hselected, _⟩
  exact ⟨selected, hselected⟩

theorem runnerKey_perm {args args' : List Arg} (h : args.Perm args')
    : runnerKey sha256 dockerfile a.checkout a.context args = runnerKey sha256 dockerfile a.checkout a.context args' := by
  have hfold : ∀ content, foldKey sha256 dockerfile args content = foldKey sha256 dockerfile args' content := by
    intro content
    rw [foldKey, foldKey, (keyText_eq_iff rfl).mpr ⟨h, rfl⟩]
  rw [runnerKey, runnerKey, funext hfold]

theorem runnerKey_eq_iff (hlength : ∀ text, (sha256 text).length = 32)
    (hfree : NoCollision sha256 (hashed sha256 dockerfile a ++ hashed sha256 dockerfile b))
    {selected selected' : List (Blob × Path)} (ha : selectedFiles a.checkout a.context = .ok selected)
    (hb : selectedFiles b.checkout b.context = .ok selected')
    : runnerKey sha256 dockerfile a.checkout a.context a.buildArgs =
          runnerKey sha256 dockerfile b.checkout b.context b.buildArgs ↔
        present a.checkout selected = present b.checkout selected' ∧ a.buildArgs.Perm b.buildArgs := by
  rw [hashed, hashed, contentText_of_selected ha, contentText_of_selected hb] at hfree
  rw [runnerKey_of_selected ha, runnerKey_of_selected hb]
  generalize present a.checkout selected = listed at hfree ⊢
  generalize present b.checkout selected' = listed' at hfree ⊢
  constructor
  . intro h
    have hkeys := Frame.hex_injective (Except.ok.inj h)
    have htexts := hfree _ (by simp) _ (by simp) hkeys
    have hdigests : (hex (sha256 (listed.flatMap entryText))).length = (hex (sha256 (listed'.flatMap entryText))).length := by
      rw [Frame.length_hex, Frame.length_hex, hlength, hlength]
    rcases (keyText_eq_iff hdigests).mp htexts with ⟨hargs, hhex⟩
    have hcontents := hfree _ (by simp) _ (by simp) (congrArg (List.take 8) (Frame.hex_injective hhex))
    exact ⟨flatMap_entryText_injective hcontents, hargs⟩
  . rintro ⟨rfl, hargs⟩
    rw [(keyText_eq_iff rfl).mpr ⟨hargs, rfl⟩]

/--
The key of a runner image addresses what is shipped exactly where the sources agree on what the digest
leaves out.
-/
theorem addresses_iff_sameUndigested (hlength : ∀ text, (sha256 text).length = 32)
    (hfree : NoCollision sha256 (hashed sha256 dockerfile a ++ hashed sha256 dockerfile b))
    : Addresses sha256 dockerfile a b ↔ SameUndigested a b := by
  constructor
  . intro h selected selected' ha hb hpresent hargs hfits hfits'
    have hkey := (runnerKey_eq_iff hlength hfree ha hb).mpr ⟨hpresent, hargs⟩
    have hkeyA : runnerKey sha256 dockerfile a.checkout a.context a.buildArgs = _ := runnerKey_of_selected ha a.buildArgs
    have hes := spawnTar_eq_ok.mpr ⟨selected, ha, hfits, rfl⟩
    have hes' := spawnTar_eq_ok.mpr ⟨selected', hb, hfits', rfl⟩
    rcases (archive_same_iff ha hb).mp (h.entries _ hkeyA (hkey.symm.trans hkeyA) _ _ hes hes') with ⟨hitems, hlinks⟩
    refine ⟨?_, hlinks⟩
    intro item hregular
    have hiff := hitems item
    rw [mem_walked, mem_walked, ← hpresent] at hiff
    simpa [hregular] using hiff
  . intro h
    have hsame : ∀ {key}, runnerKey sha256 dockerfile a.checkout a.context a.buildArgs = .ok key →
        runnerKey sha256 dockerfile b.checkout b.context b.buildArgs = .ok key →
        ∃ selected selected', selectedFiles a.checkout a.context = .ok selected ∧
          selectedFiles b.checkout b.context = .ok selected' ∧
          present a.checkout selected = present b.checkout selected' ∧ a.buildArgs.Perm b.buildArgs := by
      intro key hkeyA hkeyB
      rcases selected_of_runnerKey hkeyA with ⟨selected, ha⟩
      rcases selected_of_runnerKey hkeyB with ⟨selected', hb⟩
      exact ⟨selected, selected', ha, hb, (runnerKey_eq_iff hlength hfree ha hb).mp (hkeyA.trans hkeyB.symm)⟩
    refine ⟨?_, ?_, ?_⟩
    . intro key hkeyA hkeyB es es' hes hes'
      rcases hsame hkeyA hkeyB with ⟨selected, selected', ha, hb, hpresent, hargs⟩
      rcases spawnTar_eq_ok.mp hes with ⟨_, hselected, hfits, rfl⟩
      rcases spawnTar_eq_ok.mp hes' with ⟨_, hselected', hfits', rfl⟩
      cases ha.symm.trans hselected
      cases hb.symm.trans hselected'
      rcases h selected selected' ha hb hpresent hargs hfits hfits' with ⟨hundigested, hlinks⟩
      refine (archive_same_iff ha hb).mpr ⟨?_, hlinks⟩
      intro item
      rw [mem_walked, mem_walked, ← hpresent]
      by_cases hregular : Regular (present a.checkout selected) item
      . simp [hregular]
      . simp only [hregular, false_or]
        exact hundigested item hregular
    . intro key hkeyA hkeyB
      rcases hsame hkeyA hkeyB with ⟨_, _, _, _, _, hargs⟩
      exact hargs
    . intro args hargs
      exact runnerKey_perm hargs

end Key

namespace Context
namespace Sample

def hashes : List (List UInt8 × List UInt8) :=
  [ ([1, 0, 0, 0, 0, 0, 0, 0, 97, 0, 0, 1, 0, 0, 0, 0, 0, 0, 0, 1, 1, 0, 0, 0, 0, 0, 0, 0, 108, 1, 1, 0, 0,
      0, 0, 0, 0, 0, 97],
      [168, 204, 226, 83, 131, 134, 109, 208, 5, 108, 218, 234, 73, 45, 247, 67, 15, 0, 34, 136, 97, 110, 116,
      43, 165, 124, 94, 158, 84, 129, 106, 222]),
    ([1, 0, 0, 0, 70, 82, 79, 77, 32, 97, 1, 0, 0, 0, 0, 0, 0, 0, 65, 1, 0, 0, 0, 0, 0, 0, 0, 66, 1, 0, 0, 0,
      0, 0, 0, 0, 75, 1, 0, 0, 0, 0, 0, 0, 0, 86, 97, 56, 99, 99, 101, 50, 53, 51, 56, 51, 56, 54, 54, 100,
      100, 48, 48, 53, 54, 99, 100, 97, 101, 97, 52, 57, 50, 100, 102, 55, 52, 51, 48, 102, 48, 48, 50, 50,
      56, 56, 54, 49, 54, 101, 55, 52, 50, 98, 97, 53, 55, 99, 53, 101, 57, 101, 53, 52, 56, 49, 54, 97, 100,
      101],
      [217, 152, 152, 62, 187, 6, 57, 150, 38, 64, 29, 221, 245, 48, 41, 228, 138, 70, 26, 147, 129, 204, 70,
      142, 87, 40, 75, 23, 79, 2, 103, 17]),
    ([1, 0, 0, 0, 0, 0, 0, 0, 100, 2],
      [31, 50, 172, 208, 229, 58, 21, 248, 49, 184, 214, 1, 240, 170, 229, 168, 154, 84, 5, 224, 108, 189, 78,
      128, 59, 151, 5, 155, 214, 102, 152, 28]),
    ([1, 0, 0, 0, 70, 82, 79, 77, 32, 97, 49, 102, 51, 50, 97, 99, 100, 48, 101, 53, 51, 97, 49, 53, 102, 56,
      51, 49, 98, 56, 100, 54, 48, 49, 102, 48, 97, 97, 101, 53, 97, 56, 57, 97, 53, 52, 48, 53, 101, 48, 54,
      99, 98, 100, 52, 101, 56, 48, 51, 98, 57, 55, 48, 53, 57, 98, 100, 54, 54, 54, 57, 56, 49, 99],
      [4, 189, 106, 174, 134, 25, 169, 173, 243, 250, 248, 109, 31, 242, 221, 182, 74, 171, 229, 142, 174,
      219, 150, 50, 149, 66, 238, 224, 235, 20, 50, 240]),
    ([1, 0, 0, 0, 0, 0, 0, 0, 108, 1, 1, 0, 0, 0, 0, 0, 0, 0, 120],
      [56, 45, 25, 223, 1, 189, 79, 61, 153, 230, 140, 173, 91, 131, 74, 84, 64, 58, 8, 54, 55, 53, 18, 117,
      120, 237, 218, 6, 242, 82, 140, 187]),
    ([1, 0, 0, 0, 70, 82, 79, 77, 32, 97, 51, 56, 50, 100, 49, 57, 100, 102, 48, 49, 98, 100, 52, 102, 51,
      100, 57, 57, 101, 54, 56, 99, 97, 100, 53, 98, 56, 51, 52, 97, 53, 52, 52, 48, 51, 97, 48, 56, 51, 54,
      51, 55, 51, 53, 49, 50, 55, 53, 55, 56, 101, 100, 100, 97, 48, 54, 102, 50, 53, 50, 56, 99, 98, 98],
      [72, 74, 41, 187, 181, 202, 95, 249, 40, 67, 224, 175, 199, 43, 111, 224, 141, 170, 214, 96, 228, 225,
      254, 180, 86, 239, 163, 242, 177, 143, 143, 208]),
    ([1, 0, 0, 0, 0, 0, 0, 0, 97, 0, 0, 1, 0, 0, 0, 0, 0, 0, 0, 1, 1, 0, 0, 0, 0, 0, 0, 0, 98, 0, 0, 1, 0, 0,
      0, 0, 0, 0, 0, 1],
      [218, 169, 2, 6, 140, 118, 162, 46, 11, 200, 95, 50, 205, 192, 90, 155, 167, 180, 146, 159, 42, 252, 142,
      100, 205, 13, 90, 78, 243, 216, 234, 70]),
    ([1, 0, 0, 0, 70, 82, 79, 77, 32, 97, 100, 97, 97, 57, 48, 50, 48, 54, 56, 99, 55, 54, 97, 50, 50, 101,
      48, 98, 99, 56, 53, 102, 51, 50, 99, 100, 99, 48, 53, 97, 57, 98, 97, 55, 98, 52, 57, 50, 57, 102, 50,
      97, 102, 99, 56, 101, 54, 52, 99, 100, 48, 100, 53, 97, 52, 101, 102, 51, 100, 56, 101, 97, 52, 54],
      [49, 199, 229, 81, 153, 252, 12, 43, 250, 37, 60, 3, 254, 180, 151, 54, 226, 235, 146, 115, 72, 135, 230,
      62, 71, 12, 55, 57, 59, 88, 40, 108]) ]

def sha256 (text : List UInt8) : List UInt8 := (hashes.lookup text).getD (List.replicate 32 0)

theorem length_sha256 (text : List UInt8) : (sha256 text).length = 32 := by
  unfold sha256
  cases h : hashes.lookup text with
  | none => rfl
  | some digest =>
    have hdigests : ∀ e ∈ hashes, e.2.length = 32 := by decide
    rcases List.lookup_eq_some_iff.mp h with ⟨before, after, heq, _⟩
    apply hdigests (text, digest)
    rw [heq]
    exact List.mem_append_right _ List.mem_cons_self

def dockerfile : List UInt8 := [70, 82, 79, 77, 32, 97]

def root : Path := [[115]]

def context : Context := ⟨root, [root]⟩

-- A checkout in `/s`, where git lists `listed`.
def checkout (listed : List UInt8) (files : Files.Tree) : Checkout := ⟨files, fun _ => .ok listed, fun _ => true, 1024⟩

def file (byte : UInt8) : Node := .file false ⟨[byte], by simp⟩

-- `a` and a link to it, with or without an ignored file.
def clean : Source where
  checkout := checkout [97, 0, 108, 0]
    ⟨[([], .dir), (root, .dir), (root ++ [[97]], file 1), (root ++ [[108]], .link ⟨[97], by decide⟩)], id, by decide, by decide, by decide⟩
  context := context
  buildArgs := [(⟨[75], by decide⟩, ⟨[86], by decide⟩), (⟨[65], by decide⟩, ⟨[66], by decide⟩)]

def built : Source where
  checkout := checkout [97, 0, 108, 0]
    ⟨[([], .dir), (root, .dir), (root ++ [[97]], file 1), (root ++ [[108]], .link ⟨[97], by decide⟩),
      (root ++ [[116]], file 2)], id, by decide, by decide, by decide⟩
  context := context
  buildArgs := [(⟨[65], by decide⟩, ⟨[66], by decide⟩), (⟨[75], by decide⟩, ⟨[86], by decide⟩)]

-- A submodule `d`, at two of its commits.
def submodule : Source where
  checkout := checkout [100, 0]
    ⟨[([], .dir), (root, .dir), (root ++ [[100]], .dir), (root ++ [[100], [102]], file 1)], id, by decide, by decide, by decide⟩
  context := context
  buildArgs := []

def bumped : Source where
  checkout := checkout [100, 0]
    ⟨[([], .dir), (root, .dir), (root ++ [[100]], .dir), (root ++ [[100], [102]], file 2)], id, by decide, by decide, by decide⟩
  context := context
  buildArgs := []

-- A link to `x`, which is ignored.
def dangling : Source where
  checkout := checkout [108, 0]
    ⟨[([], .dir), (root, .dir), (root ++ [[108]], .link ⟨[120], by decide⟩)], id, by decide, by decide, by decide⟩
  context := context
  buildArgs := []

def resolving : Source where
  checkout := checkout [108, 0]
    ⟨[([], .dir), (root, .dir), (root ++ [[108]], .link ⟨[120], by decide⟩), (root ++ [[120]], file 1)], id, by decide, by decide, by decide⟩
  context := context
  buildArgs := []

-- Two names `a` and `b` of one file, and two files of the same bytes.
def linked : Source where
  checkout := checkout [97, 0, 98, 0]
    ⟨[([], .dir), (root, .dir), (root ++ [[97]], file 1), (root ++ [[98]], file 1)],
      fun path => if path = root ++ [[98]] then root ++ [[97]] else path, by decide, by decide, by decide⟩
  context := context
  buildArgs := []

def copied : Source where
  checkout := checkout [97, 0, 98, 0]
    ⟨[([], .dir), (root, .dir), (root ++ [[97]], file 1), (root ++ [[98]], file 1)], id, by decide, by decide, by decide⟩
  context := context
  buildArgs := []

theorem noCollision : NoCollision sha256 (hashed sha256 dockerfile clean ++ hashed sha256 dockerfile built) := by
  unfold NoCollision
  decide

end Sample

/--
An ignored file and the order of the arguments are of no concern.
-/
theorem clean_addresses_built
    : Addresses Sample.sha256 Sample.dockerfile Sample.clean Sample.built ↔ SameUndigested Sample.clean Sample.built :=
  addresses_iff_sameUndigested Sample.length_sha256 Sample.noCollision

/--
A submodule at another commit, a link whose ignored target was built since, or a file that became a hard link
to another one is shipped under the old key.
-/
theorem undigested_entries
    : ¬Addresses Sample.sha256 Sample.dockerfile Sample.submodule Sample.bumped ∧
        ¬Addresses Sample.sha256 Sample.dockerfile Sample.dangling Sample.resolving ∧
        ¬Addresses Sample.sha256 Sample.dockerfile Sample.linked Sample.copied := by
  refine ⟨?_, ?_, ?_⟩
  . intro h
    have hiff := h.entries _ rfl rfl _ _ rfl rfl ⟨[[100], [102]], Sample.file 1, none⟩
    revert hiff
    decide
  . intro h
    have hiff := h.entries _ rfl rfl _ _ rfl rfl ⟨[[108]], .link ⟨[120], by decide⟩, none⟩
    revert hiff
    decide
  . intro h
    have hiff := h.entries _ rfl rfl _ _ rfl rfl ⟨[[98]], Sample.file 1, some [[97]]⟩
    revert hiff
    decide

end Context

end Image
