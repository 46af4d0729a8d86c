import Ztest.Lib.Frame
import Mathlib.Data.List.Basic
import Mathlib.Data.List.Induction

/-!
This module contains file trees with hard and symbolic links, and how a path is looked up in one: `metadata`
follows a symbolic link at the end of a path, `symlinkMetadata` does not.
-/

namespace Files

open Frame (Blob)

abbrev Path : Type := List (List UInt8)

inductive Node where
  | file (executable : Bool) (bytes : Blob)
  | link (target : Blob)
  | dir
  deriving DecidableEq

def Node.isLink : Node → Bool
  | .link _ => true
  | _ => false

def parentDir : List UInt8 := [46, 46]

structure Tree where
  nodes : List (Path × Node)
  -- The file that is at a path, by one of its names. Hard links are names of one file.
  inode : Path → Path
  closed : ∀ e ∈ nodes, e.1 = [] ∨ nodes.lookup e.1.dropLast = some .dir
  named : ∀ e ∈ nodes, parentDir ∉ e.1
  linked : ∀ e ∈ nodes, ∀ e' ∈ nodes, e.2 ≠ .dir → e'.2 ≠ .dir → inode e.1 = inode e'.1 → e.2 = e'.2

def components (text : List UInt8) : Path := (text.splitOn 47).filter fun name => name ≠ [] ∧ name ≠ [46]

def isAbsolute (text : List UInt8) : Bool := text.head? = some 47

namespace Tree

variable (tree : Tree)

def lookup (path : Path) : Option Node := tree.nodes.lookup path

-- From one directory on, up to a link, which `follow` takes over.
def walk (follow : Path → Path → Option Path) : Path → Path → Option Path
  | cwd, [] => some cwd
  | cwd, name :: rest =>
    if name = parentDir then
      if tree.lookup cwd = some .dir then walk follow cwd.dropLast rest else none
    else
      match tree.lookup (cwd ++ [name]) with
      | none => none
      | some (.link target) =>
        follow (if isAbsolute target.val then [] else cwd) (components target.val ++ rest)
      | some _ => walk follow (cwd ++ [name]) rest

-- `ELOOP` after so many links.
def resolve : Nat → Path → Path → Option Path
  | 0, _, _ => none
  | links + 1, cwd, path => tree.walk (resolve links) cwd path

def maxLinks : Nat := 40

def realPath (path : Path) : Option Path := tree.resolve (maxLinks + 1) [] path

-- Where the last name of a path is found.
def locate (path : Path) : Option Path :=
  match path.getLast? with
  | none => some []
  | some name => if name = parentDir then tree.realPath path else (tree.realPath path.dropLast).map (· ++ [name])

def metadata (path : Path) : Option Node := (tree.realPath path).bind tree.lookup

def symlinkMetadata (path : Path) : Option Node := (tree.locate path).bind tree.lookup

-- A directory with everything below it, as paths from `path` on.
def below (path : Path) : List (Path × Node) :=
  (tree.nodes.map Prod.fst).filterMap fun full =>
    if path <+: full then (tree.lookup full).map (full.drop path.length, ·) else none

theorem walk_concat {follow : Path → Path → Option Path} {name : List UInt8} {node : Node} (hname : name ≠ parentDir)
    (hnode : node.isLink = false)
    (hfollow : ∀ cwd path real, follow cwd path = some real → tree.lookup (real ++ [name]) = some node →
      follow cwd (path ++ [name]) = some (real ++ [name]))
    {cwd path real : Path} (h : tree.walk follow cwd path = some real) (hlookup : tree.lookup (real ++ [name]) = some node)
    : tree.walk follow cwd (path ++ [name]) = some (real ++ [name]) := by
  induction path generalizing cwd with
  | nil =>
    cases h
    rw [List.nil_append, walk, if_neg hname, hlookup]
    cases node with
    | link target => cases hnode
    | _ => rfl
  | cons next rest ih =>
    rw [walk] at h
    rw [List.cons_append, walk]
    split at h
    . next hparent =>
      rw [if_pos hparent]
      split at h
      . next hdir =>
        rw [if_pos hdir]
        exact ih h
      . cases h
    . next hparent =>
      rw [if_neg hparent]
      split at h
      . cases h
      . rw [← List.append_assoc]
        exact hfollow _ _ _ h hlookup
      . exact ih h

theorem resolve_concat {name : List UInt8} {node : Node} (hname : name ≠ parentDir) (hnode : node.isLink = false)
    {links : Nat} {cwd path real : Path} (h : tree.resolve links cwd path = some real)
    (hlookup : tree.lookup (real ++ [name]) = some node)
    : tree.resolve links cwd (path ++ [name]) = some (real ++ [name]) := by
  induction links generalizing cwd path real with
  | zero => cases h
  | succ links ih =>
    rw [resolve] at h ⊢
    apply tree.walk_concat hname hnode ?_ h hlookup
    intro cwd path real hpath hreal
    exact ih hpath hreal

theorem locate_concat (path : Path) {name : List UInt8} (hname : name ≠ parentDir)
    : tree.locate (path ++ [name]) = (tree.realPath path).map (· ++ [name]) := by
  rw [locate, List.getLast?_concat, List.dropLast_concat]
  exact if_neg hname

theorem locate_parentDir (path : Path) : tree.locate (path ++ [parentDir]) = tree.realPath (path ++ [parentDir]) := by
  rw [locate, List.getLast?_concat]
  exact if_pos rfl

theorem mem_of_lookup {path : Path} {node : Node} (h : tree.lookup path = some node) : (path, node) ∈ tree.nodes := by
  rcases List.lookup_eq_some_iff.mp h with ⟨before, after, heq, _⟩
  rw [heq]
  exact List.mem_append_right _ List.mem_cons_self

theorem realPath_of_locate {path real : Path} {node : Node} (h : tree.locate path = some real)
    (hlookup : tree.lookup real = some node) (hnode : node.isLink = false)
    : tree.realPath path = some real := by
  rcases List.eq_nil_or_concat' path with rfl | ⟨init, name, rfl⟩
  . exact h
  . by_cases hname : name = parentDir
    . subst hname
      rw [locate_parentDir] at h
      exact h
    . rw [tree.locate_concat init hname, Option.map_eq_some_iff] at h
      rcases h with ⟨cwd, hcwd, rfl⟩
      exact tree.resolve_concat hname hnode hcwd hlookup

-- What is below a directory is found below the path to it.
theorem locate_append {path real rest : Path} {node : Node} (h : tree.locate path = some real)
    (hnode : tree.lookup (real ++ rest) = some node)
    : tree.locate (path ++ rest) = some (real ++ rest) := by
  induction rest using List.reverseRecOn generalizing node with
  | nil =>
    rw [List.append_nil, List.append_nil]
    exact h
  | append_singleton rest name ih =>
    rw [← List.append_assoc] at hnode ⊢
    have hmem := tree.mem_of_lookup hnode
    have hparent : tree.lookup (real ++ rest) = some .dir := by
      rcases tree.closed _ hmem with hnil | hclosed
      . simp at hnil
      . rw [List.dropLast_concat] at hclosed
        exact hclosed
    have hname : name ≠ parentDir := by
      rintro rfl
      exact tree.named _ hmem (List.mem_append_right _ List.mem_cons_self)
    have hreal := tree.realPath_of_locate (ih hparent) hparent rfl
    rw [← List.append_assoc, tree.locate_concat _ hname, hreal]
    rfl

theorem mem_below {path : Path} {below : Path × Node} (h : below ∈ tree.below path)
    : tree.lookup (path ++ below.1) = some below.2 := by
  unfold Tree.below at h
  rcases List.mem_filterMap.mp h with ⟨full, _, hfull⟩
  split at hfull
  . next hprefix =>
    rcases hprefix with ⟨rest, rfl⟩
    rcases Option.map_eq_some_iff.mp hfull with ⟨node, hnode, rfl⟩
    rw [List.drop_left]
    exact hnode
  . cases hfull

theorem mem_below_of_lookup {path rest : Path} {node : Node} (h : tree.lookup (path ++ rest) = some node)
    : (rest, node) ∈ tree.below path := by
  unfold Tree.below
  refine List.mem_filterMap.mpr ⟨path ++ rest, List.mem_map_of_mem (tree.mem_of_lookup h), ?_⟩
  rw [if_pos (List.prefix_append path rest), h, List.drop_left]
  rfl

theorem metadata_of_symlinkMetadata {path : Path} {node : Node} (h : tree.symlinkMetadata path = some node)
    (hnode : node.isLink = false)
    : tree.metadata path = some node := by
  rw [symlinkMetadata, Option.bind_eq_some_iff] at h
  rcases h with ⟨real, hreal, hlookup⟩
  rw [metadata, tree.realPath_of_locate hreal hlookup hnode]
  exact hlookup

end Tree

end Files
