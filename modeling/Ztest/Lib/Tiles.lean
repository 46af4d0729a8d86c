import Mathlib.Data.List.Perm.Basic
import Mathlib.Order.Lattice

/-!
This module contains lists of half-open ranges that follow one another without a gap.
-/

namespace Tiles

variable {α : Type} [LinearOrder α]

def Within (r : α × α) (x : α) : Prop := r.1 ≤ x ∧ x < r.2

def Disjoint (r s : α × α) : Prop := ∀ x, ¬(Within r x ∧ Within s x)

theorem Disjoint.symm {r s : α × α} (h : Disjoint r s) : Disjoint s r := fun x hx => h x hx.symm

/--
The ranges are not empty, the first one starts at `start`, each other one where the one before it stops, and
the last one stops at `stop`.
-/
def Tile : α → List (α × α) → α → Prop
  | start, [], stop => start = stop
  | start, r :: rs, stop => r.1 = start ∧ start < r.2 ∧ Tile r.2 rs stop

variable {start mid stop : α} {rs ss : List (α × α)}

theorem Tile.le (h : Tile start rs stop) : start ≤ stop := by
  induction rs generalizing start with
  | nil => exact le_of_eq h
  | cons r rs ih =>
    obtain ⟨-, hlt, hrest⟩ := h
    exact le_trans (le_of_lt hlt) (ih hrest)

theorem Tile.append (h : Tile start rs mid) (h' : Tile mid ss stop) : Tile start (rs ++ ss) stop := by
  induction rs generalizing start with
  | nil =>
    cases h
    exact h'
  | cons r rs ih =>
    obtain ⟨hstart, hlt, hrest⟩ := h
    exact ⟨hstart, hlt, ih hrest⟩

theorem Tile.lt (h : Tile start rs stop) : ∀ r ∈ rs, r.1 < r.2 := by
  induction rs generalizing start with
  | nil =>
    intro r hr
    cases hr
  | cons r rs ih =>
    obtain ⟨hstart, hlt, hrest⟩ := h
    rw [List.forall_mem_cons]
    refine ⟨?_, ih hrest⟩
    rw [hstart]
    exact hlt

theorem Tile.within_iff (h : Tile start rs stop) (x : α) : (∃ r ∈ rs, Within r x) ↔ start ≤ x ∧ x < stop := by
  induction rs generalizing start with
  | nil =>
    cases h
    constructor
    . rintro ⟨r, hr, -⟩
      cases hr
    . rintro ⟨hle, hlt⟩
      exact absurd hlt (not_lt_of_ge hle)
  | cons r rs ih =>
    obtain ⟨hstart, hlt, hrest⟩ := h
    rw [List.exists_mem_cons_iff, ih hrest, Within, hstart]
    constructor
    . rintro (⟨hle, hx⟩ | ⟨hle, hx⟩)
      . exact ⟨hle, lt_of_lt_of_le hx hrest.le⟩
      . exact ⟨le_trans (le_of_lt hlt) hle, hx⟩
    . rintro ⟨hle, hx⟩
      cases lt_or_ge x r.2 with
      | inl hfirst => exact Or.inl ⟨hle, hfirst⟩
      | inr hlater => exact Or.inr ⟨hlater, hx⟩

theorem Tile.disjoint (h : Tile start rs stop) : rs.Pairwise Disjoint := by
  induction rs generalizing start with
  | nil => exact .nil
  | cons r rs ih =>
    obtain ⟨-, -, hrest⟩ := h
    refine .cons ?_ (ih hrest)
    rintro s hs x ⟨hr, hx⟩
    exact absurd hr.2 (not_lt_of_ge ((hrest.within_iff x).mp ⟨s, hs, hx⟩).1)

section Bounds

variable {bound : Nat → α} {n : Nat}

theorem tile_bounds (h : ∀ i, i < n → bound i < bound (i + 1))
    : Tile (bound 0) ((List.range n).map fun i => (bound i, bound (i + 1))) (bound n) := by
  induction n with
  | zero => rfl
  | succ n ih =>
    rw [List.range_succ, List.map_append]
    exact (ih fun i hi => h i (by omega)).append ⟨rfl, h n (by omega), rfl⟩

theorem existsUnique_within (h : ∀ i, i < n → bound i < bound (i + 1)) {x : α} (hlo : bound 0 ≤ x)
    (hhi : x < bound n)
    : ∃! i, i < n ∧ Within (bound i, bound (i + 1)) x := by
  have htile := tile_bounds h
  rcases (htile.within_iff x).mpr ⟨hlo, hhi⟩ with ⟨r, hr, hx⟩
  rcases List.mem_map.mp hr with ⟨i, hi, rfl⟩
  refine ⟨i, ⟨List.mem_range.mp hi, hx⟩, ?_⟩
  rintro j ⟨hj, hxj⟩
  have hapart : ∀ a b, a < b → b < n → ¬(Within (bound a, bound (a + 1)) x ∧ Within (bound b, bound (b + 1)) x) := by
    intro a b hab hb
    have hpair := List.pairwise_map.mp htile.disjoint
    rw [List.pairwise_iff_getElem] at hpair
    have := hpair a b (by rw [List.length_range]; omega) (by rw [List.length_range]; omega) hab
    rw [List.getElem_range, List.getElem_range] at this
    exact this x
  rcases lt_trichotomy j i with hlt | heq | hgt
  . exact absurd ⟨hxj, hx⟩ (hapart j i hlt (List.mem_range.mp hi))
  . exact heq
  . exact absurd ⟨hx, hxj⟩ (hapart i j hgt hj)

end Bounds

section Follow

-- The ranges lie in order between `lo` and `hi`, with gaps anywhere.
def Follow : α → List (α × α) → α → Prop
  | lo, [], hi => lo ≤ hi
  | lo, r :: rs, hi => lo ≤ r.1 ∧ r.1 < r.2 ∧ Follow r.2 rs hi

variable {lo lo' mid hi hi' : α}

theorem Follow.le (h : Follow lo rs hi) : lo ≤ hi := by
  induction rs generalizing lo with
  | nil => exact h
  | cons r rs ih => exact h.1.trans (h.2.1.le.trans (ih h.2.2))

theorem Follow.widen (h : Follow lo rs hi) (hlo : lo' ≤ lo) (hhi : hi ≤ hi') : Follow lo' rs hi' := by
  induction rs generalizing lo lo' with
  | nil => exact hlo.trans (le_trans h hhi)
  | cons r rs ih => exact ⟨hlo.trans h.1, h.2.1, ih h.2.2 (le_refl _)⟩

theorem Follow.append (h : Follow lo rs mid) (h' : Follow mid ss hi) : Follow lo (rs ++ ss) hi := by
  induction rs generalizing lo with
  | nil => exact h'.widen h (le_refl _)
  | cons r rs ih => exact ⟨h.1, h.2.1, ih h.2.2⟩

theorem Follow.bounds (h : Follow lo rs hi) : ∀ r ∈ rs, lo ≤ r.1 ∧ r.2 ≤ hi := by
  induction rs generalizing lo with
  | nil => simp
  | cons r rs ih =>
    rw [List.forall_mem_cons]
    refine ⟨⟨h.1, h.2.2.le⟩, fun s hs => ?_⟩
    have hrest := ih h.2.2 s hs
    exact ⟨h.1.trans (h.2.1.le.trans hrest.1), hrest.2⟩

theorem Follow.find? {β : Type} {span : β → α × α} {p : β → Bool} {bs : List β} {b : β} {x : α}
    (h : Follow lo (bs.map span) hi) (hb : b ∈ bs) (hx : Within (span b) x)
    (hp : ∀ c, p c = true ↔ Within (span c) x)
    : bs.find? p = some b := by
  induction bs generalizing lo with
  | nil => cases hb
  | cons c bs ih =>
    rw [List.map_cons] at h
    rcases List.mem_cons.mp hb with rfl | hmem
    . rw [List.find?_cons_of_pos ((hp _).mpr hx)]
    . have hpast : ¬p c = true := by
        intro hc
        have hle := (h.2.2.bounds (span b) (List.mem_map_of_mem hmem)).1
        exact absurd (((hp c).mp hc).2.trans_le hle) (not_lt_of_ge hx.1)
      rw [List.find?_cons_of_neg hpast]
      exact ih h.2.2 hmem

end Follow

end Tiles
