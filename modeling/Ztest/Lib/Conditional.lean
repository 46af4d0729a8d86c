import Mathlib.Tactic.Common

/-!
This module contains conditional compilation: trees of modules and functions with attributes, some of which
remove what they stand on, or stand for others, where a predicate holds. `Conditional.sites` lists the
attributes of all functions with the conditions above each, and `leaves_compile` says which are left.
-/

namespace Conditional

variable {α β : Type}

/--
`cfg p` keeps its item only where `p` holds, `cfgAttr p attrs` stands for `attrs` there and for nothing
elsewhere.
-/
inductive Attr (α β : Type) where
  | cfg (p : α)
  | cfgAttr (p : α) (attrs : List (Attr α β))
  | plain (b : β)

inductive Item (α β : Type) where
  | fn (attrs : List (Attr α β))
  | mod (attrs : List (Attr α β)) (items : List (Item α β))
  | outOfLine (attrs : List (Attr α β)) (ident : String)
  | other

structure File (α β : Type) where
  attrs : List (Attr α β)
  items : List (Item α β)

section Compile

variable (v : α → Bool)

mutual

def expand : Attr α β → List (Attr α β)
  | .cfg p => [.cfg p]
  | .cfgAttr p attrs => if v p then expandAll attrs else []
  | .plain b => [.plain b]

def expandAll : List (Attr α β) → List (Attr α β)
  | [] => []
  | attr :: attrs => expand attr ++ expandAll attrs

end

def Attr.allows : Attr α β → Bool
  | .cfg p => v p
  | _ => true

def keeps (attrs : List (Attr α β)) : Bool := (expandAll v attrs).all (Attr.allows v)

mutual

def compileItem : Item α β → List (Item α β)
  | .fn attrs => if keeps v attrs then [.fn (expandAll v attrs)] else []
  | .mod attrs items => if keeps v attrs then [.mod (expandAll v attrs) (compileItems items)] else []
  | .outOfLine attrs ident => if keeps v attrs then [.outOfLine (expandAll v attrs) ident] else []
  | .other => [.other]

def compileItems : List (Item α β) → List (Item α β)
  | [] => []
  | item :: items => compileItem item ++ compileItems items

end

def File.compile (file : File α β) : List (Item α β) := if keeps v file.attrs then compileItems v file.items else []

end Compile

def Attr.plain? : Attr α β → Option β
  | .plain b => some b
  | _ => none

-- The attributes of the functions, other than conditions.
mutual

def leaves : Item α β → List β
  | .fn attrs => attrs.filterMap Attr.plain?
  | .mod _ items => leavesAll items
  | .outOfLine _ _ => []
  | .other => []

def leavesAll : List (Item α β) → List β
  | [] => []
  | item :: items => leaves item ++ leavesAll items

end

/--
Where an attribute stands: the attributes of its function and of the modules around it, innermost first, and
the predicates it is wrapped in.
-/
structure Site (α β : Type) where
  gates : List (List (Attr α β))
  wraps : List α
  leaf : β

def Site.reached (v : α → Bool) (s : Site α β) : Bool := s.gates.all (keeps v) && s.wraps.all v

mutual

def attrSites (gates : List (List (Attr α β))) (wraps : List α) : Attr α β → List (Site α β)
  | .cfg _ => []
  | .cfgAttr p attrs => attrsSites gates (p :: wraps) attrs
  | .plain b => [⟨gates, wraps, b⟩]

def attrsSites (gates : List (List (Attr α β))) (wraps : List α) : List (Attr α β) → List (Site α β)
  | [] => []
  | attr :: attrs => attrSites gates wraps attr ++ attrsSites gates wraps attrs

end

mutual

def sites (gates : List (List (Attr α β))) : Item α β → List (Site α β)
  | .fn attrs => attrsSites (attrs :: gates) [] attrs
  | .mod attrs items => sitesAll (attrs :: gates) items
  | .outOfLine _ _ => []
  | .other => []

def sitesAll (gates : List (List (Attr α β))) : List (Item α β) → List (Site α β)
  | [] => []
  | item :: items => sites gates item ++ sitesAll gates items

end

def File.sites (file : File α β) : List (Site α β) := sitesAll [] file.items

-- Below an attribute the attributes of the modules are the same, and the wrapping grows inwards.
mutual

theorem mem_attrSites {gates : List (List (Attr α β))} {wraps : List α} {s : Site α β} (attr : Attr α β)
    (h : s ∈ attrSites gates wraps attr) : s.gates = gates ∧ wraps <:+ s.wraps := by
  cases attr with
  | cfg p => cases h
  | cfgAttr p attrs =>
    rw [attrSites] at h
    have hmem := mem_attrsSites attrs h
    exact ⟨hmem.1, (List.suffix_cons p wraps).trans hmem.2⟩
  | plain b =>
    cases List.mem_singleton.mp h
    exact ⟨rfl, List.suffix_refl wraps⟩

theorem mem_attrsSites {gates : List (List (Attr α β))} {wraps : List α} {s : Site α β}
    (attrs : List (Attr α β)) (h : s ∈ attrsSites gates wraps attrs) : s.gates = gates ∧ wraps <:+ s.wraps := by
  cases attrs with
  | nil => cases h
  | cons attr attrs =>
    rw [attrsSites] at h
    rcases List.mem_append.mp h with h | h
    . exact mem_attrSites attr h
    . exact mem_attrsSites attrs h

end

theorem leavesAll_append (items items' : List (Item α β))
    : leavesAll (items ++ items') = leavesAll items ++ leavesAll items' := by
  induction items with
  | nil => rfl
  | cons item items ih => rw [List.cons_append, leavesAll, leavesAll, ih, List.append_assoc]

section Reached

variable {v : α → Bool}

-- Nothing is reached below a condition that fails.
mutual

theorem filter_attrSites {gates : List (List (Attr α β))} {wraps : List α}
    (h : (gates.all (keeps v) && wraps.all v) = false) (attr : Attr α β)
    : (attrSites gates wraps attr).filter (Site.reached v) = [] := by
  cases attr with
  | cfg p => rfl
  | cfgAttr p attrs =>
    rw [attrSites]
    apply filter_attrsSites
    simp only [Bool.and_eq_false_iff, List.all_cons] at h ⊢
    exact h.imp_right .inr
  | plain b => simp [attrSites, Site.reached, h]

theorem filter_attrsSites {gates : List (List (Attr α β))} {wraps : List α}
    (h : (gates.all (keeps v) && wraps.all v) = false) (attrs : List (Attr α β))
    : (attrsSites gates wraps attrs).filter (Site.reached v) = [] := by
  cases attrs with
  | nil => rfl
  | cons attr attrs =>
    rw [attrsSites, List.filter_append, filter_attrSites h attr, filter_attrsSites h attrs]
    rfl

end

mutual

theorem filter_sites {gates : List (List (Attr α β))} (h : gates.all (keeps v) = false)
    (item : Item α β)
    : (sites gates item).filter (Site.reached v) = [] := by
  cases item with
  | fn attrs =>
    rw [sites]
    apply filter_attrsSites
    simp [h]
  | mod attrs items =>
    rw [sites]
    apply filter_sitesAll
    simp [h]
  | outOfLine attrs ident => rfl
  | other => rfl

theorem filter_sitesAll {gates : List (List (Attr α β))} (h : gates.all (keeps v) = false)
    (items : List (Item α β))
    : (sitesAll gates items).filter (Site.reached v) = [] := by
  cases items with
  | nil => rfl
  | cons item items =>
    rw [sitesAll, List.filter_append, filter_sites h item, filter_sitesAll h items]
    rfl

end

mutual

theorem plains_expand {gates : List (List (Attr α β))} {wraps : List α}
    (h : (gates.all (keeps v) && wraps.all v) = true) (attr : Attr α β)
    : (expand v attr).filterMap Attr.plain? =
      ((attrSites gates wraps attr).filter (Site.reached v)).map Site.leaf := by
  cases attr with
  | cfg p => rfl
  | cfgAttr p attrs =>
    rw [expand, attrSites]
    cases hp : v p with
    | true =>
      rw [if_pos rfl]
      apply plains_expandAll
      simpa [hp] using h
    | false =>
      rw [filter_attrsSites (by simp [hp])]
      rfl
  | plain b => simp [expand, attrSites, Site.reached, h, Attr.plain?]

theorem plains_expandAll {gates : List (List (Attr α β))} {wraps : List α}
    (h : (gates.all (keeps v) && wraps.all v) = true) (attrs : List (Attr α β))
    : (expandAll v attrs).filterMap Attr.plain? =
      ((attrsSites gates wraps attrs).filter (Site.reached v)).map Site.leaf := by
  cases attrs with
  | nil => rfl
  | cons attr attrs =>
    rw [expandAll, attrsSites, List.filterMap_append, List.filter_append, List.map_append, plains_expand h attr,
      plains_expandAll h attrs]

end

mutual

theorem leaves_compileItem {gates : List (List (Attr α β))} (h : gates.all (keeps v) = true)
    (item : Item α β)
    : leavesAll (compileItem v item) = ((sites gates item).filter (Site.reached v)).map Site.leaf := by
  cases item with
  | fn attrs =>
    rw [compileItem, sites]
    cases hkeeps : keeps v attrs with
    | true =>
      rw [if_pos rfl, leavesAll, leavesAll, List.append_nil, leaves]
      apply plains_expandAll
      simp [h, hkeeps]
    | false =>
      rw [filter_attrsSites (by simp [hkeeps])]
      rfl
  | mod attrs items =>
    rw [compileItem, sites]
    cases hkeeps : keeps v attrs with
    | true =>
      rw [if_pos rfl, leavesAll, leavesAll, List.append_nil, leaves]
      apply leaves_compileItems
      simp [h, hkeeps]
    | false =>
      rw [filter_sitesAll (by simp [hkeeps])]
      rfl
  | outOfLine attrs ident =>
    rw [compileItem, sites]
    split <;> rfl
  | other => rfl

theorem leaves_compileItems {gates : List (List (Attr α β))} (h : gates.all (keeps v) = true)
    (items : List (Item α β))
    : leavesAll (compileItems v items) = ((sitesAll gates items).filter (Site.reached v)).map Site.leaf := by
  cases items with
  | nil => rfl
  | cons item items =>
    rw [compileItems, sitesAll, leavesAll_append, List.filter_append, List.map_append, leaves_compileItem h item,
      leaves_compileItems h items]

end

end Reached

theorem leaves_compile (v : α → Bool) (file : File α β)
    : leavesAll (file.compile v) =
      (file.sites.filter fun s => keeps v file.attrs && s.reached v).map Site.leaf := by
  unfold File.compile File.sites
  cases hkeeps : keeps v file.attrs with
  | true =>
    rw [if_pos rfl, @leaves_compileItems α β v [] rfl file.items]
    simp
  | false => simp [leavesAll]

end Conditional
