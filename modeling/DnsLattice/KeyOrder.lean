import Mathlib.Data.List.MinMax
import Mathlib.Data.List.Sort
import Mathlib.Tactic

/-!
# Lists sorted by a key

A stable sort by a key.  When different items have different keys the sorted
list depends on nothing but the set of items: removing items leaves the others
in their places, an item with the greatest key goes to the end, and the first
item is the one with the least key.

Items with equal keys keep their order.  So the first item of a sort by the
reversed key is the one which a scan for the greatest key finds, where a later
item must be strictly greater to replace an earlier one.
-/

namespace DnsLattice

variable {α β : Type} {key : α → β} {items others : List α}

def DistinctKeys (key : α → β) (items : List α) : Prop :=
  ∀ first ∈ items, ∀ second ∈ items, key first = key second → first = second

theorem DistinctKeys.sublist (h : DistinctKeys key items)
    (hsublist : others.Sublist items) : DistinctKeys key others := by
  intro first hfirst second hsecond
  exact h first (hsublist.subset hfirst) second (hsublist.subset hsecond)

variable [LinearOrder β]

/-- `slice::sort_by_key`. -/
def sortByKey (key : α → β) (items : List α) : List α :=
  items.insertionSort fun first second => key first ≤ key second

theorem sortByKey_perm (key : α → β) (items : List α) :
    (sortByKey key items).Perm items :=
  List.perm_insertionSort _ items

theorem mem_sortByKey (key : α → β) {item : α} :
    item ∈ sortByKey key items ↔ item ∈ items :=
  (sortByKey_perm key items).mem_iff

theorem sortByKey_pairwise (key : α → β) (items : List α) :
    (sortByKey key items).Pairwise fun first second =>
      key first ≤ key second := by
  have htrans : IsTrans α fun first second => key first ≤ key second :=
    ⟨fun _ _ _ => le_trans⟩
  have htotal : Std.Total fun first second : α => key first ≤ key second :=
    ⟨fun first second => le_total (key first) (key second)⟩
  exact List.pairwise_insertionSort _ items

theorem sortByKey_eq (h : DistinctKeys key items) (hperm : others.Perm items)
    (hsorted : others.Pairwise fun first second => key first ≤ key second) :
    sortByKey key items = others := by
  refine List.Perm.eq_of_pairwise ?_ (sortByKey_pairwise key items) hsorted
    ((sortByKey_perm key items).trans hperm.symm)
  intro first second hfirst hsecond hle hge
  exact h first ((mem_sortByKey key).mp hfirst) second (hperm.mem_iff.mp hsecond)
    (le_antisymm hle hge)

theorem sortByKey_congr (h : DistinctKeys key items)
    (hperm : others.Perm items) : sortByKey key items = sortByKey key others :=
  sortByKey_eq h ((sortByKey_perm key others).trans hperm)
    (sortByKey_pairwise key others)

theorem sortByKey_filter (h : DistinctKeys key items) (keep : α → Bool) :
    sortByKey key (items.filter keep) = (sortByKey key items).filter keep :=
  sortByKey_eq (h.sublist List.filter_sublist)
    ((sortByKey_perm key items).filter keep)
    ((sortByKey_pairwise key items).sublist List.filter_sublist)

theorem sortByKey_cons {last : α} (h : DistinctKeys key (last :: items))
    (hlast : ∀ item ∈ items, key item ≤ key last) :
    sortByKey key (last :: items) = sortByKey key items ++ [last] := by
  refine sortByKey_eq h ?_ ?_
  · exact List.perm_append_singleton last _ |>.trans
      ((sortByKey_perm key items).cons last)
  · refine List.pairwise_append.mpr ⟨sortByKey_pairwise key items,
      List.pairwise_singleton _ _, ?_⟩
    intro item hitem other hother
    rw [List.mem_singleton.mp hother]
    exact hlast item ((mem_sortByKey key).mp hitem)

theorem head?_sortByKey (h : DistinctKeys key items) :
    (sortByKey key items).head? = items.argmin key := by
  cases hsorted : sortByKey key items with
  | nil =>
    have hnil := (sortByKey_perm key items).symm.trans (.of_eq hsorted)
    rw [hnil.eq_nil, List.argmin_nil, List.head?_nil]
  | cons first rest =>
    have hpairwise := sortByKey_pairwise key items
    rw [hsorted, List.pairwise_cons] at hpairwise
    have hmem : first ∈ items := by
      rw [← mem_sortByKey key, hsorted]
      exact List.mem_cons_self
    cases hleast : items.argmin key with
    | none =>
      rw [List.argmin_eq_none.mp hleast] at hmem
      cases hmem
    | some least =>
      have hin := List.argmin_mem hleast
      have hle : key first ≤ key least := by
        rw [← mem_sortByKey key, hsorted, List.mem_cons] at hin
        rcases hin with rfl | hrest
        · exact le_rfl
        · exact hpairwise.1 least hrest
      have hge := List.le_of_mem_argmin hmem hleast
      rw [List.head?_cons, h first hmem least (List.argmin_mem hleast)
        (le_antisymm hle hge)]

/-! ## Items with equal keys -/

def FirstBest (key : α → β) (items : List α) (item : α) : Prop :=
  ∃ before after, items = before ++ item :: after ∧
    (∀ other ∈ before, key other < key item) ∧
    ∀ other ∈ after, key other ≤ key item

theorem FirstBest.unique {item other : α} (h : FirstBest key items item)
    (hother : FirstBest key items other) : item = other := by
  obtain ⟨before, after, rfl, hbefore, hafter⟩ := h
  obtain ⟨before', after', hitems, hbefore', hafter'⟩ := hother
  -- whichever stands first, the other one would have to be greater
  rcases List.append_eq_append_iff.mp hitems with
    ⟨middle, hfront, hback⟩ | ⟨middle, hfront, hback⟩
  · cases middle with
    | nil => exact (List.cons.inj hback).1
    | cons first rest =>
      obtain ⟨rfl, hrest⟩ := List.cons.inj hback
      have hlt := hbefore' item (by simp [hfront])
      have hle := hafter other (by simp [hrest])
      exact absurd hlt (not_lt.mpr hle)
  · cases middle with
    | nil => exact (List.cons.inj hback).1.symm
    | cons first rest =>
      obtain ⟨rfl, hrest⟩ := List.cons.inj hback
      have hlt := hbefore other (by simp [hfront])
      have hle := hafter' item (by simp [hrest])
      exact absurd hlt (not_lt.mpr hle)

end DnsLattice
