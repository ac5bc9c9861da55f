import Mathlib.Data.List.Nodup
import Mathlib.Tactic

/-!
# Doubly linked segments

Cells carry the index of their predecessor and of their successor.  A segment
is a list of cells linked in order between two outer indices.  The file gives
the rules by which a segment is split, framed, extended at its end and closed
over a removed cell.
-/

namespace DnsLattice

variable {α : Type}

/-- Following the successors from the first cell visits exactly `order`, the
predecessors lead back, and the ends point to `before` and `after`. -/
def Segment (links : α → Option (α × α)) : α → List α → α → Prop
  | _, [], _ => True
  | before, cell :: rest, after =>
      links cell = some (before, rest.headD after) ∧
        Segment links cell rest after

theorem headD_mem_of_ne {order : List α} {default : α}
    (h : order.headD default ≠ default) : order.headD default ∈ order := by
  cases order with
  | nil => exact absurd rfl h
  | cons cell rest => simp

theorem getLastD_mem_of_ne {order : List α} {default : α}
    (h : order.getLastD default ≠ default) :
    order.getLastD default ∈ order := by
  cases order with
  | nil => exact absurd rfl h
  | cons cell rest =>
    rw [List.getLastD_cons]
    exact List.getLastD_mem_cons

theorem getLastD_append (first second : List α) (default : α) :
    (first ++ second).getLastD default =
      second.getLastD (first.getLastD default) := by
  induction first generalizing default with
  | nil => rfl
  | cons cell rest ih =>
    rw [List.cons_append, List.getLastD_cons, List.getLastD_cons, ih]

theorem headD_remove [DecidableEq α] {first second : List α}
    {cell default : α} (hnodup : (first ++ cell :: second).Nodup) :
    (if (first ++ cell :: second).headD default = cell then
        second.headD default
      else (first ++ cell :: second).headD default) =
      (first ++ second).headD default := by
  cases first with
  | nil => simp
  | cons head rest =>
    have hne : head ≠ cell := by
      rintro rfl
      exact (List.nodup_cons.mp hnodup).1 (by simp)
    simp [hne]

theorem getLastD_remove [DecidableEq α] {first second : List α}
    {cell default : α} (hnodup : (first ++ cell :: second).Nodup) :
    (if (first ++ cell :: second).getLastD default = cell then
        first.getLastD default
      else (first ++ cell :: second).getLastD default) =
      (first ++ second).getLastD default := by
  rw [getLastD_append, getLastD_append, List.getLastD_cons]
  cases second with
  | nil => simp
  | cons next rest =>
    have hne : (next :: rest).getLastD cell ≠ cell := by
      rw [List.getLastD_cons]
      intro heq
      apply (List.nodup_cons.mp hnodup.of_append_right).1
      rw [← heq]
      exact List.getLastD_mem_cons
    rw [if_neg hne, List.getLastD_cons, List.getLastD_cons]

namespace Segment

variable {links updated : α → Option (α × α)} {before after cell : α}
  {order first second : List α}

theorem append_iff :
    Segment links before (first ++ second) after ↔
      Segment links before first (second.headD after) ∧
        Segment links (first.getLastD before) second after := by
  induction first generalizing before with
  | nil => simp [Segment]
  | cons cell rest ih =>
    rw [List.cons_append, Segment, Segment, ih, List.getLastD_cons]
    have hhead : (rest ++ second).headD after =
        rest.headD (second.headD after) := by
      cases rest <;> rfl
    rw [hhead, and_assoc]

theorem congr (hsegment : Segment links before order after)
    (hsame : ∀ cell ∈ order, updated cell = links cell) :
    Segment updated before order after := by
  induction order generalizing before with
  | nil => trivial
  | cons cell rest ih =>
    obtain ⟨hcell, hrest⟩ := hsegment
    refine ⟨?_, ih hrest ?_⟩
    · rw [hsame cell (by simp), hcell]
    · intro other hother
      exact hsame other (by simp [hother])

theorem links_of_split
    (hsegment : Segment links before (first ++ cell :: second) after) :
    links cell = some (first.getLastD before, second.headD after) :=
  (append_iff.mp hsegment).2.1

theorem redirect_last [DecidableEq α] {target : α}
    (hsegment : Segment links before order after) (hnodup : order.Nodup)
    (hupdated : ∀ cell ∈ order, updated cell =
      (links cell).map fun link =>
        (link.1, if cell = order.getLastD before then target else link.2)) :
    Segment updated before order target := by
  induction order generalizing before with
  | nil => trivial
  | cons cell rest ih =>
    obtain ⟨hcell, hrest⟩ := hsegment
    obtain ⟨hfresh, hnodup⟩ := List.nodup_cons.mp hnodup
    refine ⟨?_, ih hrest hnodup ?_⟩
    · rw [hupdated cell (by simp), hcell, List.getLastD_cons]
      cases rest with
      | nil => simp
      | cons next others =>
        have hlast : cell ≠ (next :: others).getLastD cell := by
          intro heq
          apply hfresh
          rw [heq, List.getLastD_cons]
          exact List.getLastD_mem_cons
        rw [Option.map_some, if_neg hlast]
        rfl
    · intro other hother
      rw [hupdated other (by simp [hother]), List.getLastD_cons]

theorem redirect_first [DecidableEq α] {target : α}
    (hsegment : Segment links before order after) (hnodup : order.Nodup)
    (hupdated : ∀ cell ∈ order, updated cell =
      (links cell).map fun link =>
        (if cell = order.headD after then target else link.1, link.2)) :
    Segment updated target order after := by
  cases order with
  | nil => trivial
  | cons cell rest =>
    obtain ⟨hcell, hrest⟩ := hsegment
    obtain ⟨hfresh, _⟩ := List.nodup_cons.mp hnodup
    refine ⟨?_, hrest.congr ?_⟩
    · rw [hupdated cell (by simp), hcell]
      simp
    · intro other hother
      have hne : other ≠ cell := fun heq => hfresh (heq ▸ hother)
      rw [hupdated other (by simp [hother])]
      simp [hne]

/-- Closing the gap around a removed cell: its neighbours point to each
other. -/
theorem unlink [DecidableEq α]
    (hsegment : Segment links before (first ++ cell :: second) after)
    (hnodup : (first ++ cell :: second).Nodup)
    (hbefore : before ∉ first ++ cell :: second)
    (hafter : after ∉ first ++ cell :: second)
    (hupdated : ∀ other ∈ first ++ second, updated other =
      (links other).map fun link =>
        (if other = second.headD after then first.getLastD before
          else link.1,
         if other = first.getLastD before then second.headD after
          else link.2)) :
    Segment updated before (first ++ second) after := by
  obtain ⟨hfirst, _, hsecond⟩ := append_iff.mp hsegment
  have hdisjoint := List.disjoint_of_nodup_append hnodup
  have hnodup₁ : first.Nodup := hnodup.of_append_left
  have hnodup₂ : second.Nodup := (List.nodup_cons.mp hnodup.of_append_right).2
  apply append_iff.mpr
  constructor
  · apply hfirst.redirect_last hnodup₁
    intro other hother
    have hne : other ≠ second.headD after := by
      rintro rfl
      cases second with
      | nil => exact hafter (by simp_all)
      | cons next rest => exact hdisjoint hother (by simp)
    rw [hupdated other (by simp [hother])]
    simp only [if_neg hne]
  · apply hsecond.redirect_first hnodup₂
    intro other hother
    have hne : other ≠ first.getLastD before := by
      rintro rfl
      cases first with
      | nil => exact hbefore (by simp_all)
      | cons head rest =>
        refine hdisjoint ?_ (List.mem_cons_of_mem cell hother)
        rw [List.getLastD_cons]
        exact List.getLastD_mem_cons
    rw [hupdated other (by simp [hother])]
    simp only [if_neg hne]

theorem push_back [DecidableEq α]
    (hsegment : Segment links before order after) (hnodup : order.Nodup)
    (hcell : updated cell = some (order.getLastD before, after))
    (hupdated : ∀ other ∈ order, updated other =
      (links other).map fun link =>
        (link.1, if other = order.getLastD before then cell else link.2)) :
    Segment updated before (order ++ [cell]) after := by
  apply append_iff.mpr
  exact ⟨hsegment.redirect_last hnodup hupdated, hcell, trivial⟩

end Segment

/-! ## Walking -/

/-- The cells visited from `cell` until `stop`, unless the fuel runs out or a
cell has no link. -/
def follow [DecidableEq α] (next : α → Option α) (stop : α) :
    ℕ → α → Option (List α)
  | 0, _ => none
  | fuel + 1, cell =>
      if cell = stop then some []
      else
        match next cell with
        | none => none
        | some target => (follow next stop fuel target).map (cell :: ·)

namespace Segment

variable [DecidableEq α] {links : α → Option (α × α)} {before stop : α}
  {order : List α}

theorem follow_next (hsegment : Segment links before order stop)
    (hstop : stop ∉ order) {fuel : ℕ} (hfuel : order.length < fuel) :
    follow (fun cell => (links cell).map Prod.snd) stop fuel
      (order.headD stop) = some order := by
  induction order generalizing before fuel with
  | nil =>
    obtain ⟨fuel, rfl⟩ : ∃ n, fuel = n + 1 := ⟨fuel - 1, by omega⟩
    simp [follow]
  | cons cell rest ih =>
    obtain ⟨fuel, rfl⟩ : ∃ n, fuel = n + 1 := ⟨fuel - 1, by omega⟩
    obtain ⟨hcell, hrest⟩ := hsegment
    have hne : cell ≠ stop := fun heq => hstop (by simp [heq])
    have hstep := ih hrest (fun hmem => hstop (by simp [hmem]))
      (by simpa using hfuel)
    simp only [List.headD_cons, follow, if_neg hne, hcell, Option.map_some]
    rw [hstep]
    rfl

theorem follow_prev {after : α} (hsegment : Segment links stop order after)
    (hstop : stop ∉ order) {fuel : ℕ} (hfuel : order.length < fuel) :
    follow (fun cell => (links cell).map Prod.fst) stop fuel
      (order.getLastD stop) = some order.reverse := by
  induction order using List.reverseRecOn generalizing after fuel with
  | nil =>
    obtain ⟨fuel, rfl⟩ : ∃ n, fuel = n + 1 := ⟨fuel - 1, by omega⟩
    simp [follow]
  | append_singleton rest cell ih =>
    obtain ⟨fuel, rfl⟩ : ∃ n, fuel = n + 1 := ⟨fuel - 1, by omega⟩
    obtain ⟨hrest, hcell, _⟩ := append_iff.mp hsegment
    have hne : cell ≠ stop := fun heq => hstop (by simp [heq])
    have hstep := ih hrest (fun hmem => hstop (by simp [hmem]))
      (by simpa using hfuel)
    rw [List.getLastD_concat]
    simp only [follow, if_neg hne, hcell, Option.map_some]
    rw [hstep, List.reverse_append]
    rfl

end Segment

end DnsLattice
