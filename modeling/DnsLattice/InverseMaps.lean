import Mathlib.Data.List.AList
import Mathlib.Tactic

/-!
# Two finite maps which are inverse to each other

A forward map takes keys to values, and a value determines a point; a reverse
map takes the points back to images of the values, and an image determines a
key.  When each map undoes the other, different keys have different points,
and the two maps can only be edited together.
-/

namespace DnsLattice

variable {κ α β γ : Type} [DecidableEq κ] [DecidableEq α]

theorem lookup_of_mem_entries {map : AList fun _ : κ => β}
    {entry : Sigma fun _ : κ => β} (hmem : entry ∈ map.entries) :
    map.lookup entry.1 = some entry.2 :=
  AList.mem_lookup_iff.mpr hmem

/-- The reverse map takes the point of a value back to its image, and the
forward map takes the key of an image to a value with that point. -/
structure InverseMaps (target : β → α) (mirror : β → γ) (source : γ → κ)
    (forward : AList fun _ : κ => β) (reverse : AList fun _ : α => γ) :
    Prop where
  there : ∀ {key : κ} {value : β}, forward.lookup key = some value →
    reverse.lookup (target value) = some (mirror value) ∧
      source (mirror value) = key
  back : ∀ {point : α} {image : γ}, reverse.lookup point = some image →
    ∃ value, forward.lookup (source image) = some value ∧
      target value = point

namespace InverseMaps

variable {target : β → α} {mirror : β → γ} {source : γ → κ}
  {forward : AList fun _ : κ => β} {reverse : AList fun _ : α => γ}

theorem empty :
    InverseMaps target mirror source (∅ : AList fun _ : κ => β)
      (∅ : AList fun _ : α => γ) where
  there h := by simp at h
  back h := by simp at h

theorem key_eq (h : InverseMaps target mirror source forward reverse)
    {key other : κ} {value value' : β} (hkey : forward.lookup key = some value)
    (hother : forward.lookup other = some value')
    (hpoint : target value = target value') : key = other := by
  obtain ⟨hback, hsource⟩ := h.there hkey
  obtain ⟨hback', hsource'⟩ := h.there hother
  rw [hpoint, hback'] at hback
  rw [← hsource, ← hsource', Option.some.inj hback]

theorem exists_value (h : InverseMaps target mirror source forward reverse)
    {point : α} {image : γ} (hpoint : reverse.lookup point = some image) :
    ∃ value, forward.lookup (source image) = some value ∧
      target value = point ∧ mirror value = image := by
  obtain ⟨value, hvalue, htarget⟩ := h.back hpoint
  have hthere := (h.there hvalue).1
  rw [htarget, hpoint] at hthere
  exact ⟨value, hvalue, htarget, (Option.some.inj hthere).symm⟩

theorem lookup_reverse_eq_none
    (h : InverseMaps target mirror source forward reverse) {point : α} :
    reverse.lookup point = none ↔
      ∀ key value, forward.lookup key = some value → target value ≠ point := by
  constructor
  · intro hnone key value hvalue htarget
    rw [← htarget, (h.there hvalue).1] at hnone
    cases hnone
  · intro hfree
    cases hpoint : reverse.lookup point with
    | none => rfl
    | some image =>
      obtain ⟨value, hvalue, htarget⟩ := h.back hpoint
      exact absurd htarget (hfree _ value hvalue)

theorem insert (h : InverseMaps target mirror source forward reverse)
    {key : κ} {value : β} (hkey : forward.lookup key = none)
    (hpoint : reverse.lookup (target value) = none)
    (hsource : source (mirror value) = key) :
    InverseMaps target mirror source (forward.insert key value)
      (reverse.insert (target value) (mirror value)) where
  there := by
    intro other value' hother
    by_cases heq : other = key
    · subst heq
      rw [AList.lookup_insert] at hother
      obtain rfl := Option.some.inj hother
      exact ⟨AList.lookup_insert _, hsource⟩
    · rw [AList.lookup_insert_ne heq] at hother
      rw [AList.lookup_insert_ne
        ((h.lookup_reverse_eq_none).mp hpoint other value' hother)]
      exact h.there hother
  back := by
    intro point image himage
    by_cases heq : point = target value
    · subst heq
      rw [AList.lookup_insert] at himage
      obtain rfl := Option.some.inj himage
      exact ⟨value, by rw [hsource, AList.lookup_insert], rfl⟩
    · rw [AList.lookup_insert_ne heq] at himage
      obtain ⟨value', hvalue', htarget⟩ := h.back himage
      refine ⟨value', ?_, htarget⟩
      rw [AList.lookup_insert_ne]
      · exact hvalue'
      · intro hsame
        rw [hsame, hkey] at hvalue'
        cases hvalue'

/-- A value may be exchanged for one with the same point and image. -/
theorem update (h : InverseMaps target mirror source forward reverse)
    {key : κ} {value value' : β} (hkey : forward.lookup key = some value)
    (htarget : target value' = target value)
    (hmirror : mirror value' = mirror value) :
    InverseMaps target mirror source (forward.insert key value') reverse where
  there := by
    intro other found hother
    by_cases heq : other = key
    · subst heq
      rw [AList.lookup_insert] at hother
      obtain rfl := Option.some.inj hother
      rw [htarget, hmirror]
      exact h.there hkey
    · rw [AList.lookup_insert_ne heq] at hother
      exact h.there hother
  back := by
    intro point image himage
    obtain ⟨found, hfound, hpoint⟩ := h.back himage
    by_cases heq : source image = key
    · rw [heq] at hfound ⊢
      rw [hkey] at hfound
      obtain rfl := Option.some.inj hfound
      exact ⟨value', AList.lookup_insert _, htarget.trans hpoint⟩
    · exact ⟨found, by rw [AList.lookup_insert_ne heq, hfound], hpoint⟩

theorem erase (h : InverseMaps target mirror source forward reverse)
    {key : κ} {value : β} (hkey : forward.lookup key = some value) :
    InverseMaps target mirror source (forward.erase key)
      (reverse.erase (target value)) where
  there := by
    intro other found hother
    by_cases heq : other = key
    · rw [heq, AList.lookup_erase] at hother
      cases hother
    · rw [AList.lookup_erase_ne heq] at hother
      rw [AList.lookup_erase_ne]
      · exact h.there hother
      · exact fun hpoint => heq (h.key_eq hother hkey hpoint)
  back := by
    intro point image himage
    by_cases heq : point = target value
    · rw [heq, AList.lookup_erase] at himage
      cases himage
    · rw [AList.lookup_erase_ne heq] at himage
      obtain ⟨found, hfound, hpoint⟩ := h.back himage
      refine ⟨found, ?_, hpoint⟩
      rw [AList.lookup_erase_ne]
      · exact hfound
      · intro hsame
        rw [hsame, hkey] at hfound
        exact heq (hpoint.symm.trans (congrArg target (Option.some.inj hfound).symm))

theorem perm (h : InverseMaps target mirror source forward reverse)
    {forward' : AList fun _ : κ => β} {reverse' : AList fun _ : α => γ}
    (hforward : forward.entries.Perm forward'.entries)
    (hreverse : reverse.entries.Perm reverse'.entries) :
    InverseMaps target mirror source forward' reverse' where
  there := by
    intro key value hvalue
    rw [← AList.perm_lookup hforward] at hvalue
    rw [← AList.perm_lookup hreverse]
    exact h.there hvalue
  back := by
    intro point image himage
    rw [← AList.perm_lookup hreverse] at himage
    rw [← AList.perm_lookup hforward]
    exact h.back himage

/-! ## Counting -/

def points (target : β → α) (forward : AList fun _ : κ => β) : List α :=
  forward.entries.map fun entry => target entry.2

omit [DecidableEq κ] [DecidableEq α] in
@[simp] theorem length_points (target : β → α)
    (forward : AList fun _ : κ => β) :
    (points target forward).length = forward.entries.length := by
  simp [points]

theorem nodup_points (h : InverseMaps target mirror source forward reverse) :
    (points target forward).Nodup := by
  have hnodup : forward.entries.Nodup := List.Nodup.of_map _ forward.nodupKeys
  refine hnodup.map_on ?_
  intro entry hentry other hother hpoint
  have hkey : entry.1 = other.1 :=
    h.key_eq (lookup_of_mem_entries hentry) (lookup_of_mem_entries hother) hpoint
  have hvalue := lookup_of_mem_entries hentry
  rw [hkey, lookup_of_mem_entries hother] at hvalue
  exact Sigma.ext hkey (heq_of_eq (Option.some.inj hvalue).symm)

theorem mem_points (h : InverseMaps target mirror source forward reverse)
    {point : α} :
    point ∈ points target forward ↔ (reverse.lookup point).isSome := by
  constructor
  · intro hmem
    obtain ⟨entry, hentry, rfl⟩ := List.mem_map.mp hmem
    rw [(h.there (lookup_of_mem_entries hentry)).1]
    rfl
  · intro hsome
    obtain ⟨image, himage⟩ := Option.isSome_iff_exists.mp hsome
    obtain ⟨value, hvalue, rfl⟩ := h.back himage
    exact List.mem_map.mpr ⟨_, AList.mem_lookup_iff.mp hvalue, rfl⟩

/-- If all points lie in a finite set, there are no more keys than members. -/
theorem length_le_card
    (h : InverseMaps target mirror source forward reverse) {range : Finset α}
    (hrange : ∀ key value, forward.lookup key = some value →
      target value ∈ range) :
    forward.entries.length ≤ range.card := by
  rw [← length_points target forward,
    ← List.toFinset_card_of_nodup h.nodup_points]
  refine Finset.card_le_card ?_
  intro point hpoint
  obtain ⟨entry, hentry, rfl⟩ := List.mem_map.mp (List.mem_toFinset.mp hpoint)
  exact hrange _ _ (lookup_of_mem_entries hentry)

theorem exists_free
    (h : InverseMaps target mirror source forward reverse) {range : Finset α}
    (hroom : forward.entries.length < range.card) :
    ∃ point ∈ range, reverse.lookup point = none := by
  rw [← length_points target forward,
    ← List.toFinset_card_of_nodup h.nodup_points] at hroom
  obtain ⟨point, hpoint, hfree⟩ :=
    Finset.exists_mem_notMem_of_card_lt_card hroom
  rw [List.mem_toFinset, h.mem_points, Option.not_isSome_iff_eq_none] at hfree
  exact ⟨point, hpoint, hfree⟩

end InverseMaps

end DnsLattice
