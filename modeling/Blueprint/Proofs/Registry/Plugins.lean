import Blueprint.Proofs.Registry.Growth
import Mathlib.Data.String.Basic

/-!
# The plugins of a category

A category lists its plugins in the order of their type tags, each of them once, however many tags are bound to it
(`Category.plugins_spec`).
-/

namespace Blueprint

theorem Plugin.same_iff {p q : Plugin} : p.same q = true ↔ p.serial = q.serial := beq_iff_eq

namespace Category

/-! ## Sorting by tag -/

theorem insertByTag_perm (p : Plugin) (ps : List Plugin) : (insertByTag p ps).Perm (p :: ps) := by
  induction ps with
  | nil => exact .refl _
  | cons q qs ih =>
    rw [insertByTag]
    split
    · exact .refl _
    · exact (ih.cons q).trans (.swap p q qs)

theorem insertByTag_ordered (p : Plugin) {ps : List Plugin} (h : ps.Pairwise (·.tag ≤ ·.tag)) :
    (insertByTag p ps).Pairwise (·.tag ≤ ·.tag) := by
  induction ps with
  | nil => exact List.pairwise_singleton _ p
  | cons q qs ih =>
    obtain ⟨hq, hqs⟩ := List.pairwise_cons.mp h
    rw [insertByTag]
    split
    · next hlt =>
      refine List.pairwise_cons.mpr ⟨fun x hx => ?_, h⟩
      rcases List.mem_cons.mp hx with rfl | hx
      · exact le_of_lt hlt
      · exact le_of_lt (lt_of_lt_of_le hlt (hq x hx))
    · next hlt =>
      refine List.pairwise_cons.mpr ⟨fun x hx => ?_, ih hqs⟩
      rcases List.mem_cons.mp ((insertByTag_perm p qs).mem_iff.mp hx) with rfl | hx
      · exact not_lt.mp hlt
      · exact hq x hx

theorem sortByTag_spec (ps qs : List Plugin) (h : qs.Pairwise (·.tag ≤ ·.tag)) :
    (ps.foldl (fun qs p => insertByTag p qs) qs).Pairwise (·.tag ≤ ·.tag) ∧
    (ps.foldl (fun qs p => insertByTag p qs) qs).Perm (ps ++ qs) := by
  induction ps generalizing qs with
  | nil => exact ⟨h, .refl _⟩
  | cons p ps ih =>
    obtain ⟨hordered, hperm⟩ := ih (insertByTag p qs) (insertByTag_ordered p h)
    exact ⟨hordered, hperm.trans (((insertByTag_perm p qs).append_left ps).trans List.perm_middle)⟩

/-! ## Leaving out repeats -/

/-- Each plugin is taken up unless it is there already. -/
theorem distinct_spec {ps found all : List Plugin} (h : found.Pairwise fun p q => p.same q = false)
    (hall : ps.foldl (fun found p => if found.any p.same then found else found ++ [p]) found = all) :
    (all.Pairwise fun p q => p.same q = false) ∧ (∀ p ∈ all, p ∈ found ∨ p ∈ ps) ∧
      ∀ p, p ∈ found ∨ p ∈ ps → ∃ q ∈ all, p.same q = true := by
  induction ps generalizing found with
  | nil =>
    obtain rfl : found = all := hall
    exact ⟨h, fun p hp => .inl hp, fun p hp => ⟨p, by simpa using hp, Plugin.same_iff.mpr rfl⟩⟩
  | cons p ps ih =>
    rw [List.foldl_cons] at hall
    split at hall
    · next hknown =>
      obtain ⟨hpairwise, hfrom, hstands⟩ := ih h hall
      refine ⟨hpairwise, fun q hq => (hfrom q hq).imp_right (List.mem_cons_of_mem p), fun q hq => ?_⟩
      rcases hq with hq | hq
      · exact hstands q (.inl hq)
      · rcases List.mem_cons.mp hq with rfl | hq
        · -- the plugin that is there already stands for the repeat
          obtain ⟨x, hx, hsame⟩ := List.any_eq_true.mp hknown
          obtain ⟨y, hy, hsame'⟩ := hstands x (.inl hx)
          exact ⟨y, hy, Plugin.same_iff.mpr ((Plugin.same_iff.mp hsame).trans (Plugin.same_iff.mp hsame'))⟩
        · exact hstands q (.inr hq)
    · next hnew =>
      have hp : (found ++ [p]).Pairwise fun p q => p.same q = false := by
        refine List.pairwise_append.mpr ⟨h, List.pairwise_singleton _ p, fun x hx y hy => ?_⟩
        obtain rfl := List.mem_singleton.mp hy
        by_contra hsame
        refine hnew (List.any_eq_true.mpr ⟨x, hx, Plugin.same_iff.mpr (Eq.symm ?_)⟩)
        exact Plugin.same_iff.mp (by simpa using hsame)
      obtain ⟨hpairwise, hfrom, hstands⟩ := ih hp hall
      refine ⟨hpairwise, fun q hq => ?_, fun q hq => hstands q ?_⟩
      · have := hfrom q hq
        simp only [List.mem_append, List.mem_singleton] at this
        grind
      · simp only [List.mem_append, List.mem_singleton]
        grind

/-! ## The plugins of a category -/

/-- The distinct plugins among the values of a dispatch table, taken in any order, by type tag. -/
def listing (values : List Plugin) : List Plugin :=
  (values.foldl (fun found p => if found.any p.same then found else found ++ [p]) []).foldl
    (fun ps p => insertByTag p ps) []

theorem plugins_eq_listing (c : Category) : c.plugins = listing c.dispatch.values := rfl

/-- Plugins are listed in the order of their type tags, and each of them once. -/
theorem listing_spec (values : List Plugin) :
    (listing values).Pairwise (fun p q => p.tag ≤ q.tag ∧ p.same q = false) ∧ (∀ p ∈ listing values, p ∈ values) ∧
      ∀ p ∈ values, ∃ q ∈ listing values, p.same q = true := by
  generalize hfound : values.foldl
    (fun found p => if found.any p.same then found else found ++ [p]) [] = found
  obtain ⟨hdistinct, hfrom, hall⟩ := distinct_spec .nil hfound
  obtain ⟨hordered, hperm⟩ := sortByTag_spec found [] .nil
  rw [listing, hfound]
  rw [List.append_nil] at hperm
  have hsymm : ∀ {p q : Plugin}, p.same q = false → q.same p = false := fun h => by
    rw [Plugin.same, beq_eq_false_iff_ne] at h ⊢
    exact Ne.symm h
  refine ⟨hordered.and ((hperm.pairwise_iff hsymm).mpr hdistinct), fun p hp => ?_, fun p hp => ?_⟩
  · exact (hfrom p (hperm.mem_iff.mp hp)).resolve_left List.not_mem_nil
  · obtain ⟨q, hq, hsame⟩ := hall p (.inr hp)
    exact ⟨q, hperm.mem_iff.mpr hq, hsame⟩

theorem mem_dispatch_values {c : Category} {p : Plugin} :
    p ∈ c.dispatch.values ↔ ∃ tag, c.dispatch.get? tag = some p := by
  constructor
  · intro hp
    obtain ⟨e, he, rfl⟩ := List.mem_map.mp hp
    exact ⟨e.1, (c.dispatch.mem_entries_iff e.1 e.2).mp he⟩
  · rintro ⟨tag, hp⟩
    exact List.mem_map.mpr ⟨(tag, p), (c.dispatch.mem_entries_iff tag p).mpr hp, rfl⟩

/-- The plugins that are bound to tags are listed in the order of their type tags, each of them once. -/
theorem plugins_spec (c : Category) :
    c.plugins.Pairwise (fun p q => p.tag ≤ q.tag ∧ p.same q = false) ∧
    (∀ p ∈ c.plugins, ∃ tag, c.dispatch.get? tag = some p) ∧
    ∀ tag p, c.dispatch.get? tag = some p → ∃ q ∈ c.plugins, p.same q = true := by
  obtain ⟨hordered, hfrom, hall⟩ := listing_spec c.dispatch.values
  rw [plugins_eq_listing]
  exact ⟨hordered, fun p hp => mem_dispatch_values.mp (hfrom p hp),
    fun tag p hp => hall p (mem_dispatch_values.mpr ⟨tag, hp⟩)⟩

end Category
end Blueprint
