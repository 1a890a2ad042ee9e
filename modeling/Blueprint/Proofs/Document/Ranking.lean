import Blueprint.Document.Basic
import Mathlib.Data.List.Forall2

/-!
# The order of sections

Sections are compiled in the order of their positions, and those of one position in the order of the document. Only the
keys of their categories count. A list is refused at the first name without a rank, if such names are to be refused, and
otherwise arranged by position (`CompileOrder.sorted_eq`).
-/

namespace Blueprint

open List (Forall₂)

variable {α β : Type}

/-! ## Arranging -/

/-- The items by position, from `0` to `last`; those of one position stay in their order. -/
def arrange (last : Nat) (position : α → Nat) (xs : List α) : List α :=
  (List.range (last + 1)).flatMap fun k => xs.filter (position · == k)

theorem arrange_map (last : Nat) (position : β → Nat) (f : α → β) (xs : List α) :
    arrange last position (xs.map f) = (arrange last (fun x => position (f x)) xs).map f := by
  simp only [arrange, List.filter_map, List.map_flatMap]
  rfl

theorem mem_of_mem_arrange {last : Nat} {position : α → Nat} {xs : List α} {x : α}
    (h : x ∈ arrange last position xs) : x ∈ xs := by
  obtain ⟨k, -, hk⟩ := List.mem_flatMap.mp h
  exact (List.mem_filter.mp hk).1

theorem arrange_forall₂ {R : α → β → Prop} {last : Nat} {position : α → Nat} {position' : β → Nat} {xs : List α}
    {ys : List β} (hposition : ∀ x y, R x y → position' y = position x) (h : Forall₂ R xs ys) :
    Forall₂ R (arrange last position xs) (arrange last position' ys) := by
  refine List.rel_flatMap (List.forall₂_same.mpr fun k _ => rfl) ?_
  rintro k _ rfl
  exact List.rel_filter (fun {x y} hxy => by simp only [hposition x y hxy]) h

/-- Items with positions up to the last are all there. -/
theorem arrange_perm {last : Nat} {position : α → Nat} {xs : List α} (h : ∀ x ∈ xs, position x ≤ last) :
    (arrange last position xs).Perm xs := by
  have hbelow : ∀ n, ((List.range n).flatMap fun k => xs.filter (position · == k)).Perm
      (xs.filter fun x => decide (position x < n)) := by
    intro n
    induction n with
    | zero => simp
    | succ n ih =>
      rw [List.range_succ, List.flatMap_append, List.flatMap_singleton]
      have hsplit := List.filter_append_perm (fun x => decide (position x < n))
        (xs.filter fun x => decide (position x < n + 1))
      rw [List.filter_filter, List.filter_filter] at hsplit
      refine (ih.append_right _).trans ((List.Perm.of_eq ?_).trans hsplit)
      congr 1 <;> refine List.filter_congr fun x _ => ?_ <;> grind
  have hall : xs.filter (fun x => decide (position x < last + 1)) = xs :=
    List.filter_eq_self.mpr fun x hx => by simpa using Nat.lt_succ_of_le (h x hx)
  exact (hbelow (last + 1)).trans (List.Perm.of_eq hall)

theorem arrange_ordered (last : Nat) (position : α → Nat) (xs : List α) :
    (arrange last position xs).Pairwise fun x y => position x ≤ position y := by
  refine List.pairwise_flatMap.mpr ⟨fun k _ => ?_, List.pairwise_lt_range.imp fun hlt x hx y hy => ?_⟩
  · refine List.pairwise_of_forall_mem_list fun x hx y hy => ?_
    simp_all
  · simp only [List.mem_filter, beq_iff_eq] at hx hy
    omega

/-- The items of one position stay in their order. -/
theorem filter_arrange {last k : Nat} (hk : k ≤ last) (position : α → Nat) (xs : List α) :
    (arrange last position xs).filter (position · == k) = xs.filter (position · == k) := by
  have hone : ∀ n, ((List.range n).flatMap fun j => (xs.filter (position · == j)).filter (position · == k)) =
      if k < n then xs.filter (position · == k) else [] := by
    intro n
    induction n with
    | zero => simp
    | succ n ih =>
      rw [List.range_succ, List.flatMap_append, List.flatMap_singleton, ih, List.filter_filter]
      by_cases hkn : k = n
      · subst hkn
        simp
      · have hnone : xs.filter (fun x => position x == k && position x == n) = [] :=
          List.filter_eq_nil_iff.mpr fun x _ => by grind
        rw [hnone, List.append_nil]
        exact if_congr (by omega) rfl rfl
  rw [arrange, List.filter_flatMap, hone, if_pos (Nat.lt_succ_of_le hk)]

/-! ## Reordering -/

/-- The same items; two items of one rank stay in their order. -/
structure Reordered {ρ : Type} (rank : α → ρ) (xs ys : List α) : Prop where
  perm : xs.Perm ys
  stable : ∀ x y, rank x = rank y → [x, y].Sublist xs → [x, y].Sublist ys

/-- In a list without repeats one of two items comes first. -/
theorem eq_of_sublist_swap {l : List α} (distinct : l.Nodup) {x y : α} (h : [x, y].Sublist l)
    (h' : [y, x].Sublist l) : x = y := by
  induction l with
  | nil => cases h
  | cons a l ih =>
    obtain ⟨hnot, distinct⟩ := List.nodup_cons.mp distinct
    cases h with
    | cons _ h =>
      cases h' with
      | cons _ h' => exact ih distinct h h'
      | cons_cons _ _ => exact absurd (h.subset (by simp)) hnot
    | cons_cons _ h =>
      cases h' with
      | cons _ h' => exact absurd (h'.subset (by simp)) hnot
      | cons_cons _ _ => rfl

/-- A reordering keeps every list of items of one rank. -/
theorem Reordered.filter_eq {ρ : Type} {rank : α → ρ} {xs ys : List α} (h : Reordered rank xs ys) (distinct : xs.Nodup)
    {keep : α → Bool} (hkeep : ∀ x y, keep x = true → keep y = true → rank x = rank y) :
    xs.filter keep = ys.filter keep := by
  have distinct' : (ys.filter keep).Nodup := (h.perm.nodup distinct).sublist List.filter_sublist
  -- both lists are in the order of the second one
  have hys : (ys.filter keep).Pairwise fun x y => [x, y].Sublist (ys.filter keep) :=
    List.pairwise_iff_forall_sublist.mpr fun hxy => hxy
  have hxs : (xs.filter keep).Pairwise fun x y => [x, y].Sublist (ys.filter keep) := by
    refine List.pairwise_iff_forall_sublist.mpr fun {x y} hxy => ?_
    have hx := (List.mem_filter.mp (hxy.subset (by simp : x ∈ [x, y]))).2
    have hy := (List.mem_filter.mp (hxy.subset (by simp : y ∈ [x, y]))).2
    have hsub := (h.stable x y (hkeep x y hx hy) (hxy.trans List.filter_sublist)).filter keep
    simpa [hx, hy] using hsub
  exact List.Perm.eq_of_pairwise (fun x y _ _ => eq_of_sublist_swap distinct') hxs hys (h.perm.filter keep)

namespace CompileOrder

variable (c : CompileOrder) (r : Registry)

/-! ## Ranking -/

/-- The position of a section: its rank, or the position after all ranks. -/
def position (name : String) : Nat := (rank? (c.keys r) r name).getD c.order.length

theorem rank?_lt {name : String} {k : Nat} (h : rank? (c.keys r) r name = some k) : k < c.order.length := by
  obtain ⟨hk, -⟩ := List.findIdx?_eq_some_iff_findIdx_eq.mp h
  simpa [keys] using hk

/-- Sections of one position have one rank, or none of them has one. -/
theorem rank?_eq_of_position {name other : String} (h : c.position r name = c.position r other) :
    rank? (c.keys r) r name = rank? (c.keys r) r other := by
  simp only [position] at h
  cases hn : rank? (c.keys r) r name with
  | none =>
    cases ho : rank? (c.keys r) r other with
    | none => rfl
    | some k =>
      have hk := c.rank?_lt r ho
      simp [hn, ho] at h
      omega
  | some k =>
    have hk := c.rank?_lt r hn
    cases ho : rank? (c.keys r) r other with
    | none =>
      simp [hn, ho] at h
      omega
    | some l => simpa [hn, ho] using h

/-- The key of the first section without a rank, where such sections are refused. -/
def refused? (names : List String) : Option String :=
  match c.unknown with
  | .last => none
  | .reject => (names.find? fun name => (rank? (c.keys r) r name).isNone).map r.canonical

theorem ranked_eq (names : List String) :
    c.ranked r names = match c.refused? r names with
      | some key => .error (.unknownCategory key (c.keys r))
      | none => .ok (names.map fun name => (c.position r name, name)) := by
  simp only [refused?]
  induction names with
  | nil => cases c.unknown <;> rfl
  | cons name names ih =>
    simp only [ranked, ih, position, List.map_cons, List.find?_cons]
    cases rank? (c.keys r) r name with
    | none => cases c.unknown <;> simp [Except.map, keys]
    | some k =>
      cases c.unknown with
      | last => rfl
      | reject => cases names.find? fun name => (rank? (c.keys r) r name).isNone <;> rfl

theorem byRank_eq_arrange (last : Nat) (position : String → Nat) (names : List String) :
    byRank last (names.map fun name => (position name, name)) = arrange last position names := by
  simp only [byRank, arrange, List.filter_map, List.map_map, Function.comp_def, List.map_id_fun', id_eq]

/-- A list of sections is refused at the first one without a rank, or arranged by position. -/
theorem sorted_eq (names : List String) :
    c.sorted r names = match c.refused? r names with
      | some key => .error (.unknownCategory key (c.keys r))
      | none => .ok (arrange c.order.length (c.position r) names) := by
  rw [sorted, ranked_eq]
  cases c.refused? r names with
  | none => exact congrArg Except.ok (byRank_eq_arrange _ _ _)
  | some key => rfl

theorem sorted_eq_error_iff {names : List String} {e : Diagnostic} :
    c.sorted r names = .error e ↔ ∃ key, c.refused? r names = some key ∧ e = .unknownCategory key (c.keys r) := by
  rw [sorted_eq]
  cases c.refused? r names <;> simp [eq_comm]

/-- Only the keys of the categories count. -/
theorem sorted_congr {r r' : Registry} (h : r'.canonical = r.canonical) (names : List String) :
    c.sorted r' names = c.sorted r names := by
  have hposition : c.position r' = c.position r := funext fun name => by simp only [position, rank?, keys, h]
  simp only [sorted_eq, refused?, rank?, keys, h, hposition]

end CompileOrder
end Blueprint
