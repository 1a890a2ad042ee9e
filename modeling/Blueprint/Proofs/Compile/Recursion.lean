import Blueprint.Compile.Basic

/-!
# The recursion of the compiler

`compile` bounds its recursion by the depth of the description. The depth is always enough, so `compile` compiles a
description by compiling the descriptions inside it (`compile_eq`), and no later proof looks at the bound again.
-/

namespace Blueprint

/-! ## Depth -/

namespace Json

theorem depth_le_itemsDepth {item : Json} {items : List Json} (h : item ∈ items) : item.depth ≤ itemsDepth items := by
  induction items with
  | nil => simp at h
  | cons first rest ih =>
    simp only [itemsDepth]
    rcases List.mem_cons.mp h with rfl | h
    · omega
    · have := ih h; omega

theorem membersDepth_le_iff {members : Members} {n : Nat} :
    membersDepth members ≤ n ↔ ∀ m ∈ members, m.2.depth ≤ n := by
  induction members with
  | nil => simp [membersDepth]
  | cons m rest ih =>
    simp only [membersDepth, List.forall_mem_cons, ← ih]
    omega

theorem depth_le_membersDepth {key : String} {value : Json} {members : Members}
    (h : Entries.get? key members = some value) : value.depth ≤ membersDepth members :=
  membersDepth_le_iff.mp (Nat.le_refl _) _ (Entries.mem_of_get? h)

theorem membersDepth_erase_le (key : String) (members : Members) :
    membersDepth (Entries.erase key members) ≤ membersDepth members :=
  membersDepth_le_iff.mpr fun m hm =>
    membersDepth_le_iff.mp (Nat.le_refl _) m (List.mem_filter.mp hm).1

theorem depth_le_of_mem_itemsOrSelf {item raw : Json} (h : item ∈ raw.itemsOrSelf) : item.depth ≤ raw.depth := by
  cases raw with
  | arr items => exact Nat.le_succ_of_le (depth_le_itemsDepth h)
  | _ => simp_all [itemsOrSelf]

end Json

/-! ## Compiling depends on what is inside only -/

variable {f g : Compile}

theorem Action.each_congr {α β : Type} {f g : α → Action β} {xs : List α} (h : ∀ x ∈ xs, f x = g x) :
    each f xs = each g xs := by
  induction xs with
  | nil => rfl
  | cons x xs ih => simp only [each, h x (by simp), ih fun y hy => h y (by simp [hy])]

theorem Action.each_map {α β γ : Type} (f : β → Action γ) (g : α → β) (xs : List α) :
    each f (xs.map g) = each (fun x => f (g x)) xs := by
  induction xs with
  | nil => rfl
  | cons x xs ih => simp only [List.map_cons, each, ih]

theorem Action.eachFrom_congr {α β : Type} {f g : Nat → α → Action β} {xs : List α}
    (h : ∀ i, ∀ x ∈ xs, f i x = g i x) (i : Nat) : eachFrom f i xs = eachFrom g i xs := by
  induction xs generalizing i with
  | nil => rfl
  | cons x xs ih => simp only [eachFrom, h i x (by simp), ih fun i y hy => h i y (by simp [hy])]

theorem callWith_congr {raw : Json} (h : ∀ k x, x.depth ≤ raw.depth → f k x = g k x) (key : String) :
    callWith f key raw = callWith g key raw := by
  cases raw with
  | arr items =>
    have hi : Action.each (f key) items = Action.each (g key) items :=
      Action.each_congr fun x hx => h key x (Nat.le_succ_of_le (Json.depth_le_itemsDepth hx))
    simp only [callWith, hi]
  | _ => simp only [callWith, h key _ (Nat.le_refl _)]

theorem Loader.loadWith_congr (l : Loader) {raw : Json} (h : ∀ k x, x.depth ≤ raw.depth → f k x = g k x) :
    l.loadWith f raw = l.loadWith g raw := by
  induction l generalizing raw with
  | read reader => rfl
  | category name => simp only [loadWith, callNamed, callWith_congr h]
  | listOf item ih =>
    simp only [loadWith]
    rw [Action.eachFrom_congr]
    intro i x hx
    rw [ih fun k y hy => h k y (Nat.le_trans hy (Json.depth_le_of_mem_itemsOrSelf hx))]

namespace Plugin

theorem loadParameters_congr (p : Plugin) {input : Members}
    (h : ∀ k x, x.depth ≤ Json.membersDepth input → f k x = g k x) (args : Arguments) (qs : List Parameter) :
    p.loadParameters f input args qs = p.loadParameters g input args qs := by
  induction qs generalizing args with
  | nil => rfl
  | cons q qs ih =>
    simp only [loadParameters]
    split
    · exact ih args
    · next raw hraw =>
      have hq : q.resolveWith f raw = q.resolveWith g raw := by
        simp only [Parameter.resolveWith]
        rw [q.loader.loadWith_congr fun k x hx => h k x (Nat.le_trans hx (Json.depth_le_membersDepth hraw))]
      simp only [hq, ih]

theorem buildWith_congr (p : Plugin) {input : Members}
    (h : ∀ k x, x.depth ≤ Json.membersDepth input → f k x = g k x) : p.buildWith f input = p.buildWith g input := by
  simp only [buildWith, argumentsWith, loadParameters_congr p h]

end Plugin

theorem Description.input_depth_le {label : String} {tags : List String} {members : Members} {d : Description}
    (h : Description.ofMembers label tags members = .ok d) :
    Json.membersDepth d.input ≤ Json.membersDepth members := by
  simp only [ofMembers] at h
  cases hn : nameOf label members with
  | error e => rw [hn] at h; cases h
  | ok name =>
    cases ht : tagOf label tags members with
    | error e => rw [hn, ht] at h; cases h
    | ok tag =>
      rw [hn, ht] at h
      cases h
      exact Nat.le_trans (Json.membersDepth_erase_le _ _) (Json.membersDepth_erase_le _ _)

theorem compileMembersWith_congr {members : Members}
    (h : ∀ k x, x.depth ≤ Json.membersDepth members → f k x = g k x) (key : String) :
    compileMembersWith f key members = compileMembersWith g key members := by
  funext r
  simp only [compileMembersWith, bind, Action.andThen, Action.ask, Action.ofExcept]
  cases hd : Description.ofMembers (r.category key).label (r.category key).tags members with
  | error e => rfl
  | ok d =>
    simp only
    cases pluginFor (r.category key) d.tag with
    | error e => rfl
    | ok p =>
      simp only
      rw [p.buildWith_congr fun k x hx => h k x (Nat.le_trans hx (Description.input_depth_le hd))]

theorem compileWith_congr {raw : Json} (h : ∀ k x, x.depth < raw.depth → f k x = g k x) (key : String) :
    compileWith f key raw = compileWith g key raw := by
  cases raw with
  | obj members =>
    simp only [compileWith]
    exact compileMembersWith_congr (fun k x hx => h k x (by simp only [Json.depth]; omega)) key
  | _ => rfl

/-! ## The depth is enough -/

theorem compileTo_eq_of_le {n m : Nat} {raw : Json} (hn : raw.depth ≤ n) (hm : raw.depth ≤ m) (key : String) :
    compileTo n key raw = compileTo m key raw := by
  induction n generalizing m key raw with
  | zero =>
    cases m with
    | zero => rfl
    | succ m => exact compileWith_congr (fun k x hx => by omega) key
  | succ n ih =>
    cases m with
    | zero => exact compileWith_congr (fun k x hx => by omega) key
    | succ m => exact compileWith_congr (fun k x hx => ih (by omega) (by omega) k) key

/-- A description is compiled by compiling the descriptions inside it. -/
theorem compile_eq (key : String) (raw : Json) : compile key raw = compileWith compile key raw := by
  unfold compile
  cases hd : raw.depth with
  | zero => exact compileWith_congr (fun k x hx => by omega) key
  | succ n => exact compileWith_congr (fun k x hx => compileTo_eq_of_le (by omega) (Nat.le_refl _) k) key

theorem compile_str (key name : String) : compile key (.str name) = lookUp key name := by
  rw [compile_eq]; rfl

theorem compile_obj (key : String) (members : Members) :
    compile key (.obj members) = compileMembersWith compile key members := by
  rw [compile_eq]; rfl

theorem compile_eq_refuse (key : String) {raw : Json} (ht : raw.typeName ≠ "Text") (hm : raw.typeName ≠ "Map") :
    compile key raw = refuse key raw := by
  rw [compile_eq]
  cases raw with
  | str s => exact absurd rfl ht
  | obj members => exact absurd rfl hm
  | _ => rfl

end Blueprint
