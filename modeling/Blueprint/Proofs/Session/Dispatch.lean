import Blueprint.Proofs.Plugin.Arguments
import Blueprint.Proofs.Registry.LoadOrder
import Blueprint.Proofs.Registry.Plugins
import Blueprint.Proofs.Session.References

/-!
# The plugins of a session

The plugins of a session are those that its operations bring in (`after_dispatch`). Registering a plugin claims its type
tag and its aliases or nothing, so unless tags are bound apart from that, every plugin that is bound at all is bound to
just these names (`Registry.Mirrored`), and a category lists its plugins under different tags.
-/

namespace Blueprint

variable {r r' : Registry} {p : Plugin}

/-! ## Registration names -/

theorem Plugin.mem_distinct {names found : List String} {name : String} :
    name ∈ names.foldl (fun found name => if found.contains name then found else found ++ [name]) found ↔
      name ∈ found ∨ name ∈ names := by
  induction names generalizing found with
  | nil => simp
  | cons first names ih =>
    rw [List.foldl_cons, ih]
    split <;> simp_all <;> grind

theorem Plugin.mem_registrationNames {name : String} : name ∈ p.registrationNames ↔ name = p.tag ∨ name ∈ p.aliases := by
  rw [registrationNames, distinct, mem_distinct]
  simp

namespace Registry

/-- A plugin is bound to its own names only, and to all of them. -/
structure Mirrored (r : Registry) : Prop where
  own : ∀ key tag p, (r.category key).dispatch.get? tag = some p → tag ∈ p.registrationNames
  all : ∀ key tag p, (r.category key).dispatch.get? tag = some p → ∀ name ∈ p.registrationNames,
    ∃ q, (r.category key).dispatch.get? name = some q ∧ q.same p = true

/-- Where a plugin is bound, its type tag is bound to it too. -/
def Headed (r : Registry) : Prop := ∀ key tag p, (r.category key).dispatch.get? tag = some p →
  ∃ q, (r.category key).dispatch.get? p.tag = some q ∧ q.same p = true

theorem Mirrored.headed (h : r.Mirrored) : r.Headed := fun key tag p hp =>
  h.all key tag p hp p.tag (Plugin.mem_registrationNames.mpr (.inl rfl))

theorem Mirrored.of_dispatch (h : r.Mirrored) (hd : ∀ key, (r'.category key).dispatch = (r.category key).dispatch) :
    r'.Mirrored where
  own key tag p hp := h.own key tag p (by rwa [hd] at hp)
  all key tag p hp := by
    rw [hd] at hp ⊢
    exact h.all key tag p hp

theorem mirrored_of_empty (h : ∀ key, r.category key = .empty key) : r.Mirrored := by
  constructor <;> intro key tag p hp <;> rw [h] at hp <;> cases hp

/-- Registering a plugin binds those of its names that are free, and the others are bound to it already. -/
theorem Registered.mirrored (hr : r.Registered p r') (ha : r.Accommodates p) (h : r.Mirrored) : r'.Mirrored := by
  have hold : ∀ {key tag : String} {q : Plugin}, (r.category key).dispatch.get? tag = some q →
      (r'.category key).dispatch.get? tag = some q := fun {key tag q} hq => by
    obtain ⟨dispatch, he, hget⟩ := hr.category_eq key
    rw [he, hget, hq, Option.some_or]
  have hcases : ∀ {key tag : String} {q : Plugin}, (r'.category key).dispatch.get? tag = some q →
      (r.category key).dispatch.get? tag = some q ∨ q = p ∧ r.canonical p.category = key ∧ tag ∈ p.registrationNames := by
    intro key tag q hq
    obtain ⟨dispatch, he, hget⟩ := hr.category_eq key
    simp only [he, hget] at hq
    rcases Option.or_eq_some_iff.mp hq with hq | ⟨-, hclaim⟩
    · exact .inl hq
    · split at hclaim
      · next hmine => exact .inr ⟨(Option.some.inj hclaim).symm, hmine⟩
      · cases hclaim
  refine ⟨fun key tag q hq => ?_, fun key tag q hq name hname => ?_⟩
  · rcases hcases hq with hq | ⟨rfl, -, htag⟩
    · exact h.own key tag q hq
    · exact htag
  · rcases hcases hq with hq | ⟨rfl, hkey, -⟩
    · obtain ⟨x, hx, hsame⟩ := h.all key tag q hq name hname
      exact ⟨x, hold hx, hsame⟩
    · cases hbound : (r.category key).dispatch.get? name with
      | some x =>
        subst hkey
        exact ⟨x, hold hbound, Registry.accommodates_iff.mp ha name hname x hbound⟩
      | none =>
        obtain ⟨dispatch, he, hget⟩ := hr.category_eq key
        exact ⟨q, by simp [he, hget, hbound, hkey, hname], Plugin.same_iff.mpr rfl⟩

theorem registerOne_mirrored (item : Registration) (h : r.Mirrored) : (registerOne item r).2.Mirrored := by
  cases item with
  | category d =>
    rcases r.declare_cases d with ⟨-, r', he, hdeclared⟩ | ⟨-, e, he⟩
    · rw [registerOne, he]
      exact h.of_dispatch fun key => by rw [hdeclared.category]
    · rw [registerOne, he]
      exact h
  | plugin p =>
    rcases r.register_cases p with ⟨ha, r', he, hr⟩ | ⟨-, e, he⟩
    · rw [registerOne, he]
      exact hr.mirrored ha h
    · rw [registerOne, he]
      exact h

theorem registerEach_mirrored (items : List Registration) (h : r.Mirrored) : (registerEach items r).2.Mirrored := by
  induction items generalizing r with
  | nil => exact h
  | cons item items ih =>
    have hitem := registerOne_mirrored item h
    simp only [registerEach, bind, Action.andThen]
    split
    · next he =>
      rw [he] at hitem
      exact ih hitem
    · next he =>
      rw [he] at hitem
      exact hitem

/-- A category lists its plugins under different tags. -/
theorem Headed.tags_lt (h : r.Headed) (key : String) : (r.category key).plugins.Pairwise (·.tag < ·.tag) := by
  obtain ⟨hpairwise, hbound, -⟩ := (r.category key).plugins_spec
  refine hpairwise.imp_of_mem fun {p q} hp hq hpq => lt_of_le_of_ne hpq.1 fun he => ?_
  -- the plugin that holds the common tag would be the same as both
  obtain ⟨s, hs⟩ := hbound p hp
  obtain ⟨t, ht⟩ := hbound q hq
  obtain ⟨x, hx, hxp⟩ := h key s p hs
  obtain ⟨y, hy, hyq⟩ := h key t q ht
  obtain rfl : x = y := Option.some.inj (hx.symm.trans (he ▸ hy))
  have hsame := Plugin.same_iff.mpr ((Plugin.same_iff.mp hxp).symm.trans (Plugin.same_iff.mp hyq))
  rw [hpq.2] at hsame
  cases hsame

end Registry

/-! ## Sessions -/

namespace Operation

/-- The operation binds tags to a plugin apart from registering it. -/
def binds : Operation → Bool
  | .bind _ _ _ => true
  | _ => false

theorem apply_mirrored {op : Operation} (hop : op.binds = false) (h : r.Mirrored) : (op.apply r).Mirrored := by
  by_cases hk : op.keepsTables = true
  · exact h.of_dispatch (apply_sameTables hk r).dispatch
  · cases op with
    | declare d => exact Registry.registerOne_mirrored (.category d) h
    | register p => exact Registry.registerOne_mirrored (.plugin p) h
    | registerAll items => exact Registry.registerEach_mirrored _ h
    | reset => exact Registry.mirrored_of_empty r.category_reset
    | bind => cases hop
    | _ => exact absurd rfl hk

/-- Only permitted plugins come to be bound. -/
theorem apply_dispatch {g : Permit} {op : Operation} (hop : op.Within g)
    (h : ∀ key tag p, (r.category key).dispatch.get? tag = some p → g.plugin p) :
    ∀ key tag p, ((op.apply r).category key).dispatch.get? tag = some p → g.plugin p := by
  refine apply_induction hop (P := fun r => ∀ key tag p, (r.category key).dispatch.get? tag = some p → g.plugin p)
    (fun r r' hchange hr key tag p hd => ?_) (fun _ r hr key tag p hd => ?_) (fun name _ r hr key tag p hd => ?_)
    (fun _ r _ key tag p hd => ?_) h
  · rcases (hchange.dispatch_cases key tag p).2 hd with hd | hp
    · exact hr key tag p hd
    · exact hp
  · rw [r.sameTables_clearObjects.dispatch] at hd
    exact hr key tag p hd
  · rw [(r.sameTables_clearCategory name).dispatch] at hd
    exact hr key tag p hd
  · rw [r.category_reset] at hd
    cases hd

end Operation

/-- Plugins that have been accepted; there is no other restriction. -/
def Permit.accepted : Permit := ⟨True, fun _ => True, fun p => p.checked = .ok p, fun _ => True⟩

theorem after_mirrored {ops : List Operation} (hops : ∀ op ∈ ops, op.binds = false) : (Registry.after ops).Mirrored :=
  Registry.after_induction (Q := fun op => op.binds = false) (Registry.mirrored_of_empty fun _ => rfl)
    (fun _ _ hop hr => Operation.apply_mirrored hop hr) hops

theorem after_dispatch {g : Permit} {ops : List Operation} (hops : ∀ op ∈ ops, op.Within g) (key tag : String)
    (p : Plugin) : ((Registry.after ops).category key).dispatch.get? tag = some p → g.plugin p :=
  Registry.after_induction (Q := fun op => op.Within g)
    (P := fun r => ∀ key tag p, (r.category key).dispatch.get? tag = some p → g.plugin p) (by rintro _ _ _ ⟨⟩)
    (fun _ _ hop hr => Operation.apply_dispatch hop hr) hops key tag p

end Blueprint
