import Blueprint.Proofs.Compile.Naming
import Blueprint.Proofs.Compile.RegistrationOrder
import Blueprint.Proofs.Plugin.Arguments
import Blueprint.Proofs.Session.Standard

/-!
# Inline descriptions and names

The first mapping inside a description may as well be compiled before the description, which then refers to it by its
name: the same objects are registered in the same order, and the outcome is the same (`compile_inline_named`). What is
loaded before the mapping changes nothing and does not mind objects that are registered earlier (`Action.Steady`); and
an action that meets the mapping splits into the mapping and the rest (`Action.Splits`).
-/

namespace Blueprint

variable {α β γ : Type}

/-! ## Actions that may wait -/

namespace Action

/-- If the action succeeds it changes nothing, and when more objects are registered it gives the same. -/
def Steady (a : Action α) (r : Registry) : Prop :=
  ∀ x r', a r = (.ok x, r') → r' = r ∧ ∀ s, r.Extends s → r.SameTables s → a s = (.ok x, s)

/-- If the action succeeds, so does the first one, and where that ends the rest gives the same as the action. -/
def Splits (first : Action γ) (rest a : Action α) (r : Registry) : Prop :=
  ∀ x r', a r = (.ok x, r') → ∃ y r₁, first r = (.ok y, r₁) ∧ rest r₁ = (.ok x, r')

/-- If the action succeeds, nothing is lost and no table changed. -/
def Grows (a : Action α) (r : Registry) : Prop := ∀ x r', a r = (.ok x, r') → r.Extends r' ∧ r.SameTables r'

variable {a b : Action α} {f g : α → Action β} {first : Action γ} {r : Registry}

namespace Steady

theorem ofExcept (x : Except Diagnostic α) : (Action.ofExcept x).Steady r := by
  intro y r' h
  obtain ⟨rfl, rfl⟩ := Prod.mk.inj h
  exact ⟨rfl, fun s _ _ => rfl⟩

theorem bind (ha : a.Steady r) (hf : ∀ x, (f x).Steady r) : (a >>= f).Steady r := by
  intro y r' h
  obtain ⟨x, r₁, hx, hy⟩ := bind_eq_ok_iff.mp h
  obtain ⟨rfl, ha⟩ := ha x r₁ hx
  obtain ⟨rfl, hf⟩ := hf x y r' hy
  exact ⟨rfl, fun s he ht => bind_eq_ok_iff.mpr ⟨x, s, ha s he ht, hf s he ht⟩⟩

theorem onError (ha : a.Steady r) (e : Diagnostic → Diagnostic) : (a.onError e).Steady r := by
  intro x r' h
  obtain ⟨rfl, ha⟩ := ha x r' (onError_eq_ok_iff.mp h)
  exact ⟨rfl, fun s he ht => onError_eq_ok_iff.mpr (ha s he ht)⟩

theorem eachFrom {f : Nat → α → Action β} {xs : List α} (h : ∀ i, ∀ x ∈ xs, (f i x).Steady r) (i : Nat) :
    (Action.eachFrom f i xs).Steady r := by
  induction xs generalizing i with
  | nil => exact ofExcept (.ok [])
  | cons x xs ih =>
    exact (h i x (by simp)).bind fun y => (ih (fun i x hx => h i x (by simp [hx])) (i + 1)).bind fun ys =>
      ofExcept (.ok (y :: ys))

end Steady

namespace Splits

/-- What comes before the split may wait until after it. -/
theorem bind_steady (grows : first.Grows r) (ha : a.Steady r)
    (h : ∀ x, a r = (.ok x, r) → Splits first (g x) (f x) r) : Splits first (a >>= g) (a >>= f) r := by
  intro y r' hbind
  obtain ⟨x, r₁, hx, hy⟩ := bind_eq_ok_iff.mp hbind
  obtain ⟨rfl, later⟩ := ha x r₁ hx
  obtain ⟨z, r₂, hz, hrest⟩ := h x hx y r' hy
  obtain ⟨he, ht⟩ := grows z r₂ hz
  exact ⟨z, r₂, hz, bind_eq_ok_iff.mpr ⟨x, r₂, later r₂ he ht, hrest⟩⟩

theorem bind (h : Splits first b a r) (f : α → Action β) : Splits first (b >>= f) (a >>= f) r := by
  intro y r' hbind
  obtain ⟨x, r₁, hx, hy⟩ := bind_eq_ok_iff.mp hbind
  obtain ⟨z, r₂, hz, hrest⟩ := h x r₁ hx
  exact ⟨z, r₂, hz, bind_eq_ok_iff.mpr ⟨x, r₁, hrest, hy⟩⟩

theorem onError (h : Splits first b a r) (e : Diagnostic → Diagnostic) : Splits first (b.onError e) (a.onError e) r := by
  intro x r' hx
  obtain ⟨z, r₂, hz, hrest⟩ := h x r' (onError_eq_ok_iff.mp hx)
  exact ⟨z, r₂, hz, onError_eq_ok_iff.mpr hrest⟩

theorem eachFrom {f : Nat → α → Action β} {find : α → Option γ} {replace : α → Option α} {m : γ}
    {first : Action Handle} (grows : first.Grows r) (hsome : ∀ x, (replace x).isSome = (find x).isSome)
    (steady : ∀ i x, find x = none → (f i x).Steady r)
    (split : ∀ i x y, find x = some m → replace x = some y → Splits first (f i y) (f i x) r) {xs ys : List α}
    (hfind : xs.findSome? find = some m) (hreplace : replaceFirst? replace xs = some ys) (i : Nat) :
    Splits first (Action.eachFrom f i ys) (Action.eachFrom f i xs) r := by
  induction xs generalizing ys i with
  | nil => cases hreplace
  | cons x xs ih =>
    have hx := hsome x
    rw [List.findSome?_cons] at hfind
    rw [replaceFirst?] at hreplace
    cases hm : find x with
    | some m' =>
      rw [hm] at hfind hx
      cases hfind
      obtain ⟨y, hy⟩ := Option.isSome_iff_exists.mp hx
      rw [hy] at hreplace
      cases hreplace
      exact (split i x y hm hy).bind _
    | none =>
      rw [hm] at hfind hx
      have hnone : replace x = none := by simpa using hx
      rw [hnone] at hreplace
      obtain ⟨ys', hys, rfl⟩ := Option.map_eq_some_iff.mp hreplace
      exact bind_steady grows (steady i x hm) fun y _ => (ih hfind hys (i + 1)).bind _

end Splits
end Action

/-! ## Descriptions -/

variable {r : Registry} {c : Catalogue} {m : Mapping} {name : String}

theorem compile_grows (key : String) (raw : Json) : (compile key raw).Grows r := by
  intro h r' he
  obtain ⟨done, -, run, -⟩ := compile_registers r key raw
  rw [he] at run
  exact ⟨run.extends, run.sameTables⟩

/-- Only mappings are compiled to new objects. -/
theorem compile_steady {raw : Json} (h : raw.members? = none) (key : String) : (compile key raw).Steady r := by
  intro o r' he
  cases raw with
  | obj members => cases h
  | str name =>
    rw [compile_str] at he ⊢
    simp only [lookUp] at he ⊢
    split at he
    · next k hk =>
      obtain ⟨rfl, rfl⟩ := Prod.mk.inj he |>.imp Except.ok.inj id
      exact ⟨rfl, fun s e _ => by rw [e.named key name k hk]⟩
    · cases he
  | _ =>
    rw [compile_eq] at he
    cases he

theorem resolve_steady (category : String) : (resolve category).Steady r := by
  intro key r' he
  simp only [resolve] at he ⊢
  split at he
  · next hk =>
    obtain ⟨rfl, rfl⟩ := Prod.mk.inj he |>.imp Except.ok.inj id
    refine ⟨rfl, fun s e t => ?_⟩
    rw [t.canonical, if_pos (e.present _ hk)]
  · cases he

/-- After a mapping its name stands for its object. -/
theorem compile_splits (hname : m.name? = some name) :
    Action.Splits (compile m.key (.obj m.members)) (compile m.key (.str name)) (compile m.key (.obj m.members)) r := by
  intro h r' he
  refine ⟨h, r', he, ?_⟩
  rcases compile_obj_cases r m.key m.members with ⟨_, _, _, _, _, hfail⟩ | ⟨r₁, r₂, run, step, hok⟩
  · rw [hfail] at he
    cases he
  · rw [hok] at he
    obtain ⟨rfl, rfl⟩ := Prod.mk.inj he |>.imp Except.ok.inj id
    have hbound := (step.named_iff m.key name r₁.store.next).mpr (.inr ⟨rfl, hname, rfl⟩)
    rw [compile_str]
    simp only [lookUp, hbound]

namespace Loader

theorem steady {l : Loader} {raw : Json}
    (h : (l.references c raw).findSome? Mapping.ofPart? = none) : (l.loadWith compile raw).Steady r := by
  induction l generalizing raw with
  | read reader => exact .ofExcept _
  | category category =>
    have hflat : ∀ x ∈ raw.itemsOrSelf, x.members? = none := by
      simpa [references, List.findSome?_map, List.findSome?_eq_none_iff, Mapping.ofPart?] using h
    refine (resolve_steady category).bind fun key => ?_
    cases raw with
    | arr items =>
      rw [callWith, Action.each_eq_eachFrom _ 0]
      exact (Action.Steady.eachFrom (fun _ x hx => compile_steady (hflat x hx) key) 0).bind fun _ => .ofExcept (.ok _)
    | _ => exact (compile_steady (hflat _ (by simp [Json.itemsOrSelf])) key).bind fun _ => .ofExcept (.ok _)
  | listOf item ih =>
    rw [references, findSome?_flatMap, List.findSome?_eq_none_iff] at h
    exact (Action.Steady.eachFrom (fun _ x hx => (ih (h x hx)).onError _) 0).bind fun _ => .ofExcept (.ok _)

theorem splits (hr : r.catalogue = c) (hname : m.name? = some name) {l : Loader} {raw raw' : Json}
    (hm : (l.references c raw).findSome? Mapping.ofPart? = some m) (hraw : l.named? name raw = some raw') :
    Action.Splits (compile m.key (.obj m.members)) (l.loadWith compile raw') (l.loadWith compile raw) r := by
  have grows : (compile m.key (.obj m.members)).Grows r := compile_grows _ _
  induction l generalizing raw raw' with
  | read reader => cases hraw
  | category category =>
    refine .bind_steady grows (resolve_steady category) fun key hkey => ?_
    have hkey : key = c.key category := by
      simp only [resolve] at hkey
      split at hkey
      · rw [← hr]
        exact (Except.ok.inj (Prod.mk.inj hkey).1).symm
      · cases hkey
    subst hkey
    -- a description that is replaced is the mapping itself
    have hitem (x y : Json) (hx : Mapping.ofPart? (c.key category, x) = some m) (hy : x.named? name = some y) :
        Action.Splits (compile m.key (.obj m.members)) (compile (c.key category) y) (compile (c.key category) x) r := by
      cases x with
      | obj members =>
        cases hx
        cases hy
        exact compile_splits hname
      | _ => cases hx
    simp only [references, List.findSome?_map] at hm
    cases raw with
    | arr items =>
      obtain ⟨items', hitems, rfl⟩ := Option.map_eq_some_iff.mp hraw
      simp only [callWith, Action.each_eq_eachFrom _ 0]
      refine (Action.Splits.eachFrom grows (fun x => ?_) (fun _ x hx => compile_steady ?_ _)
        (fun _ => hitem) hm hitems 0).bind _
      · cases x <;> rfl
      · simpa [Mapping.ofPart?] using hx
    | obj members =>
      cases hraw
      exact (hitem (.obj members) _ (by simpa [Json.itemsOrSelf] using hm) rfl).bind _
    | _ => cases hraw
  | listOf item ih =>
    rw [references, findSome?_flatMap] at hm
    simp only [loadWith]
    exact (Action.Splits.eachFrom grows (item.isSome_named? c name)
      (fun i x hx => (steady hx).onError (·.note s!"in list item {i}"))
      (fun i x y hx hy => (ih hx hy).onError (·.note s!"in list item {i}")) hm (named?_itemsOrSelf hraw) 0).bind _

end Loader

namespace Plugin

variable {p : Plugin} {input input' : Members}

theorem loadParameters_congr_input (compile : Compile) (args : Arguments) {qs : List Parameter}
    (h : ∀ q ∈ qs, Entries.get? q.name input' = Entries.get? q.name input) :
    p.loadParameters compile input' args qs = p.loadParameters compile input args qs := by
  induction qs generalizing args with
  | nil => rfl
  | cons q qs ih =>
    have ih := fun args => ih args fun q hq => h q (by simp [hq])
    simp only [loadParameters, h q (by simp), ih]

/-- Parameters are loaded alike before and after the one whose value is replaced. -/
theorem loadParameters_splits (hr : r.catalogue = c) (hname : m.name? = some name) {qs : List Parameter}
    (distinct : (qs.map Parameter.name).Nodup)
    (hm : (qs.flatMap (Parameter.references c input)).findSome? Mapping.ofPart? = some m) {key : String} {raw' : Json}
    (hkey : qs.findSome? (Parameter.named? name input) = some (key, raw'))
    (hinput : ∀ k, Entries.get? k input' = if key = k then some raw' else Entries.get? k input) (args : Arguments) :
    Action.Splits (compile m.key (.obj m.members)) (p.loadParameters compile input' args qs)
      (p.loadParameters compile input args qs) r := by
  induction qs generalizing args with
  | nil => cases hkey
  | cons q qs ih =>
    rw [List.flatMap_cons, List.findSome?_append, Parameter.references] at hm
    rcases Parameter.named?_cons_cases distinct hkey hinput with ⟨raw, hraw, hraw', hnew, hothers⟩ | ⟨hq, hsame, hkey⟩
    · have hsome := q.loader.isSome_named? c name raw
      rw [hraw'] at hsome
      obtain ⟨m', hm'⟩ := Option.isSome_iff_exists.mp hsome.symm
      simp only [hraw, hm', Option.some_or, Option.some.injEq] at hm
      subst hm
      simp only [loadParameters, hraw, hnew, loadParameters_congr_input compile _ hothers]
      exact (((q.loader.splits hr hname hm' hraw').onError _).onError _).bind _
    · have ih := ih (List.nodup_cons.mp distinct).2
      simp only [loadParameters, hsame]
      cases hraw : Entries.get? q.name input with
      | none =>
        rw [hraw] at hm
        exact ih hm hkey args
      | some raw =>
        have hnone : (q.loader.references c raw).findSome? Mapping.ofPart? = none := by
          have hsome := q.loader.isSome_named? c name raw
          simp only [Parameter.named?, hraw, Option.bind_some, Option.map_eq_none_iff] at hq
          rw [hq] at hsome
          simpa using hsome.symm
        simp only [hraw, hnone, Option.none_or] at hm
        exact .bind_steady (compile_grows _ _) ((Loader.steady hnone).onError _ |>.onError _)
          fun value _ => ih hm hkey (args.insert q.name value)

theorem buildWith_splits (hr : r.catalogue = c) (hname : m.name? = some name)
    (distinct : (p.parameters.map Parameter.name).Nodup)
    (hm : ((p.requiredParameters ++ p.optionalParameters).flatMap (Parameter.references c input)).findSome?
      Mapping.ofPart? = some m) {key : String} {raw' : Json}
    (hkey : (p.requiredParameters ++ p.optionalParameters).findSome? (Parameter.named? name input) = some (key, raw'))
    (hinput : ∀ k, Entries.get? k input' = if key = k then some raw' else Entries.get? k input)
    (hundeclared : (input'.filter fun e => (p.parameter? e.1).isNone) = input.filter fun e => (p.parameter? e.1).isNone) :
    Action.Splits (compile m.key (.obj m.members)) (p.buildWith compile input') (p.buildWith compile input) r := by
  have hload := ((p.load_order_perm).map Parameter.name).nodup_iff.mpr distinct
  obtain ⟨q, hq, hnamed⟩ := List.exists_of_findSome?_eq_some hkey
  obtain ⟨rfl, raw, hraw, -⟩ := Parameter.named?_eq_some.mp hnamed
  have hpresent : (fun q : Parameter => (Entries.get? q.name input').isNone) =
      fun q => (Entries.get? q.name input).isNone := by
    funext q'
    rw [hinput]
    split
    · next he => rw [← he, hraw]; rfl
    · rfl
  refine Action.Splits.bind ?_ _
  simp only [argumentsWith, hpresent]
  split
  · intro x r' hx
    cases hx
  · simp only [addUndeclared, hundeclared]
    exact (loadParameters_splits hr hname hload hm hkey hinput p.defaults).bind _

end Plugin

/-! ## Mappings -/

theorem compileMembersWith_eq_ok_iff {compile : Compile} {key : String} {members : Members} {r r' : Registry}
    {h : Handle} : compileMembersWith compile key members r = (.ok h, r') ↔
      ∃ d p o r₁, Description.ofMembers (r.category key).label (r.category key).tags members = .ok d ∧
        (r.category key).dispatch.get? d.tag = some p ∧ p.buildWith compile d.input r = (.ok o, r₁) ∧
        registerObject key o d.name r₁ = (.ok h, r') := by
  have hplugin (d : Description) (p : Plugin) : pluginFor (r.category key) d.tag = .ok p ↔
      (r.category key).dispatch.get? d.tag = some p :=
    ⟨pluginFor_eq_ok, fun h => by rw [pluginFor, h]⟩
  simp [compileMembersWith, Action.bind_eq_ok_iff, Action.ask, Action.ofExcept, Action.onError_eq_ok_iff, hplugin]

theorem Description.ofMembers_set {label : String} {tags : List String} {members : Members} {d : Description}
    (h : Description.ofMembers label tags members = .ok d) {key : String} (hname : key ≠ "name") (htype : key ≠ "type")
    (value : Json) : Description.ofMembers label tags (Entries.set key value members) =
      .ok { d with input := Entries.erase "type" (Entries.erase "name" (Entries.set key value members)) } := by
  have hn : nameOf label (Entries.set key value members) = nameOf label members := by
    simp only [nameOf, Entries.get?_set, if_neg hname]
  have ht : tagOf label tags (Entries.set key value members) = tagOf label tags members := by
    simp only [tagOf, Entries.get?_set, if_neg htype]
  simp only [ofMembers, hn, ht] at h ⊢
  cases hn : nameOf label members with
  | error e => rw [hn] at h; cases h
  | ok name =>
    cases ht : tagOf label tags members with
    | error e => rw [hn, ht] at h; cases h
    | ok tag =>
      rw [hn, ht] at h
      cases h
      rfl

/-- The first mapping inside a description may as well be compiled before it and named in its place. The references of
the new description are the old ones, with the name in place of the mapping; and if the description compiles, so do the
mapping and then the new description, to the same objects in the same order and with the same outcome. -/
theorem compile_inline_named {key : String} {members : Members} {h : Handle} (accepted : r.catalogue.Accepted)
    (hm : (Mapping.mk key members).inline? r.catalogue = some m) (hname : m.name? = some name)
    (hok : (compile key (.obj members) r).1 = .ok h) :
    ∃ members' h₁ r₁, (Mapping.mk key members).named? r.catalogue name = some members' ∧
      replaceFirst? (Mapping.namePart? name) ((Mapping.mk key members).references r.catalogue) =
        some ((Mapping.mk key members').references r.catalogue) ∧
      compile m.key (.obj m.members) r = (.ok h₁, r₁) ∧
      compile key (.obj members') r₁ = compile key (.obj members) r := by
  simp only [compile_obj key] at hok ⊢
  obtain ⟨d, p, o, r', hd, hp, hbuild, hregister⟩ := compileMembersWith_eq_ok_iff.mp (Prod.ext hok rfl)
  obtain ⟨-, htag, hdinput⟩ := Description.of_ok hd key
  have hplugin : (Mapping.mk key members).plugin? r.catalogue = some p := by
    simp only [Mapping.plugin?, htag]
    exact hp
  simp only [Mapping.inline?, Mapping.references, hplugin] at hm
  rw [hdinput] at hbuild
  have distinct := (Plugin.checked_eq_ok_iff.mp (accepted _ _ _ hp)).1
  -- the parameter whose value is replaced
  have hsome := Parameter.isSome_findSome?_named? r.catalogue name (Mapping.mk key members).input
    (p.requiredParameters ++ p.optionalParameters)
  rw [hm, Option.isSome_some] at hsome
  obtain ⟨⟨k, raw'⟩, hfound⟩ := Option.isSome_iff_exists.mp hsome
  obtain ⟨q, hq, hnamed⟩ := List.exists_of_findSome?_eq_some hfound
  obtain ⟨rfl, raw, hraw, -⟩ := Parameter.named?_eq_some.mp hnamed
  -- it is neither the name nor the type, so the new description goes to the same plugin
  obtain ⟨hk, hk'⟩ := Mapping.ne_of_get?_input hraw
  have hinput := Mapping.get?_input_set key members hk hk' raw'
  have hdeclared : (p.parameter? q.name).isNone = false := by
    rw [← Bool.not_eq_true, Plugin.parameter?_isNone_iff]
    exact fun h => h q (p.load_order_perm.mem_iff.mp hq) rfl
  obtain ⟨h₁, r₁, hfirst, hrest⟩ := Plugin.buildWith_splits rfl hname distinct hm hfound hinput
    (Mapping.filter_input_set (fun k => (p.parameter? k).isNone) hdeclared raw') o r' hbuild
  obtain ⟨he, ht⟩ := compile_grows _ _ h₁ r₁ hfirst
  refine ⟨Entries.set q.name raw' members, h₁, r₁, ?_, ?_, hfirst, ?_⟩
  · simp only [Mapping.named?, hplugin, Option.bind_some, hfound, Option.map_some]
  · have hplugin' : (Mapping.mk key (Entries.set q.name raw' members)).plugin? r.catalogue = some p := by
      simp only [Mapping.plugin?, Entries.get?_set, if_neg hk']
      exact hplugin
    simp only [Mapping.references, hplugin, hplugin']
    exact Parameter.references_named? ((p.load_order_perm.map Parameter.name).nodup_iff.mpr distinct) hfound hinput
  · have hd' := Description.ofMembers_set hd hk hk' raw'
    rw [← he.label, Category.tags, ← ht.dispatch] at hd'
    rw [← ht.dispatch] at hp
    exact (compileMembersWith_eq_ok_iff.mpr ⟨_, p, o, r', hd', hp, hrest, hregister⟩).trans (Prod.ext hok.symm rfl)

namespace Sampling

/-- An interval that describes its variable inside, under a name. -/
def namedVariableInterval : Members :=
  [("type", .str "interval"), ("cv", .obj [("type", .str "position"), ("name", .str "x")]),
    ("min", .num (.integer 0)), ("max", .num (.integer 1))]

/-- The variable may be defined first, and the interval then says `x`. -/
theorem compile_namedVariableInterval :
    (compile "volume" (.obj namedVariableInterval) standardRegistry).1.toOption = some ⟨1⟩ ∧
    ∃ h₁ r₁, compile "cv" (.obj [("type", .str "position"), ("name", .str "x")]) standardRegistry = (.ok h₁, r₁) ∧
      compile "volume" (.obj [("type", .str "interval"), ("cv", .str "x"), ("min", .num (.integer 0)),
        ("max", .num (.integer 1))]) r₁ = compile "volume" (.obj namedVariableInterval) standardRegistry := by
  have hrun : (compile "volume" (.obj namedVariableInterval) standardRegistry).1.toOption = some ⟨1⟩ := by
    decide +kernel
  have hok : (compile "volume" (.obj namedVariableInterval) standardRegistry).1 = .ok ⟨1⟩ := by
    cases hc : (compile "volume" (.obj namedVariableInterval) standardRegistry).1 <;> simp_all [Except.toOption]
  have hkey := canonical_standardRegistry.1
  have hplugin : (Mapping.mk "volume" namedVariableInterval).plugin? standardRegistry.catalogue =
      some intervalPlugin := plugin?_interval
  have hinline : (Mapping.mk "volume" namedVariableInterval).inline? standardRegistry.catalogue =
      some ⟨"cv", [("type", .str "position"), ("name", .str "x")]⟩ := by
    generalize standardRegistry.catalogue = c at hkey hplugin ⊢
    have hpart : (Mapping.mk "volume" namedVariableInterval).inline? c =
        some ⟨c.key "cv", [("type", .str "position"), ("name", .str "x")]⟩ := by
      rw [Mapping.inline?, Mapping.references, hplugin]
      rfl
    rw [hpart, hkey]
  have hname : (Mapping.mk "cv" [("type", .str "position"), ("name", .str "x")]).name? = some "x" := rfl
  obtain ⟨members', h₁, r₁, hnamed, -, hfirst, hrest⟩ :=
    compile_inline_named standardRegistry_accepted hinline hname hok
  have hmembers : (Mapping.mk "volume" namedVariableInterval).named? standardRegistry.catalogue "x" =
      some [("type", .str "interval"), ("cv", .str "x"), ("min", .num (.integer 0)), ("max", .num (.integer 1))] := by
    rw [Mapping.named?, hplugin]
    rfl
  obtain rfl := Option.some.inj (hnamed.symm.trans hmembers)
  exact ⟨hrun, h₁, r₁, hfirst, hrest⟩

end Sampling
end Blueprint
