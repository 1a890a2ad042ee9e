import Blueprint.Proofs.Sampling.Conservative
import Blueprint.Proofs.Session.Names

/-!
# The references of a session

With conservative plugins, an object refers to nothing but objects that were registered before it, in the categories
that the parameters of its plugin refer to. So references never form a cycle. The objects they stand for stay in the
lists of their categories, unless the objects of a single category are forgotten.
-/

namespace Blueprint

/-! ## What a loader gives -/

theorem exists_of_mem_right {α β : Type} {R : α → β → Prop} {xs : List α} {ys : List β} (h : List.Forall₂ R xs ys)
    {y : β} (hy : y ∈ ys) : ∃ x, R x y := by
  induction h with
  | nil => cases hy
  | cons hr _ ih =>
    rcases List.mem_cons.mp hy with rfl | hy
    · exact ⟨_, hr⟩
    · exact ih hy

namespace Registry

variable {r : Registry}

theorem Refers.listed (hr : r.Coherent) {key : String} {raw : Json} {h : Handle} (hh : r.Refers key raw h) :
    h ∈ (r.category key).objects := by
  cases raw with
  | str name => exact (hr.named key name h hh).1
  | _ => exact hh

theorem Gives.listed (hr : r.Coherent) {key : String} {raw : Json} {value : Value} (hv : r.Gives key raw value)
    {h : Handle} (hh : h ∈ value.held) : h ∈ (r.category key).objects := by
  cases raw with
  | arr items =>
    obtain ⟨hs, rfl, hrefers⟩ := hv
    obtain ⟨raw, hraw⟩ := exists_of_mem_right hrefers (Value.mem_held_objects.mp hh)
    exact hraw.listed hr
  | _ =>
    obtain ⟨o, rfl, hrefers⟩ := hv
    obtain rfl : h = o := by simpa [Value.held] using hh
    exact hrefers.listed hr

end Registry

/-- The handles that a loader gives are objects of the category it refers to. -/
theorem Loader.Yields.listed {r : Registry} (hr : r.Coherent) {l : Loader} (hl : l.Plain) {raw : Json} {value : Value}
    (hv : l.Yields r raw value) {h : Handle} (hh : h ∈ value.held) :
    ∃ target, l.target? = some target ∧ h ∈ (r.category (r.canonical target)).objects := by
  induction l generalizing raw value with
  | read reader =>
    rw [Reader.held_of_plain hl hv] at hh
    cases hh
  | category name => exact ⟨name, rfl, Registry.Gives.listed hr hv hh⟩
  | listOf item ih =>
    obtain ⟨values, rfl, hvalues⟩ := hv
    obtain ⟨v, hv, hh⟩ := Value.mem_held_list.mp hh
    obtain ⟨raw, hraw⟩ := exists_of_mem_right hvalues hv
    exact ih hl hraw hh

/-- A handle in the arguments of a conservative plugin was given by a parameter that refers to a category. -/
theorem Plugin.Sourced.listed {r : Registry} (hr : r.Coherent) {p : Plugin} (hp : p.Conservative) {input : Members}
    {args : Arguments} (hargs : p.Sourced r input args) {name : String} {value : Value}
    (hv : args.get? name = some value) {h : Handle} (hh : h ∈ value.held) :
    ∃ q ∈ p.parameters, q.name = name ∧
      ∃ target, q.loader.target? = some target ∧ h ∈ (r.category (r.canonical target)).objects := by
  cases hargs name value hv with
  | @byDefault q _ hq hd =>
    rw [hp.defaults q hq value hd] at hh
    cases hh
  | @loaded q _ _ hq _ hyields => exact ⟨q, hq, rfl, hyields.listed hr (hp.loaders q hq) hh⟩
  | undeclared =>
    rw [Value.held_ofJson] at hh
    cases hh

/-! ## Linked objects -/

namespace Registry

/-- A handle is an object of the category that a name leads to; `whole` says whether it is bound to be listed there. -/
structure Leads (r : Registry) (whole : Prop) (target : String) (h : Handle) : Prop where
  present : r.categories.contains (r.canonical target) = true
  placed : ∃ o, r.store.get? h = some o ∧ o.category = some (r.canonical target)
  listed : whole → h ∈ (r.category (r.canonical target)).objects

/-- The object behind a handle was built by a plugin of its category. Each handle in the arguments stands for an earlier
object, of the category that the parameter of that argument refers to. -/
def Composed (r : Registry) (whole : Prop) (key : String) (holder : Handle) : Prop :=
  ∃ p args o name, (∃ tag, (r.category key).dispatch.get? tag = some p) ∧
    p.builder.build ⟨r.store.objects.take holder.index⟩ args = .ok o ∧
    r.store.get? holder = some (o.placed key name) ∧
    ∀ n value, args.get? n = some value → ∀ h ∈ value.held, h.index < holder.index ∧
      ∃ q ∈ p.parameters, q.name = n ∧ ∃ target, q.loader.target? = some target ∧ r.Leads whole target h

/-- All plugins are conservative, and all objects are built of earlier ones. -/
structure Linked (r : Registry) (whole : Prop) : Prop where
  coherent : r.Coherent
  tidy : r.Tidy
  conservative : ∀ key tag p, (r.category key).dispatch.get? tag = some p → p.Conservative
  composed : ∀ key, ∀ holder ∈ (r.category key).objects, r.Composed whole key holder

/-! ## What keeps objects linked -/

/-- What the composition of an object depends on is still there. -/
structure Retains (r r' : Registry) (whole : Prop) : Prop where
  store : r.store.objects <+: r'.store.objects
  dispatch : ∀ key tag p, (r.category key).dispatch.get? tag = some p → (r'.category key).dispatch.get? tag = some p
  present : ∀ key, r.categories.contains key = true → r'.categories.contains key = true
  canonical : ∀ name, r.categories.contains (r.canonical name) = true → r'.canonical name = r.canonical name
  objects : whole → ∀ key, (r.category key).objects <+: (r'.category key).objects

variable {r r' : Registry} {whole : Prop}

theorem Leads.mono (k : r.Retains r' whole) {target : String} {h : Handle} (hl : r.Leads whole target h) :
    r'.Leads whole target h := by
  have he := k.canonical target hl.present
  refine ⟨?_, ?_, fun hw => ?_⟩
  · rw [he]
    exact k.present _ hl.present
  · obtain ⟨o, ho, hcat⟩ := hl.placed
    exact ⟨o, Store.get?_of_prefix k.store ho, by rw [he, hcat]⟩
  · rw [he]
    exact (k.objects hw _).subset (hl.listed hw)

theorem Composed.mono (k : r.Retains r' whole) {key : String} {holder : Handle} (hc : r.Composed whole key holder) :
    r'.Composed whole key holder := by
  obtain ⟨p, args, o, name, ⟨tag, htag⟩, built, hstore, hargs⟩ := hc
  have htake : r'.store.objects.take holder.index = r.store.objects.take holder.index := by
    obtain ⟨new, hn⟩ := k.store
    rw [← hn, List.take_append_of_le_length]
    exact Nat.le_of_lt (List.getElem?_eq_some_iff.mp hstore).1
  refine ⟨p, args, o, name, ⟨tag, k.dispatch key tag p htag⟩, by rw [htake]; exact built,
    Store.get?_of_prefix k.store hstore, fun n value hv h hh => ?_⟩
  obtain ⟨hlt, q, hq, hn, target, ht, hl⟩ := hargs n value hv h hh
  exact ⟨hlt, q, hq, hn, target, ht, hl.mono k⟩

/-! ## Changes -/

variable {g : Permit}

/-- A change keeps the tags that are bound, and binds others to permitted plugins only. -/
theorem Change.dispatch_cases (h : Change g r r') (key tag : String) (p : Plugin) :
    ((r.category key).dispatch.get? tag = some p → (r'.category key).dispatch.get? tag = some p) ∧
    ((r'.category key).dispatch.get? tag = some p → (r.category key).dispatch.get? tag = some p ∨ g.plugin p) := by
  cases h with
  | create _ name =>
    rw [category_ensure]
    exact ⟨id, .inl⟩
  | declare =>
    rw [category_addDeclaration]
    exact ⟨id, .inl⟩
  | bind hg _ hc =>
    obtain ⟨dispatch, he, kept, new⟩ := category_bind hc key
    rw [he]
    refine ⟨kept tag p, fun hp => (new tag p hp).imp_right ?_⟩
    rintro rfl
    exact hg
  | enroll =>
    rw [dispatch_enroll]
    exact ⟨id, .inl⟩
  | compile h =>
    rw [h.sameTables.dispatch]
    exact ⟨id, .inl⟩

theorem Change.retains (h : Change g r r') (hr : r.Tidy) (whole : Prop) : r.Retains r' whole where
  store := h.extends.store
  dispatch key tag p := (h.dispatch_cases key tag p).1
  present := h.extends.present
  canonical _ hk := h.canonical_eq hr hk
  objects _ := h.extends.objects

theorem leads_of_listed (hc : r.Coherent) (ht : r.Tidy) {target : String} {h : Handle}
    (hh : h ∈ (r.category (r.canonical target)).objects) : r.Leads whole target h where
  present := by
    by_contra hn
    rw [category_of_not_contains (by simpa using hn)] at hh
    cases hh
  placed := by
    obtain ⟨o, ho, hcat⟩ := hc.placed _ h hh
    exact ⟨o, ho, by rw [hcat, ht.label]⟩
  listed _ := hh

/-- The object of a mapping is built of objects that were there before. -/
theorem Step.composed {m : Mapping} (h : r.Step m r') (hr : r.Linked whole) :
    r'.Composed whole m.key r.store.next := by
  have hretains := (Change.compile (g := .all) h).retains hr.tidy whole
  cases h with
  | @register p args o hp hargs built free =>
    obtain ⟨tag, -, hp⟩ := Option.bind_eq_some_iff.mp hp
    have hconservative : p.Conservative := hr.conservative m.key tag p hp
    -- The store that the builder saw is all of the new store that lies before the new object.
    have hstore : (⟨(r.enroll m.key o m.name?).store.objects.take r.store.next.index⟩ : Store) = r.store := by
      simp [enroll, Store.push, Store.next]
    refine ⟨p, args, o, m.name?, ⟨tag, hretains.dispatch m.key tag p hp⟩, by rw [hstore]; exact built, ?_, ?_⟩
    · simpa only [hr.tidy.label] using r.get?_enroll_next m.key o m.name?
    · intro n value hv x hx
      obtain ⟨q, hq, hn, target, ht, hlisted⟩ := hargs.listed hr.coherent hconservative hv hx
      have hleads := (leads_of_listed hr.coherent hr.tidy hlisted).mono hretains
      exact ⟨hr.coherent.index_lt hlisted, q, hq, hn, target, ht, hleads⟩

theorem linked_of_empty {s : Registry} (hs : ∀ key, s.category key = .empty key) (tidy : s.Tidy) : s.Linked whole where
  coherent := .of_empty hs
  tidy := tidy
  conservative key tag p hp := by simp [hs, Category.empty] at hp
  composed key holder hh := by simp [hs, Category.empty] at hh

theorem Change.linked (h : Change g r r') (hp : ∀ p, g.plugin p → p.Conservative) (ho : ∀ o, ¬ g.object o)
    (hr : r.Linked whole) : r'.Linked whole where
  coherent := h.coherent hr.coherent
  tidy := h.tidy hr.tidy
  conservative key tag p hd := by
    rcases (h.dispatch_cases key tag p).2 hd with hd | hg
    · exact hr.conservative key tag p hd
    · exact hp p hg
  composed key holder hh := by
    have hold : holder ∈ (r.category key).objects → r'.Composed whole key holder :=
      fun hh => (hr.composed key holder hh).mono (h.retains hr.tidy whole)
    rcases h.objects_cases with hsame | ⟨k, o, name, -, rfl, hg | ⟨m, rfl, hstep⟩⟩
    · exact hold (hsame.objects key ▸ hh)
    · exact absurd hg (ho o)
    · rcases mem_objects_enroll.mp hh with hh | ⟨rfl, rfl⟩
      · exact hold hh
      · exact hstep.composed hr

/-! ## Forgetting -/

theorem Linked.clearObjects (h : r.Linked whole) : r.clearObjects.Linked whole where
  coherent := r.keeps_clearObjects.coherent h.coherent
  tidy := Operation.apply_tidy .clearObjects h.tidy
  conservative key tag p hp := by
    rw [category_clearObjects] at hp
    exact h.conservative key tag p hp
  composed key holder hh := by
    rw [category_clearObjects] at hh
    cases hh

theorem Linked.clearCategory (h : r.Linked whole) (hw : ¬ whole) (name : String) :
    (r.clearCategory name).Linked whole := by
  have hs := r.sameTables_clearCategory name
  have hretains : r.Retains (r.clearCategory name) whole := {
    store := r.store_clearCategory name ▸ List.prefix_refl _
    dispatch := fun key tag p hp => by rw [hs.dispatch]; exact hp
    present := fun key hk => by rw [contains_clearCategory]; exact hk
    canonical := fun other _ => hs.canonical other
    objects := fun h => absurd h hw }
  refine ⟨(r.keeps_clearCategory name).coherent h.coherent, Operation.apply_tidy (.clearCategory name) h.tidy,
    fun key tag p hp => ?_, fun key holder hh => ?_⟩
  · rw [hs.dispatch] at hp
    exact h.conservative key tag p hp
  · rw [category_clearCategory] at hh
    split at hh
    · cases hh
    · exact (h.composed key holder hh).mono hretains

end Registry

/-! ## Operations -/

/-- Conservative plugins, and no objects but those that are compiled. -/
def Permit.conservative : Permit where
  creates := True
  declaration _ := True
  plugin := Plugin.Conservative
  object _ := False

theorem Operation.apply_linked {whole : Prop} {op : Operation} (hop : op.Within .conservative)
    (hclear : whole → ∀ category, op ≠ .clearCategory category) {r : Registry} (h : r.Linked whole) :
    (op.apply r).Linked whole := by
  refine apply_induction hop (fun _ _ hchange => hchange.linked (fun _ hp => hp) fun _ ho => ho)
    (fun _ _ h => h.clearObjects) (fun category he r h => ?_) (fun _ r h => ?_) h
  · exact h.clearCategory (fun hw => hclear hw category he) category
  · exact Registry.linked_of_empty r.category_reset (Operation.apply_tidy .reset h.tidy)

theorem after_linked {ops : List Operation} (hops : ∀ op ∈ ops, op.Within .conservative) :
    (Registry.after ops).Linked (∀ category, .clearCategory category ∉ ops) := by
  refine Registry.after_induction (P := fun r => r.Linked (∀ category, .clearCategory category ∉ ops))
    (Q := fun op => op ∈ ops) ?_ (fun op r hop hr => ?_) fun _ hop => hop
  · exact Registry.linked_of_empty (fun _ => rfl) Registry.tidy_empty
  · refine Operation.apply_linked (hops op hop) (fun hw category => ?_) hr
    rintro rfl
    exact hw category hop

/-- In a session with conservative plugins whose objects are all compiled, every object was built by a plugin of its
category. A handle in it, at any depth, was given by a parameter of the plugin that refers to a category. It stands for
an object that was registered before and that bears the key of that category; and the category lists it, unless the
objects of a single category were forgotten. -/
theorem session_references {ops : List Operation} (hops : ∀ op ∈ ops, op.Within .conservative) {key : String}
    {holder : Handle} (hh : holder ∈ ((Registry.after ops).category key).objects) :
    ∃ p args o name, (∃ tag, ((Registry.after ops).category key).dispatch.get? tag = some p) ∧
      p.builder.build ⟨(Registry.after ops).store.objects.take holder.index⟩ args = .ok o ∧
      (Registry.after ops).store.get? holder = some (o.placed key name) ∧
      ∀ h ∈ (o.placed key name).held, h.index < holder.index ∧
        ∃ q ∈ p.parameters, ∃ value target, args.get? q.name = some value ∧ h ∈ value.held ∧
          q.loader.target? = some target ∧
          (Registry.after ops).Leads (∀ category, .clearCategory category ∉ ops) target h := by
  have hlinked := after_linked hops
  obtain ⟨p, args, o, name, ⟨tag, htag⟩, built, hstore, hargs⟩ := hlinked.composed key holder hh
  refine ⟨p, args, o, name, ⟨tag, htag⟩, built, hstore, fun h hheld => ?_⟩
  have hfaithful := (hlinked.conservative key tag p htag).builder
  obtain ⟨n, value, hv, hx⟩ := Arguments.mem_held.mp (hfaithful.build built h hheld)
  obtain ⟨hlt, q, hq, rfl, target, ht, hleads⟩ := hargs n value hv h hx
  exact ⟨hlt, q, hq, value, target, hv, hx, ht, hleads⟩

/-- The standard plugins, and an interval that describes its variable inside. -/
def intervalSession : List Operation := [
  .registerAll Sampling.registrations,
  .compileAll .standard (.obj [("states", .obj [("type", .str "interval"), ("cv", .obj [("type", .str "position")]),
    ("min", .num (.integer 0)), ("max", .num (.integer 1))])])]

theorem Sampling.within_registrations {g : Permit} (hcreates : g.creates) (hdeclares : ∀ d, g.declaration d)
    (hplugins : ∀ p ∈ plugins, g.plugin p) : Operation.Within g (.registerAll registrations) := by
  refine ⟨hcreates, fun item hitem => ?_⟩
  rcases List.mem_append.mp hitem with hitem | hitem
  · obtain ⟨d, -, rfl⟩ := List.mem_map.mp hitem
    exact hdeclares d
  · obtain ⟨p, hp, rfl⟩ := List.mem_map.mp hitem
    exact hplugins p hp

/-- The interval refers to the variable, which was registered before it. -/
theorem intervalSession_references :
    (∀ op ∈ intervalSession, op.Within .conservative) ∧
    ⟨1⟩ ∈ ((Registry.after intervalSession).category "volume").objects ∧
    ∃ target, (Registry.after intervalSession).Leads (∀ category, .clearCategory category ∉ intervalSession)
      target ⟨0⟩ := by
  have hops : ∀ op ∈ intervalSession, op.Within .conservative := by
    simp only [intervalSession, List.forall_mem_cons]
    exact ⟨Sampling.within_registrations trivial (fun _ => trivial) Sampling.plugins_conservative, trivial, by simp⟩
  have hlisted : (⟨1⟩ : Handle) ∈ ((Registry.after intervalSession).category "volume").objects := by decide +kernel
  have hheld : ((Registry.after intervalSession).store.get? ⟨1⟩).map Object.held = some [⟨0⟩] := by decide +kernel
  refine ⟨hops, hlisted, ?_⟩
  obtain ⟨p, args, o, name, -, -, hstore, hall⟩ := session_references hops hlisted
  rw [hstore, Option.map_some, Option.some.injEq] at hheld
  obtain ⟨-, q, -, value, target, -, -, -, hleads⟩ := hall ⟨0⟩ (by rw [hheld]; simp)
  exact ⟨target, hleads⟩

end Blueprint
