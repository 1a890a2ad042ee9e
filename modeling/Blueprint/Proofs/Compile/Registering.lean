import Blueprint.Proofs.Compile.Run

/-!
# Compiling is a run

`Action.Registers` says of an action that it registers the objects of planned mappings in their order: of a prefix of
them in any case, and of all of them if it succeeds. Every part of the compiler registers the mappings that it meets in
load order (`compile_registers`); a mapping succeeds exactly if its own object is registered (`compile_obj_cases`).
-/

namespace Blueprint

variable {α β : Type} {r : Registry} {plan plan' : List Mapping} {c : Catalogue}

/-- Registers a prefix of the planned mappings, and all of them if it succeeds; then the result fits the registry. -/
def Action.Registers (a : Action α) (r : Registry) (plan : List Mapping) (post : α → Registry → Prop) : Prop :=
  ∃ done, done <+: plan ∧ r.Run done (a r).2 ∧ ∀ x, (a r).1 = .ok x → done = plan ∧ post x (a r).2

namespace Action.Registers

variable {a : Action α} {f : α → Action β} {post : α → Registry → Prop} {post' : β → Registry → Prop}

/-- An action that only reads the registry registers nothing. -/
theorem of_read {g : Registry → Except Diagnostic α} (h : ∀ x, g r = .ok x → post x r) :
    Registers (fun r => (g r, r)) r [] post :=
  ⟨[], List.prefix_refl _, .nil r, fun x hx => ⟨rfl, h x hx⟩⟩

theorem onError (h : a.Registers r plan post) (g : Diagnostic → Diagnostic) : (a.onError g).Registers r plan post := by
  obtain ⟨done, hp, run, ok⟩ := h
  refine ⟨done, hp, ?_, ?_⟩
  · simp only [Action.onError]
    split <;> simp_all
  · intro x hx
    simp only [Action.onError] at hx ⊢
    split at hx <;> simp_all

theorem bind (ha : a.Registers r plan post)
    (hf : ∀ x r', r.Run plan r' → post x r' → (f x).Registers r' plan' post') :
    (a >>= f).Registers r (plan ++ plan') post' := by
  obtain ⟨done, hp, run, ok⟩ := ha
  have hb : (a >>= f) r = a.andThen f r := rfl
  unfold Registers
  rw [hb, Action.andThen]
  rcases har : a r with ⟨res, r₁⟩
  rw [har] at run ok
  cases res with
  | error e => exact ⟨done, hp.trans (List.prefix_append _ _), run, by simp⟩
  | ok x =>
    obtain ⟨rfl, hx⟩ := ok x rfl
    obtain ⟨done', hp', run', ok'⟩ := hf x r₁ run hx
    refine ⟨done ++ done', (List.prefix_append_right_inj _).mpr hp', run.append run', fun y hy => ?_⟩
    obtain ⟨rfl, hy⟩ := ok' y hy
    exact ⟨rfl, hy⟩

/-- The last action of a sequence may be one that registers nothing. -/
theorem bind_read (ha : a.Registers r plan post)
    (hf : ∀ x r', r.Run plan r' → post x r' → (f x).Registers r' [] post') : (a >>= f).Registers r plan post' := by
  simpa using ha.bind hf

theorem mono (ha : a.Registers r plan post) {post₁ : α → Registry → Prop}
    (h : ∀ x r', r.Run plan r' → post x r' → post₁ x r') : a.Registers r plan post₁ := by
  obtain ⟨done, hp, run, ok⟩ := ha
  refine ⟨done, hp, run, fun x hx => ?_⟩
  obtain ⟨rfl, hpost⟩ := ok x hx
  exact ⟨rfl, h x _ run hpost⟩

/-- Items are registered one after the other; what holds of a result goes on to hold while later ones are registered. -/
theorem eachFrom {f : Nat → α → Action β} {items : α → List Mapping} {Q : α → β → Registry → Prop}
    (stable : ∀ x y r ms r', r.Run ms r' → Q x y r → Q x y r') {xs : List α}
    (hf : ∀ i, ∀ x ∈ xs, ∀ r', r'.catalogue = c → (f i x).Registers r' (items x) (Q x)) (i : Nat)
    (hr : r.catalogue = c) :
    (Action.eachFrom f i xs).Registers r (xs.flatMap items) fun ys r' => List.Forall₂ (Q · · r') xs ys := by
  induction xs generalizing i r with
  | nil => exact of_read (g := fun _ => .ok []) fun ys hy => by cases hy; exact .nil
  | cons x xs ih =>
    simp only [Action.eachFrom, List.flatMap_cons]
    refine (hf i x (by simp) r hr).bind fun y r' run hy => ?_
    have hc : r'.catalogue = c := run.sameTables.catalogue.trans hr
    refine (ih (fun i x hx => hf i x (by simp [hx])) (i + 1) hc).bind_read fun ys r'' run' hys => ?_
    refine of_read (g := fun _ => .ok (y :: ys)) fun zs hz => ?_
    cases hz
    exact .cons (stable x y r' _ r'' run' hy) hys

end Action.Registers

theorem Action.each_eq_eachFrom (f : α → Action β) (i : Nat) (xs : List α) :
    Action.each f xs = Action.eachFrom (fun _ => f) i xs := by
  induction xs generalizing i with
  | nil => rfl
  | cons x xs ih => simp only [each, eachFrom, ih (i + 1)]

/-! ## Loading -/

theorem resolve_registers (hr : r.catalogue = c) (name : String) :
    (resolve name).Registers r [] fun key _ => key = c.key name := by
  refine ⟨[], List.prefix_refl _, ?_, ?_⟩ <;> simp only [resolve]
  · split <;> exact .nil r
  · split
    · rintro key ⟨⟩
      exact ⟨trivial, by rw [← hr]; rfl⟩
    · simp

namespace Compile

/-- Descriptions of at most some depth are compiled by runs in load order. -/
def RegistersTo (compile : Compile) (c : Catalogue) (depth : Nat) : Prop :=
  ∀ key x r, x.depth ≤ depth → r.catalogue = c →
    (compile key x).Registers r (c.postorder key x) fun h r' => r'.Refers key x h

variable {compile : Compile} {n : Nat}

theorem RegistersTo.mono {m : Nat} (h : RegistersTo compile c n) (hm : m ≤ n) : RegistersTo compile c m :=
  fun key x r hx => h key x r (Nat.le_trans hx hm)

theorem RegistersTo.callWith {raw : Json} (h : RegistersTo compile c raw.depth) (hr : r.catalogue = c) (key : String) :
    (callWith compile key raw).Registers r (c.postorders (raw.itemsOrSelf.map fun x => (key, x)))
      fun v r' => r'.Gives key raw v := by
  rw [Catalogue.postorders_map]
  cases raw with
  | arr items =>
    simp only [Blueprint.callWith, Action.each_eq_eachFrom _ 0]
    refine (Action.Registers.eachFrom (Q := fun x o r' => r'.Refers key x o)
      (fun _ _ _ _ _ run => .mono run.extends) (fun i x hx r' hr' => ?_) 0 hr).bind_read fun hs r' _ hrefers => ?_
    · exact h key x r' (Nat.le_succ_of_le (Json.depth_le_itemsDepth hx)) hr'
    · exact .of_read (g := fun _ => .ok _) fun v hv => by cases hv; exact ⟨hs, rfl, hrefers⟩
  | _ =>
    simp only [Blueprint.callWith, Json.itemsOrSelf, List.flatMap_singleton]
    refine (h key _ r (Nat.le_refl _) hr).bind_read fun o r' _ hrefers => ?_
    exact .of_read (g := fun _ => .ok _) fun v hv => by cases hv; exact ⟨o, rfl, hrefers⟩

theorem RegistersTo.loadWith {l : Loader} {raw : Json} (h : RegistersTo compile c raw.depth) (hr : r.catalogue = c) :
    (l.loadWith compile raw).Registers r (c.postorders (l.references c raw)) fun v r' => l.Yields r' raw v := by
  induction l generalizing raw r with
  | read reader =>
    refine .of_read (g := fun _ => (reader.read raw).mapError Diagnostic.ofLoadError) fun v hv => ?_
    cases hread : reader.read raw with
    | error e => simp [hread, Except.mapError] at hv
    | ok w => simp_all [Except.mapError, Loader.Yields]
  | category name =>
    simp only [Loader.loadWith, callNamed, Loader.references]
    refine (resolve_registers hr name).bind fun key r' run hkey => ?_
    obtain rfl := hkey
    have hr' := run.sameTables.catalogue.trans hr
    refine (h.callWith hr' _).mono fun v r'' run' hv => ?_
    have hk : r''.canonical name = c.key name := by rw [run'.sameTables.canonical, ← hr']; rfl
    simp only [Loader.Yields, hk]
    exact hv
  | listOf item ih =>
    simp only [Loader.loadWith, Loader.references, Catalogue.postorders_flatMap]
    refine (Action.Registers.eachFrom (Q := fun x v r' => item.Yields r' x v)
      (fun _ _ _ _ _ run => .mono run.extends run.sameTables) (fun i x hx r' hr' => ?_) 0 hr).bind_read
      fun vs r' _ hvs => ?_
    · exact (ih (h.mono (Json.depth_le_of_mem_itemsOrSelf hx)) hr').onError _
    · exact .of_read (g := fun _ => .ok _) fun v hv => by cases hv; exact ⟨vs, rfl, hvs⟩

end Compile

/-! ## Building the object of a mapping -/

namespace Plugin

variable {p : Plugin} {input : Members}

theorem sourced_defaults : p.Sourced r input p.defaults := by
  intro key value h
  rcases Dict.get?_insertAll_cases h with hm | hn
  · obtain ⟨q, hq, hv⟩ := List.mem_filterMap.mp hm
    obtain ⟨v, hd, he⟩ := Option.map_eq_some_iff.mp hv
    cases he
    exact .byDefault (List.mem_filter.mp hq).1 hd
  · simp at hn

theorem Sourced.insert {args : Arguments} (h : p.Sourced r input args) {q : Parameter}
    (hq : q ∈ p.parameters) {raw : Json} (hraw : Entries.get? q.name input = some raw) {value : Value}
    (hv : q.loader.Yields r raw value) : p.Sourced r input (args.insert q.name value) := by
  intro key v hkey
  rw [Dict.get?_insert] at hkey
  split at hkey
  · next e =>
    cases hkey
    exact e ▸ .loaded hq hraw hv
  · exact h key v hkey

theorem Sourced.addUndeclared {args : Arguments} (h : p.Sourced r input args) :
    p.Sourced r input (p.addUndeclared args input) := by
  intro key v hkey
  rcases Dict.get?_insertAll_cases hkey with hm | ha
  · obtain ⟨m, hm, he⟩ := List.mem_map.mp hm
    obtain ⟨hin, hnone⟩ := List.mem_filter.mp hm
    cases he
    exact .undeclared (by simpa using hnone) hin
  · exact h key v ha

theorem Sourced.mono {r' : Registry} {args : Arguments} {ms : List Mapping} (run : r.Run ms r')
    (h : p.Sourced r input args) : p.Sourced r' input args :=
  fun key value hkey => (h key value hkey).mono run.extends run.sameTables

theorem mem_parameters_of_load_order {q : Parameter} (h : q ∈ p.requiredParameters ++ p.optionalParameters) :
    q ∈ p.parameters := by
  rcases List.mem_append.mp h with h | h <;> exact (List.mem_filter.mp h).1

variable {compile : Compile}

theorem loadParameters_registers (h : compile.RegistersTo c (Json.membersDepth input)) {qs : List Parameter}
    (hqs : ∀ q ∈ qs, q ∈ p.parameters) {args : Arguments} (hargs : p.Sourced r input args)
    (hr : r.catalogue = c) :
    (p.loadParameters compile input args qs).Registers r (c.postorders (qs.flatMap (Parameter.references c input)))
      fun args r' => p.Sourced r' input args := by
  induction qs generalizing args r with
  | nil => exact .of_read (g := fun _ => .ok args) fun x hx => by cases hx; exact hargs
  | cons q qs ih =>
    have hrest : ∀ q ∈ qs, q ∈ p.parameters := fun q hq => hqs q (by simp [hq])
    simp only [loadParameters, List.flatMap_cons, Catalogue.postorders_append, Parameter.references]
    cases hraw : Entries.get? q.name input with
    | none => exact ih hrest hargs hr
    | some raw =>
      have hload := (Compile.RegistersTo.loadWith (l := q.loader) (h.mono (Json.depth_le_membersDepth hraw)) hr).onError
        (·.forParameter q.name)
      refine (hload.onError _).bind fun value r' run hv => ?_
      exact ih hrest ((hargs.mono run).insert (hqs q (by simp)) hraw hv) (run.sameTables.catalogue.trans hr)

theorem argumentsWith_registers (h : compile.RegistersTo c (Json.membersDepth input)) (hr : r.catalogue = c) :
    (p.argumentsWith compile input).Registers r
      (c.postorders ((p.requiredParameters ++ p.optionalParameters).flatMap (Parameter.references c input)))
      fun args r' => p.Sourced r' input args := by
  simp only [argumentsWith]
  split
  · exact ⟨[], List.nil_prefix, .nil r, fun x hx => by cases hx⟩
  · refine (loadParameters_registers h (fun q => mem_parameters_of_load_order) sourced_defaults hr).bind_read
      fun args r' _ hargs => ?_
    exact .of_read (g := fun _ => .ok _) fun x hx => by cases hx; exact hargs.addUndeclared

theorem buildWith_registers (h : compile.RegistersTo c (Json.membersDepth input)) (hr : r.catalogue = c) :
    (p.buildWith compile input).Registers r
      (c.postorders ((p.requiredParameters ++ p.optionalParameters).flatMap (Parameter.references c input)))
      fun o r' => ∃ args, p.Sourced r' input args ∧ p.builder.build r'.store args = .ok o := by
  refine (argumentsWith_registers h hr).bind_read fun args r' _ hargs => ?_
  refine .of_read (g := fun r => (p.builder.build r.store args).mapError (Diagnostic.ofBuildError p.tag)) fun o ho => ?_
  cases hb : p.builder.build r'.store args with
  | error e => simp [hb, Except.mapError] at ho
  | ok o' =>
    obtain rfl : o' = o := by simpa [hb, Except.mapError] using ho
    exact ⟨args, hargs, hb⟩

end Plugin

/-! ## Compiling -/

theorem Description.of_ok {label : String} {tags : List String} {members : Members} {d : Description}
    (h : Description.ofMembers label tags members = .ok d) (key : String) :
    d.name = (Mapping.mk key members).name? ∧ (Entries.get? "type" members).bind Json.text? = some d.tag ∧
      d.input = (Mapping.mk key members).input := by
  simp only [ofMembers] at h
  cases hn : nameOf label members with
  | error e => rw [hn] at h; cases h
  | ok name =>
    cases ht : tagOf label tags members with
    | error e => rw [hn, ht] at h; cases h
    | ok tag =>
      rw [hn, ht] at h
      cases h
      refine ⟨?_, ?_, rfl⟩
      · simp only [nameOf] at hn
        split at hn <;> simp_all [Mapping.name?, Json.text?]
      · simp only [tagOf] at ht
        split at ht <;> simp_all [Json.text?]

theorem pluginFor_eq_ok {k : Category} {tag : String} {p : Plugin} (h : pluginFor k tag = .ok p) :
    k.dispatch.get? tag = some p := by
  simp only [pluginFor] at h
  split at h <;> simp_all

/-- A mapping either fails with some of the mappings inside it registered, or all of them are registered and then the
mapping itself. -/
theorem compileMembersWith_cases {compile : Compile} {members : Members}
    (h : compile.RegistersTo c (Json.membersDepth members)) (hr : r.catalogue = c) (key : String) :
    (∃ e done r', done <+: c.postorders ((Mapping.mk key members).references c) ∧ r.Run done r' ∧
      compileMembersWith compile key members r = (.error e, r')) ∨
    ∃ r₁ r₂, r.Run (c.postorders ((Mapping.mk key members).references c)) r₁ ∧ r₁.Step ⟨key, members⟩ r₂ ∧
      compileMembersWith compile key members r = (.ok r₁.store.next, r₂) := by
  simp only [compileMembersWith, bind, Action.andThen, Action.ask, Action.ofExcept]
  cases hd : Description.ofMembers (r.category key).label (r.category key).tags members with
  | error e => exact .inl ⟨e, [], r, List.nil_prefix, .nil r, rfl⟩
  | ok d =>
    simp only
    obtain ⟨hname, htag, hinput⟩ := Description.of_ok hd key
    cases hp : pluginFor (r.category key) d.tag with
    | error e => exact .inl ⟨e, [], r, List.nil_prefix, .nil r, rfl⟩
    | ok p =>
      simp only
      have hplugin : (Mapping.mk key members).plugin? c = some p := by
        simp only [Mapping.plugin?, htag, ← hr]
        exact pluginFor_eq_ok hp
      have hrefs : (Mapping.mk key members).references c =
          (p.requiredParameters ++ p.optionalParameters).flatMap (Parameter.references c d.input) := by
        simp only [Mapping.references, hplugin, hinput]
      rw [hrefs]
      have hbuild := Plugin.buildWith_registers (p := p) (h.mono (Description.input_depth_le hd)) hr
      obtain ⟨done, hdone, run, ok⟩ := hbuild.onError
        fun e => (e.inCategory (r.category key).label).note (d.activity (r.category key).label)
      generalize hb : Action.onError (p.buildWith compile d.input) _ r = out at run ok ⊢
      obtain ⟨res, r₁⟩ := out
      cases res with
      | error e => exact .inl ⟨e, done, r₁, hdone, run, rfl⟩
      | ok o =>
        obtain ⟨rfl, args, hargs, built⟩ := ok o rfl
        simp only
        rcases registerObject_cases r₁ key o d.name with ⟨hfree, he⟩ | ⟨n, hn, hbound, he⟩
        · refine .inr ⟨r₁, r₁.enroll key o d.name, run, ?_, he⟩
          rw [hname] at hfree ⊢
          rw [hinput] at hargs
          refine .register ?_ hargs built hfree
          rw [run.sameTables.catalogue, hr]
          exact hplugin
        · exact .inl ⟨_, _, r₁, List.prefix_refl _, run, he⟩

theorem lookUp_registers (key name : String) :
    (lookUp key name).Registers r [] fun h r' => r'.Refers key (.str name) h := by
  refine ⟨[], List.nil_prefix, ?_, ?_⟩ <;> simp only [lookUp]
  · split <;> exact .nil r
  · split
    · next o ho =>
      rintro x ⟨⟩
      exact ⟨trivial, ho⟩
    · simp

theorem compile_registers_of_inside {raw : Json}
    (h : ∀ members, raw = .obj members → Compile.RegistersTo compile c (Json.membersDepth members))
    (hr : r.catalogue = c) (key : String) :
    (compile key raw).Registers r (c.postorder key raw) fun h r' => r'.Refers key raw h := by
  cases raw with
  | str name =>
    rw [compile_str, Catalogue.postorder_of_not_obj _ _ (by simp)]
    exact lookUp_registers key name
  | obj members =>
    rw [compile_obj, Catalogue.postorder_obj]
    rcases compileMembersWith_cases (h members rfl) hr key with
      ⟨e, done, r', hdone, run, he⟩ | ⟨r₁, r₂, run, step, he⟩
    · exact ⟨done, hdone.trans (List.prefix_append _ _), by rw [he]; exact run, fun x hx => by simp [he] at hx⟩
    · refine ⟨_, List.prefix_refl _, by rw [he]; exact run.append (.one step), fun x hx => ⟨rfl, ?_⟩⟩
      rw [he] at hx ⊢
      cases hx
      simp [Registry.Refers, step.objects key]
  | _ =>
    rw [compile_eq, Catalogue.postorder_of_not_obj _ _ (by simp)]
    exact ⟨[], List.nil_prefix, .nil r, fun x hx => by cases hx⟩

/-- Descriptions are compiled by runs in load order: by induction on the depth, which the descriptions inside a mapping
do not reach. -/
theorem compile_registersTo (n : Nat) (c : Catalogue) : Compile.RegistersTo compile c n := by
  induction n with
  | zero =>
    intro key raw r hd hr
    refine compile_registers_of_inside (fun members he => ?_) hr key
    simp [he, Json.depth] at hd
  | succ n ih =>
    intro key raw r hd hr
    refine compile_registers_of_inside (fun members he => ih.mono ?_) hr key
    simp only [he, Json.depth] at hd
    omega

/-- A description registers the mappings in it in load order: a prefix of them, and all of them if it compiles. -/
theorem compile_registers (r : Registry) (key : String) (raw : Json) :
    (compile key raw).Registers r (r.catalogue.postorder key raw) fun h r' => r'.Refers key raw h :=
  compile_registersTo raw.depth r.catalogue key raw r (Nat.le_refl _) rfl

/-- A mapping either fails with some of the mappings inside it registered, or all of them are registered and then the
mapping itself. -/
theorem compile_obj_cases (r : Registry) (key : String) (members : Members) :
    (∃ e done r', done <+: r.catalogue.postorders ((Mapping.mk key members).references r.catalogue) ∧ r.Run done r' ∧
      compile key (.obj members) r = (.error e, r')) ∨
    ∃ r₁ r₂, r.Run (r.catalogue.postorders ((Mapping.mk key members).references r.catalogue)) r₁ ∧
      r₁.Step ⟨key, members⟩ r₂ ∧ compile key (.obj members) r = (.ok r₁.store.next, r₂) := by
  rw [compile_obj]
  exact compileMembersWith_cases (compile_registersTo _ _) rfl key

end Blueprint
