import Blueprint.Proofs.Compile.Registering
import Blueprint.Proofs.Compile.Relating
import Blueprint.Proofs.Document.Ranking
import Blueprint.Proofs.Plugin.Conservative
import Blueprint.Proofs.Registry.Tables
import Mathlib.Data.List.Find

/-!
# Two runs of the compiler

A `Correspondence` says which descriptions, values, handles, arguments, objects and registries of two runs are related.
It is sound if the parts of related descriptions are related wherever the compiler looks, and if what plugins, builders
and the registry do with related things gives related things. Then documents with related descriptions are compiled side
by side: to related objects or to the same error, and in any case to related registries (`Sound.document`).
-/

namespace Blueprint

open List (Forall₂)

theorem isSome_eq_of_rel {α β : Type} {R : α → β → Prop} {x : Option α} {y : Option β} (h : Option.Rel R x y) :
    y.isSome = x.isSome := by
  cases h <;> rfl

/-- What is related in two runs of the compiler. -/
structure Correspondence where
  /-- The descriptions of objects of the category under a key. -/
  described : String → Json → Json → Prop
  value : Value → Value → Prop
  handle : Handle → Handle → Prop
  args : Plugin → Arguments → Arguments → Prop
  object : Object → Object → Prop
  registry : Registry → Registry → Prop

namespace Correspondence

variable (K : Correspondence) (c : Catalogue)

/-! ## Related descriptions -/

/-- Two descriptions, or two lists of them one by one, are related. -/
def Called (key : String) : Json → Json → Prop
  | .arr xs, y => ∃ ys, y = .arr ys ∧ Forall₂ (K.described key) xs ys
  | x, y => (∀ ys, y ≠ .arr ys) ∧ K.described key x y

/-- Whatever a loader reads or hands to the compiler is related. -/
def Loads : Loader → Json → Json → Prop
  | .read reader, x, y => Agree K.value (reader.read x) (reader.read y)
  | .category name, x, y => K.Called (c.key name) x y
  | .listOf item, x, y => Forall₂ (Loads item) x.itemsOrSelf y.itemsOrSelf

/-- The inputs of a plugin are related in the parameters that it loads, and in the effect of the other keys. -/
structure Inputs (p : Plugin) (input input' : Members) : Prop where
  loaded : ∀ q ∈ p.parameters, Option.Rel (K.Loads c q.loader) (Entries.get? q.name input) (Entries.get? q.name input')
  undeclared : ∀ args args', K.args p args args' → K.args p (p.addUndeclared args input) (p.addUndeclared args' input')

/-- The mappings give the same name and the same type, and their inputs are related for the plugin of that type. -/
structure Mappings (key : String) (members members' : Members) : Prop where
  name : ∀ label, Description.nameOf label members' = Description.nameOf label members
  tag : ∀ label tags, Description.tagOf label tags members' = Description.tagOf label tags members
  input : ∀ p, (Mapping.mk key members).plugin? c = some p →
    K.Inputs c p (Mapping.mk key members).input (Mapping.mk key members').input

/-- What the compiler sees of two descriptions is related. -/
def Shape (key : String) : Json → Json → Prop
  | .str s, y => y = .str s
  | .obj members, y => ∃ members', y = .obj members' ∧ K.Mappings c key members members'
  | x, y => y.typeName = x.typeName

/-- Every step of the compiler keeps related what is related. -/
structure Sound : Prop where
  shape : ∀ key x y, K.described key x y → K.Shape c key x y
  reference : ∀ h h', K.handle h h' → K.value (.object h) (.object h')
  list : ∀ vs ws, Forall₂ K.value vs ws → K.value (.list vs) (.list ws)
  defaults : ∀ key tag p, c.plugin? key tag = some p → K.args p p.defaults p.defaults
  insert : ∀ p key args args' v w, K.args p args args' → K.value v w →
    K.args p (args.insert key v) (args'.insert key w)
  catalogue : ∀ r r', K.registry r r' → r.catalogue = c ∧ r'.catalogue = c
  label : ∀ r r', K.registry r r' → ∀ key, (r'.category key).label = (r.category key).label
  names : ∀ r r', K.registry r r' → ∀ key, (r'.category key).names = (r.category key).names
  named : ∀ r r', K.registry r r' → ∀ key n,
    Option.Rel K.handle ((r.category key).named.get? n) ((r'.category key).named.get? n)
  /-- A category that a plugin refers to is there in both runs or in none. -/
  target : ∀ r r', K.registry r r' → ∀ key tag p, c.plugin? key tag = some p → ∀ q ∈ p.parameters, ∀ name,
    q.loader.target? = some name → r'.categories.contains (c.key name) = r.categories.contains (c.key name)
  /-- A builder is not called unless there are arguments for all required parameters. -/
  build : ∀ r r', K.registry r r' → ∀ key tag p, c.plugin? key tag = some p → ∀ args args', K.args p args args' →
    (∀ q ∈ p.requiredParameters, args.contains q.name = true) →
    Agree K.object (p.builder.build r.store args) (p.builder.build r'.store args')
  ensure : ∀ r r', K.registry r r' → ∀ name, K.registry (r.ensure name) (r'.ensure name)
  enroll : ∀ r r', K.registry r r' → ∀ o o', K.object o o' → ∀ key name, r.Free key name → r'.Free key name →
    K.handle r.store.next r'.store.next ∧ K.registry (r.enroll key o name) (r'.enroll key o' name)

namespace Sound

variable {K : Correspondence} {c : Catalogue}

/-- Two runs from one registry, to the same values and objects, have little to keep related. -/
theorem of_one_registry {described : String → Json → Json → Prop} {args : Plugin → Arguments → Arguments → Prop}
    (hK : K = ⟨described, Eq, Eq, args, Eq, fun r r' => r' = r ∧ r.catalogue = c⟩)
    (shape : ∀ key x y, described key x y → K.Shape c key x y)
    (defaults : ∀ key tag p, c.plugin? key tag = some p → args p p.defaults p.defaults)
    (insert : ∀ p key as as' v, args p as as' → args p (as.insert key v) (as'.insert key v))
    (build : ∀ key tag p, c.plugin? key tag = some p → ∀ store as as', args p as as' →
      (∀ q ∈ p.requiredParameters, as.contains q.name = true) →
      p.builder.build store as' = p.builder.build store as) : K.Sound c := by
  subst hK
  constructor
  case shape => exact shape
  case reference => exact fun h h' he => congrArg Value.object he
  case list => exact fun vs ws h => congrArg Value.list (List.forall₂_eq_eq_eq ▸ h : vs = ws)
  case defaults => exact defaults
  case insert =>
    rintro p key as as' v w hargs rfl
    exact insert p key as as' v hargs
  case catalogue =>
    rintro _ r ⟨rfl, hr⟩
    exact ⟨hr, hr⟩
  case label =>
    rintro _ r ⟨rfl, -⟩ key
    rfl
  case names =>
    rintro _ r ⟨rfl, -⟩ key
    rfl
  case named =>
    rintro _ r ⟨rfl, -⟩ key n
    cases (r.category key).named.get? n with
    | none => exact .none
    | some h => exact .some rfl
  case target =>
    rintro _ r ⟨rfl, -⟩ key tag p hp q hq name ht
    rfl
  case build =>
    rintro _ r ⟨rfl, -⟩ key tag p hp as as' hargs complete
    exact .of_eq (build key tag p hp r.store as as' hargs complete).symm
  case ensure =>
    rintro _ r ⟨rfl, hr⟩ name
    exact ⟨rfl, (r.sameTables_ensure name).catalogue.trans hr⟩
  case enroll =>
    rintro _ r ⟨rfl, hr⟩ o o' rfl key name free -
    exact ⟨rfl, rfl, Registry.sameTables_enroll.catalogue.trans hr⟩

theorem canonical (hK : K.Sound c) {r r' : Registry} (hr : K.registry r r') : r'.canonical = r.canonical := by
  obtain ⟨h, h'⟩ := hK.catalogue r r' hr
  have hkey : r'.catalogue.key = r.catalogue.key := by rw [h, h']
  exact hkey

theorem dispatch (hK : K.Sound c) {r r' : Registry} (hr : K.registry r r') (key : String) :
    (r'.category key).dispatch = (r.category key).dispatch := by
  obtain ⟨h, h'⟩ := hK.catalogue r r' hr
  refine Dict.ext_get? fun tag => ?_
  have hplugin : r'.catalogue.plugin? key tag = r.catalogue.plugin? key tag := by rw [h, h']
  exact hplugin

theorem resolve (hK : K.Sound c) {name : String}
    (htarget : ∀ r r', K.registry r r' →
      r'.categories.contains (c.key name) = r.categories.contains (c.key name)) :
    (resolve name).Relates K.registry (resolve name) fun key key' => key = c.key name ∧ key' = c.key name := by
  intro r r' hr
  obtain ⟨h, h'⟩ := hK.catalogue r r' hr
  have hkey : r.canonical name = c.key name := by rw [← h]; rfl
  have hkey' : r'.canonical name = c.key name := by rw [← h']; rfl
  simp only [Blueprint.resolve, hkey, hkey', htarget r r' hr]
  split
  · exact ⟨hr, .ok ⟨rfl, rfl⟩⟩
  · exact ⟨hr, .error _⟩

end Sound

/-! ## Loading -/

/-- Related descriptions of at most some depth are compiled side by side. -/
def CompilesTo (depth : Nat) : Prop :=
  ∀ key x y, x.depth ≤ depth → K.described key x y → (compile key x).Relates K.registry (compile key y) K.handle

namespace CompilesTo

variable {K : Correspondence} {c : Catalogue} {n : Nat}

theorem mono {m : Nat} (h : K.CompilesTo n) (hm : m ≤ n) : K.CompilesTo m :=
  fun key x y hx => h key x y (Nat.le_trans hx hm)

theorem each (h : K.CompilesTo n) {key : String} {xs ys : List Json} (hdepth : ∀ x ∈ xs, x.depth ≤ n)
    (hxs : Forall₂ (K.described key) xs ys) :
    (Action.each (compile key) xs).Relates K.registry (Action.each (compile key) ys) (Forall₂ K.handle) := by
  exact .each (((List.forall₂_and_left _ _).mpr ⟨hdepth, hxs⟩).imp fun x y hxy => h key x y hxy.1 hxy.2)

theorem callWith (h : K.CompilesTo n) (hK : K.Sound c) {key : String} {x y : Json} (hdepth : x.depth ≤ n)
    (hxy : K.Called key x y) :
    (callWith compile key x).Relates K.registry (callWith compile key y) K.value := by
  -- what is no list is a single description on both sides
  have hsingle (hx : ∀ xs, x ≠ .arr xs) : (∀ ys, y ≠ .arr ys) → K.described key x y →
      (Blueprint.callWith compile key x).Relates K.registry (Blueprint.callWith compile key y) K.value := by
    intro hy hd
    rw [Blueprint.callWith, Blueprint.callWith]
    · exact (h key x y hdepth hd).bind fun o o' ho => .pure (hK.reference o o' ho)
    · exact hy
    · exact hx
  cases x with
  | arr xs =>
    obtain ⟨ys, rfl, hxs⟩ := hxy
    refine (h.each (fun x hx => ?_) hxs).bind fun hs hs' hhs => .pure (hK.list _ _ ?_)
    · exact Nat.le_trans (Nat.le_succ_of_le (Json.depth_le_itemsDepth hx)) hdepth
    · exact List.forall₂_map_left_iff.mpr (List.forall₂_map_right_iff.mpr (hhs.imp hK.reference))
  | _ => exact hsingle (by simp) hxy.1 hxy.2

theorem loadWith (h : K.CompilesTo n) (hK : K.Sound c) {l : Loader} {x y : Json} (hdepth : x.depth ≤ n)
    (hxy : K.Loads c l x y)
    (htarget : ∀ r r', K.registry r r' → ∀ name, l.target? = some name →
      r'.categories.contains (c.key name) = r.categories.contains (c.key name)) :
    (l.loadWith compile x).Relates K.registry (l.loadWith compile y) K.value := by
  induction l generalizing x y with
  | read reader => exact .of_read fun _ _ _ => hxy.mapError _
  | category name =>
    refine (hK.resolve fun r r' hr => htarget r r' hr name rfl).bind fun key key' hkeys => ?_
    obtain ⟨rfl, rfl⟩ := hkeys
    exact h.callWith hK hdepth hxy
  | listOf item ih =>
    have hdepths : ∀ x' ∈ x.itemsOrSelf, x'.depth ≤ n := fun x' hx' =>
      Nat.le_trans (Json.depth_le_of_mem_itemsOrSelf hx') hdepth
    have hitems := (List.forall₂_and_left _ _).mpr ⟨hdepths, hxy⟩
    refine (Action.Relates.eachFrom (Q := K.value) (hitems.imp fun x' y' hxy' i => ?_) 0).bind fun vs ws hvs => ?_
    · exact (ih hxy'.1 hxy'.2 htarget).onError _
    · exact .pure (hK.list vs ws hvs)

/-! ## Building -/

section
variable {key tag : String} {p : Plugin} {input input' : Members}

/-- Related inputs give related arguments, and one for every parameter that has a value. -/
theorem loadParameters (h : K.CompilesTo (Json.membersDepth input)) (hK : K.Sound c) (hp : c.plugin? key tag = some p)
    (hinput : K.Inputs c p input input') {qs : List Parameter} (hqs : ∀ q ∈ qs, q ∈ p.parameters)
    {args args' : Arguments} (hargs : K.args p args args') :
    (p.loadParameters compile input args qs).Relates K.registry (p.loadParameters compile input' args' qs)
      fun loaded loaded' => K.args p loaded loaded' ∧ ∀ name, args.contains name = true ∨
        (∃ q ∈ qs, q.name = name ∧ (Entries.get? name input).isSome = true) → loaded.contains name = true := by
  -- the arguments loaded so far stay related
  induction qs generalizing args args' with
  | nil => exact .pure ⟨hargs, by simp⟩
  | cons q qs ih =>
    have hq := hqs q (by simp)
    have hqs : ∀ q ∈ qs, q ∈ p.parameters := fun q hq => hqs q (by simp [hq])
    have hraw := hinput.loaded q hq
    simp only [Plugin.loadParameters]
    cases hx : Entries.get? q.name input with
    | none =>
      rw [hx] at hraw
      generalize Entries.get? q.name input' = y at hraw ⊢
      cases hraw
      refine (ih hqs hargs).mono fun loaded loaded' hloaded => ⟨hloaded.1, fun name hname => hloaded.2 name ?_⟩
      grind
    | some x =>
      rw [hx] at hraw
      generalize Entries.get? q.name input' = y at hraw ⊢
      cases hraw with
      | some hxy =>
        have hload := h.loadWith hK (Json.depth_le_membersDepth hx) hxy fun r r' hr name ht =>
          hK.target r r' hr key tag p hp q hq name ht
        refine ((hload.onError _).onError _).bind fun v w hv => ?_
        refine (ih hqs (hK.insert p q.name args args' v w hargs hv)).mono fun loaded loaded' hloaded =>
          ⟨hloaded.1, fun name hname => hloaded.2 name ?_⟩
        rw [Dict.contains_insert]
        grind

theorem argumentsWith (h : K.CompilesTo (Json.membersDepth input)) (hK : K.Sound c) (hp : c.plugin? key tag = some p)
    (hinput : K.Inputs c p input input') :
    (p.argumentsWith compile input).Relates K.registry (p.argumentsWith compile input') fun args args' =>
      K.args p args args' ∧ ∀ q ∈ p.requiredParameters, args.contains q.name = true := by
  have hmissing : (p.requiredParameters.find? fun q => (Entries.get? q.name input').isNone) =
      p.requiredParameters.find? fun q => (Entries.get? q.name input).isNone := by
    refine List.find?_congr fun q hq => ?_
    have hraw := isSome_eq_of_rel (hinput.loaded q (List.mem_filter.mp hq).1)
    rw [← Option.not_isSome, ← Option.not_isSome, hraw]
  simp only [Plugin.argumentsWith, hmissing]
  cases hfind : p.requiredParameters.find? fun q => (Entries.get? q.name input).isNone with
  | some q => exact .of_read fun _ _ _ => .error _
  | none =>
    refine (h.loadParameters hK hp hinput (fun q => Plugin.mem_parameters_of_load_order)
      (hK.defaults key tag p hp)).bind fun args args' hargs => ?_
    refine .pure ⟨hinput.undeclared args args' hargs.1, fun q hq => ?_⟩
    have hvalue : (Entries.get? q.name input).isSome = true := by
      simpa [Option.isSome_iff_ne_none] using List.find?_eq_none.mp hfind q hq
    exact (Dict.contains_insertAll_iff _ _ _).mpr (.inr (hargs.2 q.name (.inr ⟨q, by simp [hq], rfl, hvalue⟩)))

theorem buildWith (h : K.CompilesTo (Json.membersDepth input)) (hK : K.Sound c) (hp : c.plugin? key tag = some p)
    (hinput : K.Inputs c p input input') :
    (p.buildWith compile input).Relates K.registry (p.buildWith compile input') K.object := by
  refine (h.argumentsWith hK hp hinput).bind fun args args' hargs => .ask_bind fun r r' hr => ?_
  exact .of_read fun _ _ _ => (hK.build r r' hr key tag p hp args args' hargs.1 hargs.2).mapError _

end
end CompilesTo

/-! ## Compiling -/

variable {K : Correspondence} {c : Catalogue}

theorem Sound.registerObject (hK : K.Sound c) (key : String) {o o' : Object} (ho : K.object o o')
    (name : Option String) :
    (registerObject key o name).Relates K.registry (registerObject key o' name) K.handle := by
  intro r r' hr
  have hname := fun n => isSome_eq_of_rel (hK.named r r' hr key n)
  rcases registerObject_cases r key o name with ⟨hfree, he⟩ | ⟨n, rfl, hbound, he⟩
  · have hfree' : r'.Free key name := fun n hn => by
      have hnone := hname n
      rw [hfree n hn] at hnone
      simpa using hnone
    rcases registerObject_cases r' key o' name with ⟨-, he'⟩ | ⟨n, hn, hbound, -⟩
    · obtain ⟨hhandle, hregistry⟩ := hK.enroll r r' hr o o' ho key name hfree hfree'
      rw [he, he']
      exact ⟨hregistry, .ok hhandle⟩
    · rw [hfree' n hn] at hbound
      cases hbound
  · rcases registerObject_cases r' key o' (some n) with ⟨hfree', -⟩ | ⟨m, hm, -, he'⟩
    · rw [← hname, hfree' n rfl] at hbound
      cases hbound
    · cases hm
      rw [he, he', hK.label r r' hr]
      exact ⟨hr, .error _⟩

theorem Sound.lookUp (hK : K.Sound c) (key name : String) :
    (Blueprint.lookUp key name).Relates K.registry (Blueprint.lookUp key name) K.handle := by
  intro r r' hr
  have hnamed := hK.named r r' hr key name
  simp only [Blueprint.lookUp, hK.label r r' hr, hK.names r r' hr]
  generalize (r.category key).named.get? name = x at hnamed ⊢
  generalize (r'.category key).named.get? name = y at hnamed ⊢
  cases hnamed with
  | none => exact ⟨hr, .error _⟩
  | some h => exact ⟨hr, .ok h⟩

theorem Sound.refuse (hK : K.Sound c) (key : String) {x y : Json} (h : y.typeName = x.typeName) :
    (Blueprint.refuse key x).Relates K.registry (Blueprint.refuse key y) K.handle := by
  intro r r' hr
  simp only [Blueprint.refuse, hK.label r r' hr, h]
  exact ⟨hr, .error _⟩

theorem Mappings.ofMembers {key : String} {members members' : Members} (h : K.Mappings c key members members')
    (label : String) (tags : List String) :
    Agree (fun d d' => d' = { d with input := (Mapping.mk key members').input } ∧
        Description.ofMembers label tags members = .ok d)
      (Description.ofMembers label tags members) (Description.ofMembers label tags members') := by
  have hd : Description.ofMembers label tags members' =
      (Description.ofMembers label tags members).map fun d => { d with input := (Mapping.mk key members').input } := by
    simp only [Description.ofMembers, h.name, h.tag]
    cases Description.nameOf label members with
    | error e => rfl
    | ok name => cases Description.tagOf label tags members <;> rfl
  rw [hd]
  cases Description.ofMembers label tags members with
  | error e => exact .error e
  | ok d => exact .ok ⟨rfl, rfl⟩

theorem CompilesTo.members {key : String} {members members' : Members}
    (h : K.CompilesTo (Json.membersDepth members)) (hK : K.Sound c) (hm : K.Mappings c key members members') :
    (compileMembersWith compile key members).Relates K.registry (compileMembersWith compile key members') K.handle := by
  refine .ask_bind fun r r' hr => ?_
  have hcatalogue := (hK.catalogue r r' hr).1
  have hdispatch := hK.dispatch hr key
  have hlabel := hK.label r r' hr key
  have htags : (r'.category key).tags = (r.category key).tags := by simp only [Category.tags, hdispatch]
  rw [hlabel, htags]
  refine (Action.Relates.of_read fun _ _ _ => hm.ofMembers _ _).bind fun d d' hd => ?_
  obtain ⟨rfl, hd⟩ := hd
  obtain ⟨-, htag, hinput⟩ := Description.of_ok hd key
  have hplugin : pluginFor (r'.category key) d.tag = pluginFor (r.category key) d.tag := by
    simp only [pluginFor, hdispatch, hlabel, htags]
  simp only [hplugin]
  refine (Action.Relates.of_read (Q := fun p p' => p' = p ∧ c.plugin? key d.tag = some p) fun _ _ _ => ?_).bind
    fun p p' hp => ?_
  · cases hp : pluginFor (r.category key) d.tag with
    | error e => exact .error e
    | ok p => exact .ok ⟨rfl, by rw [← hcatalogue]; exact pluginFor_eq_ok hp⟩
  · obtain ⟨rfl, hp⟩ := hp
    have hinputs := hm.input _ (Eq.trans (by simp only [Mapping.plugin?, htag, Option.bind_some]) hp)
    rw [← hinput] at hinputs
    have hbuild := (h.mono (Description.input_depth_le hd)).buildWith hK hp hinputs
    exact (hbuild.onError _).bind fun o o' ho => hK.registerObject key ho d.name

theorem Sound.compile_of_inside (hK : K.Sound c) {key : String} {x y : Json}
    (h : ∀ members, x = .obj members → K.CompilesTo (Json.membersDepth members)) (hxy : K.described key x y) :
    (compile key x).Relates K.registry (compile key y) K.handle := by
  have hshape := hK.shape key x y hxy
  cases x with
  | str s =>
    obtain rfl : y = .str s := hshape
    rw [compile_str]
    exact hK.lookUp key s
  | obj members =>
    obtain ⟨members', rfl, hm⟩ := hshape
    rw [compile_obj, compile_obj]
    exact (h members rfl).members hK hm
  | _ =>
    have htype : y.typeName ≠ "Text" ∧ y.typeName ≠ "Map" := by
      rw [show y.typeName = _ from hshape]
      grind [Json.typeName]
    rw [compile_eq, compile_eq_refuse key htype.1 htype.2]
    exact hK.refuse key hshape

/-- Related descriptions are compiled side by side. -/
theorem Sound.compilesTo (hK : K.Sound c) (n : Nat) : K.CompilesTo n := by
  -- the depth of the first description bounds the recursion of both runs
  induction n with
  | zero =>
    intro key x y hd hxy
    refine hK.compile_of_inside (fun members he => ?_) hxy
    simp [he, Json.depth] at hd
  | succ n ih =>
    intro key x y hd hxy
    refine hK.compile_of_inside (fun members he => ih.mono ?_) hxy
    simp only [he, Json.depth] at hd
    omega

/-! ## Documents -/

/-- The sections have the same names in the same order, and the descriptions in them are related one by one. -/
def Sections (K : Correspondence) (c : Catalogue) : Members → Members → Prop :=
  Forall₂ fun s t => s.1 = t.1 ∧ Forall₂ (K.described (c.key s.1)) s.2.itemsOrSelf t.2.itemsOrSelf

theorem Sections.get? {sections sections' : Members} (h : Sections K c sections sections') (name : String) :
    Forall₂ (K.described (c.key name)) ((Entries.get? name sections).getD (.arr [])).itemsOrSelf
      ((Entries.get? name sections').getD (.arr [])).itemsOrSelf := by
  induction h with
  | nil => exact .nil
  | @cons s t rest rest' hst _ ih =>
    rw [Entries.get?_cons, Entries.get?_cons, ← hst.1]
    split
    · next he =>
      subst he
      exact hst.2
    · exact ih

theorem Sound.compileSection (hK : K.Sound c) {sections sections' : Members} (h : Sections K c sections sections')
    (name : String) :
    (Document.compileSection sections name).Relates K.registry (Document.compileSection sections' name)
      (Forall₂ K.handle) := by
  refine (Action.Relates.change fun r r' hr => hK.ensure r r' hr name).bind fun _ _ _ => .ask_bind fun r r' hr => ?_
  obtain ⟨hc, -⟩ := hK.catalogue r r' hr
  have hkey : r.canonical name = c.key name := by rw [← hc]; rfl
  rw [hK.canonical hr, hkey]
  refine .each ((h.get? name).imp fun x y hxy => .ask_bind fun r r' hr => ?_)
  rw [hK.label r r' hr]
  exact (hK.compilesTo x.depth (c.key name) x y (Nat.le_refl _) hxy).onError _

/-- Related documents are compiled side by side. -/
theorem Sound.document (hK : K.Sound c) {sections sections' : Members} (h : Sections K c sections sections')
    (order : CompileOrder) :
    (Document.compile order (.obj sections)).Relates K.registry (Document.compile order (.obj sections'))
      (Forall₂ K.handle) := by
  have hnames : sections'.map (·.1) = sections.map (·.1) := by
    induction h with
    | nil => rfl
    | cons hst _ ih => simp only [List.map_cons, hst.1, ih]
  simp only [Document.compile, hnames]
  refine (Action.Relates.of_read (Q := Eq) fun r r' hr => ?_).bind fun names names' he => ?_
  · rw [order.sorted_congr (hK.canonical hr)]
    exact .of_eq rfl
  · subst he
    refine (Action.Relates.each (Q := Forall₂ K.handle) ?_).bind fun hs hs' hhs => .pure ?_
    · exact List.forall₂_same.mpr fun name _ => hK.compileSection h name
    · exact List.rel_flatten hhs

end Correspondence
end Blueprint
