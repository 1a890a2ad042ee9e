import Blueprint.Proofs.Compile.Correspondence
import Blueprint.Proofs.Session.Standard

/-!
# The order of keys in a description

The parameters of a description are loaded in the order in which its plugin declares them, and the other keys become
arguments whose order is that of the keys. So it does not matter in which order a description lists its keys, at any
depth: the same objects are registered in the same order (`Document.compile_rearranged`).
-/

namespace Blueprint

open List (Forall₂)

/-! ## Rearranged values -/

/-- Two JSON values that differ in the order of the members of objects only, at any depth. -/
inductive Json.Rearranged : Json → Json → Prop
  | refl (x : Json) : Rearranged x x
  | trans {x y z : Json} (h : Rearranged x y) (h' : Rearranged y z) : Rearranged x z
  | perm {members members' : Members} (distinct : (members.map (·.1)).Nodup) (h : members.Perm members') :
    Rearranged (.obj members) (.obj members')
  | item (before after : List Json) {x y : Json} (h : Rearranged x y) :
    Rearranged (.arr (before ++ x :: after)) (.arr (before ++ y :: after))
  | member (before after : Members) (key : String) {x y : Json} (h : Rearranged x y) :
    Rearranged (.obj (before ++ (key, x) :: after)) (.obj (before ++ (key, y) :: after))

namespace Value

theorem ofItems_eq_map (items : List Json) : ofItems items = items.map ofJson := by
  induction items with
  | nil => rfl
  | cons item items ih => rw [ofItems, ih, List.map_cons]

def binding (m : String × Json) : String × Value := (m.1, ofJson m.2)

theorem ofMembers_eq_map (members : Members) : ofMembers members = members.map binding := by
  induction members with
  | nil => rfl
  | cons m members ih => rw [ofMembers, ih, List.map_cons, binding]

theorem keys_map_binding (members : Members) : (members.map binding).map (·.1) = members.map (·.1) := by
  rw [List.map_map]
  rfl

end Value

namespace Json.Rearranged

variable {x y : Json}

/-- Taken as they are, rearranged descriptions are the same value. -/
theorem ofJson (h : x.Rearranged y) : Value.ofJson y = Value.ofJson x := by
  induction h with
  | refl x => rfl
  | trans _ _ ih ih' => rw [ih', ih]
  | perm distinct h =>
    rw [← Value.keys_map_binding] at distinct
    have hentries := congrArg Dict.entries (Dict.insertAll_perm distinct (h.map _) Dict.empty)
    simp only [Value.ofJson, Value.ofMembers_eq_map]
    exact congrArg Value.map hentries
  | item before after _ ih => simp only [Value.ofJson, Value.ofItems_eq_map, List.map_append, List.map_cons, ih]
  | member before after key _ ih =>
    simp only [Value.ofJson, Value.ofMembers_eq_map, List.map_append, List.map_cons, Value.binding, ih]

/-- What is the same of two lists of members if their objects are rearranged. -/
structure SameMembers (members members' : Members) : Prop where
  get? : ∀ key, Option.Rel Rearranged (Entries.get? key members) (Entries.get? key members')
  values : ∀ (args : Arguments) (keep : String → Bool),
    args.insertAll ((members'.filter fun m => keep m.1).map Value.binding) =
      args.insertAll ((members.filter fun m => keep m.1).map Value.binding)

def Alike : Json → Json → Prop
  | .arr xs, y => ∃ ys, y = .arr ys ∧ Forall₂ Rearranged xs ys
  | .obj members, y => ∃ members', y = .obj members' ∧ SameMembers members members'
  | x, y => y = x

theorem rel_refl (x : Option Json) : Option.Rel Rearranged x x := by
  cases x with
  | none => exact .none
  | some x => exact .some (.refl x)

theorem forall₂_trans {xs ys zs : List Json} (h : Forall₂ Rearranged xs ys) (h' : Forall₂ Rearranged ys zs) :
    Forall₂ Rearranged xs zs := by
  induction h generalizing zs with
  | nil => exact h'
  | cons hxy _ ih =>
    obtain ⟨z, zs, hyz, hzs, rfl⟩ := List.forall₂_cons_left_iff.mp h'
    exact .cons (hxy.trans hyz) (ih hzs)

namespace SameMembers

theorem refl (members : Members) : SameMembers members members := ⟨fun _ => rel_refl _, fun _ _ => rfl⟩

theorem trans {m₁ m₂ m₃ : Members} (h : SameMembers m₁ m₂) (h' : SameMembers m₂ m₃) : SameMembers m₁ m₃ where
  get? key := by
    have hxy := h.get? key
    have hyz := h'.get? key
    generalize Entries.get? key m₁ = x at hxy ⊢
    generalize Entries.get? key m₂ = y at hxy hyz
    generalize Entries.get? key m₃ = z at hyz ⊢
    cases hxy with
    | none => exact hyz
    | some hxy =>
      cases hyz with
      | some hyz => exact .some (hxy.trans hyz)
  values args keep := (h'.values args keep).trans (h.values args keep)

theorem perm {members members' : Members} (distinct : (members.map (·.1)).Nodup) (h : members.Perm members') :
    SameMembers members members' where
  get? key := by
    rw [Entries.get?_perm distinct h]
    exact rel_refl _
  values args keep := by
    refine Dict.insertAll_perm ?_ ((h.filter _).map _) args
    rw [Value.keys_map_binding]
    exact distinct.sublist (List.filter_sublist.map _)

theorem member (before after : Members) (key : String) (h : x.Rearranged y) :
    SameMembers (before ++ (key, x) :: after) (before ++ (key, y) :: after) where
  get? k := by
    simp only [Entries.get?_append, Entries.get?_cons]
    cases Entries.get? k before with
    | some z => exact .some (.refl z)
    | none =>
      split
      · exact .some h
      · exact rel_refl _
  values args keep := by
    have hvalue : Value.binding (key, y) = Value.binding (key, x) := by simp only [Value.binding, h.ofJson]
    simp only [List.filter_append, List.map_append, List.filter_cons]
    split <;> simp only [List.map_cons, hvalue]

end SameMembers

theorem alike (h : x.Rearranged y) : Alike x y := by
  induction h with
  | refl x =>
    cases x with
    | arr items => exact ⟨items, rfl, List.forall₂_same.mpr fun x _ => .refl x⟩
    | obj members => exact ⟨members, rfl, .refl members⟩
    | _ => exact rfl
  | @trans x y z _ _ ih ih' =>
    cases x with
    | arr xs =>
      obtain ⟨ys, rfl, hxs⟩ := ih
      obtain ⟨zs, rfl, hys⟩ := ih'
      exact ⟨zs, rfl, forall₂_trans hxs hys⟩
    | obj members =>
      obtain ⟨members', rfl, hm⟩ := ih
      obtain ⟨members'', rfl, hm'⟩ := ih'
      exact ⟨members'', rfl, hm.trans hm'⟩
    | _ =>
      obtain rfl := ih
      exact ih'
  | perm distinct h => exact ⟨_, rfl, .perm distinct h⟩
  | item before after h =>
    refine ⟨_, rfl, List.rel_append ?_ (.cons h ?_)⟩ <;> exact List.forall₂_same.mpr fun x _ => .refl x
  | member before after key h => exact ⟨_, rfl, .member before after key h⟩

theorem get? {members members' : Members} (h : (Json.obj members).Rearranged (.obj members')) (key : String) :
    Option.Rel Rearranged (Entries.get? key members) (Entries.get? key members') := by
  obtain ⟨_, he, hsame⟩ := h.alike
  cases he
  exact hsame.get? key

/-- Rearranged objects have the same keys. -/
theorem keys_perm {members : Members} (h : (Json.obj members).Rearranged y) :
    ∃ members', y = .obj members' ∧ (members.map (·.1)).Perm (members'.map (·.1)) := by
  generalize hx : Json.obj members = x at h
  induction h generalizing members with
  | refl x => exact ⟨members, hx.symm, .refl _⟩
  | trans _ _ ih ih' =>
    obtain ⟨members', rfl, hkeys⟩ := ih hx
    obtain ⟨members'', rfl, hkeys'⟩ := ih' rfl
    exact ⟨members'', rfl, hkeys.trans hkeys'⟩
  | perm distinct h =>
    cases hx
    exact ⟨_, rfl, h.map _⟩
  | item before after _ => cases hx
  | member before after key _ =>
    cases hx
    exact ⟨_, rfl, by simp⟩

theorem same_or_nested (h : x.Rearranged y) :
    y = x ∨ (∃ xs ys, x = .arr xs ∧ y = .arr ys) ∨ ∃ members members', x = .obj members ∧ y = .obj members' := by
  have ha := h.alike
  cases x with
  | arr xs =>
    obtain ⟨ys, rfl, -⟩ := ha
    exact .inr (.inl ⟨xs, ys, rfl, rfl⟩)
  | obj members =>
    obtain ⟨members', rfl, -⟩ := ha
    exact .inr (.inr ⟨members, members', rfl, rfl⟩)
  | _ => exact .inl ha

theorem typeName (h : x.Rearranged y) : y.typeName = x.typeName := by
  rcases h.same_or_nested with rfl | ⟨_, _, rfl, rfl⟩ | ⟨_, _, rfl, rfl⟩ <;> rfl

theorem itemsOrSelf (h : x.Rearranged y) : Forall₂ Rearranged x.itemsOrSelf y.itemsOrSelf := by
  have ha := h.alike
  cases x with
  | arr xs =>
    obtain ⟨ys, rfl, hxs⟩ := ha
    exact hxs
  | obj members =>
    obtain ⟨members', rfl, -⟩ := ha
    exact .cons h .nil
  | _ =>
    obtain rfl := ha
    exact .cons h .nil

end Json.Rearranged

/-! ## Compiling rearranged descriptions -/

namespace Json.Rearranged

variable {x y : Json}

/-- Every reader but a function of the description reads the same value. -/
theorem read (h : x.Rearranged y) {reader : Reader} (hr : (Loader.read reader).standard = true) :
    reader.read y = reader.read x := by
  cases reader with
  | passthrough => simp only [Reader.read, h.ofJson]
  | custom f => cases hr
  | _ => rcases h.same_or_nested with rfl | ⟨_, _, rfl, rfl⟩ | ⟨_, _, rfl, rfl⟩ <;> rfl

end Json.Rearranged

/-- Rearranged descriptions correspond in runs from one registry. -/
def rearranging (c : Catalogue) : Correspondence where
  described _ := Json.Rearranged
  value := Eq
  handle := Eq
  args _ := Eq
  object := Eq
  registry r r' := r' = r ∧ r.catalogue = c

/-- Every parameter of every plugin is loaded by standard loaders. -/
def Catalogue.Standard (c : Catalogue) : Prop :=
  ∀ key tag p, c.plugin? key tag = some p → ∀ q ∈ p.parameters, q.loader.standard = true

namespace Json.Rearranged

variable {c : Catalogue} {x y : Json}

theorem loads (h : x.Rearranged y) {l : Loader} (hl : l.standard = true) : (rearranging c).Loads c l x y := by
  induction l generalizing x y with
  | read reader => exact .of_eq (h.read hl).symm
  | category name =>
    have ha := h.alike
    cases x with
    | arr xs => exact ha
    | obj members =>
      obtain ⟨members', rfl, -⟩ := ha
      exact ⟨by simp, h⟩
    | _ =>
      obtain rfl := ha
      exact ⟨by simp, h⟩
  | listOf item ih => exact h.itemsOrSelf.imp fun x' y' h' => ih h' hl

namespace SameMembers

variable {key : String} {members members' : Members}

theorem nameOf (h : SameMembers members members') (label : String) :
    Description.nameOf label members' = Description.nameOf label members := by
  have hname := h.get? "name"
  simp only [Description.nameOf]
  generalize Entries.get? "name" members = x at hname ⊢
  generalize Entries.get? "name" members' = y at hname ⊢
  cases hname with
  | none => rfl
  | some hxy => rcases hxy.same_or_nested with rfl | ⟨_, _, rfl, rfl⟩ | ⟨_, _, rfl, rfl⟩ <;> rfl

theorem tagOf (h : SameMembers members members') (label : String) (tags : List String) :
    Description.tagOf label tags members' = Description.tagOf label tags members := by
  have htype := h.get? "type"
  simp only [Description.tagOf]
  generalize Entries.get? "type" members = x at htype ⊢
  generalize Entries.get? "type" members' = y at htype ⊢
  cases htype with
  | none => rfl
  | some hxy => rcases hxy.same_or_nested with rfl | ⟨_, _, rfl, rfl⟩ | ⟨_, _, rfl, rfl⟩ <;> rfl

theorem input (h : SameMembers members members') (key name : String) :
    Option.Rel Rearranged (Entries.get? name (Mapping.mk key members).input)
      (Entries.get? name (Mapping.mk key members').input) := by
  simp only [Mapping.input, Entries.get?_erase]
  split
  · exact .none
  · split
    · exact .none
    · exact h.get? name

theorem addUndeclared (h : SameMembers members members') (p : Plugin) (args : Arguments) :
    p.addUndeclared args (Mapping.mk key members').input = p.addUndeclared args (Mapping.mk key members).input := by
  simp only [Plugin.addUndeclared, Mapping.input, Entries.erase, List.filter_filter]
  exact h.values args fun name => (p.parameter? name).isNone && (name ≠ "type" && name ≠ "name")

theorem mappings (h : SameMembers members members') (hc : c.Standard) :
    (rearranging c).Mappings c key members members' where
  name := h.nameOf
  tag := h.tagOf
  input p hp := by
    refine ⟨fun q hq => ?_, fun args args' hargs => ?_⟩
    · obtain ⟨tag, -, htag⟩ := Option.bind_eq_some_iff.mp hp
      have hraw := h.input key q.name
      generalize Entries.get? q.name (Mapping.mk key members).input = x at hraw ⊢
      generalize Entries.get? q.name (Mapping.mk key members').input = y at hraw ⊢
      cases hraw with
      | none => exact .none
      | some hxy => exact .some (hxy.loads (hc key tag p htag q hq))
    · obtain rfl : args = args' := hargs
      exact (h.addUndeclared p args).symm

end SameMembers

theorem shape (h : x.Rearranged y) (hc : c.Standard) (key : String) : (rearranging c).Shape c key x y := by
  have ha := h.alike
  cases x with
  | str s => exact ha
  | obj members =>
    obtain ⟨members', rfl, hm⟩ := ha
    exact ⟨members', rfl, hm.mappings hc⟩
  | _ => exact h.typeName

end Json.Rearranged

theorem rearranging_sound {c : Catalogue} (hc : c.Standard) : (rearranging c).Sound c :=
  .of_one_registry rfl (fun key _ _ h => h.shape hc key) (fun _ _ _ _ => rfl)
    (fun _ key _ _ v hargs => congrArg (Dict.insert · key v) hargs)
    fun _ _ p _ store _ _ hargs _ => congrArg (p.builder.build store) hargs.symm

/-- The order of the keys in the descriptions of a document does not matter, at any depth. If all parameters are loaded
by standard loaders, the outcome is the same, and the same objects are registered in the same order. -/
theorem Document.compile_rearranged {r : Registry} (hr : r.catalogue.Standard) {sections sections' : Members}
    (h : Forall₂ (fun s t => s.1 = t.1 ∧ s.2.Rearranged t.2) sections sections') (order : CompileOrder) :
    Document.compile order (.obj sections') r = Document.compile order (.obj sections) r := by
  have hsections : Correspondence.Sections (rearranging r.catalogue) r.catalogue sections sections' :=
    h.imp fun s t hst => ⟨hst.1, hst.2.itemsOrSelf⟩
  obtain ⟨⟨hregistry, -⟩, houtcome⟩ := (rearranging_sound hr).document hsections order r r ⟨rfl, rfl⟩
  have hhandles : Forall₂ (rearranging r.catalogue).handle = Eq := List.forall₂_eq_eq_eq
  rw [hhandles] at houtcome
  exact Prod.ext houtcome.eq.symm hregistry

namespace Sampling

/-- An interval that describes its variable inside. -/
def intervalSections : Members :=
  [("states", .obj [("type", .str "interval"), ("cv", .obj [("type", .str "position"), ("atom", .num (.integer 1))]),
    ("min", .num (.integer 0)), ("max", .num (.integer 1))])]

/-- The interval with the keys of both descriptions in reverse order. -/
def reversedIntervalSections : Members :=
  [("states", .obj [("max", .num (.integer 1)), ("min", .num (.integer 0)),
    ("cv", .obj [("atom", .num (.integer 1)), ("type", .str "position")]), ("type", .str "interval")])]

theorem standardRegistry_standard : standardRegistry.catalogue.Standard :=
  fun _ _ p hp => plugins_standard p (mem_plugins hp)

theorem compile_reversedIntervalSections :
    standardRegistry.catalogue.Standard ∧
    Forall₂ (fun s t => s.1 = t.1 ∧ s.2.Rearranged t.2) intervalSections reversedIntervalSections ∧
    Document.compile .standard (.obj reversedIntervalSections) standardRegistry =
      Document.compile .standard (.obj intervalSections) standardRegistry ∧
    (Document.compile .standard (.obj reversedIntervalSections) standardRegistry).1.toOption = some [⟨1⟩] := by
  have hrearranged : Forall₂ (fun s t => s.1 = t.1 ∧ s.2.Rearranged t.2) intervalSections reversedIntervalSections := by
    have hvariable : (Json.obj [("type", .str "position"), ("atom", .num (.integer 1))]).Rearranged
        (.obj [("atom", .num (.integer 1)), ("type", .str "position")]) := .perm (by decide) (.swap _ _ [])
    have hinterval := hvariable.member [("type", .str "interval")]
      [("min", .num (.integer 0)), ("max", .num (.integer 1))] "cv"
    exact .cons ⟨rfl, hinterval.trans (.perm (by decide) (List.reverse_perm _).symm)⟩ .nil
  have hsame := Document.compile_rearranged standardRegistry_standard hrearranged .standard
  have hrun : (Document.compile .standard (.obj intervalSections) standardRegistry).1.toOption = some [⟨1⟩] := by
    decide +kernel
  exact ⟨standardRegistry_standard, hrearranged, hsame, by rw [hsame]; exact hrun⟩

end Sampling
end Blueprint
