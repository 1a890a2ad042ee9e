import Blueprint.Compile.Basic

/-!
# Frames around a failure

On its way out of nested descriptions a diagnostic passes frames: the item of a list, the parameter that is loaded, the
plugin that loads it, and the mapping whose plugin failed. A frame names what is not named yet, or appends a note, and
touches nothing else. What comes out after some frames is told view by view by `Diagnostic.Passed`, which determines the
diagnostic (`Diagnostic.passed_iff`).
-/

namespace Blueprint

inductive Frame where
  /-- An item of a list, counted from zero. -/
  | item (position : Nat)
  | parameter (name : String)
  /-- A plugin that loads its parameters. -/
  | plugin (tag : String)
  /-- A mapping of the category with a label, whose plugin failed. -/
  | mapping (label : String) (d : Description)

namespace Frame

/-- What a diagnostic is after it passed a frame. -/
def pass : Frame → Diagnostic → Diagnostic
  | .item i, e => e.note s!"in list item {i}"
  | .parameter name, e => e.forParameter name
  | .plugin tag, e => e.inPlugin tag
  | .mapping label d, e => (e.inCategory label).note (d.activity label)

/-! ## What a frame supplies -/

def category? : Frame → Option String
  | .mapping label _ => some label
  | _ => none

def plugin? : Frame → Option String
  | .plugin tag => some tag
  | _ => none

def parameter? : Frame → Option String
  | .parameter name => some name
  | _ => none

def note? : Frame → Option String
  | .item i => some s!"in list item {i}"
  | .mapping label d => some (d.activity label)
  | _ => none

end Frame

namespace Diagnostic

variable {e e' e₀ : Diagnostic} {frames : List Frame}

def notes (e : Diagnostic) : List String := e.place.notes

/-- What a diagnostic is after it passed frames, the innermost first. -/
def through (e : Diagnostic) (frames : List Frame) : Diagnostic := frames.foldl (fun e f => f.pass e) e

@[simp] theorem through_nil : e.through [] = e := rfl

@[simp] theorem through_append (frames frames' : List Frame) :
    e.through (frames ++ frames') = (e.through frames).through frames' := List.foldl_append

@[simp] theorem through_cons (f : Frame) : e.through (f :: frames) = (f.pass e).through frames := rfl

/-- A diagnostic after it passed frames: what it says stays, what it names stays named, and what it does not name is
named by the nearest frame that does. Every frame leaves a location. -/
structure Passed (e₀ : Diagnostic) (frames : List Frame) (e : Diagnostic) : Prop where
  code : e.code = e₀.code
  message : e.message = e₀.message
  suggestion : e.suggestion = e₀.suggestion
  category : e.category? = e₀.category?.or (frames.findSome? Frame.category?)
  plugin : e.plugin? = e₀.plugin?.or (frames.findSome? Frame.plugin?)
  parameter : e.parameter? = e₀.parameter?.or (frames.findSome? Frame.parameter?)
  name : e.name? = e₀.name?
  notes : e.notes = e₀.notes ++ frames.filterMap Frame.note?
  located : e.location.isSome = (e₀.location.isSome || !frames.isEmpty)

/-! ## One frame -/

section
variable (e)

theorem pass_location (f : Frame) : (f.pass e).location.isSome = true := by cases f <;> rfl

theorem pass_category (f : Frame) : (f.pass e).category? = e.category?.or f.category? := by
  rcases e with ⟨_, _, _, _ | l⟩ <;> cases f <;> simp [Frame.pass, Frame.category?, category?, place, note, forParameter,
    inPlugin, inCategory]

theorem pass_plugin (f : Frame) : (f.pass e).plugin? = e.plugin?.or f.plugin? := by
  rcases e with ⟨_, _, _, _ | l⟩ <;> cases f <;> simp [Frame.pass, Frame.plugin?, plugin?, place, note, forParameter,
    inPlugin, inCategory]

theorem pass_parameter (f : Frame) : (f.pass e).parameter? = e.parameter?.or f.parameter? := by
  rcases e with ⟨_, _, _, _ | l⟩ <;> cases f <;> simp [Frame.pass, Frame.parameter?, parameter?, place, note,
    forParameter, inPlugin, inCategory]

theorem pass_name (f : Frame) : (f.pass e).name? = e.name? := by
  rcases e with ⟨_, _, _, _ | l⟩ <;> cases f <;> simp [Frame.pass, name?, place, note, forParameter, inPlugin, inCategory]

theorem pass_notes (f : Frame) : (f.pass e).notes = e.notes ++ f.note?.toList := by
  cases f <;> simp [Frame.pass, Frame.note?, notes, place, note, forParameter, inPlugin, inCategory]

end

/-- A category that is named stays. -/
theorem inCategory_of_isSome (h : e.category?.isSome = true) (label : String) : e.inCategory label = e := by
  rcases e with ⟨_, _, _, _ | ⟨_ | _, _, _, _, _⟩⟩ <;> simp_all [category?, inCategory, place]

/-! ## All frames -/

/-- Of what is named already, what a frame supplies, and what the frames around it supply, the first one counts. -/
theorem or_findSome?_cons {α β : Type} (x : Option β) (supplied : α → Option β) (f : α) (frames : List α) :
    (x.or (supplied f)).or (frames.findSome? supplied) = x.or ((f :: frames).findSome? supplied) := by
  rw [Option.or_assoc, List.findSome?_cons]
  cases supplied f <;> rfl

theorem Passed.cons {f : Frame} (h : (f.pass e₀).Passed frames e) : e₀.Passed (f :: frames) e where
  code := h.code.trans (by cases f <;> rfl)
  message := h.message.trans (by cases f <;> rfl)
  suggestion := h.suggestion.trans (by cases f <;> rfl)
  category := by rw [h.category, pass_category, or_findSome?_cons]
  plugin := by rw [h.plugin, pass_plugin, or_findSome?_cons]
  parameter := by rw [h.parameter, pass_parameter, or_findSome?_cons]
  name := h.name.trans (pass_name e₀ f)
  notes := by
    rw [h.notes, pass_notes, List.filterMap_cons, List.append_assoc]
    cases f.note? <;> rfl
  located := by rw [h.located, pass_location]; simp

theorem passed_through (e : Diagnostic) (frames : List Frame) : e.Passed frames (e.through frames) := by
  induction frames generalizing e with
  | nil => constructor <;> simp
  | cons f frames ih => exact (ih (f.pass e)).cons

/-- A diagnostic is determined by its views. -/
theorem Passed.unique (h : e₀.Passed frames e) (h' : e₀.Passed frames e') : e = e' := by
  have hlocated := h.located.trans h'.located.symm
  have hcategory := h.category.trans h'.category.symm
  have hplugin := h.plugin.trans h'.plugin.symm
  have hparameter := h.parameter.trans h'.parameter.symm
  have hname := h.name.trans h'.name.symm
  have hnotes := h.notes.trans h'.notes.symm
  have hlocation : e.location = e'.location := by
    simp only [category?, plugin?, parameter?, name?] at hcategory hplugin hparameter hname
    simp only [Diagnostic.notes, place] at hnotes
    rcases he : e.location with _ | ⟨_, _, _, _, _⟩ <;> rcases he' : e'.location with _ | ⟨_, _, _, _, _⟩ <;> simp_all
  cases e
  cases e'
  simp only [mk.injEq]
  exact ⟨h.code.trans h'.code.symm, h.message.trans h'.message.symm, h.suggestion.trans h'.suggestion.symm, hlocation⟩

theorem passed_iff : e₀.Passed frames e ↔ e = e₀.through frames :=
  ⟨fun h => h.unique (passed_through e₀ frames), fun h => h ▸ passed_through e₀ frames⟩

end Diagnostic
end Blueprint
