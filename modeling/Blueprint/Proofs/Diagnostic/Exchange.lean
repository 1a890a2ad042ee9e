import Blueprint.Diagnostic.Exchange
import Blueprint.Proofs.Document.KeyOrder
import Blueprint.Proofs.Json.Reading

/-!
# Diagnostics survive the exchange

What is unset is left out where a diagnostic is written, and what is left out is unset where one is read. No key is
written twice, so each field is what is bound to its key (`Source.field?_ofMembers`), and a diagnostic is read back as
it was from its JSON value, in whatever order its members stand, and from its text (`Diagnostic.survives_exchange`).
-/

namespace Blueprint

/-! ## Fields -/

section Fields

variable {members : Members} {key : String}

@[simp] theorem get?_textMember (key : String) (value : Option String) (k : String) :
    Entries.get? k (textMember key value) = if key = k then value.map Json.str else none := by
  cases value <;> simp [textMember, Entries.get?_cons]

theorem eq_str_of_mem_textMember {value : Option String} {e : String × Json} (he : e ∈ textMember key value) :
    ∃ s, e.2 = .str s := by
  cases value with
  | none => cases he
  | some s =>
    obtain rfl := List.mem_singleton.mp he
    exact ⟨s, rfl⟩

theorem keys_textMember_sublist (key : String) (value : Option String) :
    ((textMember key value).map (·.1)).Sublist [key] := by
  cases value <;> simp [textMember]

namespace Json.Source

theorem keysValid_ofMembers (members : Members) : keysValid (ofMembers members) = true := by
  induction members with
  | nil => rfl
  | cons m members ih => simpa [keysValid, ofMembers] using ih

theorem filter_ofMembers_of_get?_eq_none (h : Entries.get? key members = none) :
    (ofMembers members).filter (fun m => m.1 == some key) = [] := by
  induction members with
  | nil => rfl
  | cons m members ih =>
    rw [Entries.get?_cons] at h
    split at h
    · cases h
    · next hne => rw [ofMembers, List.filter_cons_of_neg (by simpa using hne), ih h]

/-- Where no key is repeated, a field is what is bound to its key. -/
theorem field?_ofMembers (distinct : (members.map (·.1)).Nodup) (key : String) :
    field? key (ofMembers members) = some ((Entries.get? key members).map ofJson) := by
  induction members with
  | nil => rfl
  | cons m members ih =>
    rw [List.map_cons, List.nodup_cons] at distinct
    rw [Entries.get?_cons]
    split
    · next he =>
      have hfree : Entries.get? key members = none := Entries.get?_eq_none_iff.mpr fun e hmem hkey =>
        distinct.1 (List.mem_map.mpr ⟨e, hmem, hkey.trans he.symm⟩)
      rw [field?, ofMembers, List.filter_cons_of_pos (by simpa using he), filter_ofMembers_of_get?_eq_none hfree]
      rfl
    · next hne =>
      rw [field?, ofMembers, List.filter_cons_of_neg (by simpa using hne)]
      exact ih distinct.2

/-- An optional text is read back if it is what is bound to its key. -/
theorem optionalField?_ofMembers (distinct : (members.map (·.1)).Nodup) {value : Option String}
    (h : Entries.get? key members = value.map Json.str) : optionalField? key (ofMembers members) = some value := by
  rw [optionalField?, field?_ofMembers distinct, h]
  cases value <;> rfl

theorem texts?_ofItems (texts : List String) : texts? (.arr (ofItems (texts.map Json.str))) = some texts := by
  simp only [texts?]
  induction texts with
  | nil => rfl
  | cons s texts ih => simp [ofItems, ofJson, text?, ih]

end Json.Source

end Fields

/-! ## Values without objects -/

namespace Json

/-- The value looks the same however it is rearranged. -/
def Rigid (x : Json) : Prop := ∀ y, x.Rearranged y → y = x

theorem rigid_str (s : String) : (Json.str s).Rigid := fun _ h => h.alike

theorem eq_of_rigid {items items' : List Json} (h : ∀ x ∈ items, x.Rigid)
    (hitems : List.Forall₂ Rearranged items items') : items' = items := by
  induction hitems with
  | nil => rfl
  | cons hxy _ ih => rw [h _ (by simp) _ hxy, ih fun x hx => h x (by simp [hx])]

theorem rigid_arr {items : List Json} (h : ∀ x ∈ items, x.Rigid) : (Json.arr items).Rigid := by
  intro y hy
  obtain ⟨items', rfl, hitems⟩ := hy.alike
  rw [eq_of_rigid h hitems]

/-- An object of rigid values binds the same values however it is rearranged. -/
theorem Rearranged.get?_of_rigid {members members' : Members} (h : (Json.obj members).Rearranged (.obj members'))
    {key : String} (rigid : ∀ x, Entries.get? key members = some x → x.Rigid) :
    Entries.get? key members' = Entries.get? key members := by
  have hrel := h.get? key
  generalize Entries.get? key members = x at hrel rigid ⊢
  generalize Entries.get? key members' = y at hrel ⊢
  cases hrel with
  | none => rfl
  | some hxy => rw [rigid _ rfl _ hxy]

end Json

open Json (Source)

/-! ## Locations -/

namespace Location

/-- The notes are left out if there are none. -/
def notesMember (notes : List String) : Members :=
  if notes.isEmpty then [] else [("notes", .arr (notes.map Json.str))]

/-- The members that a location is written with. -/
def members (l : Location) : Members :=
  textMember "category" l.category ++ textMember "plugin" l.plugin ++ textMember "parameter" l.parameter ++
    textMember "name" l.name ++ notesMember l.notes

@[simp] theorem get?_notesMember (notes : List String) (key : String) : Entries.get? key (notesMember notes) =
    if "notes" = key then (if notes.isEmpty then none else some (.arr (notes.map Json.str))) else none := by
  cases notes <;> simp [notesMember, Entries.get?_cons]

theorem nodup_members (l : Location) : (l.members.map (·.1)).Nodup := by
  have hnotes : ((notesMember l.notes).map (·.1)).Sublist ["notes"] := by
    unfold notesMember
    split <;> simp
  have hkeys : (l.members.map (·.1)).Sublist ["category", "plugin", "parameter", "name", "notes"] := by
    simp only [members, List.map_append]
    exact ((((keys_textMember_sublist _ _).append (keys_textMember_sublist _ _)).append
      (keys_textMember_sublist _ _)).append (keys_textMember_sublist _ _)).append hnotes
  exact List.Nodup.sublist hkeys (by decide)

variable {l : Location} {members : Members}

/-- The notes are found if there are any. -/
theorem field?_notes (distinct : (members.map (·.1)).Nodup)
    (same : ∀ key, Entries.get? key members = Entries.get? key l.members) :
    Source.field? "notes" (Source.ofMembers members) = some none ∧ l.notes = [] ∨
    Source.field? "notes" (Source.ofMembers members) = some (some (.arr (Source.ofItems (l.notes.map Json.str)))) := by
  rw [Source.field?_ofMembers distinct, same]
  cases hnotes : l.notes <;> simp [Location.members, Entries.get?_append, hnotes, Source.ofJson]

/-- A location is read from any object in which the same values are bound to the same keys. -/
theorem ofSource?_ofMembers (distinct : (members.map (·.1)).Nodup)
    (same : ∀ key, Entries.get? key members = Entries.get? key l.members) :
    ofSource? (.obj (Source.ofMembers members)) = some l := by
  have field (key : String) (value : Option String) (h : Entries.get? key l.members = value.map Json.str) :=
    Source.optionalField?_ofMembers distinct ((same key).trans h)
  have hcategory := field "category" l.category (by simp [Location.members, Entries.get?_append])
  have hplugin := field "plugin" l.plugin (by simp [Location.members, Entries.get?_append])
  have hparameter := field "parameter" l.parameter (by simp [Location.members, Entries.get?_append])
  have hname := field "name" l.name (by simp [Location.members, Entries.get?_append])
  rcases field?_notes distinct same with ⟨hnotes, hempty⟩ | hnotes
  · simp [ofSource?, Source.keysValid_ofMembers, hcategory, hplugin, hparameter, hname, hnotes, ← hempty]
  · simp [ofSource?, Source.keysValid_ofMembers, hcategory, hplugin, hparameter, hname, hnotes, Source.texts?_ofItems]

/-- A location holds texts and a list of texts. -/
theorem texts_of_mem {e : String × Json} (he : e ∈ l.members) :
    (∃ s, e.2 = .str s) ∨ ∃ texts : List String, e.2 = .arr (texts.map Json.str) := by
  simp only [Location.members, List.mem_append] at he
  rcases he with (((he | he) | he) | he) | he
  · exact .inl (eq_str_of_mem_textMember he)
  · exact .inl (eq_str_of_mem_textMember he)
  · exact .inl (eq_str_of_mem_textMember he)
  · exact .inl (eq_str_of_mem_textMember he)
  · unfold notesMember at he
    split at he
    · cases he
    · obtain rfl := List.mem_singleton.mp he
      exact .inr ⟨l.notes, rfl⟩

theorem rigid_of_mem {e : String × Json} (he : e ∈ l.members) : e.2.Rigid := by
  rcases texts_of_mem he with ⟨s, he⟩ | ⟨texts, he⟩ <;> rw [he]
  · exact Json.rigid_str s
  · exact Json.rigid_arr (by simpa using fun s _ => Json.rigid_str s)

theorem numberless_toJson (l : Location) : l.toJson.Numberless := by
  refine Json.Numberless.obj fun e he => ?_
  rcases texts_of_mem he with ⟨s, he⟩ | ⟨texts, he⟩ <;> rw [he]
  · exact .str s
  · exact .arr (by simpa using fun s _ => .str s)

theorem ofSource?_of_rearranged {json : Json} (h : l.toJson.Rearranged json) :
    ofSource? (Source.ofJson json) = some l := by
  obtain ⟨members, rfl, hkeys⟩ := h.keys_perm
  exact ofSource?_ofMembers (hkeys.nodup l.nodup_members) fun key =>
    h.get?_of_rigid fun x hx => rigid_of_mem (Entries.mem_of_get? hx)

end Location

namespace Diagnostic

/-- The location is left out if there is none. -/
def locationMember (location : Option Location) : Members :=
  match location with
  | some l => [("context", l.toJson)]
  | none => []

/-- The members that a diagnostic is written with. -/
def members (d : Diagnostic) : Members :=
  [("code", .str d.code), ("message", .str d.message)] ++ textMember "suggestion" d.suggestion ++
    locationMember d.location

theorem toJson_eq (d : Diagnostic) : d.toJson = .obj d.members := rfl

@[simp] theorem get?_locationMember (location : Option Location) (key : String) :
    Entries.get? key (locationMember location) = if "context" = key then location.map Location.toJson else none := by
  cases location <;> simp [locationMember, Entries.get?_cons]

theorem nodup_members (d : Diagnostic) : (d.members.map (·.1)).Nodup := by
  have hlocation : ((locationMember d.location).map (·.1)).Sublist ["context"] := by
    unfold locationMember
    split <;> simp
  have hkeys : (d.members.map (·.1)).Sublist ["code", "message", "suggestion", "context"] := by
    simp only [members, List.map_append]
    exact ((List.Sublist.refl ["code", "message"]).append (keys_textMember_sublist _ _)).append hlocation
  exact List.Nodup.sublist hkeys (by decide)

variable {d : Diagnostic} {json : Json}

/-- A location that is there is read as one even if it is empty. -/
theorem optional?_of_rearranged {l : Location} (h : l.toJson.Rearranged json) :
    Location.optional? (Source.ofJson json) = some (some l) := by
  have hread := Location.ofSource?_of_rearranged h
  obtain ⟨members, rfl, -⟩ := h.keys_perm
  rw [Location.optional?, hread, Option.map_some]
  exact nofun

/-- The location is read from what a rearranged object binds in its place. -/
theorem field?_context {members : Members} (h : (Json.obj d.members).Rearranged (.obj members))
    (distinct : (members.map (·.1)).Nodup) :
    (d.location = none ∧ Source.field? "context" (Source.ofMembers members) = some none) ∨
    ∃ l source, d.location = some l ∧ Source.field? "context" (Source.ofMembers members) = some (some source) ∧
      Location.optional? source = some (some l) := by
  have hbound : Entries.get? "context" d.members = d.location.map Location.toJson := by
    simp [Diagnostic.members, Entries.get?_append, Entries.get?_cons]
  have hrel := h.get? "context"
  rw [hbound] at hrel
  rw [Source.field?_ofMembers distinct]
  generalize Entries.get? "context" members = y at hrel ⊢
  cases hlocation : d.location with
  | none =>
    rw [hlocation] at hrel
    cases hrel
    exact .inl ⟨rfl, rfl⟩
  | some l =>
    rw [hlocation] at hrel
    cases hrel with
    | some hxy => exact .inr ⟨l, _, rfl, rfl, optional?_of_rearranged hxy⟩

theorem ofSource?_of_rearranged (h : d.toJson.Rearranged json) : ofSource? (Source.ofJson json) = some d := by
  rw [toJson_eq] at h
  obtain ⟨members, rfl, hkeys⟩ := h.keys_perm
  have distinct := hkeys.nodup d.nodup_members
  have same (key : String) (value : Option String) (hbound : Entries.get? key d.members = value.map Json.str) :
      Entries.get? key members = value.map Json.str := by
    rw [h.get?_of_rigid, hbound]
    intro x hx
    obtain ⟨s, -, rfl⟩ := Option.map_eq_some_iff.mp (hbound.symm.trans hx)
    exact Json.rigid_str s
  have hcode : Source.field? "code" (Source.ofMembers members) = some (some (.str (some d.code))) := by
    rw [Source.field?_ofMembers distinct, same "code" (some d.code) rfl]
    rfl
  have hmessage : Source.field? "message" (Source.ofMembers members) = some (some (.str (some d.message))) := by
    rw [Source.field?_ofMembers distinct, same "message" (some d.message) rfl]
    rfl
  have hsuggestion : Source.optionalField? "suggestion" (Source.ofMembers members) = some d.suggestion :=
    Source.optionalField?_ofMembers distinct
      (same _ _ (by simp [Diagnostic.members, Entries.get?_append, Entries.get?_cons]))
  rw [Source.ofJson, ofSource?]
  rcases field?_context h distinct with ⟨hlocation, hcontext⟩ | ⟨l, source, hlocation, hcontext, hsource⟩
  · simp [Source.keysValid_ofMembers, hcode, hmessage, hsuggestion, hcontext, Source.text?, ← hlocation]
  · simp [Source.keysValid_ofMembers, hcode, hmessage, hsuggestion, hcontext, hsource, Source.text?, ← hlocation]

/-- What a diagnostic is written as holds texts only. -/
theorem numberless_toJson (d : Diagnostic) : d.toJson.Numberless := by
  refine Json.Numberless.obj fun e he => ?_
  rcases List.mem_append.mp he with he | he
  · rcases List.mem_append.mp he with he | he
    · simp only [List.mem_cons, List.not_mem_nil, or_false] at he
      rcases he with rfl | rfl <;> exact .str _
    · obtain ⟨s, he⟩ := eq_str_of_mem_textMember he
      rw [he]
      exact .str s
  · cases hlocation : d.location with
    | none =>
      rw [hlocation] at he
      cases he
    | some l =>
      rw [hlocation] at he
      obtain rfl := List.mem_singleton.mp he
      exact l.numberless_toJson

/-- A diagnostic is read back as it was from its JSON value, in whatever order its members stand, and from the text of
that value. So no two diagnostics are written alike. -/
theorem survives_exchange (d : Diagnostic) :
    ofSource? (Source.ofJson d.toJson) = some d ∧ parse? d.toJson.compact = some d ∧
    (∀ json, d.toJson.Rearranged json → ofSource? (Source.ofJson json) = some d) ∧
    (∀ e : Diagnostic, e.toJson.Rearranged d.toJson → e = d) ∧
    ∀ e : Diagnostic, e.toJson.compact = d.toJson.compact → e = d := by
  have hvalue : ofSource? (Source.ofJson d.toJson) = some d := ofSource?_of_rearranged (.refl _)
  have htext (e : Diagnostic) : parse? e.toJson.compact = some e := by
    rw [parse?, Source.read?_compact e.numberless_toJson, Option.bind_some]
    exact ofSource?_of_rearranged (.refl _)
  refine ⟨hvalue, htext d, fun _ h => ofSource?_of_rearranged h, fun e h => ?_, fun e h => ?_⟩
  · exact Option.some.inj ((ofSource?_of_rearranged h).symm.trans hvalue)
  · exact Option.some.inj ((htext e).symm.trans ((congrArg parse? h).trans (htext d)))

end Diagnostic
end Blueprint
