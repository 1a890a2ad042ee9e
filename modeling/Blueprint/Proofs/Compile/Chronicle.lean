import Blueprint.Proofs.Compile.Registering
import Mathlib.Data.List.Nodup

/-!
# What objects were made of

A registry whose objects are all compiled has a chronicle: a list of mappings, one for each object of the store and in
the same order. The object of a mapping was built of arguments that come from the mapping, where a description inside it
stands for an earlier object of the chronicle (`Stands`): a name for one that bears it, a mapping for the one made of it.
Registering the object of a mapping adds the mapping to the chronicle (`Chronicle.enroll`).
-/

namespace Blueprint

variable {c : Catalogue} {docs : List Json} {log log' : List Mapping} {r : Registry}

/-! ## Descriptions inside documents -/

/-- A value that occurs in another one, at any depth. -/
inductive Json.IsPart : Json → Json → Prop
  | refl (raw : Json) : IsPart raw raw
  | item {x whole : Json} {items : List Json} (h : IsPart (.arr items) whole) (hx : x ∈ items) : IsPart x whole
  | member {key : String} {x whole : Json} {members : Members} (h : IsPart (.obj members) whole)
    (hx : (key, x) ∈ members) : IsPart x whole

theorem Json.IsPart.trans {a b d : Json} (h : a.IsPart b) (h' : b.IsPart d) : a.IsPart d := by
  induction h with
  | refl => exact h'
  | item _ hx ih => exact (ih h').item hx
  | member _ hx ih => exact (ih h').member hx

/-- A part of a document is the document itself, or lies in an item or in a member of it. -/
theorem Json.IsPart.inside {a d : Json} (h : a.IsPart d) : a = d ∨
    (∃ items, d = .arr items ∧ ∃ x ∈ items, a.IsPart x) ∨ ∃ members, d = .obj members ∧ ∃ e ∈ members, a.IsPart e.2 := by
  induction h with
  | refl => exact .inl rfl
  | item _ hx ih =>
    rcases ih with rfl | ⟨items, rfl, x, hmem, hp⟩ | ⟨members, rfl, e, hmem, hp⟩
    · exact .inr (.inl ⟨_, rfl, _, hx, .refl _⟩)
    · exact .inr (.inl ⟨items, rfl, x, hmem, hp.item hx⟩)
    · exact .inr (.inr ⟨members, rfl, e, hmem, hp.item hx⟩)
  | member _ hx ih =>
    rcases ih with rfl | ⟨items, rfl, x, hmem, hp⟩ | ⟨members, rfl, e, hmem, hp⟩
    · exact .inr (.inr ⟨_, rfl, _, hx, .refl _⟩)
    · exact .inr (.inl ⟨items, rfl, x, hmem, hp.member hx⟩)
    · exact .inr (.inr ⟨members, rfl, e, hmem, hp.member hx⟩)

/-- A value that occurs in one of some documents. -/
def Json.Within (docs : List Json) (raw : Json) : Prop := ∃ d ∈ docs, raw.IsPart d

namespace Json.Within

variable {raw : Json}

theorem of_mem (h : raw ∈ docs) : raw.Within docs := ⟨raw, h, .refl raw⟩

theorem item {x : Json} {items : List Json} (h : (Json.arr items).Within docs) (hx : x ∈ items) : x.Within docs := by
  obtain ⟨d, hd, hp⟩ := h
  exact ⟨d, hd, hp.item hx⟩

theorem member {key : String} {x : Json} {members : Members} (h : (Json.obj members).Within docs)
    (hx : (key, x) ∈ members) : x.Within docs := by
  obtain ⟨d, hd, hp⟩ := h
  exact ⟨d, hd, hp.member hx⟩

theorem itemsOrSelf {x : Json} (h : raw.Within docs) (hx : x ∈ raw.itemsOrSelf) : x.Within docs := by
  cases raw with
  | arr items => exact h.item hx
  | _ => simp_all [Json.itemsOrSelf]

end Json.Within

/-- The description comes from one of the documents. -/
def Mapping.Within (docs : List Json) (m : Mapping) : Prop := (Json.obj m.members).Within docs

theorem Mapping.Within.get? {m : Mapping} (h : m.Within docs) {key : String} {raw : Json}
    (hraw : Entries.get? key m.input = some raw) : raw.Within docs := by
  have hm := Entries.mem_of_get? hraw
  exact h.member (List.mem_filter.mp (List.mem_filter.mp hm).1).1

/-! ## What descriptions stand for -/

/-- The object of the category under a key that a description stands for. -/
inductive Stands (log : List Mapping) (key : String) : Json → Handle → Prop
  | name {n : String} {h : Handle} {m : Mapping} (hm : log[h.index]? = some m) (hkey : m.key = key)
    (hn : m.name? = some n) : Stands log key (.str n) h
  | mapping {members : Members} {h : Handle} (hm : log[h.index]? = some ⟨key, members⟩) :
    Stands log key (.obj members) h

/-- What a category gives for a description or a list of them: an object, or a list of objects. -/
inductive Represents (log : List Mapping) (key : String) : Json → Value → Prop
  | single {raw : Json} {h : Handle} (hs : Stands log key raw h) : Represents log key raw (.object h)
  | items {items : List Json} {hs : List Handle} (hall : List.Forall₂ (Stands log key) items hs) :
    Represents log key (.arr items) (.list (hs.map .object))

/-- The values that a loader may give for a description. -/
def Loader.Supplies (c : Catalogue) (log : List Mapping) : Loader → Json → Value → Prop
  | .read reader, raw, value => reader.read raw = .ok value
  | .category name, raw, value => Represents log (c.key name) raw value
  | .listOf item, raw, value =>
    ∃ values, value = .list values ∧ List.Forall₂ (item.Supplies c log) raw.itemsOrSelf values

/-- Where the argument of a name comes from. -/
inductive Plugin.Supplied (p : Plugin) (c : Catalogue) (log : List Mapping) (input : Members) : String → Value → Prop
  | byDefault {q : Parameter} {value : Value} (hq : q ∈ p.parameters) (hd : q.default = some value) :
    Supplied p c log input q.name value
  | loaded {q : Parameter} {raw : Json} {value : Value} (hq : q ∈ p.parameters)
    (hraw : Entries.get? q.name input = some raw) (hv : q.loader.Supplies c log raw value) :
    Supplied p c log input q.name value
  | undeclared {key : String} {raw : Json} (hkey : p.parameter? key = none) (hm : (key, raw) ∈ input) :
    Supplied p c log input key (Value.ofJson raw)

/-- Every argument comes from the input of the plugin or is a default. -/
def Plugin.Accounts (p : Plugin) (c : Catalogue) (log : List Mapping) (input : Members) (args : Arguments) : Prop :=
  ∀ key value, args.get? key = some value → p.Supplied c log input key value

/-- The argument of a parameter is its default, or it was loaded. -/
theorem Plugin.Accounts.of_parameter {p : Plugin} {input : Members} {args : Arguments}
    (h : p.Accounts c log input args) (hp : (p.parameters.map Parameter.name).Nodup) {q : Parameter}
    (hq : q ∈ p.parameters) {value : Value} (hv : args.get? q.name = some value) :
    q.default = some value ∨ ∃ raw, Entries.get? q.name input = some raw ∧ q.loader.Supplies c log raw value := by
  have hs := h q.name value hv
  generalize hname : q.name = name at hs
  cases hs with
  | byDefault hq' hd => exact .inl (List.inj_on_of_nodup_map hp hq hq' hname ▸ hd)
  | loaded hq' hraw hv =>
    obtain rfl := List.inj_on_of_nodup_map hp hq hq' hname
    exact .inr ⟨_, hraw, hv⟩
  | undeclared hkey =>
    have := List.find?_eq_none.mp hkey q hq
    simp [hname] at this

/-- The object is what the plugin of the mapping builds of arguments that the mapping supplies, one for each parameter
at least. -/
inductive Mapping.Made (c : Catalogue) (log : List Mapping) (m : Mapping) (o : Object) : Prop
  | build {p : Plugin} {args : Arguments} {store : Store} (hp : m.plugin? c = some p)
    (hargs : p.Accounts c log m.input args) (complete : ∀ q ∈ p.parameters, args.contains q.name = true)
    (built : p.builder.build store args = .ok o) : Made c log m o

/-! ## Longer chronicles -/

theorem Stands.mono (hp : log <+: log') {key : String} {raw : Json} {h : Handle} (hs : Stands log key raw h) :
    Stands log' key raw h := by
  cases hs with
  | name hm hkey hn => exact .name (getElem?_stays hp hm) hkey hn
  | mapping hm => exact .mapping (getElem?_stays hp hm)

theorem Represents.mono (hp : log <+: log') {key : String} {raw : Json} {value : Value}
    (h : Represents log key raw value) : Represents log' key raw value := by
  cases h with
  | single hs => exact .single (hs.mono hp)
  | items hall => exact .items (hall.imp fun _ _ hs => hs.mono hp)

theorem Loader.Supplies.mono (hp : log <+: log') {l : Loader} {raw : Json} {value : Value}
    (h : l.Supplies c log raw value) : l.Supplies c log' raw value := by
  induction l generalizing raw value with
  | read reader => exact h
  | category name => exact Represents.mono hp h
  | listOf item ih =>
    obtain ⟨values, rfl, hall⟩ := h
    exact ⟨values, rfl, hall.imp fun _ _ hv => ih hv⟩

theorem Plugin.Supplied.mono (hp : log <+: log') {p : Plugin} {input : Members} {key : String} {value : Value}
    (h : p.Supplied c log input key value) : p.Supplied c log' input key value := by
  cases h with
  | byDefault hq hd => exact .byDefault hq hd
  | loaded hq hraw hv => exact .loaded hq hraw (hv.mono hp)
  | undeclared hkey hm => exact .undeclared hkey hm

/-! ## Chronicles -/

/-- The log tells of every object which mapping it was made of. -/
structure Chronicle (c : Catalogue) (docs : List Json) (log : List Mapping) (r : Registry) : Prop where
  catalogue : r.catalogue = c
  label : ∀ key, (r.category key).label = key
  length : r.store.objects.length = log.length
  named : ∀ key n h, (r.category key).named.get? n = some h → Stands log key (.str n) h
  listed : ∀ key, ∀ h ∈ (r.category key).objects, ∃ m, log[h.index]? = some m ∧ m.key = key
  within : ∀ m ∈ log, m.Within docs
  /-- The descriptions in a mapping stand for objects that were made before. -/
  made : ∀ (i : Nat) (m : Mapping), log[i]? = some m →
    ∃ o : Object, r.store.objects[i]? = some (o.placed m.key m.name?) ∧ m.Made c (log.take i) o

theorem Chronicle.enroll (h : Chronicle c docs log r) {m : Mapping} {o : Object} (hm : m.Within docs)
    (hmade : m.Made c log o) :
    Chronicle c docs (log ++ [m]) (r.enroll m.key o m.name?) where
  catalogue := Registry.sameTables_enroll.catalogue.trans h.catalogue
  label key := by rw [Registry.label_enroll, h.label]
  length := by simp [Registry.enroll, Store.push, h.length]
  named key n k hn := by
    rw [Registry.named_enroll] at hn
    split at hn
    · next hnew =>
      cases hn
      exact .name (m := m) (by simp [Store.next, h.length]) hnew.1 hnew.2
    · exact (h.named key n k hn).mono (List.prefix_append _ _)
  listed key k hk := by
    rw [Registry.objects_enroll, List.mem_append] at hk
    rcases hk with hk | hk
    · obtain ⟨m', hm', hkey⟩ := h.listed key k hk
      exact ⟨m', getElem?_stays (List.prefix_append _ _) hm', hkey⟩
    · split at hk
      · next hkey =>
        obtain rfl : k = r.store.next := by simpa using hk
        exact ⟨m, by simp [Store.next, h.length], hkey⟩
      · cases hk
  within m' hm' := by
    rcases List.mem_append.mp hm' with hm' | hm'
    · exact h.within m' hm'
    · obtain rfl : m' = m := by simpa using hm'
      exact hm
  made i m' hi := by
    have hlength := h.length
    by_cases hlt : i < log.length
    · rw [List.getElem?_append_left hlt] at hi
      obtain ⟨o', ho', hmade'⟩ := h.made i m' hi
      refine ⟨o', getElem?_stays (List.prefix_append _ _) ho', ?_⟩
      rwa [List.take_append_of_le_length (Nat.le_of_lt hlt)]
    · -- Only the new mapping lies behind the log.
      have hlast : i = log.length := by
        have := (List.getElem?_eq_some_iff.mp hi).1
        simp only [List.length_append, List.length_singleton] at this
        omega
      subst hlast
      obtain rfl : m = m' := by simpa using hi
      refine ⟨o, ?_, by simpa using hmade⟩
      simp only [Registry.enroll, Store.push, h.label, ← h.length, List.getElem?_concat_length]

end Blueprint
