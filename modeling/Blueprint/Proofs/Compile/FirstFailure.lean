import Blueprint.Proofs.Compile.Frames
import Blueprint.Proofs.Plugin.Arguments
import Blueprint.Proofs.Registry.Tables

/-!
# The first failure

Calls are made one after the other, so a list of them fails where the first one does, in the registry that the others
leave (`Action.Reaches`). Each part of the compiler fails in one of a few ways, which are told here of one level: what
the parts inside it do is left open. What the compiler refuses by itself is told with the diagnostic.
-/

namespace Blueprint

variable {α β : Type} {r r' : Registry} {e : Diagnostic}

/-! ## The first failure of several calls -/

namespace Action

/-- All calls before some item succeed; `P` is told of its position, of the item, and of the registry at that point. -/
def Reaches (f : α → Action β) (r : Registry) (xs : List α) (P : Nat → α → Registry → Prop) : Prop :=
  ∃ calls x rest r₁, xs = calls.map (·.1) ++ x :: rest ∧ Calls f r calls r₁ ∧ P calls.length x r₁

variable {f : α → Action β} {P : Nat → α → Registry → Prop}

theorem not_reaches_nil : ¬ Reaches f r [] P := by
  rintro ⟨calls, x, rest, r₁, he, -, -⟩
  simp at he

/-- Either the first item is the one, or it succeeds and the one is among the others. -/
theorem reaches_cons_iff {x : α} {xs : List α} :
    Reaches f r (x :: xs) P ↔ P 0 x r ∨ ∃ y r₁, f x r = (.ok y, r₁) ∧ Reaches f r₁ xs fun n => P (n + 1) := by
  constructor
  · rintro ⟨calls, x', rest, r₂, he, hcalls, hp⟩
    cases hcalls with
    | nil =>
      obtain ⟨rfl, rfl⟩ := List.cons.inj he
      exact .inl hp
    | cons h hcalls =>
      obtain ⟨rfl, rfl⟩ := List.cons.inj he
      exact .inr ⟨_, _, h, _, x', rest, r₂, rfl, hcalls, hp⟩
  · rintro (hp | ⟨y, r₁, h, calls, x', rest, r₂, rfl, hcalls, hp⟩)
    · exact ⟨[], x, xs, r, rfl, .nil r, hp⟩
    · exact ⟨(x, y) :: calls, x', rest, r₂, rfl, .cons h hcalls, hp⟩

/-- Only one item is the first that fails. -/
theorem Calls.first_failure_unique {calls calls' : List (α × β)} {x y : α} {rest rest' : List α}
    {r₁ r₁' r₂ r₂' : Registry} {e₁ e₂ : Diagnostic} (h : Calls f r calls r₁) (h' : Calls f r calls' r₁')
    (hx : f x r₁ = (.error e₁, r₂)) (hy : f y r₁' = (.error e₂, r₂'))
    (he : calls.map (·.1) ++ x :: rest = calls'.map (·.1) ++ y :: rest') :
    calls = calls' ∧ x = y ∧ rest = rest' ∧ r₁ = r₁' := by
  induction h generalizing calls' with
  | nil =>
    cases h' with
    | nil =>
      obtain ⟨rfl, rfl⟩ := List.cons.inj he
      exact ⟨rfl, rfl, rfl, rfl⟩
    | cons hok =>
      obtain ⟨rfl, -⟩ := List.cons.inj he
      cases hx.symm.trans hok
  | cons hok _ ih =>
    cases h' with
    | nil =>
      obtain ⟨rfl, -⟩ := List.cons.inj he
      cases hy.symm.trans hok
    | cons hok' t =>
      simp only [List.map_cons, List.cons_append, List.cons.injEq] at he
      obtain ⟨rfl, he⟩ := he
      cases hok.symm.trans hok'
      obtain ⟨rfl, rfl, rfl, rfl⟩ := ih t hx he
      exact ⟨rfl, rfl, rfl, rfl⟩

theorem each_eq_error_iff {xs : List α} :
    each f xs r = (.error e, r') ↔ Reaches f r xs fun _ x r₁ => f x r₁ = (.error e, r') := by
  induction xs generalizing r with
  | nil => exact iff_of_false (by rintro ⟨⟩) not_reaches_nil
  | cons x xs ih =>
    simp only [each, bind_eq_error_iff, reaches_cons_iff, ← ih]
    simp [pure_ne_error]

theorem eachFrom_eq_error_iff {g : Nat → Diagnostic → Diagnostic} {i : Nat} {xs : List α} :
    eachFrom (fun i x => (f x).onError (g i)) i xs r = (.error e, r') ↔
      Reaches f r xs fun n x r₁ => ∃ e₀, f x r₁ = (.error e₀, r') ∧ e = g (i + n) e₀ := by
  induction xs generalizing i r with
  | nil => exact iff_of_false (by rintro ⟨⟩) not_reaches_nil
  | cons x xs ih =>
    have hnext : ∀ n, i + 1 + n = i + (n + 1) := fun n => by omega
    simp only [eachFrom, bind_eq_error_iff, onError_eq_error_iff, onError_eq_ok_iff, reaches_cons_iff, ih,
      pure_ne_error, hnext, Nat.add_zero, and_false, exists_false, or_false]

end Action

/-! ## What is refused -/

theorem resolve_eq_error_iff {name : String} : resolve name r = (.error e, r') ↔
    r.categories.contains (r.canonical name) = false ∧ e = .unresolvedCompiler name ∧ r' = r := by
  cases h : r.categories.contains (r.canonical name) <;> simp [resolve, h, eq_comm]

theorem pluginFor_eq_error_iff {k : Category} {tag : String} : pluginFor k tag = .error e ↔
    k.dispatch.get? tag = none ∧ e = .unknownType k.label tag k.tags := by
  cases h : k.dispatch.get? tag <;> simp [pluginFor, h, eq_comm]

theorem lookUp_eq_error_iff {key name : String} : lookUp key name r = (.error e, r') ↔
    (r.category key).named.get? name = none ∧
      e = .unknownName (r.category key).label name (r.category key).names ∧ r' = r := by
  cases h : (r.category key).named.get? name <;> simp [lookUp, h, eq_comm]

theorem registerObject_eq_error_iff {key : String} {o : Object} {name : Option String} :
    registerObject key o name r = (.error e, r') ↔
      ∃ n, name = some n ∧ (r.category key).named.contains n = true ∧
        e = .duplicateName (r.category key).label n ∧ r' = r := by
  cases name with
  | none => simp [registerObject]
  | some n =>
    simp only [registerObject, Option.some.injEq, exists_eq_left']
    cases (r.category key).named.contains n <;> simp [@eq_comm _ e, @eq_comm _ r']

namespace Description

variable {label : String} {tags : List String} {members : Members}

theorem nameOf_eq_error (h : nameOf label members = .error e) :
    ∃ details, e = (Diagnostic.invalidInput details).inCategory label := by
  simp only [nameOf] at h
  split at h <;> cases h
  exact ⟨_, rfl⟩

/-- The diagnostic of a mapping without a type. -/
structure LacksType (label : String) (e : Diagnostic) : Prop where
  code : e.code = Diagnostic.missingRequiredParameterCode
  category : e.category? = some label
  plugin : e.plugin? = none
  parameter : e.parameter? = some "type"

theorem tagOf_eq_error (h : tagOf label tags members = .error e) :
    Entries.get? "type" members = none ∧ LacksType label e ∨
      ∃ details, e = (Diagnostic.invalidInput details).inCategory label := by
  simp only [tagOf] at h
  split at h <;> cases h
  · next absent => exact .inl ⟨absent, rfl, rfl, rfl, rfl⟩
  · exact .inr ⟨_, rfl⟩

/-- A mapping is malformed if it lacks its type, or if its name or its type is not text. -/
theorem malformed_cases (h : ofMembers label tags members = .error e) :
    (Entries.get? "type" members = none ∧ (∃ name, nameOf label members = .ok name) ∧
      tagOf label tags members = .error e ∧ LacksType label e) ∨
    ∃ details, e = (Diagnostic.invalidInput details).inCategory label := by
  simp only [ofMembers] at h
  cases hname : nameOf label members with
  | error e₁ =>
    rw [hname] at h
    cases h
    exact .inr (nameOf_eq_error hname)
  | ok name =>
    cases htag : tagOf label tags members with
    | ok tag =>
      rw [hname, htag] at h
      cases h
    | error e₁ =>
      rw [hname, htag] at h
      cases h
      rcases tagOf_eq_error htag with ⟨absent, lacks⟩ | invalid
      · exact .inl ⟨absent, ⟨name, rfl⟩, rfl, lacks⟩
      · exact .inr invalid

end Description

/-! ## The parts of the compiler -/

section
variable {compile : Compile}

namespace Plugin

variable {p : Plugin} {input : Members}

theorem loadParameters_eq_error_iff {qs : List Parameter} {args : Arguments} :
    p.loadParameters compile input args qs r = (.error e, r') ↔
      Action.Reaches (Parameter.loaded compile) r (qs.filterMap (Parameter.given? input)) fun _ call r₁ =>
        ∃ e₀, Parameter.loaded compile call r₁ = (.error e₀, r') ∧
          e = e₀.through [.parameter call.1.name, .plugin p.tag] := by
  induction qs generalizing args r with
  | nil => exact iff_of_false (by rintro ⟨⟩) Action.not_reaches_nil
  | cons q qs ih =>
    simp only [loadParameters, List.filterMap_cons, Parameter.given?]
    cases Entries.get? q.name input with
    | none => exact ih
    | some raw =>
      simp only [Option.map_some, Action.bind_eq_error_iff, Parameter.resolveWith, Action.onError_eq_error_iff,
        Action.onError_eq_ok_iff, Action.reaches_cons_iff, ih]
      refine or_congr ⟨?_, ?_⟩ Iff.rfl
      · rintro ⟨_, ⟨e₀, h, rfl⟩, rfl⟩
        exact ⟨e₀, h, rfl⟩
      · rintro ⟨e₀, h, rfl⟩
        exact ⟨_, ⟨e₀, h, rfl⟩, rfl⟩

/-- The first required parameter that an input has no value for. -/
def missing? (p : Plugin) (input : Members) : Option Parameter :=
  p.requiredParameters.find? fun q => (Entries.get? q.name input).isNone

theorem argumentsWith_eq_error_iff :
    p.argumentsWith compile input r = (.error e, r') ↔
      (∃ q, p.missing? input = some q ∧ e = .missingRequiredParameter p.tag q.name ∧ r' = r) ∨
      (p.missing? input = none ∧ Action.Reaches (Parameter.loaded compile) r (p.given input) fun _ call r₁ =>
        ∃ e₀, Parameter.loaded compile call r₁ = (.error e₀, r') ∧
          e = e₀.through [.parameter call.1.name, .plugin p.tag]) := by
  simp only [argumentsWith, missing?, given]
  cases p.requiredParameters.find? fun q => (Entries.get? q.name input).isNone with
  | some q => simp [Action.fail, eq_comm]
  | none => simp [Action.bind_eq_error_iff, loadParameters_eq_error_iff, Action.pure_ne_error]

theorem buildWith_eq_error_iff :
    p.buildWith compile input r = (.error e, r') ↔ p.argumentsWith compile input r = (.error e, r') ∨
      ∃ args, p.argumentsWith compile input r = (.ok args, r') ∧
        ∃ why, p.builder.build r'.store args = .error why ∧ e = .ofBuildError p.tag why := by
  have hbuild : ∀ args r₁, (do
      let store ← Action.ask Registry.store
      Action.ofExcept ((p.builder.build store args).mapError (Diagnostic.ofBuildError p.tag)) : Action Object) r₁ =
        ((p.builder.build r₁.store args).mapError (Diagnostic.ofBuildError p.tag), r₁) := fun _ _ => rfl
  rw [buildWith, Action.bind_eq_error_iff]
  simp only [hbuild]
  refine or_congr Iff.rfl ⟨?_, ?_⟩
  · rintro ⟨args, r₁, hargs, hfail⟩
    cases hwhy : p.builder.build r₁.store args with
    | ok object => simp [hwhy, Except.mapError] at hfail
    | error why =>
      simp only [hwhy, Except.mapError, Prod.mk.injEq, Except.error.injEq] at hfail
      obtain ⟨rfl, rfl⟩ := hfail
      exact ⟨args, hargs, why, hwhy, rfl⟩
  · rintro ⟨args, hargs, why, hwhy, rfl⟩
    exact ⟨args, r', hargs, by rw [hwhy]; rfl⟩

end Plugin

/-- The description that the compiler of a category reads in a mapping, and the plugin that it stands for. -/
def Category.Reads (c : Category) (members : Members) (d : Description) (p : Plugin) : Prop :=
  Description.ofMembers c.label c.tags members = .ok d ∧ pluginFor c d.tag = .ok p

theorem Category.Reads.unique {c : Category} {members : Members} {d d' : Description} {p p' : Plugin}
    (h : c.Reads members d p) (h' : c.Reads members d' p') : d = d' ∧ p = p' := by
  cases h.1.symm.trans h'.1
  cases h.2.symm.trans h'.2
  exact ⟨rfl, rfl⟩

theorem compileMembersWith_eq_error_iff {key : String} {members : Members} :
    compileMembersWith compile key members r = (.error e, r') ↔
      (Description.ofMembers (r.category key).label (r.category key).tags members = .error e ∧ r' = r) ∨
      (∃ d, Description.ofMembers (r.category key).label (r.category key).tags members = .ok d ∧
        pluginFor (r.category key) d.tag = .error e ∧ r' = r) ∨
      ∃ d p, (r.category key).Reads members d p ∧
        ((∃ e₀, p.buildWith compile d.input r = (.error e₀, r') ∧ e = e₀.through [.mapping (r.category key).label d]) ∨
        ∃ o r₁, p.buildWith compile d.input r = (.ok o, r₁) ∧ registerObject key o d.name r₁ = (.error e, r')) := by
  simp [compileMembersWith, Category.Reads, Action.bind_eq_error_iff, Action.ask, Action.ofExcept,
    Action.onError_eq_error_iff, Action.onError_eq_ok_iff, Frame.pass, @eq_comm _ r, and_or_left, exists_or, and_assoc]

theorem callWith_eq_error_iff {key : String} {raw : Json} :
    callWith compile key raw r = (.error e, r') ↔
      Action.Reaches (compile key) r raw.itemsOrSelf fun _ x r₁ => compile key x r₁ = (.error e, r') := by
  cases raw with
  | arr items =>
    simp [callWith, Json.itemsOrSelf, Action.bind_eq_error_iff, Action.each_eq_error_iff, Action.pure_ne_error]
  | _ =>
    simp [callWith, Json.itemsOrSelf, Action.bind_eq_error_iff, Action.reaches_cons_iff, Action.not_reaches_nil,
      Action.pure_ne_error]

end

end Blueprint
