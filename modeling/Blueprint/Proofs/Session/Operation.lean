import Blueprint.Document.Basic
import Blueprint.Proofs.Compile.Registering
import Blueprint.Proofs.Registry.Tables
import Mathlib.Logic.Relation

/-!
# Sessions

A session is a list of operations on a registry that is empty at first; each of them may succeed or fail. Except for the
operations that forget, all that an operation does is a sequence of small changes (`Registry.Change`): a category is
created or declared, tags are bound, or one object is registered. A `Permit` bounds the changes of an operation
(`Operation.Within.changes`).
-/

namespace Blueprint

open Relation (ReflTransGen)

/-! ## Operations -/

/-- What can be asked of a registry. Categories are referred to by any of their names; objects are only registered and
compiled in a category that exists. -/
inductive Operation where
  | declare (declaration : CategoryDeclaration)
  | register (plugin : Plugin)
  | registerAll (items : List Registration)
  | bind (category : String) (plugin : Plugin) (tags : List String)
  | create (category : String)
  | registerObject (category : String) (object : Object) (name : Option String)
  | compile (category : String) (raw : Json)
  | call (category : String) (raw : Json)
  | compileAll (order : CompileOrder) (document : Json)
  | clearObjects
  | clearCategory (category : String)
  | reset

namespace Operation

/-- An operation as an action; what it returns is left out. -/
def action : Operation → Action Unit
  | .declare d => Registry.declare d
  | .register p => Registry.register p
  | .registerAll items => Registry.registerAll items
  | .bind category p tags => Registry.bindTags category p tags
  | .create category => Action.change (·.ensure category)
  | .registerObject category o name => do
    let _ ← resolve category >>= fun key => Blueprint.registerObject key o name
  | .compile category raw => do
    let _ ← resolve category >>= fun key => Blueprint.compile key raw
  | .call category raw => do
    let _ ← callNamed Blueprint.compile category raw
  | .compileAll order document => do
    let _ ← Document.compile order document
  | .clearObjects => Action.change Registry.clearObjects
  | .clearCategory category => Action.change (·.clearCategory category)
  | .reset => Action.change Registry.reset

/-- The registry after an operation, whether it succeeds or fails. -/
def apply (op : Operation) (r : Registry) : Registry := (op.action r).2

def forgets : Operation → Bool
  | .clearObjects | .clearCategory _ | .reset => true
  | _ => false

end Operation

def Registry.after (ops : List Operation) : Registry := ops.foldl (fun r op => op.apply r) .empty

/-- What holds of the empty registry and is preserved by the operations of a session holds at its end. -/
theorem Registry.after_induction {P : Registry → Prop} {Q : Operation → Prop} (empty : P .empty)
    (step : ∀ op r, Q op → P r → P (op.apply r)) {ops : List Operation} (h : ∀ op ∈ ops, Q op) : P (after ops) := by
  have hfold : ∀ r, P r → P (ops.foldl (fun r op => op.apply r) r) := by
    induction ops with
    | nil => exact fun r hr => hr
    | cons op ops ih =>
      intro r hr
      exact ih (fun op hop => h op (by simp [hop])) _ (step op r (h op (by simp)) hr)
  exact hfold _ empty

/-! ## Changes -/

/-- What may be brought into a registry. -/
structure Permit where
  /-- Categories may be created. -/
  creates : Prop
  declaration : CategoryDeclaration → Prop
  plugin : Plugin → Prop
  /-- Objects that are registered as they are, and not compiled. -/
  object : Object → Prop

def Permit.all : Permit := ⟨True, fun _ => True, fun _ => True, fun _ => True⟩

namespace Registry

/-- One small change that does not forget anything. -/
inductive Change (g : Permit) (r : Registry) : Registry → Prop
  | create (hg : g.creates) (name : String) : Change g r (r.ensure name)
  | declare {d : CategoryDeclaration} {keys : List String} (hg : g.declaration d)
    (undeclared : r.declarations.contains (r.canonical d.name) = false)
    (unaliased : r.aliases.contains (Key.clean d.name) = false)
    (hkeys : r.aliasKeys d.name (r.canonical d.name) [] d.aliases = .ok keys) :
    Change g r (r.addDeclaration (r.canonical d.name) d keys)
  | bind {p : Plugin} {tags : List String} {key : String} {c : Category} (hg : g.plugin p)
    (present : r.categories.contains key = true) (hc : (r.category key).bind p tags = .ok c) :
    Change g r (r.setCategory key c)
  | enroll {o : Object} {key : String} {name : Option String} (hg : g.object o)
    (present : r.categories.contains key = true) (free : r.Free key name) :
    Change g r (r.enroll key o name)
  | compile {m : Mapping} {r' : Registry} (h : r.Step m r') : Change g r r'

abbrev Changes (g : Permit) : Registry → Registry → Prop := ReflTransGen (Change g)

theorem Run.changes {r r' : Registry} {ms : List Mapping} (h : r.Run ms r') (g : Permit) : r.Changes g r' := by
  induction h with
  | nil => exact .refl
  | cons h _ ih => exact ih.head (.compile h)

end Registry

/-! ## Actions that only change -/

/-- All that an action does to a registry is a sequence of permitted changes. -/
def Action.Changes {α : Type} (a : Action α) (g : Permit) : Prop := ∀ r : Registry, r.Changes g (a r).2

namespace Action.Changes

variable {α β : Type} {g : Permit} {a : Action α}

theorem of_read (f : Registry → Except Diagnostic α) : Changes (fun r => (f r, r)) g := fun _ => ReflTransGen.refl

theorem bind {f : α → Action β} (ha : a.Changes g) (hf : ∀ x, (f x).Changes g) : (a >>= f).Changes g := by
  intro r
  have hr := ha r
  have hb : (a >>= f) r = a.andThen f r := rfl
  rw [hb, Action.andThen]
  split
  · next x r₁ he =>
    rw [he] at hr
    exact hr.trans (hf x r₁)
  · next e r₁ he =>
    rw [he] at hr
    exact hr

theorem onError (ha : a.Changes g) (f : Diagnostic → Diagnostic) : (a.onError f).Changes g := by
  intro r
  have hr := ha r
  simp only [Action.onError]
  split <;> simp_all

theorem each {f : α → Action β} (hf : ∀ x, (f x).Changes g) (xs : List α) : (Action.each f xs).Changes g := by
  induction xs with
  | nil => exact of_read fun _ => .ok []
  | cons x xs ih => exact (hf x).bind fun y => ih.bind fun ys => of_read fun _ => .ok (y :: ys)

end Action.Changes

/-! ## Operations that only change -/

theorem resolve_changes (g : Permit) (name : String) : (resolve name).Changes g := by
  intro r
  simp only [resolve]
  split <;> exact .refl

theorem registerObject_changes {g : Permit} {o : Object} (hg : g.object o) (category : String) (name : Option String) :
    (resolve category >>= fun key => registerObject key o name).Changes g := by
  intro r
  simp only [bind, Action.andThen, resolve]
  by_cases hk : r.categories.contains (r.canonical category) = true
  · simp only [if_pos hk]
    rcases registerObject_cases r (r.canonical category) o name with ⟨free, he⟩ | ⟨_, _, _, he⟩
    · rw [he]
      exact .single (.enroll hg hk free)
    · rw [he]
  · rw [if_neg hk]

theorem compile_changes (g : Permit) (key : String) (raw : Json) : (compile key raw).Changes g := by
  intro r
  obtain ⟨_, _, run, _⟩ := compile_registers r key raw
  exact run.changes g

theorem callNamed_changes (g : Permit) (name : String) (raw : Json) : (callNamed compile name raw).Changes g := by
  refine (resolve_changes g name).bind fun key => ?_
  cases raw with
  | arr items =>
    refine (Action.Changes.each (compile_changes g key) items).bind fun hs => ?_
    exact .of_read fun _ => .ok _
  | _ => exact (compile_changes g key _).bind fun h => .of_read fun _ => .ok _

namespace Document

theorem compileAll_changes (g : Permit) (key : String) (raws : List Json) : (compileAll key raws).Changes g := by
  refine Action.Changes.each (fun raw => ?_) raws
  exact (Action.Changes.of_read _).bind fun label => (compile_changes g key raw).onError _

theorem compile_changes {g : Permit} (hg : g.creates) (order : CompileOrder) (document : Json) :
    (compile order document).Changes g := by
  have hcreate : ∀ name, (Action.change (·.ensure name)).Changes g := fun name r => .single (.create hg name)
  have hsection : ∀ sections name, (compileSection sections name).Changes g := fun sections name =>
    (hcreate name).bind fun _ => (Action.Changes.of_read _).bind fun key => compileAll_changes g key _
  cases document with
  | obj sections =>
    refine (Action.Changes.of_read _).bind fun names => ?_
    exact (Action.Changes.each (hsection sections) names).bind fun hs => .of_read fun _ => .ok _
  | _ => exact .of_read fun _ => .error _

end Document

/-- An item of a batch is permitted. -/
def Registration.Within (g : Permit) : Registration → Prop
  | .category d => g.declaration d
  | .plugin p => g.plugin p

namespace Registry

theorem declare_changes {g : Permit} {d : CategoryDeclaration} (hg : g.declaration d) : (declare d).Changes g := by
  intro r
  simp only [declare]
  split
  · exact .refl
  · next h =>
    simp only [Bool.or_eq_true, not_or, Bool.not_eq_true] at h
    split
    · exact .refl
    · next hkeys => exact .single (.declare hg h.1 h.2 hkeys)

theorem bindTags_changes {g : Permit} (hc : g.creates) {p : Plugin} (hg : g.plugin p) (category : String)
    (tags : List String) : (bindTags category p tags).Changes g := by
  intro r
  have hcreate : r.Changes g (r.ensure category) := .single (.create hc category)
  simp only [bindTags]
  split
  · exact hcreate
  · next hbind =>
    refine hcreate.tail (.bind hg ?_ hbind)
    simp [contains_ensure, canonical_ensure]

theorem registerEach_changes {g : Permit} (hc : g.creates) {items : List Registration}
    (hg : ∀ item ∈ items, item.Within g) : (registerEach items).Changes g := by
  induction items with
  | nil => exact .of_read fun _ => .ok ()
  | cons item items ih =>
    have hitem : (registerOne item).Changes g := by
      have h := hg item (by simp)
      cases item with
      | category d => exact declare_changes h
      | plugin p => exact bindTags_changes hc h _ _
    exact hitem.bind fun _ => ih fun item hitem => hg item (by simp [hitem])

end Registry

namespace Operation

/-- All that an operation brings in is permitted. -/
def Within (g : Permit) : Operation → Prop
  | .declare d => g.declaration d
  | .register p | .bind _ p _ => g.creates ∧ g.plugin p
  | .registerAll items => g.creates ∧ ∀ item ∈ items, item.Within g
  | .create _ | .compileAll _ _ => g.creates
  | .registerObject _ o _ => g.object o
  | _ => True

theorem Within.changes {g : Permit} {op : Operation} (h : op.Within g) (hf : op.forgets = false) (r : Registry) :
    r.Changes g (op.apply r) := by
  suffices hop : op.action.Changes g from hop r
  cases op with
  | declare d => exact Registry.declare_changes h
  | register p => exact Registry.bindTags_changes h.1 h.2 _ _
  | registerAll items =>
    refine Registry.registerEach_changes h.1 fun item hitem => h.2 item ?_
    simp only [List.mem_append, List.mem_filter] at hitem
    rcases hitem with hitem | hitem <;> exact hitem.1
  | bind category p tags => exact Registry.bindTags_changes h.1 h.2 _ _
  | create category => exact fun r => .single (.create h category)
  | registerObject category o name =>
    exact (registerObject_changes h category name).bind fun _ => .of_read fun _ => .ok ()
  | compile category raw =>
    refine ((resolve_changes g category).bind fun key => compile_changes g key raw).bind fun _ => ?_
    exact .of_read fun _ => .ok ()
  | call category raw => exact (callNamed_changes g category raw).bind fun _ => .of_read fun _ => .ok ()
  | compileAll order document =>
    exact (Document.compile_changes h order document).bind fun _ => .of_read fun _ => .ok ()
  | clearObjects | clearCategory | reset => cases hf

theorem within_all (op : Operation) : op.Within .all := by
  cases op with
  | registerAll items =>
    refine ⟨trivial, fun item _ => ?_⟩
    cases item <;> exact trivial
  | register p | bind category p tags => exact ⟨trivial, trivial⟩
  | _ => exact trivial

/-- What permitted changes preserve, and forgetting too where the operation forgets, is preserved by the operation. -/
theorem apply_induction {g : Permit} {op : Operation} (hop : op.Within g) {P : Registry → Prop}
    (change : ∀ r r', Registry.Change g r r' → P r → P r')
    (clearObjects : op = .clearObjects → ∀ r, P r → P r.clearObjects)
    (clearCategory : ∀ category, op = .clearCategory category → ∀ r, P r → P (r.clearCategory category))
    (reset : op = .reset → ∀ r, P r → P r.reset) {r : Registry} (h : P r) : P (op.apply r) := by
  by_cases hf : op.forgets = false
  · have hchanges := hop.changes hf r
    generalize op.apply r = r' at hchanges
    induction hchanges with
    | refl => exact h
    | tail _ hchange ih => exact change _ _ hchange ih
  · cases op with
    | clearObjects => exact clearObjects rfl r h
    | clearCategory category => exact clearCategory category rfl r h
    | reset => exact reset rfl r h
    | _ => exact absurd rfl hf

end Operation
end Blueprint
