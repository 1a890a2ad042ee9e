import Blueprint.Plugin.Basic

/-!
# The registry

The registry holds everything a session knows: the categories with their dispatch tables and objects, the aliases of
category names, the declarations of categories, and the store of objects. Categories are kept under their keys; an
alias leads to the key of its category.
-/

namespace Blueprint

/-- The compiler of one category: which plugin a tag stands for, and the objects compiled so far. -/
structure Category where
  label : String
  dispatch : Dict Plugin
  named : Dict Handle
  /-- Every object, in the order of registration. -/
  objects : List Handle

/-- What a plugin module says about a category. -/
structure CategoryDeclaration where
  name : String
  aliases : List String := []
  description : Option String := none

structure Registry where
  categories : Dict Category
  aliases : Dict String
  declarations : Dict CategoryDeclaration
  store : Store

namespace Category

def empty (label : String) : Category := ⟨label, .empty, .empty, []⟩

def tags (c : Category) : List String := c.dispatch.keys

def names (c : Category) : List String := c.named.keys

/-- Inserts a plugin before the first with a greater tag. -/
def insertByTag (p : Plugin) : List Plugin → List Plugin
  | [] => [p]
  | q :: qs => if p.tag < q.tag then p :: q :: qs else q :: insertByTag p qs

/-- The distinct plugins, ordered by type tag. -/
def plugins (c : Category) : List Plugin :=
  let found := c.dispatch.values.foldl (fun ps p => if ps.any p.same then ps else ps ++ [p]) []
  found.foldl (fun ps p => insertByTag p ps) []

def schema (store : Store) (c : Category) : Json :=
  .obj (Entries.setAll [] (c.plugins.map fun p => (p.tag, p.schema store)))

/-- Binds tags to a plugin, or none of them if one stands for another plugin. A tag that is bound already stays. -/
def bind (c : Category) (plugin : Plugin) (tags : List String) : Except Diagnostic Category :=
  let taken (tag : String) : Option (String × Plugin) :=
    (c.dispatch.get? tag).bind fun p => if p.same plugin then none else some (tag, p)
  match tags.findSome? taken with
  | some (tag, holder) =>
    .error (((Diagnostic.duplicateRegistration "type" tag).suggest
      s!"'{tag}' is already provided by plugin '{holder.tag}'" |>.inCategory c.label).inPlugin plugin.tag)
  | none =>
    let add (d : Dict Plugin) (tag : String) : Dict Plugin := if d.contains tag then d else d.insert tag plugin
    .ok { c with dispatch := tags.foldl add c.dispatch }

/-- Forgets the objects; the plugins stay. -/
def clear (c : Category) : Category := { c with named := .empty, objects := [] }

end Category

namespace Registry

def empty : Registry := ⟨.empty, .empty, .empty, .empty⟩

instance : Inhabited Registry := ⟨empty⟩

/-! ## Names -/

/-- The key that a category name leads to, through an alias or directly. -/
def canonical (r : Registry) (name : String) : String :=
  let key := Key.clean name
  (r.aliases.get? key).getD key

/-- The aliases of a category, in order. -/
def aliasesFor (r : Registry) (category : String) : List String :=
  let key := r.canonical category
  (r.aliases.entries.filter (·.2 == key)).map (·.1)

/-! ## Categories -/

def find? (r : Registry) (name : String) : Option Category := r.categories.get? (r.canonical name)

/-- The category under a key; one that is not there is empty. -/
def category (r : Registry) (key : String) : Category := (r.categories.get? key).getD (.empty key)

/-- The declaration of the category that a name leads to. -/
def declaration? (r : Registry) (name : String) : Option CategoryDeclaration :=
  r.declarations.get? (r.canonical name)

def setCategory (r : Registry) (key : String) (c : Category) : Registry :=
  { r with categories := r.categories.insert key c }

/-- Creates the category that a name leads to, if there is none. -/
def ensure (r : Registry) (name : String) : Registry :=
  let key := r.canonical name
  if r.categories.contains key then r else r.setCategory key (.empty key)

/-! ## Forgetting -/

/-- Forgets the objects of every category; the store keeps them for those who hold a handle. -/
def clearObjects (r : Registry) : Registry := { r with categories := r.categories.map Category.clear }

def clearCategory (r : Registry) (name : String) : Registry :=
  match r.find? name with
  | some c => r.setCategory (r.canonical name) c.clear
  | none => r

/-- Forgets every category, alias and declaration. -/
def reset (r : Registry) : Registry := { empty with store := r.store }

end Registry
end Blueprint
