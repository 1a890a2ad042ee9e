import Blueprint.Proofs.Session.Operation

/-!
# The objects of a session

In every session the lists of objects, the names and the store agree (`Registry.Coherent`): a name is bound to an object
of its category that bears it, an object bears the label of its category, and no object is listed twice. An operation
that does not forget only adds to them.
-/

namespace Blueprint

/-! ## Coherence -/

namespace Registry

/-- Names, lists of objects and the store agree. -/
structure Coherent (r : Registry) : Prop where
  /-- A name is bound to an object of the category that bears the name. -/
  named : ∀ key n h, (r.category key).named.get? n = some h →
    h ∈ (r.category key).objects ∧ ∃ o, r.store.get? h = some o ∧ o.name = some n
  /-- An object bears the label of its category. -/
  placed : ∀ key, ∀ h ∈ (r.category key).objects,
    ∃ o, r.store.get? h = some o ∧ o.category = some (r.category key).label
  /-- Objects are listed in the order in which they were registered. -/
  ordered : ∀ key, (r.category key).objects.Pairwise (·.index < ·.index)
  /-- No object belongs to two categories. -/
  apart : ∀ key key', ∀ h ∈ (r.category key).objects, h ∈ (r.category key').objects → key = key'

variable {r r' : Registry}

theorem Coherent.nodup (h : r.Coherent) (key : String) : (r.category key).objects.Nodup := by
  refine (h.ordered key).imp fun hlt he => ?_
  rw [he] at hlt
  exact Nat.lt_irrefl _ hlt

theorem Coherent.index_lt (h : r.Coherent) {key : String} {k : Handle} (hk : k ∈ (r.category key).objects) :
    k.index < r.store.objects.length := by
  obtain ⟨o, ho, -⟩ := h.placed key k hk
  exact (List.getElem?_eq_some_iff.mp ho).1

theorem Coherent.of_empty {s : Registry} (h : ∀ key, s.category key = .empty key) : s.Coherent where
  named key n k hn := by simp [h, Category.empty] at hn
  placed key k hk := by simp [h, Category.empty] at hk
  ordered key := by simp [h, Category.empty]
  apart key key' k hk := by simp [h, Category.empty] at hk

/-! ## Categories that are kept or cleared -/

/-- The store is the same, and every category has the objects it had, or none. -/
structure Keeps (r r' : Registry) : Prop where
  store : r'.store = r.store
  label : ∀ key, (r'.category key).label = (r.category key).label
  objects : ∀ key,
    (r'.category key).named = (r.category key).named ∧ (r'.category key).objects = (r.category key).objects ∨
    (r'.category key).named = .empty ∧ (r'.category key).objects = []

theorem Keeps.coherent (k : r.Keeps r') (h : r.Coherent) : r'.Coherent where
  named key n o hn := by
    rcases k.objects key with ⟨hnamed, hobjects⟩ | ⟨hnamed, -⟩
    · rw [hnamed] at hn
      rw [hobjects, k.store]
      exact h.named key n o hn
    · simp [hnamed] at hn
  placed key o ho := by
    rcases k.objects key with ⟨-, hobjects⟩ | ⟨-, hobjects⟩
    · rw [hobjects] at ho
      rw [k.store, k.label]
      exact h.placed key o ho
    · simp [hobjects] at ho
  ordered key := by
    rcases k.objects key with ⟨-, hobjects⟩ | ⟨-, hobjects⟩
    · rw [hobjects]
      exact h.ordered key
    · simp [hobjects]
  apart key key' o ho ho' := by
    rcases k.objects key with ⟨-, hobjects⟩ | ⟨-, hobjects⟩
    · rcases k.objects key' with ⟨-, hobjects'⟩ | ⟨-, hobjects'⟩
      · rw [hobjects] at ho
        rw [hobjects'] at ho'
        exact h.apart key key' o ho ho'
      · simp [hobjects'] at ho'
    · simp [hobjects] at ho

theorem keeps_clearObjects (r : Registry) : r.Keeps r.clearObjects where
  store := rfl
  label key := by rw [category_clearObjects]; rfl
  objects key := .inr (by rw [category_clearObjects]; exact ⟨rfl, rfl⟩)

theorem keeps_clearCategory (r : Registry) (name : String) : r.Keeps (r.clearCategory name) where
  store := r.store_clearCategory name
  label key := by rw [category_clearCategory]; split <;> rfl
  objects key := by
    rw [category_clearCategory]
    split
    · exact .inr ⟨rfl, rfl⟩
    · exact .inl ⟨rfl, rfl⟩

/-! ## One object more -/

variable {key : String} {o : Object} {name : Option String}

theorem mem_objects_enroll {k : String} {h : Handle} :
    h ∈ ((r.enroll key o name).category k).objects ↔ h ∈ (r.category k).objects ∨ key = k ∧ h = r.store.next := by
  rw [objects_enroll, List.mem_append]
  by_cases hk : key = k <;> simp [hk]

theorem Coherent.enroll (h : r.Coherent) (free : r.Free key name) : (r.enroll key o name).Coherent where
  named k n x hn := by
    rw [named_enroll] at hn
    split at hn
    · next hc =>
      obtain ⟨rfl, rfl⟩ := hc
      obtain rfl : r.store.next = x := by simpa using hn
      exact ⟨mem_objects_enroll.mpr (.inr ⟨rfl, rfl⟩), _, get?_enroll_next _ _ _ _, rfl⟩
    · obtain ⟨hm, y, hy, hname⟩ := h.named k n x hn
      exact ⟨mem_objects_enroll.mpr (.inl hm), y, Store.get?_of_prefix (extends_enroll free).store hy, hname⟩
  placed k x hx := by
    rw [label_enroll]
    rcases mem_objects_enroll.mp hx with hx | ⟨rfl, rfl⟩
    · obtain ⟨y, hy, hcat⟩ := h.placed k x hx
      exact ⟨y, Store.get?_of_prefix (extends_enroll free).store hy, hcat⟩
    · exact ⟨_, get?_enroll_next _ _ _ _, rfl⟩
  ordered k := by
    rw [objects_enroll, List.pairwise_append]
    refine ⟨h.ordered k, by split <;> simp, fun x hx y hy => ?_⟩
    split at hy
    -- The store hands out handles in increasing order, so the new one is greater than all that are listed.
    · obtain rfl : y = r.store.next := by simpa using hy
      exact h.index_lt hx
    · simp at hy
  apart k k' x hx hx' := by
    rcases mem_objects_enroll.mp hx with hx | ⟨rfl, rfl⟩
    · rcases mem_objects_enroll.mp hx' with hx' | ⟨rfl, rfl⟩
      · exact h.apart k k' x hx hx'
      · exact absurd (h.index_lt hx) (Nat.lt_irrefl _)
    · rcases mem_objects_enroll.mp hx' with hx' | ⟨rfl, -⟩
      · exact absurd (h.index_lt hx') (Nat.lt_irrefl _)
      · rfl

/-! ## Changes -/

/-- No object was registered or forgotten. -/
structure SameObjects (r r' : Registry) : Prop where
  store : r'.store = r.store
  present : ∀ key, r.categories.contains key = true → r'.categories.contains key = true
  label : ∀ key, (r'.category key).label = (r.category key).label
  named : ∀ key, (r'.category key).named = (r.category key).named
  objects : ∀ key, (r'.category key).objects = (r.category key).objects

theorem SameObjects.of_category (hs : r'.store = r.store) (hc : ∀ key, r'.category key = r.category key)
    (present : ∀ key, r.categories.contains key = true → r'.categories.contains key = true) : r.SameObjects r' where
  store := hs
  present := present
  label key := by rw [hc]
  named key := by rw [hc]
  objects key := by rw [hc]

theorem SameObjects.keeps (h : r.SameObjects r') : r.Keeps r' :=
  ⟨h.store, h.label, fun key => .inl ⟨h.named key, h.objects key⟩⟩

theorem SameObjects.extends (h : r.SameObjects r') : r.Extends r' where
  store := h.store ▸ List.prefix_refl _
  present := h.present
  label := h.label
  objects key := h.objects key ▸ List.prefix_refl _
  named key n k hn := by rw [h.named]; exact hn

variable {g : Permit}

/-- A change leaves all objects as they are, or registers one object under a free name: one that is permitted, or that
of a mapping. -/
theorem Change.objects_cases (h : Change g r r') :
    r.SameObjects r' ∨
    ∃ key o name, r.Free key name ∧ r' = r.enroll key o name ∧ (g.object o ∨ ∃ m, m.key = key ∧ r.Step m r') := by
  cases h with
  | create _ name =>
    left
    refine .of_category (r.store_ensure name) (r.category_ensure name) fun k hk => ?_
    simp [contains_ensure, hk]
  | declare =>
    left
    refine .of_category (r.store_addDeclaration _ _ _) (r.category_addDeclaration _ _ _) fun k hk => ?_
    simp [contains_addDeclaration, hk]
  | bind _ present hc =>
    left
    have hpresent := contains_setCategory_of_contains present
    refine ⟨rfl, fun k hk => by rw [hpresent, hk], fun k => ?_, fun k => ?_, fun k => ?_⟩
    all_goals
      obtain ⟨_, he, -⟩ := category_bind hc k
      rw [he]
  | enroll hg _ free => exact .inr ⟨_, _, _, free, rfl, .inl hg⟩
  | @compile m _ h =>
    right
    have hstep := h
    cases h with
    | @register _ _ o _ _ _ free => exact ⟨m.key, o, m.name?, free, rfl, .inr ⟨m, rfl, hstep⟩⟩

theorem Change.coherent (h : Change g r r') (hr : r.Coherent) : r'.Coherent := by
  rcases h.objects_cases with hsame | ⟨key, o, name, free, rfl, -⟩
  · exact hsame.keeps.coherent hr
  · exact hr.enroll free

theorem Change.extends (h : Change g r r') : r.Extends r' := by
  rcases h.objects_cases with hsame | ⟨key, o, name, free, rfl, -⟩
  · exact hsame.extends
  · exact extends_enroll free

theorem Change.sameTables (hd : ∀ d, ¬ g.declaration d) (hp : ∀ p, ¬ g.plugin p) (h : Change g r r') :
    r.SameTables r' := by
  cases h with
  | create _ name => exact r.sameTables_ensure name
  | declare hg => exact absurd hg (hd _)
  | bind hg => exact absurd hg (hp _)
  | enroll => exact sameTables_enroll
  | compile h => exact h.sameTables

theorem Changes.sameTables (hd : ∀ d, ¬ g.declaration d) (hp : ∀ p, ¬ g.plugin p) (h : r.Changes g r') :
    r.SameTables r' := by
  induction h with
  | refl => exact .refl r
  | tail _ hchange ih => exact ih.trans (hchange.sameTables hd hp)

theorem Change.contains_eq (hc : ¬ g.creates) (hd : ∀ d, ¬ g.declaration d) (h : Change g r r') (k : String) :
    r'.categories.contains k = r.categories.contains k := by
  cases h with
  | create hg => exact absurd hg hc
  | declare hg => exact absurd hg (hd _)
  | bind _ present => exact contains_setCategory_of_contains present _ k
  | enroll _ present => exact contains_enroll_of_contains _ _ _ _ present k
  | compile h => exact h.contains_eq k

/-- Without new plugins and objects to register, a category without plugins is left alone. -/
theorem Change.category_of_empty (hp : ∀ p, ¬ g.plugin p) (ho : ∀ o, ¬ g.object o) (h : Change g r r')
    (he : (r.category key).dispatch = .empty) : r'.category key = r.category key := by
  cases h with
  | create _ name => exact category_ensure _ name key
  | declare => exact category_addDeclaration _ _ _ _ _
  | bind hg => exact absurd hg (hp _)
  | enroll hg => exact absurd hg (ho _)
  | compile h => exact h.category_of_empty he

end Registry

/-! ## Operations -/

namespace Operation

/-- Whether an operation may create categories, but brings in nothing else than compiled objects. -/
def creates : Operation → Bool
  | .create _ | .compileAll _ _ => true
  | _ => false

/-- Whether an operation leaves the plugins, aliases and declarations alone. -/
def keepsTables : Operation → Bool
  | .create _ | .registerObject _ _ _ | .compile _ _ | .call _ _ | .compileAll _ _ | .clearObjects
  | .clearCategory _ => true
  | _ => false

variable {op : Operation}

theorem apply_coherent (op : Operation) {r : Registry} (h : r.Coherent) : (op.apply r).Coherent :=
  apply_induction op.within_all (fun _ _ hchange => hchange.coherent) (fun _ r => r.keeps_clearObjects.coherent)
    (fun category _ r => (r.keeps_clearCategory category).coherent) (fun _ r _ => .of_empty r.category_reset) h

theorem apply_extends (hf : op.forgets = false) (r : Registry) : r.Extends (op.apply r) := by
  refine apply_induction (P := r.Extends) op.within_all (fun _ _ hchange h => h.trans hchange.extends) ?_ ?_ ?_
    (.refl r)
  · rintro rfl
    cases hf
  · rintro _ rfl
    cases hf
  · rintro rfl
    cases hf

/-- What an operation that leaves the tables alone may bring in. -/
def permit (op : Operation) : Permit where
  creates := op.creates = true
  declaration _ := False
  plugin _ := False
  object _ := ∃ category o name, op = .registerObject category o name

theorem within_permit (hk : op.keepsTables = true) : op.Within op.permit := by
  cases op with
  | create | compileAll => exact rfl
  | registerObject category o name => exact ⟨category, o, name, rfl⟩
  | compile | call | clearObjects | clearCategory => exact trivial
  | _ => cases hk

theorem apply_sameTables (hk : op.keepsTables = true) (r : Registry) : r.SameTables (op.apply r) := by
  refine apply_induction (P := r.SameTables) (within_permit hk)
    (fun _ _ hchange h => h.trans (hchange.sameTables (fun _ h => h) fun _ h => h))
    (fun _ r' h => h.trans r'.sameTables_clearObjects)
    (fun category _ r' h => h.trans (r'.sameTables_clearCategory category)) ?_ (.refl r)
  rintro rfl
  cases hk

theorem apply_contains_eq (hk : op.keepsTables = true) (hc : op.creates = false) (r : Registry) (key : String) :
    (op.apply r).categories.contains key = r.categories.contains key := by
  have hcreates : ¬ op.permit.creates := fun h => by simp [permit, hc] at h
  refine apply_induction (P := fun r' => r'.categories.contains key = r.categories.contains key) (within_permit hk)
    (fun _ _ hchange h => (hchange.contains_eq hcreates (fun _ h => h) key).trans h)
    (fun _ r' h => (r'.contains_clearObjects key).trans h)
    (fun category _ r' h => (r'.contains_clearCategory category key).trans h) ?_ rfl
  rintro rfl
  cases hk

theorem apply_category_of_creates (hc : op.creates = true) {r : Registry} {key : String}
    (he : r.category key = .empty key) : (op.apply r).category key = .empty key := by
  have hk : op.keepsTables = true := by cases op <;> first | rfl | cases hc
  have ho : ∀ o, ¬ op.permit.object o := by
    rintro _ ⟨category, o, name, rfl⟩
    cases hc
  refine apply_induction (P := fun r' => r'.category key = .empty key) (within_permit hk) (fun r₁ r₂ hchange h => ?_)
    ?_ ?_ ?_ he
  · rw [hchange.category_of_empty (fun _ h => h) ho (by rw [h]; rfl), h]
  · rintro rfl
    cases hc
  · rintro _ rfl
    cases hc
  · rintro rfl
    cases hc

/-- A category that is new after an operation that leaves the tables alone is empty. -/
theorem apply_category_of_new (hk : op.keepsTables = true) {r : Registry} {key : String}
    (hn : r.categories.contains key = false) : (op.apply r).category key = .empty key := by
  by_cases hc : op.creates = true
  · exact apply_category_of_creates hc (Registry.category_of_not_contains hn)
  · apply Registry.category_of_not_contains
    rw [apply_contains_eq hk (by simpa using hc), hn]

end Operation

/-- At the end of every session names, lists of objects and the store agree, and no object is listed twice. An operation
that does not forget, whether it succeeds or fails, keeps what was registered: lists of objects become longer at their
ends only, and names stay bound to the same objects. The operations that leave the tables alone change no plugin, alias
or declaration; some of them may create categories, which are empty. -/
theorem session_objects (ops : List Operation) :
    (Registry.after ops).Coherent ∧
    (∀ key, ((Registry.after ops).category key).objects.Nodup) ∧
    (∀ op : Operation, op.forgets = false → (Registry.after ops).Extends (op.apply (Registry.after ops))) ∧
    ∀ op : Operation, op.keepsTables = true →
      (Registry.after ops).SameTables (op.apply (Registry.after ops)) ∧
      (op.creates = false → ∀ key, (op.apply (Registry.after ops)).categories.contains key =
        (Registry.after ops).categories.contains key) ∧
      ∀ key, (Registry.after ops).categories.contains key = false →
        (op.apply (Registry.after ops)).category key = .empty key := by
  have hc : (Registry.after ops).Coherent :=
    Registry.after_induction (Q := fun _ => True) (.of_empty fun _ => rfl) (fun op _ _ => op.apply_coherent)
      fun _ _ => trivial
  refine ⟨hc, hc.nodup, fun op hf => Operation.apply_extends hf _, fun op hk => ⟨?_, ?_, ?_⟩⟩
  · exact Operation.apply_sameTables hk _
  · exact fun hcreates => Operation.apply_contains_eq hk hcreates _
  · exact fun key => Operation.apply_category_of_new hk

end Blueprint
