import Blueprint.Proofs.Registry.Registration
import Blueprint.Sampling.Plugins
import Mathlib.Data.List.Nodup

/-!
# Batches in any order

Two declarations get in each other's way exactly if they claim a common key, whichever comes first, and two plugins
exactly if they are different and claim a common name in one category. So neighbours in a batch may change places
(`declare_swap`, `register_swap`), and a batch registers the same in every order (`registerAll_perm`).
-/

namespace Blueprint

/-- The keys that a declaration claims: its own and those of its aliases. -/
def CategoryDeclaration.claims (d : CategoryDeclaration) : List String := Key.clean d.name :: d.aliases.map Key.clean

namespace Registry

variable {r r' r₁ r₂ : Registry} {a b d : CategoryDeclaration} {p q : Plugin}

theorem ext_tables (categories : ∀ key, r₁.categories.get? key = r₂.categories.get? key)
    (aliases : ∀ key, r₁.aliases.get? key = r₂.aliases.get? key)
    (declarations : ∀ key, r₁.declarations.get? key = r₂.declarations.get? key) (store : r₁.store = r₂.store) :
    r₁ = r₂ := by
  obtain ⟨categories₁, aliases₁, declarations₁, store₁⟩ := r₁
  obtain rfl := Dict.ext_get? categories
  obtain rfl := Dict.ext_get? aliases
  obtain rfl := Dict.ext_get? declarations
  obtain rfl := store
  rfl

theorem ext_category (contains : ∀ key, r₁.categories.contains key = r₂.categories.contains key)
    (category : ∀ key, r₁.category key = r₂.category key) (aliases : r₁.aliases = r₂.aliases)
    (declarations : r₁.declarations = r₂.declarations) (store : r₁.store = r₂.store) : r₁ = r₂ := by
  refine ext_tables (fun key => ?_) (fun key => by rw [aliases]) (fun key => by rw [declarations]) store
  by_cases hk : r₁.categories.contains key = true
  · rw [get?_of_contains hk, get?_of_contains (contains key ▸ hk), category]
  · have hk' : r₂.categories.contains key ≠ true := contains key ▸ hk
    rw [Option.not_isSome_iff_eq_none.mp hk, Option.not_isSome_iff_eq_none.mp hk']

/-! ## Declarations -/

theorem Declared.unique (h₁ : r.Declared d r₁) (h₂ : r.Declared d r₂) : r₁ = r₂ :=
  ext_tables (fun key => by rw [h₁.categories, h₂.categories]) (fun key => by rw [h₁.aliases, h₂.aliases])
    (fun key => by rw [h₁.declarations, h₂.declarations]) (by rw [h₁.store, h₂.store])

theorem declare_eq_ok_iff : declare d r = (.ok (), r') ↔ r.Admits d ∧ r.Declared d r' := by
  rcases r.declare_cases d with ⟨admits, r₁, he, declared⟩ | ⟨refused, e, he⟩
  · rw [he]
    constructor
    · rintro ⟨⟩
      exact ⟨admits, declared⟩
    · rintro ⟨-, declared'⟩
      rw [declared.unique declared']
  · simp [he, refused]

namespace Declared

theorem category (h : r.Declared d r₁) (key : String) : r₁.category key = r.category key := by
  simp only [Registry.category, h.categories]
  split <;> rfl

theorem contains_declarations (h : r.Declared d r₁) {key : String} :
    r₁.declarations.contains key = true ↔ Key.clean d.name = key ∨ r.declarations.contains key = true := by
  rw [Dict.contains_eq, h.declarations]
  split <;> simp_all [Dict.contains_eq]

theorem contains_categories (h : r.Declared d r₁) {key : String} :
    r₁.categories.contains key = true ↔ Key.clean d.name = key ∨ r.categories.contains key = true := by
  rw [Dict.contains_eq, h.categories]
  split <;> simp_all [Dict.contains_eq]

theorem contains_aliases (h : r.Declared d r₁) {key : String} :
    r₁.aliases.contains key = true ↔
      key ≠ Key.clean d.name ∧ key ∈ d.aliases.map Key.clean ∨ r.aliases.contains key = true := by
  rw [Dict.contains_eq, h.aliases]
  split <;> simp_all [Dict.contains_eq]

theorem occupies_iff (h : r.Declared d r₁) {key : String} :
    r₁.occupies key = true ↔ key ∈ d.claims ∨ r.occupies key = true := by
  simp only [occupies, Bool.or_eq_true, h.contains_aliases, h.contains_categories, h.contains_declarations,
    CategoryDeclaration.claims, List.mem_cons]
  grind

/-- After a declaration those are admitted that were before, unless they claim a key that it claimed. -/
theorem admits_iff (h : r.Declared a r₁) : r₁.Admits b ↔ r.Admits b ∧ a.claims.Disjoint b.claims := by
  constructor
  · rintro ⟨undeclared, unaliased, aliases⟩
    have hd := mt h.contains_declarations.mpr (by simpa using undeclared)
    have ha := mt h.contains_aliases.mpr (by simpa using unaliased)
    have ho : ∀ s ∈ b.aliases, Key.clean s ≠ Key.clean b.name →
        ¬ (Key.clean s ∈ a.claims ∨ r.occupies (Key.clean s) = true) := fun s hs hne =>
      mt h.occupies_iff.mpr (by simpa using aliases s hs hne)
    refine ⟨⟨by grind, by grind, by grind⟩, fun key hka hkb => ?_⟩
    by_cases hkey : key = Key.clean b.name
    · subst hkey
      simp only [CategoryDeclaration.claims, List.mem_cons] at hka
      grind
    · obtain ⟨s, hs, rfl⟩ : ∃ s ∈ b.aliases, Key.clean s = key := by
        simpa [CategoryDeclaration.claims, hkey] using hkb
      exact ho s hs hkey (.inl hka)
  · rintro ⟨admits, disjoint⟩
    have hname : Key.clean b.name ∉ a.claims := fun hk => disjoint hk (by simp [CategoryDeclaration.claims])
    have hd := admits.undeclared
    have ha := admits.unaliased
    refine ⟨?_, ?_, fun s hs hne => ?_⟩
    · rw [← Bool.not_eq_true, h.contains_declarations]
      simp only [CategoryDeclaration.claims, List.mem_cons] at hname
      grind
    · rw [← Bool.not_eq_true, h.contains_aliases]
      simp only [CategoryDeclaration.claims, List.mem_cons] at hname
      grind
    · have hfree := admits.aliases s hs hne
      have hclaimed : Key.clean s ∈ b.claims := by
        simp only [CategoryDeclaration.claims, List.mem_cons, List.mem_map]
        exact .inr ⟨s, hs, rfl⟩
      rw [← Bool.not_eq_true, h.occupies_iff]
      rintro (hk | hk)
      · exact disjoint hk hclaimed
      · rw [hfree] at hk
        cases hk

/-- Declarations that claim no common key add the same in either order. -/
theorem swap {rab rba : Registry} (disjoint : a.claims.Disjoint b.claims) (ha : r.Declared a r₁)
    (hab : r₁.Declared b rab) (hb : r.Declared b r₂) (hba : r₂.Declared a rba) : rab = rba := by
  have hdisjoint : ∀ key, key ∈ a.claims → key ∉ b.claims := fun key hka hkb => disjoint hka hkb
  simp only [CategoryDeclaration.claims, List.mem_cons] at hdisjoint
  refine ext_tables (fun key => ?_) (fun key => ?_) (fun key => ?_) ?_
  · rw [hab.categories, hba.categories, ha.category, hb.category, ha.categories, hb.categories]
    grind
  · rw [hab.aliases, hba.aliases, ha.aliases, hb.aliases]
    grind
  · rw [hab.declarations, hba.declarations, ha.declarations, hb.declarations]
    grind
  · rw [hab.store, hba.store, ha.store, hb.store]

end Declared

theorem declare_swap (ha : declare a r = (.ok (), r₁)) (hb : declare b r₁ = (.ok (), r₂)) :
    ∃ r', declare b r = (.ok (), r') ∧ declare a r' = (.ok (), r₂) := by
  obtain ⟨admitsA, declaredA⟩ := declare_eq_ok_iff.mp ha
  obtain ⟨admitsB, declaredB⟩ := declare_eq_ok_iff.mp hb
  obtain ⟨admitsB', disjoint⟩ := declaredA.admits_iff.mp admitsB
  rcases r.declare_cases b with ⟨-, r', heB, declaredB'⟩ | ⟨refused, -⟩
  · have admitsA' := declaredB'.admits_iff.mpr ⟨admitsA, List.disjoint_comm.mp disjoint⟩
    rcases r'.declare_cases a with ⟨-, r'', heA, declaredA'⟩ | ⟨refused, -⟩
    · exact ⟨r', heB, by rw [heA, declaredA.swap disjoint declaredB declaredB' declaredA']⟩
    · exact absurd admitsA' refused
  · exact absurd admitsB' refused

/-! ## Plugins -/

theorem or_or_comm {α : Type} {x y : Option α} (o : Option α) (h : ∀ a b, x = some a → y = some b → a = b) :
    (o.or x).or y = (o.or y).or x := by
  cases o <;> cases x <;> cases y <;> simp_all

theorem accommodates_iff : r.Accommodates p ↔ ∀ name ∈ p.registrationNames, ∀ q,
    (r.category (r.canonical p.category)).dispatch.get? name = some q → q.same p = true := by
  constructor
  · intro h name hname q hq
    exact h _ (get?_of_contains (contains_of_get?_dispatch hq)) name hname q hq
  · intro h c hc name hname q hq
    rw [category_of_get? hc] at h
    exact h name hname q hq

namespace Registered

theorem canonical (h : r.Registered p r₁) (name : String) : r₁.canonical name = r.canonical name := by
  simp only [Registry.canonical, h.aliases]

theorem category_eq (h : r.Registered p r₁) (key : String) :
    ∃ dispatch, r₁.category key = { r.category key with dispatch } ∧
      ∀ name, dispatch.get? name = ((r.category key).dispatch.get? name).or
        (if r.canonical p.category = key ∧ name ∈ p.registrationNames then some p else none) := by
  by_cases hk : r.canonical p.category = key
  · subst hk
    obtain ⟨dispatch, hc, hget⟩ := h.category
    exact ⟨dispatch, category_of_get? hc, by simpa using hget⟩
  · refine ⟨(r.category key).dispatch, ?_, by simp [hk]⟩
    simp only [Registry.category, h.others key (Ne.symm hk)]

theorem contains (h : r.Registered p r₁) (key : String) :
    r₁.categories.contains key = (decide (r.canonical p.category = key) || r.categories.contains key) := by
  by_cases hk : r.canonical p.category = key
  · subst hk
    obtain ⟨dispatch, hc, -⟩ := h.category
    simp [Dict.contains_eq, hc]
  · simp [Dict.contains_eq, hk, h.others key (Ne.symm hk)]

end Registered

/-- Two plugins compete if they are different and claim a common name in one category. -/
def Compete (r : Registry) (p q : Plugin) : Prop :=
  r.canonical p.category = r.canonical q.category ∧ p.same q = false ∧
    ∃ name ∈ p.registrationNames, name ∈ q.registrationNames

theorem Compete.symm (h : r.Compete p q) : r.Compete q p := by
  obtain ⟨hcategory, hother, name, hp, hq⟩ := h
  rw [Plugin.same, beq_eq_false_iff_ne] at hother
  exact ⟨hcategory.symm, beq_eq_false_iff_ne.mpr hother.symm, name, hq, hp⟩

namespace Registered

/-- After a plugin those are accommodated that were before, unless they compete with it. -/
theorem accommodates_iff (h : r.Registered p r₁) (hp : r.Accommodates p) :
    r₁.Accommodates q ↔ r.Accommodates q ∧ ¬ r.Compete p q := by
  obtain ⟨dispatch, hc, hget⟩ := h.category_eq (r.canonical q.category)
  rw [Registry.accommodates_iff, Registry.accommodates_iff, h.canonical, hc]
  simp only [hget]
  constructor
  · refine fun hall => ⟨fun name hname q' hq' => hall name hname q' (by simp [hq']), ?_⟩
    rintro ⟨hcategory, hother, name, hpname, hqname⟩
    -- The common name is bound to a plugin that is the same as both.
    cases hq' : (r.category (r.canonical q.category)).dispatch.get? name with
    | none =>
      have hsame := hall name hqname p (by simp [hq', hcategory, hpname])
      rw [hother] at hsame
      cases hsame
    | some q' =>
      have hsame := hall name hqname q' (by simp [hq'])
      have hsame' := Registry.accommodates_iff.mp hp name hpname q' (by rw [hcategory, hq'])
      simp only [Plugin.same, beq_iff_eq, beq_eq_false_iff_ne] at hsame hsame' hother
      exact hother (hsame'.symm.trans hsame)
  · rintro ⟨hall, free⟩ name hname q' hq'
    rcases Option.or_eq_some_iff.mp hq' with hq' | ⟨-, hq'⟩
    · exact hall name hname q' hq'
    · split at hq'
      · next hnew =>
        obtain rfl : p = q' := by simpa using hq'
        by_contra hother
        exact free ⟨hnew.1, by simpa using hother, name, hnew.2, hname⟩
      · cases hq'

/-- Plugins that do not compete add the same in either order. -/
theorem swap {rpq rqp : Registry} (free : ¬ r.Compete p q) (single : p.same q = true → p = q) (hp : r.Registered p r₁)
    (hpq : r₁.Registered q rpq) (hq : r.Registered q r₂) (hqp : r₂.Registered p rqp) : rpq = rqp := by
  refine ext_category (fun key => ?_) (fun key => ?_) ?_ ?_ ?_
  · rw [hpq.contains, hqp.contains, hp.contains, hq.contains, hp.canonical, hq.canonical, Bool.or_left_comm]
  · obtain ⟨dp, hdp, getp⟩ := hp.category_eq key
    obtain ⟨dq, hdq, getq⟩ := hq.category_eq key
    obtain ⟨dpq, hdpq, getpq⟩ := hpq.category_eq key
    obtain ⟨dqp, hdqp, getqp⟩ := hqp.category_eq key
    have hd : dpq = dqp := by
      refine Dict.ext_get? fun name => ?_
      rw [getpq, getqp, hdp, hdq, hp.canonical, hq.canonical, getp, getq]
      refine or_or_comm _ fun p' q' hp' hq' => ?_
      obtain ⟨hclaimp, rfl⟩ : _ ∧ p = p' := by simpa using hp'
      obtain ⟨hclaimq, rfl⟩ : _ ∧ q = q' := by simpa using hq'
      refine single (by_contra fun hother => free ?_)
      exact ⟨hclaimp.1.trans hclaimq.1.symm, by simpa using hother, name, hclaimp.2, hclaimq.2⟩
    rw [hdpq, hdqp, hdp, hdq, hd]
  · rw [hpq.aliases, hqp.aliases, hp.aliases, hq.aliases]
  · rw [hpq.declarations, hqp.declarations, hp.declarations, hq.declarations]
  · rw [hpq.store, hqp.store, hp.store, hq.store]

theorem unique (h₁ : r.Registered p r₁) (h₂ : r.Registered p r₂) : r₁ = r₂ := by
  refine ext_category (fun key => ?_) (fun key => ?_) ?_ ?_ ?_
  · rw [h₁.contains, h₂.contains]
  · obtain ⟨d₁, hd₁, get₁⟩ := h₁.category_eq key
    obtain ⟨d₂, hd₂, get₂⟩ := h₂.category_eq key
    rw [hd₁, hd₂, Dict.ext_get? fun name => (get₁ name).trans (get₂ name).symm]
  · rw [h₁.aliases, h₂.aliases]
  · rw [h₁.declarations, h₂.declarations]
  · rw [h₁.store, h₂.store]

end Registered

theorem register_eq_ok_iff : register p r = (.ok (), r') ↔ r.Accommodates p ∧ r.Registered p r' := by
  rcases r.register_cases p with ⟨accommodates, r₁, he, registered⟩ | ⟨refused, e, he⟩
  · rw [he]
    constructor
    · rintro ⟨⟩
      exact ⟨accommodates, registered⟩
    · rintro ⟨-, registered'⟩
      rw [registered.unique registered']
  · simp [he, refused]

theorem register_swap (single : p.same q = true → p = q) (hp : register p r = (.ok (), r₁))
    (hq : register q r₁ = (.ok (), r₂)) : ∃ r', register q r = (.ok (), r') ∧ register p r' = (.ok (), r₂) := by
  obtain ⟨accommodatesP, registeredP⟩ := register_eq_ok_iff.mp hp
  obtain ⟨accommodatesQ, registeredQ⟩ := register_eq_ok_iff.mp hq
  obtain ⟨accommodatesQ', free⟩ := (registeredP.accommodates_iff accommodatesP).mp accommodatesQ
  rcases r.register_cases q with ⟨-, r', heQ, registeredQ'⟩ | ⟨refused, -⟩
  · have accommodatesP' := (registeredQ'.accommodates_iff accommodatesQ').mpr ⟨accommodatesP, fun hc => free hc.symm⟩
    rcases r'.register_cases p with ⟨-, r'', heP, registeredP'⟩ | ⟨refused, -⟩
    · exact ⟨r', heQ, by rw [heP, registeredP.swap free single registeredQ registeredQ' registeredP']⟩
    · exact absurd accommodatesP' refused
  · exact absurd accommodatesQ' refused

/-! ## Batches -/

/-- Plugins of a batch that are the same are equal. -/
def Identified (items : List Registration) : Prop :=
  ∀ p q, .plugin p ∈ items → .plugin q ∈ items → p.same q = true → p = q

theorem registerEach_cons_eq_ok_iff {item : Registration} {items : List Registration} :
    registerEach (item :: items) r = (.ok (), r') ↔
      ∃ r₁, registerOne item r = (.ok (), r₁) ∧ registerEach items r₁ = (.ok (), r') := by
  simp only [registerEach, bind, Action.andThen]
  rcases registerOne item r with ⟨(e | ⟨⟩), r₁⟩ <;> simp

theorem registerEach_append_eq_ok_iff {items items' : List Registration} :
    registerEach (items ++ items') r = (.ok (), r') ↔
      ∃ r₁, registerEach items r = (.ok (), r₁) ∧ registerEach items' r₁ = (.ok (), r') := by
  induction items generalizing r with
  | nil => simp [registerEach, pure]
  | cons item items ih =>
    simp only [List.cons_append, registerEach_cons_eq_ok_iff, ih]
    grind

/-- If neighbours in a batch may change places, the batch registers the same in every order. -/
theorem registerEach_of_perm {P : Registration → Prop}
    (swap : ∀ x y, P x → P y → ∀ r r₁ r₂, registerOne x r = (.ok (), r₁) → registerOne y r₁ = (.ok (), r₂) →
      ∃ r', registerOne y r = (.ok (), r') ∧ registerOne x r' = (.ok (), r₂))
    {items items' : List Registration} (h : items.Perm items') (hP : ∀ item ∈ items, P item)
    (hok : registerEach items r = (.ok (), r')) : registerEach items' r = (.ok (), r') := by
  induction h generalizing r with
  | nil => exact hok
  | cons x _ ih =>
    obtain ⟨r₁, hx, hrest⟩ := registerEach_cons_eq_ok_iff.mp hok
    exact registerEach_cons_eq_ok_iff.mpr ⟨r₁, hx, ih (fun item hitem => hP item (by simp [hitem])) hrest⟩
  | swap x y items =>
    obtain ⟨r₁, hy, hok⟩ := registerEach_cons_eq_ok_iff.mp hok
    obtain ⟨r₂, hx, hrest⟩ := registerEach_cons_eq_ok_iff.mp hok
    obtain ⟨r₁', hx', hy'⟩ := swap y x (hP y (by simp)) (hP x (by simp)) r r₁ r₂ hy hx
    exact registerEach_cons_eq_ok_iff.mpr ⟨r₁', hx', registerEach_cons_eq_ok_iff.mpr ⟨r₂, hy', hrest⟩⟩
  | trans h _ ih ih' => exact ih' (fun item hitem => hP item (h.mem_iff.mpr hitem)) (ih hP hok)

/-- A batch in another order registers the same, if it registers. -/
theorem registerAll_of_perm {items items' : List Registration} (hidentified : Identified items) (h : items.Perm items')
    (hok : registerAll items r = (.ok (), r')) : registerAll items' r = (.ok (), r') := by
  -- all categories come before all plugins, so only neighbours of one kind change places
  obtain ⟨r₁, hcategories, hplugins⟩ := registerEach_append_eq_ok_iff.mp hok
  refine registerEach_append_eq_ok_iff.mpr ⟨r₁, ?_, ?_⟩
  · refine registerEach_of_perm (P := fun item => item.isCategory = true) ?_ (h.filter _)
      (fun item hitem => (List.mem_filter.mp hitem).2) hcategories
    intro x y hx hy r r₁ r₂
    cases x with
    | plugin p => cases hx
    | category a =>
      cases y with
      | plugin q => cases hy
      | category b => exact declare_swap
  · refine registerEach_of_perm (P := fun item => ∃ p, item = .plugin p ∧ .plugin p ∈ items) ?_ (h.filter _) ?_
      hplugins
    · rintro _ _ ⟨p, rfl, hp⟩ ⟨q, rfl, hq⟩ r r₁ r₂
      exact register_swap (hidentified p q hp hq)
    · intro item hitem
      obtain ⟨hmem, hkind⟩ := List.mem_filter.mp hitem
      cases item with
      | category d => cases hkind
      | plugin p => exact ⟨p, rfl, hmem⟩

/-- The order of a batch does not matter: in every order it leaves the same registry, or in none it is registered. -/
theorem registerAll_perm {items items' : List Registration} (hidentified : Identified items) (h : items.Perm items')
    (r r' : Registry) : registerAll items r = (.ok (), r') ↔ registerAll items' r = (.ok (), r') := by
  refine ⟨registerAll_of_perm hidentified h, registerAll_of_perm (fun p q hp hq => ?_) h.symm⟩
  exact hidentified p q (h.mem_iff.mpr hp) (h.mem_iff.mpr hq)

/-- The standard plugins may be registered from the last one to the first declaration. -/
theorem registerAll_standard_reverse :
    Identified Sampling.registrations ∧ Sampling.registrations.Perm Sampling.registrations.reverse ∧
      registerAll Sampling.registrations.reverse .empty = (.ok (), Sampling.standardRegistry) := by
  have hidentified : Identified Sampling.registrations := by
    have hmem : ∀ p, .plugin p ∈ Sampling.registrations → p ∈ Sampling.plugins := fun p hp => by
      simpa [Sampling.registrations] using hp
    have hserials : (Sampling.plugins.map Plugin.serial).Nodup := by decide
    intro p q hp hq hsame
    exact List.inj_on_of_nodup_map hserials (hmem p hp) (hmem q hq) (by simpa [Plugin.same] using hsame)
  have hperm := (List.reverse_perm Sampling.registrations).symm
  have hok : registerAll Sampling.registrations .empty = (.ok (), Sampling.standardRegistry) := by
    have hregistered : (registerAll Sampling.registrations .empty).1 = .ok () := by decide +kernel
    rw [Sampling.standardRegistry, ← hregistered]
  exact ⟨hidentified, hperm, (registerAll_perm hidentified hperm _ _).mp hok⟩

end Registry
end Blueprint
