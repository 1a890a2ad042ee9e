import Blueprint.Proofs.Compile.Registering

/-!
# The order of registration

What a run adds to a registry can be read off it (`Registry.Gains`): one object for each mapping, in the order of the
mappings, in the category and under the name of its mapping. Compiling a description adds the objects of a prefix of its
mappings in post-order, whether it fails or not, and the whole of them exactly if it compiles
(`compile_registers_postorder`).
-/

namespace Blueprint

/-! ## What a run adds -/

/-- The handles in the category under a key, if the objects of mappings are stored one after the other from a position
on. -/
def Mapping.handles (key : String) (first : Nat) (ms : List Mapping) : List Handle :=
  (ms.zipIdx first).filterMap fun (m, i) => if m.key = key then some ⟨i⟩ else none

theorem Mapping.handles_cons (key : String) (first : Nat) (m : Mapping) (ms : List Mapping) :
    handles key first (m :: ms) = (if m.key = key then [⟨first⟩] else []) ++ handles key (first + 1) ms := by
  simp only [handles, List.zipIdx_cons, List.filterMap_cons]
  split <;> simp_all

namespace Registry

/-- What registering the objects of mappings, one after the other, adds to a registry. -/
structure Gains (r : Registry) (ms : List Mapping) (r' : Registry) : Prop where
  /-- There is one more object for each mapping. -/
  length : r'.store.objects.length = r.store.objects.length + ms.length
  /-- The objects stand in the order of the mappings, each in the category and under the name of its mapping. -/
  object : ∀ i m, ms[i]? = some m → ∃ o, r'.store.get? ⟨r.store.objects.length + i⟩ = some o ∧
    o.category = some (r.category m.key).label ∧ ∀ n, m.name? = some n → o.name = some n
  /-- Every category lists its new objects in this order, after those it had. -/
  objects : ∀ key, (r'.category key).objects = (r.category key).objects ++ Mapping.handles key r.store.objects.length ms
  /-- The names that are bound in addition are those of the mappings. -/
  named : ∀ key n h, (r'.category key).named.get? n = some h ↔
    (r.category key).named.get? n = some h ∨
      ∃ i m, ms[i]? = some m ∧ m.key = key ∧ m.name? = some n ∧ h = ⟨r.store.objects.length + i⟩

variable {r r₁ r₂ : Registry} {m : Mapping} {ms : List Mapping}

theorem Step.object (h : r.Step m r₁) : ∃ o, r₁.store.get? r.store.next = some o ∧
    o.category = some (r.category m.key).label ∧ ∀ n, m.name? = some n → o.name = some n := by
  cases h with
  | register =>
    refine ⟨_, get?_enroll_next _ _ _ _, rfl, fun n hn => ?_⟩
    simp [Object.placed, hn]

theorem Step.named_iff (h : r.Step m r₁) (key n : String) (o : Handle) :
    (r₁.category key).named.get? n = some o ↔
      (r.category key).named.get? n = some o ∨ (m.key = key ∧ m.name? = some n ∧ o = r.store.next) := by
  cases h with
  | register _ _ _ free =>
    rw [named_enroll]
    by_cases hc : m.key = key ∧ m.name? = some n
    · obtain ⟨rfl, hn⟩ := hc
      simp [hn, free n hn, eq_comm]
    · rw [if_neg hc]
      constructor
      · exact .inl
      · rintro (h | ⟨hk, hn, -⟩)
        · exact h
        · exact absurd ⟨hk, hn⟩ hc

theorem Gains.nil (r : Registry) : r.Gains [] r where
  length := rfl
  object i m hi := by simp at hi
  objects key := by simp [Mapping.handles]
  named key n h := by simp

theorem Gains.cons (h : r.Step m r₁) (run : r₁.Run ms r₂) (g : r₁.Gains ms r₂) : r.Gains (m :: ms) r₂ where
  length := by
    have := h.length
    have := g.length
    simp only [List.length_cons]
    omega
  object i m' hi := by
    cases i with
    | zero =>
      obtain rfl : m = m' := by simpa using hi
      obtain ⟨o, ho, hplace⟩ := h.object
      exact ⟨o, Store.get?_of_prefix run.extends.store ho, hplace⟩
    | succ i =>
      obtain ⟨o, ho, hcat, hname⟩ := g.object i m' (by simpa using hi)
      rw [h.extends.label] at hcat
      rw [h.length, Nat.add_assoc, Nat.add_comm 1 i] at ho
      exact ⟨o, ho, hcat, hname⟩
  objects key := by
    rw [g.objects, h.objects, h.length, Mapping.handles_cons, List.append_assoc]
    rfl
  named key n o := by
    rw [g.named, h.named_iff, h.length, or_assoc]
    refine or_congr Iff.rfl ⟨?_, ?_⟩
    · rintro (⟨hk, hn, rfl⟩ | ⟨i, m', hi, hk, hn, rfl⟩)
      · exact ⟨0, m, by simp, hk, hn, rfl⟩
      · exact ⟨i + 1, m', by simpa using hi, hk, hn, by rw [Nat.add_assoc, Nat.add_comm 1 i]⟩
    · rintro ⟨i, m', hi, hk, hn, rfl⟩
      cases i with
      | zero =>
        obtain rfl : m = m' := by simpa using hi
        exact .inl ⟨hk, hn, rfl⟩
      | succ i => exact .inr ⟨i, m', by simpa using hi, hk, hn, by rw [Nat.add_assoc, Nat.add_comm 1 i]⟩

theorem Run.gains (h : r.Run ms r₁) : r.Gains ms r₁ := by
  induction h with
  | nil => exact .nil _
  | cons h t ih => exact .cons h t ih

end Registry

/-! ## Descriptions -/

/-- Compiling a description registers the objects of a prefix of its mappings in post-order, each once, in the category
and under the name of its mapping. For a mapping the prefix is the whole exactly if it compiles, and the handle is then
the last one that was registered; a string registers nothing, and gives the object that is bound to it. -/
theorem compile_registers_postorder (r : Registry) (key : String) (raw : Json) :
    ∃ done rest, r.catalogue.postorder key raw = done ++ rest ∧
      r.Run done (compile key raw r).2 ∧ r.Gains done (compile key raw r).2 ∧
      (∀ members, raw = .obj members →
        (rest = [] ↔ ∃ h, (compile key raw r).1 = .ok h) ∧
        ∀ h, (compile key raw r).1 = .ok h →
          h.index + 1 = (compile key raw r).2.store.objects.length ∧
          ((compile key raw r).2.category key).objects.getLast? = some h) ∧
      ∀ name, raw = .str name →
        (compile key raw r).2 = r ∧
        ∀ h, (compile key raw r).1 = .ok h ↔ (r.category key).named.get? name = some h := by
  cases raw with
  | obj members =>
    rw [Catalogue.postorder_obj]
    rcases compile_obj_cases r key members with ⟨e, done, r', ⟨rest, hdone⟩, run, he⟩ | ⟨r₁, r₂, run, step, he⟩
    · refine ⟨done, rest ++ [⟨key, members⟩], by rw [← hdone, List.append_assoc], ?_⟩
      simp [he, run, run.gains]
    · have hrun := run.append (.one step)
      refine ⟨_, [], by rw [List.append_nil], ?_⟩
      simp [he, hrun, hrun.gains, step.length, step.objects, Store.next]
  | str name =>
    refine ⟨[], [], by rw [Catalogue.postorder_of_not_obj _ _ (by simp)]; rfl, ?_⟩
    rw [compile_str, lookUp]
    simp only
    split <;> simp_all [Registry.Run.nil, Registry.Gains.nil]
  | _ =>
    refine ⟨[], [], by rw [Catalogue.postorder_of_not_obj _ _ (by simp)]; rfl, ?_⟩
    rw [compile_eq]
    exact ⟨.nil r, .nil r, by simp, by simp⟩

end Blueprint
