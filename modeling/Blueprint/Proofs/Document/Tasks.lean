import Blueprint.Proofs.Compile.Failing
import Blueprint.Proofs.Document.Sections

/-!
# The order of compilation

The sections of a document are put into the order of their ranks, those of one rank stay as they are, and a document
with a section of no rank may be refused. A document that is not refused is one list of tasks: it creates the category
of a section, then compiles its descriptions, and goes on to the next. So whatever is listed earlier in the compile order
is compiled earlier (`Document.compile_ranked`).
-/

namespace Blueprint

namespace CompileOrder

variable (c : CompileOrder) (r : Registry)

/-! ## Ranks -/

/-- Whether an entry of the compile order is the category of a section. -/
def lists (name : String) : Bool := c.order.any fun entry => r.canonical entry == r.canonical name

/-- The rank of a section: the first index in the compile order that holds its category, or one beyond all indices. -/
structure IsRank (name : String) (k : Nat) : Prop where
  first : ∀ j entry, j < k → c.order[j]? = some entry → r.canonical entry ≠ r.canonical name
  here : (∃ entry, c.order[k]? = some entry ∧ r.canonical entry = r.canonical name) ∨ k = c.order.length

/-- The section names in the order of their ranks; those of one rank are in the order in which they were given. -/
structure Ranking (names sorted : List String) : Prop where
  perm : sorted.Perm names
  ordered : sorted.Pairwise fun s t => c.position r s ≤ c.position r t
  stable : ∀ k, sorted.filter (c.position r · == k) = names.filter (c.position r · == k)

variable {c r}

theorem isRank_position (name : String) : c.IsRank r name (c.position r name) := by
  have hkeys : ∀ {j : Nat} {entry : String}, c.order[j]? = some entry → (c.keys r)[j]? = some (r.canonical entry) :=
    fun h => by simp [keys, h]
  simp only [position]
  cases hrank : rank? (c.keys r) r name with
  | none =>
    refine ⟨fun j entry _ hentry => ?_, .inr rfl⟩
    simpa using List.findIdx?_eq_none_iff.mp hrank _ (List.mem_of_getElem? (hkeys hentry))
  | some k =>
    obtain ⟨hk, hhere, hfirst⟩ := List.findIdx?_eq_some_iff_getElem.mp hrank
    refine ⟨fun j entry hj hentry => ?_, .inl ⟨c.order.get ⟨k, c.rank?_lt r hrank⟩, ?_, ?_⟩⟩
    · obtain ⟨hlt, he⟩ := List.getElem?_eq_some_iff.mp (hkeys hentry)
      simpa [he] using hfirst j hj
    · simp
    · simpa [keys] using hhere

theorem IsRank.le {name : String} {k l : Nat} (hk : c.IsRank r name k) (hl : c.IsRank r name l) : k ≤ l := by
  by_contra hlt
  have hlt : l < k := by omega
  rcases hl.here with ⟨entry, hentry, he⟩ | rfl
  · exact hk.first l entry hlt hentry he
  · rcases hk.here with ⟨entry, hentry, -⟩ | rfl
    · have := (List.getElem?_eq_some_iff.mp hentry).1
      omega
    · omega

theorem isRank_iff {name : String} {k : Nat} : c.IsRank r name k ↔ k = c.position r name :=
  ⟨fun h => Nat.le_antisymm (h.le (isRank_position name)) ((isRank_position name).le h),
    fun h => h ▸ isRank_position name⟩

theorem position_le (name : String) : c.position r name ≤ c.order.length := by
  simp only [position]
  cases hrank : rank? (c.keys r) r name with
  | none => exact Nat.le_refl _
  | some k => exact Nat.le_of_lt (c.rank?_lt r hrank)

theorem ranking_arrange (names : List String) : c.Ranking r names (arrange c.order.length (c.position r) names) where
  perm := arrange_perm fun name _ => position_le name
  ordered := arrange_ordered _ _ _
  stable k := by
    by_cases hk : k ≤ c.order.length
    · exact filter_arrange hk _ _
    · have hnone : ∀ l : List String, l.filter (c.position r · == k) = [] := fun l =>
        List.filter_eq_nil_iff.mpr fun name _ => by
          have := position_le (c := c) (r := r) name
          simp only [beq_iff_eq]
          omega
      rw [hnone, hnone]

theorem lists_eq (name : String) : c.lists r name = (rank? (c.keys r) r name).isSome := by
  rw [rank?, List.findIdx?_isSome, keys, List.any_map]
  rfl

/-- The names are ranked, or the first one that is not listed is refused. -/
theorem sorted_cases (names : List String) :
    match c.unknown, names.find? fun name => !c.lists r name with
    | .reject, some name => c.sorted r names = .error (.unknownCategory (r.canonical name) (c.keys r))
    | _, _ => ∃ sorted, c.sorted r names = .ok sorted ∧ c.Ranking r names sorted := by
  simp only [sorted_eq, refused?, lists_eq, Option.not_isSome]
  cases c.unknown with
  | last => exact ⟨_, rfl, ranking_arrange names⟩
  | reject =>
    cases names.find? fun name => (rank? (c.keys r) r name).isNone with
    | none => exact ⟨_, rfl, ranking_arrange names⟩
    | some name => rfl

end CompileOrder

/-! ## Collecting -/

namespace Action

variable {α β γ : Type}

instance : LawfulMonad Action := LawfulMonad.mk' Action
  (fun a => funext fun r => by
    simp only [Functor.map, andThen]
    rcases a r with ⟨e | x, r₁⟩ <;> rfl)
  (fun _ _ => rfl)
  (fun a f g => funext fun r => by
    simp only [bind, andThen]
    rcases a r with ⟨e | x, r₁⟩ <;> rfl)

/-- The results of an action on each item, one list after the other. -/
def collect (f : α → Action (List β)) (xs : List α) : Action (List β) := do
  return (← each f xs).flatten

variable {f : α → Action (List β)} {g : γ → Action (List β)}

@[simp] theorem collect_nil : collect f [] = pure [] := rfl

@[simp] theorem collect_cons (x : α) (xs : List α) :
    collect f (x :: xs) = do
      let ys ← f x
      let zs ← collect f xs
      return ys ++ zs := by
  simp [collect, each]

theorem collect_append (xs xs' : List α) :
    collect f (xs ++ xs') = do
      let ys ← collect f xs
      let zs ← collect f xs'
      return ys ++ zs := by
  induction xs with
  | nil => simp
  | cons x xs ih => simp only [List.cons_append, collect_cons, ih, bind_assoc, pure_bind, List.append_assoc]

theorem collect_flatMap {h : γ → List α} (hg : ∀ x, g x = collect f (h x)) (xs : List γ) :
    collect g xs = collect f (xs.flatMap h) := by
  induction xs with
  | nil => rfl
  | cons x xs ih => rw [collect_cons, List.flatMap_cons, collect_append, hg, ih]

end Action

/-! ## Tasks -/

namespace Document

/-- One step of compiling a document: to create the category of a section, or to compile one of its descriptions. -/
inductive Task where
  | create (name : String)
  | compile (name : String) (raw : Json)

namespace Task

/-- The section that a task belongs to. -/
def name : Task → String
  | .create name => name
  | .compile name _ => name

/-- The objects of a task. -/
def perform : Task → Action (List Handle)
  | .create name => do
    Action.change (·.ensure name)
    return []
  | .compile name raw => do
    let key ← Action.ask (·.canonical name)
    let h ← Blueprint.compile key raw
    return [h]

end Task

/-- The tasks of a section: it creates its category first, even if it has no descriptions. -/
def sectionTasks (sections : Members) (name : String) : List Task :=
  .create name :: ((Entries.get? name sections).getD (.arr [])).itemsOrSelf.map (.compile name)

/-- The tasks of a document whose sections are compiled in the order of `names`. -/
def tasks (sections : Members) (names : List String) : List Task := names.flatMap (sectionTasks sections)

theorem name_of_mem_sectionTasks {sections : Members} {name : String} {t : Task}
    (h : t ∈ sectionTasks sections name) : t.name = name := by
  rcases List.mem_cons.mp h with rfl | h
  · rfl
  · obtain ⟨raw, -, rfl⟩ := List.mem_map.mp h
    rfl

/-- Compiling leaves the names of categories alone, so a section is compiled under one key. -/
theorem collect_compile (name : String) (items : List Json) (r : Registry) :
    Action.collect Task.perform (items.map (.compile name)) r =
      Action.each (Blueprint.compile (r.canonical name)) items r := by
  induction items generalizing r with
  | nil => rfl
  | cons raw items ih =>
    obtain ⟨done, -, run, -⟩ := compile_registers r (r.canonical name) raw
    have hkey := run.sameTables.canonical name
    simp only [List.map_cons, Action.collect_cons, Action.each, Task.perform, bind, Action.andThen, Action.ask]
    rcases hraw : Blueprint.compile (r.canonical name) raw r with ⟨e | h, r₁⟩
    · rfl
    · rw [hraw] at hkey
      simp only [pure, ih, hkey]
      rcases Action.each (Blueprint.compile (r.canonical name)) items r₁ with ⟨e | hs, r₂⟩ <;> rfl

theorem compileSection_eq (sections : Members) (name : String) :
    compileSection sections name = Action.collect Task.perform (sectionTasks sections name) := by
  funext r
  have hcollect := collect_compile name ((Entries.get? name sections).getD (.arr [])).itemsOrSelf (r.ensure name)
  simp only [compileSection, sectionTasks, Action.collect_cons, Task.perform, bind, Action.andThen, Action.change,
    Action.ask, pure, Attempt.compileAll_eq, hcollect]
  rcases Action.each (Blueprint.compile ((r.ensure name).canonical name)) _ (r.ensure name) with ⟨e | hs, r₁⟩ <;> rfl

/-- A document that is not refused performs its tasks. -/
theorem compile_eq_collect {c : CompileOrder} {sections : Members} {r : Registry} {names : List String}
    (h : c.sorted r (sections.map (·.1)) = .ok names) :
    compile c (.obj sections) r = Action.collect Task.perform (tasks sections names) r := by
  rw [tasks, ← Action.collect_flatMap (compileSection_eq sections)]
  simp only [compile, bind, Action.andThen, h, Action.collect]

theorem tasks_ordered {position : String → Nat} {names : List String}
    (h : names.Pairwise fun s t => position s ≤ position t) (sections : Members) :
    (tasks sections names).Pairwise fun t u => position t.name ≤ position u.name := by
  refine List.pairwise_flatMap.mpr ⟨fun name _ => ?_, h.imp fun hle t ht u hu => ?_⟩
  · refine List.pairwise_of_forall_mem_list fun t ht u hu => ?_
    exact Nat.le_of_eq (by rw [name_of_mem_sectionTasks ht, name_of_mem_sectionTasks hu])
  · rwa [name_of_mem_sectionTasks ht, name_of_mem_sectionTasks hu]

end Document

/-- Sections are ranked by the first index in the compile order that leads to their category, and those of one rank keep
their order. A document with a section that is not listed is refused at the first one, if such sections are to be
refused, and then nothing has happened. Otherwise the document performs its tasks, those of lower ranks first. -/
theorem Document.compile_ranked (c : CompileOrder) (r : Registry) :
    (∀ name k, c.IsRank r name k ↔ k = c.position r name) ∧
    (∀ names : List String, match c.unknown, names.find? fun name => !c.lists r name with
      | .reject, some name => c.sorted r names = .error (.unknownCategory (r.canonical name) (c.keys r))
      | _, _ => ∃ sorted, c.sorted r names = .ok sorted ∧ c.Ranking r names sorted) ∧
    ∀ sections : Members, match c.sorted r (sections.map (·.1)) with
      | .error e => Document.compile c (.obj sections) r = (.error e, r)
      | .ok sorted =>
        Document.compile c (.obj sections) r = Action.collect Task.perform (tasks sections sorted) r ∧
        (tasks sections sorted).Pairwise fun t u => c.position r t.name ≤ c.position r u.name := by
  refine ⟨fun _ _ => CompileOrder.isRank_iff, fun names => CompileOrder.sorted_cases names,
    fun sections => ?_⟩
  have hcases := CompileOrder.sorted_cases (c := c) (r := r) (sections.map (·.1))
  cases hsorted : c.sorted r (sections.map (·.1)) with
  | error e => simp only [Document.compile, bind, Action.andThen, hsorted]
  | ok sorted =>
    refine ⟨Document.compile_eq_collect hsorted, Document.tasks_ordered ?_ sections⟩
    split at hcases
    · cases hcases.symm.trans hsorted
    · obtain ⟨sorted', hok, hranking⟩ := hcases
      cases hsorted.symm.trans hok
      exact hranking.ordered

end Blueprint
