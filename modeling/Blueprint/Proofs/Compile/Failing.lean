import Blueprint.Proofs.Compile.FirstFailure
import Blueprint.Proofs.Document.Ranking

/-!
# Where a failure comes from

A failing run raises one diagnostic, at one place, and everything that was tried around that place lets it through a
frame or hands it on as it is. `Attempt.Raises` tells the place and the frames, by one rule for each way of failing; it
is equivalent to failing (`failure_provenance`), however deep descriptions, lists and parameters are nested. The place is
the only one because an attempt that fails either encloses one failing attempt (`Attempt.Encloses.unique`) or none.
-/

namespace Blueprint

variable {r r' : Registry} {e : Diagnostic}

/-! ## Raising -/

/-- What may be tried, and fail. -/
inductive Attempt where
  | document (c : CompileOrder) (raw : Json)
  /-- The section of a document under a name. -/
  | entry (sections : Members) (name : String)
  | call (key : String) (raw : Json)
  | description (key : String) (raw : Json)
  /-- Making the object of a mapping, without what belongs to the compiler. -/
  | build (p : Plugin) (input : Members)
  | value (l : Loader) (raw : Json)

namespace Attempt

/-- An attempt comes out with a diagnostic, and leaves a registry behind. -/
def Fails : Attempt → Registry → Diagnostic → Registry → Prop
  | .document c raw, r, e, r' => Document.compile c raw r = (.error e, r')
  | .entry sections name, r, e, r' => Document.compileSection sections name r = (.error e, r')
  | .call key raw, r, e, r' => Blueprint.call key raw r = (.error e, r')
  | .description key raw, r, e, r' => compile key raw r = (.error e, r')
  | .build p input, r, e, r' => p.build input r = (.error e, r')
  | .value l raw, r, e, r' => l.load raw r = (.error e, r')

/-- A diagnostic is raised within an attempt, and on its way out it passes frames, the innermost first. What is tried
before the failing item of a list succeeds, and the registry goes through it. -/
inductive Raises : Attempt → Registry → Diagnostic → List Frame → Registry → Prop
  -- a description is rejected as it stands, or its object is
  | refused {r r' : Registry} {key : String} {raw : Json} {e : Diagnostic} (text : ∀ name, raw ≠ .str name)
    (map : ∀ members, raw ≠ .obj members) (h : refuse key raw r = (.error e, r')) :
    Raises (.description key raw) r e [] r'
  | unknown {r r' : Registry} {key name : String} {e : Diagnostic} (h : lookUp key name r = (.error e, r')) :
    Raises (.description key (.str name)) r e [] r'
  | malformed {r : Registry} {key : String} {members : Members} {e : Diagnostic}
    (h : Description.ofMembers (r.category key).label (r.category key).tags members = .error e) :
    Raises (.description key (.obj members)) r e [] r
  | untyped {r : Registry} {key : String} {members : Members} {d : Description} {e : Diagnostic}
    (hd : Description.ofMembers (r.category key).label (r.category key).tags members = .ok d)
    (h : pluginFor (r.category key) d.tag = .error e) : Raises (.description key (.obj members)) r e [] r
  | duplicate {r r₁ r' : Registry} {key : String} {members : Members} {d : Description} {p : Plugin} {o : Object}
    {e : Diagnostic} (hd : (r.category key).Reads members d p) (built : p.build d.input r = (.ok o, r₁))
    (h : registerObject key o d.name r₁ = (.error e, r')) : Raises (.description key (.obj members)) r e [] r'
  | mapping {r r' : Registry} {key : String} {members : Members} {d : Description} {p : Plugin} {e : Diagnostic}
    {frames : List Frame} (hd : (r.category key).Reads members d p) (h : Raises (.build p d.input) r e frames r') :
    Raises (.description key (.obj members)) r e (frames ++ [.mapping (r.category key).label d]) r'
  -- a plugin misses a parameter, cannot load one, or cannot make its object
  | missing {r : Registry} {p : Plugin} {input : Members} {q : Parameter} (h : p.missing? input = some q) :
    Raises (.build p input) r (.missingRequiredParameter p.tag q.name) [] r
  | parameter {r r₁ r' : Registry} {p : Plugin} {input : Members} {calls : List ((Parameter × Json) × Value)}
    {q : Parameter} {raw : Json} {rest : List (Parameter × Json)} {e : Diagnostic} {frames : List Frame}
    (complete : p.missing? input = none) (order : p.given input = calls.map (·.1) ++ (q, raw) :: rest)
    (before : Action.Calls (Parameter.loaded compile) r calls r₁) (h : Raises (.value q.loader raw) r₁ e frames r') :
    Raises (.build p input) r e (frames ++ [.parameter q.name, .plugin p.tag]) r'
  | construct {r r' : Registry} {p : Plugin} {input : Members} {args : Arguments} {why : BuildError}
    (loaded : p.arguments input r = (.ok args, r')) (h : p.builder.build r'.store args = .error why) :
    Raises (.build p input) r (.ofBuildError p.tag why) [] r'
  -- a value is not readable, belongs to no category, or holds a failing description or item
  | unreadable {r : Registry} {reader : Reader} {raw : Json} {why : LoadError} (h : reader.read raw = .error why) :
    Raises (.value (.read reader) raw) r (.ofLoadError why) [] r
  | unresolved {r r' : Registry} {name : String} {raw : Json} {e : Diagnostic} (h : resolve name r = (.error e, r')) :
    Raises (.value (.category name) raw) r e [] r'
  | category {r r₁ r' : Registry} {name key : String} {raw : Json} {e : Diagnostic} {frames : List Frame}
    (resolved : resolve name r = (.ok key, r₁)) (h : Raises (.call key raw) r₁ e frames r') :
    Raises (.value (.category name) raw) r e frames r'
  | item {r r₁ r' : Registry} {l : Loader} {raw x : Json} {calls : List (Json × Value)} {rest : List Json}
    {e : Diagnostic} {frames : List Frame} (items : raw.itemsOrSelf = calls.map (·.1) ++ x :: rest)
    (before : Action.Calls l.load r calls r₁) (h : Raises (.value l x) r₁ e frames r') :
    Raises (.value (.listOf l) raw) r e (frames ++ [.item calls.length]) r'
  -- descriptions are compiled one after the other, in calls and in documents
  | call {r r₁ r' : Registry} {key : String} {raw x : Json} {calls : List (Json × Handle)} {rest : List Json}
    {e : Diagnostic} {frames : List Frame} (items : raw.itemsOrSelf = calls.map (·.1) ++ x :: rest)
    (before : Action.Calls (compile key) r calls r₁) (h : Raises (.description key x) r₁ e frames r') :
    Raises (.call key raw) r e frames r'
  | entry {r r' : Registry} {sections : Members} {name : String} {e : Diagnostic} {frames : List Frame}
    (h : Raises (.call (r.canonical name) ((Entries.get? name sections).getD (.arr []))) (r.ensure name) e frames r') :
    Raises (.entry sections name) r e frames r'
  | document {r r₁ r' : Registry} {c : CompileOrder} {sections : Members} {calls : List (String × List Handle)}
    {name : String} {rest : List String} {e : Diagnostic} {frames : List Frame}
    (sorted : c.sorted r (sections.map (·.1)) = .ok (calls.map (·.1) ++ name :: rest))
    (before : Action.Calls (Document.compileSection sections) r calls r₁)
    (h : Raises (.entry sections name) r₁ e frames r') : Raises (.document c (.obj sections)) r e frames r'
  | unlisted {r : Registry} {c : CompileOrder} {sections : Members} {e : Diagnostic}
    (h : c.sorted r (sections.map (·.1)) = .error e) : Raises (.document c (.obj sections)) r e [] r
  | shapeless {r : Registry} {c : CompileOrder} {raw : Json} {e : Diagnostic} (map : ∀ members, raw ≠ .obj members)
    (h : Document.compile c raw r = (.error e, r)) : Raises (.document c raw) r e [] r

theorem fails_mapping_iff {key : String} {members : Members} : (description key (.obj members)).Fails r e r' ↔
    (Description.ofMembers (r.category key).label (r.category key).tags members = .error e ∧ r' = r) ∨
    (∃ d, Description.ofMembers (r.category key).label (r.category key).tags members = .ok d ∧
      pluginFor (r.category key) d.tag = .error e ∧ r' = r) ∨
    ∃ d p, (r.category key).Reads members d p ∧
      ((∃ e₀, (build p d.input).Fails r e₀ r' ∧ e = e₀.through [.mapping (r.category key).label d]) ∨
      ∃ o r₁, p.build d.input r = (.ok o, r₁) ∧ registerObject key o d.name r₁ = (.error e, r')) := by
  rw [Fails, compile_obj]
  exact compileMembersWith_eq_error_iff

/-! ## Every diagnostic of a description names a category -/

theorem Raises.category_isSome {key : String} {raw : Json} {frames : List Frame}
    (h : Raises (.description key raw) r e frames r') : (e.through frames).category?.isSome = true := by
  cases h with
  | refused _ _ h =>
    cases h
    rfl
  | unknown h =>
    obtain ⟨-, rfl, -⟩ := lookUp_eq_error_iff.mp h
    rfl
  | malformed h =>
    rcases Description.malformed_cases h with ⟨-, -, -, lacks⟩ | ⟨details, rfl⟩
    · exact Option.isSome_of_eq_some lacks.category
    · rfl
  | untyped _ h =>
    obtain ⟨-, rfl⟩ := pluginFor_eq_error_iff.mp h
    rfl
  | duplicate _ _ h =>
    obtain ⟨n, -, -, rfl, -⟩ := registerObject_eq_error_iff.mp h
    rfl
  | mapping hd h =>
    rw [(Diagnostic.passed_through _ _).category, List.findSome?_append]
    simp [Frame.category?]

/-! ## What comes out was raised -/

/-- Every diagnostic that an attempt comes out with was raised within it. -/
def Explained (a : Attempt) : Prop :=
  ∀ r e r', a.Fails r e r' → ∃ e₀ frames, a.Raises r e₀ frames r' ∧ e = e₀.through frames

theorem explained_call {key : String} {raw : Json} (h : ∀ x ∈ raw.itemsOrSelf, (description key x).Explained) :
    (call key raw).Explained := by
  intro r e r' hfails
  obtain ⟨calls, x, rest, r₁, items, before, hx⟩ := callWith_eq_error_iff.mp hfails
  obtain ⟨e₀, frames, hraises, he⟩ := h x (by simp [items]) r₁ e r' hx
  exact ⟨e₀, frames, .call items before hraises, he⟩

theorem explained_value {l : Loader} {raw : Json} (h : ∀ key x, x.depth ≤ raw.depth → (description key x).Explained) :
    (value l raw).Explained := by
  induction l generalizing raw with
  | read reader =>
    intro r e r' hfails
    cases hread : reader.read raw with
    | ok v => simp [Fails, Loader.load, Loader.loadWith, Action.ofExcept, hread, Except.mapError] at hfails
    | error why =>
      simp only [Fails, Loader.load, Loader.loadWith, Action.ofExcept, hread, Except.mapError] at hfails
      cases hfails
      exact ⟨_, [], .unreadable hread, rfl⟩
  | category name =>
    intro r e r' hfails
    rcases Action.bind_eq_error_iff.mp hfails with hname | ⟨key, r₁, resolved, hcall⟩
    · exact ⟨e, [], .unresolved hname, rfl⟩
    · obtain ⟨e₀, frames, hraises, he⟩ :=
        explained_call (fun x hx => h key x (Json.depth_le_of_mem_itemsOrSelf hx)) r₁ e r' hcall
      exact ⟨e₀, frames, .category resolved hraises, he⟩
  | listOf l ih =>
    intro r e r' hfails
    simp only [Fails, Loader.load, Loader.loadWith, Action.bind_eq_error_iff, Action.eachFrom_eq_error_iff,
      Action.pure_ne_error, and_false, exists_false, or_false] at hfails
    obtain ⟨calls, x, rest, r₁, items, before, e₁, hx, rfl⟩ := hfails
    have hdepth : x.depth ≤ raw.depth := Json.depth_le_of_mem_itemsOrSelf (by simp [items])
    obtain ⟨e₀, frames, hraises, rfl⟩ := ih (fun key y hy => h key y (Nat.le_trans hy hdepth)) r₁ e₁ r' hx
    exact ⟨e₀, _, .item items before hraises, by simp [Frame.pass]⟩

theorem explained_build {p : Plugin} {input : Members}
    (h : ∀ key x, x.depth ≤ Json.membersDepth input → (description key x).Explained) : (build p input).Explained := by
  intro r e r' hfails
  rcases Plugin.buildWith_eq_error_iff.mp hfails with hargs | ⟨args, loaded, why, hwhy, rfl⟩
  · rcases Plugin.argumentsWith_eq_error_iff.mp hargs with ⟨q, hq, rfl, rfl⟩ | ⟨complete, hload⟩
    · exact ⟨_, [], .missing hq, rfl⟩
    · obtain ⟨calls, ⟨q, raw⟩, rest, r₁, order, before, e₁, hvalue, rfl⟩ := hload
      obtain ⟨-, hraw⟩ := Plugin.mem_given.mp (order ▸ List.mem_append_right _ (List.mem_cons_self ..))
      obtain ⟨e₀, frames, hraises, rfl⟩ :=
        explained_value (fun key x hx => h key x (Nat.le_trans hx (Json.depth_le_membersDepth hraw))) r₁ e₁ r' hvalue
      exact ⟨e₀, _, .parameter complete order before hraises, (Diagnostic.through_append _ _).symm⟩
  · exact ⟨_, [], .construct loaded hwhy, rfl⟩

theorem explained_of_inside {key : String} {raw : Json}
    (h : ∀ members, raw = .obj members → ∀ key x, x.depth ≤ Json.membersDepth members → (description key x).Explained) :
    (description key raw).Explained := by
  intro r e r' hfails
  cases raw with
  | str name =>
    simp only [Fails, compile_str] at hfails
    exact ⟨e, [], .unknown hfails, rfl⟩
  | obj members =>
    rcases fails_mapping_iff.mp hfails with
      ⟨hmalformed, rfl⟩ | ⟨d, hd, huntyped, rfl⟩ | ⟨d, p, hd, ⟨e₁, hbuild, rfl⟩ | ⟨o, r₁, built, hregister⟩⟩
    · exact ⟨e, [], .malformed hmalformed, rfl⟩
    · exact ⟨e, [], .untyped hd huntyped, rfl⟩
    · have hinside : (build p d.input).Explained :=
        explained_build fun key x hx => h members rfl key x (Nat.le_trans hx (Description.input_depth_le hd.1))
      obtain ⟨e₀, frames, hraises, rfl⟩ := hinside r e₁ r' hbuild
      exact ⟨e₀, _, .mapping hd hraises, (Diagnostic.through_append _ _).symm⟩
    · exact ⟨e, [], .duplicate hd built hregister, rfl⟩
  | _ =>
    simp only [Fails, compile_eq] at hfails
    exact ⟨e, [], .refused (by simp) (by simp) hfails, rfl⟩

/-- By induction on the depth, which the descriptions inside a mapping do not reach. -/
theorem explained_description (n : Nat) (key : String) (raw : Json) (hn : raw.depth ≤ n) :
    (description key raw).Explained := by
  induction n generalizing key raw with
  | zero =>
    refine explained_of_inside fun members he => ?_
    simp [he, Json.depth] at hn
  | succ n ih =>
    refine explained_of_inside fun members he k x hx => ih k x ?_
    simp only [he, Json.depth] at hn
    omega

theorem category_of_compile {key : String} {raw : Json} (h : compile key raw r = (.error e, r')) :
    e.category?.isSome = true := by
  obtain ⟨e₀, frames, hraises, rfl⟩ := explained_description _ key raw (Nat.le_refl _) r e r' h
  exact hraises.category_isSome

/-! ## Documents -/

/-- Every diagnostic of a description names a category, so a document does not add its own. -/
theorem compileAll_eq (key : String) : Document.compileAll key = Action.each (compile key) := by
  funext items
  refine Action.each_congr fun raw _ => funext fun r => ?_
  simp only [bind, Action.andThen, Action.ask, Action.onError]
  rcases h : compile key raw r with ⟨e | o, r'⟩
  · simp only [Diagnostic.inCategory_of_isSome (category_of_compile h)]
  · rfl

theorem compileSection_eq_error_iff {sections : Members} {name : String} :
    Document.compileSection sections name r = (.error e, r') ↔
      Blueprint.call (r.canonical name) ((Entries.get? name sections).getD (.arr [])) (r.ensure name) = (.error e, r') := by
  have hsection : Document.compileSection sections name r = Document.compileAll ((r.ensure name).canonical name)
      (((Entries.get? name sections).getD (.arr [])).itemsOrSelf) (r.ensure name) := rfl
  rw [hsection, compileAll_eq, Registry.canonical_ensure, Action.each_eq_error_iff, Blueprint.call, callWith_eq_error_iff]

theorem document_eq_error_iff {c : CompileOrder} {sections : Members} :
    Document.compile c (.obj sections) r = (.error e, r') ↔
      (c.sorted r (sections.map (·.1)) = .error e ∧ r' = r) ∨
      ∃ names, c.sorted r (sections.map (·.1)) = .ok names ∧
        Action.Reaches (Document.compileSection sections) r names fun _ name r₁ =>
          Document.compileSection sections name r₁ = (.error e, r') := by
  refine Action.bind_eq_error_iff.trans ?_
  simp [Action.bind_eq_error_iff, Action.each_eq_error_iff, Action.pure_ne_error, @eq_comm _ r]

/-! ## Attempts within attempts -/

/-- One attempt is made within another, after all that is tried before it has succeeded. If it fails, so does the other,
and the diagnostic passes frames. -/
inductive Encloses : Attempt → Registry → Attempt → Registry → List Frame → Prop
  | mapping {r : Registry} {key : String} {members : Members} {d : Description} {p : Plugin}
    (hd : (r.category key).Reads members d p) :
    Encloses (.description key (.obj members)) r (.build p d.input) r [.mapping (r.category key).label d]
  | parameter {r r₁ : Registry} {p : Plugin} {input : Members} {calls : List ((Parameter × Json) × Value)}
    {q : Parameter} {raw : Json} {rest : List (Parameter × Json)} (complete : p.missing? input = none)
    (order : p.given input = calls.map (·.1) ++ (q, raw) :: rest)
    (before : Action.Calls (Parameter.loaded compile) r calls r₁) :
    Encloses (.build p input) r (.value q.loader raw) r₁ [.parameter q.name, .plugin p.tag]
  | category {r r₁ : Registry} {name key : String} {raw : Json} (resolved : resolve name r = (.ok key, r₁)) :
    Encloses (.value (.category name) raw) r (.call key raw) r₁ []
  | item {r r₁ : Registry} {l : Loader} {raw x : Json} {calls : List (Json × Value)} {rest : List Json}
    (items : raw.itemsOrSelf = calls.map (·.1) ++ x :: rest) (before : Action.Calls l.load r calls r₁) :
    Encloses (.value (.listOf l) raw) r (.value l x) r₁ [.item calls.length]
  | call {r r₁ : Registry} {key : String} {raw x : Json} {calls : List (Json × Handle)} {rest : List Json}
    (items : raw.itemsOrSelf = calls.map (·.1) ++ x :: rest) (before : Action.Calls (compile key) r calls r₁) :
    Encloses (.call key raw) r (.description key x) r₁ []
  | entry {r : Registry} {sections : Members} {name : String} :
    Encloses (.entry sections name) r (.call (r.canonical name) ((Entries.get? name sections).getD (.arr [])))
      (r.ensure name) []
  | document {r r₁ : Registry} {c : CompileOrder} {sections : Members} {calls : List (String × List Handle)}
    {name : String} {rest : List String}
    (sorted : c.sorted r (sections.map (·.1)) = .ok (calls.map (·.1) ++ name :: rest))
    (before : Action.Calls (Document.compileSection sections) r calls r₁) :
    Encloses (.document c (.obj sections)) r (.entry sections name) r₁ []

/-- No attempt that is made within this one fails. -/
def Innermost (a : Attempt) (r : Registry) : Prop :=
  ∀ b r₁ frames e r', Encloses a r b r₁ frames → ¬ b.Fails r₁ e r'

section

variable {a b b' : Attempt} {r₁ r₁' r'' : Registry} {e' : Diagnostic} {frames frames' : List Frame}
  {p : Plugin} {input : Members}

theorem Fails.unique (h : a.Fails r e r') (h' : a.Fails r e' r'') : e = e' ∧ r' = r'' := by
  cases a <;> cases h.symm.trans h' <;> exact ⟨rfl, rfl⟩

theorem arguments_of_missing {p : Plugin} {input : Members} {q : Parameter} (h : p.missing? input = some q) :
    p.arguments input r = (.error (.missingRequiredParameter p.tag q.name), r) :=
  Plugin.argumentsWith_eq_error_iff.mpr (.inl ⟨q, h, rfl, rfl⟩)

theorem arguments_of_parameter {p : Plugin} {input : Members} {calls : List ((Parameter × Json) × Value)} {r₁ : Registry}
    {q : Parameter} {raw : Json} {rest : List (Parameter × Json)} (complete : p.missing? input = none)
    (order : p.given input = calls.map (·.1) ++ (q, raw) :: rest)
    (before : Action.Calls (Parameter.loaded compile) r calls r₁) (h : q.loader.load raw r₁ = (.error e, r')) :
    p.arguments input r = (.error (e.through [.parameter q.name, .plugin p.tag]), r') :=
  Plugin.argumentsWith_eq_error_iff.mpr (.inr ⟨complete, calls, (q, raw), rest, r₁, order, before, e, h, rfl⟩)

theorem Encloses.fails (h : Encloses a r b r₁ frames) (hb : b.Fails r₁ e r') : a.Fails r (e.through frames) r' := by
  cases h with
  | mapping hd =>
    exact fails_mapping_iff.mpr (.inr (.inr ⟨_, _, hd, .inl ⟨_, hb, rfl⟩⟩))
  | parameter complete order before =>
    exact Plugin.buildWith_eq_error_iff.mpr (.inl (arguments_of_parameter complete order before hb))
  | category resolved => exact Action.bind_eq_error_iff.mpr (.inr ⟨_, _, resolved, hb⟩)
  | item items before =>
    refine Action.bind_eq_error_iff.mpr (.inl (Action.eachFrom_eq_error_iff.mpr ?_))
    exact ⟨_, _, _, _, items, before, _, hb, by simp [Frame.pass]⟩
  | call items before => exact callWith_eq_error_iff.mpr ⟨_, _, _, _, items, before, hb⟩
  | entry => exact compileSection_eq_error_iff.mpr hb
  | document sorted before => exact document_eq_error_iff.mpr (.inr ⟨_, sorted, _, _, _, _, rfl, before, hb⟩)

/-- At most one attempt that is made within another fails, since nothing is tried after it. -/
theorem Encloses.unique (h : Encloses a r b r₁ frames) (h' : Encloses a r b' r₁' frames') (hb : b.Fails r₁ e r')
    (hb' : b'.Fails r₁' e' r'') : b = b' ∧ r₁ = r₁' ∧ frames = frames' := by
  cases h with
  | mapping hd =>
    cases h' with
    | mapping hd' =>
      obtain ⟨rfl, rfl⟩ := hd.unique hd'
      exact ⟨rfl, rfl, rfl⟩
  | parameter _ order before =>
    cases h' with
    | parameter _ order' before' =>
      obtain ⟨-, ⟨⟩, -, rfl⟩ :=
        before.first_failure_unique (x := (_, _)) (y := (_, _)) before' hb hb' (order.symm.trans order')
      exact ⟨rfl, rfl, rfl⟩
  | category resolved =>
    cases h' with
    | category resolved' =>
      cases resolved.symm.trans resolved'
      exact ⟨rfl, rfl, rfl⟩
  | item items before =>
    cases h' with
    | item items' before' =>
      obtain ⟨rfl, rfl, -, rfl⟩ := before.first_failure_unique before' hb hb' (items.symm.trans items')
      exact ⟨rfl, rfl, rfl⟩
  | call items before =>
    cases h' with
    | call items' before' =>
      obtain ⟨-, rfl, -, rfl⟩ := before.first_failure_unique before' hb hb' (items.symm.trans items')
      exact ⟨rfl, rfl, rfl⟩
  | entry =>
    cases h' with
    | entry => exact ⟨rfl, rfl, rfl⟩
  | document sorted before =>
    cases h' with
    | document sorted' before' =>
      obtain ⟨-, rfl, -, rfl⟩ :=
        before.first_failure_unique before' hb hb' (Except.ok.inj (sorted.symm.trans sorted'))
      exact ⟨rfl, rfl, rfl⟩

/-! ### Attempts that are innermost -/

theorem innermost_description {key : String} {raw : Json} (map : ∀ members, raw ≠ .obj members) :
    (description key raw).Innermost r := by
  intro _ _ _ _ _ hencloses
  cases hencloses with
  | mapping => exact absurd rfl (map _)

theorem innermost_unread {key : String} {members : Members} (h : ∀ d p, ¬ (r.category key).Reads members d p) :
    (description key (.obj members)).Innermost r := by
  intro _ _ _ _ _ hencloses
  cases hencloses with
  | mapping hd => exact absurd hd (h _ _)

theorem innermost_built {key : String} {members : Members} {d : Description} {o : Object}
    (hd : (r.category key).Reads members d p) (built : p.build d.input r = (.ok o, r₁)) :
    (description key (.obj members)).Innermost r := by
  intro _ _ _ _ _ hencloses hfails
  cases hencloses with
  | mapping hd' =>
    obtain ⟨rfl, rfl⟩ := hd.unique hd'
    cases built.symm.trans hfails

theorem innermost_missing {q : Parameter} (h : p.missing? input = some q) : (build p input).Innermost r := by
  intro _ _ _ _ _ hencloses
  cases hencloses with
  | parameter complete => cases h.symm.trans complete

theorem innermost_loaded {args : Arguments} (loaded : p.arguments input r = (.ok args, r₁)) :
    (build p input).Innermost r := by
  intro _ _ _ _ _ hencloses hfails
  cases hencloses with
  | parameter complete order before =>
    cases (arguments_of_parameter complete order before hfails).symm.trans loaded

theorem innermost_read {reader : Reader} {raw : Json} : (value (.read reader) raw).Innermost r := by
  intro _ _ _ _ _ hencloses
  cases hencloses

theorem innermost_unresolved {name : String} {raw : Json} (h : resolve name r = (.error e, r')) :
    (value (.category name) raw).Innermost r := by
  intro _ _ _ _ _ hencloses
  cases hencloses with
  | category resolved => cases h.symm.trans resolved

theorem innermost_unlisted {c : CompileOrder} {sections : Members}
    (h : c.sorted r (sections.map (·.1)) = .error e) : (document c (.obj sections)).Innermost r := by
  intro _ _ _ _ _ hencloses
  cases hencloses with
  | document sorted => cases h.symm.trans sorted

theorem innermost_shapeless {c : CompileOrder} {raw : Json} (map : ∀ members, raw ≠ .obj members) :
    (document c raw).Innermost r := by
  intro _ _ _ _ _ hencloses
  cases hencloses with
  | document => exact absurd rfl (map _)

/-! ### Tracing a failure -/

/-- A failure followed inwards, from attempt to attempt, to the innermost one. -/
inductive Traced : Attempt → Registry → Diagnostic → List Frame → Registry → Prop
  | here {a : Attempt} {r r' : Registry} {e : Diagnostic} (fails : a.Fails r e r') (innermost : a.Innermost r) :
    Traced a r e [] r'
  | within {a b : Attempt} {r r₁ r' : Registry} {e : Diagnostic} {frames outer : List Frame}
    (h : Encloses a r b r₁ outer) (t : Traced b r₁ e frames r') : Traced a r e (frames ++ outer) r'

theorem Traced.fails (h : Traced a r e frames r') : a.Fails r (e.through frames) r' := by
  induction h with
  | here fails => exact fails
  | within h _ ih =>
    rw [Diagnostic.through_append]
    exact h.fails ih

theorem Traced.unique (h : Traced a r e frames r') (h' : Traced a r e' frames' r'') :
    e = e' ∧ frames = frames' ∧ r' = r'' := by
  induction h generalizing e' frames' r'' with
  | here fails innermost =>
    cases h' with
    | here fails' =>
      obtain ⟨rfl, rfl⟩ := fails.unique fails'
      exact ⟨rfl, rfl, rfl⟩
    | within h' t' => exact absurd t'.fails (innermost _ _ _ _ _ h')
  | within h t ih =>
    cases h' with
    | here _ innermost => exact absurd t.fails (innermost _ _ _ _ _ h)
    | within h' t' =>
      obtain ⟨rfl, rfl, rfl⟩ := h.unique h' t.fails t'.fails
      obtain ⟨rfl, rfl, rfl⟩ := ih t'
      exact ⟨rfl, rfl, rfl⟩

end

theorem Raises.traced {a : Attempt} {frames : List Frame} (h : a.Raises r e frames r') : Traced a r e frames r' := by
  induction h with
  | refused text map h =>
    refine .here ?_ (innermost_description map)
    rw [Fails, compile_eq, compileWith]
    exacts [h, text, map]
  | unknown h =>
    refine .here ?_ (innermost_description (by simp))
    rw [Fails, compile_str]
    exact h
  | malformed h =>
    exact .here (fails_mapping_iff.mpr (.inl ⟨h, rfl⟩)) (innermost_unread fun d p hd => by cases h.symm.trans hd.1)
  | untyped hd h =>
    refine .here (fails_mapping_iff.mpr (.inr (.inl ⟨_, hd, h, rfl⟩))) (innermost_unread fun d p hd' => ?_)
    cases hd.symm.trans hd'.1
    cases h.symm.trans hd'.2
  | duplicate hd built h =>
    exact .here (fails_mapping_iff.mpr (.inr (.inr ⟨_, _, hd, .inr ⟨_, _, built, h⟩⟩))) (innermost_built hd built)
  | mapping hd _ ih => exact .within (.mapping hd) ih
  | missing h => exact .here (Plugin.buildWith_eq_error_iff.mpr (.inl (arguments_of_missing h))) (innermost_missing h)
  | parameter complete order before _ ih => exact .within (.parameter complete order before) ih
  | construct loaded h =>
    exact .here (Plugin.buildWith_eq_error_iff.mpr (.inr ⟨_, loaded, _, h, rfl⟩)) (innermost_loaded loaded)
  | unreadable h =>
    refine .here ?_ innermost_read
    rw [Fails, Loader.load, Loader.loadWith, h]
    rfl
  | unresolved h => exact .here (Action.bind_eq_error_iff.mpr (.inl h)) (innermost_unresolved h)
  | category resolved _ ih => simpa using Traced.within (.category resolved) ih
  | item items before _ ih => exact .within (.item items before) ih
  | call items before _ ih => simpa using Traced.within (.call items before) ih
  | entry _ ih => simpa using Traced.within .entry ih
  | document sorted before _ ih => simpa using Traced.within (.document sorted before) ih
  | unlisted h => exact .here (document_eq_error_iff.mpr (.inl ⟨h, rfl⟩)) (innermost_unlisted h)
  | shapeless map h => exact .here h (innermost_shapeless map)

/-- What is raised comes out. -/
theorem Raises.fails {a : Attempt} {frames : List Frame} (h : a.Raises r e frames r') :
    a.Fails r (e.through frames) r' := h.traced.fails

/-- A run fails at one place only. -/
theorem Raises.unique {a : Attempt} {frames frames' : List Frame} {e' : Diagnostic} {r'' : Registry}
    (h : a.Raises r e frames r') (h' : a.Raises r e' frames' r'') : e = e' ∧ frames = frames' ∧ r' = r'' :=
  h.traced.unique h'.traced

/-! ## Every attempt -/

theorem explained_entry (sections : Members) (name : String) : (entry sections name).Explained := by
  intro r e r' hfails
  have hcall : (call (r.canonical name) ((Entries.get? name sections).getD (.arr []))).Explained :=
    explained_call fun x _ => explained_description _ _ x (Nat.le_refl _)
  obtain ⟨e₀, frames, hraises, he⟩ := hcall (r.ensure name) e r' (compileSection_eq_error_iff.mp hfails)
  exact ⟨e₀, frames, .entry hraises, he⟩

theorem explained_document (c : CompileOrder) (raw : Json) : (document c raw).Explained := by
  intro r e r' hfails
  cases raw with
  | obj sections =>
    rcases document_eq_error_iff.mp hfails with ⟨hsorted, rfl⟩ | ⟨_, sorted, calls, name, rest, r₁, rfl, before, hentry⟩
    · exact ⟨e, [], .unlisted hsorted, rfl⟩
    · obtain ⟨e₀, frames, hraises, he⟩ := explained_entry sections name r₁ e r' hentry
      exact ⟨e₀, frames, .document sorted before hraises, he⟩
  | _ =>
    cases hfails
    exact ⟨_, [], .shapeless (by simp) rfl, rfl⟩

theorem explained (a : Attempt) : a.Explained := by
  have hdescription : ∀ key x, (description key x).Explained :=
    fun key x => explained_description _ key x (Nat.le_refl _)
  cases a with
  | document c raw => exact explained_document c raw
  | entry sections name => exact explained_entry sections name
  | call key raw => exact explained_call fun x _ => hdescription key x
  | description key raw => exact hdescription key raw
  | build p input => exact explained_build fun key x _ => hdescription key x
  | value l raw => exact explained_value fun key x _ => hdescription key x

theorem category_of_call {key : String} {raw : Json} (h : Blueprint.call key raw r = (.error e, r')) :
    e.category?.isSome = true := by
  obtain ⟨calls, x, rest, r₁, -, -, hx⟩ := callWith_eq_error_iff.mp h
  exact category_of_compile hx

theorem category_of_sorted {c : CompileOrder} {names : List String} (h : c.sorted r names = .error e) :
    e.category?.isSome = true := by
  obtain ⟨key, -, rfl⟩ := (CompileOrder.sorted_eq_error_iff _ _).mp h
  rfl

end Attempt

/-- An attempt fails with a diagnostic exactly if one is raised within it and comes out through the frames around its
place: what it says and names stays, the nearest frame names what it does not, and notes are appended from the inside
outwards. The place is the only one. Whatever fails on the way to the object of a description names a category; only a
document that is no mapping, and has no descriptions, is refused without one. -/
theorem failure_provenance (r r' : Registry) (e : Diagnostic) :
    (∀ a : Attempt, a.Fails r e r' ↔ ∃ e₀ frames, a.Raises r e₀ frames r' ∧ e₀.Passed frames e) ∧
    (∀ (a : Attempt) e₀ frames e₁ frames' r'', a.Raises r e₀ frames r' → a.Raises r e₁ frames' r'' →
      e₀ = e₁ ∧ frames = frames' ∧ r' = r'') ∧
    (∀ key raw, compile key raw r = (.error e, r') ∨ call key raw r = (.error e, r') → e.category?.isSome = true) ∧
    ∀ c sections, Document.compile c (.obj sections) r = (.error e, r') → e.category?.isSome = true := by
  refine ⟨fun a => ⟨fun h => ?_, ?_⟩, fun a e₀ frames e₁ frames' r'' h h' => h.unique h', fun key raw h => ?_,
    fun c sections h => ?_⟩
  · obtain ⟨e₀, frames, hraises, rfl⟩ := a.explained r e r' h
    exact ⟨e₀, frames, hraises, Diagnostic.passed_through e₀ frames⟩
  · rintro ⟨e₀, frames, hraises, hpassed⟩
    rw [Diagnostic.passed_iff.mp hpassed]
    exact hraises.fails
  · rcases h with h | h
    · exact Attempt.category_of_compile h
    · exact Attempt.category_of_call h
  · rcases Attempt.document_eq_error_iff.mp h with ⟨hsorted, -⟩ | ⟨names, -, calls, name, rest, r₁, -, -, hsection⟩
    · exact Attempt.category_of_sorted hsorted
    · exact Attempt.category_of_call (Attempt.compileSection_eq_error_iff.mp hsection)

/-- What an interval without bounds in a union comes out with: it stays the interval that lacks a bound, and the notes
lead from it to the union. -/
example :
    let interval : Json := .obj [("type", .str "interval"), ("name", .str "left"), ("cv", .obj [("type", .str "position")])]
    (match (compile "volume" (.obj [("type", .str "union"), ("volumes", interval)]) Sampling.standardRegistry).1 with
      | .ok _ => none
      | .error e => e.location) =
    some { category := some "volume", plugin := some "interval", parameter := some "min",
           notes := ["while compiling volume 'left'", "in list item 0", "while compiling a volume of type 'union'"] } := by
  decide +kernel

end Blueprint
