import Blueprint.Proofs.Compile.Chronicle

/-!
# Compiling adds to the chronicle

`Action.Records` says of an action that it only adds to the chronicle of a registry, whether it succeeds or fails, and
what its result stands for if it succeeds. Every part of the compiler does so; a description is compiled into the object
that it stands for (`compile_records`).
-/

namespace Blueprint

variable {α β : Type} {c : Catalogue} {docs : List Json} {log log' : List Mapping} {r : Registry}

/-! ## Actions that keep the chronicle -/

/-- The action adds to the chronicle of any registry with this log; if it succeeds, its result fits the longer log. -/
def Action.Records (a : Action α) (c : Catalogue) (docs : List Json) (log : List Mapping)
    (post : List Mapping → α → Prop) : Prop :=
  ∀ r, Chronicle c docs log r → ∃ log', log <+: log' ∧ Chronicle c docs log' (a r).2 ∧
    ∀ x, (a r).1 = .ok x → post log' x

namespace Action.Records

variable {a : Action α} {f : α → Action β} {post : List Mapping → α → Prop} {post' : List Mapping → β → Prop}

theorem of_read {g : Registry → Except Diagnostic α}
    (h : ∀ r, Chronicle c docs log r → ∀ x, g r = .ok x → post log x) :
    Records (fun r => (g r, r)) c docs log post :=
  fun r hr => ⟨log, List.prefix_refl _, hr, h r hr⟩

theorem of_any (g : Registry → Except Diagnostic α) : Records (fun r => (g r, r)) c docs log fun _ _ => True :=
  of_read fun _ _ _ _ => trivial

theorem onError (h : a.Records c docs log post) (g : Diagnostic → Diagnostic) :
    (a.onError g).Records c docs log post := by
  intro r hr
  obtain ⟨log', hp, hr', ok⟩ := h r hr
  refine ⟨log', hp, ?_, fun x hx => ?_⟩
  · simp only [Action.onError]
    split <;> simp_all
  · simp only [Action.onError] at hx
    split at hx <;> simp_all

theorem bind (ha : a.Records c docs log post)
    (hf : ∀ x log', log <+: log' → post log' x → (f x).Records c docs log' post') :
    (a >>= f).Records c docs log post' := by
  intro r hr
  obtain ⟨log₁, hp, hr₁, ok⟩ := ha r hr
  have hb : (a >>= f) r = a.andThen f r := rfl
  rw [hb, Action.andThen]
  rcases har : a r with ⟨res, r₁⟩
  rw [har] at hr₁ ok
  cases res with
  | error e => exact ⟨log₁, hp, hr₁, by simp⟩
  | ok x =>
    obtain ⟨log₂, hp', hr₂, ok'⟩ := hf x log₁ hp (ok x rfl) r₁ hr₁
    exact ⟨log₂, hp.trans hp', hr₂, ok'⟩

theorem mono (ha : a.Records c docs log post) {post₁ : List Mapping → α → Prop}
    (h : ∀ x log', log <+: log' → post log' x → post₁ log' x) : a.Records c docs log post₁ := by
  intro r hr
  obtain ⟨log', hp, hr', ok⟩ := ha r hr
  exact ⟨log', hp, hr', fun x hx => h x log' hp (ok x hx)⟩

/-- Items are recorded one after the other; what holds of a result goes on to hold while the log grows. -/
theorem eachFrom {f : Nat → α → Action β} {Q : List Mapping → α → β → Prop}
    (stable : ∀ x y log log', log <+: log' → Q log x y → Q log' x y) {xs : List α}
    (hf : ∀ i, ∀ x ∈ xs, ∀ log', log <+: log' → (f i x).Records c docs log' (Q · x)) (i : Nat) :
    (Action.eachFrom f i xs).Records c docs log fun log' ys => List.Forall₂ (Q log') xs ys := by
  induction xs generalizing i log with
  | nil => exact of_read (g := fun _ => .ok []) fun _ _ ys hy => by cases hy; exact .nil
  | cons x xs ih =>
    refine (hf i x (by simp) log (List.prefix_refl _)).bind fun y log₁ hp hy => ?_
    refine (ih (fun i x hx log' hp' => hf i x (by simp [hx]) log' (hp.trans hp')) (i + 1)).bind fun ys log₂ hp' hys => ?_
    refine of_read (g := fun _ => .ok (y :: ys)) fun _ _ zs hz => ?_
    cases hz
    exact .cons (stable x y log₁ log₂ hp' hy) hys

theorem each {f : α → Action β} {Q : List Mapping → α → β → Prop}
    (stable : ∀ x y log log', log <+: log' → Q log x y → Q log' x y) {xs : List α}
    (hf : ∀ x ∈ xs, ∀ log', log <+: log' → (f x).Records c docs log' (Q · x)) :
    (Action.each f xs).Records c docs log fun log' ys => List.Forall₂ (Q log') xs ys := by
  rw [Action.each_eq_eachFrom f 0]
  exact eachFrom stable (fun _ => hf) 0

end Action.Records

/-! ## Loading -/

theorem resolve_records (name : String) : (resolve name).Records c docs log fun _ key => key = c.key name := by
  intro r hr
  refine ⟨log, List.prefix_refl _, ?_, ?_⟩ <;> simp only [resolve]
  · split <;> exact hr
  · split
    · rintro key ⟨⟩
      rw [← hr.catalogue]
      rfl
    · simp

namespace Compile

/-- Descriptions of at most some depth are compiled into the objects that they stand for. -/
def RecordsTo (compile : Compile) (c : Catalogue) (docs : List Json) (depth : Nat) : Prop :=
  ∀ key x log, x.depth ≤ depth → x.Within docs →
    (compile key x).Records c docs log fun log' h => Stands log' key x h

variable {compile : Compile} {n : Nat}

theorem RecordsTo.mono {m : Nat} (h : RecordsTo compile c docs n) (hm : m ≤ n) : RecordsTo compile c docs m :=
  fun key x log hx => h key x log (Nat.le_trans hx hm)

theorem RecordsTo.callWith {raw : Json} (h : RecordsTo compile c docs raw.depth) (hraw : raw.Within docs)
    (key : String) : (callWith compile key raw).Records c docs log fun log' v => Represents log' key raw v := by
  cases raw with
  | arr items =>
    simp only [Blueprint.callWith]
    refine (Action.Records.each (Q := fun log' => Stands log' key) (fun _ _ _ _ hp hs => hs.mono hp)
      fun x hx log' _ => ?_).bind fun hs log' _ hall => ?_
    · exact h key x log' (Nat.le_succ_of_le (Json.depth_le_itemsDepth hx)) (hraw.item hx)
    · exact .of_read (g := fun _ => .ok _) fun _ _ v hv => by cases hv; exact .items hall
  | _ =>
    simp only [Blueprint.callWith]
    refine (h key _ log (Nat.le_refl _) hraw).bind fun o log' _ hs => ?_
    exact .of_read (g := fun _ => .ok _) fun _ _ v hv => by cases hv; exact .single hs

theorem RecordsTo.callNamed {raw : Json} (h : RecordsTo compile c docs raw.depth) (hraw : raw.Within docs)
    (name : String) :
    (callNamed compile name raw).Records c docs log fun log' v => Represents log' (c.key name) raw v := by
  refine (resolve_records name).bind fun key log' _ hkey => ?_
  obtain rfl := hkey
  exact h.callWith hraw _

theorem RecordsTo.loadWith {l : Loader} {raw : Json} (h : RecordsTo compile c docs raw.depth)
    (hraw : raw.Within docs) : (l.loadWith compile raw).Records c docs log fun log' v => l.Supplies c log' raw v := by
  induction l generalizing raw log with
  | read reader =>
    refine .of_read (g := fun _ => (reader.read raw).mapError Diagnostic.ofLoadError) fun _ _ v hv => ?_
    cases hread : reader.read raw with
    | error e => simp [hread, Except.mapError] at hv
    | ok w => simp_all [Except.mapError, Loader.Supplies]
  | category name => exact h.callNamed hraw name
  | listOf item ih =>
    simp only [Loader.loadWith]
    refine (Action.Records.eachFrom (Q := fun log' => item.Supplies c log') (fun _ _ _ _ hp hv => hv.mono hp)
      (fun i x hx log' _ => ?_) 0).bind fun vs log' _ hall => ?_
    · exact (ih (h.mono (Json.depth_le_of_mem_itemsOrSelf hx)) (hraw.itemsOrSelf hx)).onError _
    · exact .of_read (g := fun _ => .ok _) fun _ _ v hv => by cases hv; exact ⟨vs, rfl, hall⟩

end Compile

/-! ## Building the object of a mapping -/

namespace Plugin

variable {p : Plugin} {m : Mapping} {input : Members} {args : Arguments} {compile : Compile}

theorem Accounts.mono (hp : log <+: log') (h : p.Accounts c log input args) : p.Accounts c log' input args :=
  fun key value hkey => (h key value hkey).mono hp

theorem accounts_defaults : p.Accounts c log input p.defaults := by
  intro key value h
  rcases Dict.get?_insertAll_cases h with hm | hn
  · obtain ⟨q, hq, hv⟩ := List.mem_filterMap.mp hm
    obtain ⟨v, hd, he⟩ := Option.map_eq_some_iff.mp hv
    cases he
    exact .byDefault (List.mem_filter.mp hq).1 hd
  · simp at hn

theorem Accounts.insert (h : p.Accounts c log input args) {q : Parameter} (hq : q ∈ p.parameters) {raw : Json}
    (hraw : Entries.get? q.name input = some raw) {value : Value} (hv : q.loader.Supplies c log raw value) :
    p.Accounts c log input (args.insert q.name value) := by
  intro key v hkey
  rw [Dict.get?_insert] at hkey
  split at hkey
  · next e =>
    cases hkey
    exact e ▸ .loaded hq hraw hv
  · exact h key v hkey

theorem Accounts.addUndeclared (h : p.Accounts c log input args) :
    p.Accounts c log input (p.addUndeclared args input) := by
  intro key v hkey
  rcases Dict.get?_insertAll_cases hkey with hm | ha
  · obtain ⟨m, hm, he⟩ := List.mem_map.mp hm
    obtain ⟨hin, hnone⟩ := List.mem_filter.mp hm
    cases he
    exact .undeclared (by simpa using hnone) hin
  · exact h key v ha

/-- What was loaded is added to the arguments, and nothing is taken away. -/
theorem loadParameters_records (h : compile.RecordsTo c docs (Json.membersDepth m.input)) (hm : m.Within docs)
    {qs : List Parameter} (hqs : ∀ q ∈ qs, q ∈ p.parameters) (hargs : p.Accounts c log m.input args) :
    (p.loadParameters compile m.input args qs).Records c docs log fun log' args' =>
      p.Accounts c log' m.input args' ∧ ∀ key, (args.contains key = true ∨
        ∃ q ∈ qs, q.name = key ∧ (Entries.get? key m.input).isSome = true) → args'.contains key = true := by
  induction qs generalizing args log with
  | nil =>
    refine .of_read (g := fun _ => .ok args) fun _ _ x hx => ?_
    cases hx
    exact ⟨hargs, fun key hkey => by simpa using hkey⟩
  | cons q qs ih =>
    have hrest : ∀ q ∈ qs, q ∈ p.parameters := fun q hq => hqs q (by simp [hq])
    simp only [loadParameters]
    cases hraw : Entries.get? q.name m.input with
    | none =>
      refine (ih hrest hargs).mono fun args' log' _ hloaded => ⟨hloaded.1, fun key hkey => hloaded.2 key ?_⟩
      rcases hkey with hkey | ⟨q', hq', rfl, hin⟩
      · exact .inl hkey
      · rcases List.mem_cons.mp hq' with rfl | hq'
        · simp [hraw] at hin
        · exact .inr ⟨q', hq', rfl, hin⟩
    | some raw =>
      have hload : (q.resolveWith compile raw).Records c docs log fun log' v => q.loader.Supplies c log' raw v :=
        ((h.mono (Json.depth_le_membersDepth hraw)).loadWith (hm.get? hraw)).onError _
      refine (hload.onError _).bind fun value log' hp hv => ?_
      refine (ih hrest ((hargs.mono hp).insert (hqs q (by simp)) hraw hv)).mono
        fun args' _ _ hloaded => ⟨hloaded.1, fun key hkey => hloaded.2 key ?_⟩
      rcases hkey with hkey | ⟨q', hq', rfl, hin⟩
      · simp [Dict.contains_insert, hkey]
      · rcases List.mem_cons.mp hq' with rfl | hq'
        · simp [Dict.contains_insert]
        · exact .inr ⟨q', hq', rfl, hin⟩

theorem contains_defaults {q : Parameter} (hq : q ∈ p.optionalParameters) : p.defaults.contains q.name = true := by
  obtain ⟨-, hoptional⟩ := List.mem_filter.mp hq
  obtain ⟨value, hd⟩ : ∃ value, q.default = some value := by
    simpa [Parameter.isRequired, Option.isSome_iff_exists] using hoptional
  refine (Dict.contains_insertAll_iff _ _ _).mpr (.inl ?_)
  exact List.mem_map.mpr ⟨(q.name, value), List.mem_filterMap.mpr ⟨q, hq, by simp [hd]⟩, rfl⟩

/-- A required parameter was loaded, and an optional one has its default at least. -/
theorem argumentsWith_records (h : compile.RecordsTo c docs (Json.membersDepth m.input)) (hm : m.Within docs) :
    (p.argumentsWith compile m.input).Records c docs log fun log' args =>
      p.Accounts c log' m.input args ∧ ∀ q ∈ p.parameters, args.contains q.name = true := by
  simp only [argumentsWith]
  split
  · exact .of_read (g := fun _ => .error _) fun _ _ x hx => by cases hx
  · next hpresent =>
    refine (loadParameters_records h hm (fun q => mem_parameters_of_load_order) accounts_defaults).bind
      fun args log' _ hloaded => ?_
    obtain ⟨hargs, hkept⟩ := hloaded
    refine .of_read (g := fun _ => .ok _) fun _ _ x hx => ?_
    cases hx
    refine ⟨hargs.addUndeclared, fun q hq => (Dict.contains_insertAll_iff _ _ _).mpr (.inr (hkept q.name ?_))⟩
    by_cases hr : q.isRequired = true
    · have hreq : q ∈ p.requiredParameters := List.mem_filter.mpr ⟨hq, hr⟩
      have hin := List.find?_eq_none.mp hpresent q hreq
      exact .inr ⟨q, List.mem_append_left _ hreq, rfl, by simpa [Option.isSome_iff_ne_none] using hin⟩
    · exact .inl (contains_defaults (List.mem_filter.mpr ⟨hq, by simpa using hr⟩))

theorem buildWith_records (h : compile.RecordsTo c docs (Json.membersDepth m.input)) (hm : m.Within docs)
    (hplugin : m.plugin? c = some p) :
    (p.buildWith compile m.input).Records c docs log fun log' o => m.Made c log' o := by
  refine (argumentsWith_records h hm).bind fun args log' _ ⟨hargs, complete⟩ => ?_
  refine .of_read (g := fun r => (p.builder.build r.store args).mapError (Diagnostic.ofBuildError p.tag))
    fun r _ o ho => ?_
  cases hb : p.builder.build r.store args with
  | error e => simp [hb, Except.mapError] at ho
  | ok o' =>
    obtain rfl : o' = o := by simpa [hb, Except.mapError] using ho
    exact .build hplugin hargs complete hb

end Plugin

/-! ## Compiling -/

theorem registerObject_records {m : Mapping} (hm : m.Within docs) {o : Object} (hmade : m.Made c log o) :
    (registerObject m.key o m.name?).Records c docs log fun log' h => Stands log' m.key (.obj m.members) h := by
  intro r hr
  rcases registerObject_cases r m.key o m.name? with ⟨-, he⟩ | ⟨n, -, -, he⟩
  · refine ⟨log ++ [m], List.prefix_append _ _, by rw [he]; exact hr.enroll hm hmade, fun h hh => ?_⟩
    rw [he] at hh
    cases hh
    exact .mapping (by simp [Store.next, hr.length])
  · exact ⟨log, List.prefix_refl _, by rw [he]; exact hr, fun h hh => by rw [he] at hh; cases hh⟩

theorem compileMembersWith_records {compile : Compile} {key : String} {members : Members}
    (h : compile.RecordsTo c docs (Json.membersDepth members)) (hm : (Mapping.mk key members).Within docs) :
    (compileMembersWith compile key members).Records c docs log fun log' h => Stands log' key (.obj members) h := by
  intro r hr
  simp only [compileMembersWith, bind, Action.andThen, Action.ask, Action.ofExcept]
  cases hd : Description.ofMembers (r.category key).label (r.category key).tags members with
  | error e => exact ⟨log, List.prefix_refl _, hr, fun x hx => by cases hx⟩
  | ok d =>
    simp only
    obtain ⟨hname, htag, hinput⟩ := Description.of_ok hd key
    cases hp : pluginFor (r.category key) d.tag with
    | error e => exact ⟨log, List.prefix_refl _, hr, fun x hx => by cases hx⟩
    | ok p =>
      have hplugin : (Mapping.mk key members).plugin? c = some p := by
        simp only [Mapping.plugin?, htag, ← hr.catalogue]
        exact pluginFor_eq_ok hp
      have hinside := h.mono (Mapping.mk key members).input_depth_le
      have hbuild : (p.buildWith compile (Mapping.mk key members).input).Records c docs log fun log' o =>
          (Mapping.mk key members).Made c log' o := Plugin.buildWith_records hinside hm hplugin
      rw [hname, hinput]
      exact ((hbuild.onError _).bind fun o log' _ hmade => registerObject_records hm hmade) r hr

theorem lookUp_records (key name : String) :
    (lookUp key name).Records c docs log fun log' h => Stands log' key (.str name) h := by
  intro r hr
  refine ⟨log, List.prefix_refl _, ?_, ?_⟩ <;> simp only [lookUp]
  · split <;> exact hr
  · split
    · next o ho =>
      rintro x ⟨⟩
      exact hr.named key name o ho
    · simp

theorem compile_records_of_inside {key : String} {raw : Json} (hraw : raw.Within docs)
    (h : ∀ members, raw = .obj members → Compile.RecordsTo compile c docs (Json.membersDepth members)) :
    (compile key raw).Records c docs log fun log' h => Stands log' key raw h := by
  cases raw with
  | str name =>
    rw [compile_str]
    exact lookUp_records key name
  | obj members =>
    rw [compile_obj]
    exact compileMembersWith_records (h members rfl) hraw
  | _ =>
    rw [compile_eq]
    exact .of_read (g := fun _ => .error _) fun _ _ x hx => by cases hx

/-- Descriptions are compiled into the objects that they stand for: by induction on the depth, which the descriptions
inside a mapping do not reach. -/
theorem compile_recordsTo (n : Nat) : Compile.RecordsTo compile c docs n := by
  induction n with
  | zero =>
    intro key raw log hd hraw
    refine compile_records_of_inside hraw fun members he => ?_
    simp [he, Json.depth] at hd
  | succ n ih =>
    intro key raw log hd hraw
    refine compile_records_of_inside hraw fun members he => ih.mono ?_
    simp only [he, Json.depth] at hd
    omega

theorem compile_records {key : String} {raw : Json} (hraw : raw.Within docs) :
    (compile key raw).Records c docs log fun log' h => Stands log' key raw h :=
  compile_recordsTo raw.depth key raw log (Nat.le_refl _) hraw

end Blueprint
