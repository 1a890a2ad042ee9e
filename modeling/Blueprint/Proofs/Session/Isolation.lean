import Blueprint.Proofs.Compile.Renaming
import Blueprint.Proofs.Sampling.Opaque
import Blueprint.Proofs.Session.Standard
import Mathlib.Data.Set.Function

/-!
# Sessions that go on after forgetting

What was compiled before the objects were forgotten makes no difference to what is compiled afterwards, except for the
handles that the new objects get (`session_isolated`). It holds if a session brings in nothing that knows handles which
are not given out yet.
-/

namespace Blueprint

open Function (Injective)

/-! ## Registries that know their handles only -/

theorem Store.Closed.push {s : Store} (h : s.Closed) {o : Object} (ho : ∀ x ∈ o.held, x.index < s.objects.length) :
    (s.push o).Closed := by
  intro y o' hy x hx
  have hlength : (s.push o).objects.length = s.objects.length + 1 := by simp [Store.push]
  rw [Store.get?_push] at hy
  rw [hlength]
  split at hy
  · cases hy
    exact Nat.lt_succ_of_lt (ho x hx)
  · exact Nat.lt_succ_of_lt (h y o' hy x hx)

/-- A loader that knows handles of the store only gives no others. -/
theorem Loader.Yields.index_lt {r : Registry} (hr : r.Coherent) {l : Loader} (hl : l.Within r.store.objects.length)
    {raw : Json} {value : Value} (hv : l.Yields r raw value) :
    ∀ x ∈ value.held, x.index < r.store.objects.length := by
  induction l generalizing raw value with
  | read reader => exact fun x hx => Reader.Within.index_lt hl hv hx
  | category name => exact fun x hx => hr.index_lt (Registry.Gives.listed hr hv hx)
  | listOf item ih =>
    intro x hx
    obtain ⟨values, rfl, hvalues⟩ := hv
    obtain ⟨v, hv, hx⟩ := Value.mem_held_list.mp hx
    obtain ⟨raw, hraw⟩ := exists_of_mem_right hvalues hv
    exact ih hl hraw x hx

theorem Plugin.Sourced.index_lt {r : Registry} (hr : r.Coherent) {p : Plugin} (hp : p.Opaque r.store.objects.length)
    {input : Members} {args : Arguments} (hargs : p.Sourced r input args) :
    ∀ x ∈ args.held, x.index < r.store.objects.length := by
  intro x hx
  obtain ⟨name, value, hv, hx⟩ := Arguments.mem_held.mp hx
  cases hargs name value hv with
  | byDefault hq hd => exact hp.defaults _ hq value hd x hx
  | loaded hq _ hyields => exact hyields.index_lt hr (hp.loaders _ hq) x hx
  | undeclared =>
    rw [Value.held_ofJson] at hx
    cases hx

/-- What an operation may bring in while the handles below `n` are given out. -/
def Permit.known (n : Nat) : Permit where
  creates := True
  declaration _ := True
  plugin p := p.Opaque n
  object o := ∀ x ∈ o.held, x.index < n

namespace Registry

/-- Stored objects and plugins know handles of the store only. -/
structure SelfContained (r : Registry) : Prop where
  coherent : r.Coherent
  store : r.store.Closed
  plugins : ∀ key tag p, (r.category key).dispatch.get? tag = some p → p.Opaque r.store.objects.length

variable {r r' : Registry}

theorem selfContained_empty : empty.SelfContained where
  coherent := .of_empty fun _ => rfl
  store h o ho := by cases ho
  plugins key tag p hd := by cases hd

theorem Step.closed {m : Mapping} (h : r.Step m r') (hr : r.SelfContained) : r'.store.Closed := by
  cases h with
  | @register p args o hp hargs built free =>
    obtain ⟨tag, -, hp⟩ := Option.bind_eq_some_iff.mp hp
    have hplugin := hr.plugins m.key tag p hp
    have hheld := hplugin.builder.index_lt hr.store (hargs.index_lt hr.coherent hplugin) built
    exact hr.store.push (o := o.placed _ m.name?) hheld

theorem Change.selfContained {n : Nat} (hn : n ≤ r.store.objects.length) (h : Change (.known n) r r')
    (hr : r.SelfContained) : r'.SelfContained where
  coherent := h.coherent hr.coherent
  store := by
    rcases h.objects_cases with hsame | ⟨key, o, name, -, he, ho | ⟨m, -, hstep⟩⟩
    · rw [hsame.store]
      exact hr.store
    · rw [he]
      exact hr.store.push (o := o.placed _ name) fun x hx => Nat.lt_of_lt_of_le (ho x hx) hn
    · exact hstep.closed hr
  plugins key tag p hd := by
    have hlength := h.extends.store.length_le
    rcases (h.dispatch_cases key tag p).2 hd with hd | hp
    · exact (hr.plugins key tag p hd).mono hlength
    · exact Plugin.Opaque.mono (Nat.le_trans hn hlength) hp

theorem SelfContained.forget (h : r.SelfContained) (hk : r.Keeps r') (ht : r.SameTables r') : r'.SelfContained where
  coherent := hk.coherent h.coherent
  store := by rw [hk.store]; exact h.store
  plugins key tag p hd := by
    rw [ht.dispatch] at hd
    rw [hk.store]
    exact h.plugins key tag p hd

end Registry

/-! ## Grounded sessions -/

theorem Operation.apply_selfContained {op : Operation} {r : Registry}
    (hop : op.Within (.known r.store.objects.length)) (hr : r.SelfContained) : (op.apply r).SelfContained := by
  -- what the operation brings in is bounded by the store it starts from, which only grows while it runs
  have h : r.store.objects.length ≤ (op.apply r).store.objects.length ∧ (op.apply r).SelfContained := by
    refine apply_induction (P := fun r' => r.store.objects.length ≤ r'.store.objects.length ∧ r'.SelfContained) hop
      (fun r₁ r₂ hchange h => ?_) (fun _ r₁ h => ?_) (fun category _ r₁ h => ?_) (fun _ r₁ h => ?_)
      ⟨Nat.le_refl _, hr⟩
    · exact ⟨Nat.le_trans h.1 hchange.extends.store.length_le, hchange.selfContained h.1 h.2⟩
    · exact ⟨h.1, h.2.forget r₁.keeps_clearObjects r₁.sameTables_clearObjects⟩
    · refine ⟨?_, h.2.forget (r₁.keeps_clearCategory category) (r₁.sameTables_clearCategory category)⟩
      rw [Registry.store_clearCategory]
      exact h.1
    · exact ⟨h.1, .of_empty r₁.category_reset, h.2.store, fun key tag p hd => by cases hd⟩
  exact h.2

/-- Every operation brings in only what knows handles that are given out already. -/
def Grounded : Registry → List Operation → Prop
  | _, [] => True
  | r, op :: ops => op.Within (.known r.store.objects.length) ∧ Grounded (op.apply r) ops

theorem Grounded.selfContained {ops : List Operation} (h : Grounded .empty ops) :
    (Registry.after ops).SelfContained := by
  have hfold : ∀ r, r.SelfContained → Grounded r ops → (ops.foldl (fun r op => op.apply r) r).SelfContained := by
    clear h
    induction ops with
    | nil => exact fun r hr _ => hr
    | cons op ops ih => exact fun r hr h => ih _ (Operation.apply_selfContained h.1 hr) h.2
  exact hfold .empty Registry.selfContained_empty h

/-! ## Forgetting -/

/-- After forgetting, a registry that has grown differs from what it was in its handles only. -/
theorem Registry.SelfContained.renamed {r s : Registry} (h : r.SelfContained) (ht : r.SameTables s) (e : r.Extends s) :
    Registry.Renamed (Handle.raise r.store.objects.length (s.store.objects.length - r.store.objects.length))
      r.clearObjects s.clearObjects where
  aliases := ht.aliases
  category key := by
    simp only [category_clearObjects, Category.clear, Category.mapHandles, ht.dispatch, e.label]
    rfl
  store := by
    have hlength := e.store.length_le
    change Store.Renamed _ r.store s.store
    refine h.store.renamed (fun x hx => Handle.raise_of_lt hx) (fun x hx => ?_) fun x hx => ?_
    · rw [Handle.raise_of_le hx, Store.get?_eq_none]
      dsimp only
      omega
    · have hsome := List.getElem?_eq_getElem hx
      exact (Store.get?_of_prefix e.store hsome).trans hsome.symm
  next i := by
    have hlength := e.store.length_le
    have hraise := Handle.raise_of_le (k := s.store.objects.length - r.store.objects.length)
      (h := ⟨r.store.objects.length + i⟩) (Nat.le_add_right r.store.objects.length i)
    refine hraise.trans (congrArg Handle.mk ?_)
    simp only [clearObjects]
    omega

theorem Registry.Renamed.bijOn {ρ : Handle → Handle} (hρ : Injective ρ) {r r' : Registry}
    (h : Registry.Renamed ρ r r') :
    Set.BijOn ρ {x | ∃ key, x ∈ (r.category key).objects} {x | ∃ key, x ∈ (r'.category key).objects} := by
  refine ⟨?_, hρ.injOn, ?_⟩
  · rintro x ⟨key, hx⟩
    refine ⟨key, ?_⟩
    rw [h.category]
    exact List.mem_map_of_mem hx
  · rintro y ⟨key, hy⟩
    rw [h.category] at hy
    obtain ⟨x, hx, rfl⟩ := List.mem_map.mp hy
    exact ⟨x, ⟨key, hx⟩, rfl⟩

/-- Sessions are isolated by forgetting. A document is compiled after another one, whether that failed or not, to the
same outcome as if the other one had never been there, up to a renaming of handles: the same error, or objects that
differ in their handles only. The names and objects of every category correspond in the same way, and the renaming is
one to one on the objects that are listed. -/
theorem session_isolated {ops : List Operation} (hops : Grounded .empty ops) (hresolves : (Registry.after ops).Resolves)
    (order : CompileOrder) (before document : Json) :
    ∃ ρ : Handle → Handle, Injective ρ ∧ (∀ h, h.index < (Registry.after ops).store.objects.length → ρ h = h) ∧
      let fresh := Document.compile order document (Registry.after (ops ++ [.clearObjects]))
      let reused := Document.compile order document (Registry.after (ops ++ [.compileAll order before, .clearObjects]))
      reused.1 = fresh.1.map (List.map ρ) ∧
      (∀ key, reused.2.category key = (fresh.2.category key).mapHandles ρ) ∧
      (∀ h, reused.2.store.get? (ρ h) = (fresh.2.store.get? h).map (Object.mapHandles ρ)) ∧
      Set.BijOn ρ {h | ∃ key, h ∈ (fresh.2.category key).objects} {h | ∃ key, h ∈ (reused.2.category key).objects} := by
  have hr := hops.selfContained
  have hfresh : Registry.after (ops ++ [.clearObjects]) = (Registry.after ops).clearObjects := by
    rw [Registry.after, List.foldl_append]
    rfl
  have hreused : Registry.after (ops ++ [.compileAll order before, .clearObjects]) =
      ((Operation.compileAll order before).apply (Registry.after ops)).clearObjects := by
    rw [Registry.after, List.foldl_append]
    rfl
  rw [hfresh, hreused]
  generalize Registry.after ops = r at *
  -- of the other document it matters only that it adds objects and leaves the tables
  have ht : r.SameTables ((Operation.compileAll order before).apply r) := Operation.apply_sameTables rfl r
  have he : r.Extends ((Operation.compileAll order before).apply r) := Operation.apply_extends rfl r
  generalize (Operation.compileAll order before).apply r = s at ht he ⊢
  have hinjective := Handle.raise_injective r.store.objects.length (s.store.objects.length - r.store.objects.length)
  have hfix : ∀ h : Handle, h.index < r.store.objects.length →
      Handle.raise r.store.objects.length (s.store.objects.length - r.store.objects.length) h = h :=
    fun h => Handle.raise_of_lt
  have hplugins : ∀ key tag p, r.clearObjects.catalogue.plugin? key tag = some p → p.Opaque r.store.objects.length := by
    rw [r.sameTables_clearObjects.catalogue]
    exact hr.plugins
  have hpresent (r : Registry) (key : String) (hk : r.categories.contains key = true) :
      r.clearObjects.categories.contains key = true := by rw [Registry.contains_clearObjects, hk]
  obtain ⟨houtcome, hrenamed⟩ := (hr.renamed ht he).compile hinjective hfix hplugins
    (hresolves.of_sameTables r.sameTables_clearObjects (hpresent r))
    ((hresolves.of_sameTables ht he.present).of_sameTables s.sameTables_clearObjects (hpresent s)) order document
  exact ⟨_, hinjective, hfix, houtcome, hrenamed.category, hrenamed.store, hrenamed.bijOn hinjective⟩

namespace Sampling

/-- Every category that a standard plugin refers to is there. -/
theorem standardRegistry_resolves : standardRegistry.Resolves := by
  have hall : ∀ p ∈ plugins, ∀ q ∈ p.parameters, (q.loader.target?.all fun name =>
      standardRegistry.categories.contains (standardRegistry.canonical name)) = true := by decide +kernel
  rintro name ⟨key, tag, p, q, hp, hq, ht⟩
  simpa [ht] using hall p (mem_plugins hp) q hq

def variableDocument : Json := .obj [("cv", .obj [("type", .str "position"), ("name", .str "x")])]

/-- A variable of the same name, and a description of no known type. -/
def brokenDocument : Json :=
  .obj [("cv", .arr [.obj [("type", .str "position"), ("name", .str "x")], .obj [("type", .str "angle")]])]

/-- The broken document registers its variable before it fails. The name is free again afterwards, and the variable of
the other document gets the next handle. -/
theorem brokenDocument_forgotten :
    Grounded .empty [.registerAll registrations] ∧ (Registry.after [.registerAll registrations]).Resolves ∧
    (Document.compile .standard brokenDocument (Registry.after [.registerAll registrations])).1.toOption = none ∧
    ∃ ρ : Handle → Handle, Injective ρ ∧ ρ ⟨0⟩ = ⟨1⟩ ∧
      (Document.compile .standard variableDocument (Registry.after [.registerAll registrations,
        .compileAll .standard brokenDocument, .clearObjects])).1.toOption = some [ρ ⟨0⟩] := by
  have hgrounded : Grounded .empty [.registerAll registrations] :=
    ⟨within_registrations trivial (fun _ => trivial) plugins_opaque, trivial⟩
  have hresolves : (Registry.after [.registerAll registrations]).Resolves := standardRegistry_resolves
  have hfresh : (Document.compile .standard variableDocument
      (Registry.after [.registerAll registrations, .clearObjects])).1.toOption = some [⟨0⟩] := by decide +kernel
  have hreused : (Document.compile .standard variableDocument (Registry.after [.registerAll registrations,
      .compileAll .standard brokenDocument, .clearObjects])).1.toOption = some [⟨1⟩] := by decide +kernel
  obtain ⟨ρ, hinjective, -, houtcome, -⟩ :=
    session_isolated hgrounded hresolves .standard brokenDocument variableDocument
  have htoOption (x : Except Diagnostic (List Handle)) :
      (x.map (List.map ρ)).toOption = x.toOption.map (List.map ρ) := by
    cases x <;> rfl
  have hboth : (Document.compile .standard variableDocument (Registry.after [.registerAll registrations,
      .compileAll .standard brokenDocument, .clearObjects])).1.toOption = some [ρ ⟨0⟩] := by
    refine (congrArg Except.toOption houtcome).trans ((htoOption _).trans ?_)
    exact congrArg (Option.map (List.map ρ)) hfresh
  have hnext : ρ ⟨0⟩ = ⟨1⟩ := by simpa using hboth.symm.trans hreused
  exact ⟨hgrounded, hresolves, by decide +kernel, ρ, hinjective, hnext, hboth⟩

end Sampling
end Blueprint
