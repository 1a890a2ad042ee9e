import Blueprint.Proofs.Compile.Recording
import Blueprint.Proofs.Session.Names

/-!
# The chronicle of a session

From a registry without objects on, every session that only compiles has a chronicle: each object of the store was made
of a mapping that occurs in a document of the session (`Chronicle.after`). Forgetting objects takes nothing out of it.
-/

namespace Blueprint

variable {c : Catalogue} {docs : List Json} {log : List Mapping} {r r' : Registry}

/-! ## Operations that compile -/

namespace Operation

def documents : Operation → List Json
  | .compile _ raw | .call _ raw | .compileAll _ raw => [raw]
  | _ => []

/-- Whether an operation brings in nothing but compiled objects; it may forget objects, or create a category. -/
def compiles : Operation → Bool
  | .create _ | .compile _ _ | .call _ _ | .compileAll _ _ | .clearObjects | .clearCategory _ => true
  | _ => false

end Operation

/-! ## What keeps the chronicle -/

namespace Chronicle

/-- Before anything is compiled, nothing has to be told. -/
theorem start (hc : r.Coherent) (ht : r.Tidy) (hs : r.store.objects.length = 0) :
    Chronicle r.catalogue docs [] r where
  catalogue := rfl
  label := ht.label
  length := hs
  named key n h hn := by
    have := hc.index_lt (hc.named key n h hn).1
    omega
  listed key h hh := by
    have := hc.index_lt hh
    omega
  within m hm := by cases hm
  made i m hm := by simp at hm

theorem keeps (h : Chronicle c docs log r) (k : r.Keeps r') (t : r.SameTables r') : Chronicle c docs log r' where
  catalogue := t.catalogue.trans h.catalogue
  label key := (k.label key).trans (h.label key)
  length := by rw [k.store, h.length]
  named key n o ho := by
    rcases k.objects key with ⟨hnamed, -⟩ | ⟨hnamed, -⟩
    · rw [hnamed] at ho
      exact h.named key n o ho
    · simp [hnamed] at ho
  listed key o ho := by
    rcases k.objects key with ⟨-, hobjects⟩ | ⟨-, hobjects⟩
    · rw [hobjects] at ho
      exact h.listed key o ho
    · simp [hobjects] at ho
  within := h.within
  made i m hm := by
    rw [k.store]
    exact h.made i m hm

end Chronicle

theorem Registry.keeps_ensure (r : Registry) (name : String) : r.Keeps (r.ensure name) where
  store := r.store_ensure name
  label key := by rw [category_ensure]
  objects key := .inl (by rw [category_ensure]; exact ⟨rfl, rfl⟩)

theorem Action.Records.of_change {f : Registry → Registry} (k : ∀ r : Registry, r.Keeps (f r))
    (t : ∀ r : Registry, r.SameTables (f r)) : (Action.change f).Records c docs log fun _ _ => True :=
  fun r hr => ⟨log, List.prefix_refl _, hr.keeps (k r) (t r), fun _ _ => trivial⟩

/-! ## Documents -/

namespace Document

theorem compileAll_records {raws : List Json} (hraws : ∀ raw ∈ raws, raw.Within docs) (key : String) :
    (compileAll key raws).Records c docs log fun log' hs => List.Forall₂ (Stands log' key) raws hs := by
  refine Action.Records.each (Q := fun log' => Stands log' key) (fun _ _ _ _ hp hs => hs.mono hp)
    fun raw hraw log' _ => ?_
  refine (Action.Records.of_any fun r => .ok (r.category key).label).bind fun label log' _ _ => ?_
  exact (compile_records (hraws raw hraw)).onError _

theorem canonical_records (name : String) :
    (Action.ask (·.canonical name)).Records c docs log fun _ key => key = c.key name := by
  refine .of_read fun r hr x hx => ?_
  cases hx
  rw [← hr.catalogue]
  rfl

theorem compileSection_records {sections : Members} (hdoc : (Json.obj sections).Within docs) (name : String) :
    (compileSection sections name).Records c docs log fun log' hs =>
      List.Forall₂ (Stands log' (c.key name)) ((Entries.get? name sections).getD (.arr [])).itemsOrSelf hs := by
  refine (Action.Records.of_change (fun r => r.keeps_ensure name) fun r => r.sameTables_ensure name).bind
    fun _ log' _ _ => ?_
  refine (canonical_records name).bind fun key log' _ hkey => ?_
  subst hkey
  refine compileAll_records (fun raw hraw => ?_) _
  cases hs : Entries.get? name sections with
  | none => simp [hs, Json.itemsOrSelf] at hraw
  | some d =>
    rw [hs] at hraw
    exact (hdoc.member (Entries.mem_of_get? hs)).itemsOrSelf hraw

theorem compile_records {document : Json} (hdoc : document.Within docs) (order : CompileOrder) :
    (compile order document).Records c docs log fun _ _ => True := by
  cases document with
  | obj sections =>
    refine (Action.Records.of_any fun r => order.sorted r (sections.map (·.1))).bind fun names log' _ _ => ?_
    refine (Action.Records.each (Q := fun _ _ _ => True) (fun _ _ _ _ _ _ => trivial) fun name _ log' _ =>
      (compileSection_records hdoc name).mono fun _ _ _ _ => trivial).bind fun _ _ _ _ => ?_
    exact .of_any fun _ => .ok _
  | _ => exact .of_any fun _ => .error _

end Document

/-! ## Sessions -/

namespace Operation

theorem records {op : Operation} (hop : op.compiles = true) (hdocs : ∀ d ∈ op.documents, d ∈ docs) :
    op.action.Records c docs log fun _ _ => True := by
  have hdone : ∀ log', (pure () : Action Unit).Records c docs log' fun _ _ => True := fun _ => .of_any fun _ => .ok ()
  cases op with
  | create category => exact .of_change (fun r => r.keeps_ensure category) fun r => r.sameTables_ensure category
  | compile category raw =>
    have hraw : raw.Within docs := .of_mem (hdocs raw (by simp [documents]))
    have hcompile : (resolve category >>= fun key => Blueprint.compile key raw).Records c docs log fun _ _ => True :=
      (resolve_records category).bind fun key _ _ _ => (Blueprint.compile_records hraw).mono fun _ _ _ _ => trivial
    exact hcompile.bind fun _ _ _ _ => hdone _
  | call category raw =>
    have hraw : raw.Within docs := .of_mem (hdocs raw (by simp [documents]))
    exact ((compile_recordsTo _).callNamed hraw category).bind fun _ _ _ _ => hdone _
  | compileAll order document =>
    have hdoc : document.Within docs := .of_mem (hdocs document (by simp [documents]))
    exact (Document.compile_records hdoc order).bind fun _ _ _ _ => hdone _
  | clearObjects => exact .of_change Registry.keeps_clearObjects Registry.sameTables_clearObjects
  | clearCategory category =>
    exact .of_change (fun r => r.keeps_clearCategory category) fun r => r.sameTables_clearCategory category
  | _ => cases hop

end Operation

/-- Operations that compile only add to the chronicle. -/
theorem Chronicle.after {ops : List Operation} (hops : ∀ op ∈ ops, op.compiles = true)
    (h : Chronicle c (ops.flatMap Operation.documents) log r) :
    ∃ log', log <+: log' ∧ Chronicle c (ops.flatMap Operation.documents) log'
      (ops.foldl (fun r op => op.apply r) r) := by
  have hdocs : ∀ op ∈ ops, ∀ d ∈ op.documents, d ∈ ops.flatMap Operation.documents :=
    fun op hop d hd => List.mem_flatMap.mpr ⟨op, hop, hd⟩
  generalize ops.flatMap Operation.documents = docs at h hdocs
  induction ops generalizing log r with
  | nil => exact ⟨log, List.prefix_refl _, h⟩
  | cons op ops ih =>
    obtain ⟨log₁, hp, h₁, -⟩ := Operation.records (hops op (by simp)) (hdocs op (by simp)) r h
    obtain ⟨log₂, hp', h₂⟩ := ih (fun op hop => hops op (by simp [hop])) h₁ fun op hop => hdocs op (by simp [hop])
    exact ⟨log₂, hp.trans hp', h₂⟩

end Blueprint
