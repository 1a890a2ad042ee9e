import Blueprint.Proofs.Compile.Relating
import Blueprint.Proofs.Document.Ranking
import Blueprint.Proofs.Session.Objects
import Blueprint.Sampling.Plugins
import Mathlib.Data.List.Nodup

/-!
# How a document writes its sections

A section may be written under any name of its category, a single description stands for a list of one, and sections may
be written in any order as long as those of one rank keep theirs. None of this changes the outcome or the registry
(`Document.compile_respelled`).
-/

namespace Blueprint

open List (Forall₂)

/-! ## Sections on their own -/

namespace Document

/-- Compiles a section that is given with its descriptions. -/
def compileEntry (s : String × Json) : Action (List Handle) := do
  Action.change (·.ensure s.1)
  let key ← Action.ask (·.canonical s.1)
  compileAll key s.2.itemsOrSelf

theorem compileEntry_sameTables (s : String × Json) (r : Registry) : r.SameTables (compileEntry s r).2 := by
  have hchanges := compileAll_changes ⟨False, fun _ => False, fun _ => False, fun _ => False⟩
    ((r.ensure s.1).canonical s.1) s.2.itemsOrSelf (r.ensure s.1)
  exact (r.sameTables_ensure s.1).trans (hchanges.sameTables (fun _ h => h) fun _ h => h)

/-- A document is refused, or its sections are compiled by position. -/
theorem compile_obj (c : CompileOrder) {sections : Members} (distinct : (sections.map (·.1)).Nodup) (r : Registry) :
    compile c (.obj sections) r = match c.refused? r (sections.map (·.1)) with
      | some key => (.error (.unknownCategory key (c.keys r)), r)
      | none => (do
          let hs ← Action.each compileEntry (arrange c.order.length (fun s => c.position r s.1) sections)
          return hs.flatten : Action (List Handle)) r := by
  have hentries : Action.each (compileSection sections) (arrange c.order.length (c.position r) (sections.map (·.1))) =
      Action.each compileEntry (arrange c.order.length (fun s => c.position r s.1) sections) := by
    rw [arrange_map, Action.each_map]
    refine Action.each_congr fun s hs => ?_
    have hget := (Entries.get?_eq_some_iff distinct).mpr (mem_of_mem_arrange hs)
    simp only [compileSection, hget, compileEntry, Option.getD_some]
  simp only [compile, bind, Action.andThen, c.sorted_eq]
  cases c.refused? r (sections.map (·.1)) with
  | some key => rfl
  | none => simp only [hentries]

end Document

/-! ## Other spellings -/

/-- Another name of the same category, and the same descriptions; a single one may be put into a list. -/
structure Registry.Respelled (r : Registry) (s t : String × Json) : Prop where
  name : r.canonical t.1 = r.canonical s.1
  value : t.2 = s.2 ∨ (∀ items, s.2 ≠ .arr items) ∧ t.2 = .arr [s.2]

namespace Registry.Respelled

variable {r r' : Registry} {s t : String × Json} {sections sections' : Members}

theorem itemsOrSelf (h : r.Respelled s t) : t.2.itemsOrSelf = s.2.itemsOrSelf := by
  rcases h.value with he | ⟨hs, he⟩
  · rw [he]
  · rw [he]
    cases hv : s.2 with
    | arr items => exact absurd hv (hs items)
    | _ => rfl

theorem compileEntry (h : r.Respelled s t) (hr : r.SameTables r') :
    Document.compileEntry t r' = Document.compileEntry s r' := by
  have hname : r'.canonical t.1 = r'.canonical s.1 := by rw [hr.canonical, hr.canonical, h.name]
  have hensure : r'.ensure t.1 = r'.ensure s.1 := by simp only [Registry.ensure, hname]
  simp only [Document.compileEntry, bind, Action.andThen, Action.change, Action.ask, hensure, canonical_ensure, hname,
    h.itemsOrSelf]

theorem rank? (h : r.Respelled s t) (c : CompileOrder) :
    CompileOrder.rank? (c.keys r) r t.1 = CompileOrder.rank? (c.keys r) r s.1 := by
  simp only [CompileOrder.rank?, h.name]

theorem refused? (h : Forall₂ r.Respelled sections sections') (c : CompileOrder) :
    c.refused? r (sections'.map (·.1)) = c.refused? r (sections.map (·.1)) := by
  simp only [CompileOrder.refused?]
  cases c.unknown with
  | last => rfl
  | reject =>
    simp only
    induction h with
    | nil => rfl
    | cons hst _ ih =>
      simp only [List.map_cons, List.find?_cons, hst.rank? c]
      split
      · simp only [Option.map_some, hst.name]
      · exact ih

theorem each (h : Forall₂ r.Respelled sections sections') :
    Action.each Document.compileEntry sections' r = Action.each Document.compileEntry sections r := by
  have hentry : ∀ s t, r.Respelled s t → Action.Relates (fun r₁ r₂ => r₂ = r₁ ∧ r.SameTables r₁)
      (Document.compileEntry s) (Document.compileEntry t) Eq := by
    rintro s t hst _ r₁ ⟨rfl, hr⟩
    rw [hst.compileEntry hr]
    exact ⟨⟨rfl, hr.trans (Document.compileEntry_sameTables s r₁)⟩, .of_eq rfl⟩
  obtain ⟨⟨hregistry, -⟩, houtcome⟩ := Action.Relates.each (h.imp hentry) r r ⟨rfl, .refl r⟩
  rw [List.forall₂_eq_eq_eq] at houtcome
  exact Prod.ext houtcome.eq.symm hregistry

end Registry.Respelled

/-! ## Other orders -/

section
variable {c : CompileOrder} {r : Registry} {sections sections' : Members}

theorem Reordered.refused? (h : Reordered (fun s => CompileOrder.rank? (c.keys r) r s.1) sections sections')
    (distinct : sections.Nodup) : c.refused? r (sections'.map (·.1)) = c.refused? r (sections.map (·.1)) := by
  simp only [CompileOrder.refused?]
  cases c.unknown with
  | last => rfl
  | reject =>
    -- sections without a rank are all of one rank, so the first one stays the first
    simp only [List.find?_map, ← List.head?_filter (l := sections), ← List.head?_filter (l := sections')]
    rw [h.filter_eq distinct]
    intro s t hs ht
    simp_all

theorem Reordered.arrange_eq (h : Reordered (fun s => CompileOrder.rank? (c.keys r) r s.1) sections sections')
    (distinct : sections.Nodup) :
    arrange c.order.length (fun s => c.position r s.1) sections' =
      arrange c.order.length (fun s => c.position r s.1) sections := by
  simp only [arrange]
  congr 1
  funext k
  refine (h.filter_eq distinct fun s t hs ht => c.rank?_eq_of_position r ?_).symm
  rw [beq_iff_eq] at hs ht
  rw [hs, ht]

end

/-- How a document writes its sections does not matter: which name of its category a section goes under, whether a
single description stands in a list, and in which order sections of different ranks are written. -/
theorem Document.compile_respelled {c : CompileOrder} {r : Registry} {sections between sections' : Members}
    (distinct : (sections.map (·.1)).Nodup) (distinct' : (sections'.map (·.1)).Nodup)
    (respelled : Forall₂ r.Respelled sections between)
    (reordered : Reordered (fun s => CompileOrder.rank? (c.keys r) r s.1) between sections') :
    Document.compile c (.obj sections') r = Document.compile c (.obj sections) r := by
  have distinctBetween : between.Nodup := reordered.perm.symm.nodup (List.Nodup.of_map _ distinct')
  have hrefused := (reordered.refused? distinctBetween).trans (Registry.Respelled.refused? respelled c)
  have harranged : Forall₂ r.Respelled (arrange c.order.length (fun s => c.position r s.1) sections)
      (arrange c.order.length (fun s => c.position r s.1) sections') := by
    rw [reordered.arrange_eq distinctBetween]
    exact arrange_forall₂ (fun s t hst => by simp only [CompileOrder.position, hst.rank? c]) respelled
  rw [compile_obj c distinct, compile_obj c distinct', hrefused]
  cases c.refused? r (sections.map (·.1)) with
  | some key => rfl
  | none => simp only [bind, Action.andThen, Registry.Respelled.each harranged]

namespace Sampling

/-- A variable, and an interval that refers to it. -/
def namedSections : Members :=
  [("cv", .obj [("type", .str "position"), ("name", .str "x")]),
    ("volume", .arr [.obj [("type", .str "interval"), ("cv", .str "x"), ("min", .num (.integer 0)),
      ("max", .num (.integer 1))]])]

/-- The same sections under other names, the variable in a list. -/
def aliasedSections : Members :=
  [("Collective-Variable", .arr [.obj [("type", .str "position"), ("name", .str "x")]]),
    ("States", .arr [.obj [("type", .str "interval"), ("cv", .str "x"), ("min", .num (.integer 0)),
      ("max", .num (.integer 1))]])]

theorem compile_aliasedSections :
    (namedSections.map (·.1)).Nodup ∧ (aliasedSections.reverse.map (·.1)).Nodup ∧
    Forall₂ standardRegistry.Respelled namedSections aliasedSections ∧
    Document.compile .standard (.obj aliasedSections.reverse) standardRegistry =
      Document.compile .standard (.obj namedSections) standardRegistry ∧
    (Document.compile .standard (.obj aliasedSections.reverse) standardRegistry).1.toOption = some [⟨0⟩, ⟨1⟩] := by
  have hnames : standardRegistry.canonical "Collective-Variable" = standardRegistry.canonical "cv" ∧
      standardRegistry.canonical "States" = standardRegistry.canonical "volume" := by decide +kernel
  have hrespelled : Forall₂ standardRegistry.Respelled namedSections aliasedSections :=
    .cons ⟨hnames.1, .inr ⟨by simp, rfl⟩⟩ (.cons ⟨hnames.2, .inl rfl⟩ .nil)
  have hranks :
      CompileOrder.rank? (CompileOrder.standard.keys standardRegistry) standardRegistry "Collective-Variable" ≠
        CompileOrder.rank? (CompileOrder.standard.keys standardRegistry) standardRegistry "States" := by decide +kernel
  have hreordered : Reordered (fun s => CompileOrder.rank? (CompileOrder.standard.keys standardRegistry)
      standardRegistry s.1) aliasedSections aliasedSections.reverse := by
    refine ⟨(List.reverse_perm _).symm, fun s t hst hsub => ?_⟩
    -- the only two sections are of different ranks
    obtain ⟨rfl, rfl⟩ : s = aliasedSections[0] ∧ t = aliasedSections[1] := by
      simpa [aliasedSections] using hsub.eq_of_length rfl
    exact absurd hst hranks
  have hsame := Document.compile_respelled (by decide) (by decide) hrespelled hreordered
  have hrun : (Document.compile .standard (.obj namedSections) standardRegistry).1.toOption = some [⟨0⟩, ⟨1⟩] := by
    decide +kernel
  exact ⟨by decide, by decide, hrespelled, hsame, by rw [hsame]; exact hrun⟩

end Sampling
end Blueprint
