import Mathlib.Logic.Relation
import Blueprint.Proofs.Key.Lowercasing

/-!
# The spellings of a key

A key forgets the blanks at the ends of a name, what sets its words apart, hyphens, and the case of its letters, and it
forgets nothing else: two names have one key exactly if changes of these kinds lead from one to the other
(`Key.clean_normal_form`).
-/

namespace Blueprint.Key

open Text Relation

/-! ## Changes of a spelling -/

/-- What sets two words apart: blanks, an underscore or a hyphen. -/
inductive IsGap : List Char → Prop
  | run {blanks : List Char} : blanks ≠ [] → (∀ b ∈ blanks, isBlank b = true) → IsGap blanks
  | underscore : IsGap ['_']
  | hyphen : IsGap ['-']

/-- One change of a spelling. A gap has a shown character on either side, so blanks in it are a whole run of them that
touches neither end of the name. -/
inductive Respells : List Char → List Char → Prop
  | leading {blanks cs : List Char} : (∀ b ∈ blanks, isBlank b = true) → Respells (blanks ++ cs) cs
  | trailing {blanks cs : List Char} : (∀ b ∈ blanks, isBlank b = true) → Respells (cs ++ blanks) cs
  | gap {before gap gap' after : List Char} {x y : Char} : isBlank x = false → isBlank y = false → IsGap gap →
      IsGap gap' → Respells (before ++ x :: (gap ++ y :: after)) (before ++ x :: (gap' ++ y :: after))
  | hyphens {cs ds : List Char} : cs.map unhyphen = ds.map unhyphen → Respells cs ds
  | letters {cs ds : List Char} : lowercase cs = lowercase ds → Respells cs ds

variable {x y : Char} {cs ds before gap after : List Char} {due : Bool}

/-! ## Changes keep the key -/

theorem cleanChars_of_joined (h : (joined cs).map unhyphen = (joined ds).map unhyphen) :
    cleanChars cs = cleanChars ds := by
  simp only [cleanChars, intercalate_words, h]

theorem IsGap.map_joinedAfter (h : IsGap gap) (hy : isBlank y = false) :
    (joinedAfter false (gap ++ y :: after)).map unhyphen =
      '_' :: unhyphen y :: (joinedAfter false after).map unhyphen := by
  cases h with
  | run hne hblank =>
    rw [joinedAfter_run hne hblank hy]
    rfl
  | underscore | hyphen =>
    rw [List.singleton_append, joinedAfter_cons_shown rfl, joinedAfter_cons_shown hy]
    rfl

/-- A shown character shields what stands in front of it from what follows. -/
theorem joinedAfter_append_congr (hx : isBlank x = false)
    (h : (joinedAfter false cs).map unhyphen = (joinedAfter false ds).map unhyphen) :
    (joinedAfter due (before ++ x :: cs)).map unhyphen = (joinedAfter due (before ++ x :: ds)).map unhyphen := by
  induction before generalizing due with
  | nil => simp only [List.nil_append, joinedAfter_cons_shown hx, List.map_append, List.map_cons, h]
  | cons c before ih =>
    simp only [List.cons_append]
    cases hc : isBlank c with
    | true => rw [joinedAfter_cons_blank hc, joinedAfter_cons_blank hc, ih]
    | false => simp only [joinedAfter_cons_shown hc, List.map_append, List.map_cons, ih]

theorem Respells.cleanChars_eq (h : Respells cs ds) : cleanChars cs = cleanChars ds := by
  cases h with
  | leading hblank => exact cleanChars_of_joined (by rw [joined, joinedAfter_true_append hblank, joined])
  | trailing hblank => exact cleanChars_of_joined (by rw [joined, joinedAfter_append_blanks hblank, joined])
  | gap hx hy hgap hgap' =>
    apply cleanChars_of_joined
    rw [joined, joined, List.map_tail, List.map_tail,
      joinedAfter_append_congr hx ((hgap.map_joinedAfter hy).trans (hgap'.map_joinedAfter hy).symm)]
  | hyphens h => exact cleanChars_of_joined (by rw [map_unhyphen_joined, map_unhyphen_joined, h])
  | letters h => rw [cleanChars_eq_joined, cleanChars_eq_joined, h]

/-! ## Changes lead to the key -/

/-- After a shown character. `run` holds the blanks met since, which are one gap as soon as the next word begins. -/
theorem respelled_joinedAfter (before run cs : List Char) (hx : isBlank x = false)
    (hrun : ∀ b ∈ run, isBlank b = true) :
    EqvGen Respells (before ++ x :: (run ++ cs)) (before ++ x :: joinedAfter (!run.isEmpty) cs) := by
  induction cs generalizing before x run with
  | nil =>
    have htrailing : Respells ((before ++ [x]) ++ run) (before ++ [x]) := .trailing hrun
    simpa [joinedAfter] using EqvGen.rel _ _ htrailing
  | cons c cs ih =>
    cases hc : isBlank c with
    | true =>
      have hlonger : ∀ b ∈ run ++ [c], isBlank b = true := by simpa [or_imp, forall_and, hc] using hrun
      have hdue : (!(run ++ [c]).isEmpty) = true := by cases run <;> rfl
      have hnext := ih before (run ++ [c]) hx hlonger
      rw [hdue, List.append_assoc, List.singleton_append] at hnext
      rw [joinedAfter_cons_blank hc]
      exact hnext
    | false =>
      have hrest (front : List Char) : EqvGen Respells (front ++ c :: cs) (front ++ c :: joinedAfter false cs) :=
        ih front [] hc (by simp)
      rw [joinedAfter_cons_shown hc]
      cases run with
      | nil => simpa using hrest (before ++ [x])
      | cons b run =>
        have hgap : Respells (before ++ x :: (b :: run ++ c :: cs)) (before ++ x :: (['_'] ++ c :: cs)) :=
          .gap hx hc (.run (by simp) hrun) .underscore
        exact .trans _ _ _ (.rel _ _ hgap) (by simpa using hrest (before ++ [x, '_']))

theorem respelled_joined (cs : List Char) : EqvGen Respells cs (joined cs) := by
  induction cs with
  | nil => exact .refl []
  | cons c cs ih =>
    cases hc : isBlank c with
    | true =>
      have hleading : Respells ([c] ++ cs) cs := .leading (by simpa using hc)
      rw [joined, joinedAfter_cons_blank hc]
      exact .trans _ _ _ (.rel _ _ hleading) ih
    | false =>
      rw [joined_cons_shown hc]
      exact respelled_joinedAfter [] [] cs hc (by simp)

theorem respelled_cleanChars (cs : List Char) : EqvGen Respells cs (cleanChars cs) := by
  have hhyphens : Respells (joined cs) ((joined cs).map unhyphen) := by
    refine .hyphens ?_
    rw [List.map_map]
    exact List.map_congr_left fun c _ => (unhyphen_unhyphen c).symm
  have hletters : Respells ((joined cs).map unhyphen) (cleanChars cs) := by
    have hkey : lowercase (cleanChars cs) = cleanChars cs := lowercaseFrom_of_settled settled_of_mem_cleanChars
    refine .letters ?_
    rw [hkey, cleanChars, intercalate_words]
  exact .trans _ _ _ (respelled_joined cs) (.trans _ _ _ (.rel _ _ hhyphens) (.rel _ _ hletters))

theorem cleanChars_eq_iff : cleanChars cs = cleanChars ds ↔ EqvGen Respells cs ds := by
  constructor
  · intro h
    have hds := (respelled_cleanChars ds).symm
    rw [← h] at hds
    exact (respelled_cleanChars cs).trans _ _ _ hds
  · intro h
    induction h with
    | rel cs ds hstep => exact hstep.cleanChars_eq
    | refl cs => rfl
    | symm cs ds _ ih => exact ih.symm
    | trans cs ds es _ _ ih ih' => exact ih.trans ih'

/-! ## Keys are normal forms of names -/

/-- A key holds neither a blank nor a hyphen and is its own key, and the names that have it are the spellings of one
name. -/
theorem clean_normal_form (name : String) :
    (∀ c ∈ (clean name).toList, isBlank c = false ∧ c ≠ '-') ∧ clean (clean name) = clean name ∧
      ∀ other : String, clean other = clean name ↔ EqvGen Respells name.toList other.toList := by
  refine ⟨fun c hc => ?_, clean_clean name, fun other => ?_⟩
  · rw [clean, String.toList_ofList] at hc
    have hsettled := settled_of_mem_cleanChars c hc
    exact ⟨hsettled.shown, hsettled.joined⟩
  · rw [clean, clean, String.ofList_inj, eq_comm, cleanChars_eq_iff]

/-- A hyphen and blanks end a word, so the sigmas in front of them are final. -/
example : clean "  ΟΔΟΣ-ΟΔΟΣ " = "οδος_οδος" ∧ clean "Οδος \t ΟΔΟΣ" = "οδος_οδος" := by decide +kernel

end Blueprint.Key
