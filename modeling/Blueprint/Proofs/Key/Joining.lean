import Blueprint.Key

/-!
# Joining words

Keys are made of the words of a text with an underscore between each two, which is one pass over the text
(`Text.joined`). The pass drops blanks at the ends, sees every other run of them as one underscore, and does not look at
hyphens.
-/

namespace Blueprint

namespace Text

/-! ## Joining words -/

/-- Joins each word to what stands in front of it, the first one only if an underscore is due there. -/
def joinedAfter (due : Bool) : List Char → List Char
  | [] => []
  | c :: cs => if isBlank c then joinedAfter true cs else (if due then ['_'] else []) ++ c :: joinedAfter false cs

/-- The words of a text with an underscore between each two. -/
def joined (cs : List Char) : List Char := (joinedAfter true cs).tail

section

variable {c : Char} {cs xs blanks : List Char} {due : Bool}

theorem joinedAfter_cons_blank (h : isBlank c = true) : joinedAfter due (c :: cs) = joinedAfter true cs := by
  simp [joinedAfter, h]

theorem joinedAfter_cons_shown (h : isBlank c = false) :
    joinedAfter due (c :: cs) = (if due then ['_'] else []) ++ c :: joinedAfter false cs := by
  simp [joinedAfter, h]

theorem joined_cons_shown (h : isBlank c = false) : joined (c :: cs) = c :: joinedAfter false cs := by
  simp [joined, joinedAfter_cons_shown h]

theorem flatMap_wordsFrom (word cs : List Char) : (wordsFrom word cs).flatMap ('_' :: ·) =
    if word.isEmpty then joinedAfter true cs else '_' :: (word.reverse ++ joinedAfter false cs) := by
  induction cs generalizing word with
  | nil => cases word <;> simp [wordsFrom, joinedAfter]
  | cons c cs ih =>
    simp only [wordsFrom]
    cases hc : isBlank c with
    | true => cases word <;> simp [ih, joinedAfter_cons_blank hc]
    | false => cases word <;> simp [ih, joinedAfter_cons_shown hc]

theorem intercalate_eq_tail (ws : List (List Char)) : ['_'].intercalate ws = (ws.flatMap ('_' :: ·)).tail := by
  induction ws with
  | nil => rfl
  | cons w ws ih =>
    cases ws with
    | nil => simp
    | cons w' ws =>
      rw [List.intercalate_cons_cons, ih]
      simp

theorem intercalate_words (cs : List Char) : ['_'].intercalate (words cs) = joined cs := by
  rw [intercalate_eq_tail, words, flatMap_wordsFrom]
  rfl

theorem joinedAfter_true_cases (cs : List Char) :
    joinedAfter true cs = [] ∧ joined cs = [] ∨ joinedAfter true cs = '_' :: joined cs := by
  induction cs with
  | nil => exact .inl ⟨rfl, rfl⟩
  | cons c cs ih =>
    cases hc : isBlank c with
    | true => simpa only [joined, joinedAfter_cons_blank hc] using ih
    | false => exact .inr (by simp [joined, joinedAfter_cons_shown hc])

/-! ### Shown characters -/

theorem shown_of_mem_joinedAfter : ∀ x ∈ joinedAfter due cs, isBlank x = false := by
  induction cs generalizing due with
  | nil => simp [joinedAfter]
  | cons c cs ih =>
    cases hc : isBlank c with
    | true => simpa only [joinedAfter_cons_blank hc] using ih
    | false =>
      have hunderscore : isBlank '_' = false := rfl
      cases due <;> simpa [joinedAfter_cons_shown hc, hc, hunderscore] using ih

theorem shown_of_mem_joined : ∀ x ∈ joined cs, isBlank x = false :=
  fun x hx => shown_of_mem_joinedAfter x (List.mem_of_mem_tail hx)

theorem joinedAfter_append_shown (hne : xs ≠ []) (h : ∀ x ∈ xs, isBlank x = false) :
    joinedAfter due (xs ++ cs) = (if due then ['_'] else []) ++ (xs ++ joinedAfter false cs) := by
  induction xs generalizing due with
  | nil => exact absurd rfl hne
  | cons x xs ih =>
    rw [List.cons_append, joinedAfter_cons_shown (h x (by simp))]
    cases xs with
    | nil => rfl
    | cons x' xs => rw [ih (by simp) fun x hx => h x (by simp [hx])]; rfl

theorem joined_of_shown (h : ∀ x ∈ xs, isBlank x = false) : joined xs = xs := by
  cases xs with
  | nil => rfl
  | cons x xs =>
    have hjoined : joinedAfter true (x :: xs ++ []) = '_' :: (x :: xs ++ joinedAfter false []) :=
      joinedAfter_append_shown (by simp) h
    rw [joined, ← List.append_nil (x :: xs), hjoined, List.tail_cons, joinedAfter]

/-! ### Blanks at the ends -/

theorem joinedAfter_true_append (h : ∀ b ∈ blanks, isBlank b = true) :
    joinedAfter true (blanks ++ cs) = joinedAfter true cs := by
  induction blanks with
  | nil => rfl
  | cons b blanks ih =>
    rw [List.cons_append, joinedAfter_cons_blank (h b (by simp))]
    exact ih fun b hb => h b (by simp [hb])

theorem joinedAfter_blanks (h : ∀ b ∈ blanks, isBlank b = true) : joinedAfter due blanks = [] := by
  cases blanks with
  | nil => rfl
  | cons b blanks =>
    have hrest : joinedAfter true (blanks ++ []) = [] := joinedAfter_true_append fun b hb => h b (by simp [hb])
    rw [joinedAfter_cons_blank (h b (by simp)), ← hrest, List.append_nil]

theorem joinedAfter_append_blanks (h : ∀ b ∈ blanks, isBlank b = true) :
    joinedAfter due (cs ++ blanks) = joinedAfter due cs := by
  induction cs generalizing due with
  | nil => exact joinedAfter_blanks h
  | cons c cs ih => simp only [List.cons_append, joinedAfter, ih]

/-! ### Blanks between words -/

theorem joinedAfter_run (hne : blanks ≠ []) (h : ∀ b ∈ blanks, isBlank b = true) (hc : isBlank c = false) :
    joinedAfter due (blanks ++ c :: cs) = '_' :: c :: joinedAfter false cs := by
  cases blanks with
  | nil => exact absurd rfl hne
  | cons b blanks =>
    rw [List.cons_append, joinedAfter_cons_blank (h b (by simp)),
      joinedAfter_true_append fun b hb => h b (by simp [hb]), joinedAfter_cons_shown hc]
    rfl

end
end Text

/-! ## Hyphens -/

namespace Key

open Text

variable {cs : List Char} {due : Bool}

theorem unhyphen_cases (c : Char) : c = '-' ∧ unhyphen c = '_' ∨ c ≠ '-' ∧ unhyphen c = c := by
  by_cases h : c = '-'
  · exact .inl ⟨h, if_pos h⟩
  · exact .inr ⟨h, if_neg h⟩

theorem unhyphen_unhyphen (c : Char) : unhyphen (unhyphen c) = unhyphen c := by
  rcases unhyphen_cases c with ⟨-, h⟩ | ⟨-, h⟩
  · rw [h]
    rfl
  · rw [h, h]

theorem isBlank_unhyphen (c : Char) : isBlank (unhyphen c) = isBlank c := by
  rcases unhyphen_cases c with ⟨rfl, -⟩ | ⟨-, h⟩
  · rfl
  · rw [h]

theorem map_unhyphen_joinedAfter : (joinedAfter due cs).map unhyphen = joinedAfter due (cs.map unhyphen) := by
  induction cs generalizing due with
  | nil => rfl
  | cons c cs ih =>
    have hblank := isBlank_unhyphen c
    rw [List.map_cons]
    cases hc : isBlank c with
    | true => rw [joinedAfter_cons_blank hc, joinedAfter_cons_blank (hblank.trans hc), ih]
    | false =>
      rw [joinedAfter_cons_shown hc, joinedAfter_cons_shown (hblank.trans hc)]
      have hunderscore : unhyphen '_' = '_' := rfl
      cases due <;> simp [ih, hunderscore]

theorem map_unhyphen_joined (cs : List Char) : (joined cs).map unhyphen = joined (cs.map unhyphen) := by
  rw [joined, joined, List.map_tail, map_unhyphen_joinedAfter]

end Key
end Blueprint
