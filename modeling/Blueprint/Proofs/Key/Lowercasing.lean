import Blueprint.Proofs.Key.Normal

/-!
# Lowercasing joined words

A blank, a hyphen and an underscore are alike for lowercasing: they are not changed, and no letter is lowercased
otherwise for what stands beyond them. So words may be joined, and hyphens replaced, after lowercasing as well as before
(`Key.cleanChars_eq_joined`).
-/

namespace Blueprint

namespace Text

/-! ## Separators -/

/-- A character that lowercasing does not change and that ends a word for it. -/
structure Separator (c : Char) : Prop where
  ignorable : isCaseIgnorable c = false
  cased : isCased c = false
  lower : ∀ before after, lowerAt before c after = [c]

/-- The code points of the blanks, the hyphen and the underscore. -/
def separatorCodes : List Nat := [
  0x9, 0xA, 0xB, 0xC, 0xD, 0x20, 0x2D, 0x5F, 0x85, 0xA0, 0x1680, 0x2000, 0x2001, 0x2002, 0x2003, 0x2004, 0x2005, 0x2006,
  0x2007, 0x2008, 0x2009, 0x200A, 0x2028, 0x2029, 0x202F, 0x205F, 0x3000]

theorem separatorCodes_unchanged : ∀ n ∈ separatorCodes,
    inRanges caseIgnorableRanges n = false ∧ inRanges casedRanges n = false ∧ caseRun? n = none ∧
      (n < 0x41 ∨ 0x5A < n) ∧ n ≠ 'Σ'.toNat ∧ n ≠ 'İ'.toNat := by
  decide +kernel

section

variable {c : Char} {cs before before' after after' : List Char} {due : Bool}

theorem separator_of_mem (h : c.toNat ∈ separatorCodes) : Separator c := by
  obtain ⟨hignorable, hcased, hrun, hcapital, hsigma, hdotted⟩ := separatorCodes_unchanged _ h
  refine ⟨hignorable, hcased, fun before after => ?_⟩
  have hlower : lowerChar c = c := by
    simp only [lowerChar, hrun]
    split
    · rw [if_neg (by simp only [Bool.and_eq_true, decide_eq_true_eq]; omega)]
    · rfl
  have hne : ∀ d : Char, c.toNat ≠ d.toNat → c ≠ d := fun d hd he => hd (congrArg Char.toNat he)
  rw [lowerAt, if_neg (hne _ hsigma), if_neg (hne _ hdotted), hlower]

theorem separator_of_blank (h : isBlank c = true) : Separator c := by
  apply separator_of_mem
  simp only [isBlank, Bool.or_eq_true, Bool.and_eq_true, decide_eq_true_eq, beq_iff_eq] at h
  simp only [separatorCodes, List.mem_cons, List.not_mem_nil, or_false]
  omega

theorem separator_hyphen : Separator '-' := separator_of_mem (by decide)

theorem separator_underscore : Separator '_' := separator_of_mem (by decide)

theorem meetsCased_cons (c : Char) (cs : List Char) :
    meetsCased (c :: cs) = if isCaseIgnorable c then meetsCased cs else isCased c := by
  cases hc : isCaseIgnorable c <;> simp [meetsCased, hc]

theorem Separator.not_meetsCased (h : Separator c) : meetsCased (c :: cs) = false := by
  simp [meetsCased_cons, h.ignorable, h.cased]

theorem Separator.lowercaseFrom_cons (h : Separator c) :
    lowercaseFrom before (c :: cs) = c :: lowercaseFrom (c :: before) cs := by
  rw [lowercaseFrom, h.lower, List.singleton_append]

theorem shown_of_mem_lowerAt (hc : isBlank c = false) : ∀ x ∈ lowerAt before c after, isBlank x = false := by
  by_cases hhyphen : c = '-'
  · subst hhyphen
    rw [separator_hyphen.lower]
    simpa using hc
  · exact fun x hx => (settled_lowerAt hc hhyphen x hx).shown

theorem lowerAt_ne_nil : lowerAt before c after ≠ [] := by
  rw [lowerAt]
  split
  · simp
  · split <;> simp

/-! ## Lowercasing joined words -/

theorem lowerAt_congr (hbefore : meetsCased before = meetsCased before')
    (hafter : meetsCased after = meetsCased after') : lowerAt before c after = lowerAt before' c after' := by
  simp only [lowerAt, hbefore, hafter]

/-- What stands in front of a text matters for its lowercase only as far as it meets a cased character. -/
theorem lowercaseFrom_congr (h : meetsCased before = meetsCased before') :
    lowercaseFrom before cs = lowercaseFrom before' cs := by
  induction cs generalizing before before' with
  | nil => rfl
  | cons c cs ih =>
    have hcons : meetsCased (c :: before) = meetsCased (c :: before') := by simp only [meetsCased_cons, h]
    rw [lowercaseFrom, lowercaseFrom, lowerAt_congr h rfl, ih hcons]

theorem meetsCased_joinedAfter : meetsCased (joinedAfter due cs) = (!due && meetsCased cs) := by
  induction cs generalizing due with
  | nil => simp [joinedAfter, meetsCased]
  | cons c cs ih =>
    cases hc : isBlank c with
    | true => simp [joinedAfter_cons_blank hc, ih, (separator_of_blank hc).not_meetsCased]
    | false =>
      rw [joinedAfter_cons_shown hc]
      cases due with
      | true => exact separator_underscore.not_meetsCased
      | false => simp [meetsCased_cons, ih]

/-- What stands in front of a text may be lost by joining only if it was blank, and then an underscore is due. -/
theorem lowercaseFrom_joinedAfter (h : meetsCased before = (!due && meetsCased before')) :
    lowercaseFrom before' (joinedAfter due cs) = joinedAfter due (lowercaseFrom before cs) := by
  induction cs generalizing before before' due with
  | nil => rfl
  | cons c cs ih =>
    cases hc : isBlank c with
    | true =>
      have hseparator := separator_of_blank hc
      rw [hseparator.lowercaseFrom_cons, joinedAfter_cons_blank hc, joinedAfter_cons_blank hc]
      exact ih (by simp [hseparator.not_meetsCased])
    | false =>
      have hafter : meetsCased (joinedAfter false cs) = meetsCased cs := by simp [meetsCased_joinedAfter]
      -- `front` is what stands in front of `c` once the words are joined
      obtain ⟨front, hfront, hlower⟩ : ∃ front, meetsCased front = meetsCased before ∧ ∀ rest,
          lowercaseFrom before' ((if due then ['_'] else []) ++ rest) =
            (if due then ['_'] else []) ++ lowercaseFrom front rest := by
        cases due with
        | true =>
          exact ⟨'_' :: before', by simp [separator_underscore.not_meetsCased, h],
            fun rest => separator_underscore.lowercaseFrom_cons⟩
        | false => exact ⟨before', by simp [h], fun rest => rfl⟩
      have hrest : lowercaseFrom (c :: front) (joinedAfter false cs) =
          joinedAfter false (lowercaseFrom (c :: before) cs) := ih (by simp [meetsCased_cons, hfront])
      rw [joinedAfter_cons_shown hc, hlower, lowercaseFrom, lowerAt_congr hfront hafter, hrest, lowercaseFrom,
        joinedAfter_append_shown lowerAt_ne_nil (shown_of_mem_lowerAt hc)]

theorem lowercase_joined (cs : List Char) : lowercase (joined cs) = joined (lowercase cs) := by
  have hlower : lowercaseFrom [] (joinedAfter true cs) = joinedAfter true (lowercase cs) :=
    lowercaseFrom_joinedAfter (by simp [meetsCased])
  rw [joined.eq_1 (lowercase cs), ← hlower]
  rcases joinedAfter_true_cases cs with ⟨hnil, hjoined⟩ | hcons
  · rw [hnil, hjoined]
    rfl
  · rw [hcons, separator_underscore.lowercaseFrom_cons, List.tail_cons]
    exact lowercaseFrom_congr separator_underscore.not_meetsCased.symm

end
end Text

/-! ## Lowercasing and hyphens -/

namespace Key

open Text

variable {c : Char} {cs before after : List Char}

theorem meetsCased_map_unhyphen (cs : List Char) : meetsCased (cs.map unhyphen) = meetsCased cs := by
  induction cs with
  | nil => rfl
  | cons c cs ih =>
    rw [List.map_cons]
    rcases unhyphen_cases c with ⟨rfl, hc⟩ | ⟨-, hc⟩
    · rw [hc, separator_underscore.not_meetsCased, separator_hyphen.not_meetsCased]
    · simp only [hc, meetsCased_cons, ih]

theorem map_unhyphen_lowerAt : (lowerAt before c after).map unhyphen =
    lowerAt (before.map unhyphen) (unhyphen c) (after.map unhyphen) := by
  rcases unhyphen_cases c with ⟨rfl, hc⟩ | ⟨hhyphen, hc⟩
  · rw [hc, separator_hyphen.lower, separator_underscore.lower]
    rfl
  · have hkept : ∀ x ∈ lowerAt before c after, unhyphen x = x := by
      cases hblank : isBlank c with
      | true => simp [(separator_of_blank hblank).lower, hc]
      | false => exact fun x hx => if_neg (settled_lowerAt hblank hhyphen x hx).joined
    rw [hc, List.map_congr_left hkept, List.map_id',
      lowerAt_congr (meetsCased_map_unhyphen before) (meetsCased_map_unhyphen after)]

theorem map_unhyphen_lowercaseFrom :
    (lowercaseFrom before cs).map unhyphen = lowercaseFrom (before.map unhyphen) (cs.map unhyphen) := by
  induction cs generalizing before with
  | nil => rfl
  | cons c cs ih =>
    rw [lowercaseFrom, List.map_append, map_unhyphen_lowerAt, ih, List.map_cons, List.map_cons, lowercaseFrom]

/-- The steps of cleaning in another order: letters first, then words, then hyphens. -/
theorem cleanChars_eq_joined (cs : List Char) : cleanChars cs = (joined (lowercase cs)).map unhyphen := by
  rw [cleanChars, intercalate_words, ← lowercase_joined, lowercase, lowercase, map_unhyphen_lowercaseFrom]
  rfl

end Key
end Blueprint
