import Blueprint.Proofs.Key.Joining
import Mathlib

/-!
# Keys are normal forms

A character is settled if no step of cleaning changes it. Every character of a key is settled, so cleaning a key changes
nothing. That lowercase letters are settled is read off the case table: no run leads back into a run, nor to a blank or
a hyphen.
-/

namespace Blueprint

/-! ## The case table -/

namespace Text

namespace CaseRun

/-- Where a code point of the run is moved. -/
def image (run : CaseRun) (n : Nat) : Nat := (n + run.offset).toNat

/-- No code point of the run is moved to one from `first` to `last`. -/
def avoids (run : CaseRun) (first last : Nat) : Bool :=
  last.blt (run.image run.first) || (run.image run.last).blt first

/-- No code point of the run is moved into another run: it gets outside, or between the code points of the other. -/
def misses (run other : CaseRun) : Bool :=
  run.avoids other.first other.last ||
    (other.step == 2 && (run.step == 2 || run.first == run.last) && (run.image run.first + other.first) % 2 == 1)

end CaseRun

/-- Code points that are not settled although no run moves them, or that are no characters. -/
def unsettledRanges : List (Nat × Nat) := [
  (0x9, 0xD), (0x20, 0x20), (0x2D, 0x2D), (0x41, 0x5A), (0x85, 0x85), (0xA0, 0xA0), (0x130, 0x130), (0x3A3, 0x3A3),
  (0x1680, 0x1680), (0x2000, 0x200A), (0x2028, 0x2029), (0x202F, 0x202F), (0x205F, 0x205F), (0x3000, 0x3000),
  (0xD800, 0xDFFF)]

set_option maxRecDepth 10000 in
theorem lowercaseRuns_miss : (lowercaseRuns.all fun run => lowercaseRuns.all run.misses) = true := by decide +kernel

set_option maxRecDepth 10000 in
theorem lowercaseRuns_avoid : ∀ run ∈ lowercaseRuns, 0x80 ≤ run.first ∧ (run.step = 1 ∨ run.step = 2) ∧
    0 ≤ run.first + run.offset ∧ run.image run.last < 0x110000 ∧
    ∀ range ∈ unsettledRanges, run.avoids range.1 range.2 = true := by
  decide +kernel

theorem caseRun?_eq_some {n : Nat} {run : CaseRun} (h : caseRun? n = some run) :
    run ∈ lowercaseRuns ∧ run.first ≤ n ∧ n ≤ run.last ∧ (n - run.first) % run.step = 0 := by
  have hrun := List.find?_some h
  simp only [Bool.and_eq_true, decide_eq_true_eq, beq_iff_eq] at hrun
  exact ⟨List.mem_of_find?_eq_some h, hrun.1.1, hrun.1.2, hrun.2⟩

theorem CaseRun.not_between {run : CaseRun} {first last n : Nat} (h : run.avoids first last = true)
    (hn : run.first ≤ n) (hn' : n ≤ run.last) : ¬ (first ≤ run.image n ∧ run.image n ≤ last) := by
  simp only [avoids, image, Bool.or_eq_true, Nat.blt_eq] at h ⊢
  omega

theorem caseRun?_image {n : Nat} {run : CaseRun} (h : caseRun? n = some run) : caseRun? (run.image n) = none := by
  obtain ⟨hrun, hfirst, hlast, hstep⟩ := caseRun?_eq_some h
  obtain ⟨-, hsteps, hpos, -⟩ := lowercaseRuns_avoid run hrun
  cases hc : caseRun? (run.image n) with
  | none => rfl
  | some other =>
    exfalso
    obtain ⟨hother, hfirst', hlast', hstep'⟩ := caseRun?_eq_some hc
    have hmiss := List.all_eq_true.mp (List.all_eq_true.mp lowercaseRuns_miss run hrun) other hother
    rcases Bool.or_eq_true_iff.mp hmiss with ha | hp
    · exact CaseRun.not_between ha hfirst hlast ⟨hfirst', hlast'⟩
    · simp only [Bool.and_eq_true, Bool.or_eq_true, beq_iff_eq] at hp
      obtain ⟨⟨htwo, hrun⟩, hodd⟩ := hp
      simp only [CaseRun.image] at *
      rw [htwo] at hstep'
      rcases hrun with hrun | hrun
      · rw [hrun] at hstep
        omega
      · omega

/-! ## Settled characters -/

/-- A character that no step of cleaning changes. -/
structure Settled (c : Char) : Prop where
  shown : isBlank c = false
  joined : c ≠ '-'
  sigma : c ≠ 'Σ'
  dotted : c ≠ 'İ'
  lower : lowerChar c = c

theorem settled_of_code {c : Char} (h : inRanges unsettledRanges c.toNat = false) (hrun : caseRun? c.toNat = none) :
    Settled c := by
  have hout : ∀ range ∈ unsettledRanges, ¬ (range.1 ≤ c.toNat ∧ c.toNat ≤ range.2) := by
    simpa [inRanges] using h
  have hne : ∀ d : Char, inRanges unsettledRanges d.toNat = true → c ≠ d := by
    rintro d hd rfl
    rw [h] at hd
    cases hd
  refine ⟨?_, hne _ (by decide), hne _ (by decide), hne _ (by decide), ?_⟩
  · simp only [unsettledRanges, List.forall_mem_cons] at hout
    simp only [isBlank, Bool.or_eq_false_iff, Bool.and_eq_false_iff, decide_eq_false_iff_not, beq_eq_false_iff_ne]
    omega
  · have hcapital := hout (0x41, 0x5A) (by simp [unsettledRanges])
    simp only [lowerChar, hrun]
    split
    · rw [if_neg (by simpa using hcapital)]
    · rfl

theorem settled_image {n : Nat} {run : CaseRun} (h : caseRun? n = some run) : Settled (Char.ofNat (run.image n)) := by
  obtain ⟨hrun, hfirst, hlast, -⟩ := caseRun?_eq_some h
  obtain ⟨-, -, -, hbound, havoid⟩ := lowercaseRuns_avoid run hrun
  have hout : ∀ range ∈ unsettledRanges, ¬ (range.1 ≤ run.image n ∧ run.image n ≤ range.2) :=
    fun range hrange => CaseRun.not_between (havoid range hrange) hfirst hlast
  have hvalid : (run.image n).isValidChar := by
    have hsurrogate := hout (0xD800, 0xDFFF) (by simp [unsettledRanges])
    have hle : run.image n ≤ run.image run.last := by
      simp only [CaseRun.image]
      omega
    simp only [Nat.isValidChar] at hsurrogate ⊢
    omega
  have hcode : (Char.ofNat (run.image n)).toNat = run.image n := by rw [Char.toNat_ofNat, if_pos hvalid]
  apply settled_of_code
  · rw [hcode]
    simpa [inRanges] using hout
  · rw [hcode]
    exact caseRun?_image h

theorem caseRun?_of_lt {n : Nat} (h : n < 0x80) : caseRun? n = none := by
  cases hc : caseRun? n with
  | none => rfl
  | some run =>
    obtain ⟨hrun, hfirst, -⟩ := caseRun?_eq_some hc
    have := (lowercaseRuns_avoid run hrun).1
    omega

/-- The lowercase of a character by itself is settled. -/
theorem settled_lowerChar {c : Char} (hblank : isBlank c = false) (hhyphen : c ≠ '-') (hsigma : c ≠ 'Σ')
    (hdotted : c ≠ 'İ') : Settled (lowerChar c) := by
  simp only [lowerChar]
  split
  · split
    · next hascii hcapital =>
      simp only [Bool.and_eq_true, decide_eq_true_eq] at hcapital
      have hvalid : (c.toNat + 32).isValidChar := .inl (by omega)
      have hcode : (Char.ofNat (c.toNat + 32)).toNat = c.toNat + 32 := by rw [Char.toNat_ofNat, if_pos hvalid]
      apply settled_of_code
      · rw [hcode]
        simp only [inRanges, unsettledRanges, List.any_cons, List.any_nil, Bool.or_false, Bool.or_eq_false_iff,
          Bool.and_eq_false_iff, decide_eq_false_iff_not]
        omega
      · rw [hcode]
        exact caseRun?_of_lt (by omega)
    · next hascii hcapital =>
      exact ⟨hblank, hhyphen, hsigma, hdotted, by simp only [lowerChar, if_pos hascii, if_neg hcapital]⟩
  · next hascii =>
    cases hrun : caseRun? c.toNat with
    | some run => exact settled_image hrun
    | none => exact ⟨hblank, hhyphen, hsigma, hdotted, by simp only [lowerChar, hrun, if_neg hascii]⟩

theorem settled_lowerAt {before after : List Char} {c : Char} (hblank : isBlank c = false) (hhyphen : c ≠ '-') :
    ∀ x ∈ lowerAt before c after, Settled x := by
  simp only [lowerAt]
  split
  · split <;> simp <;> exact settled_of_code (by decide) (by decide +kernel)
  · next hsigma =>
    split
    · simp only [List.forall_mem_cons]
      exact ⟨settled_of_code (by decide) (by decide +kernel), settled_of_code (by decide) (by decide +kernel), by simp⟩
    · next hdotted =>
      intro x hx
      obtain rfl : x = lowerChar c := by simpa using hx
      exact settled_lowerChar hblank hhyphen hsigma hdotted

theorem settled_lowercaseFrom {before cs : List Char} (h : ∀ c ∈ cs, isBlank c = false ∧ c ≠ '-') :
    ∀ x ∈ lowercaseFrom before cs, Settled x := by
  induction cs generalizing before with
  | nil => simp [lowercaseFrom]
  | cons c cs ih =>
    intro x hx
    rcases List.mem_append.mp hx with hx | hx
    · obtain ⟨hblank, hhyphen⟩ := h c (by simp)
      exact settled_lowerAt hblank hhyphen x hx
    · exact ih (fun c hc => h c (by simp [hc])) x hx

/-! ## Settled texts -/

theorem lowercaseFrom_of_settled {before cs : List Char} (h : ∀ c ∈ cs, Settled c) : lowercaseFrom before cs = cs := by
  induction cs generalizing before with
  | nil => rfl
  | cons c cs ih =>
    have hc := h c (by simp)
    simp only [lowercaseFrom, lowerAt, if_neg hc.sigma, if_neg hc.dotted, hc.lower]
    rw [ih fun c hc => h c (by simp [hc])]
    rfl

end Text

/-! ## Keys -/

namespace Key

open Text

theorem settled_of_mem_cleanChars {cs : List Char} : ∀ c ∈ cleanChars cs, Settled c := by
  rw [cleanChars, intercalate_words]
  refine settled_lowercaseFrom fun c hc => ?_
  obtain ⟨d, hd, rfl⟩ := List.mem_map.mp hc
  refine ⟨(isBlank_unhyphen d).trans (shown_of_mem_joined d hd), ?_⟩
  rcases unhyphen_cases d with ⟨-, h⟩ | ⟨hhyphen, h⟩
  · rw [h]
    decide
  · rwa [h]

theorem cleanChars_of_settled {cs : List Char} (h : ∀ c ∈ cs, Settled c) : cleanChars cs = cs := by
  have hmap : cs.map unhyphen = cs := by
    refine (List.map_congr_left fun c hc => ?_).trans (List.map_id cs)
    simp only [unhyphen, if_neg (h c hc).joined, id]
  rw [cleanChars, intercalate_words, joined_of_shown fun c hc => (h c hc).shown, hmap]
  exact lowercaseFrom_of_settled h

theorem clean_clean (name : String) : clean (clean name) = clean name := by
  simp only [clean, String.toList_ofList]
  rw [cleanChars_of_settled settled_of_mem_cleanChars]

end Key
end Blueprint
