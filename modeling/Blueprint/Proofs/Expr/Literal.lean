import Blueprint.Expr.Token
import Mathlib.Data.List.TakeWhile

/-!
# What numbers and names are, and that they are read whole

`Literal.Valid`, `IsName` and `Blanks` say which characters stand where, without reference to reading. Reading finds
exactly these: what it reads is of the kind and is the beginning of the text, and a text of the kind is read to its end
when nothing follows that could go on with it.
-/

namespace Blueprint

namespace Text

def Digits (ds : List Char) : Prop := ∀ d ∈ ds, d.isDigit = true

end Text

namespace Expr
open Text

structure Power.Valid (p : Power) : Prop where
  letter : p.letter = 'e' ∨ p.letter = 'E'
  sign : ∀ c ∈ p.sign, c = '+' ∨ c = '-'
  digits : Digits p.digits
  nonempty : p.digits ≠ []

/-- Digits with an optional fraction or a point and digits, and an optional power of ten. -/
structure Literal.Valid (l : Literal) : Prop where
  whole : Digits l.whole
  fraction : ∀ ds ∈ l.fraction, Digits ds
  nonempty : l.whole ≠ [] ∨ ∃ ds ∈ l.fraction, ds ≠ []
  power : ∀ p ∈ l.power, p.Valid

/-- A letter and what a name may go on with. -/
def IsName (name : List Char) : Prop := ∃ c cs, name = c :: cs ∧ isLetter c = true ∧ ∀ d ∈ cs, isNamePart d = true

/-- Spaces, tabs and line ends only. -/
def Blanks (cs : List Char) : Prop := ∀ c ∈ cs, isSpace c = true

/-- A text whose first character, if it has one, is not in a class. -/
def Stops (p : Char → Bool) (rest : List Char) : Prop := ∀ c ∈ rest.head?, p c = false

/-- A text with which no number and no name in front of it can go on. -/
def Closed (rest : List Char) : Prop := Stops isNamePart rest ∧ Stops (· = '.') rest

/-! ## Runs of characters -/

section
variable {p : Char → Bool} {cs rest : List Char}

theorem Stops.takeWhile (h : Stops p rest) : rest.takeWhile p = [] := by
  cases rest with
  | nil => rfl
  | cons c rest => simp [h c rfl]

theorem Stops.dropWhile (h : Stops p rest) : rest.dropWhile p = rest := by
  cases rest with
  | nil => rfl
  | cons c rest => simp [h c rfl]

theorem takeWhile_append_of_stops (hcs : ∀ c ∈ cs, p c = true) (h : Stops p rest) : (cs ++ rest).takeWhile p = cs := by
  rw [List.takeWhile_append_of_pos hcs, h.takeWhile, List.append_nil]

theorem dropWhile_append_of_stops (hcs : ∀ c ∈ cs, p c = true) (h : Stops p rest) : (cs ++ rest).dropWhile p = rest := by
  rw [List.dropWhile_append_of_pos hcs, h.dropWhile]

theorem Stops.mono {q : Char → Bool} (h : Stops p rest) (hqp : ∀ c, q c = true → p c = true) : Stops q rest := by
  intro c hc
  cases hq : q c with
  | false => rfl
  | true => exact absurd (hqp c hq) (by simp [h c hc])

end

theorem isNamePart_of_isDigit {c : Char} (h : c.isDigit = true) : isNamePart c = true := by
  simp [isNamePart, Char.isAlphanum, h]

theorem Closed.digit {rest : List Char} (h : Closed rest) : Stops Char.isDigit rest :=
  h.1.mono fun _ => isNamePart_of_isDigit

theorem spanDigits_append {ds rest : List Char} (hds : Digits ds) (h : Stops Char.isDigit rest) :
    spanDigits (ds ++ rest) = (ds, rest) := by
  rw [spanDigits, takeWhile_append_of_stops hds h, dropWhile_append_of_stops hds h]

theorem digits_spanDigits (cs : List Char) : Digits (spanDigits cs).1 := fun _ => List.mem_takeWhile_imp

theorem spanDigits_parts (cs : List Char) : (spanDigits cs).1 ++ (spanDigits cs).2 = cs :=
  List.takeWhile_append_dropWhile

/-! ## Numbers -/

/-- A sign that may stand in front of digits, or none. -/
theorem splitSign_append {sign : Option Char} (hsign : ∀ c ∈ sign, c = '+' ∨ c = '-') {ds : List Char}
    (hds : ∀ c ∈ ds.head?, c ≠ '+' ∧ c ≠ '-') : splitSign (sign.toList ++ ds) = (sign, ds) := by
  cases sign with
  | some c => obtain rfl | rfl := hsign c rfl <;> rfl
  | none =>
    cases ds with
    | nil => rfl
    | cons d ds =>
      obtain ⟨hplus, hminus⟩ := hds d rfl
      simp only [Option.toList_none, List.nil_append, splitSign]
      split
      · next heq => exact absurd (List.cons.inj heq).1 hplus
      · next heq => exact absurd (List.cons.inj heq).1 hminus
      · rfl

theorem sign_splitSign (cs : List Char) : ∀ c ∈ (splitSign cs).1, c = '+' ∨ c = '-' := by
  unfold splitSign
  split <;> simp

theorem splitSign_parts (cs : List Char) : (splitSign cs).1.toList ++ (splitSign cs).2 = cs := by
  unfold splitSign
  split <;> simp

theorem not_sign_of_digits {ds rest : List Char} (hds : Digits ds) (hnonempty : ds ≠ []) :
    ∀ c ∈ (ds ++ rest).head?, c ≠ '+' ∧ c ≠ '-' := by
  obtain ⟨d, ds, rfl⟩ := List.exists_cons_of_ne_nil hnonempty
  intro c hc
  cases hc
  have hd : d.isDigit = true := hds d List.mem_cons_self
  constructor <;> rintro rfl <;> exact absurd hd (by decide)

theorem readPower_of_closed {rest : List Char} (h : Closed rest) : readPower rest = (none, rest) := by
  cases rest with
  | nil => rfl
  | cons c rest =>
    have hpart : isNamePart c = false := h.1 c rfl
    have hletter : ¬(c = 'e' ∨ c = 'E') := by
      rintro (rfl | rfl) <;> exact absurd hpart (by decide)
    simp [readPower, hletter]

theorem readPower_chars {p : Power} (hp : p.Valid) {rest : List Char} (h : Stops Char.isDigit rest) :
    readPower (p.chars ++ rest) = (some p, rest) := by
  have hsplit : splitSign (p.sign.toList ++ (p.digits ++ rest)) = (p.sign, p.digits ++ rest) :=
    splitSign_append hp.sign (not_sign_of_digits hp.digits hp.nonempty)
  have hspan : spanDigits (p.digits ++ rest) = (p.digits, rest) := spanDigits_append hp.digits h
  simp [readPower, Power.chars, hp.letter, hsplit, hspan, hp.nonempty]

/-- What is read is a power of ten or nothing, and with the rest it is the whole text. -/
theorem readPower_sound (cs : List Char) :
    (∀ p ∈ (readPower cs).1, p.Valid) ∧ ((readPower cs).1.map Power.chars).getD [] ++ (readPower cs).2 = cs := by
  unfold readPower
  split
  · simp
  · next letter cs =>
    split
    · next hletter =>
      simp only
      split
      · simp
      · next hdigits =>
        refine ⟨?_, ?_⟩
        · intro p hp
          cases hp
          exact ⟨hletter, sign_splitSign cs, digits_spanDigits _, by simpa using hdigits⟩
        · simp [Power.chars, spanDigits_parts, splitSign_parts]
    · simp

theorem readFraction_chars {fraction : Option (List Char)} (hdigits : ∀ ds ∈ fraction, Digits ds) {rest : List Char}
    (h : Stops Char.isDigit rest) (hpoint : Stops (· = '.') rest) :
    readFraction ((fraction.map ('.' :: ·)).getD [] ++ rest) = (fraction, rest) := by
  cases fraction with
  | some ds => simp [readFraction, spanDigits_append (hdigits ds rfl) h]
  | none =>
    simp only [Option.map_none, Option.getD_none, List.nil_append, readFraction]
    split
    · exact absurd (hpoint '.' rfl) (by simp)
    · rfl

theorem readFraction_sound (cs : List Char) :
    (∀ ds ∈ (readFraction cs).1, Digits ds) ∧
      ((readFraction cs).1.map ('.' :: ·)).getD [] ++ (readFraction cs).2 = cs := by
  unfold readFraction
  split
  · refine ⟨?_, by simp [spanDigits_parts]⟩
    intro ds hds
    cases hds
    exact digits_spanDigits _
  · simp

/-- The power of a number begins with a letter, which neither a digit nor a point is. -/
theorem stops_power {power : Option Power} (hpower : ∀ p ∈ power, p.Valid) {p : Char → Bool}
    {rest : List Char} (hrest : Stops p rest) (hletter : p 'e' = false ∧ p 'E' = false) :
    Stops p ((power.map Power.chars).getD [] ++ rest) := by
  cases power with
  | none => exact hrest
  | some power =>
    intro c hc
    cases hc
    obtain hc | hc := (hpower power rfl).letter
    · exact hc ▸ hletter.1
    · exact hc ▸ hletter.2

/-- What follows the whole part of a number does not go on with it. -/
theorem stops_fraction (fraction : Option (List Char)) {rest : List Char} (h : Stops Char.isDigit rest) :
    Stops Char.isDigit ((fraction.map ('.' :: ·)).getD [] ++ rest) := by
  cases fraction with
  | none => exact h
  | some ds =>
    intro c hc
    cases hc
    rfl

theorem nonempty_iff {whole : List Char} {fraction : Option (List Char)} :
    (whole ≠ [] ∨ ∃ ds ∈ fraction, ds ≠ []) ↔ ¬(whole.isEmpty = true ∧ (fraction.getD []).isEmpty = true) := by
  cases fraction <;> simp [Decidable.imp_iff_not_or]

theorem readLiteral?_chars {l : Literal} (hl : l.Valid) {rest : List Char} (h : Closed rest) :
    readLiteral? (l.chars ++ rest) = some (l, rest) := by
  have hdigit := stops_power hl.power h.digit (by decide)
  have hpoint := stops_power hl.power h.2 (by decide)
  have hwhole := spanDigits_append hl.whole (stops_fraction l.fraction hdigit)
  have hfraction := readFraction_chars hl.fraction hdigit hpoint
  have hpower : readPower ((l.power.map Power.chars).getD [] ++ rest) = (l.power, rest) := by
    cases hp : l.power with
    | none => exact readPower_of_closed h
    | some p => exact readPower_chars (hl.power p hp) h.digit
  simp only [readLiteral?, Literal.chars, List.append_assoc, hwhole, hfraction, hpower,
    if_neg (nonempty_iff.1 hl.nonempty)]

/-- What is read as a number is one, and with the rest it is the whole text. -/
theorem readLiteral?_sound {cs rest : List Char} {l : Literal} (h : readLiteral? cs = some (l, rest)) :
    l.Valid ∧ l.chars ++ rest = cs := by
  simp only [readLiteral?] at h
  split at h
  · cases h
  · next hnonempty =>
    cases h
    obtain ⟨hfraction, hcs⟩ := readFraction_sound (spanDigits cs).2
    obtain ⟨hpower, hrest⟩ := readPower_sound (readFraction (spanDigits cs).2).2
    refine ⟨⟨digits_spanDigits cs, hfraction, nonempty_iff.2 hnonempty, hpower⟩, ?_⟩
    simp [Literal.chars, hrest, hcs, spanDigits_parts]

/-- The first character of a number is a digit or a point. -/
theorem Literal.Valid.head {l : Literal} (hl : l.Valid) : ∃ c cs, l.chars = c :: cs ∧ (c.isDigit = true ∨ c = '.') := by
  unfold Literal.chars
  cases hwhole : l.whole with
  | cons d ds => exact ⟨d, _, rfl, .inl (hl.whole d (by simp [hwhole]))⟩
  | nil =>
    obtain habsurd | ⟨ds, hds, -⟩ := hl.nonempty
    · exact absurd hwhole habsurd
    · rw [Option.mem_def.1 hds]
      exact ⟨'.', _, rfl, .inr rfl⟩

theorem readLiteral?_eq_none {c : Char} (hdigit : c.isDigit = false) (hpoint : c ≠ '.') (cs : List Char) :
    readLiteral? (c :: cs) = none := by
  have hspan : spanDigits (c :: cs) = ([], c :: cs) := by simp [spanDigits, hdigit]
  simp [readLiteral?, hspan, readFraction, hpoint]

/-! ## Names -/

theorem isLetter_of_isDigit {c : Char} (h : c.isDigit = true) : isLetter c = false := by
  simp only [Char.isDigit, Bool.and_eq_true, decide_eq_true_eq, UInt32.le_iff_toNat_le] at h
  have hletter : isLetter c =
      (decide ('A'.val ≤ c.val ∧ c.val ≤ 'Z'.val) || decide ('a'.val ≤ c.val) && decide (c.val ≤ 'z'.val)) := rfl
  simp only [hletter, Bool.or_eq_false_iff, Bool.and_eq_false_iff, decide_eq_false_iff_not, UInt32.le_iff_toNat_le]
  have : '9'.val.toNat = 57 := rfl
  have : 'A'.val.toNat = 65 := rfl
  have : 'a'.val.toNat = 97 := rfl
  omega

theorem readName?_append {name : List Char} (hname : IsName name) {rest : List Char} (h : Closed rest) :
    readName? (name ++ rest) = some (name, rest) := by
  obtain ⟨c, cs, rfl, hc, hcs⟩ := hname
  simp [readName?, hc, takeWhile_append_of_stops hcs h.1, dropWhile_append_of_stops hcs h.1]

theorem readName?_sound {cs name rest : List Char} (h : readName? cs = some (name, rest)) :
    IsName name ∧ name ++ rest = cs := by
  unfold readName? at h
  split at h
  · cases h
  · next c cs =>
    split at h
    · next hc =>
      cases h
      exact ⟨⟨c, _, rfl, hc, fun _ => List.mem_takeWhile_imp⟩, by simp⟩
    · cases h

theorem readName?_eq_none {c : Char} (hc : isLetter c = false) (cs : List Char) : readName? (c :: cs) = none := by
  simp [readName?, hc]

/-- No name begins as a number does. -/
theorem readName?_number {l : Literal} (hl : l.Valid) (rest : List Char) : readName? (l.chars ++ rest) = none := by
  obtain ⟨c, cs, heq, hc⟩ := hl.head
  rw [heq]
  refine readName?_eq_none ?_ _
  obtain hc | rfl := hc
  · exact isLetter_of_isDigit hc
  · rfl

/-- No number begins as a name does. -/
theorem readLiteral?_name {name : List Char} (hname : IsName name) (rest : List Char) :
    readLiteral? (name ++ rest) = none := by
  obtain ⟨c, cs, rfl, hc, -⟩ := hname
  refine readLiteral?_eq_none (Bool.eq_false_iff.2 fun hdigit => ?_) ?_ _
  · rw [isLetter_of_isDigit hdigit] at hc
    cases hc
  · rintro rfl
    exact absurd hc (by decide)

/-! ## Blanks -/

theorem blanks_append {u v : List Char} (hu : Blanks u) (hv : Blanks v) : Blanks (u ++ v) := by
  intro c hc
  obtain hc | hc := List.mem_append.1 hc
  · exact hu c hc
  · exact hv c hc

theorem skipBlanks_append {u rest : List Char} (hu : Blanks u) : skipBlanks (u ++ rest) = skipBlanks rest :=
  List.dropWhile_append_of_pos hu

theorem skipBlanks_eq (cs : List Char) : ∃ u, Blanks u ∧ cs = u ++ skipBlanks cs :=
  ⟨cs.takeWhile isSpace, fun _ => List.mem_takeWhile_imp, List.takeWhile_append_dropWhile.symm⟩

end Expr
end Blueprint
