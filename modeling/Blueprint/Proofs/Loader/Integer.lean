import Blueprint.Loader.Reader
import Blueprint.Proofs.Decimal.Exact
import Blueprint.Proofs.Expr.Digits
import Blueprint.Proofs.Sampling.Contract

/-!
# Reading integers

What an integer reader accepts stands for a word exactly (`Reader.StandsFor`), and everything else is refused for a
stated reason (`Reader.Refuses`). An integer written as a text is a float before it is an integer, so the text agrees
with the JSON number just if 53 bits are enough for it.
-/

namespace Blueprint.Reader

open Decimal

variable {raw : Json} {x : Float} {i n : Int} {e : LoadError}

/-! ## Words among the floats -/

/-- The word that is a float's number. -/
def HoldsWord (x : Float) (i : Int) : Prop := value? x = some (i : ℚ) ∧ Number.isWord i = true

theorem value?_top : value? (Float.ofInt (Number.wordBound - 1)) = some (Number.wordBound : ℚ) := by
  rw [value?_ofInt (by decide)]
  exact congrArg (fun n : Int => some (n : ℚ)) (by decide)

theorem value?_bottom : value? (Float.ofInt (-Number.wordBound)) = some ((-Number.wordBound : Int) : ℚ) := by
  rw [value?_ofInt (by decide)]
  exact congrArg (fun n : Int => some (n : ℚ)) (by decide)

/-- The conditions under which a float is refused leave out exactly the words. -/
theorem wordless_iff (x : Float) :
    (fraction x != 0 || Float.ofInt (Number.wordBound - 1) ≤ x || x < Float.ofInt (-Number.wordBound)) = true ↔
      ∀ i, ¬ HoldsWord x i := by
  simp only [Bool.or_eq_true, decide_eq_true_iff, bne, Bool.not_eq_true']
  cases hx : value? x with
  | none => exact iff_of_true (.inl (.inl (fraction_ne_zero hx))) fun i h => by simp [h.1] at hx
  | some a =>
    rw [le_iff value?_top hx, lt_iff hx value?_bottom, ← Bool.not_eq_true, fraction_eq_zero_iff hx]
    by_cases hint : ∃ i : Int, a = i
    · obtain ⟨i, rfl⟩ := hint
      have hholds (j : Int) : HoldsWord x j ↔ i = j ∧ Number.isWord i = true := by
        rw [HoldsWord, hx, Option.some.injEq, Int.cast_inj]
        exact ⟨fun h => ⟨h.1, h.1 ▸ h.2⟩, fun h => ⟨h.1, h.1 ▸ h.2⟩⟩
      simp only [hholds, isWord_iff, Int.cast_le, Int.cast_lt]
      constructor
      · rintro ((h | h) | h) j ⟨rfl, hlow, hhigh⟩
        · exact h ⟨i, rfl⟩
        · omega
        · omega
      · intro h
        have := h i
        by_cases hlow : i < -Number.wordBound
        · exact .inr hlow
        · exact .inl (.inr (by omega))
    · exact iff_of_true (.inl (.inl hint)) fun i h => hint ⟨i, Option.some.inj (hx.symm.trans h.1)⟩

theorem wordOfFloat_of_holdsWord (h : HoldsWord x i) : wordOfFloat x = .ok i := by
  have hword : ¬ ∀ i, ¬ HoldsWord x i := fun hnone => hnone i h
  rw [wordOfFloat, if_neg ((wordless_iff x).not.mpr hword), toInt64_of_integer h.1 h.2]

theorem wordOfFloat_of_wordless (h : ∀ i, ¬ HoldsWord x i) : wordOfFloat x = .error (.notAnInteger x) := by
  rw [wordOfFloat, if_pos ((wordless_iff x).mpr h)]

/-- An integer above the words is no word as a float either. -/
theorem wordless_ofInt (hn : Number.isAnyWord n = true) (h : Number.isWord n = false) (i : Int) :
    ¬ HoldsWord (Float.ofInt n) i := by
  rintro ⟨hvalue, hi⟩
  have hword := ((isWord_iff i).mp hi).2
  have hany := (isAnyWord_iff n).mp hn
  have hnot := (isWord_iff n).not.mp (Bool.eq_false_iff.mp h)
  unfold Number.wordBound at hword hany hnot
  lift n to ℕ using by omega
  rw [value?_ofInt (by omega), nearestInt_natCast, Option.some.injEq, Int.cast_inj] at hvalue
  have hnearest : 2 ^ 63 ≤ nearest n := le_nearest (.two_pow 63) (by omega)
  omega

/-! ## What is accepted -/

/-- The word that a description stands for. -/
inductive StandsFor : Json → Int → Prop
  | word {i : Int} : Number.isWord i = true → StandsFor (.num (.integer i)) i
  | float {x : Float} {i : Int} : HoldsWord x i → StandsFor (.num (.float x)) i
  | text {s : String} {x : Float} {i : Int} : Expr.evaluate s = .ok x → HoldsWord x i → StandsFor (.str s) i

/-- Why a description stands for no word. -/
inductive Refuses : Json → LoadError → Prop
  | above {n : Int} : Number.isWord n = false → Refuses (.num (.integer n)) (.notAnInteger (Float.ofInt n))
  | float {x : Float} : (∀ i, ¬ HoldsWord x i) → Refuses (.num (.float x)) (.notAnInteger x)
  | text {s : String} {x : Float} : Expr.evaluate s = .ok x → (∀ i, ¬ HoldsWord x i) →
      Refuses (.str s) (.notAnInteger x)
  | evaluation {s : String} {e : LoadError} : Expr.evaluate s = .error e → Refuses (.str s) e
  | mismatch {raw : Json} : (∀ n, raw ≠ .num n) → (∀ s, raw ≠ .str s) →
      Refuses raw (.typeMismatch "Float" raw.typeName)

theorem standsFor_or_refuses (raw : Json) : (∃ i, StandsFor raw i) ∨ ∃ e, Refuses raw e := by
  cases raw with
  | num n =>
    cases n with
    | integer n =>
      cases hn : Number.isWord n with
      | true => exact .inl ⟨n, .word hn⟩
      | false => exact .inr ⟨_, .above hn⟩
    | float x =>
      by_cases hword : ∃ i, HoldsWord x i
      · exact .inl (hword.imp fun _ h => .float h)
      · exact .inr ⟨_, .float (not_exists.mp hword)⟩
  | str s =>
    cases hs : Expr.evaluate s with
    | error e => exact .inr ⟨e, .evaluation hs⟩
    | ok x =>
      by_cases hword : ∃ i, HoldsWord x i
      · exact .inl (hword.imp fun _ h => .text hs h)
      · exact .inr ⟨_, .text hs (not_exists.mp hword)⟩
  | _ => exact .inr ⟨_, .mismatch nofun nofun⟩

theorem readInteger_text {s : String} : readInteger (.str s) = (Expr.evaluate s).bind wordOfFloat := rfl

theorem StandsFor.readInteger (h : StandsFor raw i) : readInteger raw = .ok i := by
  cases h with
  | word h => simp [Reader.readInteger, Number.toWord?, h]
  | float h => exact wordOfFloat_of_holdsWord h
  | text hs h => rw [readInteger_text, hs, Except.bind, wordOfFloat_of_holdsWord h]

theorem Refuses.readInteger (h : Refuses raw e) (hraw : ∀ n, raw = .num n → n.Storable) :
    readInteger raw = .error e := by
  cases h with
  | @above n h =>
    have hread : Reader.readInteger (.num (.integer n)) = wordOfFloat (Float.ofInt n) := by
      simp only [Reader.readInteger, Number.toWord?, h]
      rfl
    rw [hread, wordOfFloat_of_wordless (wordless_ofInt (hraw _ rfl) h)]
  | float h => exact wordOfFloat_of_wordless h
  | text hs h => rw [readInteger_text, hs, Except.bind, wordOfFloat_of_wordless h]
  | evaluation hs => rw [readInteger_text, hs, Except.bind]
  | mismatch hnum hstr =>
    cases raw with
    | num n => exact absurd rfl (hnum n)
    | str s => exact absurd rfl (hstr s)
    | _ => rfl

/-- A description stands for a word and is read as it, or it is refused, and not both. -/
theorem readInteger_ok_iff (hraw : ∀ n, raw = .num n → n.Storable) : readInteger raw = .ok i ↔ StandsFor raw i := by
  refine ⟨fun h => ?_, StandsFor.readInteger⟩
  obtain ⟨j, hj⟩ | ⟨e, he⟩ := standsFor_or_refuses raw
  · rw [hj.readInteger] at h
    cases h
    exact hj
  · rw [he.readInteger hraw] at h
    cases h

theorem readInteger_error_iff (hraw : ∀ n, raw = .num n → n.Storable) :
    readInteger raw = .error e ↔ Refuses raw e := by
  refine ⟨fun h => ?_, fun h => h.readInteger hraw⟩
  obtain ⟨j, hj⟩ | ⟨e', he⟩ := standsFor_or_refuses raw
  · rw [hj.readInteger] at h
    cases h
  · rw [he.readInteger hraw] at h
    cases h
    exact he

theorem read_integer_eq : Reader.integer.read raw = (readInteger raw).bind fun i => .ok (.int i) := rfl

theorem read_positiveInteger_eq : Reader.positiveInteger.read raw =
    (readInteger raw).bind fun i => if i ≤ 0 then .error (.notPositive (toString i)) else .ok (.int i) := rfl

/-- Integers are read exactly: a description stands for the word that is read from it, which is neither cut off nor
rounded, and everything that stands for none is refused. Positive integers are the same ones from one on. -/
theorem integer_exact (hraw : ∀ n, raw = .num n → n.Storable) :
    (∀ v, Reader.integer.read raw = .ok v ↔ ∃ i, StandsFor raw i ∧ v = .int i) ∧
    (∀ e, Reader.integer.read raw = .error e ↔ Refuses raw e) ∧
    (∀ v, Reader.positiveInteger.read raw = .ok v ↔ ∃ i, StandsFor raw i ∧ 1 ≤ i ∧ v = .int i) ∧
    ∀ e, Reader.positiveInteger.read raw = .error e ↔
      (∃ i, StandsFor raw i ∧ i < 1 ∧ e = .notPositive (toString i)) ∨ Refuses raw e := by
  simp only [← readInteger_ok_iff hraw, ← readInteger_error_iff hraw, read_integer_eq, read_positiveInteger_eq]
  cases readInteger raw with
  | error e => simp [Except.bind]
  | ok i =>
    rcases lt_or_ge i 1 with hi | hi
    · have hle : i ≤ 0 := Int.lt_add_one_iff.mp hi
      simp [Except.bind, hle, hi, hi.not_ge, eq_comm]
    · have hle : ¬ i ≤ 0 := fun h => by omega
      simp [Except.bind, hle, hi, hi.not_gt, eq_comm]

/-- The least word is exact as a float, and it is not positive. -/
theorem integer_exact_least_word :
    let raw := Json.num (.float (Float.ofInt (-Number.wordBound)))
    (∀ n, raw = .num n → n.Storable) ∧ Reader.integer.read raw = .ok (.int (-9223372036854775808)) ∧
      Reader.positiveInteger.read raw = .error (.notPositive "-9223372036854775808") := by
  intro raw
  have hraw : ∀ n, raw = .num n → n.Storable := by
    intro n hn
    cases Json.num.inj hn
    exact isFinite_ofInt (by decide)
  have hword : StandsFor raw (-9223372036854775808) := .float ⟨value?_bottom, by decide⟩
  obtain ⟨hok, -, -, herror⟩ := integer_exact hraw
  exact ⟨hraw, (hok _).mpr ⟨_, hword, rfl⟩, (herror _).mpr (.inl ⟨_, hword, by decide, rfl⟩)⟩

/-! ## Integers written as texts -/

theorem isWord_nearestInt (hn : Number.isWord n = true) :
    Number.isWord (nearestInt n) = true ↔ nearestInt n ≠ Number.wordBound := by
  rw [isWord_iff] at hn ⊢
  unfold Number.wordBound at hn ⊢
  obtain ⟨k, rfl | rfl⟩ := Int.eq_nat_or_neg n
  · have hle : nearest k ≤ 2 ^ 63 := nearest_le (.two_pow 63) (by omega)
    rw [nearestInt_natCast]
    omega
  · have hle : nearest k ≤ 2 ^ 63 := nearest_le (.two_pow 63) (by omega)
    rw [nearestInt_neg, nearestInt_natCast]
    omega

/-- The digits of an integer are read as the nearest integer that a float can be. -/
theorem readInteger_toString (hn : Number.isWord n = true) :
    readInteger (.str (toString n)) =
      if nearestInt n = Number.wordBound then .error (.notAnInteger (Float.ofInt n)) else .ok (nearestInt n) := by
  obtain ⟨hlow, hhigh⟩ := (isWord_iff n).mp hn
  have hword := isWord_nearestInt hn
  unfold Number.wordBound at hlow hhigh
  have hany : Number.isAnyWord n = true := (isAnyWord_iff n).mpr ⟨hlow, by unfold Number.wordBound; omega⟩
  have hvalue := value?_ofInt (n := n) (by omega)
  rw [readInteger_text, Expr.evaluate_toString hany, Except.bind]
  split
  · next h =>
    refine wordOfFloat_of_wordless fun i hi => ?_
    rw [HoldsWord, hvalue, Option.some.injEq, Int.cast_inj] at hi
    exact hword.mp (hi.1 ▸ hi.2) h
  · next h => exact wordOfFloat_of_holdsWord ⟨hvalue, hword.mpr h⟩

/-- The readers of integers that read `n`. -/
def Admits (r : Reader) (n : Int) : Prop := r = .integer ∨ r = .positiveInteger ∧ 1 ≤ n

theorem Admits.read_ok {r : Reader} (hr : r.Admits i) (h : readInteger raw = .ok i) : r.read raw = .ok (.int i) := by
  obtain rfl | ⟨rfl, hi⟩ := hr
  · rw [read_integer_eq, h, Except.bind]
  · have hle : ¬ i ≤ 0 := by omega
    rw [read_positiveInteger_eq, h, Except.bind, if_neg hle]

theorem Admits.read_error {r : Reader} (hr : r.Admits i) (h : readInteger raw = .error e) : r.read raw = .error e := by
  obtain rfl | ⟨rfl, hi⟩ := hr
  · rw [read_integer_eq, h, Except.bind]
  · rw [read_positiveInteger_eq, h, Except.bind]

theorem Admits.nearestInt {r : Reader} (hr : r.Admits n) : r.Admits (nearestInt n) := by
  refine hr.imp_right fun ⟨h, hn⟩ => ⟨h, ?_⟩
  lift n to ℕ using by omega
  rw [nearestInt_natCast]
  exact_mod_cast le_nearest (.two_pow 0) (by omega)

/-- As a JSON number an integer is read as it is. As a text it is read as the nearest integer that has at most 53 bits
in front of its trailing zeros, halfway between two as the one with the even last place, and refused where that is out
of range; so the two agree just if it has no more bits. -/
theorem integer_text {r : Reader} (hn : Number.isWord n = true) (hr : r.Admits n) :
    r.read (.num (.integer n)) = .ok (.int n) ∧
    r.read (.str (toString n)) =
      (if nearestInt n = Number.wordBound then .error (.notAnInteger (Float.ofInt n)) else .ok (.int (nearestInt n))) ∧
    (r.read (.str (toString n)) = r.read (.num (.integer n)) ↔ Short n.natAbs) ∧
    Short (nearestInt n).natAbs ∧ (∀ m : Int, Short m.natAbs → (n - nearestInt n).natAbs ≤ (n - m).natAbs) ∧
    (2 * (n - nearestInt n).natAbs = 2 ^ (n.natAbs.log2 - 52) →
      2 * 2 ^ (n.natAbs.log2 - 52) ∣ (nearestInt n).natAbs) := by
  have hnum := hr.read_ok (StandsFor.word hn).readInteger
  have htext : r.read (.str (toString n)) =
      if nearestInt n = Number.wordBound then .error (.notAnInteger (Float.ofInt n)) else .ok (.int (nearestInt n)) := by
    have hread := readInteger_toString hn
    split at hread
    · next h => rw [if_pos h, hr.read_error hread]
    · next h => rw [if_neg h, hr.nearestInt.read_ok hread]
  refine ⟨hnum, htext, ?_, ?_, fun m hm => nearestInt_closest hm n, nearestInt_even⟩
  · rw [hnum, htext, ← nearestInt_eq_self_iff]
    split
    · next h =>
      have hne : Number.wordBound ≠ n := ((isWord_iff n).mp hn).2.ne'
      simp [h, hne]
    · simp
  · rw [natAbs_nearestInt]
    exact nearest_short _

/-- The least positive integer of 54 bits is read from its digits as the one below it. -/
theorem integer_text_of_54_bits :
    Number.isWord 9007199254740993 = true ∧ Reader.positiveInteger.Admits 9007199254740993 ∧
      Reader.positiveInteger.read (.str "9007199254740993") = .ok (.int 9007199254740992) := by
  have hn : Number.isWord 9007199254740993 = true := by decide
  have hr : Reader.positiveInteger.Admits 9007199254740993 := .inr ⟨rfl, by decide⟩
  have hnearest : nearestInt 9007199254740993 = 9007199254740992 := by decide
  have htext := (integer_text hn hr).2.1
  rw [hnearest, if_neg (by decide)] at htext
  exact ⟨hn, hr, htext⟩

/-- A number and its digits are not always read alike. -/
theorem integer_text_differs :
    Number.isWord 9007199254740993 = true ∧ toString (9007199254740993 : Int) = "9007199254740993" ∧
      Reader.integer.read (.num (.integer 9007199254740993)) = .ok (.int 9007199254740993) ∧
      Reader.integer.read (.str "9007199254740993") ≠ .ok (.int 9007199254740993) := by
  have hn : Number.isWord 9007199254740993 = true := by decide
  have hr : Reader.integer.Admits 9007199254740993 := .inl rfl
  have hnearest : nearestInt 9007199254740993 = 9007199254740992 := by decide
  have htext := readInteger_toString hn
  rw [hnearest, if_neg (by decide)] at htext
  have hread : Reader.integer.read (.str "9007199254740993") = .ok (.int 9007199254740992) := hr.nearestInt.read_ok htext
  refine ⟨hn, rfl, hr.read_ok (StandsFor.word hn).readInteger, ?_⟩
  rw [hread]
  exact nofun

end Blueprint.Reader
