import Blueprint.Json.Printer
import Blueprint.Json.Source
import Blueprint.Proofs.Json.Parts

/-!
# Reading what was written

The compact text of a value that holds no number is read as the source that spells the value out
(`Source.read?_compact`). A character of a string is read as itself or, if its escape is a code, as that code; the
bound on the steps of the reader is met because every step of it takes a character.
-/

namespace Blueprint.Json

/-- No number occurs in the value, at any depth. -/
def Numberless (json : Json) : Prop := json.Throughout fun x => ∀ n, x ≠ .num n

namespace Numberless

variable {items : List Json} {members : Members}

theorem str (s : String) : (Json.str s).Numberless := Throughout.str nofun

theorem arr (h : ∀ x ∈ items, x.Numberless) : (Json.arr items).Numberless := Throughout.arr nofun h

theorem obj (h : ∀ e ∈ members, e.2.Numberless) : (Json.obj members).Numberless := Throughout.obj nofun h

end Numberless

namespace Source

variable {rounding : Rounding} {fuel : Nat} {rest : List Char}

/-! ## Strings -/

/-- A piece of a string that stands for a character: the character, or the code of a control character. -/
def Piece.Spells (piece : Piece) (c : Char) : Prop := piece = .char c ∨ piece = .unit c.toNat ∧ c.toNat < 0x20

theorem hexDigit?_hexChar : ∀ n < 16, hexDigit? (hexChar n) = some n := by decide

theorem join?_cons {piece : Piece} {c : Char} (h : piece.Spells c) (pieces : List Piece) :
    join? (piece :: pieces) = (join? pieces).map (c :: ·) := by
  rcases h with rfl | ⟨rfl, hlow⟩
  · rw [join?]
  · rw [join?.eq_def]
    simp only
    rw [if_neg (by omega), if_neg (by omega), Char.ofNat_toNat]

/-- A character that needs no escape is read as it is. -/
theorem readPieces?_plain {c : Char} (hquote : c ≠ '"') (hbackslash : c ≠ '\\') (hhigh : ¬ c.toNat < 0x20)
    {pieces : List Piece} {cs : List Char} (h : readPieces? fuel cs = some (pieces, rest)) :
    readPieces? (fuel + 1) (c :: cs) = some (.char c :: pieces, rest) := by
  simp [readPieces?, hbackslash, hhigh, h]

/-- What a character is written as is read in one step. -/
theorem readPieces?_charChars (c : Char) : ∃ piece : Piece, piece.Spells c ∧ ∀ {fuel pieces cs rest},
    readPieces? fuel cs = some (pieces, rest) →
      readPieces? (fuel + 1) (charChars c ++ cs) = some (piece :: pieces, rest) := by
  unfold charChars
  split
  case h_8 hquote hbackslash _ _ _ _ _ =>
    split
    · next hlow =>
      have hhigh := hexDigit?_hexChar (c.toNat / 16) (by omega)
      have hdigit := hexDigit?_hexChar (c.toNat % 16) (by omega)
      have hcode : c.toNat / 16 * 16 + c.toNat % 16 = c.toNat := by omega
      refine ⟨.unit c.toNat, .inr ⟨rfl, hlow⟩, fun {fuel pieces cs rest} h => ?_⟩
      have hunit : readUnit? ('0' :: '0' :: hexChar (c.toNat / 16) :: hexChar (c.toNat % 16) :: cs) =
          some (c.toNat, cs) := by
        simp [readUnit?, hhigh, hdigit, hcode, show hexDigit? '0' = some 0 from rfl]
      simp [readPieces?, hunit, h]
    · next hlow => exact ⟨.char c, .inl rfl, readPieces?_plain hquote hbackslash hlow⟩
  all_goals exact ⟨.char _, .inl rfl, fun h => by simp [readPieces?, simpleEscape?, h]⟩

theorem length_le_flatMap_charChars (cs : List Char) : cs.length ≤ (cs.flatMap charChars).length := by
  induction cs with
  | nil => simp
  | cons c cs ih =>
    have hone : 1 ≤ (charChars c).length := by
      unfold charChars
      repeat' split
      all_goals simp
    rw [List.flatMap_cons, List.length_append, List.length_cons]
    omega

/-- A written string is read piece by piece, up to its closing quote. -/
theorem readPieces?_flatMap (cs rest : List Char) (h : cs.length ≤ fuel) : ∃ pieces,
    readPieces? fuel (cs.flatMap charChars ++ '"' :: rest) = some (pieces, rest) ∧ join? pieces = some cs := by
  induction cs generalizing fuel with
  | nil => exact ⟨[], by simp [readPieces?], by simp [join?]⟩
  | cons c cs ih =>
    obtain ⟨fuel, rfl⟩ : ∃ n, fuel = n + 1 := ⟨fuel - 1, by simp at h; omega⟩
    obtain ⟨pieces, hread, hjoin⟩ := ih (Nat.le_of_succ_le_succ h)
    obtain ⟨piece, hspells, hstep⟩ := readPieces?_charChars c
    refine ⟨piece :: pieces, ?_, ?_⟩
    · rw [List.flatMap_cons, List.append_assoc]
      exact hstep hread
    · rw [join?_cons hspells, hjoin, Option.map_some]

theorem readString?_flatMap (cs rest : List Char) :
    readString? (cs.flatMap charChars ++ '"' :: rest) = some (some (String.ofList cs), rest) := by
  have hfuel : cs.length ≤ (cs.flatMap charChars ++ '"' :: rest).length := by
    rw [List.length_append]
    exact Nat.le_add_right_of_le (length_le_flatMap_charChars cs)
  obtain ⟨pieces, hread, hjoin⟩ := readPieces?_flatMap cs rest hfuel
  simp only [readString?, hread, Option.map_some, hjoin]

/-! ## Values -/

/-- The first characters of values that are no numbers. -/
def starts : List Char := ['n', 't', 'f', '"', '[', '{']

theorem chars_head {json : Json} (h : json.Numberless) : ∃ c cs, chars json = c :: cs ∧ c ∈ starts := by
  cases json with
  | num n => exact absurd rfl (h.self n)
  | bool b => cases b <;> exact ⟨_, _, rfl, by decide⟩
  | _ => exact ⟨_, _, rfl, by decide⟩

theorem itemChars_head {item : Json} (h : item.Numberless) (items : List Json) :
    ∃ c cs, itemChars (item :: items) = c :: cs ∧ c ∈ starts := by
  obtain ⟨c, cs, he, hc⟩ := chars_head h
  cases items with
  | nil => exact ⟨c, cs, by rw [itemChars, he], hc⟩
  | cons next items => exact ⟨c, _, by rw [itemChars, he, List.cons_append]; simp, hc⟩

theorem memberChars_head (member : String × Json) (members : Members) :
    ∃ cs, memberChars (member :: members) = '"' :: cs := by
  cases members <;> exact ⟨_, rfl⟩

theorem skipSpace_cons {c : Char} (h : c ∉ [' ', '\n', '\t', '\r']) (cs : List Char) :
    skipSpace (c :: cs) = c :: cs := by
  rw [skipSpace, if_neg (by simpa using h)]

theorem skipSpace_of_starts {c : Char} (h : c ∈ starts) (cs : List Char) : skipSpace (c :: cs) = c :: cs := by
  have hshown : ∀ c ∈ starts, c ∉ [' ', '\n', '\t', '\r'] := by simp [starts]
  exact skipSpace_cons (hshown c h) cs

mutual

theorem readValue?_chars : (json : Json) → json.Numberless → ∀ fuel, (chars json).length ≤ fuel → ∀ rest,
    readValue? rounding fuel (chars json ++ rest) = some (ofJson json, rest)
  | json, h, 0, hfuel, rest => by
    obtain ⟨c, cs, he, -⟩ := chars_head h
    simp [he] at hfuel
  | .null, _, fuel + 1, _, rest => by simp [chars, readValue?, ofJson]
  | .bool true, _, fuel + 1, _, rest => by simp [chars, readValue?, ofJson]
  | .bool false, _, fuel + 1, _, rest => by simp [chars, readValue?, ofJson]
  | .num n, h, _, _, _ => absurd rfl (h.self n)
  | .str s, _, fuel + 1, _, rest => by
    simp [chars, stringChars, readValue?, readString?_flatMap, ofJson]
  | .arr [], _, fuel + 1, _, rest => by simp [chars, itemChars, readValue?, skipSpace, ofJson, ofItems]
  | .arr (item :: items), h, fuel + 1, hfuel, rest => by
    have hitems := readItems?_itemChars item items h.item fuel (by simp [chars] at hfuel; omega) rest
    obtain ⟨c, cs, he, hc⟩ := itemChars_head (h.item item (by simp)) items
    have hne : c ≠ ']' := by rintro rfl; exact absurd hc (by decide)
    rw [he, List.cons_append] at hitems
    simp [chars, he, readValue?, skipSpace_of_starts hc, hne, hitems, ofJson]
  | .obj [], _, fuel + 1, _, rest => by simp [chars, memberChars, readValue?, skipSpace, ofJson, ofMembers]
  | .obj (member :: members), h, fuel + 1, hfuel, rest => by
    have hmembers := readMembers?_memberChars member members h.member fuel (by simp [chars] at hfuel; omega) rest
    obtain ⟨cs, he⟩ := memberChars_head member members
    rw [he, List.cons_append] at hmembers
    simp [chars, he, readValue?, skipSpace, hmembers, ofJson]

theorem readItems?_itemChars : (item : Json) → (items : List Json) → (∀ x ∈ item :: items, x.Numberless) →
    ∀ fuel, (itemChars (item :: items)).length < fuel → ∀ rest,
    readItems? rounding fuel (itemChars (item :: items) ++ ']' :: rest) = some (ofItems (item :: items), rest)
  | item, items, h, 0, hfuel, rest => by simp at hfuel
  | item, [], h, fuel + 1, hfuel, rest => by
    have hitem := readValue?_chars item (h item (by simp)) fuel (by simp [itemChars] at hfuel; omega) (']' :: rest)
    simp [itemChars, readItems?, hitem, skipSpace, ofItems]
  | item, next :: items, h, fuel + 1, hfuel, rest => by
    have hitem := readValue?_chars item (h item (by simp)) fuel (by simp [itemChars] at hfuel; omega)
      (',' :: (itemChars (next :: items) ++ ']' :: rest))
    obtain ⟨c, cs, he, hc⟩ := chars_head (h item (by simp))
    have hitems := readItems?_itemChars next items (fun x hx => h x (by simp [hx])) fuel
      (by simp [itemChars, he] at hfuel; omega) rest
    obtain ⟨c', cs', he', hc'⟩ := itemChars_head (h next (by simp)) items
    rw [he', List.cons_append] at hitems hitem
    simp [itemChars, he', readItems?, hitem, skipSpace_cons, skipSpace_of_starts hc', hitems, ofItems]

theorem readMembers?_memberChars : (member : String × Json) → (members : Members) →
    (∀ e ∈ member :: members, e.2.Numberless) → ∀ fuel, (memberChars (member :: members)).length < fuel → ∀ rest,
    readMembers? rounding fuel (memberChars (member :: members) ++ '}' :: rest) =
      some (ofMembers (member :: members), rest)
  | (key, value), members, h, 0, hfuel, rest => by simp at hfuel
  | (key, value), [], h, fuel + 1, hfuel, rest => by
    have hnumberless : value.Numberless := h (key, value) (by simp)
    have hvalue := readValue?_chars value hnumberless fuel (by simp [memberChars] at hfuel; omega) ('}' :: rest)
    obtain ⟨c, cs, he, hc⟩ := chars_head hnumberless
    rw [he, List.cons_append] at hvalue
    simp [memberChars, stringChars, readMembers?, readString?_flatMap, he, skipSpace_cons,
      skipSpace_of_starts hc, hvalue, ofMembers]
  | (key, value), next :: members, h, fuel + 1, hfuel, rest => by
    have hnumberless : value.Numberless := h (key, value) (by simp)
    have hvalue := readValue?_chars value hnumberless fuel (by simp [memberChars] at hfuel; omega)
      (',' :: (memberChars (next :: members) ++ '}' :: rest))
    have hmembers := readMembers?_memberChars next members (fun e he => h e (by simp [he])) fuel
      (by simp [memberChars] at hfuel; omega) rest
    obtain ⟨c, cs, he, hc⟩ := chars_head hnumberless
    obtain ⟨cs', he'⟩ := memberChars_head next members
    rw [he', List.cons_append] at hmembers hvalue
    rw [he, List.cons_append] at hvalue
    simp [memberChars, stringChars, readMembers?, readString?_flatMap, he, he', skipSpace_cons,
      skipSpace_of_starts hc, hvalue, hmembers, ofMembers]

end

/-- What is written without numbers is read back as it was. -/
theorem read?_compact {json : Json} (h : json.Numberless) : read? rounding json.compact = some (ofJson json) := by
  have hread : readValue? rounding ((chars json).length + 1) (chars json ++ []) = some (ofJson json, []) :=
    readValue?_chars json h _ (Nat.le_succ _) []
  obtain ⟨c, cs, he, hc⟩ := chars_head h
  rw [List.append_nil] at hread
  simp only [read?, compact, String.toList_ofList]
  rw [he, skipSpace_of_starts hc, ← he, hread]
  rfl

end Source
end Blueprint.Json
