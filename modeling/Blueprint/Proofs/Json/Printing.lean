import Blueprint.Json.Printer
import Blueprint.Proofs.Json.Parts

/-!
# JSON text on one line

Control characters are escaped in strings and occur nowhere else, so the compact text of a value has no line end
(`Json.visible_chars`).
-/

namespace Blueprint

/-! ## Texts without control characters -/

/-- No control character occurs in the text. -/
def Text.Visible (cs : List Char) : Prop := ∀ c ∈ cs, 0x20 ≤ c.toNat

instance : DecidablePred Text.Visible := fun cs => List.decidableBAll (0x20 ≤ Char.toNat ·) cs

namespace Text.Visible

variable {c : Char} {xs ys : List Char}

theorem nil : Visible [] := nofun

theorem cons (hc : 0x20 ≤ c.toNat) (hxs : Visible xs) : Visible (c :: xs) := List.forall_mem_cons.mpr ⟨hc, hxs⟩

theorem append (hxs : Visible xs) (hys : Visible ys) : Visible (xs ++ ys) := List.forall_mem_append.mpr ⟨hxs, hys⟩

theorem replicate (hc : 0x20 ≤ c.toNat) (n : Nat) : Visible (List.replicate n c) :=
  fun _ h => List.eq_of_mem_replicate h ▸ hc

theorem take (h : Visible xs) (n : Nat) : Visible (xs.take n) := fun c hc => h c (List.mem_of_mem_take hc)

theorem drop (h : Visible xs) (n : Nat) : Visible (xs.drop n) := fun c hc => h c (List.mem_of_mem_drop hc)

theorem digits (n : Nat) : Visible (toString n).toList := by
  intro c hc
  rw [Nat.toString_eq_repr, Nat.toList_repr] at hc
  have hdigit := Nat.isDigit_of_mem_toDigits (by decide) (by decide) hc
  simp only [Char.isDigit, Bool.and_eq_true, decide_eq_true_eq, ge_iff_le, UInt32.le_iff_toNat_le] at hdigit
  exact Nat.le_trans (by decide) hdigit.1

theorem integer (n : Int) : Visible (toString n).toList := by
  cases n with
  | ofNat k => exact digits k
  | negSucc k =>
    rw [show toString (Int.negSucc k) = "-" ++ toString (k + 1) from rfl, String.toList_append]
    exact .append (by decide) (digits (k + 1))

end Text.Visible

open Text (Visible)

namespace Decimal.Layout

variable (style : Layout)

theorem visible_place (hend : Visible style.wholeEnd.toList) {digits : List Char} (hd : Visible digits) (point : Int) :
    Visible (style.place digits point) := by
  unfold place
  split
  · exact .cons (by decide) (.cons (by decide) (.append (.replicate (by decide) _) hd))
  · split
    · exact .append (hd.take _) (.cons (by decide) (hd.drop _))
    · exact .append (.append hd (.replicate (by decide) _)) hend

theorem visible_scientific {digits : List Char} (hd : Visible digits) (power : Int) :
    Visible (scientific digits power) := by
  have hexponent : Visible ('e' :: (if power < 0 then '-' else '+') :: (toString power.natAbs).toList) := by
    refine .cons (by decide) (.cons ?_ (.digits _))
    split <;> decide
  match digits, hd with
  | [], _ => exact .nil
  | [d], hd => exact .append hd hexponent
  | d :: next :: rest, hd =>
    obtain ⟨hfirst, hrest⟩ := List.forall_mem_cons.mp hd
    exact .cons hfirst (.cons (by decide) (.append hrest hexponent))

theorem visible_render (hend : Visible style.wholeEnd.toList) (x : Float) : Visible (style.render x).toList := by
  have hlayOut (s : Scaled) : Visible (style.layOut s) := by
    simp only [layOut]
    split
    · exact style.visible_place hend (.digits _) _
    · exact visible_scientific (.digits _) _
  unfold render
  split
  · repeat' split
    all_goals decide
  · next b _ =>
    have hmagnitude : Visible (if b.mantissa = 0 then '0' :: style.wholeEnd.toList
        else style.layOut (shortest style.tie b)) := by
      split
      · exact .cons (by decide) hend
      · exact hlayOut _
    simp only [String.toList_ofList]
    split
    · exact .cons (by decide) hmagnitude
    · exact hmagnitude

end Decimal.Layout

/-! ## Compact text -/

namespace Json

theorem visible_numberChars (n : Number) : Visible (numberChars n) := by
  cases n with
  | integer i => exact .integer i
  | float x =>
    rw [numberChars]
    split
    · exact Decimal.jsonText.visible_render (by decide) x
    · exact (by decide : Visible "null".toList)

theorem visible_hexChar : ∀ n < 16, 0x20 ≤ (hexChar n).toNat := by decide

theorem visible_charChars (c : Char) : Visible (charChars c) := by
  unfold charChars
  split
  case h_8 =>
    split
    · next hlow =>
      have hhigh := visible_hexChar (c.toNat / 16) (by omega)
      have hdigit := visible_hexChar (c.toNat % 16) (by omega)
      exact .append (by decide : Visible ['\\', 'u', '0', '0']) (.cons hhigh (.cons hdigit .nil))
    · next hlow => exact .cons (Nat.le_of_not_lt hlow) .nil
  all_goals decide

theorem visible_stringChars (s : String) : Visible (stringChars s) := by
  refine .cons (by decide) (.append (fun c hc => ?_) (by decide))
  obtain ⟨d, -, hc⟩ := List.mem_flatMap.mp hc
  exact visible_charChars d c hc

theorem visible_itemChars {items : List Json} (h : ∀ x ∈ items, Visible x.chars) : Visible (itemChars items) := by
  induction items with
  | nil => exact .nil
  | cons item items ih =>
    have hitem := h item (by simp)
    cases items with
    | nil => exact hitem
    | cons next items => exact .append hitem (.cons (by decide) (ih fun x hx => h x (by simp [hx])))

theorem visible_memberChars {members : Members} (h : ∀ e ∈ members, Visible e.2.chars) :
    Visible (memberChars members) := by
  induction members with
  | nil => exact .nil
  | cons e members ih =>
    have hvalue := h e (by simp)
    cases members with
    | nil => exact .append (visible_stringChars e.1) (.cons (by decide) hvalue)
    | cons next members =>
      refine .append (visible_stringChars e.1) (.cons (by decide) (.append hvalue (.cons (by decide) ?_)))
      exact ih fun x hx => h x (by simp [hx])

/-- The compact text of a value has no control character, and so no line end. -/
theorem visible_chars (json : Json) : Visible json.chars := by
  induction json using partsInduction with
  | null => decide
  | bool b => cases b <;> decide
  | num n => exact visible_numberChars n
  | str s => exact visible_stringChars s
  | arr items ih => exact .cons (by decide) (.append (visible_itemChars ih) (by decide))
  | obj members ih => exact .cons (by decide) (.append (visible_memberChars ih) (by decide))

end Json
end Blueprint
