import Blueprint.Proofs.Decimal.Exact
import Blueprint.Proofs.Expr.Evaluation

/-!
# Integers as expressions

The decimal digits of an integer are an expression: a number, with a sign in front of it if the integer is negative. It
evaluates to the float that the integer is rounded to.
-/

namespace Blueprint

theorem Text.digitsValue_eq (ds : List Char) : digitsValue ds = Nat.ofDigitChars 10 ds 0 := by
  simp only [digitsValue, Nat.ofDigitChars, Nat.mul_comm 10]
  rfl

namespace Expr

def Literal.ofNat (n : Nat) : Literal := ⟨Nat.toDigits 10 n, none, none⟩

theorem Literal.valid_ofNat (n : Nat) : (Literal.ofNat n).Valid where
  whole _ hd := Nat.isDigit_of_mem_toDigits (by decide) (by decide) hd
  fraction := nofun
  nonempty := .inl Nat.toDigits_ne_nil
  power := nofun

theorem Literal.chars_ofNat (n : Nat) : (Literal.ofNat n).chars = n.repr.toList := by
  simp [Literal.ofNat, Literal.chars, Nat.toList_repr]

theorem Literal.value_ofNat (n : Nat) : (Literal.ofNat n).value = Float.ofNat n := by
  have hdigits : Text.digitsValue (Nat.toDigits 10 n ++ []) = n := by
    rw [List.append_nil, Text.digitsValue_eq, Nat.ofDigitChars_ten_toDigits]
  simp only [Literal.ofNat, Literal.value, Option.getD_none, Option.map_none, hdigits]
  rfl

/-- The expression that the digits of an integer are. -/
def ofInt : Int → Expr
  | .ofNat n => .number (.ofNat n)
  | .negSucc n => .neg (.number (.ofNat (n + 1)))

theorem renders_ofInt (n : Int) : Renders .sum (ofInt n) (toString n).toList := by
  have hnumber (k : Nat) : Renders .primary (.number (.ofNat k)) k.repr.toList := by
    rw [← Literal.chars_ofNat]
    exact .number (Literal.valid_ofNat k)
  cases n with
  | ofNat k => exact .wider (by decide) (hnumber k)
  | negSucc k =>
    have hnil : Blanks [] := by simp [Blanks]
    have hchars : (toString (Int.negSucc k)).toList = '-' :: ([] ++ (k + 1).repr.toList) := String.toList_append
    rw [hchars]
    exact .wider (by decide) (.neg hnil (.wider (by decide) (hnumber (k + 1))))

theorem eval_ofInt (n : Int) : (ofInt n).eval = .ok (Float.ofInt n) := by
  cases n with
  | ofNat k => exact congrArg Except.ok (Literal.value_ofNat k)
  | negSucc k => exact congrArg (fun x => Except.ok (-x)) (Literal.value_ofNat (k + 1))

theorem evaluate_toString {n : Int} (hn : Number.isAnyWord n = true) :
    evaluate (toString n) = .ok (Float.ofInt n) := by
  obtain ⟨nodes, hs, ht⟩ := (renders_ofInt n).spells
  have hnil : Blanks [] := by simp [Blanks]
  have hparse : parse? (toString n).toList = some (wholeOf nodes) := by
    simpa using hs.parse? hnil hnil
  rw [evaluate_eq (evaluate?_of_groups hparse ht), eval_ofInt]
  change checkFinite (toString n) (Float.ofInt n) = _
  rw [checkFinite, if_pos (Decimal.isFinite_ofInt hn)]

end Expr
end Blueprint
