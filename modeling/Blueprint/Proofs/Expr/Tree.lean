import Blueprint.Expr.Evaluation
import Blueprint.Proofs.Expr.Grammar

/-!
# Expression trees and the rows they are grouped from

`Expr.eval` is what an expression means. `Groups` says which rows of operands and operators stand for a tree, by the
levels of precedence; every row that the grammar makes stands for one.
-/

namespace Blueprint

inductive Expr where
  | number (l : Expr.Literal)
  | constant (name : List Char)
  | call (function : List Char) (argument : Expr)
  | neg (operand : Expr)
  | binary (op : Operator) (left right : Expr)
deriving DecidableEq, Repr

namespace Expr

/-- The value of an expression, which may be infinite or no number. Operands come from left to right and before their
operator or function, and the first failure is the result. -/
def eval : Expr → Outcome
  | .number l => .ok l.value
  | .constant name => constantValue name
  | .call function argument => do apply function (← argument.eval)
  | .neg operand => do return -(← operand.eval)
  | .binary op left right => do
    let x ← left.eval
    let y ← right.eval
    operate op x y

/-! ## Evaluation fails for a stated reason -/

/-- A value, or a failure that says what is not defined. -/
def IsDefined (outcome : Outcome) : Prop := (∃ x, outcome = .ok x) ∨ ∃ m, outcome = .error (.invalid m)

theorem IsDefined.ok (x : Float) : IsDefined (.ok x) := .inl ⟨x, rfl⟩

theorem IsDefined.invalid (m : String) : IsDefined (.error (.invalid m)) := .inr ⟨m, rfl⟩

theorem IsDefined.bind {outcome : Outcome} {f : Float → Outcome} (h : IsDefined outcome) (hf : ∀ x, IsDefined (f x)) :
    IsDefined (do f (← outcome)) := by
  obtain ⟨x, rfl⟩ | ⟨m, rfl⟩ := h
  · exact hf x
  · exact .invalid m

theorem IsDefined.ne_expression {outcome : Outcome} (h : IsDefined outcome) (text : String) :
    outcome ≠ .error (.expression text) := by
  obtain ⟨x, rfl⟩ | ⟨m, rfl⟩ := h <;> simp

theorem isDefined_constantValue (name : List Char) : IsDefined (constantValue name) := by
  unfold constantValue
  split
  · exact .ok _
  · exact .ok _
  · exact .ok _
  · exact .invalid _

theorem isDefined_apply (function : List Char) (x : Float) : IsDefined (apply function x) := by
  have hlogarithm (log : Float → Float) : IsDefined (logarithm log x) := by
    unfold logarithm
    split
    · exact .invalid _
    · exact .ok _
  unfold apply
  split
  · simp only
    split
    · exact .invalid _
    · exact .ok _
  · exact .ok _
  · exact hlogarithm _
  · exact hlogarithm _
  · exact hlogarithm _
  · exact .ok _
  · exact .ok _
  · exact .ok _
  · exact .ok _
  · exact .invalid _

theorem isDefined_operate (op : Operator) (x y : Float) : IsDefined (operate op x y) := by
  cases op with
  | div =>
    simp only [operate]
    split
    · exact .invalid _
    · exact .ok _
  | _ => exact .ok _

theorem isDefined_checkFinite (text : String) (x : Float) : IsDefined (checkFinite text x) := by
  unfold checkFinite
  split
  · exact .ok x
  · exact .invalid _

theorem isDefined_eval (t : Expr) : IsDefined t.eval := by
  induction t with
  | number l => exact .ok _
  | constant name => exact isDefined_constantValue name
  | call function argument ih => exact ih.bind fun x => isDefined_apply function x
  | neg operand ih => exact ih.bind fun x => .ok (-x)
  | binary op left right ihl ihr => exact ihl.bind fun x => ihr.bind fun y => isDefined_operate op x y

/-! ## Levels -/

inductive Level where
  | primary
  | power
  | negation
  | product
  | sum
deriving DecidableEq

def Level.rank : Level → Nat
  | .primary => 0
  | .power => 1
  | .negation => 2
  | .product => 3
  | .sum => 4

end Expr

namespace Operator

def level : Operator → Expr.Level
  | .add => .sum
  | .sub => .sum
  | .mul => .product
  | .div => .product
  | .pow => .power

/-- The level of the left operand: sums and products associate to the left, and a base is no power. -/
def leftLevel : Operator → Expr.Level
  | .add => .sum
  | .sub => .sum
  | .mul => .product
  | .div => .product
  | .pow => .primary

/-- The level of the right operand: an exponent may be negated and may be a power. -/
def rightLevel : Operator → Expr.Level
  | .add => .product
  | .sub => .product
  | .mul => .negation
  | .div => .negation
  | .pow => .negation

def kind : Operator → Expr.Kind
  | .add => .add
  | .sub => .sub
  | .mul => .mul
  | .div => .div
  | .pow => .pow

end Operator

namespace Expr

/-! ## Rows -/

/-- The rows that stand for an expression on a level. -/
inductive Groups : Level → List Node → Expr → Prop
  | number {l : Literal} : l.Valid → Groups .primary [.token .number l.chars] (.number l)
  | constant (name : List Char) : Groups .primary [.token .constant name] (.constant name)
  | call {nodes : List Node} {argument : Expr} (function : List Char) : Groups .sum nodes argument →
      Groups .primary [.call [.token .function function, .row nodes]] (.call function argument)
  | group {nodes : List Node} {t : Expr} : Groups .sum nodes t → Groups .primary [.row nodes] t
  | neg {nodes : List Node} {t : Expr} (text : List Char) : Groups .negation nodes t →
      Groups .negation (.token .neg text :: nodes) (.neg t)
  | binary {nodes nodes' : List Node} {t t' : Expr} (op : Operator) (text : List Char) :
      Groups op.leftLevel nodes t → Groups op.rightLevel nodes' t' →
      Groups op.level (nodes ++ .token op.kind text :: nodes') (.binary op t t')
  | wider {a b : Level} {nodes : List Node} {t : Expr} : a.rank ≤ b.rank → Groups a nodes t → Groups b nodes t

/-- A further operator and its right operand regroup a row: the operator takes as its left operand what binds tighter at
the row's end. -/
theorem Groups.append {level : Level} {nodes nodes' : List Node} {t t' : Expr} (h : Groups level nodes t)
    (op : Operator) (text : List Char) (hright : Groups op.rightLevel nodes' t') {whole : Level}
    (hlevel : level.rank ≤ whole.rank) (hop : op.level.rank ≤ whole.rank) :
    ∃ u, Groups whole (nodes ++ .token op.kind text :: nodes') u := by
  -- a row that is tight enough is the left operand as it stands
  have hdirect {a : Level} {ns : List Node} {s : Expr} {b : Level} (hs : Groups a ns s)
      (ha : a.rank ≤ op.leftLevel.rank) (hb : op.level.rank ≤ b.rank) :
      ∃ u, Groups b (ns ++ .token op.kind text :: nodes') u :=
    ⟨_, .wider hb (.binary op text (.wider ha hs) hright)⟩
  induction h generalizing whole with
  | number hl => exact hdirect (.number hl) (Nat.zero_le _) hop
  | constant name => exact hdirect (.constant name) (Nat.zero_le _) hop
  | call function harg => exact hdirect (.call function harg) (Nat.zero_le _) hop
  | group hs => exact hdirect (.group hs) (Nat.zero_le _) hop
  | neg sign hs ih =>
    by_cases htight : Level.negation.rank ≤ op.leftLevel.rank
    · exact hdirect (.neg sign hs) htight hop
    · obtain ⟨u, hu⟩ := ih (Nat.le_refl _) (by revert htight; cases op <;> decide)
      exact ⟨_, .wider hlevel (.neg sign hu)⟩
  | @binary nodes₁ nodes₂ t₁ t₂ op' text' hs hs' _ ih =>
    by_cases htight : op'.level.rank ≤ op.leftLevel.rank
    · exact hdirect (.binary op' text' hs hs') htight hop
    · obtain ⟨u, hu⟩ := ih (Nat.le_refl _) (by revert htight; cases op <;> cases op' <;> decide)
      refine ⟨.binary op' t₁ u, .wider hlevel ?_⟩
      simpa using Groups.binary op' text' hs hu
  | wider hab _ ih => exact ih (Nat.le_trans hab hlevel) hop

theorem Spelling.exists_operator {kind : Kind} {text : List Char} (h : Spelling kind text) :
    ∃ op : Operator, kind = op.kind := by
  cases h with
  | add => exact ⟨.add, rfl⟩
  | sub => exact ⟨.sub, rfl⟩
  | mul => exact ⟨.mul, rfl⟩
  | div => exact ⟨.div, rfl⟩
  | stars => exact ⟨.pow, rfl⟩
  | caret => exact ⟨.pow, rfl⟩

/-- What each part of a sentence stands for. -/
def IsGrouped : Symbol → List Node → Prop
  | .primary, nodes => ∃ t, Groups .primary nodes t
  | .operand, nodes => ∃ t, Groups .negation nodes t
  | .links, links => ∀ nodes t, Groups .sum nodes t → ∃ u, Groups .sum (nodes ++ links) u
  | .row, nodes => ∃ t, Groups .sum nodes t

/-- Every row of the grammar stands for an expression. -/
theorem Spells.isGrouped {a : Symbol} {nodes : List Node} {s : List Char} (h : Spells a nodes s) : IsGrouped a nodes := by
  induction h with
  | number hl => exact ⟨_, .number hl⟩
  | constant => exact ⟨_, .constant _⟩
  | call _ _ _ _ _ ih =>
    obtain ⟨t, ht⟩ := ih
    exact ⟨_, .call _ ht⟩
  | group _ _ _ ih =>
    obtain ⟨t, ht⟩ := ih
    exact ⟨t, .group ht⟩
  | unsigned _ ih =>
    obtain ⟨t, ht⟩ := ih
    exact ⟨t, .wider (by decide) ht⟩
  | sign _ _ ih =>
    obtain ⟨t, ht⟩ := ih
    exact ⟨_, .neg _ ht⟩
  | done =>
    intro nodes t ht
    exact ⟨t, by simpa using ht⟩
  | link _ _ hop _ _ ihs iht =>
    intro row t ht
    obtain ⟨op, rfl⟩ := hop.exists_operator
    obtain ⟨right, hright⟩ := ihs
    have hlevel : Level.negation.rank ≤ op.rightLevel.rank := by cases op <;> decide
    obtain ⟨u, hu⟩ := ht.append op _ (.wider hlevel hright) (Nat.le_refl _) (by cases op <;> decide)
    simpa using iht _ u hu
  | row _ _ ihs iht =>
    obtain ⟨t, ht⟩ := ihs
    exact iht _ t (.wider (by decide) ht)

end Expr
end Blueprint
