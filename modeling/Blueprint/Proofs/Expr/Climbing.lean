import Blueprint.Proofs.Expr.Tree

/-!
# Climbing a row that stands for an expression

A row that stands for an expression on a level is read to its end, and to the value of the expression, when climbing
begins below the operators of the level and nothing behind the row binds as tightly as they do. `Climbs` says this with
the steps that it takes, and each way to make a row has a lemma.
-/

namespace Blueprint.Expr

/-- The tightest floor above which a row of a level may be climbed is below this. -/
def Level.reach : Level → Nat
  | .sum => 10
  | .product => 20
  | _ => 40

/-- How tightly an operator behind a row of a level may bind. -/
def Level.barrier : Level → Nat
  | .sum => 10
  | .product => 20
  | .negation => 29
  | .power => 29
  | .primary => 40

/-- Nothing, or an operator that binds no tighter than the floor. -/
def Halts (floor : Nat) (items : List Item) : Prop :=
  ∀ item ∈ items.head?, ∃ fixity, item.node.fixity? = some fixity ∧ fixity.strength ≤ floor

theorem Halts.mono {floor floor' : Nat} {items : List Item} (h : Halts floor items) (hle : floor ≤ floor') :
    Halts floor' items := by
  intro item hitem
  obtain ⟨fixity, hfixity, hstrength⟩ := h item hitem
  exact ⟨fixity, hfixity, Nat.le_trans hstrength hle⟩

/-- Where climbing halts, what has been read is the outcome. -/
theorem extend?_of_halts {floor n : Nat} {items : List Item} (h : Halts floor items) (hn : 0 < n) (left : Outcome) :
    extend? n floor left items = some (left, items) := by
  cases n with
  | zero => omega
  | succ n =>
    cases items with
    | nil => rfl
    | cons item items =>
      obtain ⟨fixity, hfixity, hstrength⟩ := h item rfl
      simp [extend?, hfixity, Nat.not_lt.2 hstrength]

/-- Climbing reads the row to its end and comes to the outcome, with two steps for each item. -/
def Climbs (level : Level) (nodes : List Node) (outcome : Outcome) : Prop :=
  ∀ n floor rest, floor < level.reach → Halts level.barrier rest → 2 * nodes.length < n →
    ∃ m, n ≤ m + 2 * nodes.length ∧ climb? n floor (itemsOf nodes ++ rest) = extend? m floor outcome rest

@[simp]
theorem length_itemsOf (nodes : List Node) : (itemsOf nodes).length = nodes.length := by
  induction nodes with
  | nil => rfl
  | cons node nodes ih => simp [itemsOf, ih]

@[simp]
theorem itemsOf_append (nodes nodes' : List Node) : itemsOf (nodes ++ nodes') = itemsOf nodes ++ itemsOf nodes' := by
  induction nodes with
  | nil => rfl
  | cons node nodes ih => simp [itemsOf, ih]

/-- A row that is climbed as a sum has the outcome. -/
theorem Climbs.climbRow? {nodes : List Node} {outcome : Outcome} (h : Climbs .sum nodes outcome) :
    climbRow? (itemsOf nodes) = some outcome := by
  obtain ⟨m, hm, hclimb⟩ := h (2 * nodes.length + 1) 0 [] (by decide) (by simp [Halts]) (by omega)
  rw [List.append_nil, extend?_of_halts (by simp [Halts]) (by omega)] at hclimb
  simp [Expr.climbRow?, hclimb]

theorem Climbs.wider {a b : Level} {nodes : List Node} {outcome : Outcome} (h : Climbs a nodes outcome)
    (hab : a.rank ≤ b.rank) : Climbs b nodes outcome := by
  intro n floor rest hfloor hrest hn
  have hreach : b.reach ≤ a.reach := by revert hab; cases a <;> cases b <;> decide
  have hbarrier : b.barrier ≤ a.barrier := by revert hab; cases a <;> cases b <;> decide
  exact h n floor rest (Nat.lt_of_lt_of_le hfloor hreach) (hrest.mono hbarrier) hn

theorem climbs_operand {node : Node} {outcome : Outcome} (hfixity : node.fixity? = none)
    (houtcome : node.outcome? = some outcome) : Climbs .primary [node] outcome := by
  intro n floor rest _ _ hn
  obtain ⟨n, rfl⟩ : ∃ k, n = k + 2 := ⟨n - 2, by simp at hn; omega⟩
  refine ⟨n + 1, by simp, ?_⟩
  simp [climb?, operand?, itemsOf, hfixity, houtcome]

/-- A sign reads what binds tighter than it, and then climbing goes on behind it. -/
theorem Climbs.neg {nodes : List Node} {outcome : Outcome} (h : Climbs .negation nodes outcome) (text : List Char) :
    Climbs .negation (.token .neg text :: nodes) (do return -(← outcome)) := by
  intro n floor rest hfloor hrest hn
  simp only [List.length_cons] at hn
  obtain ⟨n, rfl⟩ : ∃ k, n = k + 2 := ⟨n - 2, by omega⟩
  obtain ⟨m, hm, hclimb⟩ := h n (Fixity.before 30).floor rest (by decide) hrest (by omega)
  rw [extend?_of_halts (hrest.mono (by decide)) (by omega)] at hclimb
  refine ⟨n + 1, by simp; omega, ?_⟩
  simp [climb?, operand?, itemsOf, Node.fixity?, hclimb, negate]

/-- Where an operator stands. -/
def fixityOf (op : Operator) : Fixity :=
  match op with
  | .add => .leftward 10
  | .sub => .leftward 10
  | .mul => .leftward 20
  | .div => .leftward 20
  | .pow => .rightward 40

theorem fixity?_operator (op : Operator) (text : List Char) :
    (Node.token op.kind text).fixity? = some (fixityOf op) := by
  cases op <;> rfl

theorem combine_operator (op : Operator) (text : List Char) (left right : Outcome) :
    combine left (.token op.kind text) right = (do operate op (← left) (← right)) := by
  cases op <;> rfl

/-- An operator that binds tighter than the floor is read with the operand behind it. -/
theorem extend?_operator {n floor : Nat} {op : Operator} {text : List Char} {items rest : List Item} {o : Option Outcome}
    {left right : Outcome} (hfloor : floor < (fixityOf op).strength)
    (h : climb? n (fixityOf op).floor items = some (right, rest)) :
    extend? (n + 1) floor left (⟨.token op.kind text, o⟩ :: items) =
      extend? n floor (do operate op (← left) (← right)) rest := by
  have hnext : extend? (n + 1) floor left (⟨.token op.kind text, o⟩ :: items) =
      extend? n floor (combine left (.token op.kind text) right) rest := by
    simp only [extend?, fixity?_operator, Option.bind_eq_bind, Option.bind_some, if_pos hfloor]
    cases op <;> simp [fixityOf] at h ⊢ <;> simp [h]
  rw [hnext, combine_operator]

/-- The left operand is read up to the operator, which is tight enough to be read next, and the right operand ends
where the row does. -/
theorem Climbs.binary {nodes nodes' : List Node} {outcome outcome' : Outcome} (op : Operator) (text : List Char)
    (h : Climbs op.leftLevel nodes outcome) (h' : Climbs op.rightLevel nodes' outcome') :
    Climbs op.level (nodes ++ .token op.kind text :: nodes') (do operate op (← outcome) (← outcome')) := by
  intro n floor rest hfloor hrest hn
  simp only [List.length_append, List.length_cons] at hn ⊢
  have hstrength : floor < (fixityOf op).strength := by revert hfloor; cases op <;> exact id
  have hreach : floor < op.leftLevel.reach := by revert hfloor; cases op <;> exact id
  have hoperator : Halts op.leftLevel.barrier (itemsOf (.token op.kind text :: nodes') ++ rest) := by
    intro item hitem
    cases hitem
    exact ⟨_, fixity?_operator op text, by cases op <;> decide⟩
  obtain ⟨m, hm, hleft⟩ := h n floor _ hreach hoperator (by omega)
  obtain ⟨m, rfl⟩ : ∃ k, m = k + 1 := ⟨m - 1, by omega⟩
  have hright := h' m (fixityOf op).floor rest (by cases op <;> decide)
    (hrest.mono (by cases op <;> decide)) (by omega)
  obtain ⟨k, hk, hright⟩ := hright
  rw [extend?_of_halts (hrest.mono (by cases op <;> decide)) (by omega)] at hright
  refine ⟨m, by omega, ?_⟩
  rw [itemsOf_append, List.append_assoc, hleft]
  exact extend?_operator hstrength hright

/-! ## Nodes and rows of expressions -/

theorem outcome?_number {l : Literal} (hl : l.Valid) : (Node.token .number l.chars).outcome? = some (.ok l.value) := by
  have hread : readLiteral? l.chars = some (l, []) := by
    simpa using readLiteral?_chars hl (show Closed [] by simp [Closed, Stops])
  simp [Node.outcome?, numberValue, hread]

theorem Climbs.outcome?_group {nodes : List Node} {outcome : Outcome} (h : Climbs .sum nodes outcome) :
    (Node.row nodes).outcome? = some outcome := by
  rw [Node.outcome?, h.climbRow?]

theorem Climbs.outcome?_call {nodes : List Node} {outcome : Outcome} (h : Climbs .sum nodes outcome)
    (function : List Char) :
    (Node.call [.token .function function, .row nodes]).outcome? = some (do apply function (← outcome)) := by
  simp [Node.outcome?, h.climbRow?, Node.text]

/-- A row that stands for an expression comes to its value. -/
theorem Groups.climbs {level : Level} {nodes : List Node} {t : Expr} (h : Groups level nodes t) :
    Climbs level nodes t.eval := by
  induction h with
  | number hl => exact climbs_operand rfl (outcome?_number hl)
  | constant name => exact climbs_operand rfl rfl
  | call function _ ih => exact climbs_operand rfl (ih.outcome?_call function)
  | group _ ih => exact climbs_operand rfl ih.outcome?_group
  | neg text _ ih => exact ih.neg text
  | binary op text _ _ ih ih' => exact ih.binary op text ih'
  | wider hab _ ih => exact ih.wider hab

end Blueprint.Expr
