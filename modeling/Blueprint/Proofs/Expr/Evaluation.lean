import Blueprint.Proofs.Expr.Climbing

/-!
# What texts evaluate to

Every text of an expression evaluates to the value of the expression, and a text that is no sentence of the grammar is
refused as a whole. Between the two nothing else happens: climbing never meets an operator or an operand out of place.
-/

namespace Blueprint.Expr

/-! ## Texts of expressions -/

/-- The texts of an expression on a level. Parentheses stand at least where a looser expression has the place of a
tighter one, and may stand around any other. -/
inductive Renders : Level → Expr → List Char → Prop
  | number {l : Literal} : l.Valid → Renders .primary (.number l) l.chars
  | constant {name : List Char} : IsName name → Renders .primary (.constant name) name
  | call {name u v w s : List Char} {argument : Expr} : IsName name → Blanks u → Blanks v → Blanks w →
      Renders .sum argument s →
      Renders .primary (.call name argument) (name ++ (u ++ '(' :: (v ++ (s ++ (w ++ [')'])))))
  | parentheses {v w s : List Char} {t : Expr} : Blanks v → Blanks w → Renders .sum t s →
      Renders .primary t ('(' :: (v ++ (s ++ (w ++ [')']))))
  | neg {u s : List Char} {t : Expr} : Blanks u → Renders .negation t s → Renders .negation (.neg t) ('-' :: (u ++ s))
  | binary {u v s s' text : List Char} {t t' : Expr} (op : Operator) : Blanks u → Blanks v → Spelling op.kind text →
      Renders op.leftLevel t s → Renders op.rightLevel t' s' →
      Renders op.level (.binary op t t') (s ++ (u ++ (text ++ (v ++ s'))))
  | wider {a b : Level} {t : Expr} {s : List Char} : a.rank ≤ b.rank → Renders a t s → Renders b t s

theorem Spells.links_append {links links' : List Node} {s s' : List Char} (h : Spells .links links s)
    (h' : Spells .links links' s') : Spells .links (links ++ links') (s ++ s') := by
  generalize hlinks : Symbol.links = a at h
  induction h with
  | done => exact h'
  | link hu hv hop hs _ _ ih =>
    simpa using Spells.link hu hv hop hs (ih hlinks)
  | _ => cases hlinks

/-- Two rows with an operator between them are a row. -/
theorem Spells.binary {nodes nodes' : List Node} {u v s s' text : List Char} {operator : Kind}
    (h : Spells .row nodes s) (hu : Blanks u) (hop : Spelling operator text) (hv : Blanks v)
    (h' : Spells .row nodes' s') :
    Spells .row (nodes ++ .token operator text :: nodes') (s ++ (u ++ (text ++ (v ++ s')))) := by
  cases h with
  | row hs ht =>
    cases h' with
    | row hs' ht' => simpa using Spells.row hs (ht.links_append (.link hu hv hop hs' ht'))

/-- A sign in front of a row is a sign of its first operand. -/
theorem Spells.neg {nodes : List Node} {u s : List Char} (h : Spells .row nodes s) (hu : Blanks u) :
    Spells .row (.token .neg ['-'] :: nodes) ('-' :: (u ++ s)) := by
  cases h with
  | row hs ht => simpa using Spells.row (.sign hu hs) ht

theorem Spells.row_of_primary {nodes : List Node} {s : List Char} (h : Spells .primary nodes s) :
    Spells .row nodes s := by
  simpa using Spells.row (.unsigned h) .done

/-- A text of an expression is a row that stands for it. -/
theorem Renders.spells {level : Level} {t : Expr} {s : List Char} (h : Renders level t s) :
    ∃ nodes, Spells .row nodes s ∧ Groups level nodes t := by
  induction h with
  | number hl => exact ⟨_, .row_of_primary (.number hl), .number hl⟩
  | constant hname => exact ⟨_, .row_of_primary (.constant hname), .constant _⟩
  | call hname hu hv hw _ ih =>
    obtain ⟨nodes, hs, ht⟩ := ih
    exact ⟨_, .row_of_primary (.call hname hu hv hw hs), .call _ ht⟩
  | parentheses hv hw _ ih =>
    obtain ⟨nodes, hs, ht⟩ := ih
    exact ⟨_, .row_of_primary (.group hv hw hs), .group ht⟩
  | neg hu _ ih =>
    obtain ⟨nodes, hs, ht⟩ := ih
    exact ⟨_, hs.neg hu, .neg _ ht⟩
  | binary op hu hv hop _ _ ih ih' =>
    obtain ⟨nodes, hs, ht⟩ := ih
    obtain ⟨nodes', hs', ht'⟩ := ih'
    exact ⟨_, hs.binary hu hop hv hs', .binary op _ ht ht'⟩
  | wider hab _ ih =>
    obtain ⟨nodes, hs, ht⟩ := ih
    exact ⟨nodes, hs, .wider hab ht⟩

/-! ## Evaluation -/

theorem evaluate?_of_groups {text : String} {nodes : List Node} {t : Expr}
    (h : parse? text.toList = some (wholeOf nodes)) (ht : Groups .sum nodes t) :
    evaluate? text = some (do checkFinite text (← t.eval)) := by
  simp [evaluate?, h, wholeOf, ht.climbs.climbRow?]

theorem evaluate_eq {text : String} {outcome : Outcome} (h : evaluate? text = some outcome) :
    evaluate text = outcome := by
  rw [evaluate, h, Option.getD_some]

/-- Every text of an expression evaluates to the value of the expression if that is a finite number. -/
theorem evaluate_of_renders {t : Expr} {u s v : List Char} (h : Renders .sum t s) (hu : Blanks u) (hv : Blanks v) :
    let text := String.ofList (u ++ (s ++ v))
    evaluate? text = some (evaluate text) ∧
    evaluate text = (do
      let x ← t.eval
      if x.isFinite then .ok x else .error (.invalid s!"'{text}' does not evaluate to a finite number")) := by
  intro text
  obtain ⟨nodes, hs, ht⟩ := h.spells
  have hparse : parse? text.toList = some (wholeOf nodes) := by
    rw [String.toList_ofList]
    exact hs.parse? hu hv
  have houtcome := evaluate?_of_groups hparse ht
  have heq := evaluate_eq houtcome
  exact ⟨by rw [houtcome, heq], heq⟩

/-- The exponent of `2 ** -x ^ 2 * y` is the negated square, the power is a factor, and what is evaluated first is `x`. -/
theorem evaluate_negated_power_in_exponent :
    Renders .sum (.binary .mul (.binary .pow (.number ⟨['2'], none, none⟩)
      (.neg (.binary .pow (.constant ['x']) (.number ⟨['2'], none, none⟩)))) (.constant ['y']))
      "2 ** -x ^ 2 * y".toList ∧
    Blanks [] ∧ evaluate "2 ** -x ^ 2 * y" = .error (.invalid "unknown constant 'x'") := by
  have hblank : Blanks [' '] := by simp [Blanks, isSpace]
  have hnil : Blanks [] := by simp [Blanks]
  have htwo : Renders .primary (.number ⟨['2'], none, none⟩) ['2'] :=
    .number (l := ⟨['2'], none, none⟩) ⟨by simp [Text.Digits], by simp, .inl (by simp), by simp⟩
  have hname (c : Char) (hc : isLetter c = true) : Renders .primary (.constant [c]) [c] :=
    .constant ⟨c, [], rfl, hc, by simp⟩
  have hsquare : Renders .power (.binary .pow (.constant ['x']) (.number ⟨['2'], none, none⟩)) "x ^ 2".toList :=
    .binary .pow hblank hblank .caret (hname 'x' rfl) (.wider (by decide) htwo)
  have hpower : Renders .power _ "2 ** -x ^ 2".toList :=
    .binary .pow hblank hblank .stars htwo (.neg hnil (.wider (by decide) hsquare))
  have hproduct : Renders .product _ "2 ** -x ^ 2 * y".toList :=
    .binary .mul hblank hblank .mul (.wider (by decide) hpower) (.wider (by decide) (hname 'y' rfl))
  have hsum := Renders.wider (show Level.product.rank ≤ Level.sum.rank by decide) hproduct
  exact ⟨hsum, hnil, (evaluate_of_renders hsum hnil hnil).2⟩

/-! ## Operands -/

/-- The operands of a row and of all rows in it. -/
inductive Node.IsOperandOf (node : Node) : List Node → Prop
  | here {row : List Node} : node ∈ row → node.fixity? = none → IsOperandOf node row
  | group {inner row : List Node} : .row inner ∈ row → IsOperandOf node inner → IsOperandOf node row
  | argument {function : Node} {inner rest row : List Node} : .call (function :: .row inner :: rest) ∈ row →
      IsOperandOf node inner → IsOperandOf node row

theorem Node.isOperandOf_append {node : Node} {nodes nodes' : List Node}
    (h : node.IsOperandOf (nodes ++ nodes')) : node.IsOperandOf nodes ∨ node.IsOperandOf nodes' := by
  cases h with
  | here hmem hfixity => exact (List.mem_append.1 hmem).imp (.here · hfixity) (.here · hfixity)
  | group hmem hinner => exact (List.mem_append.1 hmem).imp (.group · hinner) (.group · hinner)
  | argument hmem hinner => exact (List.mem_append.1 hmem).imp (.argument · hinner) (.argument · hinner)

/-- A token is the only operand that there can be in it. -/
theorem Node.isOperandOf_token {node : Node} {kind : Kind} {text : List Char}
    (h : node.IsOperandOf [.token kind text]) : node = .token kind text ∧ node.fixity? = none := by
  cases h with
  | here hmem hfixity => exact ⟨List.mem_singleton.1 hmem, hfixity⟩
  | group hmem _ => cases List.mem_singleton.1 hmem
  | argument hmem _ => cases List.mem_singleton.1 hmem

/-- An operator is no operand. -/
theorem Node.isOperandOf_operator {node : Node} {kind : Kind} {text : List Char} {fixity : Fixity} {nodes : List Node}
    (hfixity : (Node.token kind text).fixity? = some fixity) (h : node.IsOperandOf (.token kind text :: nodes)) :
    node.IsOperandOf nodes := by
  rw [← List.singleton_append] at h
  obtain htoken | h := isOperandOf_append h
  · obtain ⟨rfl, hnone⟩ := isOperandOf_token htoken
    rw [hfixity] at hnone
    cases hnone
  · exact h

/-- Every operand of a row that stands for an expression has an outcome, and if that is a failure it says what is not
defined. -/
theorem Groups.isDefined_operand {level : Level} {nodes : List Node} {t : Expr} (h : Groups level nodes t) {node : Node}
    (hnode : node.IsOperandOf nodes) : ∃ outcome, node.outcome? = some outcome ∧ IsDefined outcome := by
  induction h with
  | number hl =>
    obtain ⟨rfl, -⟩ := Node.isOperandOf_token hnode
    exact ⟨_, outcome?_number hl, .ok _⟩
  | constant name =>
    obtain ⟨rfl, -⟩ := Node.isOperandOf_token hnode
    exact ⟨_, rfl, isDefined_constantValue name⟩
  | call function hs ih =>
    cases hnode with
    | here hmem =>
      cases List.mem_singleton.1 hmem
      exact ⟨_, hs.climbs.outcome?_call function, (isDefined_eval _).bind fun x => isDefined_apply function x⟩
    | group hmem _ => cases List.mem_singleton.1 hmem
    | argument hmem hinner =>
      cases List.mem_singleton.1 hmem
      exact ih hinner
  | group hs ih =>
    cases hnode with
    | here hmem =>
      cases List.mem_singleton.1 hmem
      exact ⟨_, hs.climbs.outcome?_group, isDefined_eval _⟩
    | group hmem hinner =>
      cases List.mem_singleton.1 hmem
      exact ih hinner
    | argument hmem _ => cases List.mem_singleton.1 hmem
  | neg text _ ih => exact ih (Node.isOperandOf_operator rfl hnode)
  | binary op text _ _ ih ih' =>
    obtain hnode | hnode := Node.isOperandOf_append hnode
    · exact ih hnode
    · exact ih' (Node.isOperandOf_operator (fixity?_operator op text) hnode)
  | wider _ _ ih => exact ih hnode

/-- A text is refused as a whole exactly if it is no sentence of the grammar. Everything else is a number or says what
is not defined: climbing comes to an end for every text, and every operand of a text that is read has an outcome which
is no refusal. -/
theorem evaluate_eq_expression_iff (text : String) :
    (evaluate text = .error (.expression text) ↔ ¬ Sentence text.toList) ∧
    (Sentence text.toList → (∃ x, evaluate text = .ok x) ∨ ∃ m, evaluate text = .error (.invalid m)) ∧
    evaluate? text = some (evaluate text) ∧
    ∀ (nodes rest : List Node) (node : Node), parse? text.toList = some (.row nodes :: rest) →
      node.IsOperandOf nodes → ∃ outcome, node.outcome? = some outcome ∧ ∀ m, outcome ≠ .error (.expression m) := by
  by_cases hsentence : Sentence text.toList
  · obtain ⟨whole, hparse⟩ := Option.isSome_iff_exists.1 ((isSome_parse?_iff _).2 hsentence)
    obtain ⟨u, nodes, s, v, -, -, hs, -, rfl⟩ := parse?_sound hparse
    obtain ⟨t, ht⟩ := hs.isGrouped
    have houtcome := evaluate?_of_groups hparse ht
    have heq := evaluate_eq houtcome
    have hdefined : IsDefined (evaluate text) := by
      rw [heq]
      exact (isDefined_eval t).bind fun x => isDefined_checkFinite text x
    refine ⟨?_, fun _ => hdefined, by rw [houtcome, heq], ?_⟩
    · exact iff_of_false (hdefined.ne_expression text) (not_not_intro hsentence)
    · intro row rest node hrow hnode
      rw [hparse] at hrow
      cases hrow
      obtain ⟨outcome, houtcome, hdefined⟩ := ht.isDefined_operand hnode
      exact ⟨outcome, houtcome, hdefined.ne_expression⟩
  · have hparse : parse? text.toList = none := by
      rw [← Option.not_isSome_iff_eq_none, isSome_parse?_iff]
      exact hsentence
    have houtcome : evaluate? text = some (.error (.expression text)) := by simp [evaluate?, hparse]
    have heq := evaluate_eq houtcome
    refine ⟨iff_of_true heq hsentence, fun h => absurd h hsentence, by rw [houtcome, heq], ?_⟩
    intro row rest node hrow
    rw [hparse] at hrow
    cases hrow

end Blueprint.Expr
