import Blueprint.Expr.Reading
import Blueprint.Proofs.Expr.Literal

/-!
# The grammar of arithmetic expressions, and that reading finds exactly its sentences

`Spells` is the grammar with its productions read as a context-free grammar's are: nothing in it orders alternatives,
and a repetition is any number of pieces. Reading tries alternatives in order, repeats while it can and never takes a
choice back, and still accepts the same texts and makes the nodes of their derivations.
-/

namespace Blueprint.Expr

/-- The operators between operands, as written. -/
inductive Spelling : Kind → List Char → Prop
  | add : Spelling .add ['+']
  | sub : Spelling .sub ['-']
  | mul : Spelling .mul ['*']
  | div : Spelling .div ['/']
  | stars : Spelling .pow ['*', '*']
  | caret : Spelling .pow ['^']

/-- The parts of a sentence: an operand without signs and with them, the operators and operands behind the first
operand, and the whole. -/
inductive Symbol where
  | primary
  | operand
  | links
  | row
deriving DecidableEq

/-- The texts of each part, with the nodes that they are read as. -/
inductive Spells : Symbol → List Node → List Char → Prop
  | number {l : Literal} : l.Valid → Spells .primary [.token .number l.chars] l.chars
  | constant {name : List Char} : IsName name → Spells .primary [.token .constant name] name
  | call {name u v w s : List Char} {nodes : List Node} : IsName name → Blanks u → Blanks v → Blanks w →
      Spells .row nodes s →
      Spells .primary [.call [.token .function name, .row nodes]] (name ++ (u ++ '(' :: (v ++ (s ++ (w ++ [')'])))))
  | group {v w s : List Char} {nodes : List Node} : Blanks v → Blanks w → Spells .row nodes s →
      Spells .primary [.row nodes] ('(' :: (v ++ (s ++ (w ++ [')']))))
  | unsigned {nodes : List Node} {s : List Char} : Spells .primary nodes s → Spells .operand nodes s
  | sign {u s : List Char} {nodes : List Node} : Blanks u → Spells .operand nodes s →
      Spells .operand (.token .neg ['-'] :: nodes) ('-' :: (u ++ s))
  | done : Spells .links [] []
  | link {u v s t text : List Char} {operator : Kind} {nodes links : List Node} : Blanks u → Blanks v →
      Spelling operator text → Spells .operand nodes s → Spells .links links t →
      Spells .links (.token operator text :: (nodes ++ links)) (u ++ (text ++ (v ++ (s ++ t))))
  | row {s t : List Char} {nodes links : List Node} : Spells .operand nodes s → Spells .links links t →
      Spells .row (nodes ++ links) (s ++ t)

/-- A row with blanks around it. -/
def Sentence (cs : List Char) : Prop :=
  ∃ u nodes s v, Blanks u ∧ Blanks v ∧ Spells .row nodes s ∧ cs = u ++ (s ++ v)

/-! ## Where parts begin and end -/

theorem isSpace_iff {c : Char} : isSpace c = true ↔ c = ' ' ∨ c = '\t' ∨ c = '\r' ∨ c = '\n' := by
  simp [isSpace, or_assoc]

/-- What may stand behind an operand: the end, a closing parenthesis or an operator. -/
def Follows (rest : List Char) : Prop := ∀ c ∈ (skipBlanks rest).head?, c ∈ [')', '+', '-', '*', '/', '^']

/-- What may stand behind a row: the end or a closing parenthesis. -/
def Ends (rest : List Char) : Prop := ∀ c ∈ (skipBlanks rest).head?, c = ')'

theorem Ends.follows {rest : List Char} (h : Ends rest) : Follows rest := by
  intro c hc
  rw [h c hc]
  decide

theorem ends_closing {w : List Char} (hw : Blanks w) (rest : List Char) : Ends (w ++ ')' :: rest) := by
  intro c hc
  rw [skipBlanks_append hw] at hc
  cases hc
  rfl

/-- A blank ends a number or name, so that only what stands behind the blanks can go on with it. -/
theorem closed_of_skipBlanks {rest : List Char}
    (h : ∀ c ∈ (skipBlanks rest).head?, isNamePart c = false ∧ c ≠ '.') : Closed rest := by
  have hhead : ∀ c ∈ rest.head?, isNamePart c = false ∧ c ≠ '.' := by
    cases rest with
    | nil => exact fun c hc => nomatch hc
    | cons c cs =>
      intro d hd
      cases hd
      cases hspace : isSpace c with
      | true => obtain rfl | rfl | rfl | rfl := isSpace_iff.1 hspace <;> decide
      | false => exact h c (by simp [skipBlanks, hspace])
  exact ⟨fun c hc => (hhead c hc).1, fun c hc => by simp [(hhead c hc).2]⟩

theorem Follows.closed {rest : List Char} (h : Follows rest) : Closed rest := by
  refine closed_of_skipBlanks fun c hc => ?_
  have hmem := h c hc
  simp only [List.mem_cons, List.not_mem_nil, or_false] at hmem
  obtain rfl | rfl | rfl | rfl | rfl | rfl := hmem <;> decide

/-- What an operand without signs begins with. -/
abbrev IsStart (c : Char) : Prop := isLetter c = true ∨ c.isDigit = true ∨ c = '.' ∨ c = '('

def Symbol.Starts : Symbol → List Char → Prop
  | .links, _ => True
  | _, [] => False
  | .primary, c :: _ => IsStart c
  | .operand, c :: _ => IsStart c ∨ c = '-'
  | .row, c :: _ => IsStart c ∨ c = '-'

theorem starts_of_isStart {a : Symbol} {c : Char} (h : IsStart c) (cs : List Char) : a.Starts (c :: cs) := by
  cases a with
  | links => trivial
  | primary => exact h
  | operand => exact .inl h
  | row => exact .inl h

theorem Spells.starts {a : Symbol} {nodes : List Node} {s : List Char} (h : Spells a nodes s) : a.Starts s := by
  induction h with
  | number hl =>
    obtain ⟨c, cs, heq, hc⟩ := hl.head
    rw [heq]
    exact starts_of_isStart (.inr (hc.imp_right .inl)) cs
  | constant hname =>
    obtain ⟨c, cs, rfl, hc, -⟩ := hname
    exact starts_of_isStart (.inl hc) cs
  | call hname _ _ _ _ _ =>
    obtain ⟨c, cs, rfl, hc, -⟩ := hname
    exact starts_of_isStart (.inl hc) _
  | group => exact starts_of_isStart (.inr (.inr (.inr rfl))) _
  | @unsigned _ s _ ih =>
    cases s with
    | nil => exact ih.elim
    | cons c cs => exact .inl ih
  | sign => exact .inr rfl
  | done => trivial
  | link => trivial
  | @row s t _ _ _ _ ih _ =>
    cases s with
    | nil => exact ih.elim
    | cons c cs => exact ih

/-- An operand begins neither with a blank nor with a star. -/
theorem Spells.head {a : Symbol} {nodes : List Node} {s : List Char} (h : Spells a nodes s) (ha : a ≠ .links) :
    ∃ c cs, s = c :: cs ∧ isSpace c = false ∧ c ≠ '*' := by
  have hstart : ∃ c cs, s = c :: cs ∧ (IsStart c ∨ c = '-') := by
    have hstarts := h.starts
    cases a with
    | links => exact absurd rfl ha
    | primary =>
      cases s with
      | nil => exact hstarts.elim
      | cons c cs => exact ⟨c, cs, rfl, .inl hstarts⟩
    | operand | row =>
      cases s with
      | nil => exact hstarts.elim
      | cons c cs => exact ⟨c, cs, rfl, hstarts⟩
  obtain ⟨c, cs, rfl, hc⟩ := hstart
  refine ⟨c, cs, rfl, Bool.eq_false_iff.2 ?_, ?_⟩
  · intro hspace
    obtain rfl | rfl | rfl | rfl := isSpace_iff.1 hspace <;> exact absurd hc (by decide)
  · rintro rfl
    exact absurd hc (by decide)

/-! ## Completeness -/

theorem skipBlanks_append_cons {u : List Char} (hu : Blanks u) {c : Char} (hc : isSpace c = false) (cs : List Char) :
    skipBlanks (u ++ c :: cs) = c :: cs := by
  rw [skipBlanks_append hu]
  simp [skipBlanks, hc]

/-- Blanks in front of an operand are skipped and nothing of it is. -/
theorem Spells.skipBlanks {a : Symbol} {u s : List Char} {nodes : List Node} (h : Spells a nodes s) (ha : a ≠ .links)
    (hu : Blanks u) (rest : List Char) : skipBlanks (u ++ (s ++ rest)) = s ++ rest := by
  obtain ⟨c, cs, rfl, hc, -⟩ := h.head ha
  exact skipBlanks_append_cons hu hc _

theorem readOperator?_append {operator : Kind} {text : List Char} (h : Spelling operator text) {rest : List Char}
    (hrest : ∀ c ∈ rest.head?, c ≠ '*') : readOperator? (text ++ rest) = some (.token operator text, rest) := by
  cases h with
  | mul =>
    -- one star and a second one would be two
    cases rest with
    | nil => rfl
    | cons c rest =>
      have hc : c ≠ '*' := hrest c rfl
      simp only [List.cons_append, List.nil_append, readOperator?]
      split <;> simp_all
  | _ => rfl

theorem Spelling.head {operator : Kind} {text : List Char} (h : Spelling operator text) :
    ∃ c cs, text = c :: cs ∧ isSpace c = false ∧ c ∈ [')', '+', '-', '*', '/', '^'] := by
  cases h <;> exact ⟨_, _, rfl, by decide, by decide⟩

theorem Spelling.skipBlanks {operator : Kind} {text u : List Char} (h : Spelling operator text) (hu : Blanks u)
    (rest : List Char) : skipBlanks (u ++ (text ++ rest)) = text ++ rest := by
  obtain ⟨c, cs, rfl, hc, -⟩ := h.head
  exact skipBlanks_append_cons hu hc _

theorem Spells.follows {links : List Node} {s : List Char} (h : Spells .links links s) {rest : List Char}
    (hrest : Ends rest) : Follows (s ++ rest) := by
  cases h with
  | done => exact hrest.follows
  | link hu _ hop _ _ =>
    intro d hd
    rw [List.append_assoc, List.append_assoc, hop.skipBlanks hu] at hd
    obtain ⟨c, cs, rfl, -, hc⟩ := hop.head
    cases hd
    exact hc

/-- Where no piece follows, a repetition ends and leaves the blanks. -/
theorem readMany_eq_nil {piece : Reader (List Node)} {cs : List Char} (h : piece (skipBlanks cs) = none) (n : Nat) :
    readMany piece n cs = ([], cs) := by
  cases n with
  | zero => rfl
  | succ n => simp [readMany, h]

theorem readSign?_eq_none {c : Char} (h : IsStart c) (cs : List Char) : readSign? (c :: cs) = none := by
  have hc : c ≠ '-' := by
    rintro rfl
    exact absurd h (by decide)
  simp [readSign?, hc]

theorem readOperator?_eq_none {rest : List Char} (h : Ends rest) : readOperator? (skipBlanks rest) = none := by
  unfold Ends at h
  cases hrest : skipBlanks rest with
  | nil => rfl
  | cons c cs =>
    rw [hrest] at h
    rw [h c rfl]
    rfl

section
variable {inner : Reader (List Node)}

theorem readGroup?_eq_none {cs : List Char} (h : ∀ c ∈ cs.head?, c ≠ '(') : readGroup? inner cs = none := by
  cases cs with
  | nil => rfl
  | cons c cs => simp [readGroup?, readChar?, h c rfl]

theorem readPrimary?_number {l : Literal} (hl : l.Valid) {rest : List Char} (h : Follows rest) :
    readPrimary? inner (l.chars ++ rest) = some (.token .number l.chars, rest) := by
  have hcall : readCall? inner (l.chars ++ rest) = none := by simp [readCall?, readName?_number hl]
  simp [readPrimary?, hcall, readNumber?, readLiteral?_chars hl h.closed]

theorem readPrimary?_constant {name : List Char} (hname : IsName name) {rest : List Char} (h : Follows rest) :
    readPrimary? inner (name ++ rest) = some (.token .constant name, rest) := by
  have hread : readName? (name ++ rest) = some (name, rest) := readName?_append hname h.closed
  have hgroup : readGroup? inner (skipBlanks rest) = none := by
    refine readGroup?_eq_none fun c hc => ?_
    rintro rfl
    exact absurd (h _ hc) (by decide)
  have hcall : readCall? inner (name ++ rest) = none := by simp [readCall?, hread, hgroup]
  simp [readPrimary?, hcall, readNumber?, readLiteral?_name hname, readConstant?, hread]

theorem readGroup?_append {nodes : List Node} {v w s rest : List Char} (hs : Spells .row nodes s) (hv : Blanks v)
    (hw : Blanks w) (hinner : inner (s ++ (w ++ ')' :: rest)) = some (nodes, w ++ ')' :: rest)) :
    readGroup? inner ('(' :: (v ++ (s ++ (w ++ ')' :: rest)))) = some (.row nodes, rest) := by
  have hblanks : skipBlanks (v ++ (s ++ (w ++ ')' :: rest))) = s ++ (w ++ ')' :: rest) :=
    hs.skipBlanks (by decide) hv _
  have hclosing : skipBlanks (w ++ ')' :: rest) = ')' :: rest := skipBlanks_append_cons hw (by decide) rest
  simp [readGroup?, readChar?, hblanks, hinner, hclosing]

theorem readPrimary?_group {cs rest : List Char} {node : Node}
    (h : readGroup? inner ('(' :: cs) = some (node, rest)) : readPrimary? inner ('(' :: cs) = some (node, rest) := by
  have hname : readName? ('(' :: cs) = none := readName?_eq_none (by decide) cs
  have hnumber : readLiteral? ('(' :: cs) = none := readLiteral?_eq_none (by decide) (by decide) cs
  simp [readPrimary?, readCall?, readNumber?, readConstant?, hname, hnumber, h]

theorem readPrimary?_call {name u cs rest : List Char} {argument : Node} (hname : IsName name) (hu : Blanks u)
    (h : readGroup? inner ('(' :: cs) = some (argument, rest)) :
    readPrimary? inner (name ++ (u ++ '(' :: cs)) = some (.call [.token .function name, argument], rest) := by
  have hblanks : skipBlanks (u ++ '(' :: cs) = '(' :: cs := skipBlanks_append_cons hu (by decide) cs
  have hclosed : Closed (u ++ '(' :: cs) := by
    refine closed_of_skipBlanks fun c hc => ?_
    rw [hblanks] at hc
    cases hc
    decide
  have hread : readName? (name ++ (u ++ '(' :: cs)) = some (name, u ++ '(' :: cs) := readName?_append hname hclosed
  simp [readPrimary?, readCall?, hread, hblanks, h]

theorem readLink?_append {text v s rest : List Char} {operator : Kind} {nodes : List Node}
    (hop : Spelling operator text) (hv : Blanks v) (hs : Spells .operand nodes s)
    (h : readOperand? inner (s ++ rest) = some (nodes, rest)) :
    readLink? inner (text ++ (v ++ (s ++ rest))) = some (.token operator text :: nodes, rest) := by
  obtain ⟨c, cs, rfl, -, hstar⟩ := hs.head (by decide)
  have hnext : ∀ d ∈ (v ++ (c :: cs ++ rest)).head?, d ≠ '*' := by
    cases v with
    | nil =>
      intro d hd
      cases hd
      exact hstar
    | cons b v =>
      intro d hd
      cases hd
      rintro rfl
      exact absurd (hv '*' List.mem_cons_self) (by decide)
  simp only [readLink?, readOperator?_append hop hnext, hs.skipBlanks (by decide) hv rest, h, Option.bind_eq_bind,
    Option.bind_some]

end

/-- What it means that a part is read whole, with the nodes of its derivation, in front of what may follow it. -/
def IsRead : Symbol → List Node → List Char → Prop
  | .primary, nodes, s => ∃ node, nodes = [node] ∧ ∀ depth rest, s.length ≤ depth → Follows rest →
      readPrimary? (readRow? depth) (s ++ rest) = some (node, rest)
  | .operand, nodes, s => ∀ depth n u rest, s.length ≤ depth → s.length ≤ n → Blanks u → Follows rest →
      ∃ signs node cs, nodes = signs ++ [node] ∧ readMany readSign? n (u ++ (s ++ rest)) = (signs, cs) ∧
        readPrimary? (readRow? depth) (skipBlanks cs) = some (node, rest)
  | .links, nodes, s => ∀ depth n rest, s.length ≤ depth → s.length ≤ n → Ends rest →
      readMany (readLink? (readRow? depth)) n (s ++ rest) = (nodes, rest)
  | .row, nodes, s => ∀ depth rest, s.length < depth → Ends rest → readRow? depth (s ++ rest) = some (nodes, rest)

theorem IsRead.readOperand? {nodes : List Node} {s : List Char} (h : IsRead .operand nodes s) {depth : Nat}
    {rest : List Char} (hdepth : s.length ≤ depth) (hrest : Follows rest) :
    readOperand? (readRow? depth) (s ++ rest) = some (nodes, rest) := by
  obtain ⟨signs, node, cs, rfl, hsigns, hprimary⟩ :=
    h depth (s ++ rest).length [] rest hdepth (by simp) (by simp [Blanks]) hrest
  rw [List.nil_append] at hsigns
  simp only [Expr.readOperand?, hsigns, hprimary, Option.bind_eq_bind, Option.bind_some]

theorem IsRead.readGroup? {nodes : List Node} {v w s : List Char} (hs : Spells .row nodes s) (h : IsRead .row nodes s)
    (hv : Blanks v) (hw : Blanks w) {depth : Nat} (hdepth : s.length < depth) (rest : List Char) :
    readGroup? (readRow? depth) ('(' :: (v ++ (s ++ (w ++ ')' :: rest)))) = some (.row nodes, rest) :=
  readGroup?_append hs hv hw (h depth _ hdepth (ends_closing hw rest))

/-- Every part of a sentence is read whole. -/
theorem Spells.isRead {a : Symbol} {nodes : List Node} {s : List Char} (h : Spells a nodes s) : IsRead a nodes s := by
  induction h with
  | number hl => exact ⟨_, rfl, fun _ _ _ hrest => readPrimary?_number hl hrest⟩
  | constant hname => exact ⟨_, rfl, fun _ _ _ hrest => readPrimary?_constant hname hrest⟩
  | call hname hu hv hw hs ih =>
    refine ⟨_, rfl, fun depth rest hdepth hrest => ?_⟩
    simp only [List.append_assoc, List.cons_append, List.nil_append, List.length_append, List.length_cons] at hdepth ⊢
    exact readPrimary?_call hname hu (ih.readGroup? hs hv hw (by omega) rest)
  | group hv hw hs ih =>
    refine ⟨_, rfl, fun depth rest hdepth hrest => ?_⟩
    simp only [List.append_assoc, List.cons_append, List.nil_append, List.length_append, List.length_cons] at hdepth ⊢
    exact readPrimary?_group (ih.readGroup? hs hv hw (by omega) rest)
  | @unsigned nodes s hs ih =>
    intro depth n u rest hdepth _ hu hrest
    obtain ⟨node, rfl, hread⟩ := ih
    have hblanks : Expr.skipBlanks (u ++ (s ++ rest)) = s ++ rest := hs.skipBlanks (by decide) hu rest
    have hsign : readSign? (s ++ rest) = none := by
      have hstarts := hs.starts
      cases s with
      | nil => exact hstarts.elim
      | cons c cs => exact readSign?_eq_none hstarts _
    refine ⟨[], node, u ++ (s ++ rest), rfl, readMany_eq_nil (by rw [hblanks, hsign]) n, ?_⟩
    rw [hblanks]
    exact hread depth rest hdepth hrest
  | @sign v s nodes hv hs ih =>
    intro depth n u rest hdepth hn hu hrest
    simp only [List.length_cons, List.length_append] at hdepth hn
    cases n with
    | zero => omega
    | succ n =>
      obtain ⟨signs, node, cs, rfl, hsigns, hread⟩ := ih depth n v rest (by omega) (by omega) hv hrest
      refine ⟨.token .neg ['-'] :: signs, node, cs, rfl, ?_, hread⟩
      have hblanks : Expr.skipBlanks (u ++ '-' :: (v ++ (s ++ rest))) = '-' :: (v ++ (s ++ rest)) :=
        skipBlanks_append_cons hu (by decide) _
      simp [readMany, hblanks, readSign?, hsigns]
  | done =>
    intro depth n rest _ _ hrest
    exact readMany_eq_nil (by simp [readLink?, readOperator?_eq_none hrest]) n
  | @link u v s t text operator nodes links hu hv hop hs ht ihs iht =>
    intro depth n rest hdepth hn hrest
    simp only [List.length_append] at hdepth hn
    have hpos : 0 < text.length := by cases hop <;> decide
    cases n with
    | zero => omega
    | succ n =>
      have hoperand : Expr.readOperand? (readRow? depth) (s ++ (t ++ rest)) = some (nodes, t ++ rest) :=
        ihs.readOperand? (by omega) (ht.follows hrest)
      have hmore : readMany (readLink? (readRow? depth)) n (t ++ rest) = (links, rest) :=
        iht depth n rest (by omega) (by omega) hrest
      have hlink := readLink?_append hop hv hs hoperand
      simp only [readMany, List.append_assoc, hop.skipBlanks hu, hlink, hmore, List.cons_append]
  | @row s t nodes links hs ht ihs iht =>
    intro depth rest hdepth hrest
    simp only [List.length_append] at hdepth
    cases depth with
    | zero => omega
    | succ depth =>
      have hfirst : Expr.readOperand? (readRow? depth) (s ++ (t ++ rest)) = some (nodes, t ++ rest) :=
        ihs.readOperand? (by omega) (ht.follows hrest)
      have hlinks : readMany (readLink? (readRow? depth)) (t ++ rest).length (t ++ rest) = (links, rest) :=
        iht depth _ rest (by omega) (by simp) hrest
      simp only [readRow?, readRowOver?, List.append_assoc, hfirst, hlinks, Option.bind_eq_bind, Option.bind_some]

/-! ## Soundness -/

/-- A text begins, behind blanks, with a part of a sentence. -/
def Begins (a : Symbol) (nodes : List Node) (cs rest : List Char) : Prop :=
  ∃ u s, Blanks u ∧ Spells a nodes s ∧ cs = u ++ (s ++ rest)

theorem Begins.blanks {a : Symbol} {nodes : List Node} {cs rest : List Char}
    (h : Begins a nodes (skipBlanks cs) rest) : Begins a nodes cs rest := by
  obtain ⟨u, s, hu, hs, heq⟩ := h
  obtain ⟨v, hv, hcs⟩ := skipBlanks_eq cs
  refine ⟨v ++ u, s, blanks_append hv hu, hs, ?_⟩
  rw [hcs, heq, List.append_assoc]

theorem readChar?_eq_some {c : Char} {cs rest : List Char} (h : readChar? c cs = some rest) : cs = c :: rest := by
  cases cs with
  | nil => cases h
  | cons d cs =>
    simp only [readChar?] at h
    split at h
    · next heq =>
      cases h
      rw [heq]
    · cases h

theorem readSign?_eq_some {cs rest : List Char} {nodes : List Node} (h : readSign? cs = some (nodes, rest)) :
    nodes = [.token .neg ['-']] ∧ cs = '-' :: rest := by
  unfold readSign? at h
  split at h
  · cases h
    exact ⟨rfl, rfl⟩
  · cases h

theorem readOperator?_sound {cs rest : List Char} {node : Node} (h : readOperator? cs = some (node, rest)) :
    ∃ operator text, Spelling operator text ∧ node = .token operator text ∧ cs = text ++ rest := by
  unfold readOperator? at h
  split at h <;> cases h
  · exact ⟨_, _, .add, rfl, rfl⟩
  · exact ⟨_, _, .sub, rfl, rfl⟩
  · exact ⟨_, _, .stars, rfl, rfl⟩
  · exact ⟨_, _, .caret, rfl, rfl⟩
  · exact ⟨_, _, .mul, rfl, rfl⟩
  · exact ⟨_, _, .div, rfl, rfl⟩

/-- Signs that were read in front of an operand belong to it. -/
theorem readSigns_sound {n : Nat} {cs cs' rest : List Char} {signs nodes : List Node}
    (h : readMany readSign? n cs = (signs, cs')) (hoperand : Begins .operand nodes cs' rest) :
    Begins .operand (signs ++ nodes) cs rest := by
  induction n generalizing cs signs with
  | zero =>
    cases h
    exact hoperand
  | succ n ih =>
    unfold readMany at h
    split at h
    · cases h
      exact hoperand
    · next sign after hsign =>
      cases h
      obtain ⟨rfl, hcs⟩ := readSign?_eq_some hsign
      obtain ⟨u, s, hu, hs, hafter⟩ := ih rfl
      refine Begins.blanks ⟨[], '-' :: (u ++ s), by simp [Blanks], .sign hu hs, ?_⟩
      rw [hcs, hafter]
      simp

section
variable {inner : Reader (List Node)}
  (hinner : ∀ cs nodes rest, inner cs = some (nodes, rest) → Begins .row nodes cs rest)
include hinner

theorem readGroup?_sound {cs rest : List Char} {node : Node} (h : readGroup? inner cs = some (node, rest)) :
    ∃ v nodes s w, Blanks v ∧ Blanks w ∧ Spells .row nodes s ∧ node = .row nodes ∧
      cs = '(' :: (v ++ (s ++ (w ++ ')' :: rest))) := by
  simp only [readGroup?, Option.bind_eq_bind, Option.bind_eq_some_iff, Prod.exists] at h
  obtain ⟨cs₁, hopening, nodes, cs₂, hrow, cs₃, hclosing, h⟩ := h
  cases h
  obtain ⟨v, s, hv, hs, hcs₁⟩ := (hinner _ _ _ hrow).blanks
  obtain ⟨w, hw, hcs₂⟩ := skipBlanks_eq cs₂
  refine ⟨v, nodes, s, w, hv, hw, hs, rfl, ?_⟩
  rw [readChar?_eq_some hopening, hcs₁, hcs₂, readChar?_eq_some hclosing]

theorem readPrimary?_sound {cs rest : List Char} {node : Node} (h : readPrimary? inner cs = some (node, rest)) :
    ∃ s, Spells .primary [node] s ∧ cs = s ++ rest := by
  simp only [readPrimary?, Option.orElse_eq_orElse, Option.orElse_eq_or, Option.or_eq_some_iff] at h
  obtain h | ⟨-, h | ⟨-, h | ⟨-, h⟩⟩⟩ := h
  · simp only [readCall?, Option.bind_eq_bind, Option.bind_eq_some_iff, Prod.exists] at h
    obtain ⟨name, cs₁, hname, argument, cs₂, hargument, h⟩ := h
    cases h
    obtain ⟨hvalid, rfl⟩ := readName?_sound hname
    obtain ⟨v, nodes, s, w, hv, hw, hs, rfl, hcs₁⟩ := readGroup?_sound hinner hargument
    obtain ⟨u, hu, heq⟩ := skipBlanks_eq cs₁
    refine ⟨_, .call hvalid hu hv hw hs, ?_⟩
    rw [heq, hcs₁]
    simp
  · simp only [readNumber?, Option.map_eq_some_iff, Prod.exists] at h
    obtain ⟨l, cs', hl, h⟩ := h
    cases h
    obtain ⟨hvalid, rfl⟩ := readLiteral?_sound hl
    exact ⟨l.chars, .number hvalid, rfl⟩
  · simp only [readConstant?, Option.map_eq_some_iff, Prod.exists] at h
    obtain ⟨name, cs', hname, h⟩ := h
    cases h
    obtain ⟨hvalid, rfl⟩ := readName?_sound hname
    exact ⟨name, .constant hvalid, rfl⟩
  · obtain ⟨v, nodes, s, w, hv, hw, hs, rfl, rfl⟩ := readGroup?_sound hinner h
    exact ⟨_, .group hv hw hs, by simp⟩

theorem readOperand?_sound {cs rest : List Char} {nodes : List Node}
    (h : readOperand? inner cs = some (nodes, rest)) : Begins .operand nodes cs rest := by
  simp only [readOperand?, Option.bind_eq_bind, Option.bind_eq_some_iff, Prod.exists] at h
  obtain ⟨node, cs', hprimary, h⟩ := h
  cases h
  obtain ⟨s, hs, hcs⟩ := readPrimary?_sound hinner hprimary
  refine readSigns_sound rfl (Begins.blanks ⟨[], s, by simp [Blanks], .unsigned hs, ?_⟩)
  exact hcs

theorem readLink?_sound {cs rest : List Char} {nodes : List Node} (h : readLink? inner cs = some (nodes, rest)) :
    ∃ operator text v operand s, Spelling operator text ∧ Blanks v ∧ Spells .operand operand s ∧
      nodes = .token operator text :: operand ∧ cs = text ++ (v ++ (s ++ rest)) := by
  simp only [readLink?, Option.bind_eq_bind, Option.bind_eq_some_iff, Prod.exists] at h
  obtain ⟨node, cs₁, hoperator, operand, cs₂, hoperand, h⟩ := h
  cases h
  obtain ⟨operator, text, hop, rfl, hcs⟩ := readOperator?_sound hoperator
  obtain ⟨v, s, hv, hs, hcs₁⟩ := (readOperand?_sound hinner hoperand).blanks
  exact ⟨operator, text, v, operand, s, hop, hv, hs, rfl, by rw [hcs, hcs₁]⟩

theorem readLinks_sound {n : Nat} {cs rest : List Char} {links : List Node}
    (h : readMany (readLink? inner) n cs = (links, rest)) : ∃ s, Spells .links links s ∧ cs = s ++ rest := by
  induction n generalizing cs links with
  | zero =>
    cases h
    exact ⟨[], .done, rfl⟩
  | succ n ih =>
    unfold readMany at h
    split at h
    · cases h
      exact ⟨[], .done, rfl⟩
    · next nodes after hlink =>
      cases hmore : readMany (readLink? inner) n after
      simp only [hmore] at h
      cases h
      obtain ⟨operator, text, v, operand, s, hop, hv, hs, rfl, hcs⟩ := readLink?_sound hinner hlink
      obtain ⟨t, ht, hafter⟩ := ih hmore
      obtain ⟨u, hu, heq⟩ := skipBlanks_eq cs
      refine ⟨_, .link hu hv hop hs ht, ?_⟩
      rw [heq, hcs, hafter]
      simp

theorem readRowOver?_sound {cs rest : List Char} {nodes : List Node}
    (h : readRowOver? inner cs = some (nodes, rest)) : Begins .row nodes cs rest := by
  simp only [readRowOver?, Option.bind_eq_bind, Option.bind_eq_some_iff, Prod.exists] at h
  obtain ⟨first, cs', hfirst, h⟩ := h
  cases hlinks : readMany (readLink? inner) cs'.length cs'
  simp only [hlinks] at h
  cases h
  obtain ⟨u, s, hu, hs, rfl⟩ := readOperand?_sound hinner hfirst
  obtain ⟨t, ht, hcs'⟩ := readLinks_sound hinner hlinks
  refine ⟨u, s ++ t, hu, .row hs ht, ?_⟩
  rw [hcs', List.append_assoc]

end

theorem readRow?_sound {depth : Nat} {cs rest : List Char} {nodes : List Node}
    (h : readRow? depth cs = some (nodes, rest)) : Begins .row nodes cs rest := by
  induction depth generalizing cs nodes rest with
  | zero => cases h
  | succ depth ih => exact readRowOver?_sound (fun _ _ _ => ih) h

/-! ## Whole texts -/

/-- The nodes of a sentence. -/
def wholeOf (nodes : List Node) : List Node := [.row nodes, .token .ending []]

theorem skipBlanks_of_blanks {v : List Char} (hv : Blanks v) : skipBlanks v = [] := by
  have hnil : skipBlanks (v ++ []) = skipBlanks [] := skipBlanks_append hv
  rwa [List.append_nil] at hnil

theorem Spells.parse? {u s v : List Char} {nodes : List Node} (h : Spells .row nodes s) (hu : Blanks u)
    (hv : Blanks v) : parse? (u ++ (s ++ v)) = some (wholeOf nodes) := by
  have hends : Ends v := by simp [Ends, skipBlanks_of_blanks hv]
  have hread : readRow? ((u ++ (s ++ v)).length + 1) (s ++ v) = some (nodes, v) :=
    h.isRead _ v (by simp; omega) hends
  simp only [Expr.parse?, h.skipBlanks (by decide) hu, hread, skipBlanks_of_blanks hv, Option.bind_eq_bind,
    Option.bind_some]
  rfl

theorem parse?_sound {cs : List Char} {whole : List Node} (h : parse? cs = some whole) :
    ∃ u nodes s v, Blanks u ∧ Blanks v ∧ Spells .row nodes s ∧ cs = u ++ (s ++ v) ∧ whole = wholeOf nodes := by
  simp only [parse?, Option.bind_eq_bind, Option.bind_eq_some_iff, Prod.exists] at h
  obtain ⟨nodes, rest, hread, h⟩ := h
  split at h
  · next hend =>
    cases h
    obtain ⟨u, s, hu, hs, hcs⟩ := (readRow?_sound hread).blanks
    obtain ⟨v, hv, hrest⟩ := skipBlanks_eq rest
    rw [List.isEmpty_iff.1 hend, List.append_nil] at hrest
    exact ⟨u, nodes, s, v, hu, hv, hs, by rw [hcs, hrest], rfl⟩
  · cases h

/-- A text is read exactly if it is a sentence. -/
theorem isSome_parse?_iff (cs : List Char) : (parse? cs).isSome = true ↔ Sentence cs := by
  rw [Option.isSome_iff_exists]
  constructor
  · rintro ⟨whole, h⟩
    obtain ⟨u, nodes, s, v, hu, hv, hs, hcs, -⟩ := parse?_sound h
    exact ⟨u, nodes, s, v, hu, hv, hs, hcs⟩
  · rintro ⟨u, nodes, s, v, hu, hv, hs, rfl⟩
    exact ⟨_, hs.parse? hu hv⟩

end Blueprint.Expr
