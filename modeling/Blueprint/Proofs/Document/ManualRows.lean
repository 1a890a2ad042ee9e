import Blueprint.Document.Manual
import Blueprint.Proofs.Json.Printing

/-!
# Table rows of the manual

A bar ends a cell unless a backslash stands in front of it, and a line end ends the row. Of the cells of a parameter
only the description has its bars escaped, and only the default never has a line end; so a row is what it should be
exactly if the other cells hold no open bar and no line end (`Manual.parameterRow_isRow_iff`).
-/

namespace Blueprint.Manual

/-! ## Bars -/

/-- How many bars of a text end a cell. `before` stands in front of the text. -/
def bars (before : Char) : List Char → Nat
  | [] => 0
  | c :: cs => (if c = '|' ∧ before ≠ '\\' then 1 else 0) + bars c cs

/-- What stands between the bars of a text that end a cell. -/
def pieces (before : Char) : List Char → List (List Char)
  | [] => [[]]
  | c :: cs =>
    if c = '|' ∧ before ≠ '\\' then [] :: pieces c cs
    else match pieces c cs with
      | [] => [[c]]
      | first :: others => (c :: first) :: others

section Bars

variable {before : Char} {cs : List Char}

theorem length_pieces (before : Char) (cs : List Char) : (pieces before cs).length = bars before cs + 1 := by
  induction cs generalizing before with
  | nil => rfl
  | cons c cs ih =>
    have hrest := ih c
    unfold pieces bars
    split
    · rw [List.length_cons, hrest]
      omega
    · cases hp : pieces c cs with
      | nil =>
        rw [hp] at hrest
        cases hrest
      | cons first others =>
        rw [hp] at hrest
        simpa using hrest

/-- What stands in front of a text does not matter unless it is a backslash. -/
theorem bars_eq (h : before ≠ '\\') (cs : List Char) : bars before cs = bars ' ' cs := by
  cases cs with
  | nil => rfl
  | cons c cs => simp [bars, h]

/-- A cell is counted on its own if what follows it is no bar. -/
theorem bars_append {c : Char} (hc : c ≠ '|') (xs ys : List Char) :
    bars before (xs ++ c :: ys) = bars before xs + bars c ys := by
  induction xs generalizing before with
  | nil => simp [bars, hc]
  | cons x xs ih => rw [List.cons_append, bars, bars, ih, Nat.add_assoc]

/-- How many bars end a cell inside some cells, each counted on its own. -/
def cellBars : List (List Char) → Nat
  | [] => 0
  | cell :: cells => bars ' ' cell + cellBars cells

theorem cellBars_eq_zero_iff {cells : List (List Char)} : cellBars cells = 0 ↔ ∀ cell ∈ cells, bars ' ' cell = 0 := by
  induction cells with
  | nil => simp [cellBars]
  | cons cell cells ih => rw [cellBars, Nat.add_eq_zero_iff, ih, List.forall_mem_cons]

theorem bars_eq_zero_of_not_mem (h : '|' ∉ cs) : bars before cs = 0 := by
  induction cs generalizing before with
  | nil => rfl
  | cons c cs ih =>
    rw [List.mem_cons, not_or] at h
    simp [bars, Ne.symm h.1, ih h.2]

/-- A text without open bars is one piece. -/
theorem pieces_append (h : bars before cs = 0) (rest : List Char) :
    pieces before (cs ++ ' ' :: '|' :: rest) = (cs ++ [' ']) :: pieces '|' rest := by
  induction cs generalizing before with
  | nil => simp [pieces]
  | cons c cs ih =>
    rw [bars, Nat.add_eq_zero_iff] at h
    have hopen : ¬ (c = '|' ∧ before ≠ '\\') := fun hc => by simp [hc] at h
    rw [List.cons_append, pieces, if_neg hopen, ih h.2]
    rfl

theorem bars_escape (text : String) : bars ' ' (escape text).toList = 0 := by
  rw [escape, String.toList_ofList]
  have hany (before : Char) (cs : List Char) :
      bars before (cs.flatMap fun c => if c = '|' then ['\\', '|'] else [c]) = 0 := by
    induction cs generalizing before with
    | nil => rfl
    | cons c cs ih =>
      rw [List.flatMap_cons]
      split
      · simp [bars, ih]
      · next hc => simp [bars, hc, ih]
  exact hany ' ' text.toList

end Bars

/-! ## Rows -/

/-- No line end occurs in the text. -/
def OneLine (cs : List Char) : Prop := '\n' ∉ cs ∧ '\r' ∉ cs

instance : DecidablePred OneLine := fun cs => inferInstanceAs (Decidable ('\n' ∉ cs ∧ '\r' ∉ cs))

theorem OneLine.of_visible {cs : List Char} (h : Text.Visible cs) : OneLine cs :=
  ⟨fun hc => absurd (h _ hc) (by decide), fun hc => absurd (h _ hc) (by decide)⟩

theorem oneLine_append {xs ys : List Char} : OneLine (xs ++ ys) ↔ OneLine xs ∧ OneLine ys := by
  simp only [OneLine, List.mem_append]
  tauto

theorem oneLine_cons {c : Char} (hc : 0x20 ≤ c.toNat) {cs : List Char} : OneLine (c :: cs) ↔ OneLine cs := by
  have hvisible : OneLine [c] := .of_visible (.cons hc .nil)
  rw [← List.singleton_append, oneLine_append]
  exact and_iff_right hvisible

/-- A text that is one row of a table with `n` cells: a single line in which one bar more ends a cell. -/
def IsRow (n : Nat) (text : String) : Prop :=
  ∃ line, text.toList = line ++ ['\n'] ∧ OneLine line ∧ bars '\n' line = n + 1

/-- The cells as they stand in a row, each with a blank on either side and a bar behind it. -/
def cellChars (cells : List (List Char)) : List Char := cells.flatMap fun cell => ' ' :: (cell ++ [' ', '|'])

/-- A text that is read as a row of these cells. -/
def ReadsAs (cells : List (List Char)) (text : String) : Prop :=
  ∃ line, text.toList = line ++ ['\n'] ∧ OneLine line ∧
    pieces '\n' line = [] :: cells.map (fun cell => ' ' :: (cell ++ [' '])) ++ [[]]

section Rows

variable {cells : List (List Char)} {text : String}

theorem cellChars_cons (cell : List Char) (cells : List (List Char)) :
    cellChars (cell :: cells) = ' ' :: (cell ++ ' ' :: '|' :: cellChars cells) := by
  simp [cellChars]

theorem bars_cellChars (cells : List (List Char)) :
    bars '|' (cellChars cells) = cellBars cells + cells.length := by
  induction cells with
  | nil => rfl
  | cons cell cells ih =>
    have hbar : bars ' ' ('|' :: cellChars cells) = bars '|' (cellChars cells) + 1 := by
      simp [bars, Nat.add_comm]
    have hcell : bars '|' (cellChars (cell :: cells)) = bars ' ' cell + bars ' ' ('|' :: cellChars cells) := by
      rw [cellChars_cons, bars, bars_append (by decide)]
      simp
    rw [hcell, hbar, ih, cellBars, List.length_cons]
    omega

theorem pieces_cellChars (h : ∀ cell ∈ cells, bars ' ' cell = 0) :
    pieces '|' (cellChars cells) = cells.map (fun cell => ' ' :: (cell ++ [' '])) ++ [[]] := by
  induction cells with
  | nil => rfl
  | cons cell cells ih =>
    have hcell : bars '|' (' ' :: cell) = 0 := by simpa [bars] using h cell (by simp)
    rw [cellChars_cons, ← List.cons_append, pieces_append hcell, ih fun c hc => h c (by simp [hc])]
    rfl

theorem oneLine_cellChars : OneLine (cellChars cells) ↔ ∀ cell ∈ cells, OneLine cell := by
  induction cells with
  | nil => simp [cellChars, OneLine]
  | cons cell cells ih =>
    rw [cellChars_cons, oneLine_cons (by decide), oneLine_append, oneLine_cons (by decide), oneLine_cons (by decide), ih,
      List.forall_mem_cons]

variable (hrow : text.toList = ('|' :: cellChars cells) ++ ['\n'])
include hrow

/-- A text that begins with a bar and ends each cell with one is a row exactly if no cell holds an open bar or a line
end. -/
theorem isRow_iff : IsRow cells.length text ↔ ∀ cell ∈ cells, bars ' ' cell = 0 ∧ OneLine cell := by
  have hbars : bars '\n' ('|' :: cellChars cells) = cellBars cells + (cells.length + 1) := by
    have hfirst : bars '\n' ('|' :: cellChars cells) = bars '|' (cellChars cells) + 1 := by simp [bars, Nat.add_comm]
    rw [hfirst, bars_cellChars, Nat.add_assoc]
  have hline : OneLine ('|' :: cellChars cells) ↔ ∀ cell ∈ cells, OneLine cell :=
    (oneLine_cons (by decide)).trans oneLine_cellChars
  have hopened : IsRow cells.length text ↔
      OneLine ('|' :: cellChars cells) ∧ bars '\n' ('|' :: cellChars cells) = cells.length + 1 := by
    constructor
    · rintro ⟨line, htext, h⟩
      obtain rfl := List.append_cancel_right (htext.symm.trans hrow)
      exact h
    · exact fun h => ⟨_, hrow, h⟩
  rw [hopened, hbars, Nat.add_eq_right, cellBars_eq_zero_iff, hline]
  grind

/-- A row is read as the cells it was written of. -/
theorem readsAs_iff : ReadsAs cells text ↔ IsRow cells.length text := by
  constructor
  · rintro ⟨line, htext, hline, hpieces⟩
    have hlength := length_pieces '\n' line
    rw [hpieces] at hlength
    exact ⟨line, htext, hline, by simpa using hlength.symm⟩
  · intro h
    have hcells := (isRow_iff hrow).mp h
    obtain ⟨line, htext, hline, -⟩ := h
    obtain rfl := List.append_cancel_right (htext.symm.trans hrow)
    refine ⟨_, hrow, hline, ?_⟩
    rw [pieces, if_pos (by decide), pieces_cellChars fun cell hc => (hcells cell hc).1]
    rfl

end Rows

/-! ## Cells of a parameter -/

section Cells

variable (store : Store) (q : Parameter)

def typeCell : String := (q.jsonType?.map typeLabel).getD "any"

def defaultCell : String :=
  match q.default with
  | some value => "`" ++ (value.toJson store).compact ++ "`"
  | none => ""

/-- The cells in the row of a parameter. -/
def cells : List String :=
  [q.name, typeCell q, if q.isRequired then "yes" else "no", defaultCell store q, escape (q.description?.getD "")]

theorem parameterRow_toList :
    (parameterRow store q).toList = ('|' :: cellChars ((cells store q).map String.toList)) ++ ['\n'] := by
  cases hd : q.default <;> simp [parameterRow, cells, cellChars, typeCell, defaultCell, toString, hd]

theorem oneLine_defaultCell : OneLine (defaultCell store q).toList := by
  unfold defaultCell
  split
  · next value _ =>
    have hvalue : OneLine (value.toJson store).compact.toList := by
      rw [Json.compact, String.toList_ofList]
      exact .of_visible (Json.visible_chars _)
    rw [String.toList_append, String.toList_append]
    exact oneLine_append.mpr ⟨oneLine_append.mpr ⟨by decide, hvalue⟩, by decide⟩
  · decide

theorem oneLine_escape (text : String) : OneLine (escape text).toList ↔ OneLine text.toList := by
  have hkept (c : Char) (hbar : c ≠ '|') (hbackslash : c ≠ '\\') : c ∈ (escape text).toList ↔ c ∈ text.toList := by
    rw [escape, String.toList_ofList, List.mem_flatMap]
    constructor
    · rintro ⟨d, hd, hc⟩
      split at hc <;> simp_all
    · intro hc
      exact ⟨c, hc, by simp [hbar]⟩
  simp only [OneLine, hkept '\n' (by decide) (by decide), hkept '\r' (by decide) (by decide)]

end Cells

/-! ## Choices -/

section Choices

theorem hexChar_ne : ∀ n < 16, Json.hexChar n ≠ '|' ∧ Json.hexChar n ≠ '\\' := by decide

/-- What a character is written as counts as the character. -/
theorem bars_charChars (before c : Char) (rest : List Char) :
    bars before (Json.charChars c ++ rest) = bars before (c :: rest) := by
  have hsame {x y : Char} (hx : x ≠ '\\') (hy : y ≠ '\\') : bars x rest = bars y rest :=
    (bars_eq hx rest).trans (bars_eq hy rest).symm
  unfold Json.charChars
  split
  case h_8 hbackslash _ _ _ _ _ =>
    split
    · next hlow =>
      obtain ⟨hhigh, -⟩ := hexChar_ne (c.toNat / 16) (by omega)
      obtain ⟨hdigit, hlast⟩ := hexChar_ne (c.toNat % 16) (by omega)
      have hbar : c ≠ '|' := by rintro rfl; exact absurd hlow (by decide)
      simpa [bars, hhigh, hdigit, hbar] using hsame hlast hbackslash
    · rfl
  all_goals simp [bars]
  all_goals exact hsame (by decide) (by decide)

/-- Text is written with a backslash in front of a bar exactly where it has one itself. -/
theorem bars_flatMap_charChars (before : Char) (cs : List Char) :
    bars before (cs.flatMap Json.charChars) = bars before cs := by
  induction cs generalizing before with
  | nil => rfl
  | cons c cs ih => rw [List.flatMap_cons, bars_charChars, bars, bars, ih]

theorem bars_stringChars (before : Char) (s : String) : bars before (Json.stringChars s) = bars ' ' s.toList := by
  have hquote (xs : List Char) : bars '"' (xs ++ ['"']) = bars '"' xs := by
    rw [bars_append (by decide)]
    rfl
  rw [Json.stringChars, bars, hquote, bars_flatMap_charChars, bars_eq (by decide)]
  simp

/-- The choices in a type cell. -/
def choiceChars (choices : List String) : List Char := [',', ' '].intercalate (choices.map Json.stringChars)

theorem bars_choiceChars {before : Char} (choices : List String) :
    bars before (choiceChars choices) = cellBars (choices.map String.toList) := by
  unfold choiceChars
  induction choices generalizing before with
  | nil => rfl
  | cons c choices ih =>
    cases choices with
    | nil => simp [bars_stringChars, cellBars]
    | cons next choices =>
      have hcomma : bars ',' (' ' :: [',', ' '].intercalate ((next :: choices).map Json.stringChars)) =
          cellBars ((next :: choices).map String.toList) := by
        rw [bars, ih]
        simp
      rw [List.map_cons, List.map_cons, List.intercalate_cons_cons, List.append_assoc, List.cons_append,
        bars_append (by decide), bars_stringChars]
      exact congrArg (bars ' ' c.toList + ·) hcomma

theorem visible_choiceChars (choices : List String) : Text.Visible (choiceChars choices) := by
  unfold choiceChars
  induction choices with
  | nil => exact .nil
  | cons c choices ih =>
    cases choices with
    | nil => simpa using Json.visible_stringChars c
    | cons next choices =>
      rw [List.map_cons, List.map_cons, List.intercalate_cons_cons]
      exact .append (.append (Json.visible_stringChars c) (by decide)) ih

variable (store : Store) (q : Parameter) (choices : List String)

/-- The parameter with a choice of texts for its value. -/
def choosing : Parameter :=
  { q with loader := .read (.choice choices), explicitType := none, explicitDescription := none }

theorem typeCell_choosing : (typeCell (choosing q choices)).toList = "one of ".toList ++ choiceChars choices := by
  have hlabel : typeCell (choosing q choices) =
      "one of " ++ ", ".intercalate ((choices.map Json.str).map Json.compact) := rfl
  rw [hlabel, String.toList_append, String.toList_intercalate, List.map_map, List.map_map, choiceChars]
  simp [Function.comp_def, Json.compact, Json.chars]

theorem description_choosing :
    ((choosing q choices).description?.getD "").toList =
      "One of: ".toList ++ [',', ' '].intercalate (choices.map String.toList) := by
  have hdescription : (choosing q choices).description?.getD "" = "One of: " ++ ", ".intercalate choices := rfl
  rw [hdescription, String.toList_append, String.toList_intercalate]
  rfl

theorem oneLine_intercalate (texts : List (List Char)) :
    OneLine ([',', ' '].intercalate texts) ↔ ∀ text ∈ texts, OneLine text := by
  induction texts with
  | nil => simp [OneLine]
  | cons text texts ih =>
    cases texts with
    | nil => simp
    | cons next texts =>
      rw [List.intercalate_cons_cons, oneLine_append, oneLine_append, ih, List.forall_mem_cons (a := text)]
      exact and_congr_left fun _ => and_iff_left (by decide)

end Choices

/-! ## Rows of parameters -/

/-- A text that may stand in a cell: a row goes on behind it, on the same line. -/
def FitsCell (text : String) : Prop := bars ' ' text.toList = 0 ∧ OneLine text.toList

instance : DecidablePred FitsCell := fun text =>
  inferInstanceAs (Decidable (bars ' ' text.toList = 0 ∧ OneLine text.toList))

theorem isRow_parameterRow (store : Store) (q : Parameter) :
    IsRow 5 (parameterRow store q) ↔ FitsCell q.name ∧ FitsCell (typeCell q) ∧
      bars ' ' (defaultCell store q).toList = 0 ∧ OneLine (q.description?.getD "").toList := by
  have hrequired : FitsCell (if q.isRequired then "yes" else "no") := by split <;> decide
  have hcells := isRow_iff (parameterRow_toList store q)
  simp only [cells, List.map_cons, List.map_nil, List.forall_mem_cons] at hcells
  rw [← oneLine_escape]
  refine hcells.trans ⟨?_, ?_⟩
  · rintro ⟨hname, htype, -, hdefault, hdescription, -⟩
    exact ⟨hname, htype, hdefault.1, hdescription.2⟩
  · rintro ⟨hname, htype, hdefault, hdescription⟩
    exact ⟨hname, htype, hrequired, ⟨hdefault, oneLine_defaultCell store q⟩, ⟨bars_escape _, hdescription⟩, nofun⟩

theorem fitsCell_typeCell_choosing (q : Parameter) (choices : List String) :
    FitsCell (typeCell (choosing q choices)) ↔ ∀ c ∈ choices, bars ' ' c.toList = 0 := by
  have hbars : bars ' ' ("one of ".toList ++ choiceChars choices) = cellBars (choices.map String.toList) := by
    have hsplit : "one of ".toList ++ choiceChars choices = "one of".toList ++ ' ' :: choiceChars choices := rfl
    rw [hsplit, bars_append (by decide), bars_choiceChars, bars_eq_zero_of_not_mem (by decide), Nat.zero_add]
  have hline : OneLine ("one of ".toList ++ choiceChars choices) :=
    oneLine_append.mpr ⟨by decide, .of_visible (visible_choiceChars choices)⟩
  rw [FitsCell, typeCell_choosing, hbars, cellBars_eq_zero_iff, List.forall_mem_map]
  exact and_iff_left hline

theorem oneLine_description_choosing (q : Parameter) (choices : List String) :
    OneLine ((choosing q choices).description?.getD "").toList ↔ ∀ c ∈ choices, OneLine c.toList := by
  rw [description_choosing, oneLine_append, oneLine_intercalate, List.forall_mem_map]
  exact and_iff_right (by decide)

/-- The row of a parameter is one row of five cells exactly if its name and its type fit a cell, no bar of its default
is open and its description has no line end; then it is read as its cells. For a choice of texts that is to say that
all of them fit a cell. -/
theorem parameterRow_isRow_iff (store : Store) (q : Parameter) :
    (IsRow 5 (parameterRow store q) ↔ FitsCell q.name ∧ FitsCell (typeCell q) ∧
      bars ' ' (defaultCell store q).toList = 0 ∧ OneLine (q.description?.getD "").toList) ∧
    (IsRow 5 (parameterRow store q) ↔ ReadsAs ((cells store q).map String.toList) (parameterRow store q)) ∧
    ∀ choices, IsRow 5 (parameterRow store (choosing q choices)) ↔
      FitsCell q.name ∧ bars ' ' (defaultCell store q).toList = 0 ∧ ∀ c ∈ choices, FitsCell c := by
  refine ⟨isRow_parameterRow store q, (readsAs_iff (parameterRow_toList store q)).symm, fun choices => ?_⟩
  have hname : (choosing q choices).name = q.name := rfl
  have hdefault : defaultCell store (choosing q choices) = defaultCell store q := rfl
  have hchoices : (∀ c ∈ choices, FitsCell c) ↔
      (∀ c ∈ choices, bars ' ' c.toList = 0) ∧ ∀ c ∈ choices, OneLine c.toList := by
    simp only [FitsCell, forall_and]
  rw [isRow_parameterRow, fitsCell_typeCell_choosing, oneLine_description_choosing, hname, hdefault, hchoices]
  tauto

/-- A parameter with a single choice, which holds a bar. -/
def barParameter : Parameter := { name := "mode", loader := .read (.choice ["a|b"]) }

/-- A bar in a choice opens cells of its own. -/
theorem barParameter_row : ¬ IsRow 5 (parameterRow .empty barParameter) := by
  rw [isRow_parameterRow]
  decide +kernel

end Blueprint.Manual
