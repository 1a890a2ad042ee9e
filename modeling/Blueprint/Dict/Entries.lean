/-!
# Lists of bindings

A list of key and value pairs binds each key to the value of its first pair. `insert` keeps such a list in the order of
the keys, by code point, and `set` keeps it in the order in which the keys were first bound. A sorted list is determined
by the bindings it holds (`eq_of_get?`).
-/

namespace Blueprint.Entries

universe u v
variable {α : Type u} {β : Type v}

def get? (key : String) : List (String × α) → Option α
  | [] => none
  | (k, v) :: rest => if k = key then some v else get? key rest

/-- Binds a key; the list stays in key order. -/
def insert (key : String) (value : α) : List (String × α) → List (String × α)
  | [] => [(key, value)]
  | (k, v) :: rest =>
    if key < k then (key, value) :: (k, v) :: rest
    else if k = key then (key, value) :: rest
    else (k, v) :: insert key value rest

/-- Binds keys one after the other, in key order; the last binding of a key stays. -/
def insertAll (entries new : List (String × α)) : List (String × α) :=
  new.foldl (fun es (k, v) => insert k v es) entries

/-- Binds a key in place if it is bound already, otherwise at the end. -/
def set (key : String) (value : α) : List (String × α) → List (String × α)
  | [] => [(key, value)]
  | (k, v) :: rest => if k = key then (key, value) :: rest else (k, v) :: set key value rest

/-- Binds keys one after the other: of a repeated key the first position and the last value stay. -/
def setAll (entries new : List (String × α)) : List (String × α) :=
  new.foldl (fun es (k, v) => set k v es) entries

def erase (key : String) (entries : List (String × α)) : List (String × α) :=
  entries.filter fun e => e.1 ≠ key

/-- Strictly increasing keys. -/
def Sorted (entries : List (String × α)) : Prop := entries.Pairwise fun a b => a.1 < b.1

/-! ## Looking up -/

@[simp] theorem get?_nil (key : String) : get? key ([] : List (String × α)) = none := rfl

theorem get?_cons (key : String) (e : String × α) (rest : List (String × α)) :
    get? key (e :: rest) = if e.1 = key then some e.2 else get? key rest := rfl

theorem mem_of_get? {key : String} {value : α} {entries : List (String × α)} (h : get? key entries = some value) :
    (key, value) ∈ entries := by
  induction entries with
  | nil => simp at h
  | cons e rest ih =>
    rw [get?_cons] at h
    split at h
    · next hk => cases h; subst hk; simp
    · exact List.mem_cons_of_mem _ (ih h)

theorem get?_eq_none_iff {key : String} {entries : List (String × α)} :
    get? key entries = none ↔ ∀ e ∈ entries, e.1 ≠ key := by
  induction entries with
  | nil => simp
  | cons e rest ih =>
    rw [get?_cons]
    split <;> simp_all

/-- In a sorted list every pair is the binding of its key. -/
theorem Sorted.get?_eq_some {entries : List (String × α)} (h : Sorted entries) {e : String × α} (he : e ∈ entries) :
    get? e.1 entries = some e.2 := by
  induction entries with
  | nil => simp at he
  | cons x rest ih =>
    have hx := List.pairwise_cons.mp h
    rw [get?_cons]
    rcases List.mem_cons.mp he with rfl | he
    · simp
    · rw [if_neg (String.ne_of_lt (hx.1 e he)), ih hx.2 he]

theorem get?_map (f : α → β) (entries : List (String × α)) (key : String) :
    get? key (entries.map fun e => (e.1, f e.2)) = (get? key entries).map f := by
  induction entries with
  | nil => rfl
  | cons e rest ih => simp only [List.map_cons, get?_cons]; split <;> simp_all

/-- Leaving out keys leaves the other bindings. -/
theorem get?_filter (keep : String → Bool) (entries : List (String × α)) (key : String) :
    get? key (entries.filter fun e => keep e.1) = if keep key then get? key entries else none := by
  induction entries with
  | nil => simp
  | cons e rest ih =>
    rw [List.filter_cons]
    split <;> simp only [get?_cons, ih] <;> grind

/-! ## Binding in key order -/

theorem get?_insert (key : String) (value : α) (entries : List (String × α)) (k : String) :
    get? k (insert key value entries) = if key = k then some value else get? k entries := by
  induction entries with
  | nil => simp [insert, get?_cons]
  | cons e rest ih =>
    obtain ⟨a, v⟩ := e
    unfold insert
    split
    · simp [get?_cons]
    · split
      · next h => subst h; simp only [get?_cons]; split <;> simp_all
      · simp only [get?_cons, ih]; grind

theorem mem_insert {key : String} {value : α} {b : String × α} {entries : List (String × α)}
    (h : b ∈ insert key value entries) : b = (key, value) ∨ b ∈ entries := by
  induction entries with
  | nil => simpa [insert] using h
  | cons e rest ih => grind [insert]

theorem Sorted.nil : Sorted ([] : List (String × α)) := List.Pairwise.nil

theorem Sorted.insert {entries : List (String × α)} (h : Sorted entries) (key : String) (value : α) :
    Sorted (insert key value entries) := by
  induction entries with
  | nil => simp [Sorted, Entries.insert]
  | cons e rest ih =>
    obtain ⟨k, v⟩ := e
    have hr := List.pairwise_cons.mp h
    unfold Entries.insert
    split
    · next hk =>
      refine List.pairwise_cons.mpr ⟨fun b hb => ?_, h⟩
      rcases List.mem_cons.mp hb with rfl | hb
      · exact hk
      · exact String.lt_trans hk (hr.1 b hb)
    · split
      · next hk => subst hk; exact List.pairwise_cons.mpr hr
      · next h1 h2 =>
        refine List.pairwise_cons.mpr ⟨fun b hb => ?_, ih hr.2⟩
        rcases mem_insert hb with rfl | hb
        · rcases Std.lt_trichotomy key k with h | h | h
          · exact absurd h h1
          · exact absurd h.symm h2
          · exact h
        · exact hr.1 b hb

theorem Sorted.insertAll {entries : List (String × α)} (h : Sorted entries) (new : List (String × α)) :
    Sorted (insertAll entries new) := by
  induction new generalizing entries with
  | nil => exact h
  | cons e rest ih => exact ih (h.insert e.1 e.2)

theorem mem_insertAll {b : String × α} {entries new : List (String × α)} (h : b ∈ insertAll entries new) :
    b ∈ new ∨ b ∈ entries := by
  induction new generalizing entries with
  | nil => exact .inr h
  | cons e rest ih =>
    rcases ih h with h | h
    · exact .inl (List.mem_cons_of_mem _ h)
    · rcases mem_insert h with rfl | h
      · exact .inl (by simp)
      · exact .inr h

theorem get?_insertAll_cases {entries new : List (String × α)} {key : String} {value : α}
    (h : get? key (insertAll entries new) = some value) : (key, value) ∈ new ∨ get? key entries = some value := by
  induction new generalizing entries with
  | nil => exact .inr h
  | cons e rest ih =>
    rcases ih h with hm | hg
    · exact .inl (List.mem_cons_of_mem _ hm)
    · rw [get?_insert] at hg
      split at hg
      · next hk => cases hg; subst hk; exact .inl (by simp)
      · exact .inr hg

theorem get?_insertAll_of_not_mem {entries new : List (String × α)} {key : String} (h : ∀ e ∈ new, e.1 ≠ key) :
    get? key (insertAll entries new) = get? key entries := by
  induction new generalizing entries with
  | nil => rfl
  | cons e rest ih =>
    refine (ih fun e he => h e (by simp [he])).trans ?_
    rw [get?_insert, if_neg (h e (by simp))]

/-! ## Distinct keys -/

theorem get?_append (key : String) (xs ys : List (String × α)) :
    get? key (xs ++ ys) = (get? key xs).or (get? key ys) := by
  induction xs with
  | nil => simp
  | cons e rest ih =>
    rw [List.cons_append, get?_cons, get?_cons, ih]
    split <;> simp

/-- Where no key is repeated, every pair is the binding of its key. -/
theorem get?_eq_some_iff {entries : List (String × α)} (h : (entries.map (·.1)).Nodup) {key : String} {value : α} :
    get? key entries = some value ↔ (key, value) ∈ entries := by
  refine ⟨mem_of_get?, fun hm => ?_⟩
  induction entries with
  | nil => simp at hm
  | cons e rest ih =>
    rw [List.map_cons, List.nodup_cons] at h
    rw [get?_cons]
    rcases List.mem_cons.mp hm with rfl | hm
    · simp
    · have hkey : e.1 ≠ key := fun he => h.1 (List.mem_map.mpr ⟨_, hm, he.symm⟩)
      rw [if_neg hkey, ih h.2 hm]

/-- Where no key is repeated, the order of the pairs does not matter. -/
theorem get?_perm {entries entries' : List (String × α)} (h : (entries.map (·.1)).Nodup) (hp : entries.Perm entries')
    (key : String) : get? key entries' = get? key entries := by
  have h' : (entries'.map (·.1)).Nodup := (hp.map _).nodup h
  refine Option.ext fun value => ?_
  rw [get?_eq_some_iff h, get?_eq_some_iff h', hp.mem_iff]

theorem get?_insertAll {entries new : List (String × α)} (h : (new.map (·.1)).Nodup) (key : String) :
    get? key (insertAll entries new) = (get? key new).or (get? key entries) := by
  induction new generalizing entries with
  | nil => rfl
  | cons e rest ih =>
    rw [List.map_cons, List.nodup_cons] at h
    refine (ih h.2).trans ?_
    rw [get?_insert, get?_cons]
    split
    · next hkey =>
      have hfree : get? key rest = none := get?_eq_none_iff.mpr fun x hx he =>
        h.1 (List.mem_map.mpr ⟨x, hx, he.trans hkey.symm⟩)
      rw [hfree]
      rfl
    · rfl

/-! ## Removing -/

theorem get?_erase (key : String) (entries : List (String × α)) (k : String) :
    get? k (erase key entries) = if key = k then none else get? k entries := by
  refine (get?_filter (fun k => k ≠ key) entries k).trans ?_
  by_cases h : k = key
  · simp [h]
  · simp [h, Ne.symm h]

theorem Sorted.erase {entries : List (String × α)} (h : Sorted entries) (key : String) : Sorted (erase key entries) :=
  h.sublist List.filter_sublist

/-! ## Binding in order of appearance -/

theorem get?_set (key : String) (value : α) (entries : List (String × α)) (k : String) :
    get? k (set key value entries) = if key = k then some value else get? k entries := by
  induction entries with
  | nil => simp [set, get?_cons]
  | cons e rest ih =>
    unfold set
    split
    · next h => subst h; simp only [get?_cons]; split <;> simp_all
    · simp only [get?_cons, ih]; grind

/-- A binding that is left out anyway may be set before. -/
theorem filter_set (keep : String → Bool) {key : String} (h : keep key = false) (value : α)
    (entries : List (String × α)) :
    ((set key value entries).filter fun e => keep e.1) = entries.filter fun e => keep e.1 := by
  induction entries with
  | nil => simp [set, h]
  | cons e rest ih =>
    unfold set
    split
    · next he => simp [he, h]
    · simp only [List.filter_cons, ih]

theorem set_of_get?_eq_none {key : String} {entries : List (String × α)} (h : get? key entries = none) (value : α) :
    set key value entries = entries ++ [(key, value)] := by
  induction entries with
  | nil => rfl
  | cons e rest ih =>
    rw [get?_cons] at h
    unfold set
    split at h
    · cases h
    · next hk => rw [if_neg hk, ih h, List.cons_append]

theorem mem_set {key : String} {value : α} {b : String × α} {entries : List (String × α)}
    (h : b ∈ set key value entries) : b = (key, value) ∨ b ∈ entries := by
  induction entries with
  | nil => simpa [set] using h
  | cons e rest ih => grind [set]

/-- Of the bindings of a key the last one stays. -/
theorem get?_setAll (entries new : List (String × α)) (key : String) :
    get? key (setAll entries new) = (get? key new.reverse).or (get? key entries) := by
  induction new generalizing entries with
  | nil => rfl
  | cons e rest ih =>
    refine (ih (set e.1 e.2 entries)).trans ?_
    rw [List.reverse_cons, get?_append, get?_set, Option.or_assoc]
    congr 1
    simp only [get?_cons, get?_nil]
    split <;> rfl

theorem mem_setAll {b : String × α} {entries new : List (String × α)} (h : b ∈ setAll entries new) :
    b ∈ new ∨ b ∈ entries := by
  induction new generalizing entries with
  | nil => exact .inr h
  | cons e rest ih =>
    rcases ih h with h | h
    · exact .inl (List.mem_cons_of_mem _ h)
    · rcases mem_set h with rfl | h
      · exact .inl (by simp)
      · exact .inr h

theorem foldl_setAll (f : β → List (String × α)) (xs : List β) (entries : List (String × α)) :
    xs.foldl (fun es x => setAll es (f x)) entries = setAll entries (xs.flatMap f) := by
  induction xs generalizing entries with
  | nil => rfl
  | cons x xs ih =>
    rw [List.foldl_cons, ih, List.flatMap_cons, setAll, setAll, setAll, List.foldl_append]

/-! ## Equality -/

theorem get?_eq_none_of_lt {entries : List (String × α)} {k : String} (h : ∀ e ∈ entries, k < e.1) :
    get? k entries = none :=
  get?_eq_none_iff.mpr fun e he => (String.ne_of_lt (h e he)).symm

/-- A sorted list whose key bound lowest is `x.1` binds nothing below it. -/
theorem Sorted.get?_cons_of_lt {x : String × α} {xs : List (String × α)} (h : Sorted (x :: xs)) {k : String}
    (hk : k < x.1) : get? k (x :: xs) = none :=
  get?_eq_none_of_lt fun e he => by
    rcases List.mem_cons.mp he with rfl | he
    · exact hk
    · exact String.lt_trans hk ((List.pairwise_cons.mp h).1 e he)

theorem Sorted.eq_of_get? {a b : List (String × α)} (ha : Sorted a) (hb : Sorted b)
    (h : ∀ k, get? k a = get? k b) : a = b := by
  induction a generalizing b with
  | nil =>
    cases b with
    | nil => rfl
    | cons y ys => simpa [get?_cons] using h y.1
  | cons x xs ih =>
    cases b with
    | nil => simpa [get?_cons] using h x.1
    | cons y ys =>
      have hx := List.pairwise_cons.mp ha
      have hy := List.pairwise_cons.mp hb
      have hk : x.1 = y.1 := by
        rcases Std.lt_trichotomy x.1 y.1 with hl | he | hl
        · have := h x.1
          rw [hb.get?_cons_of_lt hl] at this
          simp [get?_cons] at this
        · exact he
        · have := h y.1
          rw [ha.get?_cons_of_lt hl] at this
          simp [get?_cons] at this
      have hv : x.2 = y.2 := by simpa [get?_cons, hk] using h x.1
      obtain rfl : x = y := Prod.ext hk hv
      congr 1
      refine ih hx.2 hy.2 fun k => ?_
      by_cases e : x.1 = k
      · subst e
        rw [get?_eq_none_of_lt hx.1, get?_eq_none_of_lt hy.1]
      · simpa [get?_cons, e] using h k

end Blueprint.Entries
