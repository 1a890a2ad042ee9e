import Blueprint.Yaml.Token

/-!
# YAML documents

The tokens of a text are read into a JSON value. A text is one document, maybe between a start and an end marker, and
nothing at all is null. Where a key or a value is missing it is empty; a key is a scalar and is taken as it is written.
-/

namespace Blueprint.Yaml

/-- Where a node stands, which decides what blocks it may be. -/
inductive Position where
  /-- The value of a member of a block mapping: any block, a list without indentation too. -/
  | member
  /-- An item of a block list, or the whole document: any block with indentation. -/
  | item
  /-- Inside a flow collection: no block. -/
  | flow
deriving DecidableEq, Repr

def scalarValue? (text : List Char) (plain : Bool) : Option Json :=
  if plain then plainValue? text else some (.str (String.ofList text))

/-- A key: a scalar. -/
def readKey? : List Token → Option (String × List Token)
  | .scalar text _ :: ts => some (String.ofList text, ts)
  | _ => none

/-- The key behind its mark in a block mapping, maybe an empty one. -/
def readBlockKey? (ts : List Token) : Option (String × List Token) :=
  match ts with
  | .key :: _ | .value :: _ | .blockEnd :: _ => some ("", ts)
  | _ => readKey? ts

/-- The key behind its mark in a flow mapping, maybe an empty one. -/
def readFlowKey? (ts : List Token) : Option (String × List Token) :=
  match ts with
  | .value :: _ | .comma :: _ | .mapClose :: _ => some ("", ts)
  | _ => readKey? ts

/-- The key behind its mark in a flow list. The token that stands in for an empty key is taken with it. -/
def readPairKey? (ts : List Token) : Option (String × List Token) :=
  match ts with
  | .value :: ts | .comma :: ts | .listClose :: ts => some ("", ts)
  | _ => readKey? ts

/-- How many collections may be nested in one another. -/
def roomLimit : Nat := 128

mutual
/-- A node, with room for some nested collections. -/
def readNode? : Nat → Nat → Position → List Token → Option (Json × List Token)
  | _, _, _, .scalar text plain :: ts => (scalarValue? text plain).map fun value => (value, ts)
  | fuel + 1, room + 1, position, t :: ts =>
    match t, position with
    | .listOpen, _ => (readFlowItems? fuel room ts).map fun (items, ts) => (.arr items, ts)
    | .mapOpen, _ => (readFlowMembers? fuel room ts).map fun (members, ts) => (.obj (Entries.setAll [] members), ts)
    | .entry, .member => (readOpenItems? fuel room (.entry :: ts)).map fun (items, ts) => (.arr items, ts)
    | .blockList, .member | .blockList, .item =>
      (readItems? fuel room ts).map fun (items, ts) => (.arr items, ts)
    | .blockMap, .member | .blockMap, .item =>
      (readMembers? fuel room ts).map fun (members, ts) => (.obj (Entries.setAll [] members), ts)
    | _, _ => none
  | _, _, _, _ => none

/-- The items of a block list, up to the end of the block. -/
def readItems? : Nat → Nat → List Token → Option (List Json × List Token)
  | fuel + 1, room, .entry :: ts => do
    let (item, ts) ← match ts with
      | .entry :: _ | .blockEnd :: _ => some (.null, ts)
      | _ => readNode? fuel room .item ts
    let (items, ts) ← readItems? fuel room ts
    some (item :: items, ts)
  | _, _, .blockEnd :: ts => some ([], ts)
  | _, _, _ => none

/-- The items of a block list without indentation, up to the first token that is none of it. -/
def readOpenItems? : Nat → Nat → List Token → Option (List Json × List Token)
  | fuel + 1, room, .entry :: ts => do
    let (item, ts) ← match ts with
      | .entry :: _ | .key :: _ | .value :: _ | .blockEnd :: _ => some (.null, ts)
      | _ => readNode? fuel room .item ts
    let (items, ts) ← readOpenItems? fuel room ts
    some (item :: items, ts)
  | 0, _, .entry :: _ => none
  | _, _, ts => some ([], ts)

/-- The members of a block mapping, up to the end of the block. -/
def readMembers? : Nat → Nat → List Token → Option (Members × List Token)
  | fuel + 1, room, .key :: ts => do
    let (key, ts) ← readBlockKey? ts
    let (value, ts) ← match ts with
      | .value :: ts =>
        match ts with
        | .key :: _ | .value :: _ | .blockEnd :: _ => some (.null, ts)
        | _ => readNode? fuel room .member ts
      | _ => some (.null, ts)
    let (members, ts) ← readMembers? fuel room ts
    some ((key, value) :: members, ts)
  | _, _, .blockEnd :: ts => some ([], ts)
  | _, _, _ => none

/-- The value of a key in a flow collection; without a colon, and with nothing behind it, it is null. -/
def readFlowValue? : Nat → Nat → Token → List Token → Option (Json × List Token)
  | 0, _, _, _ => none
  | fuel + 1, room, closing, ts =>
    match ts with
    | .value :: ts =>
      if ts.head? = some .comma || ts.head? = some closing then some (.null, ts) else readNode? fuel room .flow ts
    | _ => some (.null, ts)

/-- The items of a flow list, up to its bracket. An item with a key is a mapping of one member. -/
def readFlowItems? : Nat → Nat → List Token → Option (List Json × List Token)
  | 0, _, _ => none
  | fuel + 1, room, ts =>
    match ts with
    | .listClose :: ts => some ([], ts)
    | _ => do
      let (item, ts) ← match room, ts with
        | 0, .key :: _ => none
        | room + 1, .key :: ts =>
          let (key, ts) ← readPairKey? ts
          (readFlowValue? fuel room .listClose ts).map fun (value, ts) => (Json.obj [(key, value)], ts)
        | room, ts => readNode? fuel room .flow ts
      match ts with
      | .listClose :: ts => some ([item], ts)
      | .comma :: ts =>
        let (items, ts) ← readFlowItems? fuel room ts
        some (item :: items, ts)
      | _ => none

/-- The members of a flow mapping, up to its brace. A key without its mark has no value. -/
def readFlowMembers? : Nat → Nat → List Token → Option (Members × List Token)
  | 0, _, _ => none
  | fuel + 1, room, ts =>
    match ts with
    | .mapClose :: ts => some ([], ts)
    | _ => do
      let (key, value, ts) ← match ts with
        | .key :: ts =>
          let (key, ts) ← readFlowKey? ts
          (readFlowValue? fuel room .mapClose ts).map fun (value, ts) => (key, value, ts)
        | _ => (readKey? ts).map fun (key, ts) => (key, Json.null, ts)
      match ts with
      | .mapClose :: ts => some ([(key, value)], ts)
      | .comma :: ts =>
        let (members, ts) ← readFlowMembers? fuel room ts
        some ((key, value) :: members, ts)
      | _ => none
end

/-- The node of a document. A token is taken after two calls at most, so twice their number bounds the calls. -/
def readRoot? (ts : List Token) : Option (Json × List Token) := readNode? (2 * ts.length + 1) roomLimit .item ts

def ofTokens? (ts : List Token) : Option Json := do
  let (value, rest) ← match ts with
    | [] => some (.null, [])
    | .documentStart :: [] => some (.null, [])
    | .documentStart :: .documentEnd :: ts => some (.null, ts)
    | .documentStart :: ts => readRoot? ts
    | ts => readRoot? ts
  if rest.all (· = .documentEnd) then some value else none

def parse? (text : String) : Option Json := (tokens? text.toList).bind ofTokens?

end Blueprint.Yaml
