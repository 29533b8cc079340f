import ChordSymbol.Document.BlockScalar
import ChordSymbol.Document.Scalar

/-! Reading documents: mappings and sequences, by indentation or in brackets, of scalars. A text is
refused as a whole when any part of it is malformed. -/
namespace ChordSymbol.Document

/-- A scalar that starts here. -/
def scalar? (ctx : Context) (indent : Nat) (c : Cursor) : Option (Node × Cursor) :=
  match c.rest with
  | '\x27' :: cs =>
    (singleFrom [] (.blanks []) false cs (c.column + 1) c.line).map fun r => (.scalar false r.1, r.2)
  | '\x22' :: cs =>
    (doubleFrom [] (.blanks []) .outside cs (c.column + 1) c.line).map fun r =>
      (.scalar false r.1, r.2)
  | cs =>
    if startsPlain ctx cs then
      (plainFrom ctx indent [] (.blanks []) cs c.column c.line).map fun r => (.scalar true r.1, r.2)
    else none

mutual

/-- A node between brackets. -/
def flowNode (indent : Nat) : Nat → Cursor → Option (Node × Cursor)
  | 0, _ => none
  | fuel + 1, c =>
    if c.atBoundary then none
    else
      match c.rest with
      | '[' :: _ => flowItems indent fuel [] (c.advance 1)
      | '\x7b' :: _ => flowEntries indent fuel [] (c.advance 1)
      | _ => scalar? .flow indent c

/-- A node, and its value if a colon on the same line makes it a key. -/
def flowPair (indent : Nat) : Nat → Cursor → Option (Node × Option Node × Cursor)
  | 0, _ => none
  | fuel + 1, c => do
    let (key, d) ← flowNode indent fuel c
    let d := d.skip .flow
    if d.atColon .flow && c.reaches d then
      let d := (d.advance 1).skip .flow
      match d.rest with
      | ',' :: _ | ']' :: _ | '\x7d' :: _ => return (key, some .nothing, d)
      | _ =>
        let (value, d) ← flowNode indent fuel d
        return (key, some value, d.skip .flow)
    else return (key, none, d)

/-- The items up to the closing bracket; a pair among them is a mapping of its own. -/
def flowItems (indent : Nat) : Nat → List Node → Cursor → Option (Node × Cursor)
  | 0, _, _ => none
  | fuel + 1, items, c => do
    let c := c.skip .flow
    match c.rest with
    | ']' :: _ => return (.sequence items, c.advance 1)
    | _ =>
      let (key, value, d) ← flowPair indent fuel c
      let item := match value with
        | some v => .mapping [(key, v)]
        | none => key
      match d.rest with
      | ',' :: _ => flowItems indent fuel (items ++ [item]) (d.advance 1)
      | ']' :: _ => return (.sequence (items ++ [item]), d.advance 1)
      | _ => none

/-- The entries up to the closing brace; a key alone has nothing for a value. -/
def flowEntries (indent : Nat) : Nat → List (Node × Node) → Cursor → Option (Node × Cursor)
  | 0, _, _ => none
  | fuel + 1, entries, c => do
    let c := c.skip .flow
    match c.rest with
    | '\x7d' :: _ => return (.mapping entries, c.advance 1)
    | _ =>
      let (key, value, d) ← flowPair indent fuel c
      let entry := (key, value.getD .nothing)
      match d.rest with
      | ',' :: _ => flowEntries indent fuel (entries ++ [entry]) (d.advance 1)
      | '\x7d' :: _ => return (.mapping (entries ++ [entry]), d.advance 1)
      | _ => none

end

/-- A node that is no block mapping or sequence. -/
def leaf? (indent fuel : Nat) (c : Cursor) : Option (Node × Cursor) :=
  match c.rest with
  | '[' :: _ | '\x7b' :: _ => flowNode indent fuel c
  | '|' :: _ | '>' :: _ => BlockScalar.read? indent c
  | _ => scalar? .block indent c

mutual

/-- A node of a block, nothing if what follows is indented less than `indent`. A sequence that is
the value of a key may stand right under the key, at column `level`, and a block scalar always one
column further left. -/
def blockNode (indent : Nat) (level : Option Nat) : Nat → Cursor → Option (Node × Cursor)
  | 0, _ => none
  | fuel + 1, c =>
    if c.atEnd || c.atBoundary then some (.nothing, c)
    else if c.atEntry then
      if level = some c.column && c.blockStart then blockItems false c.column fuel [] c
      else if c.column < indent then some (.nothing, c)
      else if c.blockStart then blockItems true c.column fuel [] c
      else none
    else if c.column < indent && !(c.atBlockScalar && c.column + 1 = indent) then some (.nothing, c)
    else do
      let (node, d) ← leaf? indent fuel c
      let e := d.skip .block
      if e.atColon .block then
        if c.blockStart && c.reaches e then
          let (value, f) ← blockNode (c.column + 1) (some c.column) fuel ((e.advance 1).skip .block)
          blockEntries c.column fuel [(node, value)] f
        else none
      else return (node, d)

/-- The entries at column `level`; a sequence that is no value of a key (`own`) ends with its
indentation. -/
def blockItems (own : Bool) (level : Nat) : Nat → List Node → Cursor → Option (Node × Cursor)
  | 0, _, _ => none
  | fuel + 1, items, c =>
    let c := c.skip .block
    if c.atEnd || c.atBoundary || c.column < level then some (.sequence items, c)
    else if c.column = level && c.atEntry then
      if c.blockStart then do
        let d := { c.advance 1 with blockStart := true }
        let (item, e) ← blockNode (level + 1) none fuel (d.skip .block)
        blockItems own level fuel (items ++ [item]) e
      else none
    else if c.column = level && !own then some (.sequence items, c)
    else none

/-- The keys at column `level` and their values. -/
def blockEntries (level : Nat) : Nat → List (Node × Node) → Cursor → Option (Node × Cursor)
  | 0, _, _ => none
  | fuel + 1, entries, c =>
    let c := c.skip .block
    if c.atEnd || c.atBoundary || c.column < level then some (.mapping entries, c)
    else if level < c.column || !c.blockStart || c.atEntry then none
    else do
      let (key, d) ← leaf? (level + 1) fuel c
      let e := d.skip .block
      if e.atColon .block && c.reaches e then
        let (value, f) ← blockNode (level + 1) (some level) fuel ((e.advance 1).skip .block)
        blockEntries level fuel (entries ++ [(key, value)]) f
      else none

end

/-- Whether only end marks, comments and blank lines are left. -/
def endsDocument : Nat → Cursor → Bool
  | 0, _ => false
  | fuel + 1, c =>
    let c := c.skip .block
    c.atEnd || (c.atMark '.' && endsDocument fuel (c.advance 3))

/-- The characters that a document may hold. -/
def isPrintable (c : Char) : Bool :=
  c = '\t' || c = '\n' || c = '\r' || ('\x20' ≤ c && c ≤ '\x7e') || c = '\u0085' ||
    ('\u00a0' ≤ c && c ≠ '\ufffe' && c ≠ '\uffff')

/-- Every line break as a line feed. -/
def normalizeBreaks : List Char → List Char
  | '\r' :: '\n' :: cs => '\n' :: normalizeBreaks cs
  | '\r' :: cs | '\u0085' :: cs => '\n' :: normalizeBreaks cs
  | c :: cs => c :: normalizeBreaks cs
  | [] => []

/-- The one document of a text, or nothing for an empty text. -/
def read? (source : String) : Option Node := do
  guard (source.toList.all isPrintable)
  let cs := match source.toList with
    | '\ufeff' :: cs => normalizeBreaks cs
    | cs => normalizeBreaks cs
  let fuel := 4 * cs.length + 8
  let c := (Cursor.mk cs 0 0 true).skip .block
  guard (!c.atMark '.')
  let c := if c.atMark '-' then (c.advance 3).skip .block else c
  let (node, d) ← blockNode 0 none fuel c
  guard (endsDocument fuel d)
  return node

end ChordSymbol.Document
