import SqlFormat.Toml.Scalar

/-!
# Documents

A document is a sequence of lines: entries with keys, headers that say which table the entries after
them belong to, and comments. A table is defined once: by its header, by keys with dots, or as a value.
-/

namespace SqlFormat.Toml

/-! ## Tables under construction -/

/-- What stands under a key while a document is read. -/
inductive Item where
  | value (v : Value)
  /-- A table. It is `implicit` if only tables or entries inside it were named, and `dotted` if keys
  with dots named them. -/
  | table (implicit dotted : Bool) (entries : List (String × Item))
  /-- An array of tables, each with a header. -/
  | tables (elements : List (List (String × Item)))

/-- The entries of a table under construction. -/
abbrev Body := List (String × Item)

/-- A body with an entry in place of the one with the same key. -/
def Body.replace (body : Body) (key : String) (item : Item) : Body :=
  body.map fun (k, old) => if k == key then (k, item) else (k, old)

/-- Change the table at the end of a path, making the tables on the way that do not exist. Keys with
dots only go through tables that no header has defined. -/
def Body.change (viaDots : Bool) (f : (dotted : Bool) → Body → Option Body) :
    (dotted : Bool) → List String → Body → Option Body
  | dotted, [], body => f dotted body
  | _, key :: path, body =>
    match body.lookup key with
    | none => do
      let inner ← Body.change viaDots f viaDots path []
      return body ++ [(key, .table true viaDots inner)]
    | some (.value _) => none
    | some (.table implicit dotted entries) =>
      if viaDots && !implicit then none
      else do
        let inner ← Body.change viaDots f dotted path entries
        return body.replace key (.table implicit dotted inner)
    | some (.tables elements) =>
      match elements.getLast? with
      | none => none
      | some last => do
        let inner ← Body.change viaDots f false path last
        return body.replace key (.tables (elements.dropLast ++ [inner]))

/-- Add an entry. Its key must be new, and its table not be named in two ways. -/
def Body.addEntry (body : Body) (path : List String) (key : String) (item : Item) : Option Body :=
  body.change true
    (fun dotted inner =>
      if dotted == path.isEmpty || (inner.lookup key).isSome then none
      else some (inner ++ [(key, item)]))
    false path

/-- Look under a path; nothing if the way is blocked. -/
def Body.find? : List String → Body → Option (Option Item)
  | [], _ => some none
  | [key], body => some (body.lookup key)
  | key :: path, body =>
    match body.lookup key with
    | none => some none
    | some (.value _) => none
    | some (.table _ _ entries) => Body.find? path entries
    | some (.tables elements) => (elements.getLast?).bind (Body.find? path)

mutual

/-- The finished value of an item. -/
def Item.finish : Item → Value
  | .value v => v
  | .table _ _ entries => .table (finishEntries entries)
  | .tables elements => .array (finishTables elements)

/-- The finished entries of a table. -/
def finishEntries : List (String × Item) → Table
  | [] => []
  | (key, item) :: rest => Table.insert key item.finish (finishEntries rest)

/-- The finished tables of an array. -/
def finishTables : List (List (String × Item)) → List Value
  | [] => []
  | entries :: rest => .table (finishEntries entries) :: finishTables rest

end

/-! ## Keys -/

/-- The characters of keys without quotes. -/
def isBareKeyChar (c : Char) : Bool :=
  c.isAlphanum || c == '_' || c == '-'

/-- A key without dots. -/
def simpleKey (cs : List Char) : Option (String × List Char) :=
  match lineString cs with
  | some read => some read
  | none =>
    let run := cs.takeWhile isBareKeyChar
    if run.isEmpty then none else some (String.ofList run, cs.drop run.length)

/-- The text after spaces and tabs. -/
def skipGap (cs : List Char) : List Char :=
  cs.dropWhile isGap

/-- The parts of a key with dots between them, however many. -/
def keyParts (cs : List Char) : Option (List String × List Char) :=
  match simpleKey cs with
  | none => none
  | some (key, left) =>
    match skipGap left with
    | '.' :: rest =>
      if (skipGap rest).length < cs.length then
        (keyParts (skipGap rest)).map fun (keys, left) => (key :: keys, left)
      else none
    | _ => some ([key], left)
termination_by cs.length

/-- The depth to which arrays and tables may be nested inside each other. -/
def maxNesting : Nat := 79

/-- The parts of a key, each of which is a table inside the one before. -/
def keyPath (cs : List Char) : Option (List String × List Char) :=
  (keyParts cs).filter fun (keys, _) => keys.length ≤ maxNesting

/-! ## Values -/

/-- The text after blanks, line breaks and comments. -/
def skipFiller (inComment : Bool) : List Char → Option (List Char)
  | [] => some []
  | '\n' :: cs => skipFiller false cs
  | '\r' :: '\n' :: cs => skipFiller false cs
  | c :: cs =>
    if inComment then
      if isText c then skipFiller true cs else none
    else if isGap c then skipFiller false cs
    else if c == '#' then skipFiller true cs
    else some (c :: cs)

/-- The values of an array, up to its closing bracket. -/
def arrayItems (item : List Char → Option (Value × List Char)) (cs : List Char) : Option (List Value × List Char) :=
  match item cs with
  | none => none
  | some (v, left) =>
    match skipFiller false left with
    | some (']' :: rest) => some ([v], rest)
    | some (',' :: rest) =>
      match skipFiller false rest with
      | some (']' :: rest) => some ([v], rest)
      | some rest =>
        if rest.length < cs.length then
          (arrayItems item rest).map fun (vs, left) => (v :: vs, left)
        else none
      | none => none
    | _ => none
termination_by cs.length

/-- A key, an equals sign and a value. -/
def entry (item : List Char → Option (Value × List Char)) (cs : List Char) : Option ((List String × Value) × List Char) := do
  let (keys, left) ← keyPath cs
  let '=' :: left := skipGap left | none
  let (v, left) ← item (skipGap left)
  return ((keys, v), left)

/-- A body with one more entry, under a key with dots. -/
def Body.add (body : Body) (keys : List String) (v : Value) : Option Body :=
  match keys.getLast? with
  | some key => body.addEntry keys.dropLast key (.value v)
  | none => none

/-- The entries of a table on one line, up to its closing brace. -/
def inlineEntries (item : List Char → Option (Value × List Char)) (body : Body) (cs : List Char) : Option (Body × List Char) :=
  match entry item cs with
  | none => none
  | some ((keys, v), left) =>
    match body.add keys v with
    | none => none
    | some body =>
      match skipGap left with
      | '\x7d' :: rest => some (body, rest)
      | ',' :: rest =>
        if (skipGap rest).length < cs.length then inlineEntries item body (skipGap rest) else none
      | _ => none
termination_by cs.length

/-- A value that holds at most `depth` levels of others. -/
def value : (depth : Nat) → List Char → Option (Value × List Char)
  | 0, cs =>
    match cs with
    | '[' :: _ | '\x7b' :: _ => none
    | '\x22' :: _ | '\x27' :: _ => (anyString cs).map fun (s, left) => (.string s, left)
    | _ => plain cs
  | depth + 1, cs =>
    match cs with
    | '[' :: rest =>
      match skipFiller false rest with
      | some (']' :: rest) => some (.array [], rest)
      | some rest => (arrayItems (value depth) rest).map fun (vs, left) => (.array vs, left)
      | none => none
    | '\x7b' :: rest =>
      match skipGap rest with
      | '\x7d' :: rest => some (.table [], rest)
      | rest =>
        (inlineEntries (value depth) [] rest).map fun (body, left) =>
          (.table (finishEntries body), left)
    | '\x22' :: _ | '\x27' :: _ => (anyString cs).map fun (s, left) => (.string s, left)
    | _ => plain cs

/-! ## Lines -/

/-- A document read so far: the tables that are finished, and the one that entries go to, with the
path of its header. -/
structure Draft where
  root : Body
  current : Body
  path : List String
  isElement : Bool

/-- Nothing has been read. -/
def Draft.start : Draft := ⟨[], [], [], false⟩

/-- Put the current table in its place. -/
def Draft.close (d : Draft) : Option Body :=
  match d.path.getLast? with
  | none => some d.current
  | some key =>
    d.root.change false
      (fun _ body =>
        if d.isElement then
          match body.lookup key with
          | none => some (body ++ [(key, .tables [d.current])])
          | some (.tables elements) =>
            some (body.replace key (.tables (elements ++ [d.current])))
          | some _ => none
        else
          match body.lookup key with
          | none => some (body ++ [(key, .table false false d.current)])
          | some (.table true _ _) => some (body.replace key (.table false false d.current))
          | some _ => none)
      false d.path.dropLast

/-- Start the table with a header. It may have been named only by tables inside it. -/
def Draft.openTable (d : Draft) (path : List String) : Option Draft := do
  let root ← d.close
  match ← root.find? path with
  | none => return ⟨root, [], path, false⟩
  | some (.table true false entries) => return ⟨root, entries, path, false⟩
  | some _ => none

/-- Start one more element of an array of tables. -/
def Draft.openElement (d : Draft) (path : List String) : Option Draft := do
  let root ← d.close
  match ← root.find? path with
  | none | some (.tables _) => return ⟨root, [], path, true⟩
  | some _ => none

/-- Add an entry to the current table. -/
def Draft.add (d : Draft) (keys : List String) (v : Value) : Option Draft :=
  (d.current.add keys v).map fun body => { d with current := body }

/-- The path in a header, up to its closing brackets. -/
def header (cs : List Char) (closing : List Char) : Option (List String × List Char) := do
  let (keys, left) ← keyPath (skipGap cs)
  let left := skipGap left
  if closing.isPrefixOf left then return (keys, left.drop closing.length) else none

/-- Read a header or an entry. -/
def Draft.statement (d : Draft) (cs : List Char) : Option (Draft × List Char) :=
  match cs with
  | '[' :: '[' :: rest => do
    let (path, left) ← header rest [']', ']']
    return (← d.openElement path, left)
  | '[' :: rest => do
    let (path, left) ← header rest [']']
    return (← d.openTable path, left)
  | _ => do
    let ((keys, v), left) ← entry (value maxNesting) cs
    return (← d.add keys v, left)

/-- What is left after the end of a line: gaps, a comment, and a line break if the text goes on. -/
def endOfLine (inComment : Bool) : List Char → Option (List Char)
  | [] => some []
  | '\n' :: cs => some cs
  | '\r' :: '\n' :: cs => some cs
  | c :: cs =>
    if inComment then
      if isText c then endOfLine true cs else none
    else if isGap c then endOfLine false cs
    else if c == '#' then endOfLine true cs
    else none

/-- Read all lines. -/
def Draft.lines (d : Draft) (cs : List Char) : Option Body :=
  match skipFiller false cs with
  | none => none
  | some [] => d.close
  | some (c :: rest) =>
    match d.statement (c :: rest) with
    | none => none
    | some (d, left) =>
      match endOfLine false left with
      | none => none
      | some left => if left.length < cs.length then d.lines left else none
termination_by cs.length

/-- Read a document. A byte order mark may stand before it. -/
def parse? (s : String) : Option Table :=
  let cs := match s.toList with
    | '\uFEFF' :: cs => cs
    | cs => cs
  (Draft.start.lines cs).map finishEntries

end SqlFormat.Toml
