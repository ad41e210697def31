import SqlFormat.Token

/-!
# Parameters

Values that take the place of placeholders. A set of parameters is either a list, looked up by
index, or a table, looked up by name; a placeholder of the other form is left alone.
-/

namespace SqlFormat

/-- The values of placeholders. -/
inductive Parameters where
  | positional (values : List String)
  /-- The names are in increasing order and differ from each other. -/
  | named (values : List (String × String))
deriving DecidableEq, Repr

namespace Parameters

/-- No values. -/
def empty : Parameters := .positional []

/-- There are no values. -/
def isEmpty : Parameters → Bool
  | positional values => values.isEmpty
  | named values => values.isEmpty

/-- The value for a key. -/
def lookup? : Parameters → PlaceholderKey → Option String
  | positional values, .index (some i) => values[i]?
  | named values, .name s => values.lookup s
  | _, _ => none

/-- A table with one more entry, which takes the place of one of the same name. -/
def insertNamed (key value : String) : List (String × String) → List (String × String)
  | [] => [(key, value)]
  | (k, v) :: rest =>
    if key = k then (key, value) :: rest
    else if key < k then (key, value) :: (k, v) :: rest
    else (k, v) :: insertNamed key value rest

/-- A table from its entries; of two entries of one name the later counts. -/
def ofPairs (pairs : List (String × String)) : Parameters :=
  .named (pairs.foldl (fun table (k, v) => insertNamed k v table) [])

/-- A placeholder with its value in place of its text. Other tokens, and placeholders without a
value, are unchanged. -/
def substitute (params : Parameters) (token : Token) : Token :=
  if token.kind.isPlaceholder then
    match token.key.bind params.lookup? with
    | some value => { token with text := value }
    | none => token
  else token

end Parameters

end SqlFormat
