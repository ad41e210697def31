/-!
# Values of configuration files

Configuration files are written in TOML. Of numbers only integers matter to the program, so floats
keep their text; dates and times are kept in their canonical spelling.
-/

namespace SqlFormat.Toml

/-- A value of a configuration file. -/
inductive Value where
  | string (s : String)
  | integer (n : Int)
  | float (text : String)
  | boolean (b : Bool)
  | datetime (text : String)
  | array (values : List Value)
  /-- The keys are in increasing order and differ from each other. -/
  | table (entries : List (String × Value))

/-! ## Comparison -/

mutual

/-- The values are the same, part by part. -/
def Value.same : Value → Value → Bool
  | .string s, .string t => s == t
  | .integer m, .integer n => m == n
  | .float s, .float t => s == t
  | .boolean a, .boolean b => a == b
  | .datetime s, .datetime t => s == t
  | .array vs, .array ws => sameAll vs ws
  | .table es, .table fs => sameEntries es fs
  | _, _ => false

def Value.sameAll : List Value → List Value → Bool
  | [], [] => true
  | v :: vs, w :: ws => v.same w && sameAll vs ws
  | _, _ => false

def Value.sameEntries : List (String × Value) → List (String × Value) → Bool
  | [], [] => true
  | (k, v) :: es, (l, w) :: fs => k == l && v.same w && sameEntries es fs
  | _, _ => false

end

mutual

theorem Value.same_iff : (v w : Value) → (v.same w = true ↔ v = w)
  | .string s, w => by cases w <;> simp [Value.same]
  | .integer n, w => by cases w <;> simp [Value.same]
  | .float s, w => by cases w <;> simp [Value.same]
  | .boolean b, w => by cases w <;> simp [Value.same]
  | .datetime s, w => by cases w <;> simp [Value.same]
  | .array vs, w => by cases w <;> simp [Value.same, sameAll_iff vs]
  | .table es, w => by cases w <;> simp [Value.same, sameEntries_iff es]

theorem Value.sameAll_iff : (vs ws : List Value) → (sameAll vs ws = true ↔ vs = ws)
  | [], ws => by cases ws <;> simp [Value.sameAll]
  | v :: vs, ws => by cases ws <;> simp [Value.sameAll, same_iff v, sameAll_iff vs]

theorem Value.sameEntries_iff :
    (es fs : List (String × Value)) → (sameEntries es fs = true ↔ es = fs)
  | [], fs => by cases fs <;> simp [Value.sameEntries]
  | (k, v) :: es, fs => by
    cases fs <;> simp [Value.sameEntries, same_iff v, sameEntries_iff es, Prod.ext_iff]

end

instance : DecidableEq Value := fun v w => decidable_of_iff _ (Value.same_iff v w)

/-! ## Tables -/

/-- The entries of a table, in the order of their keys. -/
abbrev Table := List (String × Value)

/-- A table with one more entry, which takes the place of one with the same key. -/
def Table.insert (key : String) (value : Value) : Table → Table
  | [] => [(key, value)]
  | (k, v) :: rest =>
    if key = k then (key, value) :: rest
    else if key < k then (key, value) :: (k, v) :: rest
    else (k, v) :: Table.insert key value rest

end SqlFormat.Toml
