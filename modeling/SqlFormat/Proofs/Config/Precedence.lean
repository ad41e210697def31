import Mathlib
import SqlFormat.CommandLine
import SqlFormat.Proofs.Text.Count

/-!
# The precedence of configuration layers

A table, the environment, and the command line each set some of the settings. A layer that sets
something wrong is an error. Otherwise every setting has the value of the highest layer that sets it,
and the standard one if none does.

Results: `Layer.ofTable_eq_ok`, `Layer.ofEnvironment_eq_ok`, `Layer.indentOfVariable_eq`,
`CommandLine.layerOf_eq_ok`, `Config.load_precedence`.
-/

namespace SqlFormat

/-! ## Computations that may fail -/

theorem pure_eq_ok {ε α : Type} {a b : α} : (pure a : Except ε α) = .ok b ↔ a = b :=
  Except.ok.injEq a b ▸ Iff.rfl

theorem bind_eq_ok {ε α β : Type} {x : Except ε α} {f : α → Except ε β} {b : β} :
    (x >>= f) = .ok b ↔ ∃ a, x = .ok a ∧ f a = .ok b := by
  cases x <;> simp [bind, Except.bind]

theorem map_eq_ok {ε α β : Type} {x : Except ε α} {f : α → β} {b : β} :
    x.map f = .ok b ↔ ∃ a, x = .ok a ∧ f a = b := by
  cases x <;> simp [Except.map]

theorem mapM_eq_ok {ε α β : Type} {f : α → Except ε β} {get : α → Option β}
    (hf : ∀ a b, f a = .ok b ↔ get a = some b) {o : Option α} {r : Option β} :
    o.mapM f = .ok r ↔ (∀ a, o = some a → (get a).isSome) ∧ r = o.bind get := by
  cases o with
  | none =>
    constructor
    · exact fun h => ⟨fun _ ha => absurd ha (Option.some_ne_none _).symm, (Except.ok.inj h).symm⟩
    · rintro ⟨-, rfl⟩
      rfl
  | some a =>
    have hmap : (some a).mapM f = (f a).map some := by
      rw [Option.mapM_some]
      cases f a <;> rfl
    simp only [hmap, map_eq_ok, hf, Option.bind_some]
    constructor
    · rintro ⟨b, hb, rfl⟩
      refine ⟨fun a' ha' => ?_, hb.symm⟩
      rw [← Option.some.inj ha', hb]
      rfl
    · rintro ⟨hsome, rfl⟩
      obtain ⟨b, hb⟩ := Option.isSome_iff_exists.mp (hsome a rfl)
      exact ⟨b, hb, hb.symm⟩

theorem list_mapM_eq_ok {ε α β : Type} {f : α → Except ε β} {get : α → Option β}
    (hf : ∀ a b, f a = .ok b ↔ get a = some b) {as : List α} {bs : List β} :
    as.mapM f = .ok bs ↔ (∀ a ∈ as, (get a).isSome) ∧ as.filterMap get = bs := by
  induction as generalizing bs with
  | nil => simp [pure_eq_ok]
  | cons a as ih =>
    rw [List.mapM_cons]
    simp only [bind_eq_ok, ih, hf, pure_eq_ok, List.forall_mem_cons, List.filterMap_cons]
    cases get a with
    | none => simp
    | some b => simp

/-! ## Values of options -/

/-- A name that a file or the environment may give for a dialect. -/
def Layer.dialectName? (s : String) : Option String :=
  if s = "auto" || (Dialect.ofName? s).isSome then some s else none

/-- A name that the command line may give for a dialect. -/
def CommandLine.dialectName? (s : String) : Option String :=
  if Settings.detectsDialect s || (Dialect.ofName? s).isSome then some s else none

namespace Toml.Value

/-- A string. -/
def string? : Value → Option String
  | .string s => some s
  | _ => none

/-- A boolean. -/
def boolean? : Value → Option Bool
  | .boolean b => some b
  | _ => none

/-- An integer that is not negative. -/
def count? : Value → Option Nat
  | .integer n => if 0 ≤ n then some n.toNat else none
  | _ => none

/-- A string that names a dialect, or `auto`. -/
def dialect? (v : Value) : Option String :=
  v.string?.bind Layer.dialectName?

/-- A string that names a case of keywords. -/
def keywordCase? (v : Value) : Option KeywordCase :=
  v.string?.bind KeywordCase.ofName?

/-- The strings of an array. -/
def strings? : Value → Option (List String)
  | .array values => some (values.filterMap string?)
  | _ => none

/-- An array of texts, or a table of texts. -/
def parameters? : Value → Option Parameters
  | .array values => (values.mapM Layer.text?).map .positional
  | .table entries =>
    (entries.mapM fun ((k, v) : String × Value) => (Layer.text? v).map (k, ·)).map .named
  | _ => none

/-- The value is one that the option takes. There are no other options. -/
def Suits (v : Value) : String → Prop
  | "dialect" => v.dialect?.isSome
  | "indent" => v.string?.isSome
  | "indent_width" => v.count?.isSome
  | "use_tabs" => v.boolean?.isSome
  | "keyword_case" => v.keywordCase?.isSome
  | "lines_between_queries" => v.count?.isSome
  | "max_line_length" => v.count?.isSome
  | "align_columns" => v.boolean?.isSome
  | "align_assignments" => v.boolean?.isSome
  | "align_values" => v.boolean?.isSome
  | "preserve_comment_indent" => v.boolean?.isSome
  | "exclude" => v.strings?.isSome
  | "params" => v.parameters?.isSome
  | _ => False

end Toml.Value

namespace Toml.Table

/-- All entries are options with values that they take. -/
def Valid (table : Table) : Prop :=
  ∀ key v, table.lookup key = some v → v.Suits key

/-- What a table sets an option to. -/
def get {α : Type} (table : Table) (key : String) (read : Value → Option α) : Option α :=
  (table.lookup key).bind read

/-- The indentation that a table sets: tabs before a width, and a width before a text. Not to use tabs
sets nothing. -/
def indent? (table : Table) : Option String :=
  if table.get "use_tabs" Value.boolean? = some true then some "\t"
  else match table.get "indent_width" Value.count? with
    | some width => some (Style.spaces width)
    | none => table.get "indent" Value.string?

end Toml.Table

namespace Layer

open Toml (Table Value)

variable {table : Table} {key : String}

theorem string_eq_ok {v : Value} {s : String} : string key v = .ok s ↔ v.string? = some s := by
  cases v <;> simp [string, Value.string?]

theorem boolean_eq_ok {v : Value} {b : Bool} : boolean key v = .ok b ↔ v.boolean? = some b := by
  cases v <;> simp [boolean, Value.boolean?]

theorem count_eq_ok {v : Value} {n : Nat} : count key v = .ok n ↔ v.count? = some n := by
  cases v with
  | integer i => by_cases h : 0 ≤ i <;> simp [count, Value.count?, h]
  | _ => simp [count, Value.count?]

theorem strings_eq_ok {v : Value} {l : List String} :
    strings key v = .ok l ↔ v.strings? = some l := by
  cases v with
  | array values =>
    simp only [strings, Value.strings?, Except.ok.injEq, Option.some.injEq]
    rfl
  | _ => simp [strings, Value.strings?]

theorem checkDialect_eq_ok {s t : String} : checkDialect s = .ok t ↔ dialectName? s = some t := by
  unfold checkDialect dialectName?
  split <;> simp

theorem checkCase_eq_ok {s : String} {c : KeywordCase} :
    checkCase s = .ok c ↔ KeywordCase.ofName? s = some c := by
  unfold checkCase
  split <;> simp_all

theorem dialect_eq_ok {v : Value} {s : String} :
    (do checkDialect (← string key v)) = .ok s ↔ v.dialect? = some s := by
  simp only [bind_eq_ok, string_eq_ok, checkDialect_eq_ok, Value.dialect?, Option.bind_eq_some_iff]

theorem keywordCase_eq_ok {v : Value} {c : KeywordCase} :
    (do checkCase (← string key v)) = .ok c ↔ v.keywordCase? = some c := by
  simp only [bind_eq_ok, string_eq_ok, checkCase_eq_ok, Value.keywordCase?, Option.bind_eq_some_iff]

theorem parameters_eq_ok {v : Value} {p : Parameters} :
    parameters v = .ok p ↔ v.parameters? = some p := by
  cases v with
  | array values => cases h : values.mapM text? <;> simp [parameters, Value.parameters?, h]
  | table entries =>
    simp only [parameters, Value.parameters?]
    generalize (entries.mapM _ : Option (List (String × String))) = read
    cases read <;> simp
  | _ => simp [parameters, Value.parameters?]

/-- An option is read if its value, where it has one, is one that it takes. -/
theorem option_eq_ok {α : Type} {read : Value → Except Error α} {get : Value → Option α}
    (hread : ∀ v a, read v = .ok a ↔ get v = some a) {r : Option α} :
    option table key read = .ok r ↔
      (∀ v, table.lookup key = some v → (get v).isSome) ∧ r = table.get key get := by
  have hoption : option table key read = (table.lookup key).mapM read := by
    unfold option
    cases table.lookup key with
    | none => rfl
    | some v =>
      rw [Option.mapM_some]
      dsimp only
      cases read v <;> rfl
  rw [hoption, mapM_eq_ok hread, Table.get]

/-- What a table sets. -/
def sets (table : Table) : Layer where
  dialectName := table.get "dialect" Value.dialect?
  indent := table.indent?
  keywordCase := table.get "keyword_case" Value.keywordCase?
  linesBetweenQueries := table.get "lines_between_queries" Value.count?
  maxLineLength := table.get "max_line_length" Value.count?
  alignColumns := table.get "align_columns" Value.boolean?
  alignAssignments := table.get "align_assignments" Value.boolean?
  alignValues := table.get "align_values" Value.boolean?
  preserveCommentIndent := table.get "preserve_comment_indent" Value.boolean?
  exclude := table.get "exclude" Value.strings?
  params := table.get "params" Value.parameters?

theorem mem_options_of_suits {v : Value} (h : v.Suits key) : key ∈ options := by
  unfold Value.Suits at h
  split at h <;> first | exact h.elim | decide

theorem exists_lookup_of_mem {entry : String × Value} (h : entry ∈ table) :
    ∃ v, table.lookup entry.1 = some v := by
  induction table with
  | nil => cases h
  | cons first table ih =>
    rw [List.lookup_cons]
    split
    · exact ⟨_, rfl⟩
    · next hne =>
      obtain rfl | h := List.mem_cons.mp h
      · simp at hne
      · exact ih h

theorem mem_of_lookup {v : Value} (h : table.lookup key = some v) : (key, v) ∈ table := by
  obtain ⟨before, after, rfl, -⟩ := List.lookup_eq_some_iff.mp h
  simp

/-- A table without unknown options is valid if each option has a value that it takes. -/
theorem valid_iff (h : ∀ entry ∈ table, entry.1 ∈ options) :
    table.Valid ↔ ∀ key ∈ options, ∀ v, table.lookup key = some v → v.Suits key := by
  constructor
  · exact fun hvalid key _ v hv => hvalid key v hv
  · exact fun hall key v hv => hall key (h _ (mem_of_lookup hv)) v hv

/-- A table is read just if it is valid, and then into what it sets. -/
theorem ofTable_eq_ok {layer : Layer} :
    ofTable table = .ok layer ↔ table.Valid ∧ layer = sets table := by
  unfold ofTable
  cases hfind : table.find? fun entry => !options.contains entry.1 with
  | some entry =>
    have hunknown : entry.1 ∉ options := by simpa using List.find?_some hfind
    refine iff_of_false (fun h => by cases h) fun h => hunknown ?_
    obtain ⟨v, hv⟩ := exists_lookup_of_mem (List.mem_of_find?_eq_some hfind)
    exact mem_options_of_suits (h.1 _ v hv)
  | none =>
    have hknown : ∀ entry ∈ table, entry.1 ∈ options := by
      intro entry hentry
      simpa using List.find?_eq_none.mp hfind entry hentry
    have hindent : indentOf (table.get "indent" Value.string?) (table.get "indent_width" Value.count?)
        (table.get "use_tabs" Value.boolean?) = table.indent? := by
      unfold indentOf Table.indent?
      cases table.get "indent_width" Value.count? <;> rfl
    simp only [bind_eq_ok, option_eq_ok fun v s => dialect_eq_ok (v := v) (s := s),
      option_eq_ok fun v s => string_eq_ok (v := v) (s := s),
      option_eq_ok fun v n => count_eq_ok (v := v) (n := n),
      option_eq_ok fun v b => boolean_eq_ok (v := v) (b := b),
      option_eq_ok fun v l => strings_eq_ok (v := v) (l := l),
      option_eq_ok fun v c => keywordCase_eq_ok (v := v) (c := c),
      option_eq_ok fun v p => parameters_eq_ok (v := v) (p := p), and_assoc, exists_and_left,
      exists_eq_left, pure_eq_ok, hindent]
    rw [valid_iff hknown, eq_comm (a := layer)]
    simp only [options, List.forall_mem_cons, List.not_mem_nil, false_imp_iff, implies_true,
      and_true, and_assoc, Value.Suits]
    rfl

/-! ## The environment -/

/-- The variables that are read have values that they take. -/
structure Environment.Valid (env : Environment) : Prop where
  dialect : ∀ s, env.lookup "SQLPRETTY_DIALECT" = some s → (dialectName? s).isSome
  keywordCase : ∀ s, env.lookup "SQLPRETTY_KEYWORD_CASE" = some s → (KeywordCase.ofName? s).isSome

/-- **The indentation that a variable sets**: a numeral asks for so many spaces, two words for a tab, and
anything else stands for itself. -/
theorem indentOfVariable_eq (s : String) :
    (∀ n < 2 ^ 64, Text.Numeral n s.toList → indentOfVariable s = Style.spaces n) ∧
      (s ∈ ["tab", "tabs"] → indentOfVariable s = "\t") ∧
      (s ∉ ["tab", "tabs"] → (∀ n < 2 ^ 64, ¬Text.Numeral n s.toList) → indentOfVariable s = s) := by
  refine ⟨fun n hn hnumeral => ?_, fun hword => ?_, fun hword hnumeral => ?_⟩
  · rw [indentOfVariable, Text.count?_eq_some_iff.mpr ⟨hnumeral, hn⟩]
  · simp only [List.mem_cons, List.not_mem_nil, or_false] at hword
    rcases hword with rfl | rfl <;> decide
  · have hnone : Text.count? s = none := by
      refine Option.eq_none_iff_forall_ne_some.mpr fun n hcount => ?_
      obtain ⟨h, hn⟩ := Text.count?_eq_some_iff.mp hcount
      exact hnumeral n hn h
    simp only [List.mem_cons, List.not_mem_nil, or_false, not_or] at hword
    rw [indentOfVariable, hnone]
    simp [hword]

/-- What the environment sets. -/
def setsEnvironment (env : Environment) : Layer :=
  { empty with
    dialectName := (env.lookup "SQLPRETTY_DIALECT").bind dialectName?
    keywordCase := (env.lookup "SQLPRETTY_KEYWORD_CASE").bind KeywordCase.ofName?
    indent := (env.lookup "SQLPRETTY_INDENT").map indentOfVariable }

/-- The environment is read just if it is valid, and then into what it sets. -/
theorem ofEnvironment_eq_ok {env : Environment} {layer : Layer} :
    ofEnvironment env = .ok layer ↔ env.Valid ∧ layer = setsEnvironment env := by
  unfold ofEnvironment
  simp only [bind_eq_ok, pure_eq_ok, mapM_eq_ok fun s t => checkDialect_eq_ok (s := s) (t := t),
    mapM_eq_ok fun s c => checkCase_eq_ok (s := s) (c := c), and_assoc, exists_and_left,
    exists_eq_left]
  rw [eq_comm (a := layer)]
  exact ⟨fun h => ⟨⟨h.1, h.2.1⟩, h.2.2⟩, fun h => ⟨h.1.dialect, h.1.keywordCase, h.2⟩⟩

end Layer

/-! ## The command line -/

namespace CommandLine

/-- The parameters that are given: a list if none of them has a name, and a table if all have. -/
def parameters? (given : List String) : Option Parameters :=
  if given.all fun s => (namedPair? s).isNone then some (.positional given)
  else if given.all fun s => (namedPair? s).isSome then
    some (.ofPairs (given.filterMap namedPair?))
  else none

/-- The values that are given are ones that their options take. -/
structure Options.Valid (o : Options) : Prop where
  dialect : ∀ s, o.dialect = some s → (dialectName? s).isSome
  params : (parameters? o.params).isSome

/-- What is given for parameters, if anything is. -/
def Options.params? (o : Options) : Option Parameters :=
  if o.params.isEmpty then none else parameters? o.params

/-- What is given for the indentation: tabs before a width. -/
def Options.indent? (o : Options) : Option String :=
  if o.has .tabs then some "\t" else o.indentWidth.map Style.spaces

/-- The patterns that are given, if any are. -/
def Options.exclude? (o : Options) : Option (List String) :=
  if o.exclude.isEmpty then none else some o.exclude

theorem checkDialect_eq_ok {s t : String} : checkDialect s = .ok t ↔ dialectName? s = some t := by
  unfold checkDialect dialectName?
  split <;> simp

theorem parameters_eq_ok {given : List String} {p : Parameters} :
    parameters given = .ok p ↔ parameters? given = some p := by
  unfold parameters parameters?
  split
  · simp
  · rw [bind_eq_ok]
    refine (exists_congr fun pairs => and_congr_left'
      (@list_mapM_eq_ok _ _ _ _ namedPair? (fun s pair => ?_) given pairs)).trans ?_
    · cases namedPair? s <;> simp
    · constructor
      · rintro ⟨_, ⟨hall, rfl⟩, h⟩
        rw [if_pos (List.all_eq_true.mpr hall), pure_eq_ok.mp h]
      · intro h
        split at h
        · next hall =>
          exact ⟨_, ⟨List.all_eq_true.mp hall, rfl⟩, pure_eq_ok.mpr (Option.some.inj h)⟩
        · cases h

/-- What the command line sets. -/
def setsOptions (o : Options) : Layer where
  dialectName := o.dialect.bind dialectName?
  indent := o.indent?
  keywordCase := o.keywordCase
  linesBetweenQueries := o.linesBetweenQueries
  maxLineLength := o.maxLineLength
  alignColumns := switch o .alignColumns
  alignAssignments := switch o .alignAssignments
  alignValues := switch o .alignValues
  preserveCommentIndent := switch o .preserveCommentIndent
  exclude := o.exclude?
  params := o.params?

/-- The options are read just if they are valid, and then into what they set. -/
theorem layerOf_eq_ok {o : Options} {layer : Layer} :
    layerOf o = .ok layer ↔ o.Valid ∧ layer = setsOptions o := by
  unfold layerOf
  simp only [bind_eq_ok, mapM_eq_ok fun s t => checkDialect_eq_ok (s := s) (t := t), and_assoc,
    exists_and_left, exists_eq_left]
  rw [show o.Valid ↔ (∀ s, o.dialect = some s → (dialectName? s).isSome) ∧
    (parameters? o.params).isSome from ⟨fun h => ⟨h.1, h.2⟩, fun h => ⟨h.1, h.2⟩⟩, and_assoc]
  refine and_congr_right fun _ => ?_
  cases hempty : o.params.isEmpty with
  | true =>
    rw [List.isEmpty_iff.mp hempty, if_pos rfl, eq_comm (a := layer)]
    exact (pure_eq_ok.trans (by rw [setsOptions, Options.params?, if_pos hempty]; rfl)).trans
      (and_iff_right rfl).symm
  | false =>
    have hparams : o.params? = parameters? o.params := if_neg (by rw [hempty]; exact Bool.false_ne_true)
    have hsets : ∀ p, parameters? o.params = some p → setsOptions o = { setsOptions o with params := some p } := by
      intro p hp
      rw [← hp, ← hparams]
      rfl
    rw [if_neg Bool.false_ne_true, bind_eq_ok]
    constructor
    · rintro ⟨_, h, hlayer⟩
      obtain ⟨p, hp, rfl⟩ := map_eq_ok.mp h
      have hp := parameters_eq_ok.mp hp
      refine ⟨by rw [hp]; rfl, ?_⟩
      rw [hsets p hp, ← pure_eq_ok.mp hlayer]
      rfl
    · rintro ⟨hsome, rfl⟩
      obtain ⟨p, hp⟩ := Option.isSome_iff_exists.mp hsome
      refine ⟨some p, map_eq_ok.mpr ⟨p, parameters_eq_ok.mpr hp, rfl⟩, pure_eq_ok.mpr ?_⟩
      rw [hsets p hp]
      rfl

end CommandLine

/-! ## The layers together -/

namespace Config

open Toml (Table Value)

/-- The table that the text of a file holds. -/
def tableOfText (isShared : Bool) (text : String) : Except Error Table :=
  match Toml.parse? text with
  | some table => .ok (ownTable isShared table)
  | none => .error (.config .unparsable)

/-- The table of a file. -/
def tableOfFile (tree : FileTree) (path : Path) : Except Error Table :=
  match tree.read path with
  | .ok text => tableOfText (path.fileName? == some "pyproject.toml") text
  | .error fault => .error (.file fault)

/-- The table of the user's file; without a file it is empty. -/
def userTable (source : Source) : Except Error Table :=
  match source.userFile with
  | none => .ok []
  | some bytes =>
    match Text.decode? bytes with
    | some text => tableOfText false text
    | none => .error (.file .notText)

/-- The table of the project's file; without a file it is empty. -/
def projectTable (source : Source) (inputs : List Path) : Except Error Table :=
  match projectFile? source.tree inputs with
  | none => .ok []
  | some path => tableOfFile source.tree path

/-- The table of a file that was asked for; without a file it is empty. -/
def explicitTable (source : Source) : Option Path → Except Error Table
  | none => .ok []
  | some path =>
    if source.tree.pathExists path then tableOfFile source.tree path
    else .error (.config (.fileMissing path.text))

theorem ofTable_nil : Layer.ofTable [] = .ok .empty :=
  rfl

theorem layerOfText_eq (isShared : Bool) (text : String) :
    layerOfText isShared text = tableOfText isShared text >>= Layer.ofTable := by
  unfold layerOfText tableOfText
  cases Toml.parse? text <;> rfl

theorem layerOfFile_eq (tree : FileTree) (path : Path) :
    layerOfFile tree path = tableOfFile tree path >>= Layer.ofTable := by
  unfold layerOfFile tableOfFile
  cases tree.read path with
  | ok text => exact layerOfText_eq _ _
  | error fault => rfl

theorem userLayer_eq (source : Source) : userLayer source = userTable source >>= Layer.ofTable := by
  unfold userLayer userTable
  cases source.userFile with
  | none => exact ofTable_nil.symm
  | some bytes =>
    dsimp only
    cases Text.decode? bytes with
    | none => rfl
    | some text => exact layerOfText_eq _ _

theorem projectLayer_eq (source : Source) (inputs : List Path) :
    projectLayer source inputs = projectTable source inputs >>= Layer.ofTable := by
  unfold projectLayer projectTable
  cases projectFile? source.tree inputs with
  | none => exact ofTable_nil.symm
  | some path => exact layerOfFile_eq _ _

theorem explicitLayer_eq (source : Source) (explicit : Option Path) :
    explicitLayer source explicit = explicitTable source explicit >>= Layer.ofTable := by
  unfold explicitLayer explicitTable
  cases explicit with
  | none => exact ofTable_nil.symm
  | some path =>
    dsimp only
    split
    · exact layerOfFile_eq _ _
    · rfl

/-- The value of the highest layer that sets one; the highest layer comes first. -/
def highest {α : Type} (layers : List (Option α)) (standard : α) : α :=
  (layers.findSome? id).getD standard

theorem highest_nil {α : Type} (standard : α) : highest [] standard = standard :=
  rfl

theorem highest_cons {α : Type} (layer : Option α) (layers : List (Option α)) (standard : α) :
    highest (layer :: layers) standard = layer.getD (highest layers standard) := by
  unfold highest
  cases layer <;> rfl

/-- The layers that a call puts over each other. -/
structure Layers where
  user : Table
  project : Table
  asked : Table
  environment : Layer.Environment
  options : CommandLine.Options

namespace Layers

/-- Nothing that any layer sets is wrong. -/
structure Valid (layers : Layers) : Prop where
  user : layers.user.Valid
  project : layers.project.Valid
  asked : layers.asked.Valid
  environment : layers.environment.Valid
  options : layers.options.Valid

/-- What the files set an option to, the highest file first. -/
def inFiles {α : Type} (layers : Layers) (key : String) (read : Value → Option α) :
    List (Option α) :=
  [layers.asked.get key read, layers.project.get key read, layers.user.get key read]

/-- Every setting has the value of the highest layer that sets it. A flag that the command line can
only switch on has the value of the highest file, or is on. -/
structure Decide (layers : Layers) (settings : Settings) : Prop where
  dialectName : settings.dialectName =
    highest (layers.options.dialect :: layers.environment.lookup "SQLPRETTY_DIALECT" ::
      layers.inFiles "dialect" Value.string?) "auto"
  indent : settings.style.indent =
    highest [layers.options.indent?,
      (layers.environment.lookup "SQLPRETTY_INDENT").map Layer.indentOfVariable,
      layers.asked.indent?, layers.project.indent?, layers.user.indent?] "  "
  keywordCase : settings.style.keywordCase =
    highest (layers.options.keywordCase ::
      (layers.environment.lookup "SQLPRETTY_KEYWORD_CASE").bind KeywordCase.ofName? ::
      layers.inFiles "keyword_case" Value.keywordCase?) .preserve
  linesBetweenQueries : settings.style.linesBetweenQueries =
    highest (layers.options.linesBetweenQueries ::
      layers.inFiles "lines_between_queries" Value.count?) 1
  maxLineLength : settings.style.maxLineLength =
    highest (layers.options.maxLineLength :: layers.inFiles "max_line_length" Value.count?) 0
  exclude : settings.exclude =
    highest (layers.options.exclude? :: layers.inFiles "exclude" Value.strings?) []
  params : settings.style.params =
    highest (layers.options.params? :: layers.inFiles "params" Value.parameters?) .empty
  alignColumns : settings.style.alignColumns =
    (layers.options.has .alignColumns ||
      highest (layers.inFiles "align_columns" Value.boolean?) false)
  alignAssignments : settings.style.alignAssignments =
    (layers.options.has .alignAssignments ||
      highest (layers.inFiles "align_assignments" Value.boolean?) false)
  alignValues : settings.style.alignValues =
    (layers.options.has .alignValues ||
      highest (layers.inFiles "align_values" Value.boolean?) false)
  preserveCommentIndent : settings.style.preserveCommentIndent =
    (layers.options.has .preserveCommentIndent ||
      highest (layers.inFiles "preserve_comment_indent" Value.boolean?) false)

end Layers

theorem bind_eq_self {α : Type} {o : Option α} {f : α → Option α} (hf : ∀ a b, f a = some b → b = a)
    (h : ∀ a, o = some a → (f a).isSome) : o.bind f = o := by
  cases o with
  | none => rfl
  | some a =>
    obtain ⟨b, hb⟩ := Option.isSome_iff_exists.mp (h a rfl)
    rw [Option.bind_some, hb, hf a b hb]

theorem eq_of_dialectName? (s t : String) (h : Layer.dialectName? s = some t) : t = s := by
  unfold Layer.dialectName? at h
  split at h <;> cases h
  rfl

theorem eq_of_askedDialect (s t : String) (h : CommandLine.dialectName? s = some t) : t = s := by
  unfold CommandLine.dialectName? at h
  split at h <;> cases h
  rfl

/-- A valid table sets the dialect to the string that it has for it. -/
theorem get_dialect {table : Table} (h : table.Valid) :
    table.get "dialect" Value.dialect? = table.get "dialect" Value.string? := by
  unfold Toml.Table.get
  cases hv : table.lookup "dialect" with
  | none => rfl
  | some v =>
    have hsuits : v.dialect?.isSome := h "dialect" v hv
    refine bind_eq_self eq_of_dialectName? fun s hs => ?_
    unfold Value.dialect? at hsuits
    rwa [show v.string? = some s from hs] at hsuits

theorem getD_switch (o : CommandLine.Options) (name : CommandLine.OptionName) (b : Bool) :
    (CommandLine.switch o name).getD b = (o.has name || b) := by
  unfold CommandLine.switch
  cases o.has name <;> rfl

/-- Loading succeeds just if no layer is wrong, and then the layers lie on each other in order. -/
theorem load_eq_ok {source : Source} {inputs : List Path} {explicit : Option Path}
    {user project asked : Table} (huser : userTable source = .ok user)
    (hproject : projectTable source inputs = .ok project)
    (hasked : explicitTable source explicit = .ok asked) {base : Settings} :
    load source inputs explicit = .ok base ↔
      (user.Valid ∧ project.Valid ∧ asked.Valid ∧ source.environment.Valid) ∧
        base = (Layer.setsEnvironment source.environment).onto ((Layer.sets asked).onto
          ((Layer.sets project).onto ((Layer.sets user).onto .standard))) := by
  unfold load
  rw [userLayer_eq, projectLayer_eq, explicitLayer_eq, huser, hproject, hasked]
  simp only [bind_eq_ok, Except.ok.injEq, exists_eq_left', Layer.ofTable_eq_ok,
    Layer.ofEnvironment_eq_ok, pure_eq_ok, and_assoc, exists_and_left, exists_eq_left]
  rw [eq_comm (a := base)]

/-- **Precedence**: a call whose files hold three tables gets its settings just if no layer sets
something wrong, and then every setting has the value of the highest layer that sets it. -/
theorem load_precedence (source : Source) (inputs : List Path) (explicit : Option Path)
    (o : CommandLine.Options) {user project asked : Table} (huser : userTable source = .ok user)
    (hproject : projectTable source inputs = .ok project)
    (hasked : explicitTable source explicit = .ok asked) :
    let layers : Layers := ⟨user, project, asked, source.environment, o⟩
    let result := load source inputs explicit >>= CommandLine.settingsFor o
    (layers.Valid → ∃ settings, result = .ok settings ∧ layers.Decide settings) ∧
      (¬layers.Valid → ∃ e, result = .error e) := by
  intro layers result
  constructor
  · intro hvalid
    have hload := (load_eq_ok huser hproject hasked).mpr
      ⟨⟨hvalid.user, hvalid.project, hvalid.asked, hvalid.environment⟩, rfl⟩
    have hlayer := CommandLine.layerOf_eq_ok.mpr ⟨hvalid.options, rfl⟩
    refine ⟨_, bind_eq_ok.mpr ⟨_, hload, bind_eq_ok.mpr ⟨_, hlayer, rfl⟩⟩, ?_⟩
    have hgiven := bind_eq_self eq_of_askedDialect hvalid.options.dialect
    have hvariable := bind_eq_self eq_of_dialectName? hvalid.environment.dialect
    constructor
    all_goals simp only [Layers.inFiles, highest_cons, highest_nil]
    case dialectName =>
      rw [← get_dialect hvalid.user, ← get_dialect hvalid.project, ← get_dialect hvalid.asked]
      exact congrArg₂ Option.getD hgiven (congrArg₂ Option.getD hvariable rfl)
    case alignColumns => exact getD_switch ..
    case alignAssignments => exact getD_switch ..
    case alignValues => exact getD_switch ..
    case preserveCommentIndent => exact getD_switch ..
    all_goals rfl
  · intro hinvalid
    cases hresult : result with
    | error e => exact ⟨e, rfl⟩
    | ok settings =>
      obtain ⟨base, hbase, hsettings⟩ := bind_eq_ok.mp hresult
      obtain ⟨layer, hlayer, -⟩ := bind_eq_ok.mp hsettings
      obtain ⟨⟨huser, hproject, hasked, henvironment⟩, -⟩ :=
        (load_eq_ok huser hproject hasked).mp hbase
      have hoptions := (CommandLine.layerOf_eq_ok.mp hlayer).1
      exact absurd ⟨huser, hproject, hasked, henvironment, hoptions⟩ hinvalid

/-- A user's file, a project's file and one that is asked for, with a variable. -/
def layeredSource : Source where
  tree :=
    { root := .directory <|
        .cons "sqlpretty.toml" (.file (Text.encode "use_tabs = false\nindent = \">\"")) <|
        .cons "asked.toml" (.file (Text.encode "align_values = false\nexclude = []")) .nil
      home := [] }
  environment := [("SQLPRETTY_DIALECT", "mysql")]
  userFile := some (Text.encode "indent_width = 8\nalign_values = true\nkeyword_case = \"upper\"")

/-- What these files hold, with an option of the command line. -/
def layered : Layers where
  user := [("align_values", .boolean true), ("indent_width", .integer 8),
    ("keyword_case", .string "upper")]
  project := [("indent", .string ">"), ("use_tabs", .boolean false)]
  asked := [("align_values", .boolean false), ("exclude", .array [])]
  environment := layeredSource.environment
  options := { CommandLine.Options.empty with maxLineLength := some 80 }

theorem valid_of_isOk {table : Table} (h : (Layer.ofTable table).isOk = true) : table.Valid := by
  cases hlayer : Layer.ofTable table with
  | error e =>
    rw [hlayer] at h
    cases h
  | ok layer => exact (Layer.ofTable_eq_ok.mp hlayer).1

/-- Every layer has the last word on something: the user's file on the case of keywords, the project's
file on the indentation, the one that is asked for on the alignment of values and on what is left out, the
variable on the dialect, and the command line on the length of lines. -/
theorem load_precedence_layered :
    userTable layeredSource = .ok layered.user ∧
      projectTable layeredSource [⟨"q.sql"⟩] = .ok layered.project ∧
      explicitTable layeredSource (some ⟨"asked.toml"⟩) = .ok layered.asked ∧ layered.Valid ∧
      ∃ settings, load layeredSource [⟨"q.sql"⟩] (some ⟨"asked.toml"⟩) >>=
          CommandLine.settingsFor layered.options = .ok settings ∧ layered.Decide settings ∧
        settings.style.keywordCase = .upper ∧ settings.style.indent = ">" ∧
        settings.style.alignValues = false ∧ settings.exclude = [] ∧
        settings.dialectName = "mysql" ∧ settings.style.maxLineLength = 80 := by
  have huser : userTable layeredSource = .ok layered.user := by decide +kernel
  have hproject : projectTable layeredSource [⟨"q.sql"⟩] = .ok layered.project := by decide +kernel
  have hasked : explicitTable layeredSource (some ⟨"asked.toml"⟩) = .ok layered.asked := by
    decide +kernel
  have henvironment : Layer.ofEnvironment layered.environment =
      .ok (Layer.setsEnvironment layered.environment) := by decide +kernel
  have hoptions : CommandLine.layerOf layered.options = .ok (CommandLine.setsOptions layered.options) := by
    decide +kernel
  have hvalid : layered.Valid :=
    ⟨valid_of_isOk (by decide +kernel), valid_of_isOk (by decide +kernel),
      valid_of_isOk (by decide +kernel), (Layer.ofEnvironment_eq_ok.mp henvironment).1,
      (CommandLine.layerOf_eq_ok.mp hoptions).1⟩
  obtain ⟨settings, hload, hdecide⟩ := (load_precedence layeredSource [⟨"q.sql"⟩]
    (some ⟨"asked.toml"⟩) layered.options huser hproject hasked).1 hvalid
  exact ⟨huser, hproject, hasked, hvalid, settings, hload, hdecide,
    hdecide.keywordCase.trans (by decide +kernel), hdecide.indent.trans (by decide +kernel),
    hdecide.alignValues.trans (by decide +kernel), hdecide.exclude.trans (by decide +kernel),
    hdecide.dialectName.trans (by decide +kernel), hdecide.maxLineLength.trans (by decide +kernel)⟩

end Config

end SqlFormat
