import Mathlib
import SqlFormat.Proofs.Config.Precedence
import SqlFormat.Proofs.Text.Lowered

/-!
# Which dialect names are accepted

A name is usable if a dialect is found for it, whatever the text. The command line accepts the usable
names. A file and the environment accept no other name, so that settings that were loaded never fail to
name a dialect; of the spellings of `auto` they accept the one in lower case alone.

Results: `Config.usable_of_load`, `Config.dialectNames_agree`.
-/

namespace SqlFormat

/-! ## Usable names -/

namespace Settings

/-- The name asks for detection, or names a dialect. -/
def Usable (name : String) : Prop :=
  detectsDialect name = true ∨ (Dialect.ofName? name).isSome = true

/-- A dialect is found for a usable name, and for another one the name is the error. -/
theorem dialectFor_eq (settings : Settings) (source : String) :
    (Usable settings.dialectName ∧ ∃ dialect, settings.dialectFor source = .ok dialect) ∨
      ¬Usable settings.dialectName ∧
        settings.dialectFor source = .error (.unknownDialect settings.dialectName) := by
  unfold dialectFor Usable
  cases hdetects : detectsDialect settings.dialectName with
  | true => exact .inl ⟨.inl rfl, _, rfl⟩
  | false =>
    cases hname : Dialect.ofName? settings.dialectName with
    | some dialect => exact .inl ⟨.inr rfl, dialect, rfl⟩
    | none => exact .inr ⟨by simp, rfl⟩

theorem dialectFor_isOk {settings : Settings} {source : String} :
    (settings.dialectFor source).isOk = true ↔ Usable settings.dialectName := by
  obtain ⟨husable, dialect, h⟩ | ⟨husable, h⟩ := settings.dialectFor_eq source
  · rw [h]
    exact iff_of_true rfl husable
  · rw [h]
    exact iff_of_false Bool.false_ne_true husable

end Settings

open Settings (Usable detectsDialect)

variable {name : String}

/-- No spelling of `auto` is the name of a dialect. -/
theorem ofName?_of_detectsDialect (h : detectsDialect name = true) : Dialect.ofName? name = none := by
  have hauto : Text.lowerAscii name = "auto" := beq_iff_eq.mp h
  unfold Dialect.ofName?
  rw [← trim_lowerAscii, hauto]
  decide

/-! ## What each layer accepts -/

theorem CommandLine.dialectName?_isSome :
    (CommandLine.dialectName? name).isSome = true ↔ Usable name := by
  unfold CommandLine.dialectName? Usable
  split
  · next h => exact iff_of_true rfl (by simpa using h)
  · next h => exact iff_of_false Bool.false_ne_true (by simpa using h)

/-- A file and the environment accept the usable names but for other spellings of `auto`. -/
theorem Layer.dialectName?_isSome : (Layer.dialectName? name).isSome = true ↔
    Usable name ∧ (detectsDialect name = true → name = "auto") := by
  unfold Layer.dialectName? Usable
  split
  · next h =>
    refine iff_of_true rfl ?_
    obtain rfl | h : name = "auto" ∨ (Dialect.ofName? name).isSome = true := by simpa using h
    · exact ⟨.inl (by decide), fun _ => rfl⟩
    · refine ⟨.inr h, fun hdetects => ?_⟩
      rw [ofName?_of_detectsDialect hdetects] at h
      cases h
  · next h =>
    refine iff_of_false Bool.false_ne_true ?_
    rintro ⟨hdetects | hname, hspelling⟩
    · exact h (by simp [hspelling hdetects])
    · exact h (by simp [hname])

theorem isOk_iff {ε α : Type} {x : Except ε α} : x.isOk = true ↔ ∃ a, x = .ok a := by
  cases x with
  | ok a => exact iff_of_true rfl ⟨a, rfl⟩
  | error e => exact iff_of_false Bool.false_ne_true (by rintro ⟨a, h⟩; cases h)

/-- A file that is right but for the dialect is read if the dialect is accepted. -/
theorem Layer.ofTable_dialect {table : Toml.Table} (h : table.Valid) :
    (Layer.ofTable (("dialect", .string name) :: table)).isOk = true ↔
      (Layer.dialectName? name).isSome = true := by
  simp only [isOk_iff, ofTable_eq_ok, exists_and_left, exists_eq, and_true]
  constructor
  · exact fun hvalid => hvalid "dialect" (.string name) rfl
  · intro hname key v hv
    rw [List.lookup_cons] at hv
    split at hv
    · next hkey =>
      obtain rfl := beq_iff_eq.mp hkey
      obtain rfl := Option.some.inj hv
      exact hname
    · exact h key v hv

/-- An environment that is right but for the dialect is read if the dialect is accepted. -/
theorem Layer.ofEnvironment_dialect {env : Environment} (h : env.Valid) :
    (Layer.ofEnvironment (("SQLPRETTY_DIALECT", name) :: env)).isOk = true ↔
      (Layer.dialectName? name).isSome = true := by
  simp only [isOk_iff, ofEnvironment_eq_ok, exists_and_left, exists_eq, and_true]
  constructor
  · exact fun hvalid => hvalid.dialect name rfl
  · intro hname
    refine ⟨fun s hs => ?_, fun s hs => h.keywordCase s hs⟩
    obtain rfl := Option.some.inj hs
    exact hname

/-- Options that are right but for the dialect are read if the dialect is accepted. -/
theorem CommandLine.layerOf_dialect {o : Options} (h : o.Valid) :
    (layerOf { o with dialect := some name }).isOk = true ↔
      (CommandLine.dialectName? name).isSome = true := by
  simp only [isOk_iff, layerOf_eq_ok, exists_and_left, exists_eq, and_true]
  constructor
  · exact fun hvalid => hvalid.dialect name rfl
  · intro hname
    refine ⟨fun s hs => ?_, h.params⟩
    obtain rfl := Option.some.inj hs
    exact hname

/-! ## Settings that were loaded -/

/-- If a layer names a dialect, then by a usable name. -/
def Layer.NamesUsable (layer : Layer) : Prop :=
  ∀ name, layer.dialectName = some name → Usable name

namespace Layer.NamesUsable

variable {layer : Layer}

theorem onto (h : layer.NamesUsable) {settings : Settings} (hsettings : Usable settings.dialectName) :
    Usable (layer.onto settings).dialectName := by
  change Usable (layer.dialectName.getD settings.dialectName)
  cases hname : layer.dialectName with
  | none => exact hsettings
  | some name => exact h name hname

theorem of_dialectName? {given : Option String}
    (hlayer : layer.dialectName = given.bind Layer.dialectName?) : layer.NamesUsable := by
  intro name hname
  obtain ⟨s, -, hs⟩ := Option.bind_eq_some_iff.mp (hlayer.symm.trans hname)
  obtain rfl := Config.eq_of_dialectName? s name hs
  exact (dialectName?_isSome.mp (Option.isSome_of_eq_some hs)).1

theorem of_ofTable {table : Toml.Table} (h : ofTable table = .ok layer) : layer.NamesUsable := by
  obtain ⟨-, rfl⟩ := ofTable_eq_ok.mp h
  have hdialect : (sets table).dialectName =
      (table.get "dialect" Toml.Value.string?).bind dialectName? := (Option.bind_assoc ..).symm
  exact of_dialectName? hdialect

theorem of_ofEnvironment {env : Environment} (h : ofEnvironment env = .ok layer) :
    layer.NamesUsable := by
  obtain ⟨-, rfl⟩ := ofEnvironment_eq_ok.mp h
  exact of_dialectName? rfl

theorem of_layerOf {o : CommandLine.Options} (h : CommandLine.layerOf o = .ok layer) :
    layer.NamesUsable := by
  obtain ⟨-, rfl⟩ := CommandLine.layerOf_eq_ok.mp h
  intro name hname
  obtain ⟨s, -, hs⟩ := Option.bind_eq_some_iff.mp hname
  obtain rfl := Config.eq_of_askedDialect s name hs
  exact CommandLine.dialectName?_isSome.mp (Option.isSome_of_eq_some hs)

end Layer.NamesUsable

namespace Config

/-- **No failure later**: whatever the layers of a call set, its settings have a usable name. -/
theorem usable_of_load {source : Source} {inputs : List Path} {explicit : Option Path}
    {o : CommandLine.Options} {settings : Settings}
    (h : load source inputs explicit >>= CommandLine.settingsFor o = .ok settings) :
    Usable settings.dialectName := by
  obtain ⟨base, hbase, h⟩ := bind_eq_ok.mp h
  obtain ⟨layer, hlayer, h⟩ := bind_eq_ok.mp h
  obtain rfl := pure_eq_ok.mp h
  refine Layer.NamesUsable.onto (.of_layerOf hlayer) ?_
  unfold load at hbase
  rw [userLayer_eq, projectLayer_eq, explicitLayer_eq] at hbase
  obtain ⟨user, huser, h⟩ := bind_eq_ok.mp hbase
  obtain ⟨project, hproject, h⟩ := bind_eq_ok.mp h
  obtain ⟨asked, hasked, h⟩ := bind_eq_ok.mp h
  obtain ⟨environment, henvironment, h⟩ := bind_eq_ok.mp h
  obtain rfl := pure_eq_ok.mp h
  obtain ⟨_, -, huser⟩ := bind_eq_ok.mp huser
  obtain ⟨_, -, hproject⟩ := bind_eq_ok.mp hproject
  obtain ⟨_, -, hasked⟩ := bind_eq_ok.mp hasked
  have hstandard : Usable Settings.standard.dialectName := .inl (by decide)
  have hfiles := (Layer.NamesUsable.of_ofTable hproject).onto
    ((Layer.NamesUsable.of_ofTable huser).onto hstandard)
  exact (Layer.NamesUsable.of_ofEnvironment henvironment).onto
    ((Layer.NamesUsable.of_ofTable hasked).onto hfiles)

/-! ## The layers compared -/

/-- **Dialect names**: with a name settings resolve for every text just if it is usable, and the
command line accepts it just then. So do a file and a variable, but for other spellings of `auto`. -/
theorem dialectNames_agree (name : String) :
    (∀ (settings : Settings) (source : String),
        (({ settings with dialectName := name } : Settings).dialectFor source).isOk = true ↔
          Usable name) ∧
      (∀ o : CommandLine.Options, o.Valid →
        ((CommandLine.layerOf { o with dialect := some name }).isOk = true ↔ Usable name)) ∧
      (∀ table : Toml.Table, table.Valid →
        ((Layer.ofTable (("dialect", .string name) :: table)).isOk = true ↔
          Usable name ∧ (detectsDialect name = true → name = "auto"))) ∧
      ∀ env : Layer.Environment, env.Valid →
        ((Layer.ofEnvironment (("SQLPRETTY_DIALECT", name) :: env)).isOk = true ↔
          Usable name ∧ (detectsDialect name = true → name = "auto")) :=
  ⟨fun _ _ => Settings.dialectFor_isOk,
    fun _ ho => (CommandLine.layerOf_dialect ho).trans CommandLine.dialectName?_isSome,
    fun _ htable => (Layer.ofTable_dialect htable).trans Layer.dialectName?_isSome,
    fun _ henv => (Layer.ofEnvironment_dialect henv).trans Layer.dialectName?_isSome⟩

/-- An alias in capitals with spaces around it, which is taken everywhere. -/
theorem dialectNames_agree_on_alias :
    (({ Settings.standard with dialectName := " MariaDB " } : Settings).dialectFor "").isOk = true ∧
      (CommandLine.layerOf { CommandLine.Options.empty with dialect := some " MariaDB " }).isOk =
        true ∧
      (Layer.ofTable [("dialect", .string " MariaDB ")]).isOk = true ∧
      (Layer.ofEnvironment [("SQLPRETTY_DIALECT", " MariaDB ")]).isOk = true := by
  obtain ⟨hsettings, hoptions, htable, henv⟩ := dialectNames_agree " MariaDB "
  have husable : Usable " MariaDB " := .inr (by decide)
  have hspelling : detectsDialect " MariaDB " = true → " MariaDB " = "auto" := by decide
  refine ⟨(hsettings .standard "").mpr husable, (hoptions .empty ⟨?_, ?_⟩).mpr husable,
    (htable [] ?_).mpr ⟨husable, hspelling⟩, (henv [] ⟨?_, ?_⟩).mpr ⟨husable, hspelling⟩⟩
  · exact fun _ h => nomatch h
  · decide
  · exact fun _ _ h => nomatch h
  · exact fun _ h => nomatch h
  · exact fun _ h => nomatch h

/-- Settings and the command line take `AUTO`, a file and a variable do not. -/
theorem dialectNames_differ :
    (({ Settings.standard with dialectName := "AUTO" } : Settings).dialectFor "").isOk = true ∧
      (CommandLine.layerOf { CommandLine.Options.empty with dialect := some "AUTO" }).isOk = true ∧
      Layer.ofTable [("dialect", .string "AUTO")] = .error (.unknownDialect "AUTO") ∧
      Layer.ofEnvironment [("SQLPRETTY_DIALECT", "AUTO")] = .error (.unknownDialect "AUTO") := by
  decide

end Config

end SqlFormat
