import PathIgnore.Settings.FileNames
import PathIgnore.Value.Json

/-!
# Settings

What can be set falls into two parts. `Discovery` says where to look and what to do outside; it decides
answers. `Diagnostics` says what to report; it decides none.

Settings are filled in by a library, from named options and from environment variables. The library is a
parameter (`SettingsLibrary`): it finds the value of a field among the sources, tells whether the value is of
the right kind, and reports what is refused. What is relied on of it is what its documentation says
(`SettingsLibrary.Documented`): an option counts before the variable of its name, and the text of a variable
is a value as `FieldKind.ofVariable?` reads it.

What the fields are, their defaults, how names are taken from a value and what makes a marker are settled
here.
-/

namespace PathIgnore

/-- Where ignore files are looked for. -/
structure Discovery where
  /-- The names of ignore files, looked up in this order in every directory. -/
  fileNames : FileNames
  /-- The entry whose presence makes a directory a boundary root. -/
  boundaryMarker : Text
  /-- Whether everything outside a boundary root is ignored. -/
  ignoreOutside : Bool
  deriving DecidableEq

/-- What is reported, and how. -/
structure Diagnostics where
  /-- Keep silent about files that cannot be read, and about lines and paths that make no sense. -/
  quiet : Bool
  /-- Tell how each answer comes about. -/
  debugLog : Bool
  /-- Warn about paths that are ignored. -/
  warnIgnored : Bool
  /-- Warn about paths that are not ignored. -/
  warnNotIgnored : Bool
  /-- The name of the least level that is reported. -/
  logLevel : Text
  /-- Whether reports are written as JSON. -/
  logJson : Bool
  deriving DecidableEq, Repr

/-- Everything that can be set. -/
structure Settings extends Discovery, Diagnostics
  deriving DecidableEq

namespace Settings

/-! ## Defaults -/

/-- The usual name of an ignore file. -/
def defaultFileName : FileName := ⟨".aiignore".toList, by decide⟩

/-- The settings where nothing is set. -/
def default : Settings where
  fileNames := FileNames.single defaultFileName
  boundaryMarker := ".git".toList
  ignoreOutside := false
  quiet := false
  debugLog := false
  warnIgnored := false
  warnNotIgnored := false
  logLevel := "INFO".toList
  logJson := true

instance : Inhabited Settings := ⟨default⟩

end Settings

/-! ## Sources -/

/-- Where the values of settings come from: named options, and environment variables. -/
structure Sources where
  options : List (Text × Value)
  environment : List (Text × Text)

/-- What a field of settings takes. A field of names takes one text or a list of them. -/
inductive FieldKind where
  | names | text | flag
  deriving DecidableEq, Repr

/-- The value that the text of a variable gives to a field. For names it may be JSON, where null gives none;
a bare name such as `.ignore` is no JSON and means itself. -/
def FieldKind.ofVariable? (kind : FieldKind) (raw : Text) : Option Value :=
  match kind with
  | .names =>
    match Value.ofJson? raw with
    | some .null => none
    | some v => some v
    | none => some (.text raw)
  | .text | .flag => some (.text raw)

/-- A field as the sources know it: its kind, its name, and what the names of variables start with. -/
structure FieldKey where
  start : Text
  name : Text
  kind : FieldKind

namespace Sources

/-- The option of a field. -/
def inOptions? (sources : Sources) (key : FieldKey) : Option Value := Value.field? key.name sources.options

/-- The value that the variable of a field gives. -/
def inEnvironment? (sources : Sources) (key : FieldKey) : Option Value :=
  (sources.environment.lookup (key.start ++ key.name)).bind key.kind.ofVariable?

end Sources

/-- A library that fills in settings. Its reports of refused fields are of type `ρ`. -/
structure SettingsLibrary (ρ : Type) where
  /-- The value that is found for a field. -/
  find? : Sources → FieldKey → Option Value
  /-- A value for a field that takes a text. -/
  asText : Value → Except Refusal Text
  /-- A value for a field that takes a truth value. -/
  asFlag : Value → Except Refusal Bool
  /-- A list of texts for a field of names. -/
  asNames : List Text → Except Refusal Unit
  /-- What is reported of the fields that are refused. -/
  report : List FieldError → ρ

namespace Settings

/-- The option that holds the names of ignore files. -/
def fileNamesOption : String := "IGNORE_FILENAMES"

/-- A field under the name of its option. Its variable is called the same behind a common start. -/
def key (kind : FieldKind) (name : String) : FieldKey := ⟨"AIIGNORE_".toList, name.toList, kind⟩

/-- A scalar that stands where a list of names is wanted. -/
inductive ScalarKind where
  | truth | whole | real
  deriving DecidableEq, Repr

/-- The word for a kind of scalar. -/
def ScalarKind.word : ScalarKind → String
  | truth => "bool"
  | whole => "int"
  | real => "float"

/-- What is wrong with a scalar in the place of a list. -/
def ScalarKind.message (kind : ScalarKind) : String :=
  "'" ++ kind.word ++ "' object is not iterable"

/-- Why a value supplies no texts. -/
inductive NamesFault where
  /-- It is a scalar that holds no items. -/
  | notIterable (kind : ScalarKind)
  /-- An item holds an integer that is too long to be written. -/
  | longInteger
  deriving DecidableEq, Repr

/-- The texts that a value supplies as names: a text is cut at commas, a list gives its items and a
record its names, and what counts as nothing gives none. -/
def suppliedNames : Value → Except NamesFault (List Text)
  | .text t => .ok (t.splitOn ',')
  | .list items => (items.mapM Value.display?).elim (.error .longInteger) .ok
  | .record fields => .ok (fields.map (·.1))
  | .null => .ok []
  | .bool b => if b then .error (.notIterable .truth) else .ok []
  | .integer n => if n = 0 then .ok [] else .error (.notIterable .whole)
  | .real x => if x.isZero then .ok [] else .error (.notIterable .real)

variable {ρ : Type} (lib : SettingsLibrary ρ) (sources : Sources)

/-- The names that a value gives. A scalar in their place is no fault of the field but ends everything. -/
def namesOf (v : Value) : Except ScalarKind (Except FieldFault FileNames) :=
  match suppliedNames v with
  | .error (.notIterable kind) => .error kind
  | .error .longInteger => .ok (.error .longInteger)
  | .ok items => .ok <| (FileNames.ofTexts items).bind fun names =>
      (lib.asNames names.texts).mapError .refused |>.map fun _ => names

/-- The marker of a boundary root, stripped. -/
def markerOf (v : Value) : Except FieldFault Text :=
  (lib.asText v).mapError .refused |>.bind fun t =>
    if Text.strip t = [] then .error .emptyMarker else .ok (Text.strip t)

/-- The names of ignore files, as they are found. -/
def namesField : Except ScalarKind (Except FieldFault FileNames) :=
  (lib.find? sources (key .names fileNamesOption)).elim (.ok (.ok default.fileNames)) (namesOf lib)

/-- A field as it is found; what is not found has its default. -/
def field {α : Type} (kind : FieldKind) (default : α) (read : Value → Except FieldFault α)
    (name : String) : Validated FieldError α :=
  Validated.ofField name ((lib.find? sources (key kind name)).elim (.ok default) read)

/-- A field that takes a text. -/
def textField (default : Text) (name : String) : Validated FieldError Text :=
  field lib sources .text default (fun v => (lib.asText v).mapError .refused) name

/-- A field that takes a truth value. -/
def flagField (default : Bool) (name : String) : Validated FieldError Bool :=
  field lib sources .flag default (fun v => (lib.asFlag v).mapError .refused) name

/-! ## Building -/

/-- Why settings cannot be built. -/
inductive Error (ρ : Type) where
  /-- The file names are a scalar that holds no items. -/
  | notIterable (kind : ScalarKind)
  /-- Fields are refused. -/
  | invalid (report : ρ)
  deriving DecidableEq, Repr

/-- Settings from options and the environment. -/
def ofSources : Except (Error ρ) Settings :=
  match namesField lib sources with
  | .error kind => .error (.notIterable kind)
  | .ok names =>
    let discovery : Validated FieldError Discovery :=
      Discovery.mk <$> Validated.ofField fileNamesOption names
        <*> field lib sources .text default.boundaryMarker (markerOf lib) "BOUNDARY_MARKER"
        <*> flagField lib sources default.ignoreOutside "IGNORE_OUTSIDE_BOUNDARY"
    let diagnostics : Validated FieldError Diagnostics :=
      Diagnostics.mk <$> flagField lib sources default.quiet "QUIET"
        <*> flagField lib sources default.debugLog "DEBUG_LOG"
        <*> flagField lib sources default.warnIgnored "WARN_IGNORED"
        <*> flagField lib sources default.warnNotIgnored "WARN_NOT_IGNORED"
        <*> textField lib sources default.logLevel "LOG_LEVEL"
        <*> flagField lib sources default.logJson "LOG_JSON"
    (Settings.mk <$> discovery <*> diagnostics).toExcept.mapError fun errors =>
      .invalid (lib.report errors)

end Settings

end PathIgnore
