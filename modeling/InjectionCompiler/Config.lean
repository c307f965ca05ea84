import InjectionCompiler.Failure
import InjectionCompiler.Text.Quoted
import InjectionCompiler.Text.UpperCase

/-!
# Configuration

The settings of a run.  They can be loaded from any source of named values; what the source does
not give keeps its default.
-/

namespace InjectionCompiler

structure Config where
  /-- The end of every generated name, which keeps separate projects apart. -/
  project : String
  checkCycles : Bool
  /-- Whether a report on the graph goes into the journal. -/
  debugReport : Bool
  deriving DecidableEq, Repr

namespace Config

def default : Config := ⟨"main", true, false⟩

instance : Inhabited Config := ⟨default⟩

end Config

/-! ## Settings -/

inductive Setting where
  | project
  | checkCycles
  | debugReport
  deriving DecidableEq, Repr

namespace Setting

def all : List Setting := [.project, .checkCycles, .debugReport]

def name : Setting → String
  | .project => "project_name"
  | .checkCycles => "check_dependency_cycles"
  | .debugReport => "debug_report"

def ofName? (name : String) : Option Setting :=
  all.find? fun setting => setting.name = name

theorem mem_all (setting : Setting) : setting ∈ all := by
  cases setting <;> decide

end Setting

/-! ## Validity -/

inductive ConfigFault where
  | emptyProject
  | separatorInProject (project : String)
  /-- A text was expected where a truth value stands. -/
  | notText (found : Bool)
  /-- A truth value was expected where a text stands. -/
  | notFlag (found : String)
  deriving DecidableEq, Repr

def ConfigFault.message : ConfigFault → String
  | .emptyProject => "project_name must not be empty"
  | .separatorInProject project => "project_name must not contain '/' or '$': " ++ project
  | .notText found => "expected a string, found " ++ (if found then "true" else "false")
  | .notFlag found => "expected a boolean, found " ++ Text.quoted found

def ConfigFault.failure (fault : ConfigFault) : Failure :=
  .config fault.message

namespace Config

/-- The project is part of generated names, so it must not be empty and must not hold the signs
that separate the parts of a name. -/
def validate (config : Config) : Except ConfigFault Unit :=
  if config.project.toList.isEmpty then .error .emptyProject
  else if config.project.toList.any fun c => c = '/' || c = '$' then
    .error (.separatorInProject config.project)
  else .ok ()

end Config

/-! ## Loading -/

/-- A value as a source gives it. -/
inductive ConfigValue where
  | text (value : String)
  | flag (value : Bool)
  deriving DecidableEq, Repr

namespace ConfigValue

def asText : ConfigValue → Except ConfigFault String
  | .text value => .ok value
  | .flag value => .error (.notText value)

def asFlag : ConfigValue → Except ConfigFault Bool
  | .flag value => .ok value
  | .text value => .error (.notFlag value)

end ConfigValue

/-- A source of values by the names of the settings. -/
abbrev ConfigSource := String → Option ConfigValue

namespace Config

/-- The settings as a source gives them, before they are checked. -/
def readFrom (source : ConfigSource) : Except ConfigFault Config := do
  let project ←
    match source Setting.project.name with
    | some value => value.asText
    | none => pure default.project
  let checkCycles ←
    match source Setting.checkCycles.name with
    | some value => value.asFlag
    | none => pure default.checkCycles
  let debugReport ←
    match source Setting.debugReport.name with
    | some value => value.asFlag
    | none => pure default.debugReport
  return ⟨project, checkCycles, debugReport⟩

def load (source : ConfigSource) : Except ConfigFault Config := do
  let config ← readFrom source
  config.validate
  return config

end Config

/-! ## The environment -/

/-- A variable is a truth value exactly when it spells one. -/
def ConfigValue.ofVariable (value : String) : ConfigValue :=
  if value = "true" then .flag true
  else if value = "false" then .flag false
  else .text value

/-- The variable of a setting: both parts in upper case, joined by an underscore. -/
def variableName (family : Option String) (key : String) : String :=
  match family with
  | some family => Text.upper family ++ "_" ++ Text.upper key
  | none => Text.upper key

/-- The source that reads the variables of an environment, all of one family when one is given. -/
def environmentSource (environment : String → Option String) (family : Option String) :
    ConfigSource :=
  fun key => (environment (variableName family key)).map ConfigValue.ofVariable

/-- The family of variables that the compiler reads. -/
def variableFamily : String := "FERROUS_INJECT"

def Config.ofEnvironment (environment : String → Option String) : Except ConfigFault Config :=
  Config.load (environmentSource environment (some variableFamily))

end InjectionCompiler
