import InjectionCompiler.Config

/-!
# Configurations from the environment

Loading overrides the defaults by whatever the source gives, so a configuration is what comes out
just when it agrees with the source in every setting.  A variable is only a text, and what it spells
decides on the type of its value before it is known which setting it is for.  So a project whose
name spells a truth value is valid, and no environment gives it.
-/

namespace InjectionCompiler

namespace ConfigValue

@[simp] theorem ofVariable_toString (flag : Bool) :
    ofVariable (toString flag) = .flag flag := by
  cases flag <;> rfl

theorem ofVariable_of_ne {spelled : String} (h : ∀ flag : Bool, spelled ≠ toString flag) :
    ofVariable spelled = .text spelled := by
  have htrue : spelled ≠ "true" := h true
  have hfalse : spelled ≠ "false" := h false
  simp [ofVariable, htrue, hfalse]

theorem ofVariable_eq_text_iff {spelled text : String} :
    ofVariable spelled = .text text ↔
      spelled = text ∧ ∀ flag : Bool, text ≠ toString flag := by
  constructor
  · intro h
    have hne : ∀ flag : Bool, spelled ≠ toString flag := by
      rintro flag rfl
      simp at h
    rw [ofVariable_of_ne hne] at h
    cases h
    exact ⟨rfl, hne⟩
  · rintro ⟨rfl, hne⟩
    exact ofVariable_of_ne hne

end ConfigValue

namespace Setting

/-- The variable that a setting is read from. -/
def environmentName : Setting → String
  | .project => "FERROUS_INJECT_PROJECT_NAME"
  | .checkCycles => "FERROUS_INJECT_CHECK_DEPENDENCY_CYCLES"
  | .debugReport => "FERROUS_INJECT_DEBUG_REPORT"

theorem variableName_name (setting : Setting) :
    variableName (some variableFamily) setting.name = setting.environmentName := by
  cases setting <;> decide

theorem forall_iff {p : Setting → Prop} :
    (∀ setting, p setting) ↔ p .project ∧ p .checkCycles ∧ p .debugReport := by
  constructor
  · intro h
    exact ⟨h .project, h .checkCycles, h .debugReport⟩
  · rintro ⟨hproject, hcheckCycles, hdebugReport⟩ setting
    cases setting with
    | project => exact hproject
    | checkCycles => exact hcheckCycles
    | debugReport => exact hdebugReport

end Setting

namespace Config

def value (config : Config) : Setting → ConfigValue
  | .project => .text config.project
  | .checkCycles => .flag config.checkCycles
  | .debugReport => .flag config.debugReport

/-- How a setting is put into a variable. -/
def spelling (config : Config) : Setting → String
  | .project => config.project
  | .checkCycles => toString config.checkCycles
  | .debugReport => toString config.debugReport

/-! ## What is loaded -/

theorem readFrom_eq_ok_iff {source : ConfigSource} {config : Config} :
    readFrom source = .ok config ↔
      ∀ setting : Setting,
        (source setting.name).getD (default.value setting) = config.value setting := by
  rw [Setting.forall_iff, readFrom]
  obtain ⟨project, checkCycles, debugReport⟩ := config
  rcases source Setting.project.name with _ | (text | flag) <;>
    rcases source Setting.checkCycles.name with _ | (text | flag) <;>
      rcases source Setting.debugReport.name with _ | (text | flag) <;>
        simp [value, ConfigValue.asText, ConfigValue.asFlag, pure, Except.pure, bind, Except.bind]

theorem load_eq_ok_iff {source : ConfigSource} {config : Config} :
    load source = .ok config ↔
      (∀ setting : Setting,
        (source setting.name).getD (default.value setting) = config.value setting) ∧
      config.validate = .ok () := by
  have hload : load source = .ok config ↔
      readFrom source = .ok config ∧ config.validate = .ok () := by
    rw [load]
    rcases readFrom source with fault | found
    · simp [bind, Except.bind]
    · rcases hvalid : found.validate with fault | done <;>
        simp only [bind, Except.bind, pure, Except.pure, hvalid, Except.ok.injEq, reduceCtorEq,
          false_iff, not_and]
      · rintro rfl
        simp [hvalid]
      · constructor
        · rintro rfl
          exact ⟨rfl, hvalid⟩
        · exact And.left
  rw [hload, readFrom_eq_ok_iff]

theorem load_of_value {source : ConfigSource} {config : Config}
    (hgiven : ∀ setting : Setting, source setting.name = some (config.value setting))
    (hvalid : config.validate = .ok ()) : load source = .ok config := by
  apply load_eq_ok_iff.2
  constructor
  · intro setting
    simp [hgiven setting]
  · exact hvalid

/-! ## What an environment gives -/

/-- The variables of the settings spell a configuration; the others may hold anything. -/
def SpelledIn (config : Config) (environment : String → Option String) : Prop :=
  ∀ setting : Setting, environment setting.environmentName = some (config.spelling setting)

/-- The environment that holds nothing but the settings of a configuration. -/
def ownEnvironment (config : Config) : String → Option String :=
  fun name =>
    (Setting.all.find? fun setting => setting.environmentName = name).map config.spelling

theorem spelledIn_ownEnvironment (config : Config) : config.SpelledIn config.ownEnvironment := by
  intro setting
  have hfound : Setting.all.find? (fun other =>
      decide (other.environmentName = setting.environmentName)) = some setting := by
    cases setting <;> decide
  simp [ownEnvironment, hfound]

variable {config : Config} {environment : String → Option String}

theorem environmentSource_name (environment : String → Option String) (setting : Setting) :
    environmentSource environment (some variableFamily) setting.name =
      (environment setting.environmentName).map ConfigValue.ofVariable := by
  rw [environmentSource, Setting.variableName_name]

theorem SpelledIn.source_name (h : config.SpelledIn environment) (setting : Setting) :
    environmentSource environment (some variableFamily) setting.name =
      some (ConfigValue.ofVariable (config.spelling setting)) := by
  rw [environmentSource_name, h setting]
  rfl

/-- No project that comes from an environment has the name of a truth value: the default has not,
and a variable that spells one is never a text. -/
theorem project_ne_of_ofEnvironment (h : ofEnvironment environment = .ok config) (flag : Bool) :
    config.project ≠ toString flag := by
  have hproject := (load_eq_ok_iff.1 h).1 .project
  rw [environmentSource_name] at hproject
  rcases hvariable : environment (Setting.environmentName .project) with _ | spelled
  · rw [hvariable] at hproject
    have hdefault : default.project = config.project := ConfigValue.text.inj hproject
    rw [← hdefault]
    cases flag <;> decide
  · rw [hvariable] at hproject
    exact (ConfigValue.ofVariable_eq_text_iff.1 hproject).2 flag

theorem SpelledIn.ofEnvironment_of_ne (h : config.SpelledIn environment)
    (hvalid : config.validate = .ok ())
    (hproject : ∀ flag : Bool, config.project ≠ toString flag) :
    ofEnvironment environment = .ok config := by
  apply load_of_value _ hvalid
  intro setting
  rw [h.source_name]
  cases setting with
  | project => exact congrArg some (ConfigValue.ofVariable_of_ne hproject)
  | checkCycles => exact congrArg some (ConfigValue.ofVariable_toString config.checkCycles)
  | debugReport => exact congrArg some (ConfigValue.ofVariable_toString config.debugReport)

theorem SpelledIn.ofEnvironment_of_eq (h : config.SpelledIn environment) {flag : Bool}
    (hproject : config.project = toString flag) :
    ofEnvironment environment = .error (.notText flag) := by
  have hvariable := h.source_name .project
  rw [spelling, hproject, ConfigValue.ofVariable_toString] at hvariable
  simp [ofEnvironment, load, readFrom, hvariable, ConfigValue.asText, bind, Except.bind]

/-- A valid configuration comes out of the environment that spells it, unless its project has the
name of a truth value; then no environment gives it at all. -/
theorem ofEnvironment_spelled (hvalid : config.validate = .ok ())
    (hspelled : config.SpelledIn environment) :
    (ofEnvironment environment = .ok config ↔
      ∀ flag : Bool, config.project ≠ toString flag) ∧
    ∀ flag : Bool, config.project = toString flag →
      ofEnvironment environment = .error (.notText flag) ∧
        ∀ other, ofEnvironment other ≠ .ok config := by
  refine ⟨⟨project_ne_of_ofEnvironment, hspelled.ofEnvironment_of_ne hvalid⟩, ?_⟩
  intro flag hproject
  constructor
  · exact hspelled.ofEnvironment_of_eq hproject
  · intro other hother
    exact project_ne_of_ofEnvironment hother flag hproject

def feature : Config := ⟨"feature", false, true⟩

theorem ofEnvironment_spelled_feature :
    feature.validate = .ok () ∧ feature.SpelledIn feature.ownEnvironment ∧
    (∀ flag : Bool, feature.project ≠ toString flag) ∧
    ofEnvironment feature.ownEnvironment = .ok feature := by
  have hvalid : feature.validate = .ok () := rfl
  have hspelled := spelledIn_ownEnvironment feature
  have hproject : ∀ flag : Bool, feature.project ≠ toString flag := by decide
  exact ⟨hvalid, hspelled, hproject, (ofEnvironment_spelled hvalid hspelled).1.2 hproject⟩

def truth : Config := ⟨"true", true, false⟩

/-- A source of typed values gives the project that is named `true`, an environment does not. -/
theorem truth_not_given :
    truth.validate = .ok () ∧
    load (fun name => (Setting.ofName? name).map truth.value) = .ok truth ∧
    truth.SpelledIn truth.ownEnvironment ∧
    ofEnvironment truth.ownEnvironment = .error (.notText true) := by
  have hspelled := spelledIn_ownEnvironment truth
  refine ⟨rfl, rfl, hspelled, ?_⟩
  exact hspelled.ofEnvironment_of_eq rfl

end Config

end InjectionCompiler
