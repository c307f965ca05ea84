import InjectionCompiler.Config

/-!
# Decoding configurations

A configuration in JSON is an object whose members are settings, or a list of up to three values in
the order of the settings.  It is decoded from what a reader of JSON answers, one part of the text
after another.  What the text does not give keeps its default, and the whole is checked at the end.
-/

namespace InjectionCompiler

/-! ## Readers of JSON -/

namespace Json

inductive Shape where
  | object
  | list
  deriving DecidableEq, Repr

/-- A reader walks through a text.  At each place, a state in `σ`, it answers what it is asked for,
or the message of the mistake that it finds. -/
structure Reader (σ : Type) where
  start : String → σ
  /-- Goes into an object or a list; any other value is a mistake for what is expected. -/
  enter : σ → (expected : String) → Except String (Shape × σ)
  /-- The name of the next member, or nothing behind the end of the object. -/
  nextName : σ → Except String (Option String × σ)
  /-- Goes from the name of a member to its value. -/
  toValue : σ → Except String σ
  /-- Goes to the next element, unless the list ends. -/
  nextElement : σ → Except String (Option σ)
  leaveList : σ → Except String σ
  text : σ → Except String (String × σ)
  flag : σ → Except String (Bool × σ)
  /-- Nothing but blanks may follow. -/
  finish : σ → Except String Unit
  /-- A message about the name that was read last, with the place of that. -/
  located : σ → (message : String) → String

end Json

/-! ## Settings that are given -/

/-- The settings that a text gives, each with a value of its type. -/
structure Config.Given where
  project : Option String
  checkCycles : Option Bool
  debugReport : Option Bool
  deriving DecidableEq, Repr

namespace Config.Given

instance : EmptyCollection Given := ⟨⟨none, none, none⟩⟩

def value? (given : Given) : Setting → Option ConfigValue
  | .project => given.project.map .text
  | .checkCycles => given.checkCycles.map .flag
  | .debugReport => given.debugReport.map .flag

/-- What is not given keeps its default. -/
def orDefault (given : Given) : Config where
  project := given.project.getD default.project
  checkCycles := given.checkCycles.getD default.checkCycles
  debugReport := given.debugReport.getD default.debugReport

/-- The number of settings that are not given. -/
def missing (given : Given) : Nat :=
  Setting.all.countP fun setting => (given.value? setting).isNone

/-! ## Visits -/

section

variable {σ : Type} (reader : Json.Reader σ)

/-- Puts a value that was read into its field. -/
def keep {α : Type} (read : Except String (α × σ)) (put : α → Given) :
    Except String (Given × σ) :=
  read.map fun (value, state) => (put value, state)

/-- Reads a value by the type that its setting has. -/
def take (given : Given) (setting : Setting) (state : σ) : Except String (Given × σ) :=
  match setting with
  | .project => keep (reader.text state) fun value => { given with project := some value }
  | .checkCycles => keep (reader.flag state) fun value => { given with checkCycles := some value }
  | .debugReport => keep (reader.flag state) fun value => { given with debugReport := some value }

def takeMember (given : Given) (setting : Setting) (state : σ) : Except String (Given × σ) :=
  (reader.toValue state).bind (given.take reader setting)

def unknownField (name : String) : String :=
  "unknown field `" ++ name ++ "`, expected one of " ++
    ", ".intercalate (Setting.all.map fun setting => "`" ++ setting.name ++ "`")

def duplicateField (setting : Setting) : String :=
  "duplicate field `" ++ setting.name ++ "`"

variable {reader}

theorem exists_put_of_keep {α : Type} {read : Except String (α × σ)} {put : α → Given}
    {given : Given} {state : σ} (h : keep read put = .ok (given, state)) :
    ∃ value, given = put value := by
  cases read with
  | error message => cases h
  | ok done =>
      cases h
      exact ⟨done.1, rfl⟩

theorem value?_of_take {given later : Given} {setting : Setting} {state behind : σ}
    (h : given.take reader setting state = .ok (later, behind)) :
    ∃ value, ∀ other,
      later.value? other = if other = setting then some value else given.value? other := by
  cases setting with
  | project =>
      simp only [take] at h
      obtain ⟨value, rfl⟩ := exists_put_of_keep h
      exact ⟨.text value, fun other => by cases other <;> rfl⟩
  | checkCycles =>
      simp only [take] at h
      obtain ⟨value, rfl⟩ := exists_put_of_keep h
      exact ⟨.flag value, fun other => by cases other <;> rfl⟩
  | debugReport =>
      simp only [take] at h
      obtain ⟨value, rfl⟩ := exists_put_of_keep h
      exact ⟨.flag value, fun other => by cases other <;> rfl⟩

theorem missing_of_takeMember {given later : Given} {setting : Setting} {state behind : σ}
    (hnew : ¬ (given.value? setting).isSome)
    (h : given.takeMember reader setting state = .ok (later, behind)) :
    later.missing < given.missing := by
  cases hvalue : reader.toValue state with
  | error message => simp [takeMember, hvalue, Except.bind] at h
  | ok value =>
      simp only [takeMember, hvalue, Except.bind] at h
      obtain ⟨value, hlater⟩ := value?_of_take h
      rw [Bool.not_eq_true, Option.isSome_eq_false_iff, Option.isNone_iff_eq_none] at hnew
      cases setting <;> simp [missing, Setting.all, List.countP_cons, hlater, hnew]

end

variable {σ : Type} (reader : Json.Reader σ)

/-- Takes the members of an object in turn.  A setting may be given once. -/
def visitObject (given : Given) (state : σ) : Except String (Given × σ) :=
  match reader.nextName state with
  | .error message => .error message
  | .ok (none, state) => .ok (given, state)
  | .ok (some name, state) =>
      match Setting.ofName? name with
      | none => .error (reader.located state (unknownField name))
      | some setting =>
          if _ : (given.value? setting).isSome then
            .error (reader.located state (duplicateField setting))
          else
            match _ : given.takeMember reader setting state with
            | .error message => .error message
            | .ok (later, state) => visitObject later state
  termination_by given.missing
  decreasing_by exact missing_of_takeMember ‹_› ‹_›

/-- Takes an element of a list for each setting; the last ones may be missing. -/
def visitList (given : Given) (state : σ) : List Setting → Except String (Given × σ)
  | [] => .ok (given, state)
  | setting :: settings =>
      match reader.nextElement state with
      | .error message => .error message
      | .ok none => visitList given state settings
      | .ok (some element) =>
          match given.take reader setting element with
          | .error message => .error message
          | .ok (later, state) => visitList later state settings

/-- What a text has to hold. -/
def expected : String := "struct ProcessorConfig"

def decode (text : String) : Except String Given := do
  let (shape, state) ← reader.enter (reader.start text) expected
  match shape with
  | .object =>
      let (given, state) ← visitObject reader ∅ state
      reader.finish state
      return given
  | .list =>
      let (given, state) ← visitList reader ∅ state Setting.all
      reader.finish (← reader.leaveList state)
      return given

end Config.Given

/-- The configuration that a text holds, which has to be valid. -/
def Config.fromJson {σ : Type} (reader : Json.Reader σ) (text : String) : Except Failure Config :=
  match Given.decode reader text with
  | .error message => .error (.config message)
  | .ok given =>
      match given.orDefault.validate with
      | .error fault => .error fault.failure
      | .ok () => .ok given.orDefault

end InjectionCompiler
