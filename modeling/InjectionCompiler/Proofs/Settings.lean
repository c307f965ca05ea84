import InjectionCompiler.Config.Json
import InjectionCompiler.Proofs.Environment
import InjectionCompiler.Proofs.Spelling

/-!
# Settings in JSON and in other sources

Some of the settings may be given, each by a value of its type.  An object spells them by its
members, in any order, with blanks between all parts and with any spelling of the strings.  With any
reader that answers the members of an object as they are spelled, decoding gives the configuration
that is loaded from every other source of these values, or is refused for the same fault.
-/

namespace InjectionCompiler

/-! ## The grammar of objects -/

namespace Json

/-- The names and the values of an object, in order. -/
abbrev Members := List (String × ConfigValue)

def Blank (text : List Char) : Prop :=
  ∀ c ∈ text, c = ' ' ∨ c = '\t' ∨ c = '\n' ∨ c = '\r'

inductive SpellsValue : ConfigValue → List Char → Prop where
  | text {value : String} {spelled : List Char} (hstring : SpellsString value spelled) :
      SpellsValue (.text value) spelled
  | true : SpellsValue (.flag true) "true".toList
  | false : SpellsValue (.flag false) "false".toList

inductive SpellsMember : String × ConfigValue → List Char → Prop where
  | member {name : String} {value : ConfigValue}
      {quoted spelled front middle back rear : List Char}
      (hname : SpellsString name quoted) (hvalue : SpellsValue value spelled)
      (hfront : Blank front) (hmiddle : Blank middle) (hback : Blank back) (hrear : Blank rear) :
      SpellsMember (name, value)
        (front ++ quoted ++ middle ++ [':'] ++ back ++ spelled ++ rear)

inductive SpellsMembers : Members → List Char → Prop where
  | last {member : String × ConfigValue} {spelled : List Char}
      (hmember : SpellsMember member spelled) :
      SpellsMembers [member] spelled
  | cons {member : String × ConfigValue} {members : Members} {spelled rest : List Char}
      (hmember : SpellsMember member spelled) (hrest : SpellsMembers members rest) :
      SpellsMembers (member :: members) (spelled ++ [','] ++ rest)

inductive SpellsObject : Members → List Char → Prop where
  | empty {inner : List Char} (hinner : Blank inner) :
      SpellsObject [] (['\x7b'] ++ inner ++ ['\x7d'])
  | members {members : Members} {inner : List Char} (hinner : SpellsMembers members inner) :
      SpellsObject members (['\x7b'] ++ inner ++ ['\x7d'])

inductive SpellsDocument : Members → List Char → Prop where
  | document {members : Members} {front object rear : List Char} (hfront : Blank front)
      (hobject : SpellsObject members object) (hrear : Blank rear) :
      SpellsDocument members (front ++ object ++ rear)

/-! ## Readers that follow the grammar -/

namespace Reader

variable {σ : Type} (reader : Reader σ)

/-- The reader answers a value to whoever asks for one of its type. -/
inductive ReadsValue : σ → ConfigValue → σ → Prop where
  | text {state behind : σ} {value : String} (hread : reader.text state = .ok (value, behind)) :
      ReadsValue state (.text value) behind
  | flag {state behind : σ} {value : Bool} (hread : reader.flag state = .ok (value, behind)) :
      ReadsValue state (.flag value) behind

/-- The reader answers the members in turn, then the end of the object, and finds nothing behind. -/
inductive Reads : σ → Members → Prop where
  | done {state behind : σ} (hend : reader.nextName state = .ok (none, behind))
      (hfinish : reader.finish behind = .ok ()) : Reads state []
  | member {state named valued behind : σ} {name : String} {value : ConfigValue}
      {members : Members} (hname : reader.nextName state = .ok (some name, named))
      (hcolon : reader.toValue named = .ok valued)
      (hvalue : reader.ReadsValue valued value behind) (hrest : Reads behind members) :
      Reads state ((name, value) :: members)

/-- Whatever text spells an object of texts and truth values, under names that differ, the reader
accepts it and answers the members. -/
def Conforms : Prop :=
  ∀ (members : Members) (text expected : String), (members.map Prod.fst).Nodup →
    SpellsDocument members text.toList →
      ∃ inner, reader.enter (reader.start text) expected = .ok (.object, inner) ∧
        reader.Reads inner members

end Reader

/-! ## Parts of a member -/

theorem skipBlanks_append {blanks : List Char} (h : Blank blanks) (rest : List Char) :
    skipBlanks (blanks ++ rest) = skipBlanks rest := by
  have hblank : ∀ c ∈ blanks, isBlank c := by
    intro c hc
    rcases h c hc with rfl | rfl | rfl | rfl <;> rfl
  exact List.dropWhile_append_of_pos hblank

theorem skipBlanks_of_blank {blanks : List Char} (h : Blank blanks) : skipBlanks blanks = [] := by
  have hskip := skipBlanks_append h []
  rwa [List.append_nil] at hskip

theorem readName_append {blanks : List Char} (h : Blank blanks) (isFirst : Bool)
    (rest : List Char) : readName isFirst (blanks ++ rest) = readName isFirst rest := by
  rw [readName, skipBlanks_append h, readName]

def separator (isFirst : Bool) : List Char :=
  if isFirst then [] else [',']

theorem readName_of_spellsString {name : String} {quoted front : List Char} (hfront : Blank front)
    (hname : SpellsString name quoted) (isFirst : Bool) (rest : List Char) :
    readName isFirst (separator isFirst ++ front ++ quoted ++ rest) = .ok (some name, rest) := by
  obtain ⟨hinner⟩ := hname
  have hscan := scanString_of_spellsChars hinner rest
  have hquote : ∀ text, skipBlanks ('\"' :: text) = '\"' :: text := fun _ => rfl
  have hcomma : ∀ text, skipBlanks (',' :: text) = ',' :: text := fun _ => rfl
  cases isFirst with
  | true =>
      simp [readName, separator, skipBlanks_append hfront, hquote, hscan, Except.map]
  | false =>
      simp [readName, separator, hcomma, skipBlanks_append hfront, hquote, hscan, Except.map]

theorem readName_of_end {blanks : List Char} (h : Blank blanks) (isFirst : Bool)
    (rest : List Char) : readName isFirst (blanks ++ '\x7d' :: rest) = .ok (none, rest) := by
  rw [readName_append h]
  rfl

theorem readColon_append {blanks : List Char} (h : Blank blanks) (rest : List Char) :
    readColon (blanks ++ ':' :: rest) = .ok rest := by
  have hcolon : skipBlanks (':' :: rest) = ':' :: rest := rfl
  simp [readColon, skipBlanks_append h, hcolon]

theorem readText_of_spellsString {value : String} {spelled front : List Char}
    (hfront : Blank front) (h : SpellsString value spelled) (rest : List Char) :
    readText (front ++ spelled ++ rest) = .ok (value, rest) := by
  obtain ⟨hinner⟩ := h
  have hquote : ∀ text, skipBlanks ('\"' :: text) = '\"' :: text := fun _ => rfl
  simp [readText, skipBlanks_append hfront, hquote, scanString_of_spellsChars hinner]

theorem readFlag_of_spellsValue {flag : Bool} {spelled front : List Char} (hfront : Blank front)
    (h : SpellsValue (.flag flag) spelled) (rest : List Char) :
    readFlag (front ++ spelled ++ rest) = .ok (flag, rest) := by
  rw [List.append_assoc, readFlag, skipBlanks_append hfront]
  cases h <;> rfl

theorem readShape_of_object {blanks : List Char} (h : Blank blanks) (expected : String)
    (rest : List Char) : readShape expected (blanks ++ '\x7b' :: rest) = .ok (.object, rest) := by
  rw [readShape, skipBlanks_append h]
  rfl

theorem readEnd_of_blank {blanks : List Char} (h : Blank blanks) : readEnd blanks = .ok () := by
  rw [readEnd, skipBlanks_of_blank h]

/-! ## The reader of texts -/

theorem readsValue_reader {value : ConfigValue} {spelled front : List Char} (hfront : Blank front)
    (h : SpellsValue value spelled) (whole rest : List Char) (isFirst : Bool) :
    reader.ReadsValue ⟨whole, front ++ spelled ++ rest, isFirst⟩ value ⟨whole, rest, false⟩ := by
  cases value with
  | text value =>
      cases h with
      | text hstring =>
          apply Reader.ReadsValue.text
          simp only [reader, readText_of_spellsString hfront hstring, Place.answer_ok, Place.behind]
  | flag value =>
      apply Reader.ReadsValue.flag
      simp only [reader, readFlag_of_spellsValue hfront h, Place.answer_ok, Place.behind]

theorem reads_reader_of_end {blanks rear : List Char} (h : Blank blanks) (hrear : Blank rear)
    (whole : List Char) (isFirst : Bool) :
    reader.Reads ⟨whole, blanks ++ '\x7d' :: rear, isFirst⟩ [] := by
  have hend : reader.nextName ⟨whole, blanks ++ '\x7d' :: rear, isFirst⟩ =
      .ok (none, ⟨whole, rear, false⟩) := by
    simp only [reader, readName_of_end h, Place.answer_ok, Place.behind]
  have hfinish : reader.finish ⟨whole, rear, false⟩ = .ok () := by
    simp only [reader, readEnd_of_blank hrear, Place.told_ok]
  exact .done hend hfinish

theorem nextName_append {blanks : List Char} (h : Blank blanks) (whole rest : List Char)
    (isFirst : Bool) :
    reader.nextName ⟨whole, blanks ++ rest, isFirst⟩ = reader.nextName ⟨whole, rest, isFirst⟩ := by
  simp only [reader, readName_append h, Place.answer, Place.told, Place.behind]

theorem reads_reader_append {blanks : List Char} (h : Blank blanks) {whole rest : List Char}
    {isFirst : Bool} {members : Members} (hreads : reader.Reads ⟨whole, rest, isFirst⟩ members) :
    reader.Reads ⟨whole, blanks ++ rest, isFirst⟩ members := by
  have hname := nextName_append h whole rest isFirst
  cases hreads with
  | done hend hfinish => exact .done (hname.trans hend) hfinish
  | member hfirst hcolon hvalue hrest => exact .member (hname.trans hfirst) hcolon hvalue hrest

theorem reads_reader_of_spellsMember {member : String × ConfigValue} {members : Members}
    {spelled : List Char} (hmember : SpellsMember member spelled) {whole rest : List Char}
    (hreads : reader.Reads ⟨whole, rest, false⟩ members) (isFirst : Bool) :
    reader.Reads ⟨whole, separator isFirst ++ spelled ++ rest, isFirst⟩ (member :: members) := by
  cases hmember with
  | @member name value quoted spelled front middle back rear hname hvalue hfront hmiddle hback
      hrear =>
      have htext : separator isFirst ++
          (front ++ quoted ++ middle ++ [':'] ++ back ++ spelled ++ rear) ++ rest =
            separator isFirst ++ front ++ quoted ++
              (middle ++ ':' :: (back ++ spelled ++ (rear ++ rest))) := by
        simp
      have hnamed : ∀ later, reader.nextName
          ⟨whole, separator isFirst ++ front ++ quoted ++ later, isFirst⟩ =
            .ok (some name, ⟨whole, later, false⟩) := by
        intro later
        simp only [reader, readName_of_spellsString hfront hname, Place.answer_ok, Place.behind]
      have hvalued : ∀ later,
          reader.toValue ⟨whole, middle ++ ':' :: later, false⟩ = .ok ⟨whole, later, false⟩ := by
        intro later
        simp only [reader, readColon_append hmiddle, Place.told_ok, Place.behind, Except.map]
      rw [htext]
      exact .member (hnamed _) (hvalued _) (readsValue_reader hback hvalue whole _ false)
        (reads_reader_append hrear hreads)

theorem reads_reader_of_spellsMembers {members : Members} {spelled : List Char}
    (h : SpellsMembers members spelled) {rear : List Char} (hrear : Blank rear)
    (whole : List Char) (isFirst : Bool) :
    reader.Reads ⟨whole, separator isFirst ++ spelled ++ '\x7d' :: rear, isFirst⟩ members := by
  induction h generalizing isFirst with
  | last hmember =>
      have hnone : Blank [] := by simp [Blank]
      have hend := reads_reader_of_end hnone hrear whole false
      exact reads_reader_of_spellsMember hmember hend isFirst
  | @cons member members spelled others hmember _ ih =>
      have htext : separator isFirst ++ (spelled ++ [','] ++ others) ++ '\x7d' :: rear =
          separator isFirst ++ spelled ++ (separator false ++ others ++ '\x7d' :: rear) := by
        simp [separator]
      rw [htext]
      exact reads_reader_of_spellsMember hmember (ih false) isFirst

theorem enter_reader_of_object {front inner : List Char} (hfront : Blank front)
    (whole rear : List Char) (expected : String) :
    reader.enter ⟨whole, front ++ (['\x7b'] ++ inner ++ ['\x7d']) ++ rear, true⟩ expected =
      .ok (.object, ⟨whole, inner ++ '\x7d' :: rear, true⟩) := by
  have htext : front ++ (['\x7b'] ++ inner ++ ['\x7d']) ++ rear =
      front ++ '\x7b' :: (inner ++ '\x7d' :: rear) := by
    simp
  rw [htext]
  simp only [reader, readShape_of_object hfront, Place.told_ok, Except.map]

/-- The reader of texts follows the grammar. -/
theorem conforms_reader : reader.Conforms := by
  intro members text expected _ hspelled
  change ∃ inner, reader.enter ⟨text.toList, text.toList, true⟩ expected = .ok (.object, inner) ∧
    reader.Reads inner members
  generalize text.toList = whole at hspelled ⊢
  obtain ⟨hfront, hobject, hrear⟩ := hspelled
  cases hobject with
  | empty hinner =>
      exact ⟨_, enter_reader_of_object hfront _ _ expected, reads_reader_of_end hinner hrear _ true⟩
  | members hinner =>
      exact ⟨_, enter_reader_of_object hfront _ _ expected,
        reads_reader_of_spellsMembers hinner hrear _ true⟩

end Json

/-! ## What is given -/

namespace Setting

theorem ofName?_name (setting : Setting) : ofName? setting.name = some setting := by
  cases setting <;> decide

theorem name_injective : Function.Injective name := by
  intro setting other h
  exact Option.some.inj ((ofName?_name setting).symm.trans (h ▸ ofName?_name other))

end Setting

namespace Config.Given

/-- The members give each chosen setting once and nothing else. -/
structure Lists (choice : Given) (members : Json.Members) : Prop where
  distinct : (members.map Prod.fst).Nodup
  mem_iff : ∀ name value, (name, value) ∈ members ↔
    ∃ setting : Setting, setting.name = name ∧ choice.value? setting = some value

variable {σ : Type} {reader : Json.Reader σ} {choice given : Given}

theorem ext_value? {other : Given} (h : ∀ setting, given.value? setting = other.value? setting) :
    given = other := by
  have htext : Function.Injective (Option.map ConfigValue.text) :=
    Option.map_injective fun _ _ => ConfigValue.text.inj
  have hflag : Function.Injective (Option.map ConfigValue.flag) :=
    Option.map_injective fun _ _ => ConfigValue.flag.inj
  have hproject : given.project = other.project := htext (h .project)
  have hcheckCycles : given.checkCycles = other.checkCycles := hflag (h .checkCycles)
  have hdebugReport : given.debugReport = other.debugReport := hflag (h .debugReport)
  cases given
  cases other
  simp_all

/-! ## Decoding an object -/

theorem exists_take {setting : Setting} {value : ConfigValue} {state behind : σ}
    (hchoice : choice.value? setting = some value)
    (hread : reader.ReadsValue state value behind) :
    ∃ later, given.take reader setting state = .ok (later, behind) ∧
      ∀ other, later.value? other = if other = setting then some value else given.value? other := by
  cases setting with
  | project =>
      obtain ⟨text, -, rfl⟩ := Option.map_eq_some_iff.1 hchoice
      cases hread with
      | text hread =>
          refine ⟨{ given with project := some text }, ?_, fun other => by cases other <;> rfl⟩
          simp only [take, keep, hread, Except.map]
  | checkCycles =>
      obtain ⟨flag, -, rfl⟩ := Option.map_eq_some_iff.1 hchoice
      cases hread with
      | flag hread =>
          refine ⟨{ given with checkCycles := some flag }, ?_, fun other => by cases other <;> rfl⟩
          simp only [take, keep, hread, Except.map]
  | debugReport =>
      obtain ⟨flag, -, rfl⟩ := Option.map_eq_some_iff.1 hchoice
      cases hread with
      | flag hread =>
          refine ⟨{ given with debugReport := some flag }, ?_, fun other => by cases other <;> rfl⟩
          simp only [take, keep, hread, Except.map]

/-- The members that are still to be read are those of the choice that are not given. -/
structure Awaits (choice given : Given) (members : Json.Members) : Prop where
  distinct : (members.map Prod.fst).Nodup
  chosen : ∀ member ∈ members, ∃ setting : Setting,
    setting.name = member.1 ∧ choice.value? setting = some member.2
  value?_eq : ∀ setting : Setting, given.value? setting =
    if setting.name ∈ members.map Prod.fst then none else choice.value? setting

theorem Lists.awaits {members : Json.Members} (h : choice.Lists members) :
    choice.Awaits ∅ members where
  distinct := h.distinct
  chosen member hmember := (h.mem_iff _ _).1 hmember
  value?_eq setting := by
    have hnone : value? ∅ setting = none := by cases setting <;> rfl
    rw [hnone]
    split
    · rfl
    · next hname =>
        symm
        rw [Option.eq_none_iff_forall_ne_some]
        intro value hvalue
        exact hname (List.mem_map_of_mem ((h.mem_iff _ _).2 ⟨setting, rfl, hvalue⟩))

theorem Awaits.eq (h : choice.Awaits given []) : given = choice :=
  ext_value? fun setting => by simp [h.value?_eq]

theorem Awaits.next {later : Given} {setting : Setting} {value : ConfigValue}
    {members : Json.Members} (h : choice.Awaits given ((setting.name, value) :: members))
    (hchoice : choice.value? setting = some value)
    (hlater : ∀ other,
      later.value? other = if other = setting then some value else given.value? other) :
    choice.Awaits later members := by
  obtain ⟨hnew, hdistinct⟩ := List.nodup_cons.1 h.distinct
  refine ⟨hdistinct, fun member hmember => h.chosen member (List.mem_cons_of_mem _ hmember), ?_⟩
  intro other
  rw [hlater]
  by_cases heq : other = setting
  · rw [if_pos heq, heq, if_neg hnew, hchoice]
  · have hname : other.name ≠ setting.name := fun hsame => heq (Setting.name_injective hsame)
    rw [if_neg heq, h.value?_eq, List.map_cons]
    simp only [List.mem_cons, hname, false_or]

theorem visitObject_of_reads {state : σ} {members : Json.Members}
    (hreads : reader.Reads state members) (hawaits : choice.Awaits given members) :
    ∃ behind, given.visitObject reader state = .ok (choice, behind) ∧
      reader.finish behind = .ok () := by
  -- Induction on what the reader answers, with the settings in `given` that were read before.
  induction hreads generalizing given with
  | @done state behind hend hfinish =>
      refine ⟨behind, ?_, hfinish⟩
      rw [visitObject, hend, hawaits.eq]
  | @member state named valued behind name value members hname hcolon hvalue _ ih =>
      obtain ⟨setting, rfl, hchoice⟩ := hawaits.chosen _ List.mem_cons_self
      have hnew : given.value? setting = none := by simp [hawaits.value?_eq]
      obtain ⟨later, htake, hlater⟩ := @exists_take _ _ _ given _ _ _ _ hchoice hvalue
      have hmember : given.takeMember reader setting named = .ok (later, behind) := by
        rw [takeMember, hcolon]
        exact htake
      obtain ⟨last, hvisit, hfinish⟩ := ih (hawaits.next hchoice hlater)
      refine ⟨last, ?_, hfinish⟩
      rw [visitObject, hname]
      simp only [Setting.ofName?_name, hnew, Option.isSome_none, Bool.false_eq_true, dite_false]
      split
      · next hmistake => cases hmember.symm.trans hmistake
      · next hread =>
          cases hmember.symm.trans hread
          exact hvisit

/-- An object with the chosen members is decoded to the choice, however it is spelled. -/
theorem decode_of_spellsDocument (hreader : reader.Conforms) {members : Json.Members}
    {text : String} (hlists : choice.Lists members)
    (hspelled : Json.SpellsDocument members text.toList) :
    decode reader text = .ok choice := by
  obtain ⟨inner, henter, hreads⟩ := hreader members text expected hlists.distinct hspelled
  obtain ⟨behind, hvisit, hfinish⟩ := visitObject_of_reads hreads hlists.awaits
  simp only [decode, henter, hvisit, hfinish, bind, Except.bind, pure, Except.pure]

end Config.Given

namespace Config

variable {choice : Given} {source : ConfigSource}

theorem load_of_choice
    (hsource : ∀ setting : Setting, source setting.name = choice.value? setting) :
    load source = choice.orDefault.validate.map fun _ => choice.orDefault := by
  have hread : readFrom source = .ok choice.orDefault := by
    rw [readFrom_eq_ok_iff]
    intro setting
    rw [hsource]
    obtain ⟨project, checkCycles, debugReport⟩ := choice
    cases setting with
    | project => cases project <;> rfl
    | checkCycles => cases checkCycles <;> rfl
    | debugReport => cases debugReport <;> rfl
  rw [load, hread]
  rcases hvalid : choice.orDefault.validate with fault | done <;>
    simp [bind, Except.bind, pure, Except.pure, hvalid, Except.map]

/-- Whatever the spelling of an object, and with any reader that follows the grammar, the
configuration is the one that every other source of the members gives. -/
theorem fromJson_eq_load {σ : Type} {reader : Json.Reader σ} (hreader : reader.Conforms)
    {members : Json.Members} {text : String} (hlists : choice.Lists members)
    (hspelled : Json.SpellsDocument members text.toList)
    (hsource : ∀ setting : Setting, source setting.name = choice.value? setting) :
    fromJson reader text = (load source).mapError ConfigFault.failure ∧
      load source = choice.orDefault.validate.map fun _ => choice.orDefault := by
  have hload := load_of_choice hsource
  refine ⟨?_, hload⟩
  rw [fromJson, Given.decode_of_spellsDocument hreader hlists hspelled, hload]
  rcases hvalid : choice.orDefault.validate with fault | ⟨⟩ <;>
    simp only [hvalid] <;> rfl

end Config

/-! ## A spelling with escapes -/

namespace Rocket

def name : String := String.ofList ['a', Char.ofNat 0x1f680]

def choice : Config.Given := ⟨some name, none, some true⟩

def members : Json.Members :=
  [("debug_report", .flag true), ("project_name", .text name)]

def text : String :=
  "\x7b \"debug_report\" : true,\n\"project\\u005fname\":\"a\\ud83d\\uDE80\"\x7d\n"

def source : ConfigSource :=
  fun name => (Setting.ofName? name).bind choice.value?

theorem source_name (setting : Setting) : source setting.name = choice.value? setting := by
  rw [source, Setting.ofName?_name, Option.bind_some]

theorem lists_members : choice.Lists members := by
  refine ⟨by decide, fun key value => ?_⟩
  constructor
  · intro h
    simp only [members, List.mem_cons, Prod.mk.injEq, List.not_mem_nil, or_false] at h
    rcases h with ⟨rfl, rfl⟩ | ⟨rfl, rfl⟩
    · exact ⟨.debugReport, rfl, rfl⟩
    · exact ⟨.project, rfl, rfl⟩
  · rintro ⟨setting, rfl, h⟩
    cases setting <;> cases h <;> simp [members, Setting.name]

theorem spellsString_project :
    Json.SpellsString (Setting.name .project) "\"project\\u005fname\"".toList := by
  have hfront : Json.SpellsChars "project".toList "project".toList :=
    Json.spellsChars_self (by simp)
  have hrear : Json.SpellsChars "name".toList "name".toList := Json.spellsChars_self (by simp)
  have hunderscore : Json.SpellsChar '_' "\\u005f".toList :=
    .code (.digits (a := 0) (b := 0) (c := 5) (d := 15) (.inl rfl) (.inl rfl) (.inl rfl) (.inl rfl))
  have hname : Json.SpellsChars (Setting.name .project).toList "project\\u005fname".toList :=
    hfront.append (.cons hunderscore hrear)
  exact .quoted hname

theorem spellsString_name : Json.SpellsString name "\"a\\ud83d\\uDE80\"".toList := by
  have hleading : Json.SpellsCode 0xd83d "d83d".toList :=
    .digits (a := 13) (b := 8) (c := 3) (d := 13) (.inl rfl) (.inl rfl) (.inl rfl) (.inl rfl)
  have htrailing : Json.SpellsCode 0xde80 "DE80".toList :=
    .digits (a := 13) (b := 14) (c := 8) (d := 0) (.inr rfl) (.inr rfl) (.inl rfl) (.inl rfl)
  have hpair : Json.SpellsChar (Char.ofNat 0x1f680) "\\ud83d\\uDE80".toList :=
    .pair (by decide) (by decide) (by decide) hleading htrailing
  have hfront : Json.SpellsChars ['a'] ['a'] := Json.spellsChars_self (by simp)
  have hname : Json.SpellsChars name.toList "a\\ud83d\\uDE80".toList :=
    hfront.append (.cons hpair .nil)
  exact .quoted hname

theorem spellsDocument_text : Json.SpellsDocument members text.toList := by
  have hspace : Json.Blank [' '] := by simp [Json.Blank]
  have hfeed : Json.Blank ['\n'] := by simp [Json.Blank]
  have hnone : Json.Blank [] := by simp [Json.Blank]
  have hstring : Json.SpellsString (Setting.name .debugReport) "\"debug_report\"".toList :=
    .quoted (Json.spellsChars_self (by simp [Setting.name]))
  have hdebugReport := Json.SpellsMember.member hstring .true hspace hspace hspace hnone
  have hproject := Json.SpellsMember.member spellsString_project (.text spellsString_name)
    hfeed hnone hnone hnone
  exact .document hnone (.members (.cons hdebugReport (.last hproject))) hfeed

end Rocket

theorem Config.fromJson_eq_load_rocket :
    Json.reader.Conforms ∧ Rocket.choice.Lists Rocket.members ∧
    Json.SpellsDocument Rocket.members Rocket.text.toList ∧
    (∀ setting : Setting, Rocket.source setting.name = Rocket.choice.value? setting) ∧
    fromJson Json.reader Rocket.text = (load Rocket.source).mapError ConfigFault.failure ∧
    ofJson Rocket.text = .ok ⟨Rocket.name, true, true⟩ := by
  obtain ⟨hjson, hload⟩ := fromJson_eq_load Json.conforms_reader Rocket.lists_members
    Rocket.spellsDocument_text Rocket.source_name
  refine ⟨Json.conforms_reader, Rocket.lists_members, Rocket.spellsDocument_text,
    Rocket.source_name, hjson, ?_⟩
  rw [ofJson, hjson, hload]
  rfl

end InjectionCompiler
