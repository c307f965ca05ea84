import InjectionCompiler.Key
import InjectionCompiler.Proofs.Table
import Mathlib.Data.List.Sort
import Mathlib.Data.String.Basic

/-!
# The identity of qualifiers

The arguments of an annotation may be set in any order and again and again.  What they make of it is
the map from each name to the value that was set last, also within the annotations that stand among
the values.  Two annotations are the same, and qualify the same keys, just when they come to the
same map, and the display shows the map in ascending order of the names.
-/

namespace InjectionCompiler

theorem lookup_cons_eq_ite {κ α : Type} [DecidableEq κ] (key other : κ) (item : α)
    (entries : List (κ × α)) : List.lookup other ((key, item) :: entries) =
      if other = key then some item else entries.lookup other := by
  by_cases h : other = key
  · simp [h]
  · rw [List.lookup_cons, beq_eq_false_iff_ne.2 h, if_neg h]

/-- The value that is set last under a name. -/
def lastValue? (calls : List (String × Literal)) (name : String) : Option Literal :=
  calls.reverse.lookup name

namespace Annotation

/-! ## Setting an argument -/

/-- Arguments in ascending order of their names, each name once. -/
def Ascending (arguments : List (String × Literal)) : Prop :=
  arguments.Pairwise fun a b => a.1 < b.1

theorem mem_insertArgument {name : String} {value : Literal} {arguments : List (String × Literal)}
    {entry : String × Literal} (h : entry ∈ insertArgument name value arguments) :
    entry = (name, value) ∨ entry ∈ arguments := by
  induction arguments with
  | nil => simpa [insertArgument] using h
  | cons first rest ih =>
      obtain ⟨other, held⟩ := first
      simp only [insertArgument] at h
      split at h
      · simpa using h
      · rcases List.mem_cons.1 h with h | h
        · exact .inl h
        · exact .inr (List.mem_cons_of_mem _ h)
      · rcases List.mem_cons.1 h with h | h
        · exact .inr (by simp [h])
        · exact (ih h).imp_right (List.mem_cons_of_mem _)

theorem ascending_insertArgument (name : String) (value : Literal)
    {arguments : List (String × Literal)} (h : Ascending arguments) :
    Ascending (insertArgument name value arguments) := by
  induction arguments with
  | nil => simp [insertArgument, Ascending]
  | cons first rest ih =>
      obtain ⟨other, held⟩ := first
      obtain ⟨hfirst, hrest⟩ := List.pairwise_cons.1 h
      simp only [insertArgument]
      split
      · next hlt =>
          have hless : name < other := compare_lt_iff_lt.1 hlt
          refine List.pairwise_cons.2 ⟨fun entry hentry => ?_, h⟩
          rcases List.mem_cons.1 hentry with rfl | hmem
          · exact hless
          · exact hless.trans (hfirst entry hmem)
      · next heq =>
          rw [compare_eq_iff_eq.1 heq]
          exact List.pairwise_cons.2 ⟨hfirst, hrest⟩
      · next hgt =>
          refine List.pairwise_cons.2 ⟨fun entry hentry => ?_, ih hrest⟩
          rcases mem_insertArgument hentry with rfl | hmem
          · exact compare_gt_iff_gt.1 hgt
          · exact hfirst entry hmem

theorem lookup_insertArgument (name other : String) (value : Literal)
    (arguments : List (String × Literal)) :
    (insertArgument name value arguments).lookup other =
      if other = name then some value else arguments.lookup other := by
  induction arguments with
  | nil => rw [insertArgument, lookup_cons_eq_ite]
  | cons first rest ih =>
      obtain ⟨held, old⟩ := first
      simp only [insertArgument]
      split
      · rw [lookup_cons_eq_ite]
      · next heq =>
          rw [compare_eq_iff_eq.1 heq]
          by_cases h : other = held <;> simp [h, lookup_cons_eq_ite]
      · next hgt =>
          have hne : held ≠ name := ne_of_lt (compare_gt_iff_gt.1 hgt)
          by_cases h : other = held
          · simp [h, hne]
          · simp [h, ih, lookup_cons_eq_ite]

theorem Ascending.mem_iff {arguments : List (String × Literal)} (h : Ascending arguments)
    {name : String} {value : Literal} :
    (name, value) ∈ arguments ↔ arguments.lookup name = some value := by
  refine ⟨fun hmem => ?_, mem_of_lookup⟩
  induction arguments with
  | nil => cases hmem
  | cons first rest ih =>
      obtain ⟨other, held⟩ := first
      obtain ⟨hfirst, hrest⟩ := List.pairwise_cons.1 h
      rcases List.mem_cons.1 hmem with heq | hmem
      · cases heq
        simp
      · have hne : name ≠ other := (hfirst _ hmem).ne'
        rw [lookup_cons_eq_ite, if_neg hne]
        exact ih hrest hmem

theorem Ascending.ext {as bs : List (String × Literal)} (ha : Ascending as) (hb : Ascending bs)
    (h : ∀ name, as.lookup name = bs.lookup name) : as = bs := by
  have hnodup : ∀ {arguments}, Ascending arguments → arguments.Nodup := fun hascending =>
    hascending.imp fun hlt heq => hlt.ne (congrArg Prod.fst heq)
  have hperm : as.Perm bs := by
    refine (List.perm_ext_iff_of_nodup (hnodup ha) (hnodup hb)).2 fun entry => ?_
    obtain ⟨name, value⟩ := entry
    rw [ha.mem_iff, hb.mem_iff, h]
  exact hperm.eq_of_pairwise (fun _ _ _ _ hlt hgt => absurd hgt hlt.not_gt) ha hb

/-! ## Setting one argument after another -/

theorem setAll_append_singleton (mark : Annotation) (calls : List (String × Literal))
    (name : String) (value : Literal) :
    mark.setAll (calls ++ [(name, value)]) = (mark.setAll calls).set name value := by
  simp [setAll]

@[simp] theorem type_ofType (type : ClassName) : (ofType type).type = type := rfl

theorem type_setAll (mark : Annotation) (calls : List (String × Literal)) :
    (mark.setAll calls).type = mark.type := by
  induction calls using List.reverseRecOn with
  | nil => rfl
  | append_singleton calls call ih =>
      rw [setAll_append_singleton]
      exact ih

theorem ascending_setAll (type : ClassName) (calls : List (String × Literal)) :
    Ascending ((ofType type).setAll calls).arguments := by
  induction calls using List.reverseRecOn with
  | nil => exact .nil
  | append_singleton calls call ih =>
      rw [setAll_append_singleton]
      exact ascending_insertArgument _ _ ih

theorem lookup_setAll (type : ClassName) (calls : List (String × Literal)) (name : String) :
    ((ofType type).setAll calls).arguments.lookup name = lastValue? calls name := by
  induction calls using List.reverseRecOn with
  | nil => rfl
  | append_singleton calls call ih =>
      obtain ⟨other, value⟩ := call
      rw [setAll_append_singleton, lastValue?, List.reverse_append, List.reverse_singleton,
        List.singleton_append, lookup_cons_eq_ite, ← lastValue?, ← ih]
      exact lookup_insertArgument ..

theorem ext {a b : Annotation} (htypes : a.type = b.type) (harguments : a.arguments = b.arguments) :
    a = b := by
  obtain ⟨typeA, as⟩ := a
  obtain ⟨typeB, bs⟩ := b
  cases htypes
  cases harguments
  rfl

theorem setAll_eq_iff {type : ClassName} {as bs : List (String × Literal)} :
    (ofType type).setAll as = (ofType type).setAll bs ↔
      ∀ name, lastValue? as name = lastValue? bs name := by
  constructor
  · intro h name
    rw [← lookup_setAll type, ← lookup_setAll type, h]
  · intro h
    have harguments : ((ofType type).setAll as).arguments = ((ofType type).setAll bs).arguments :=
      (ascending_setAll type as).ext (ascending_setAll type bs) fun name => by
        rw [lookup_setAll, lookup_setAll, h]
    have htypes : ((ofType type).setAll as).type = ((ofType type).setAll bs).type := by
      rw [type_setAll, type_setAll]
    exact ext htypes harguments

end Annotation

/-! ## Annotations within annotations -/

mutual

/-- The value that is written, where the arguments of each annotation in it are listed in the order
in which they are set. -/
def Literal.settled : Literal → Literal
  | .bool value => .bool value
  | .int value => .int value
  | .char value => .char value
  | .string value => .string value
  | .type value => .type value
  | .constant enumeration name => .constant enumeration name
  | .array values => .array (Literal.settledAll values)
  | .nested value => .nested value.settled
  termination_by structural value => value

def Literal.settledAll : List Literal → List Literal
  | [] => []
  | value :: values => value.settled :: Literal.settledAll values
  termination_by structural values => values

def Annotation.settled : Annotation → Annotation
  | .mk type calls => .setAll (.ofType type) (Literal.settledCalls calls)
  termination_by structural mark => mark

def Literal.settledCalls : List (String × Literal) → List (String × Literal)
  | [] => []
  | call :: calls => Literal.settledCall call :: Literal.settledCalls calls
  termination_by structural calls => calls

def Literal.settledCall : String × Literal → String × Literal
  | (name, value) => (name, value.settled)
  termination_by structural call => call

end

namespace Literal

theorem settledAll_eq_map (values : List Literal) : settledAll values = values.map settled := by
  induction values with
  | nil => rfl
  | cons value values ih => rw [settledAll, ih, List.map_cons]

theorem settledCalls_eq_map (calls : List (String × Literal)) :
    settledCalls calls = calls.map fun call => (call.1, call.2.settled) := by
  induction calls with
  | nil => rfl
  | cons call calls ih => rw [settledCalls, ih, List.map_cons, settledCall]

/-- Two written values are the same as far as they are no annotations; annotations are the same when
they have one type and the same names, with the same last values. -/
inductive Agrees : Literal → Literal → Prop where
  | bool (value : Bool) : Agrees (.bool value) (.bool value)
  | int (value : Int) : Agrees (.int value) (.int value)
  | char (value : Char) : Agrees (.char value) (.char value)
  | string (value : String) : Agrees (.string value) (.string value)
  | type (value : Descriptor) : Agrees (.type value) (.type value)
  | constant (enumeration : ClassName) (name : String) :
      Agrees (.constant enumeration name) (.constant enumeration name)
  | array {as bs : List Literal} (hall : List.Forall₂ Agrees as bs) :
      Agrees (.array as) (.array bs)
  | nested {type : ClassName} {as bs : List (String × Literal)}
      (hlast : ∀ name, Option.Rel Agrees (lastValue? as name)
        (lastValue? bs name)) :
      Agrees (.nested (.mk type as)) (.nested (.mk type bs))

theorem rel_agrees_iff {x y : Option Literal}
    (h : ∀ a, x = some a → ∀ b, Agrees a b ↔ a.settled = b.settled) :
    Option.Rel Agrees x y ↔ x.map settled = y.map settled := by
  cases x with
  | none => cases y <;> simp
  | some a =>
      cases y with
      | none => simp
      | some b => simpa using h a rfl b

theorem forall₂_agrees_iff {as bs : List Literal}
    (h : ∀ a ∈ as, ∀ b, Agrees a b ↔ a.settled = b.settled) :
    List.Forall₂ Agrees as bs ↔ as.map settled = bs.map settled := by
  induction as generalizing bs with
  | nil => cases bs <;> simp
  | cons a as ih =>
      cases bs with
      | nil => simp
      | cons b bs =>
          have ha := h a (List.mem_cons_self ..) b
          have has := @ih bs fun other hother => h other (List.mem_cons_of_mem _ hother)
          simp [ha, has]

theorem lastValue?_settledCalls (calls : List (String × Literal)) (name : String) :
    lastValue? (settledCalls calls) name =
      (lastValue? calls name).map settled := by
  rw [lastValue?, lastValue?, settledCalls_eq_map, ← List.map_reverse]
  induction calls.reverse with
  | nil => rfl
  | cons call calls ih =>
      obtain ⟨other, value⟩ := call
      by_cases h : name = other <;> simp [h, ih, lookup_cons_eq_ite]

theorem settled_nested_eq_iff {type : ClassName} {as bs : List (String × Literal)} :
    (nested (.mk type as)).settled = (nested (.mk type bs)).settled ↔
      ∀ name, (lastValue? as name).map settled =
        (lastValue? bs name).map settled := by
  simp only [settled, Annotation.settled, nested.injEq, Annotation.setAll_eq_iff,
    lastValue?_settledCalls]

theorem agrees_iff (a b : Literal) : Agrees a b ↔ a.settled = b.settled := by
  -- Both sides go through the parts of the value: the members of a list, or the last value under
  -- each name of an annotation.
  cases a with
  | array as =>
      have hall : ∀ a ∈ as, ∀ b, Agrees a b ↔ a.settled = b.settled :=
        fun a ha b => agrees_iff a b
      constructor
      · intro h
        cases h with
        | array hsame => simpa [settled, settledAll_eq_map] using (forall₂_agrees_iff hall).1 hsame
      · intro h
        cases b <;> simp only [settled, settledAll_eq_map, reduceCtorEq, array.injEq] at h
        exact .array ((forall₂_agrees_iff hall).2 h)
  | nested mark =>
      obtain ⟨type, calls⟩ := mark
      have hcalls : ∀ call ∈ calls, ∀ b, Agrees call.2 b ↔ call.2.settled = b.settled :=
        fun call hcall b => agrees_iff call.2 b
      have hlast : ∀ name a, lastValue? calls name = some a →
          ∀ b, Agrees a b ↔ a.settled = b.settled := fun name a ha =>
        hcalls (name, a) (List.mem_reverse.1 (mem_of_lookup ha))
      constructor
      · intro h
        cases h with
        | nested hsame =>
            exact settled_nested_eq_iff.2 fun name => (rel_agrees_iff (hlast name)).1 (hsame name)
      · intro h
        cases b with
        | nested other =>
            obtain ⟨otherType, bs⟩ := other
            have htypes : type = otherType := by
              have hsettled := congrArg Annotation.type (nested.inj h)
              simpa [ Annotation.settled, Annotation.type_setAll] using hsettled
            subst htypes
            exact .nested fun name =>
              (rel_agrees_iff (hlast name)).2 (settled_nested_eq_iff.1 h name)
        | _ => simp [settled] at h
  | bool | int | char | string | type =>
      constructor
      · intro h
        cases h
        rfl
      · intro h
        cases b <;> simp only [settled, reduceCtorEq, bool.injEq, int.injEq, char.injEq,
          string.injEq, type.injEq] at h
        subst h
        constructor
  | constant enumeration name =>
      constructor
      · intro h
        cases h
        rfl
      · intro h
        cases b <;> simp only [settled, reduceCtorEq, constant.injEq] at h
        obtain ⟨rfl, rfl⟩ := h
        exact .constant ..
termination_by sizeOf a
decreasing_by
  · have hlt := List.sizeOf_lt_of_mem ha
    simp only [array.sizeOf_spec]
    omega
  · have hlt := List.sizeOf_lt_of_mem hcall
    obtain ⟨name, value⟩ := call
    simp only [nested.sizeOf_spec, Annotation.mk.sizeOf_spec, Prod.mk.sizeOf_spec] at hlt ⊢
    omega

theorem displayArguments_eq_map (arguments : List (String × Literal)) :
    displayArguments arguments = arguments.map fun entry => entry.1 ++ "=" ++ entry.2.display := by
  induction arguments with
  | nil => rfl
  | cons entry arguments ih => rw [displayArguments, ih, List.map_cons, displayArgument]

end Literal

/-! ## What an annotation is -/

namespace Annotation

/-- The annotation that is left when arguments are set one after another. -/
def ofCalls (type : ClassName) (calls : List (String × Literal)) : Annotation :=
  settled (.mk type calls)

/-- The same names are set, and under each of them the values that are set last agree. -/
def SameLastValues (as bs : List (String × Literal)) : Prop :=
  ∀ name, Option.Rel Literal.Agrees (lastValue? as name) (lastValue? bs name)

/-- The text shows the last value of each name, in ascending order of the names. -/
def ShowsLastValues (type : ClassName) (calls : List (String × Literal)) (text : String) : Prop :=
  ∃ shown : List (String × Literal), Ascending shown ∧
    (∀ name value, (name, value) ∈ shown ↔
      (lastValue? calls name).map Literal.settled = some value) ∧
    text = "@" ++ type.display ++
      if shown = [] then ""
      else "(" ++ ", ".intercalate (shown.map fun entry =>
        entry.1 ++ "=" ++ entry.2.display) ++ ")"

theorem ofCalls_eq_iff {type : ClassName} {as bs : List (String × Literal)} :
    ofCalls type as = ofCalls type bs ↔ SameLastValues as bs := by
  have hsettled : Literal.Agrees (.nested (.mk type as)) (.nested (.mk type bs)) ↔
      ofCalls type as = ofCalls type bs := by
    rw [Literal.agrees_iff, Literal.settled, Literal.settled, Literal.nested.injEq]
    rfl
  rw [← hsettled]
  constructor
  · intro h
    cases h with
    | nested hlast => exact hlast
  · exact .nested

theorem display_eq (mark : Annotation) : mark.display = "@" ++ mark.type.display ++
    if mark.arguments = [] then ""
    else "(" ++ ", ".intercalate (mark.arguments.map fun entry =>
      entry.1 ++ "=" ++ entry.2.display) ++ ")" := by
  obtain ⟨type, arguments⟩ := mark
  rw [display, Literal.displayArguments_eq_map]
  cases arguments <;> rfl

theorem showsLastValues_ofCalls (type : ClassName) (calls : List (String × Literal)) :
    ShowsLastValues type calls (ofCalls type calls).display := by
  have hascending := ascending_setAll type (Literal.settledCalls calls)
  refine ⟨(ofCalls type calls).arguments, hascending, fun name value => ?_, ?_⟩
  · rw [← Literal.lastValue?_settledCalls, ← lookup_setAll type]
    exact hascending.mem_iff
  · have htype : (ofCalls type calls).type = type := type_setAll ..
    rw [display_eq, htype]

/-- The order in which arguments are set and the values that are set over leave no trace: what
identifies an annotation, and the keys that it qualifies, is the last value of each name. -/
theorem identified_by_last_values (type : ClassName) (as bs : List (String × Literal)) :
    (ofCalls type as = ofCalls type bs ↔ SameLastValues as bs) ∧
    (∀ asked : Signature, Key.mk asked (some (ofCalls type as)) =
      Key.mk asked (some (ofCalls type bs)) ↔ SameLastValues as bs) ∧
    (SameLastValues as bs → (ofCalls type as).display = (ofCalls type bs).display) ∧
    ShowsLastValues type as (ofCalls type as).display := by
  refine ⟨ofCalls_eq_iff, fun asked => ?_, fun h => ?_, showsLastValues_ofCalls type as⟩
  · rw [← ofCalls_eq_iff, Key.mk.injEq, Option.some.injEq, and_iff_right rfl]
  · rw [ofCalls_eq_iff.2 h]

example :
    (ofCalls ⟨"inn/Size"⟩ [("width", .int 1), ("height", .int 2), ("width", .int 3)]).display =
      "@inn.Size(height=2, width=3)" := by
  decide +kernel

end Annotation

end InjectionCompiler
