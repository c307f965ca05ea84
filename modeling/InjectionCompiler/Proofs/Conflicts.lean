import InjectionCompiler.Proofs.Inheritance

/-!
# Conflicting getters

An interface has a conflict where it declares several getters of one name, or inherits getters of
one name that return different things.  Each conflict has a report of its own.
-/

namespace InjectionCompiler

/-! ## Conflicts -/

/-- One name of an interface, with the getters that bear it. -/
structure Conflict where
  interface : ClassName
  /-- Whether the getters are inherited; if not, the interface declares them. -/
  inherited : Bool
  method : String
  getters : List Getter
  deriving DecidableEq, Repr

namespace Conflict

/-- The first line of a report about own or inherited getters of an interface. -/
def heading (interface : ClassName) (inherited : Bool) : String :=
  if inherited then "Interface " ++ interface.display ++ " inherits conflicting methods:\n"
  else "Interface " ++ interface.display ++ " contains conflicting methods:\n"

/-- The line about one of the getters. -/
def line (conflict : Conflict) (getter : Getter) : String :=
  if conflict.inherited then
    "  " ++ getter.injectee.display ++ " " ++ conflict.method ++ "() from " ++ getter.owner.display
  else "  " ++ getter.injectee.display ++ " " ++ conflict.method ++ "()"

def text (conflict : Conflict) : String :=
  heading conflict.interface conflict.inherited ++
    "\n".intercalate (conflict.getters.map conflict.line)

/-- What the conflict is about. -/
def place (conflict : Conflict) : ClassName × Bool × String :=
  (conflict.interface, conflict.inherited, conflict.method)

/-- The conflicts that there are on a class path. -/
inductive Arises (path : ClassPath) : Conflict → Prop where
  | own {name : ClassName} {decl : ClassDecl} {method : String}
      (hdecl : path.find? name = some decl) (hplain : decl.isPlainInterface = true)
      (hseveral : 1 <
        ((path.ownGetters decl).filter fun getter => getter.method = method).length) :
      Arises path ⟨name, false, method,
        (path.ownGetters decl).filter fun getter => getter.method = method⟩
  | inherited {name : ClassName} {decl : ClassDecl} {method : String}
      {offered : ClassName → List Getter} {first second : Getter}
      (hdecl : path.find? name = some decl) (hplain : decl.isPlainInterface = true)
      (hparents : ∀ parent ∈ decl.interfaces, path.HasGetters parent (offered parent))
      (hhidden : method ∉ (path.ownGetters decl).map Getter.method)
      (hfirst : first ∈ decl.interfaces.flatMap offered)
      (hsecond : second ∈ decl.interfaces.flatMap offered)
      (hmethods : first.method = method ∧ second.method = method)
      (hdiffer : first.injectee ≠ second.injectee) :
      Arises path ⟨name, true, method,
        (decl.interfaces.flatMap offered).filter fun getter => getter.method = method⟩

/-- Whether a text is about a conflict.  No other fault of contracts begins in this way. -/
def IsText (text : String) : Prop :=
  "Interface ".toList <+: text.toList

instance : DecidablePred IsText :=
  fun text => inferInstanceAs (Decidable ("Interface ".toList <+: text.toList))

theorem isText_append (back : String) : IsText ("Interface " ++ back) := by
  rw [IsText, String.toList_append]
  exact List.prefix_append _ _

theorem isText_text (conflict : Conflict) : IsText conflict.text := by
  unfold text heading
  split <;> simp only [String.append_assoc] <;> exact isText_append _

theorem not_isText {front : String} {letter : Char} {rest : List Char}
    (hfront : front.toList = letter :: rest) (hletter : letter ≠ 'I') (back : String) :
    ¬ IsText (front ++ back) := by
  rintro ⟨later, heq⟩
  rw [String.toList_append, hfront] at heq
  exact hletter (List.cons.inj heq).1.symm

end Conflict

/-! ## The conflicts of one interface -/

def mergeConflicts (name : ClassName) (own inherited : List Getter) : List Conflict :=
  ((ownConflicts own).map fun entry => ⟨name, false, entry.1, entry.2⟩) ++
    (inheritedConflicts own inherited).map fun entry => ⟨name, true, entry.1, entry.2⟩

theorem faults_mergeGetters (name : ClassName) (own inherited : List Getter) :
    (mergeGetters name own inherited).faults =
      (mergeConflicts name own inherited).map Conflict.text := by
  simp only [mergeGetters, mergeConflicts, Logged.faults_bind, Logged.faults_forM,
    Logged.faults_report, Logged.faults_pure, List.append_nil, List.map_append, List.map_map]
  rw [List.map_eq_flatMap, List.map_eq_flatMap]
  rfl

theorem mem_ownConflicts {own : List Getter} {method : String} {getters : List Getter} :
    (method, getters) ∈ ownConflicts own ↔
      getters = own.filter (fun getter => getter.method = method) ∧ 1 < getters.length := by
  rw [ownConflicts, List.mem_filter, Table.mem_entries_group, decide_eq_true_eq, and_assoc]
  refine and_iff_right_of_imp ?_
  rintro ⟨rfl, hseveral⟩
  obtain ⟨getter, hgetter⟩ := List.exists_mem_of_length_pos (Nat.zero_lt_of_lt hseveral)
  obtain ⟨hmem, hmethod⟩ := List.mem_filter.1 hgetter
  exact List.mem_map.2 ⟨getter, hmem, of_decide_eq_true hmethod⟩

theorem mem_visibleGetters {own inherited : List Getter} {getter : Getter} :
    getter ∈ visibleGetters own inherited ↔
      getter ∈ inherited ∧ getter.method ∉ own.map Getter.method := by
  rw [visibleGetters, List.mem_filter, List.contains_eq_mem, Bool.not_eq_true',
    decide_eq_false_iff_not]

theorem filter_visibleGetters {own inherited : List Getter} {method : String}
    (hhidden : method ∉ own.map Getter.method) :
    (visibleGetters own inherited).filter (fun getter => getter.method = method) =
      inherited.filter fun getter => getter.method = method := by
  rw [visibleGetters, List.filter_filter]
  refine List.filter_congr fun getter _ => ?_
  by_cases hmethod : getter.method = method <;> simp_all

def differ : List Getter → Bool
  | [] => false
  | first :: rest => rest.any fun getter => getter.injectee ≠ first.injectee

theorem differ_iff {getters : List Getter} : differ getters = true ↔
    ∃ first ∈ getters, ∃ second ∈ getters, first.injectee ≠ second.injectee := by
  cases getters with
  | nil => simp [differ]
  | cons head rest =>
      simp only [differ, List.any_eq_true, decide_eq_true_eq]
      constructor
      · rintro ⟨getter, hgetter, hne⟩
        exact ⟨getter, List.mem_cons_of_mem _ hgetter, head, List.mem_cons_self .., hne⟩
      · rintro ⟨first, hfirst, second, hsecond, hne⟩
        by_contra hsame
        have hall : ∀ getter ∈ head :: rest, getter.injectee = head.injectee := by
          intro getter hgetter
          rcases List.mem_cons.1 hgetter with rfl | hrest
          · rfl
          · exact not_not.1 fun h => hsame ⟨getter, hrest, h⟩
        exact hne ((hall first hfirst).trans (hall second hsecond).symm)

theorem inheritedConflicts_eq (own inherited : List Getter) :
    inheritedConflicts own inherited =
      (Table.group Getter.method (visibleGetters own inherited)).entries.filter fun entry =>
        differ entry.2 := by
  refine List.filter_congr fun entry _ => ?_
  cases entry.2 <;> rfl

theorem mem_inheritedConflicts {own inherited : List Getter} {method : String}
    {getters : List Getter} :
    (method, getters) ∈ inheritedConflicts own inherited ↔
      method ∉ own.map Getter.method ∧
        getters = inherited.filter (fun getter => getter.method = method) ∧
          ∃ first ∈ getters, ∃ second ∈ getters, first.injectee ≠ second.injectee := by
  rw [inheritedConflicts_eq, List.mem_filter, Table.mem_entries_group, differ_iff]
  constructor
  · rintro ⟨⟨hmethod, rfl⟩, hdiffer⟩
    obtain ⟨getter, hgetter, rfl⟩ := List.mem_map.1 hmethod
    have hhidden := (mem_visibleGetters.1 hgetter).2
    exact ⟨hhidden, filter_visibleGetters hhidden, hdiffer⟩
  · rintro ⟨hhidden, rfl, hdiffer⟩
    rw [← filter_visibleGetters hhidden] at hdiffer ⊢
    obtain ⟨first, hfirst, hsecond⟩ := hdiffer
    obtain ⟨hvisible, hmethod⟩ := List.mem_filter.1 hfirst
    exact ⟨⟨List.mem_map.2 ⟨first, hvisible, of_decide_eq_true hmethod⟩, rfl⟩, first, hfirst,
      hsecond⟩

theorem nodup_mergeConflicts (name : ClassName) (own inherited : List Getter) :
    ((mergeConflicts name own inherited).map Conflict.place).Nodup := by
  have hplaces : ∀ (kind : Bool) (entries : List (String × List Getter)),
      (entries.map Prod.fst).Nodup →
        ((entries.map fun entry => (⟨name, kind, entry.1, entry.2⟩ : Conflict)).map
          Conflict.place).Nodup := by
    intro kind entries hnames
    rw [List.map_map]
    refine List.Nodup.of_map (fun place => place.2.2) ?_
    rw [List.map_map]
    exact hnames
  have hgroup : ∀ (getters : List Getter) (keeps : String × List Getter → Bool),
      (((Table.group Getter.method getters).entries.filter keeps).map Prod.fst).Nodup :=
    fun getters keeps => (Table.distinct _).sublist (List.filter_sublist.map _)
  rw [mergeConflicts, List.map_append, List.nodup_append]
  refine ⟨hplaces _ _ (hgroup ..), hplaces _ _ ?_, ?_⟩
  · rw [inheritedConflicts_eq]
    exact hgroup ..
  -- A name may be in both lists, as own and as inherited getters are different places.
  · simp only [List.map_map, List.mem_map, Function.comp_apply, Conflict.place]
    rintro _ ⟨first, -, rfl⟩ _ ⟨second, -, rfl⟩ heq
    cases heq

namespace ClassPath

variable {path : ClassPath} {hlayered : path.Layered} {name : ClassName}

noncomputable def conflictsOf (path : ClassPath) (hlayered : path.Layered) (name : ClassName) :
    List Conflict :=
  match path.find? name with
  | none => []
  | some decl =>
      if decl.isPlainInterface then
        mergeConflicts name (path.ownGetters decl)
          (decl.interfaces.flatMap (path.offered hlayered))
      else []

theorem conflictsOf_eq {decl : ClassDecl} (hdecl : path.find? name = some decl)
    (hplain : decl.isPlainInterface = true) :
    path.conflictsOf hlayered name = mergeConflicts name (path.ownGetters decl)
      (decl.interfaces.flatMap (path.offered hlayered)) := by
  simp only [conflictsOf, hdecl, hplain, if_true]

theorem exists_decl_of_mem_conflictsOf {conflict : Conflict}
    (h : conflict ∈ path.conflictsOf hlayered name) :
    ∃ decl, path.find? name = some decl ∧ decl.isPlainInterface = true := by
  unfold conflictsOf at h
  split at h
  · cases h
  · next decl hdecl =>
      split at h
      · next hplain => exact ⟨decl, hdecl, hplain⟩
      · cases h

theorem hasGetters_parents (hlayered : path.Layered) (hlegible : path.Legible name)
    {decl : ClassDecl} (hdecl : path.find? name = some decl)
    (hplain : decl.isPlainInterface = true) :
    ∀ parent ∈ decl.interfaces, path.HasGetters parent (path.offered hlayered parent) := by
  intro parent hparent
  have hstep : path.Inherits name parent := by
    change parent ∈ path.superInterfaces name
    simpa only [superInterfaces, hdecl, hplain, if_true] using hparent
  exact hasGetters_offered fun other hway => hlegible other (.head hstep hway)

theorem nodup_conflictsOf : ((path.conflictsOf hlayered name).map Conflict.place).Nodup := by
  unfold conflictsOf
  split
  · exact .nil
  split
  · exact nodup_mergeConflicts ..
  · exact .nil

theorem arises_of_mem_conflictsOf (hlegible : path.Legible name) {conflict : Conflict}
    (h : conflict ∈ path.conflictsOf hlayered name) :
    conflict.interface = name ∧ conflict.Arises path := by
  obtain ⟨decl, hdecl, hplain⟩ := exists_decl_of_mem_conflictsOf h
  rw [conflictsOf_eq hdecl hplain] at h
  rcases List.mem_append.1 h with hown | hinherited
  · obtain ⟨⟨method, getters⟩, hentry, rfl⟩ := List.mem_map.1 hown
    obtain ⟨rfl, hseveral⟩ := mem_ownConflicts.1 hentry
    exact ⟨rfl, .own hdecl hplain hseveral⟩
  · obtain ⟨⟨method, getters⟩, hentry, rfl⟩ := List.mem_map.1 hinherited
    obtain ⟨hhidden, rfl, first, hfirst, second, hsecond, hdiffer⟩ :=
      mem_inheritedConflicts.1 hentry
    rw [List.mem_filter, decide_eq_true_eq] at hfirst hsecond
    exact ⟨rfl, .inherited hdecl hplain (hasGetters_parents hlayered hlegible hdecl hplain)
      hhidden hfirst.1 hsecond.1 ⟨hfirst.2, hsecond.2⟩ hdiffer⟩

theorem mem_conflictsOf_of_arises {conflict : Conflict}
    (hlegible : path.Legible conflict.interface) (h : conflict.Arises path) :
    conflict ∈ path.conflictsOf hlayered conflict.interface := by
  cases h with
  | own hdecl hplain hseveral =>
      rw [conflictsOf_eq hdecl hplain]
      refine List.mem_append_left _ (List.mem_map.2 ⟨(_, _), ?_, rfl⟩)
      exact mem_ownConflicts.2 ⟨rfl, hseveral⟩
  | inherited hdecl hplain hoffered hhidden hfirst hsecond hmethods hdiffer =>
      have hsame := List.flatMap_congr fun parent hparent => (hoffered parent hparent).unique
        (hasGetters_parents hlayered hlegible hdecl hplain parent hparent)
      rw [hsame] at hfirst hsecond ⊢
      rw [conflictsOf_eq hdecl hplain]
      refine List.mem_append_right _ (List.mem_map.2 ⟨(_, _), ?_, rfl⟩)
      exact mem_inheritedConflicts.2 ⟨hhidden, rfl,
        _, List.mem_filter.2 ⟨hfirst, decide_eq_true hmethods.1⟩,
        _, List.mem_filter.2 ⟨hsecond, decide_eq_true hmethods.2⟩, hdiffer⟩

theorem mem_conflictsOf (hlegible : path.Legible name) {conflict : Conflict} :
    conflict ∈ path.conflictsOf hlayered name ↔
      conflict.interface = name ∧ conflict.Arises path := by
  constructor
  · exact arises_of_mem_conflictsOf hlegible
  · rintro ⟨rfl, harises⟩
    exact mem_conflictsOf_of_arises hlegible harises

end ClassPath

end InjectionCompiler
