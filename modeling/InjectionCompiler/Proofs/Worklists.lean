import InjectionCompiler.Proofs.Discovery
import InjectionCompiler.Proofs.Search

/-!
# Worklists

Ancestors and modules are found by taking names from a queue that may grow and may hold a name many
times.  Told step by step, without a bound on their number: the steps end, each module is parsed at
most once, and the last state is what the search answers.
-/

namespace InjectionCompiler

open Relation (ReflTransGen)

/-! ## Searches -/

namespace SearchSpace

variable {α : Type} [DecidableEq α] {space : SearchSpace α}

/-- A search takes one node from its queue.  The state is what is listed, and the queue. -/
inductive Takes (space : SearchSpace α) : List α × List α → List α × List α → Prop where
  | take (listed : List α) (node : α) (rest : List α) :
      space.Takes (listed, node :: rest)
        (listed ++ unseen listed (space.next node), rest ++ unseen listed (space.next node))

/-- What leaves the queue is not made up for by what is listed for the first time. -/
theorem wellFounded_takes (space : SearchSpace α) :
    WellFounded fun after before => space.Takes before after := by
  refine Subrelation.wf ?_
    (measure fun state : List α × List α => remaining space.bound state.1 + state.2.length).wf
  rintro _ _ ⟨listed, node, rest⟩
  have hfresh := @remaining_append α _ space.bound listed (unseen listed (space.next node))
    (fun x hx => space.closed (mem_unseen.1 hx).1) (fun x hx => (mem_unseen.1 hx).2)
    (nodup_unseen _ _)
  change remaining space.bound (listed ++ _) + (rest ++ _).length <
    remaining space.bound listed + (node :: rest).length
  rw [List.length_append, List.length_cons]
  omega

theorem takes_visit (listed queue : List α) :
    ReflTransGen space.Takes (listed, queue) (space.visit listed queue, []) := by
  fun_induction space.visit listed queue with
  | case1 listed => exact .refl
  | case2 listed node rest fresh ih => exact .head (.take listed node rest) ih

end SearchSpace

/-! ## Modules -/

/-- Where the work on modules stands. -/
structure ModuleDesk where
  modules : ClassPath.UnlinkedModules
  queue : List ClassName
  book : ContractBook
  /-- All modules that were ever parsed, in order. -/
  parsed : List ClassName

namespace ModuleDesk

def start (roots : List ClassName) (book : ContractBook) : ModuleDesk :=
  ⟨∅, roots, book, []⟩

end ModuleDesk

namespace ClassPath

variable {path : ClassPath} {sources : ModuleSources}

/-- A name is taken from the queue.  It is left out where its module is known, and parsed where it
is not. -/
inductive ModuleStep (path : ClassPath) (sources : ModuleSources) :
    ModuleDesk → ModuleDesk → Prop where
  | skipped {modules : UnlinkedModules} {name : ClassName} {rest : List ClassName}
      {book : ContractBook} {parsed : List ClassName} (hknown : name ∈ modules.keys) :
      path.ModuleStep sources ⟨modules, name :: rest, book, parsed⟩ ⟨modules, rest, book, parsed⟩
  | parsed {modules : UnlinkedModules} {name : ClassName} {rest : List ClassName}
      {book later : ContractBook} {parsed : List ClassName} {decl : ClassDecl}
      {read : Module × List DeclaredImport} (hnew : name ∉ modules.keys)
      (hdecl : path.find? name = some decl)
      (hread : Ends (path.readModule sources decl) book read later) :
      path.ModuleStep sources ⟨modules, name :: rest, book, parsed⟩
        ⟨modules.insert name read, rest ++ read.2.filterMap DeclaredImport.module?, later,
          parsed ++ [name]⟩

/-- How the work ends: with an empty queue, or at a module that cannot be parsed. -/
inductive ModulesEnd (path : ClassPath) (sources : ModuleSources) :
    ModuleDesk → Except Failure (UnlinkedModules × ContractBook) → Prop where
  | done {modules : UnlinkedModules} {book : ContractBook} {parsed : List ClassName} :
      path.ModulesEnd sources ⟨modules, [], book, parsed⟩ (.ok (modules, book))
  | unknown {modules : UnlinkedModules} {name : ClassName} {rest : List ClassName}
      {book : ContractBook} {parsed : List ClassName} (hnew : name ∉ modules.keys)
      (hunknown : path.find? name = none) :
      path.ModulesEnd sources ⟨modules, name :: rest, book, parsed⟩ (.error (.classNotFound name))
  | failed {modules : UnlinkedModules} {name : ClassName} {rest : List ClassName}
      {book : ContractBook} {parsed : List ClassName} {decl : ClassDecl} {failure : Failure}
      (hnew : name ∉ modules.keys) (hdecl : path.find? name = some decl)
      (hfailure : ((path.readModule sources decl).run book).result = .error failure) :
      path.ModulesEnd sources ⟨modules, name :: rest, book, parsed⟩ (.error failure)

/-- A step parses a module that is on the path and was not parsed, or else shortens the queue. -/
theorem wellFounded_moduleStep (path : ClassPath) (sources : ModuleSources) :
    WellFounded fun after before => path.ModuleStep sources before after := by
  refine Subrelation.wf ?_ (InvImage.wf
    (fun desk : ModuleDesk =>
      (SearchSpace.remaining path.registered desk.modules.keys, desk.queue.length))
    (Prod.lex Nat.lt_wfRel Nat.lt_wfRel).wf)
  rintro _ _ (hknown | ⟨hnew, hdecl, -⟩)
  · exact .right _ (Nat.lt_succ_self _)
  · exact .left _ _ (remaining_keys_insert_lt hdecl hnew)

theorem parsed_eq_keys {roots : List ClassName} {book : ContractBook} {desk : ModuleDesk}
    (h : ReflTransGen (path.ModuleStep sources) (.start roots book) desk) :
    desk.parsed = desk.modules.keys := by
  induction h with
  | refl => rfl
  | tail _ hstep ih =>
      cases hstep with
      | skipped => exact ih
      | parsed hnew =>
          rw [Table.keys_insert, if_neg hnew]
          exact congrArg (· ++ _) ih

theorem skips_dropWhile (modules : UnlinkedModules) (queue : List ClassName) (book : ContractBook)
    (parsed : List ClassName) :
    ReflTransGen (path.ModuleStep sources) ⟨modules, queue, book, parsed⟩
      ⟨modules, queue.dropWhile (· ∈ modules.keys), book, parsed⟩ := by
  induction queue with
  | nil => exact .refl
  | cons name rest ih =>
      rw [List.dropWhile_cons]
      split
      · next hknown => exact .head (.skipped (of_decide_eq_true hknown)) ih
      · exact .refl

/-- The steps end with the result of the program.  All that it tells, it tells while it parses
modules that were not known, each of them once. -/
theorem exists_modulesEnd (modules : UnlinkedModules) (queue : List ClassName)
    (book : ContractBook) (parsed : List ClassName) :
    ∃ (last : ModuleDesk) (parses : List (ClassDecl × ContractBook)),
      ReflTransGen (path.ModuleStep sources) ⟨modules, queue, book, parsed⟩ last ∧
      path.ModulesEnd sources last
        ((path.readModulesFrom sources modules queue).run book).result ∧
      (modules.keys ++ parses.map fun parse => parse.1.name).Nodup ∧
      last.parsed <+: parsed ++ (parses.map fun parse => parse.1.name) ∧
      (((path.readModulesFrom sources modules queue).run book).result.isOk = true →
        last.parsed = parsed ++ parses.map fun parse => parse.1.name) ∧
      ((path.readModulesFrom sources modules queue).run book).events =
        parses.flatMap fun parse => ((path.readModule sources parse.1).run parse.2).events := by
  have hskips := @skips_dropWhile path sources
  fun_induction path.readModulesFrom sources modules queue generalizing book parsed with
  | case1 modules queue hqueue =>
      have hskip := hskips modules queue book parsed
      rw [hqueue] at hskip
      refine ⟨_, [], hskip, .done, ?_, List.prefix_append .., fun _ => (List.append_nil _).symm,
        rfl⟩
      rw [List.map_nil, List.append_nil]
      exact modules.distinct
  | case2 modules queue name rest hqueue hunknown =>
      have hskip := hskips modules queue book parsed
      rw [hqueue] at hskip
      refine ⟨_, [], hskip, .unknown (not_mem_keys_of_dropWhile hqueue) hunknown, ?_,
        List.prefix_append .., fun _ => (List.append_nil _).symm, rfl⟩
      rw [List.map_nil, List.append_nil]
      exact modules.distinct
  | case3 modules queue name rest hqueue decl hdecl ih =>
      have hskip := hskips modules queue book parsed
      rw [hqueue] at hskip
      have hnew := not_mem_keys_of_dropWhile hqueue
      have hname := name_of_find? hdecl
      have hfresh : (modules.keys ++ [name]).Nodup := by
        rw [← List.concat_eq_append]
        exact modules.distinct.concat hnew
      rw [StateT.run_bind, Work.result_bind]
      cases hread : ((path.readModule sources decl).run book).result with
      | error failure =>
          refine ⟨_, [(decl, book)], hskip, .failed hnew hdecl hread, ?_, List.prefix_append ..,
            fun hok => absurd hok Bool.false_ne_true, ?_⟩
          · rwa [List.map_singleton, hname]
          · rw [Work.events_bind_of_error hread]
            exact (List.append_nil _).symm
      | ok done =>
          obtain ⟨read, later⟩ := done
          obtain ⟨last, parses, hsteps, hend, honce, hprefix, hall, htold⟩ :=
            ih read later (parsed ++ [name])
          have hsteps' := hskip.trans (.head (.parsed hnew hdecl hread) hsteps)
          refine ⟨last, (decl, book) :: parses, hsteps', hend, ?_, ?_, ?_, ?_⟩
          · rw [Table.keys_insert, if_neg hnew, List.append_assoc] at honce
            rwa [List.map_cons, hname]
          · rw [List.append_assoc] at hprefix
            rwa [List.map_cons, hname]
          · intro hok
            rw [hall hok, List.map_cons, hname, List.append_assoc]
            rfl
          · rw [Work.events_bind hread, List.flatMap_cons, htold]

end ClassPath

end InjectionCompiler
