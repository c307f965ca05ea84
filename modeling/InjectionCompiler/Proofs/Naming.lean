import InjectionCompiler.Proofs.Providing

/-!
# Runs of name requests

A run mixes requests with patterns and requests with a preferred base, and the candidates of one
request may be spelled like those of another.  What a request gets is therefore told by all names
that are taken when it is made, and not by its own pattern alone.
-/

namespace InjectionCompiler

theorem NameSupply.mem_taken_iff {supply : NameSupply} {name : ClassName} :
    name ∈ supply.compiled ++ supply.generated ↔ ¬ supply.isFree name = true := by
  rw [isFree_iff, List.mem_append]
  tauto

inductive NameRequest where
  | numbered (pattern : NamePattern)
  /-- The base as it stands, and only else a number behind it. -/
  | preferring (base : String)
  deriving DecidableEq, Repr

namespace NameRequest

def choose : NameRequest → NameSupply → Except Failure (ClassName × NameSupply)
  | .numbered pattern, supply => supply.unique pattern
  | .preferring base, supply => supply.uniqueOrIndexed base

def pattern : NameRequest → NamePattern
  | .numbered pattern => pattern
  | .preferring base => ⟨base, ""⟩

def preferred? : NameRequest → Option ClassName
  | .numbered _ => none
  | .preferring base => some ⟨base⟩

/-- How a request is answered when the names `taken` are not free. -/
inductive Answers (taken : List ClassName) : NameRequest → Except Failure ClassName → Prop where
  | preferred {request : NameRequest} {name : ClassName} (hname : request.preferred? = some name)
      (hfree : name ∉ taken) : Answers taken request (.ok name)
  | candidate {request : NameRequest} {index : Nat}
      (hpreferred : ∀ name ∈ request.preferred?, name ∈ taken)
      (hindex : index < NamePattern.candidateCount)
      (hfree : request.pattern.candidate index ∉ taken)
      (hsmallest : ∀ smaller < index, request.pattern.candidate smaller ∈ taken) :
      Answers taken request (.ok (request.pattern.candidate index))
  | exhausted {request : NameRequest} (hpreferred : ∀ name ∈ request.preferred?, name ∈ taken)
      (hcandidates : ∀ index < NamePattern.candidateCount,
        request.pattern.candidate index ∈ taken) :
      Answers taken request (.error (.nameExhausted request.pattern.display))

variable {taken : List ClassName} {request : NameRequest} {name : ClassName}

theorem Answers.not_mem (h : request.Answers taken (.ok name)) : name ∉ taken := by
  cases h with
  | preferred _ hfree => exact hfree
  | candidate _ _ hfree _ => exact hfree

theorem Answers.congr {others : List ClassName} {answer : Except Failure ClassName}
    (h : request.Answers taken answer) (hsame : ∀ name, name ∈ taken ↔ name ∈ others) :
    request.Answers others answer := by
  cases h with
  | preferred hname hfree => exact .preferred hname (by rwa [← hsame])
  | candidate hpreferred hindex hfree hsmallest =>
      simp only [hsame] at hpreferred hfree hsmallest
      exact .candidate hpreferred hindex hfree hsmallest
  | exhausted hpreferred hcandidates =>
      simp only [hsame] at hpreferred hcandidates
      exact .exhausted hpreferred hcandidates

theorem count_le_length {pattern : NamePattern} {count : Nat}
    (h : ∀ index < count, pattern.candidate index ∈ taken) : count ≤ taken.length := by
  have hsubset : (List.range count).map pattern.candidate ⊆ taken := by
    intro name hname
    obtain ⟨index, hindex, rfl⟩ := List.mem_map.1 hname
    exact h index (List.mem_range.1 hindex)
  have hnodup := (@List.nodup_range count).map pattern.candidate_injective
  simpa using (hnodup.subperm hsubset).length_le

theorem Answers.isOk_of_length_lt {answer : Except Failure ClassName}
    (h : request.Answers taken answer) (hlength : taken.length < NamePattern.candidateCount) :
    answer.isOk = true := by
  cases h with
  | preferred | candidate => rfl
  | exhausted _ hcandidates => exact absurd (count_le_length hcandidates) (Nat.not_le.2 hlength)

/-! ## One request -/

def leave (supply : NameSupply) : Except Failure ClassName → NameSupply
  | .ok name => supply.take name
  | .error _ => supply

theorem answers_unique (supply : NameSupply)
    (hpreferred : ∀ name ∈ request.preferred?, ¬ supply.isFree name = true) :
    ∃ answer, request.Answers (supply.compiled ++ supply.generated) answer ∧
      supply.unique request.pattern = answer.map fun name => (name, supply.take name) := by
  have htaken := fun name hname => NameSupply.mem_taken_iff.2 (hpreferred name hname)
  by_cases hroom : ∃ index, index < NamePattern.candidateCount ∧
      supply.isFree (request.pattern.candidate index) = true
  · obtain ⟨hindex, hfree⟩ := Nat.find_spec hroom
    have hsmaller : ∀ smaller < Nat.find hroom,
        ¬ supply.isFree (request.pattern.candidate smaller) = true := by
      intro smaller hlt hsooner
      exact Nat.find_min hroom hlt ⟨hlt.trans hindex, hsooner⟩
    refine ⟨.ok (request.pattern.candidate (Nat.find hroom)), .candidate htaken hindex ?_ ?_, ?_⟩
    · exact fun hmem => NameSupply.mem_taken_iff.1 hmem hfree
    · exact fun smaller hlt => NameSupply.mem_taken_iff.2 (hsmaller smaller hlt)
    · rw [NameSupply.unique, NameSupply.firstAccepted_eq_some hfree
        (fun smaller hlt => Bool.eq_false_iff.2 (hsmaller smaller hlt)) (Nat.zero_le _) (by omega)]
      rfl
  · have hnone : ∀ index < NamePattern.candidateCount,
        ¬ supply.isFree (request.pattern.candidate index) = true :=
      fun index hlt hfree => hroom ⟨index, hlt, hfree⟩
    refine ⟨.error (.nameExhausted request.pattern.display), .exhausted htaken ?_, ?_⟩
    · exact fun index hlt => NameSupply.mem_taken_iff.2 (hnone index hlt)
    · rw [NameSupply.unique, NameSupply.firstAccepted_eq_none fun index hlt =>
        Bool.eq_false_iff.2 (hnone index (by omega))]
      rfl

theorem answers_choose (request : NameRequest) (supply : NameSupply) :
    ∃ answer, request.Answers (supply.compiled ++ supply.generated) answer ∧
      request.choose supply = answer.map fun name => (name, supply.take name) := by
  cases request with
  | numbered pattern => exact answers_unique supply (by simp [preferred?])
  | preferring base =>
      by_cases hfree : supply.isFree ⟨base⟩ = true
      · refine ⟨.ok ⟨base⟩, .preferred rfl fun hmem => NameSupply.mem_taken_iff.1 hmem hfree, ?_⟩
        rw [choose, NameSupply.uniqueOrIndexed, if_pos hfree]
        rfl
      · rw [choose, NameSupply.uniqueOrIndexed, if_neg hfree]
        exact @answers_unique (.preferring base) supply (by simpa [preferred?] using hfree)

theorem answers_of_choose {supply next : NameSupply}
    (h : request.choose supply = .ok (name, next)) :
    request.Answers (supply.compiled ++ supply.generated) (.ok name) := by
  obtain ⟨answer, hanswer, hchoose⟩ := request.answers_choose supply
  rw [h] at hchoose
  cases answer with
  | error failure => cases hchoose
  | ok other =>
      cases hchoose
      exact hanswer

theorem outcome_takeName_choose (request : NameRequest) (before : Assignment) :
    ∃ answer, request.Answers (before.names.compiled ++ before.names.generated) answer ∧
      (Assigning.takeName request.choose).outcome before =
        (answer, { before with names := leave before.names answer }) := by
  obtain ⟨answer, hanswer, hchoose⟩ := request.answers_choose before.names
  refine ⟨answer, hanswer, ?_⟩
  rw [Assigning.takeName, Assigning.outcome_bind, Assigning.outcome_get]
  dsimp only
  rw [hchoose]
  cases answer <;> rfl

end NameRequest

/-! ## Runs -/

namespace Assigning

/-- Makes requests one after another.  A request that cannot be met does not end the run. -/
def takeNames (requests : List NameRequest) :
    StateT Assignment Logged (List (Except Failure ClassName)) :=
  requests.mapM fun request => (takeName request.choose).run

def runRequests (requests : List NameRequest) (before : Assignment) :
    List (Except Failure ClassName) × Assignment :=
  ((takeNames requests).run before).value

theorem runRequests_append (requests : List NameRequest) (request : NameRequest)
    (before : Assignment) :
    runRequests (requests ++ [request]) before =
      ((runRequests requests before).1 ++
        [((takeName request.choose).outcome (runRequests requests before).2).1],
      ((takeName request.choose).outcome (runRequests requests before).2).2) := by
  simp only [runRequests, takeNames, List.mapM_append, List.mapM_cons, List.mapM_nil, bind_assoc,
    pure_bind, StateT.run_bind, Logged.value_bind]
  rfl

def handedOut (answers : List (Except Failure ClassName)) : List ClassName :=
  answers.filterMap Except.toOption

theorem handedOut_append (answers : List (Except Failure ClassName))
    (answer : Except Failure ClassName) :
    handedOut (answers ++ [answer]) = handedOut answers ++ answer.toOption.toList := by
  cases answer <;> simp [handedOut, Except.toOption]

/-- A run from a supply that has handed out nothing, with its answers. -/
structure Answered (project : String) (compiled : List ClassName) (requests : List NameRequest)
    (answers : List (Except Failure ClassName)) : Prop where
  length_eq : answers.length = requests.length
  /-- At each point of the run, the names that were handed out are registered, and no others. -/
  run_eq : ∀ count, runRequests (requests.take count) (.ofCompiled project compiled) =
    (answers.take count, { Assignment.ofCompiled project compiled with
      names := ⟨(handedOut (answers.take count)).reverse, compiled⟩ })
  answer_at : ∀ (index : Nat) (request : NameRequest) (answer : Except Failure ClassName),
    requests[index]? = some request → answers[index]? = some answer →
      request.Answers (compiled ++ handedOut (answers.take index)) answer
  nodup : (handedOut answers).Nodup
  not_compiled : ∀ name ∈ handedOut answers, name ∉ compiled

variable {project : String} {compiled : List ClassName} {requests : List NameRequest}
  {answers : List (Except Failure ClassName)}

theorem Answered.nil (project : String) (compiled : List ClassName) :
    Answered project compiled [] [] where
  length_eq := rfl
  run_eq count := by
    rw [List.take_nil, List.take_nil]
    rfl
  answer_at index request answer h := by simp at h
  nodup := List.nodup_nil
  not_compiled name h := absurd h List.not_mem_nil

theorem Answered.append (h : Answered project compiled requests answers) (request : NameRequest) :
    ∃ answer, Answered project compiled (requests ++ [request]) (answers ++ [answer]) := by
  have hrun := h.run_eq requests.length
  rw [List.take_length, ← h.length_eq, List.take_length] at hrun
  obtain ⟨answer, hanswer, houtcome⟩ :=
    request.outcome_takeName_choose (runRequests requests (.ofCompiled project compiled)).2
  rw [hrun] at hanswer houtcome
  have hanswer' : request.Answers (compiled ++ handedOut answers) answer :=
    hanswer.congr fun name => by simp
  have hnext : runRequests (requests ++ [request]) (.ofCompiled project compiled) =
      (answers ++ [answer], { Assignment.ofCompiled project compiled with
        names := ⟨(handedOut (answers ++ [answer])).reverse, compiled⟩ }) := by
    rw [runRequests_append, hrun, houtcome, handedOut_append]
    cases answer <;> simp [NameRequest.leave, NameSupply.take, Except.toOption]
  have hlast : (handedOut (answers ++ [answer])).Nodup ∧
      ∀ name ∈ handedOut (answers ++ [answer]), name ∉ compiled := by
    rw [handedOut_append]
    cases answer with
    | error failure => simpa [Except.toOption] using ⟨h.nodup, h.not_compiled⟩
    | ok name =>
        have hfresh := hanswer'.not_mem
        rw [List.mem_append, not_or] at hfresh
        simp only [Except.toOption, Option.toList_some, List.forall_mem_append,
          List.forall_mem_singleton]
        rw [← List.concat_eq_append]
        exact ⟨h.nodup.concat hfresh.2, h.not_compiled, hfresh.1⟩
  refine ⟨answer, ?_⟩
  constructor
  case length_eq => simp [h.length_eq]
  case run_eq =>
    -- A shorter run is told by the invariant; the whole run is the one that was just made.
    intro count
    rcases Nat.lt_or_ge requests.length count with hlt | hle
    · have hrequests : (requests ++ [request]).length ≤ count := by simpa using hlt
      have hanswers : (answers ++ [answer]).length ≤ count := by simpa [h.length_eq] using hlt
      rw [List.take_of_length_le hrequests, List.take_of_length_le hanswers]
      exact hnext
    · rw [List.take_append_of_le_length hle,
        List.take_append_of_le_length (by rw [h.length_eq]; exact hle)]
      exact h.run_eq count
  case answer_at =>
    intro index other result hother hresult
    rcases Nat.lt_trichotomy index requests.length with hlt | rfl | hlt
    · have hanswers : index < answers.length := by rwa [h.length_eq]
      rw [List.getElem?_append_left hlt] at hother
      rw [List.getElem?_append_left hanswers] at hresult
      rw [List.take_append_of_le_length hanswers.le]
      exact h.answer_at index other result hother hresult
    · rw [← h.length_eq, List.getElem?_concat_length] at hresult
      rw [List.getElem?_concat_length] at hother
      cases hother
      cases hresult
      rwa [← h.length_eq, List.take_left]
    · rw [List.getElem?_eq_none (by simpa using hlt)] at hother
      cases hother
  case nodup => exact hlast.1
  case not_compiled => exact hlast.2

theorem exists_answered (project : String) (compiled : List ClassName)
    (requests : List NameRequest) : ∃ answers, Answered project compiled requests answers := by
  induction requests using List.reverseRecOn with
  | nil => exact ⟨[], .nil project compiled⟩
  | append_singleton requests request ih =>
      obtain ⟨answers, h⟩ := ih
      obtain ⟨answer, h⟩ := h.append request
      exact ⟨answers ++ [answer], h⟩

/-- Of all requests of a run, mixed as they may be, each gets the first name that nothing has yet:
its preferred one, or that with the smallest number.  Only a request whose names are all taken
fails, and it registers nothing; as long as fewer names are taken than a pattern has, none fails. -/
theorem answered_runRequests (project : String) (compiled : List ClassName)
    (requests : List NameRequest) :
    let answers := (runRequests requests (.ofCompiled project compiled)).1
    Answered project compiled requests answers ∧
      ∀ (index : Nat) (answer : Except Failure ClassName), answers[index]? = some answer →
        compiled.length + index < NamePattern.candidateCount → answer.isOk = true := by
  obtain ⟨answers, h⟩ := exists_answered project compiled requests
  have hrun := h.run_eq requests.length
  rw [List.take_length, ← h.length_eq, List.take_length] at hrun
  rw [hrun]
  refine ⟨h, fun index answer hanswer hroom => ?_⟩
  have hindex : index < requests.length := by
    rw [← h.length_eq]
    exact (List.getElem?_eq_some_iff.1 hanswer).1
  have htaken : (handedOut (answers.take index)).length ≤ index :=
    (List.length_filterMap_le ..).trans (List.length_take_le ..)
  refine (h.answer_at index _ answer (List.getElem?_eq_getElem hindex) hanswer).isOk_of_length_lt ?_
  rw [List.length_append]
  omega

/-- A pattern without a number in its stem meets one with such a number. -/
example : (runRequests [.numbered ⟨"a/K1", ""⟩, .preferring "a/K", .preferring "a/K",
    .preferring "a/K10"] (.ofCompiled "main" [⟨"a/K"⟩, ⟨"a/K0"⟩])).1.map Except.toOption =
      [some ⟨"a/K10"⟩, some ⟨"a/K1"⟩, some ⟨"a/K2"⟩, some ⟨"a/K100"⟩] := by
  decide +kernel

end Assigning

end InjectionCompiler
