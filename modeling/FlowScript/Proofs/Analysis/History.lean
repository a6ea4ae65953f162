import FlowScript.Analysis.Analyzer
import Mathlib.Data.List.Induction

/-!
# What an analyzer answers over time

An analyzer may be asked anything in any order, and what it remembers never shows in an analysis. After every history
of requests it holds the analysis that was asked for last, unless that was evicted, as it would be made anew
(`Recalls`): one request keeps this, so every history does. So each analysis is the one a fresh analyzer would make,
and texts are looked up only for one that is not remembered.
-/

namespace FlowScript.Analyzer

/-- What an analyzer may be asked. -/
inductive Request
  | analyze (source : String) (options : AnalysisOptions)
  | isMemoized (source : String) (options : AnalysisOptions)
  | evict

/-- What an analyzer answers. -/
inductive Reply
  | analysis (result : Except ParseError Analysis)
  | memoized (known : Bool)
  | evicted

/-- The answer to a request, and the analyzer after it. -/
def answer (a : Analyzer) : Request → Worded (Reply × Analyzer)
  | .analyze source options => do
    let (result, next) ← a.analyze source options
    return (.analysis result, next)
  | .isMemoized source options => pure (.memoized (a.isMemoized source options), a)
  | .evict => pure (.evicted, a.evict)

/-- The answers to requests that are made one after the other. -/
def answers : Analyzer → List Request → List (Worded Reply)
  | _, [] => []
  | a, request :: requests => (Prod.fst <$> a.answer request) :: (a.answer request).value.2.answers requests

/-- The analyzer after requests. -/
def after (a : Analyzer) (history : List Request) : Analyzer :=
  history.foldl (fun a request => (a.answer request).value.2) a

/-- Whether a request only asks what is remembered. -/
def Request.isQuestion : Request → Bool
  | isMemoized .. => true
  | _ => false

/-- The last analysis asked for since the last eviction is that of a source and options: nothing but questions came
    after it. -/
def LatestIs (history : List Request) (source : String) (options : AnalysisOptions) : Prop :=
  ∃ earlier questions, history = earlier ++ .analyze source options :: questions ∧
    ∀ request ∈ questions, request.isQuestion = true

variable {localizer : Localizer} {a : Analyzer} {history : List Request} {source : String} {options : AnalysisOptions}

/-! ## Histories -/

theorem not_latestIs_nil : ¬LatestIs [] source options := by
  rintro ⟨earlier, questions, whole, -⟩
  simp at whole

/-- The last request decides: an analysis is the latest itself, a question leaves the latest as it is, and an eviction
    leaves none. -/
theorem latestIs_append_singleton {request : Request} : LatestIs (history ++ [request]) source options ↔
    request = .analyze source options ∨ request.isQuestion = true ∧ LatestIs history source options := by
  constructor
  · rintro ⟨earlier, questions, whole, asked⟩
    cases questions using List.reverseRecOn with
    | nil =>
      obtain ⟨-, last⟩ := List.append_inj' whole rfl
      exact .inl (List.singleton_inj.1 last)
    | append_singleton questions question =>
      rw [← List.cons_append, ← List.append_assoc] at whole
      obtain ⟨rfl, last⟩ := List.append_inj' whole rfl
      cases last
      refine .inr ⟨asked _ (List.mem_append_right _ (List.mem_singleton_self _)), earlier, questions, rfl, ?_⟩
      exact fun r mem => asked r (List.mem_append_left _ mem)
  · rintro (rfl | ⟨question, earlier, questions, rfl, asked⟩)
    · exact ⟨history, [], rfl, List.forall_mem_nil _⟩
    · refine ⟨earlier, questions ++ [request], by simp, fun r mem => ?_⟩
      rcases List.mem_append.1 mem with mem | mem
      · exact asked r mem
      · rwa [List.mem_singleton.1 mem]

/-! ## The memo -/

theorem remembered?_eq_some_iff {result : Except ParseError Analysis} :
    a.remembered? source options = some result ↔ a.memo = some ⟨source, options, result⟩ := by
  unfold remembered?
  cases a.memo with
  | none => simp
  | some m =>
    obtain ⟨source', options', result'⟩ := m
    simp [Memo.isOf, and_assoc]

theorem isMemoized_iff : a.isMemoized source options = true ↔ ∃ result, a.memo = some ⟨source, options, result⟩ := by
  simp only [isMemoized, Option.isSome_iff_exists, remembered?_eq_some_iff]

/-- An analyzer holds the latest analysis of its history, as it would be made anew, and nothing else. -/
structure Recalls (localizer : Localizer) (history : List Request) (a : Analyzer) : Prop where
  localizer_eq : a.localizer = localizer
  memo_eq_some_iff (source options result) : a.memo = some ⟨source, options, result⟩ ↔
    LatestIs history source options ∧ result = (FlowScript.analyze source options localizer).value

namespace Recalls

theorem isMemoized_iff (h : Recalls localizer history a) :
    a.isMemoized source options = true ↔ LatestIs history source options := by
  simp only [Analyzer.isMemoized_iff, h.memo_eq_some_iff, exists_and_left, exists_eq, and_true]

/-- What an analysis gives, how many texts it looks up, and what the analyzer remembers after it. -/
theorem analyze (h : Recalls localizer history a) (source : String) (options : AnalysisOptions) :
    let result := (FlowScript.analyze source options localizer).value
    (a.analyze source options).value = (result, { a with memo := some ⟨source, options, result⟩ }) ∧
      (a.analyze source options).lookups =
        if a.isMemoized source options then 0 else (FlowScript.analyze source options localizer).lookups := by
  cases found : a.remembered? source options with
  | some result =>
    have memo := remembered?_eq_some_iff.1 found
    obtain ⟨-, rfl⟩ := (h.memo_eq_some_iff source options result).1 memo
    have known : a.isMemoized source options = true := by rw [isMemoized, found]; rfl
    simp [Analyzer.analyze, found, known, ← memo]
  | none =>
    have unknown : a.isMemoized source options = false := by rw [isMemoized, found]; rfl
    simp [Analyzer.analyze, found, unknown, h.localizer_eq]

theorem fresh (localizer : Localizer) : Recalls localizer [] (.fresh localizer) where
  localizer_eq := rfl
  memo_eq_some_iff source options result := by simp [Analyzer.fresh, not_latestIs_nil]

/-- Whatever is asked, the analyzer goes on holding the latest analysis. -/
theorem answer (h : Recalls localizer history a) (request : Request) :
    Recalls localizer (history ++ [request]) (a.answer request).value.2 := by
  cases request with
  | analyze source' options' =>
    have next : (a.answer (.analyze source' options')).value.2 = (a.analyze source' options').value.2 := rfl
    rw [next, (h.analyze source' options').1]
    refine ⟨h.localizer_eq, fun source options result => ?_⟩
    rw [latestIs_append_singleton]
    constructor
    · rintro ⟨⟩
      exact ⟨.inl rfl, rfl⟩
    · rintro ⟨⟨⟨⟩⟩ | ⟨⟨⟩, -⟩, rfl⟩
      rfl
  | isMemoized source' options' =>
    refine ⟨h.localizer_eq, fun source options result => ?_⟩
    have stays : LatestIs (history ++ [.isMemoized source' options']) source options ↔
        LatestIs history source options := by
      simp [latestIs_append_singleton, Request.isQuestion]
    rw [stays]
    exact h.memo_eq_some_iff source options result
  | evict =>
    refine ⟨h.localizer_eq, fun source options result => ?_⟩
    have none : ¬LatestIs (history ++ [.evict]) source options := by
      simp [latestIs_append_singleton, Request.isQuestion]
    exact iff_of_false nofun fun latest => none latest.1

end Recalls

/-- After any history an analyzer holds the latest analysis. -/
theorem recalls_after (localizer : Localizer) (history : List Request) :
    Recalls localizer history ((fresh localizer).after history) := by
  induction history using List.reverseRecOn with
  | nil => exact .fresh localizer
  | append_singleton history request ih =>
    have last : (fresh localizer).after (history ++ [request]) =
        (((fresh localizer).after history).answer request).value.2 := by
      rw [after, List.foldl_append]
      rfl
    rw [last]
    exact ih.answer request

/-! ## Answers -/

/-- The answer to a request is given by the analyzer after all requests before it. -/
theorem getElem?_answers (a : Analyzer) (history later : List Request) (request : Request) :
    (a.answers (history ++ request :: later))[history.length]? = some (Prod.fst <$> (a.after history).answer request) := by
  induction history generalizing a with
  | nil => rfl
  | cons first history ih => exact ih (a.answer first).value.2

/-- The right answer to a request after a history: an analysis as it is made without a memory, with texts looked up
    only if it is not remembered; to a question, whether the latest analysis is the one asked about. -/
def Reply.Answers (localizer : Localizer) (history : List Request) (reply : Worded Reply) : Request → Prop
  | .analyze source options =>
    reply.value = .analysis (FlowScript.analyze source options localizer).value ∧
      reply.lookups =
        if ((fresh localizer).after history).isMemoized source options then 0
        else (FlowScript.analyze source options localizer).lookups
  | .isMemoized source options =>
    ∃ known, reply = pure (.memoized known) ∧ (known = true ↔ LatestIs history source options)
  | .evict => reply = pure .evicted

/-- Whatever is asked of an analyzer, in whatever order, every answer is right. -/
theorem answers_after_every_history (localizer : Localizer) (history later : List Request) (request : Request) :
    (∀ source options, ((fresh localizer).after history).isMemoized source options = true ↔
      LatestIs history source options) ∧
    ∃ reply, ((fresh localizer).answers (history ++ request :: later))[history.length]? = some reply ∧
      Reply.Answers localizer history reply request := by
  have recalls := recalls_after localizer history
  refine ⟨fun source options => recalls.isMemoized_iff, _, getElem?_answers _ history later request, ?_⟩
  cases request with
  | analyze source options =>
    obtain ⟨value, lookups⟩ := recalls.analyze source options
    refine ⟨?_, ?_⟩
    · exact congrArg (fun made => Reply.analysis made.1) value
    · exact lookups
  | isMemoized source options => exact ⟨_, rfl, recalls.isMemoized_iff⟩
  | evict => rfl

end FlowScript.Analyzer
