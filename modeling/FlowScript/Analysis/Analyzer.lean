import FlowScript.Analysis.Basic

/-!
# Analyzers

An analyzer remembers its latest analysis, failed ones too. Asked for the same source and options again it answers
from memory and looks no text up.
-/

namespace FlowScript

/-- An analysis that was made, with what it was made of. -/
structure Memo where
  source : String
  options : AnalysisOptions
  result : Except ParseError Analysis

/-- A localizer, and the latest analysis made with it. -/
structure Analyzer where
  localizer : Localizer
  memo : Option Memo

namespace Memo

/-- Whether the analysis was made of a source and options. -/
def isOf (m : Memo) (source : String) (options : AnalysisOptions) : Bool :=
  m.source = source && m.options = options

end Memo

namespace Analyzer

/-- An analyzer that has made no analysis yet. -/
def fresh (localizer : Localizer) : Analyzer := ⟨localizer, none⟩

/-- The remembered analysis of a source and options. -/
def remembered? (a : Analyzer) (source : String) (options : AnalysisOptions) : Option (Except ParseError Analysis) :=
  match a.memo with
  | some m => if m.isOf source options then some m.result else none
  | none => none

/-- Whether the analysis of a source and options is remembered. -/
def isMemoized (a : Analyzer) (source : String) (options : AnalysisOptions) : Bool :=
  (a.remembered? source options).isSome

/-- The analyzer without what it remembers. -/
def evict (a : Analyzer) : Analyzer := { a with memo := none }

/-- The analysis of a source, from memory if it is there, and the analyzer that remembers it. -/
def analyze (a : Analyzer) (source : String) (options : AnalysisOptions) :
    Worded (Except ParseError Analysis × Analyzer) :=
  match a.remembered? source options with
  | some result => pure (result, a)
  | none => do
    let result ← FlowScript.analyze source options a.localizer
    return (result, { a with memo := some ⟨source, options, result⟩ })

end Analyzer
end FlowScript
