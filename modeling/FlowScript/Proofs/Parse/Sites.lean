import FlowScript.Proofs.Grammar.Names
import FlowScript.Proofs.Parse.Build
import FlowScript.Proofs.Parse.Scene
import FlowScript.Proofs.Peg.Takes

/-!
# Matches in a source

What the text of a source says of the matches in it: where they lie, what their tokens are, which name a declaration of
types goes by, and how the matches in a template fill it.
-/

namespace FlowScript.Parse
open FlowScript.Grammar (Rule ruleBody ruleKind mayBeEmpty)
open FlowScript.Peg (Cursor Derivation Fits Matches)

variable {source : List Char}

/-- A tree in the source is a match that lies in it. -/
theorem stands_of_fits {before : List Char} {t : Derivation Rule} (fits : Fits grammar t)
    (here : (Cursor.start source).Reaches before t.start) : (Site.ofTree t).Stands source := by
  cases fits with
  | @node rule x start stop children visible body settled surrounded inside =>
    have whole : Fits grammar (.node rule start stop children) := .node visible body settled surrounded inside
    obtain ⟨text, read⟩ := (body.chain grammar_wellFormed).reaches
    have taken : Site.text ⟨rule, start, stop⟩ = text := Site.text_of_reaches read
    refine ⟨here.within, (here.append read).within, body.offset_le grammar_wellFormed, ?solid, ?reads, ?size, ?named,
      ?complete, ?raw, taken ▸ read⟩
    case solid =>
      refine fun solid => body.offset_lt grammar_wellFormed grammar_ranked (Bool.eq_false_iff.2 fun may => ?_)
      exact Bool.eq_false_iff.1 solid (grammar_ranked.empty_body may)
    case reads => exact (here.slice? read).trans (congrArg some taken.symm)
    case size => exact taken ▸ read.offset
    case named =>
      rintro rfl
      exact Grammar.isBlank_of_mem_identifier (Site.text_mem_spellings rfl whole)
    case complete =>
      rintro rfl
      obtain ⟨name, identifier, reads, ends⟩ := Grammar.exists_of_identifier body
      have word : Site.word ⟨.identifier, start, stop⟩ = name := by
        rw [Site.word, Site.text_of_reaches reads, String.ofList_toList]
      exact word ▸ .of_reaches identifier here reads ends
    case raw =>
      rintro rfl
      obtain ⟨raw, reads, is⟩ := Grammar.exists_of_templateChunk body
      exact Site.text_of_reaches reads ▸ is

/-! ## Names of declarations of types -/

mutual

/-- The first identifier in a tree is one of its matches. -/
theorem exists_of_firstIdentifier? {name : String} : ∀ {t : Derivation Rule}, firstIdentifier? t = some name →
    ∃ u, t.Holds u ∧ u.rule = .identifier ∧ name = (Site.ofTree u).word
  | .node rule start stop children, found => by
    unfold firstIdentifier? at found
    split at found
    · rename_i is
      exact ⟨_, .self, is, (Option.some.inj found).symm⟩
    · obtain ⟨t, mem, u, held, same⟩ := exists_of_firstIdentifierIn? found
      exact ⟨u, .inside mem held, same⟩

/-- The first identifier in trees is a match in one of them. -/
theorem exists_of_firstIdentifierIn? {name : String} : ∀ {ts : List (Derivation Rule)},
    firstIdentifierIn? ts = some name → ∃ t ∈ ts, ∃ u, t.Holds u ∧ u.rule = .identifier ∧ name = (Site.ofTree u).word
  | [], found => by cases found
  | t :: ts, found => by
    unfold firstIdentifierIn? at found
    split at found
    · rename_i first
      cases found
      exact ⟨t, List.mem_cons_self .., exists_of_firstIdentifier? first⟩
    · obtain ⟨t, mem, rest⟩ := exists_of_firstIdentifierIn? found
      exact ⟨t, List.mem_cons_of_mem _ mem, rest⟩

end

/-- An identifier that stands right in a match is no later than the first one there. -/
theorem firstIdentifierIn?_ne_none {ts : List (Derivation Rule)} {t : Derivation Rule} (mem : t ∈ ts)
    (is : t.rule = .identifier) : firstIdentifierIn? ts ≠ none := by
  induction ts with
  | nil => cases mem
  | cons first rest ih =>
    unfold firstIdentifierIn?
    rcases List.mem_cons.1 mem with rfl | mem
    · obtain ⟨rule, start, stop, children⟩ := t
      simp only [firstIdentifier?, show rule = .identifier from is, if_true]
      nofun
    · split
      · nofun
      · exact ih mem

/-- A declaration of types goes by a name of the source. Only an ambient declaration may bind none. -/
theorem typeOnly_named {rule : Rule} {start stop : Cursor} {children : List (Derivation Rule)} {before : List Char}
    {keyword : String} (is : typeKeyword? rule = some keyword) (fits : Fits grammar (.node rule start stop children))
    (here : (Cursor.start source).Reaches before start) :
    (firstIdentifierIn? children).getD "" = "" ∧ keyword = "declare" ∨
      NameWithin source (Site.span ⟨rule, start, stop⟩) ((firstIdentifierIn? children).getD "") := by
  cases found : firstIdentifierIn? children with
  | some name =>
    obtain ⟨t, mem, u, held, isName, rfl⟩ := exists_of_firstIdentifierIn? found
    have held : (Derivation.node rule start stop children).Holds u := .inside mem held
    obtain ⟨⟨lead, read⟩, begins, ends⟩ := fits.exists_reaches grammar_wellFormed held
    exact .inr ⟨_, _, begins, ends, (stands_of_fits (fits.of_holds held) (here.append read)).complete isName⟩
  | none =>
    refine .inl ⟨rfl, ?_⟩
    have named (notToken : ruleKind rule ≠ .token) : (ruleBody rule).needs (· = .identifier) = false := by
      refine Bool.eq_false_iff.2 fun need => ?_
      obtain ⟨r, mem, isName⟩ := Peg.exists_of_needs (Grammar.rules_mem_words notToken fits) need
      obtain ⟨t, among, rfl⟩ := List.mem_map.1 mem
      exact firstIdentifierIn?_ne_none among (of_decide_eq_true isName) found
    unfold typeKeyword? at is
    split at is
    case h_5 => exact (Option.some.inj is).symm
    case h_6 => cases is
    all_goals cases named (by decide)

/-! ## Templates -/

/-- Trees without gaps are matches without gaps. -/
theorem sites_of_abut {c d : Cursor} {ts : List (Derivation Rule)} (abut : Peg.Abut c ts d) :
    Site.Abut c (ts.map Site.ofTree) d := by
  induction abut with
  | nil c => rfl
  | cons inside after ih => exact ⟨rfl, ih⟩

/-- A match of a substitution in the source, with the one tree in it. -/
theorem substitution_braced {before : List Char} {start stop : Cursor} {children : List (Derivation Rule)}
    (body : Matches grammar (ruleBody .templateSubst) .loose start (some (children, stop)))
    (here : (Cursor.start source).Reaches before start) :
    ∃ t inner, SubstitutionAt source start stop t inner ∧ children = [t] := by
  obtain ⟨t, inner, rfl, read⟩ := Grammar.exists_of_substitution body
  exact ⟨t, inner, ⟨⟨before, here⟩, .call (by decide) body, read⟩, rfl⟩

end FlowScript.Parse
