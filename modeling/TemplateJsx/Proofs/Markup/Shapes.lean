import TemplateJsx.Proofs.Markup.Alternatives
import TemplateJsx.Proofs.Peg.Derivation
import TemplateJsx.Proofs.Peg.Rows

/-!
# Reading fails only where the grammar does

A text is read in two passes.  The grammar matches it, and the matched rules are
put together into a tree, each from the pieces of the rules inside it.  The
second pass goes by position: it expects an opening tag first, then a body, then
perhaps a further clause.  `Rule.expected` writes these expectations down, and
the grammar leaves nothing else (`grammar_tabled`).

The second pass therefore never gives up.  **A text is refused exactly when no
match of the whole of it can be derived from the grammar**, and every derivable
match makes up a tree.
-/

namespace TemplateJsx.Markup

open Peg (Slot Capture Cursor Match Derives Fills)
open Peg.Slot

/-! ## What is expected inside a rule -/

/-- The rows of rules of which a rule is made.  Whoever builds a tree goes by
this table: for each rule, which parts come in which order. -/
def Rule.expected : Rule → List (List (Slot Rule))
  | document => [[one fragment, one endOfInput]]
  | fragment => [[any nodeRules]]
  | rawElement => [[one rawName, any [attr], one rawText]]
  | voidElement => [[one voidName, any [attr]]]
  | element =>
    [[one tagName, any [attr]], [one tagName, any [attr], one fragment]]
  | attr =>
    [[one mustache], [one attributeName],
      [one attributeName, one attributeValue]]
  | attributeValue =>
    [[one doubleQuotedValue], [one singleQuotedValue], [one mustache],
      [one unquotedValue]]
  | doubleQuotedValue => [[any [mustache, doubleQuotedText]]]
  | singleQuotedValue => [[any [mustache, singleQuotedText]]]
  | mustache => [[], [one expression]]
  | otherBlock =>
    [[one blockName, one fragment],
      [one blockName, one expression, one fragment]]
  | ifOpen | elseIfOpen | awaitOpen => [[one expression]]
  | ifBlock =>
    [[one ifOpen, one fragment, one ifClose],
      [one ifOpen, one fragment, one elseClause, one ifClose],
      [one ifOpen, one fragment, one elseIf, one ifClose]]
  | elseIf =>
    [[one elseIfOpen, one fragment],
      [one elseIfOpen, one fragment, one elseClause],
      [one elseIfOpen, one fragment, one elseIf]]
  | elseClause => [[one elseTag, one fragment]]
  | eachOpen =>
    [[one eachExpression, one binding],
      [one eachExpression, one binding, one eachIndex],
      [one eachExpression, one binding, one eachKey],
      [one eachExpression, one binding, one eachIndex, one eachKey]]
  | eachBlock =>
    [[one eachOpen, one fragment, one eachClose],
      [one eachOpen, one fragment, one elseClause, one eachClose]]
  | awaitShortOpen =>
    [[one awaitExpression, one thenKeyword],
      [one awaitExpression, one thenKeyword, one binding]]
  | awaitBlock =>
    [[one awaitShortOpen, one fragment, one awaitClose],
      [one awaitShortOpen, one fragment, one catchClause, one awaitClose],
      [one awaitOpen, one fragment, one thenClause, one awaitClose],
      [one awaitOpen, one fragment, one thenClause, one catchClause,
        one awaitClose]]
  | thenTag | catchTag => [[], [one binding]]
  | thenClause => [[one thenTag, one fragment]]
  | catchClause => [[one catchTag, one fragment]]
  | _ => [[]]

/-- The rule that a piece comes from.  A node comes from one of the rules for
nodes, which are all taken alike. -/
def Piece.rule? : Piece → Option Rule
  | document _ => some .document
  | fragment _ => some .fragment
  | node _ => none
  | binding _ => some .binding
  | key _ => some .eachKey
  | eachOpening _ _ _ _ _ => some .eachOpen
  | shortOpening _ _ _ => some .awaitShortOpen
  | tag _ => some .elseTag
  | clause _ => some .elseClause
  | links _ _ => some .elseIf
  | expression r _ | name r _ | opening r _ _ | valueTag r _ _ | handler r _
  | unrecorded r => some r

/-- The rules of which every part is expected at its place. -/
def Rule.placed : List Rule :=
  [document, ifOpen, elseIfOpen, awaitOpen, elseClause, elseIf, ifBlock,
    eachOpen, eachBlock, awaitShortOpen, thenTag, catchTag, thenClause,
    catchClause, awaitBlock]

/-- The pieces come from the rules of a row that is expected inside a rule, in
the order of the row. -/
def Rule.Expects (r : Rule) (ps : List Piece) : Prop :=
  ∃ rules : List Rule, ps.map Piece.rule? = rules.map some ∧
    rules.map one ∈ r.expected

/-- **What is put together is what is expected.**  No other pieces make up one
of these rules. -/
theorem Rule.expects_of_assemble {t : Text} {r : Rule} {x : Span}
    {ps : List Piece} {piece : Piece} (hr : r ∈ placed)
    (h : assemble t r x ps = some piece) : r.Expects ps := by
  cases r with
  | document =>
      simp only [assemble, documentPiece] at h
      split at h <;> cases h
      exact ⟨[fragment, endOfInput], rfl, by decide⟩
  | ifOpen | elseIfOpen | awaitOpen =>
      simp only [assemble, openingPiece] at h
      split at h <;> cases h
      exact ⟨[expression], rfl, by decide⟩
  | elseClause =>
      simp only [assemble, clausePiece] at h
      split at h <;> cases h
      exact ⟨[elseTag, fragment], rfl, by decide⟩
  | elseIf =>
      simp only [assemble, elseIfPiece] at h
      split at h <;> cases h
      · exact ⟨[elseIfOpen, fragment], rfl, by decide⟩
      · exact ⟨[elseIfOpen, fragment, elseClause], rfl, by decide⟩
      · exact ⟨[elseIfOpen, fragment, elseIf], rfl, by decide⟩
  | ifBlock =>
      simp only [assemble, ifPiece] at h
      split at h <;> cases h
      · exact ⟨[ifOpen, fragment, ifClose], rfl, by decide⟩
      · exact ⟨[ifOpen, fragment, elseClause, ifClose], rfl, by decide⟩
      · exact ⟨[ifOpen, fragment, elseIf, ifClose], rfl, by decide⟩
  | eachOpen =>
      simp only [assemble, eachOpeningPiece] at h
      split at h <;> cases h
      · exact ⟨[eachExpression, binding], rfl, by decide⟩
      · exact ⟨[eachExpression, binding, eachIndex], rfl, by decide⟩
      · exact ⟨[eachExpression, binding, eachKey], rfl, by decide⟩
      · exact ⟨[eachExpression, binding, eachIndex, eachKey], rfl, by decide⟩
  | eachBlock =>
      simp only [assemble, eachPiece] at h
      split at h <;> cases h
      · exact ⟨[eachOpen, fragment, eachClose], rfl, by decide⟩
      · exact ⟨[eachOpen, fragment, elseClause, eachClose], rfl, by decide⟩
  | awaitShortOpen =>
      simp only [assemble, shortOpeningPiece] at h
      split at h <;> cases h
      · exact ⟨[awaitExpression, thenKeyword], rfl, by decide⟩
      · exact ⟨[awaitExpression, thenKeyword, binding], rfl, by decide⟩
  | thenTag | catchTag =>
      simp only [assemble, valueTagPiece] at h
      split at h <;> cases h
      · exact ⟨[], rfl, by decide⟩
      · exact ⟨[binding], rfl, by decide⟩
  | thenClause | catchClause =>
      simp only [assemble, handlerPiece] at h
      split at h
      · obtain ⟨rfl, -⟩ := Option.ite_none_right_eq_some.1 h
        exact ⟨[_, fragment], rfl, by decide⟩
      · cases h
  | awaitBlock =>
      simp only [assemble, awaitPiece] at h
      split at h <;> cases h
      · exact ⟨[awaitShortOpen, fragment, awaitClose], rfl, by decide⟩
      · exact ⟨[awaitShortOpen, fragment, catchClause, awaitClose],
          rfl, by decide⟩
      · exact ⟨[awaitOpen, fragment, thenClause, awaitClose], rfl, by decide⟩
      · exact ⟨[awaitOpen, fragment, thenClause, catchClause, awaitClose],
          rfl, by decide⟩
  | _ => simp [placed] at hr

/-- The grammar leaves the rows that are expected, for every rule and every way
through its pattern. -/
theorem grammar_tabled : grammar.Tabled Rule.expected where
  named r _ := by cases r <;> decide
  silent r hr := by
    obtain rfl : r = .balanced := by simpa [grammar] using hr
    decide

/-! ## Matches of a whole text -/

theorem grammar_repeatsTake (r : Rule) :
    (grammar.body r).repeatsTake mayBeEmpty = true := by
  cases r <;> decide

/-- The match of a text is what can be derived from the grammar. -/
theorem derives_document_iff (text : Text) (result : Option (Match Rule)) :
    Derives grammar (.rule .document) (.start text) result ↔
      (matchDocument text).result = result := by
  have hresult : (matchDocument text).result =
      grammar.settled callDepth .document (.start text) :=
    grammar.call_result _ _ _ _
  rw [hresult]
  exact ranked.derives_iff grammar_repeatsTake .document (.start text) result

/-- The rules of a match of the whole text stand inside each other as
expected. -/
theorem matchDocument_shaped {text : Text} {m : Match Rule}
    (h : (matchDocument text).result = some m) :
    ∀ c ∈ m.captures, c.Shaped Rule.expected := by
  have hmatch := (grammar.call_result _ _ _ _).symm.trans h
  obtain ⟨-, cs, hcs, -, hshaped⟩ :=
    Peg.Grammar.recognise_shaped grammar_tabled _ .document (.start text) m
      (Cursor.at_start text) hmatch
  cases hcs
  exact hshaped

theorem parse_of_match {text : Text} {m : Match Rule}
    (h : (matchDocument text).result = some m) :
    ∃ f, Piece.ofCaptures? text m.captures = some [.document f] ∧
      parse text = .ok f := by
  obtain ⟨f, hpieces, -⟩ := tree_of_match h
  cases hout : matchDocument text with
  | mk attempts result =>
      rw [hout] at h
      cases h
      exact ⟨f, hpieces, parse_eq_ok hout hpieces⟩

theorem parse_of_no_match {text : Text}
    (h : (matchDocument text).result = none) :
    ∃ offset expected, parse text = .error (.unexpected offset expected) := by
  cases hout : matchDocument text with
  | mk attempts result =>
      rw [hout] at h
      cases h
      exact ⟨_, _, parse_eq_error hout⟩

/-- **A text is refused exactly when the grammar has no match of it.**  Whoever
puts the tree together expects certain rules at certain places.  The rules of a
match stand inside each other as expected and make up the tree that is read, so
no fault is ever that they do not, and the code that would report such a fault
is never reached. -/
theorem parse_error_iff_derives_none (text : Text) :
    ((∃ fault, parse text = .error fault) ↔
      Derives grammar (.rule .document) (.start text) none) ∧
      (∀ span, parse text ≠ .error (.malformed span)) ∧
      (∀ m, Derives grammar (.rule .document) (.start text) (some m) →
        (∀ c ∈ m.captures, c.Shaped Rule.expected) ∧
        ∃ f, Piece.ofCaptures? text m.captures = some [.document f] ∧
          parse text = .ok f) ∧
      ∀ r ∈ Rule.placed, ∀ x ps piece,
        assemble text r x ps = some piece → r.Expects ps := by
  simp only [derives_document_iff]
  refine ⟨?_, ?_, fun m hm => ⟨matchDocument_shaped hm, parse_of_match hm⟩,
    fun r hr x ps piece h => Rule.expects_of_assemble hr h⟩
  · cases hresult : (matchDocument text).result with
    | none =>
        obtain ⟨offset, expected, hparse⟩ := parse_of_no_match hresult
        exact ⟨fun _ => rfl, fun _ => ⟨_, hparse⟩⟩
    | some m =>
        obtain ⟨f, -, hparse⟩ := parse_of_match hresult
        simp [hparse]
  · intro span hmalformed
    cases hresult : (matchDocument text).result with
    | none =>
        obtain ⟨offset, expected, hparse⟩ := parse_of_no_match hresult
        rw [hparse] at hmalformed
        cases hmalformed
    | some m =>
        obtain ⟨f, -, hparse⟩ := parse_of_match hresult
        rw [hparse] at hmalformed
        cases hmalformed

/-- A conditional with a further condition is matched and read; without its
closing tag it is refused. -/
theorem parse_error_iff_derives_none_unclosed :
    (∃ m f, Derives grammar (.rule .document)
      (.start "\x7b#if a\x7d\x7b:else if c\x7dd\x7b/if\x7d".toList) (some m) ∧
      Piece.ofCaptures? "\x7b#if a\x7d\x7b:else if c\x7dd\x7b/if\x7d".toList
        m.captures = some [.document f] ∧
      parse "\x7b#if a\x7d\x7b:else if c\x7dd\x7b/if\x7d".toList = .ok f) ∧
    ∃ fault, parse "\x7b#if a\x7d\x7b:else if c\x7dd".toList =
      .error fault := by
  have hmatched :
      (matchDocument
        "\x7b#if a\x7d\x7b:else if c\x7dd\x7b/if\x7d".toList).result.isSome =
        true := by
    decide +kernel
  have hrefused :
      (matchDocument "\x7b#if a\x7d\x7b:else if c\x7dd".toList).result =
        none := by
    decide +kernel
  obtain ⟨m, hm⟩ := Option.isSome_iff_exists.1 hmatched
  have hderives := (derives_document_iff _ _).2 hm
  obtain ⟨f, hpieces, hparse⟩ :=
    ((parse_error_iff_derives_none _).2.2.1 m hderives).2
  exact ⟨⟨m, f, hderives, hpieces, hparse⟩,
    (parse_error_iff_derives_none _).1.2
      ((derives_document_iff _ _).2 hrefused)⟩

end TemplateJsx.Markup
