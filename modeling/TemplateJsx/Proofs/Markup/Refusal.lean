import Mathlib.Data.List.Forall2
import TemplateJsx.Proofs.Markup.Shapes
import TemplateJsx.Proofs.Peg.Attempts

/-!
# Where a text is refused

A text outside the grammar is refused at the furthest offset at which a named
rule has failed, and the message names the rules that are noted there.  The
nodes that a text begins with are matched first, as many as there are, and then
the end of the text is asked for.  Where that fails, it is noted right after the
last node, unless something has failed further on.  So **a fault never lies
inside the nodes that were accepted**, and its message always names some rule.
-/

namespace TemplateJsx.Markup

open Peg (Cursor Match Matcher Attempts Derives Repeats)

/-! ## What a message names -/

namespace Rule

theorem mem_all (r : Rule) : r ∈ all := by
  cases r <;> decide

/-- The names that a message may hold, each with the rules that go by it.  An
opening tag goes by the form in which it is written, and so do the block parts
that begin with it. -/
def wordings : List (String × List Rule) :=
  [("end of input", [endOfInput]), ("document", [document]),
    ("markup", [fragment]), ("text", [text]), ("comment", [comment]),
    ("raw_element", [rawElement]), ("raw_name", [rawName]),
    ("raw_text", [rawText]), ("void_element", [voidElement]),
    ("void_name", [voidName]), ("element", [element]), ("tag_name", [tagName]),
    ("attribute", [attr]), ("attribute_name", [attributeName]),
    ("attribute_value", [attributeValue]), ("dq_value", [doubleQuotedValue]),
    ("dq_text", [doubleQuotedText]), ("sq_value", [singleQuotedValue]),
    ("sq_text", [singleQuotedText]), ("unquoted_value", [unquotedValue]),
    ("expression tag", [mustache]),
    ("expression", [expression, eachExpression, awaitExpression]),
    ("balanced", [balanced]), ("binding", [binding]), ("if_block", [ifBlock]),
    ("`\x7b#if ...\x7d`", [ifOpen]),
    ("`\x7b:else if ...\x7d`", [elseIf, elseIfOpen]),
    ("`\x7b:else\x7d`", [elseClause, elseTag]), ("`\x7b/if\x7d`", [ifClose]),
    ("each_block", [eachBlock]), ("`\x7b#each ... as ...\x7d`", [eachOpen]),
    ("index name", [eachIndex]), ("key expression", [eachKey]),
    ("`\x7b/each\x7d`", [eachClose]), ("await_block", [awaitBlock]),
    ("`\x7b#await ...\x7d`", [awaitOpen, awaitShortOpen]),
    ("then_keyword", [thenKeyword]),
    ("`\x7b:then ...\x7d`", [thenClause, thenTag]),
    ("`\x7b:catch ...\x7d`", [catchClause, catchTag]),
    ("`\x7b/await\x7d`", [awaitClose]), ("other_block", [otherBlock]),
    ("block_name", [blockName])]

/-- A rule goes by a name if it stands in the row of that name. -/
def GoesBy (r : Rule) (name : String) : Prop :=
  ∃ row ∈ wordings, r ∈ row.2 ∧ row.1 = name

instance (r : Rule) (name : String) : Decidable (r.GoesBy name) :=
  inferInstanceAs (Decidable (∃ row ∈ wordings, r ∈ row.2 ∧ row.1 = name))

/-- No name is empty, no two rows have one name, and every rule stands in one
row.  So a name says something, and all that it leaves open is which of the
rules in its row is meant. -/
theorem wordings_wellFormed :
    "" ∉ wordings.map Prod.fst ∧ (wordings.map Prod.fst).Nodup ∧
      (wordings.flatMap Prod.snd).Perm all := by
  decide +kernel

/-- Every rule goes by its label: the wording that runs is the table. -/
theorem goesBy_label (r : Rule) : r.GoesBy r.label := by
  cases r <;> decide +kernel

end Rule

/-- A list of alternatives in words: `A`, `A or B`, `A, B, or C`. -/
inductive InWords : List String → String → Prop
  | one (a : String) : InWords [a] a
  | two (a b : String) : InWords [a, b] (a ++ " or " ++ b)
  | more {first : List String} (a : String) (h : 2 ≤ first.length) :
      InWords (first ++ [a]) (String.join (first.map (· ++ ", ")) ++ "or " ++ a)

/-- Items with separators between them, and one more at the end, are items with
separators behind them. -/
theorem join_eq_intercalate {items : List String} (h : items ≠ []) :
    String.join (items.map (· ++ ", ")) = String.intercalate ", "
      items ++ ", " := by
  induction items with
  | nil => exact absurd rfl h
  | cons a items ih =>
      by_cases hnil : items = []
      · subst hnil
        simp
      · rw [String.intercalate_cons_of_ne_nil hnil, List.map_cons,
          String.join_cons, ih hnil]
        simp [String.append_assoc]

theorem inWords_enumerate {items : List String} (h : items ≠ []) :
    InWords items (Rule.enumerate items) := by
  unfold Rule.enumerate
  split
  · exact absurd rfl h
  · exact .one _
  · exact .two _ _
  · rename_i hone htwo
    -- What comes before the last item are two items or more.
    obtain ⟨first, last, rfl⟩ : ∃ first last, items = first ++ [last] :=
      ⟨items.dropLast, items.getLast h, (List.dropLast_append_getLast h).symm⟩
    have hlength : 2 ≤ first.length := by
      match first with
      | [] => exact absurd rfl (hone last)
      | [a] => exact absurd rfl (htwo a last)
      | a :: b :: first => simp
    have hne : first ≠ [] := List.ne_nil_of_length_pos (by omega)
    have hwords : String.intercalate ", " first ++ ", or " ++ last =
        String.join (first.map (· ++ ", ")) ++ "or " ++ last := by
      rw [join_eq_intercalate hne]
      simp [String.append_assoc]
    rw [List.dropLast_concat, List.getLastD_concat, hwords]
    exact .more last hlength

/-- What a message that names the expected rules says: the word `expected`, and
the labels of the rules in words. -/
theorem ParseFault.message_eq {offset : Nat} {expected : List Rule}
    (h : expected ≠ []) :
    ∃ names words, List.Forall₂ Rule.GoesBy expected names ∧
      InWords names words ∧
      (ParseFault.unexpected offset expected).message =
        "expected " ++ words := by
  refine ⟨expected.map Rule.label, _, ?_,
    inWords_enumerate (by simpa using h), rfl⟩
  rw [List.forall₂_map_right_iff, List.forall₂_same]
  exact fun r _ => r.goesBy_label

/-- The rules that are expected are those that are noted, in whatever order they
are listed. -/
theorem mem_expectedRules {a : Attempts Rule} {r : Rule} :
    r ∈ expectedRules a ↔ r ∈ a.rules := by
  simp [expectedRules, Rule.mem_all]

/-! ## The nodes at the beginning -/

/-- A fragment is the longest run of complete nodes.  Any such run from the same
place ends where the fragment does or before. -/
theorem fragment_longest {c : Cursor} {m : Match Rule}
    (h : Derives grammar (.rule .fragment) c (some m)) :
    Repeats grammar node c m.cursor ∧ ∀ d, Repeats grammar node c d →
      d.offset ≤ m.cursor.offset := by
  generalize hresult : some m = result at h
  cases h with
  | rule body =>
      obtain ⟨inner, rfl, rfl⟩ := Option.map_eq_some_iff.1 hresult.symm
      have hrun : Repeats grammar node c inner.cursor := Derives.repeats body
      refine ⟨hrun, ?_⟩
      intro d hd
      obtain ⟨w, -, hoffset⟩ := hd.advances body
      exact Nat.le.intro hoffset.symm

/-- A fragment always matches. -/
theorem fragment_matches (c : Cursor) :
    ∃ m, recognised .fragment c = some m := by
  rw [recognised_eq]
  exact ⟨_, rfl⟩

/-- Where the whole text is not matched, the end of the text is missing after
the nodes that it begins with, and the attempts are those that are left then. -/
theorem document_fails {call : Rule → Matcher Rule} {c : Cursor}
    {a a₁ : Attempts Rule} {m : Match Rule} (hstart : c.offset = 0)
    (hfragment : call .fragment c a = ⟨a₁, some m⟩)
    (h : ((ruleBody .document).run call c a).result = none) :
    (call .endOfInput m.cursor a₁).result = none ∧
      ((ruleBody .document).run call c a).attempts =
        (call .endOfInput m.cursor a₁).attempts := by
  have hbody : ruleBody .document = .sequence .atStart
      (.sequence (.rule .fragment) (.rule .endOfInput)) := rfl
  rw [hbody] at h ⊢
  cases hout : call .endOfInput m.cursor a₁ with
  | mk a₂ result =>
      cases result with
      | none => simp [Peg.Pattern.run, Match.plain, hstart, hfragment, hout]
      | some m' =>
          simp [Peg.Pattern.run, Match.plain, hstart, hfragment, hout] at h

/-- What is noted when the whole text is not matched lies past the nodes that it
begins with. -/
theorem document_notes {text : Text} {depth : Nat}
    (hdepth : callDepth * text.length + 2 < depth + 1)
    (h : ((ruleBody .document).run (grammar.call (depth + 1)) (.start text)
      .none).result = none) :
    ∃ m, Derives grammar (.rule .fragment) (.start text) (some m) ∧
      m.cursor.offset ≤ ((ruleBody .document).run (grammar.call (depth + 1))
        (.start text) .none).attempts.offset := by
  have hc := Cursor.at_start text
  obtain ⟨m, hm⟩ := fragment_matches (.start text)
  have hderives : Derives grammar (.rule .fragment) (.start text) (some m) :=
    (ranked.derives_iff grammar_repeatsTake _ _ _).2 hm
  have hfragment :
      (grammar.call (depth + 1) .fragment (.start text) .none).result =
        some m := by
    rw [grammar.call_result, ranked.recognise_eq_settled _ _ hdepth]
    exact hm
  have hsound :=
    ranked.call_sound grammar_repeatsTake (depth + 1) .fragment
      _ _ hdepth hc .none
  refine ⟨m, hderives, ?_⟩
  cases hout : grammar.call (depth + 1) .fragment (.start text) .none with
  | mk a result =>
      rw [hout] at hfragment hsound
      cases hfragment
      obtain ⟨hend, hattempts⟩ := document_fails rfl hout h
      -- The end of the text is asked for where the fragment has stopped, with
      -- no more of the text left.
      have hlands := (hderives.advances rfl).lands hc
      have hshort : m.cursor.rest.length ≤ text.length :=
        (ranked.settled_shortens _ _ _ hm).1
      have hrest : callDepth * m.cursor.rest.length + rank .endOfInput <
          depth + 1 := by
        have hmul := Nat.mul_le_mul_left callDepth hshort
        simp only [rank]
        omega
      rw [hattempts]
      exact (ranked.call_fails grammar_repeatsTake hrest hlands
        hsound rfl hend).1

/-- The attempts of a text that is not matched are right, not empty, and lie
past the nodes that it begins with.  The rest of this module is about how they
are put into words. -/
theorem attempts_of_refused {text : Text}
    (h : (matchDocument text).result = none) :
    (matchDocument text).attempts.Sound grammar text ∧
      (matchDocument text).attempts.rules ≠ [] ∧
      ∃ m, Derives grammar (.rule .fragment) (.start text) (some m) ∧
        m.cursor.offset ≤ (matchDocument text).attempts.offset := by
  have hc := Cursor.at_start text
  obtain ⟨depth, hdepth, henough⟩ : ∃ depth,
    callDepth * (text.length + 1) = depth + 1 + 1 ∧
      callDepth * text.length + 3 < depth + 1 :=
        ⟨callDepth * text.length + 6, rfl, by omega⟩
  have hdocument : callDepth * (Cursor.start text).rest.length +
      rank .document < depth + 1 + 1 :=
    Nat.lt_succ_of_lt henough
  unfold matchDocument at h ⊢
  rw [hdepth] at h ⊢
  obtain ⟨-, hlater, hnoted⟩ :=
    ranked.call_fails grammar_repeatsTake hdocument hc .none rfl h
  obtain ⟨m, hderives, hle⟩ :=
    document_notes (Nat.lt_of_succ_lt henough)
      (Peg.Grammar.call_eq_none_iff.1 h)
  exact ⟨ranked.call_sound grammar_repeatsTake _ _ _ _ hdocument hc .none,
    hnoted, m, hderives, Nat.le_trans hle hlater⟩

/-! ## The fault -/

/-- **A text is refused at a place past the nodes that it begins with, and the
message says what is missing there.**  The place lies between two characters and
is no earlier than the end of the fragment that the text begins with, which is
the longest run of complete nodes.  The message names some rules, and none of
them matches at that place. -/
theorem parse_error_past_nodes {text : Text} {fault : ParseFault}
    (h : parse text = .error fault) :
    ∃ (m : Match Rule) (p : Nat) (expected : List Rule),
      (Derives grammar (.rule .fragment) (.start text) (some m) ∧
        Repeats grammar node (.start text) m.cursor ∧
        ∀ d, Repeats grammar node (.start text) d →
          d.offset ≤ m.cursor.offset) ∧
      fault = .unexpected p expected ∧ fault.span = ⟨p, p⟩ ∧
      text.isBoundary p = true ∧ m.cursor.offset ≤ p ∧ p ≤ text.byteLength ∧
      expected ≠ [] ∧ (∀ r ∈ expected, grammar.MissesAt text p r) ∧
      ∃ names words, List.Forall₂ Rule.GoesBy expected names ∧
        InWords names words ∧ fault.message = "expected " ++ words := by
  cases hout : matchDocument text with
  | mk attempts result =>
      cases result with
      | some m =>
          have hresult : (matchDocument text).result = some m := by rw [hout]
          obtain ⟨f, -, hparse⟩ := parse_of_match hresult
          rw [h] at hparse
          cases hparse
      | none =>
          have hresult : (matchDocument text).result = none := by rw [hout]
          obtain ⟨hsound, hnoted, m, hderives, hle⟩ :=
            attempts_of_refused hresult
          obtain rfl := Except.error.inj (h.symm.trans (parse_eq_error hout))
          rw [hout] at hsound hnoted hle
          have hstop := (Text.isBoundary_iff.1 hsound.place).stop_le
          have hne : expectedRules attempts ≠ [] := by
            obtain ⟨r, hr⟩ := List.exists_mem_of_ne_nil _ hnoted
            exact List.ne_nil_of_mem (mem_expectedRules.2 hr)
          exact ⟨m, attempts.offset, expectedRules attempts,
            ⟨hderives, fragment_longest hderives⟩, rfl, rfl, hsound.place, hle,
            hstop, hne, fun r hr => hsound.misses r (mem_expectedRules.1 hr),
            ParseFault.message_eq hne⟩

/-- Two complete nodes, and a conditional with an expression tag in it that is
never closed. -/
def unclosed : Text := "é<b>x</b>\x7b#if a\x7dy\x7bb".toList

/-- The conditional is not accepted.  The fault lies inside it, where the
expression tag begins, and so past the two nodes in front of it. -/
theorem parse_error_past_nodes_unclosed :
    ∃ fault, parse unclosed = .error fault ∧ fault.span = ⟨18, 18⟩ ∧
      fault.message =
        "expected text, comment, raw_element, void_element, element, " ++
        "expression tag, `\x7b#if ...\x7d`, `\x7b:else if ...\x7d`, " ++
        "`\x7b:else\x7d`, `\x7b/if\x7d`, " ++
        "`\x7b#each ... as ...\x7d`, await_block, or other_block" ∧
      ∃ m expected names words, Derives grammar (.rule .fragment)
        (.start unclosed) (some m) ∧
        m.cursor.offset = 10 ∧ expected.length = 13 ∧
        (∀ r ∈ expected, grammar.MissesAt unclosed 18 r) ∧
        List.Forall₂ Rule.GoesBy expected names ∧ InWords names words ∧
        fault.message = "expected " ++ words := by
  have hrefused : (matchDocument unclosed).result = none := by decide +kernel
  have hoffset : (matchDocument unclosed).attempts.offset = 18 := by
    decide +kernel
  have hlength : (expectedRules (matchDocument unclosed).attempts).length =
      13 := by
    decide +kernel
  have hmessage :
      (ParseFault.unexpected (matchDocument unclosed).attempts.offset
        (expectedRules (matchDocument unclosed).attempts)).message =
        "expected text, comment, raw_element, void_element, element, " ++
        "expression tag, `\x7b#if ...\x7d`, `\x7b:else if ...\x7d`, " ++
        "`\x7b:else\x7d`, `\x7b/if\x7d`, " ++
        "`\x7b#each ... as ...\x7d`, await_block, or other_block" := by
    decide +kernel
  have hnodes : (recognised .fragment (.start unclosed)).map (·.cursor.offset) =
      some 10 := by
    decide +kernel
  cases hout : matchDocument unclosed with
  | mk attempts result =>
      rw [hout] at hrefused hoffset hlength hmessage
      obtain rfl : result = none := hrefused
      have hparse := parse_eq_error hout
      obtain ⟨m, p, expected, ⟨hderives, -⟩, heq, -, -, -, -, -, hmisses, names,
          words, hrest⟩ :=
        parse_error_past_nodes hparse
      obtain ⟨hp, rfl⟩ := ParseFault.unexpected.inj heq
      obtain rfl : p = 18 := hp.symm.trans hoffset
      have hrecognised : recognised .fragment (.start unclosed) = some m :=
        (ranked.derives_iff grammar_repeatsTake _ _ _).1 hderives
      rw [hrecognised] at hnodes
      exact ⟨_, hparse, congrArg Span.point hoffset, hmessage, m, _, names,
        words, hderives, Option.some.inj hnodes, hlength, hmisses, hrest⟩

end TemplateJsx.Markup
