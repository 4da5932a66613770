import TemplateJsx.Proofs.Markup.Sketch
import TemplateJsx.Proofs.Markup.Taking

/-!
# The words and tags of a sketch are taken

What is written for a word or a tag of a sketch is taken by the rule for it, and
the piece that the rule leaves behind is cut out of the text where the word or
tag was written.

An identifier is taken as an expression one character at a time: none of its
characters is a bracket, a quote or white space, so no other kind of balanced
stretch begins there and no stop matches inside.  This is why `as` and `then`
may be identifiers: the word that stops an expression has to come after white
space.
-/

namespace TemplateJsx.Markup

open Peg (Cursor Recogniser Match)
open Peg.Pattern

variable {t : Text} {p q : Pat} {names names' : List Text} {u v w : Text}
  {c : Char} {post : List Piece → Prop}

/-! ## Characters -/

theorem ne_of_class {accepts : Char → Bool} {d : Char} (hc : accepts c = true)
    (hd : accepts d = false) :
    c ≠ d := by
  rintro rfl
  rw [hc] at hd
  cases hd

/-- A word is refused where a character comes next that is of a class to which
its first character does not belong. -/
theorem Refuses.literal_of_class {accepts : Char → Bool} {word : Text}
    (hc : accepts c = true)
    (hword : word.head?.any (fun d => !accepts d) = true) :
    Refuses t (.literal word) names (c :: u) := by
  cases word with
  | nil => cases hword
  | cons d word =>
      have hd : accepts d = false := by simpa using hword
      exact .literal (by simp [List.isPrefixOf, (ne_of_class hc hd).symm])

theorem Refuses.oneOf_of_class {accepts : Char → Bool} {chars : String}
    (hc : accepts c = true)
    (hchars : chars.toList.all (fun d => !accepts d) = true) :
    Refuses t (oneOf chars) names (c :: u) := by
  refine .one ?_
  cases hmem : chars.toList.contains c with
  | false => rfl
  | true =>
      have := List.all_eq_true.1 hchars c (by simpa using hmem)
      simp [hc] at this

theorem continuesIdentifier_of_isBlank (h : isBlank c = true) :
    continuesIdentifier c = false := by
  obtain ⟨n, hn, rfl⟩ := exists_blankCode h
  exact (show ∀ n ∈ blankCodes, continuesIdentifier (Char.ofNat n) =
    false by decide +kernel) n hn

/-! ## White space -/

theorem blank_refuses_of_class {accepts : Char → Bool} (hc : accepts c = true)
    (hblank : " \t\r\n".toList.all (fun d => !accepts d) = true) :
    Refuses t blank names (c :: u) :=
  .oneOf_of_class hc hblank

theorem gap_passes (hv : Refuses t blank names v) :
    Passes t gap names (' ' :: v) names v := by
  refine .chars1 (w := []) rfl ?_ hv
  intro d hd u
  rw [List.mem_singleton.1 hd]
  exact .one rfl

theorem brace_passes :
    Passes t (.sequence blanks (lit "\x7d")) names ('}' :: v) names v :=
  .skip (.stop (.one rfl)) (.literal _ rfl)

/-! ## Identifiers -/

namespace Identifier

variable (e : Identifier)

theorem exists_cons : ∃ c w, e.text = c :: w ∧ startsIdentifier c = true := by
  have hvalid := e.valid
  cases htext : e.text with
  | nil => simp [htext, isIdentifier] at hvalid
  | cons c w =>
      simp only [htext, isIdentifier, Bool.and_eq_true] at hvalid
      exact ⟨c, w, rfl, hvalid.1⟩

theorem continues : ∀ d ∈ e.text, continuesIdentifier d = true := by
  have hvalid := e.valid
  cases htext : e.text with
  | nil => simp
  | cons c w =>
      simp only [htext, isIdentifier, Bool.and_eq_true,
        List.all_eq_true] at hvalid
      intro d hd
      rcases List.mem_cons.1 hd with rfl | hd
      · exact continuesIdentifier_of_starts hvalid.1
      · exact hvalid.2 d hd

/-- A pattern that is refused before every character of identifiers is refused
before an identifier.  Nearly all refusals in tags come down to this. -/
theorem refuses
    (h : ∀ c u, continuesIdentifier c = true → Refuses t p names (c :: u)) :
    Refuses t p names (e.text ++ v) := by
  obtain ⟨c, w, htext, hc⟩ := e.exists_cons
  rw [htext]
  exact h c (w ++ v) (continuesIdentifier_of_starts hc)

theorem many1_passes (hp : p.mayBeEmpty mayBeEmpty = false)
    (h : ∀ c u, continuesIdentifier c = true →
      Passes t p names (c :: u) names u)
    (hv : Refuses t p names v) :
    Passes t (many1 p) names (e.text ++ v) names v := by
  obtain ⟨c, w, htext, -⟩ := e.exists_cons
  have hall := e.continues
  rw [htext] at hall ⊢
  exact .chars1 hp (fun d hd u => h d u (hall d hd)) hv

theorem trimmed : Text.Trimmed e.text := by
  have hblank : ∀ d ∈ e.text, isBlank d = false := by
    intro d hd
    cases h : isBlank d with
    | false => rfl
    | true =>
        have hd' := e.continues d hd
        rw [continuesIdentifier_of_isBlank h] at hd'
        cases hd'
  exact ⟨fun d hd => hblank d (List.mem_of_mem_head? hd), fun d hd =>
    hblank d (List.mem_of_mem_getLast? hd)⟩

theorem blank_refuses : Refuses t blank names (e.text ++ v) :=
  e.refuses fun _ _ hc => blank_refuses_of_class hc (by decide)

theorem passes (hv : Refuses t identifierChar names v) :
    Passes t identifier names (e.text ++ v) names v := by
  obtain ⟨c, w, htext, hc⟩ := e.exists_cons
  have hall := e.continues
  rw [htext] at hall ⊢
  exact .skip (.one hc) (.chars rfl (fun d hd u =>
    .one (hall d (by simp [hd]))) hv)

end Identifier

/-! ## Expressions -/

theorem balanced_passes (hc : continuesIdentifier c = true) :
    Passes t (.rule .balanced) names (c :: u) names u := by
  have hlit : ∀ {word : Text} {q : Pat},
      word.head?.any (fun d => !continuesIdentifier d) = true →
      Refuses t (.sequence (.literal word) q) names (c :: u) :=
        fun hword => .first (.literal_of_class hc hword)
  refine .balanced (.right (.choice (hlit (by decide)) (hlit (by decide)))
    (.right (hlit (by decide)) (.right (hlit (by decide))
        (.right (hlit (by decide)) (.right (hlit (by decide)) ?_)))))
  exact .skip (.notAhead (.oneOf_of_class hc (by decide))) (.one rfl)

theorem balanced_refuses (hc : c = '}' ∨ c = ')') :
    Refuses t (.rule .balanced) names (c :: u) := by
  rcases hc with rfl | rfl <;>
    exact .rule
      (.choice (.choice (.first (.literal rfl)) (.first (.literal rfl)))
        (.choice (.first (.literal rfl))
          (.choice (.first (.literal rfl))
            (.choice (.first (.literal rfl))
            (.choice (.first (.literal rfl)) (.first (.ahead (.one rfl))))))))

/-- A rule that takes an identifier character by character and leaves behind its
span without white space. -/
theorem trimmed_takes (e : Identifier) {r : Rule} {kind : Span → Piece}
    (hr : grammar.isNamed r = true)
    (hassemble : ∀ x ps, assemble t r x ps = (t.trimSpan? x).map kind)
    (hbody : ruleBody r = many1 p) (hp : p.mayBeEmpty mayBeEmpty = false)
    (h : ∀ c u, continuesIdentifier c = true →
      Passes t p names (c :: u) names u)
    (hv : Refuses t p names v) :
    Takes t (.rule r) names (e.text ++ v) names v fun ps =>
      ∃ x, ps = [kind x] ∧ t.slice? x = some e.text := by
  refine .rule hr rfl ?_
  rw [hbody]
  refine (e.many1_passes hp h hv).imp fun ps _ x hx => ⟨kind x, ?_, x, rfl, hx⟩
  rw [hassemble, Text.trimSpan?_self hx e.trimmed]
  rfl

theorem expression_takes (e : Identifier) :
    Takes t (.rule .expression) names (e.text ++ '}' :: v) names
      ('}' :: v) fun ps =>
      ∃ x, ps = [.expression .expression x] ∧ t.slice? x = some e.text :=
  trimmed_takes e rfl (fun _ _ => rfl) rfl rfl (fun _ _ => balanced_passes)
    (balanced_refuses (.inl rfl))

theorem eachKey_takes (k : Identifier) :
    Takes t (.rule .eachKey) names (k.text ++ ')' :: v) names
      (')' :: v) fun ps =>
      ∃ x, ps = [.key x] ∧ t.slice? x = some k.text :=
  trimmed_takes k rfl (fun _ _ => rfl) rfl rfl (fun _ _ => balanced_passes)
    (balanced_refuses (.inr rfl))

theorem untilGap_passes {stop : Pat} (hc : continuesIdentifier c = true) :
    Passes t (.sequence (.unless (.sequence gap stop)) (.rule .balanced)) names
      (c :: u) names u :=
  .skip (.notAhead (.first (.first (blank_refuses_of_class hc (by decide)))))
    (balanced_passes hc)

theorem asWord_passes (hv : Refuses t blank names v) :
    Passes t asWord names (' ' :: ("as".toList ++ ' ' :: v)) names v :=
  .skip (gap_passes (.one rfl)) (.skip (.literal _ rfl) (gap_passes hv))

/-- An expression in front of `as` stops there.  The word has to have white
space in front of it, so an expression that ends in these letters is not cut. -/
theorem eachExpression_takes (e : Identifier) (hv : Refuses t blank names v) :
    Takes t (.rule .eachExpression) names
      (e.text ++ ' ' :: ("as".toList ++ ' ' :: v)) names
      (' ' :: ("as".toList ++ ' ' :: v)) fun ps =>
        ∃ x, ps = [.expression .eachExpression x] ∧ t.slice? x = some e.text :=
  trimmed_takes e rfl (fun _ _ => rfl) rfl rfl (fun _ _ => untilGap_passes)
    (.first (.ahead (asWord_passes hv)))

/-- An awaited expression stops in front of `then`, and at the end of the
tag. -/
theorem awaitExpression_takes (e : Identifier)
    (hv : Refuses t
      (.sequence (.unless (seq [gap, lit "then", .unless identifierChar]))
        (.rule .balanced)) names v) :
    Takes t (.rule .awaitExpression) names (e.text ++ v) names v fun ps =>
      ∃ x, ps = [.expression .awaitExpression x] ∧ t.slice? x = some e.text :=
  trimmed_takes e rfl (fun _ _ => rfl) rfl rfl (fun _ _ => untilGap_passes) hv

/-! ## Bindings -/

theorem binding_takes (e : Identifier) (hv : Refuses t identifierChar names v) :
    Takes t (.rule .binding) names (e.text ++ v) names v fun ps =>
      ∃ b, ps = [.binding b] ∧ BindingDepicted t e b := by
  have hlit : ∀ {word : Text} {q : Pat},
      word.head?.any (fun d => !continuesIdentifier d) = true →
      Refuses t (.sequence (.literal word) q) names (e.text ++ v) := by
    intro word q hword
    exact e.refuses fun _ _ hc => .first (.literal_of_class hc hword)
  refine .rule rfl rfl (.right (hlit (by decide))
    (.right (hlit (by decide)) ?_))
  refine (e.passes hv).imp fun ps _ x hx =>
    ⟨.binding ⟨e.text, x⟩, ?_, _, rfl, rfl, hx⟩
  simp [assemble, hx]

theorem name_takes {r : Rule} (hr : grammar.isNamed r = true)
    (hassemble : ∀ x ps, assemble t r x ps = (t.slice? x).map (.name r))
    (h : Passes t (ruleBody r) names (w ++ v) names v) :
    Takes t (.rule r) names (w ++ v) names v (· = [.name r w]) := by
  refine .rule hr rfl (h.imp fun ps _ x hx => ⟨.name r w, ?_, rfl⟩)
  rw [hassemble, hx]
  rfl

theorem eachIndex_takes (i : Identifier)
    (hv : Refuses t identifierChar names v) :
    Takes t (.rule .eachIndex) names (i.text ++ v) names v
      (· = [.name .eachIndex i.text]) :=
  name_takes rfl (fun _ _ => rfl) (i.passes hv)

theorem value_takes (value : Option Identifier) :
    Takes t (.optional (.sequence gap (.rule .binding))) names
        (valueText value ++ '}' :: v) names ('}' :: v) fun ps =>
      ∃ b, ps = b.toList.map Piece.binding ∧ ValueDepicted t value b := by
  cases value with
  | none =>
      refine (Takes.absent (.first (.first (.one rfl)))).imp ?_
      rintro _ rfl
      exact ⟨none, rfl, rfl⟩
  | some e =>
      refine .present (.skip (gap_passes e.blank_refuses)
        ((binding_takes e (.one rfl)).imp ?_))
      rintro _ ⟨b, rfl, hb⟩
      exact ⟨some b, rfl, b, rfl, hb⟩

/-! ## Tags -/

theorem expressionTagText_append (opening : Text) (e : Identifier) (v : Text) :
    expressionTagText opening e ++ v = opening ++
      ' ' :: (e.text ++ '}' :: v) := by
  simp [expressionTagText]

theorem wordTagText_append (opening v : Text) :
    wordTagText opening ++ v = opening ++ '}' :: v := by
  simp [wordTagText]

theorem valueTagText_append (opening : Text) (value : Option Identifier)
    (v : Text) :
    valueTagText opening value ++ v = opening ++
      (valueText value ++ '}' :: v) := by
  simp [valueTagText]

/-- A tag of an opening and an expression, whatever its opening is. -/
theorem opening_takes {r : Rule} {opening : Text} (e : Identifier)
    (hr : grammar.isNamed r = true)
    (hassemble : ∀ x ps, assemble t r x ps = openingPiece r x ps)
    (hbody : ∀ u post,
      Takes t (seq [gap, .rule .expression, blanks, lit "\x7d"]) names
        (' ' :: u) names v post →
      Takes t (ruleBody r) names (opening ++ ' ' :: u) names v post) :
    Takes t (.rule r) names (expressionTagText opening e ++ v) names v fun ps =>
      ∃ tag x, ps = [.opening r tag x] ∧ t.slice? tag =
        some (expressionTagText opening e) ∧
        t.slice? x = some e.text := by
  refine .rule hr rfl ?_
  rw [expressionTagText_append]
  refine hbody _ _ (.skip (gap_passes e.blank_refuses)
    (.last ((expression_takes e).imp ?_) brace_passes))
  rintro _ ⟨x, rfl, hx⟩ tag htag
  exact ⟨_, hassemble tag _, tag, x, rfl, htag, hx⟩

theorem ifOpen_takes (e : Identifier) :
    Takes t (.rule .ifOpen) names (ifTagText e ++ v) names v fun ps =>
      ∃ tag x, ps = [.opening .ifOpen tag x] ∧
        t.slice? tag = some (ifTagText e) ∧
        t.slice? x = some e.text :=
  opening_takes e rfl (fun _ _ => rfl) fun _ _ h => .skip (.literal _ rfl) h

theorem awaitOpen_takes (e : Identifier) :
    Takes t (.rule .awaitOpen) names (awaitTagText e ++ v) names v fun ps =>
      ∃ tag x, ps = [.opening .awaitOpen tag x] ∧
        t.slice? tag = some (awaitTagText e) ∧
        t.slice? x = some e.text :=
  opening_takes e rfl (fun _ _ => rfl) fun _ _ h => .skip (.literal _ rfl) h

theorem elseIfOpen_takes (e : Identifier) :
    Takes t (.rule .elseIfOpen) names (linkTagText e ++ v) names v fun ps =>
      ∃ tag x, ps = [.opening .elseIfOpen tag x] ∧
        t.slice? tag = some (linkTagText e) ∧
        t.slice? x = some e.text :=
  opening_takes e rfl (fun _ _ => rfl) fun _ _ h =>
    .skip (.literal _ rfl) (.skip (gap_passes (.one rfl))
      (.skip (.literal _ rfl) h))

theorem wordTag_passes (opening : String) :
    Passes t (wordTag opening) names (wordTagText opening.toList ++ v)
      names v := by
  rw [wordTagText_append]
  exact .skip (.literal _ rfl) brace_passes

theorem elseTag_takes :
    Takes t (.rule .elseTag) names (wordTagText "\x7b:else".toList ++ v)
      names v fun ps =>
      ∃ x, ps = [.tag x] ∧ t.slice? x = some (wordTagText "\x7b:else".toList) :=
  .rule rfl rfl ((wordTag_passes "\x7b:else").imp fun _ _ x hx =>
    ⟨_, rfl, x, rfl, hx⟩)

theorem close_takes {r : Rule} (opening : String)
    (hr : grammar.isNamed r = true)
    (hassemble : ∀ x ps, assemble t r x ps = some (.unrecorded r))
    (hbody : ruleBody r = wordTag opening) :
    Takes t (.rule r) names (wordTagText opening.toList ++ v) names v
      (· = [.unrecorded r]) := by
  refine .rule hr rfl ?_
  rw [hbody]
  exact (wordTag_passes opening).imp fun _ _ x _ => ⟨_, hassemble x _, rfl⟩

theorem valueTag_takes {r : Rule} (opening : String) (value : Option Identifier)
    (hr : grammar.isNamed r = true)
    (hassemble : ∀ x ps, assemble t r x ps = valueTagPiece r x ps)
    (hbody : ruleBody r = bindingTag opening) :
    Takes t (.rule r) names (valueTagText opening.toList value ++ v)
      names v fun ps =>
      ∃ x b, ps = [.valueTag r x b] ∧ t.slice? x =
        some (valueTagText opening.toList value) ∧
        ValueDepicted t value b := by
  refine .rule hr rfl ?_
  rw [hbody, valueTagText_append]
  refine .skip (.literal _ rfl)
    (.last ((value_takes value).imp ?_) brace_passes)
  rintro _ ⟨b, rfl, hb⟩ x hx
  refine ⟨.valueTag r x b, ?_, x, b, rfl, hx, hb⟩
  rw [hassemble]
  cases b <;> rfl

/-! ## The tag of an iteration -/

theorem identifierChar_refuses_index (index key : Option Identifier) :
    Refuses t identifierChar names
      (indexText index ++ (keyText key ++ '}' :: v)) := by
  cases index with
  | some i => exact .one rfl
  | none => cases key <;> exact .one rfl

theorem index_takes (index key : Option Identifier) :
    Takes t (.optional (seq [blanks, lit ",", blanks, .rule .eachIndex])) names
      (indexText index ++ (keyText key ++ '}' :: v)) names
      (keyText key ++ '}' :: v) (· = (index.map Identifier.text).toList.map
        (Piece.name .eachIndex)) := by
  cases index with
  | some i =>
      have hstop : Refuses t identifierChar names (keyText key ++ '}' :: v) :=
        identifierChar_refuses_index none key
      exact .present (.skip (.stop (.one rfl))
        (.skip (.literal _ rfl) (.skip
            (.chars (w := [' ']) rfl (by simpa using fun _ => .one rfl)
              i.blank_refuses) (eachIndex_takes i hstop))))
  | none =>
      refine .absent ?_
      cases key with
      | none => exact .next (.stop (.one rfl)) (.first (.literal rfl))
      | some k =>
          exact .next (.chars (w := [' ']) rfl
              (by simpa using fun _ => .one rfl) (.one rfl))
            (.first (.literal rfl))

theorem key_takes (key : Option Identifier) :
    Takes t (.optional (seq [blanks, lit "(", .rule .eachKey, lit ")"])) names
        (keyText key ++ '}' :: v) names ('}' :: v) fun ps =>
      ∃ k, ps = k.toList.map Piece.key ∧ KeyDepicted t key k := by
  cases key with
  | none =>
      refine (Takes.absent (.next (.stop (.one rfl))
        (.first (.literal rfl)))).imp ?_
      rintro _ rfl
      exact ⟨none, rfl, rfl⟩
  | some k =>
      have htext : keyText (some k) ++ '}' :: v =
          [' '] ++ '(' :: (k.text ++ ')' :: '}' :: v) := by
        simp [keyText]
      rw [htext]
      refine .present
        (.skip (.chars rfl (by simpa using fun _ => .one rfl) (.one rfl))
          (.skip (.literal _ rfl) (.last ((eachKey_takes k).imp ?_)
              (.literal _ rfl))))
      rintro _ ⟨x, rfl, hx⟩
      exact ⟨some x, rfl, x, rfl, hx⟩

theorem eachOpeningPiece_eq (tag x : Span) (b : Binding) (i : Option Text)
    (k : Option Span) :
    eachOpeningPiece tag (.expression .eachExpression x :: .binding b ::
        (i.toList.map (.name .eachIndex) ++ k.toList.map .key)) =
      some (.eachOpening tag x b i k) := by
  cases i <;> cases k <;> rfl

theorem eachOpen_takes (e context : Identifier)
    (index key : Option Identifier) :
    Takes t (.rule .eachOpen) names (eachTagText e context index key ++ v)
      names v fun ps =>
      ∃ tag x b k, ps = [.eachOpening tag x b (index.map Identifier.text) k] ∧
        t.slice? tag = some (eachTagText e context index key) ∧
        t.slice? x = some e.text ∧
        BindingDepicted t context b ∧ KeyDepicted t key k := by
  have htext : eachTagText e context index key ++ v =
      "\x7b#each".toList ++ ' ' ::
      (e.text ++ ' ' :: ("as".toList ++ ' ' ::
          (context.text ++ (indexText index ++
            (keyText key ++ '}' :: v))))) := by
    unfold eachTagText
    simp only [List.append_assoc, List.cons_append, List.nil_append]
  refine .rule rfl rfl ?_
  rw [htext]
  refine .skip (.literal _ rfl) (.skip (gap_passes e.blank_refuses)
    ((eachExpression_takes e context.blank_refuses).sequence ?_))
  rintro _ ⟨x, rfl, hx⟩
  refine .skip (asWord_passes context.blank_refuses)
    ((binding_takes context (identifierChar_refuses_index index key)).sequence
      ?_)
  rintro _ ⟨b, rfl, hb⟩
  refine (index_takes index key).sequence ?_
  rintro _ rfl
  refine .last ((key_takes key).imp ?_) brace_passes
  rintro _ ⟨k, rfl, hk⟩ tag htag
  exact ⟨_, eachOpeningPiece_eq tag x b _ k, tag, x, b, k, rfl,
    htag, hx, hb, hk⟩

/-! ## The tags of await blocks -/

theorem identifierChar_refuses_value (value : Option Identifier) :
    Refuses t identifierChar names (valueText value ++ '}' :: v) := by
  cases value <;> exact .one rfl

theorem shortOpeningPiece_eq (tag x : Span) (b : Option Binding) :
    shortOpeningPiece tag (.expression .awaitExpression x ::
      .unrecorded .thenKeyword :: b.toList.map .binding) =
      some (.shortOpening tag x b) := by
  cases b <;> rfl

theorem thenKeyword_takes :
    Takes t (.rule .thenKeyword) names ("then".toList ++ v) names v
      (· = [.unrecorded .thenKeyword]) :=
  .rule rfl rfl ((Takes.literal _ rfl).imp fun _ _ _ _ => ⟨_, rfl, rfl⟩)

theorem awaitShortOpen_takes (e : Identifier) (value : Option Identifier) :
    Takes t (.rule .awaitShortOpen) names (shortTagText e value ++ v)
      names v fun ps =>
      ∃ tag x b, ps = [.shortOpening tag x b] ∧
        t.slice? tag = some (shortTagText e value) ∧
        t.slice? x = some e.text ∧ ValueDepicted t value b := by
  have htext : shortTagText e value ++ v =
      "\x7b#await".toList ++ ' ' ::
      (e.text ++ ' ' :: ("then".toList ++ (valueText value ++ '}' :: v))) := by
    unfold shortTagText
    simp only [List.append_assoc, List.cons_append, List.nil_append]
  have hgap : Passes t gap names
      (' ' :: ("then".toList ++ (valueText value ++ '}' :: v))) names
      ("then".toList ++ (valueText value ++ '}' :: v)) := gap_passes (.one rfl)
  have hword := Takes.skip hgap (.skip (.literal _ rfl)
    (.notAhead (identifierChar_refuses_value value)))
  refine .rule rfl rfl ?_
  rw [htext]
  refine .skip (.literal _ rfl)
    (.skip (gap_passes e.blank_refuses)
      ((awaitExpression_takes e (.first (.ahead hword))).sequence ?_))
  rintro _ ⟨x, rfl, hx⟩
  refine .skip hgap (thenKeyword_takes.sequence ?_)
  rintro _ rfl
  refine .last ((value_takes value).imp ?_) brace_passes
  rintro _ ⟨b, rfl, hb⟩ tag htag
  exact ⟨_, shortOpeningPiece_eq tag x b, tag, x, b, rfl, htag, hx, hb⟩

/-- The short form is not the tag of the long form: after the expression there
is no white space. -/
theorem awaitShortOpen_refuses (e : Identifier) :
    Refuses t (.rule .awaitShortOpen) names (awaitTagText e ++ v) := by
  have htext : awaitTagText e ++ v = "\x7b#await".toList ++
      ' ' :: (e.text ++ '}' :: v) :=
    expressionTagText_append _ e v
  refine .rule ?_
  rw [htext]
  have hstop : Refuses t gap names ('}' :: v) := .first (.one rfl)
  exact .next (.literal _ rfl)
    (.next (gap_passes e.blank_refuses)
      (.next (awaitExpression_takes e
          (.next (.notAhead (.first hstop)) (balanced_refuses (.inl rfl))))
        (.first hstop)))

end TemplateJsx.Markup
