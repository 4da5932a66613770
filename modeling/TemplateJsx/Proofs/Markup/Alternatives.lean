import TemplateJsx.Proofs.Markup.Words

/-!
# Which kind of node begins

A node is the first of its kinds that matches, so a kind is taken only where
those before it are refused.  Most are refused by the first characters of what
is left.  Names need an argument: a kind that asks for certain names is refused
before any other name, even one that begins with such a name, since the grammar
then sees that the name goes on.

Where a body ends, no kind of node begins (`node_refuses`).
-/

namespace TemplateJsx.Markup

open Peg (Cursor Recogniser Match)
open Peg.Pattern

variable {t : Text} {p q : Pat} {names names' : List Text} {u v w : Text}
  {c : Char} {post : List Piece → Prop}

/-! ## Ordered choice -/

/-- The pattern of a list that comes after refused ones.  A choice is ordered,
so to say what is taken is also to say what was refused before it. -/
theorem Takes.firstOf {before : List Pat} (after : List Pat)
    (hbefore : ∀ q ∈ before, Refuses t q names u)
    (h : Takes t p names u names' v post) :
    Takes t (firstOf (before ++ p :: after)) names u names' v post := by
  induction before with
  | nil =>
      cases after with
      | nil => exact h
      | cons q after => exact .left h
  | cons q before ih =>
      have hrest := ih fun q' hq' => hbefore q' (List.mem_cons_of_mem q hq')
      cases before with
      | nil => exact .right (hbefore q List.mem_cons_self) hrest
      | cons q' before => exact .right (hbefore q List.mem_cons_self) hrest

theorem Refuses.firstOf (ps : List Pat) (h : ∀ q ∈ ps, Refuses t q names u) :
    Refuses t (firstOf ps) names u := by
  induction ps with
  | nil => exact fun _ _ => rfl
  | cons p ps ih =>
      have hrest := ih fun q hq => h q (List.mem_cons_of_mem p hq)
      cases ps with
      | nil => exact h p List.mem_cons_self
      | cons q ps => exact .choice (h p List.mem_cons_self) hrest

theorem recognise_firstOf {call : Rule → Recogniser Rule} {ps : List Pat}
    {d : Cursor} {m : Match Rule} (h : (firstOf ps).recognise call d = some m) :
    ∃ q ∈ ps, q.recognise call d = some m := by
  induction ps with
  | nil => cases h
  | cons p ps ih =>
      cases ps with
      | nil => exact ⟨p, List.mem_cons_self, h⟩
      | cons q ps =>
          rcases Option.or_eq_some_iff.1 h with hfirst | ⟨-, hother⟩
          · exact ⟨p, List.mem_cons_self, hfirst⟩
          · obtain ⟨q', hq', hmatch⟩ := ih hother
            exact ⟨q', List.mem_cons_of_mem p hq', hmatch⟩

/-! ## Names and keywords -/

/-- A keyword in front of a name that is another one: the name goes on after the
keyword.  So `ifs` is not the keyword `if`, provided the grammar looks at what
follows. -/
theorem exists_cons_of_keyword {k r name rest : Text} {x : Char}
    (h : name ++ x :: rest = k ++ r) (hx : x ∉ k) (hne : name ≠ k) :
    ∃ c r', r = c :: r' ∧ c ∈ name := by
  rcases List.append_eq_append_iff.1 h with ⟨m, hk, hrest⟩ | ⟨m, hname, hr⟩
  · cases m with
    | nil => exact absurd (by simpa using hk.symm) hne
    | cons y m =>
        obtain rfl : x = y := by simpa using congrArg List.head? hrest
        exact absurd (by simp [hk]) hx
  · cases m with
    | nil => exact absurd (by simpa using hname) hne
    | cons y m => exact ⟨y, m ++ x :: rest, by simpa using hr, by simp [hname]⟩

/-- Keywords are refused where a character follows each of them that must
not. -/
theorem keywords_refuse (ps : List Pat) {next : Char → Bool}
    (h : ∀ q ∈ ps, ∀ s m, q.recognise recognised ⟨s, u, names⟩ = some m →
      ∃ c r, m.cursor.rest = c :: r ∧ next c = true) :
    Refuses t (.sequence (firstOf ps) (.unless (.one next))) names u := by
  intro s _
  cases hmatch : (firstOf ps).recognise recognised ⟨s, u, names⟩ with
  | none => simp [recognise, hmatch]
  | some m =>
      obtain ⟨q, hq, hq'⟩ := recognise_firstOf hmatch
      obtain ⟨c, r, hrest, hc⟩ := h q hq s m hq'
      simp [recognise, hmatch, Cursor.one?, hrest, hc]

theorem Refuses.after {word : Text}
    (h : ∀ r, u = word ++ r → Refuses t q names r) :
    Refuses t (.sequence (.literal word) q) names u := by
  cases hword : word.isPrefixOf u with
  | false => exact .first (.literal hword)
  | true =>
      obtain ⟨r, hr⟩ := List.isPrefixOf_iff_prefix.1 hword
      exact .next (.literal word hr.symm) (h r hr.symm)

namespace BlockName

variable (b : BlockName)

theorem alpha : ∀ c ∈ b.text, c.isAlpha = true := by
  have hvalid := b.valid
  simp only [isBlockName, Bool.and_eq_true, List.all_eq_true] at hvalid
  exact hvalid.1.2

theorem ne_nil : b.text ≠ [] := by
  have hvalid := b.valid
  simp only [isBlockName, Bool.and_eq_true] at hvalid
  simpa using hvalid.1.1

theorem ne_keyword {k : String} (hk : k ∈ blockKeywords) :
    b.text ≠ k.toList := by
  have hvalid := b.valid
  simp only [isBlockName, Bool.and_eq_true, Bool.not_eq_true'] at hvalid
  intro htext
  have hmem : b.text ∈ blockKeywords.map String.toList :=
    htext ▸ List.mem_map_of_mem hk
  simp [hmem] at hvalid

theorem exists_cons {k : String} {r : Text} (hk : k ∈ blockKeywords)
    (h : b.text ++ '}' :: v = k.toList ++ r) :
    ∃ c r', r = c :: r' ∧ c.isAlpha = true := by
  have hbrace : '}' ∉ k.toList :=
    (show ∀ k ∈ blockKeywords, '}' ∉ k.toList by decide) k hk
  obtain ⟨c, r', hr, hc⟩ := exists_cons_of_keyword h hbrace (b.ne_keyword hk)
  exact ⟨c, r', hr, b.alpha c hc⟩

/-- The name of another block is no keyword. -/
theorem keyword_refuses :
    Refuses t blockKeyword names (b.text ++ '}' :: v) := by
  refine keywords_refuse (blockKeywords.map lit) ?_
  intro q hq s m hm
  obtain ⟨k, hk, rfl⟩ := List.mem_map.1 hq
  obtain ⟨d, hd, rfl⟩ := Option.map_eq_some_iff.1 hm
  obtain ⟨hrest, -, -⟩ := Cursor.word?_beq_eq_some hd
  obtain ⟨c, r, hr, hc⟩ := b.exists_cons hk hrest
  exact ⟨c, r, hr, by simp [isAlphanum_of_isAlpha hc]⟩

/-- The tags of control-flow blocks have other names. -/
theorem tag_refuses {k : String} (hk : k ∈ blockKeywords) :
    Refuses t (.sequence (.literal ("\x7b#".toList ++ k.toList))
      (.sequence gap q)) names ("\x7b#".toList ++ (b.text ++ '}' :: v)) := by
  refine .after fun r hr => ?_
  rw [List.append_assoc] at hr
  obtain ⟨c, r', rfl, hc⟩ := b.exists_cons hk (List.append_cancel_left hr)
  exact .first (.first (blank_refuses_of_class hc (by decide)))

end BlockName

/-! ## Names of elements -/

theorem word?_sameLetter {k : Text} {d d' : Cursor}
    (h : Cursor.word? Cursor.sameLetter k d = some d') :
    ∃ k', d.rest = k' ++ d'.rest ∧ k'.map Char.toLower =
      k.map Char.toLower := by
  induction k generalizing d with
  | nil =>
      cases h
      exact ⟨[], rfl, rfl⟩
  | cons x k ih =>
      obtain ⟨m, hone, hword⟩ := Option.bind_eq_some_iff.1 h
      obtain ⟨y, hy, hrest, -, -⟩ := Cursor.one?_eq_some hone
      obtain ⟨k', hrest', hk'⟩ := ih hword
      refine ⟨y :: k', by simp [hrest, hrest'], ?_⟩
      simp [hk', show x.toLower =
        y.toLower by simpa [Cursor.sameLetter] using hy]

theorem isAlpha_of_isLower (h : c.isLower = true) : c.isAlpha = true := by
  change (c.isUpper || c.isLower) = true
  rw [h, Bool.or_true]

theorem not_isUpper_of_isLower (h : c.isLower = true) :
    ¬('A'.val ≤ c.val ∧ c.val ≤ 'Z'.val) := by
  change (decide ('a'.val ≤ c.val) && decide (c.val ≤ 'z'.val)) = true at h
  simp only [Bool.and_eq_true, decide_eq_true_eq, UInt32.le_iff_toNat_le] at h
  have ha : 'a'.val.toNat = 97 := rfl
  have hZ : 'Z'.val.toNat = 90 := rfl
  simp only [UInt32.le_iff_toNat_le]
  omega

theorem toLower_of_isLower (h : c.isLower = true) : c.toLower = c := by
  unfold Char.toLower
  exact dif_neg (not_isUpper_of_isLower h)

namespace ElementName

variable (n : ElementName)

theorem lower : ∀ c ∈ n.text, c.isLower = true := by
  have hvalid := n.valid
  simp only [isElementName, Bool.and_eq_true, List.all_eq_true] at hvalid
  exact hvalid.1.2

theorem ne_nil : n.text ≠ [] := by
  have hvalid := n.valid
  simp only [isElementName, Bool.and_eq_true] at hvalid
  simpa using hvalid.1.1

theorem ne_listed {k : String} (hk : k ∈ rawNames ++ voidNames) :
    n.text ≠ k.toList := by
  have hvalid := n.valid
  simp only [isElementName, Bool.and_eq_true, Bool.not_eq_true'] at hvalid
  intro htext
  have hmem : n.text ∈ (rawNames ++ voidNames).map String.toList :=
    htext ▸ List.mem_map_of_mem hk
  simp only [List.contains_eq_mem, hmem, decide_true] at hvalid
  cases hvalid.2

/-- No listed name, in whatever case, stands in front of the end of the tag
alone.  An element whose name only begins with a listed one is an ordinary
element. -/
theorem listed_refuses (ks : List String)
    (hks : ∀ k ∈ ks, k ∈ rawNames ++ voidNames) :
    Refuses t (.sequence (firstOf (ks.map anyCase)) (.unless nameChar)) names
      (n.text ++ '>' :: v) := by
  refine keywords_refuse _ ?_
  intro q hq s m hm
  obtain ⟨k, hk, rfl⟩ := List.mem_map.1 hq
  obtain ⟨d, hd, rfl⟩ := Option.map_eq_some_iff.1 hm
  obtain ⟨k', hrest, hk'⟩ := word?_sameLetter hd
  have hlower : k.toList.map Char.toLower = k.toList ∧ '>' ∉ k.toList :=
    (show ∀ k ∈ rawNames ++ voidNames, k.toList.map Char.toLower = k.toList ∧
      '>' ∉ k.toList by decide) k (hks k hk)
  rw [hlower.1] at hk'
  have hmark : '>' ∉ k' :=
    fun hmem => hlower.2 (hk' ▸ List.mem_map_of_mem (f := Char.toLower) hmem)
  have hne : n.text ≠ k' := by
    rintro htext
    have hsame : k'.map Char.toLower = k' := by
      rw [← htext, List.map_congr_left fun c hc =>
        toLower_of_isLower (n.lower c hc)]
      exact List.map_id' _
    exact n.ne_listed (hks k hk) (htext.trans (hsame.symm.trans hk'))
  obtain ⟨c, r, hr, hc⟩ := exists_cons_of_keyword hrest hmark hne
  exact ⟨c, r, hr,
    by simp [isAlphanum_of_isAlpha (isAlpha_of_isLower (n.lower c hc))]⟩

theorem rawName_refuses :
    Refuses t (.rule .rawName) names (n.text ++ '>' :: v) :=
  .rule (n.listed_refuses rawNames fun _ hk => List.mem_append_left _ hk)

theorem voidName_refuses :
    Refuses t (.rule .voidName) names (n.text ++ '>' :: v) := by
  refine .rule (.next (.notAhead (.first ?_))
    (n.listed_refuses voidNames fun _ hk => List.mem_append_right _ hk))
  obtain ⟨c, w, htext⟩ := List.exists_cons_of_ne_nil n.ne_nil
  rw [htext]
  exact .one
    (decide_eq_false (not_isUpper_of_isLower (n.lower c (by simp [htext]))))

end ElementName

/-! ## Kinds of nodes -/

def blockRules : List Rule := [.ifBlock, .eachBlock, .awaitBlock, .otherBlock]

def tagRules : List Rule := [.comment, .rawElement, .voidElement, .element]

/-- The kinds of nodes in the order in which they are tried.  Plain text comes
last and takes what nothing before it has taken. -/
def nodeRules : List Rule := blockRules ++ (tagRules ++ [.mustache, .text])

/-- A node of a kind is taken where the kinds before it are refused.  With this
the taking of a node splits in two: its own pattern, and a list of refusals. -/
theorem node_takes (before : List Rule) {after : List Rule} {r : Rule}
    (hrules : nodeRules = before ++ r :: after)
    (hbefore : ∀ r' ∈ before, Refuses t (.rule r') names u)
    (h : Takes t (.rule r) names u names' v post) :
    Takes t node names u names' v post := by
  have hnode : node = Peg.Pattern.firstOf
      (before.map .rule ++ .rule r :: after.map .rule) := by
    rw [← List.map_cons, ← List.map_append, ← hrules]
    rfl
  rw [hnode]
  exact .firstOf _ (by simpa using hbefore) h

theorem isPrefixOf_append_eq_false {a : Text} (b : Text)
    (h : a.isPrefixOf u = false) :
    (a ++ b).isPrefixOf u = false := by
  cases hab : (a ++ b).isPrefixOf u with
  | false => rfl
  | true =>
      have ha : a <+: u :=
        (List.prefix_append a b).trans (List.isPrefixOf_iff_prefix.1 hab)
      rw [List.isPrefixOf_iff_prefix.2 ha] at h
      cases h

theorem blockRules_refuse (h : "\x7b#".toList.isPrefixOf u = false) :
    ∀ r ∈ blockRules, Refuses t (.rule r) names u := by
  have hopen : ∀ (k : Text) {q : Pat},
      Refuses t (.sequence (.literal ("\x7b#".toList ++ k)) q) names u :=
    fun k _ => .first (.literal (isPrefixOf_append_eq_false k h))
  simp only [blockRules, List.forall_mem_cons, List.not_mem_nil, false_implies,
    implies_true, and_true]
  exact ⟨.rule (.first (.rule (hopen "if".toList))),
    .rule (.first (.rule (hopen "each".toList))),
    .rule (.choice (.first (.rule (hopen "await".toList)))
      (.first (.rule (hopen "await".toList)))), .rule (.first (.literal h))⟩

theorem tagRules_refuse (h : "<".toList.isPrefixOf u = false) :
    ∀ r ∈ tagRules, Refuses t (.rule r) names u := by
  simp only [tagRules, List.forall_mem_cons, List.not_mem_nil, false_implies,
    implies_true, and_true]
  have hcomment := isPrefixOf_append_eq_false "!--".toList h
  exact ⟨.rule (.first (.literal hcomment)), .rule (.first (.literal h)),
    .rule (.first (.literal h)), .rule (.first (.literal h))⟩

/-! ## Plain text -/

theorem textItem_refuses (h : stopsText v = true) :
    Refuses t (anythingBut textStops) names v := by
  intro s _
  simp [textItem_recognise, h]

theorem textItem_passes (hc : c ≠ '{' ∧ c ≠ '<') :
    Passes t (anythingBut textStops) names (c :: u) names u := by
  intro s hs
  refine ⟨s + c.utf8Size, [], [], ?_,
    by simpa using dropTo?_append (w := [c]) hs, rfl, rfl⟩
  simp [textItem_recognise, stopsText, hc, Cursor.one?, Match.plain]

namespace PlainText

variable (w : PlainText)

theorem exists_cons :
    ∃ c w', w.text = c :: w' ∧ ∀ d ∈ c :: w', d ≠ '{' ∧ d ≠ '<' := by
  have hvalid := w.valid
  simp only [isPlain, Bool.and_eq_true, List.all_eq_true, bne_iff_ne] at hvalid
  obtain ⟨c, w', htext⟩ :=
    List.exists_cons_of_ne_nil (by simpa using hvalid.1 : w.text ≠ [])
  exact ⟨c, w', htext, fun d hd => hvalid.2 d (htext ▸ hd)⟩

theorem isPrefixOf_eq_false {word : Text}
    (hword : word.head? = some '{' ∨ word.head? = some '<') :
    word.isPrefixOf (w.text ++ u) = false := by
  obtain ⟨c, w', htext, hplain⟩ := w.exists_cons
  obtain ⟨hbrace, hless⟩ := hplain c List.mem_cons_self
  cases word with
  | nil => simp at hword
  | cons d word =>
      simp only [List.head?_cons, Option.some.injEq] at hword
      rcases hword with rfl | rfl <;>
        simp [htext, List.isPrefixOf, hbrace.symm, hless.symm]

theorem takes (hv : stopsText v = true) :
    Takes t (.rule .text) names (w.text ++ v) names v fun ps =>
      ∃ x, ps = [.node (.other .text x [])] ∧ t.slice? x = some w.text := by
  refine .rule rfl rfl ?_
  obtain ⟨c, w', htext, hplain⟩ := w.exists_cons
  rw [htext]
  exact (Takes.chars1 rfl (fun d hd _ => textItem_passes (hplain d hd))
    (textItem_refuses hv)).imp fun _ _ x hx => ⟨_, rfl, x, rfl, hx⟩

end PlainText

/-! ## The end of a body -/

/-- Where a body ends: at the end of the text, an end tag, or a tag of the block
around it.  In front of such a place a repetition of nodes must stop by
itself. -/
inductive Halts : Text → Prop
  | nil : Halts []
  | endTag (v : Text) : Halts ('<' :: '/' :: v)
  | closing (v : Text) : Halts ('{' :: '/' :: v)
  | clause (v : Text) : Halts ('{' :: ':' :: v)

theorem Halts.stopsText (h : Halts v) : stopsText v = true := by
  cases h <;> simp [Markup.stopsText]

/-- **No node begins where a body ends.**  Every kind of node is refused there,
so the nodes of a body are just those that were written into it. -/
theorem node_refuses (h : Halts v) : Refuses t node names v := by
  have hblock : ∀ r ∈ blockRules, Refuses t (.rule r) names v :=
    blockRules_refuse (by cases h <;> rfl)
  have htag : ∀ r ∈ tagRules, Refuses t (.rule r) names v := by
    cases h with
    | endTag v =>
        -- The slash begins no name.
        simp only [tagRules, List.forall_mem_cons, List.not_mem_nil,
          false_implies, implies_true, and_true]
        exact ⟨.rule (.first (.literal rfl)),
          .rule (.next (.literal _ rfl)
            (.first (.push (.rule fun _ _ => rfl)))),
          .rule (.next (.literal _ rfl) (.first (.rule fun _ _ => rfl))),
          .rule (.next (.literal _ rfl)
            (.first (.push (.rule (.first (.one rfl))))))⟩
    | _ => exact tagRules_refuse rfl
  have hmustache : Refuses t (.rule .mustache) names v := by
    cases h with
    | nil => exact .rule (.first (.literal rfl))
    | endTag v => exact .rule (.first (.literal rfl))
    | closing v =>
        exact .rule (.next (.literal _ rfl) (.first (.ahead (.one rfl))))
    | clause v =>
        exact .rule (.next (.literal _ rfl) (.first (.ahead (.one rfl))))
  have htext : Refuses t (.rule .text) names v :=
    .rule (.first (textItem_refuses h.stopsText))
  refine .firstOf (nodeRules.map .rule) ?_
  simp only [nodeRules, List.map_append, List.forall_mem_append,
    List.forall_mem_map]
  exact ⟨hblock, htag, by simpa using ⟨hmustache, htext⟩⟩

end TemplateJsx.Markup
