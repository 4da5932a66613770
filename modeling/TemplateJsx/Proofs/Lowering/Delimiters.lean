import TemplateJsx.Lowering.Delimiter
import TemplateJsx.Proofs.Markup.Layout

/-!
# Delimiters are found

What the tags of a tree say about its text is what the search for delimiters
asks for.  So in a text that is not too long to count its bytes, every delimiter
of a tagged block is found, and found where it stands.

The search for a closing tag asks for less than a closing tag.  It looks at the
first brace after the keyword and at the last one of the block, and these need
not be the same: `terminator_accepts_iff` says what is let through.
-/

namespace TemplateJsx

theorem isWordChar_of_isBlank {c : Char} (h : isBlank c = true) :
    isWordChar c = false := by
  obtain ⟨n, hn, rfl⟩ := exists_blankCode h
  exact (show ∀ n ∈ blankCodes, isWordChar (Char.ofNat n) =
    false by decide +kernel) n hn

theorem startsIdentifier_of_isBlank {c : Char} (h : isBlank c = true) :
    Markup.startsIdentifier c = false := by
  obtain ⟨n, hn, rfl⟩ := exists_blankCode h
  exact (show ∀ n ∈ blankCodes, Markup.startsIdentifier (Char.ofNat n) =
    false by decide +kernel) n hn

/-- A word is found where it stands, if offsets reach that far. -/
theorem expectAt_eq_ok_iff {t w : Text} {s e : Nat} :
    expectAt t s w = .ok e ↔ t.Stands s w e ∧ e < offsetBound := by
  simp only [expectAt]
  constructor
  · intro h
    split at h
    · cases h
    · rename_i hbound
      split at h
      · rename_i hslice
        cases h
        exact ⟨Text.slice?_eq_some.1 hslice, by omega⟩
      · cases h
  · rintro ⟨hstands, hbound⟩
    have he := hstands.stop_eq
    simp only [← he, Text.slice?_eq_some.2 hstands, if_true]
    rw [if_neg (by omega)]

section Checks

variable {t : Text} (hbound : t.byteLength < offsetBound)
include hbound

theorem expectAt_eq_ok {s e : Nat} {w : Text} (h : t.Stands s w e) :
    expectAt t s w = .ok e :=
  expectAt_eq_ok_iff.2 ⟨h, Nat.lt_of_le_of_lt h.stop_le hbound⟩

/-- A tag that ends in a brace is closed by it. -/
theorem closingBrace_eq_ok {tag : Span} {s : Nat} {w : Text}
    (hs : tag.start ≤ s) (h : t.Stands s (w ++ ['}']) tag.stop) :
    closingBrace t tag = .ok (tag.stop - 1) := by
  obtain ⟨-, hbrace⟩ := h.split
  have hstop := hbrace.stop_eq
  have hsize : Text.byteLength ['}'] = 1 := by decide
  rw [hsize] at hstop
  have hempty : tag.isEmpty = false := by
    simp only [Span.isEmpty, beq_eq_false_iff_ne]
    omega
  have hback : tag.stop - 1 = s + w.byteLength := by omega
  rw [← hback] at hbrace
  simp only [closingBrace, hempty, Bool.false_eq_true, if_false,
    expectAt_eq_ok hbound hbrace]
  rw [if_neg (by omega)]
  rfl

end Checks

namespace Text

theorem lastOffset?_eq_none {c : Char} {w : Text} :
    lastOffset? c w = none ↔ c ∉ w := by
  induction w with
  | nil => simp [lastOffset?]
  | cons x w ih =>
      unfold lastOffset?
      cases hrest : lastOffset? c w with
      | none =>
          have hw := ih.1 hrest
          by_cases hx : x = c
          · simp [hx]
          · simp [hx, Ne.symm hx, hw]
      | some n =>
          have hw : c ∈ w := by simpa [hrest] using ih
          simp [hw]

theorem lastOffset?_append {c : Char} {u v : Text} (h : c ∉ v) :
    lastOffset? c (u ++ c :: v) = some u.byteLength := by
  induction u with
  | nil => simp [lastOffset?, lastOffset?_eq_none.2 h]
  | cons x u ih => simp [lastOffset?, ih]

/-- Where a character occurs last, it occurs, and what follows does not have
it. -/
theorem lastOffset?_eq_some {c : Char} {w : Text} {n : Nat}
    (h : lastOffset? c w = some n) :
    ∃ u v, w = u ++ c :: v ∧ c ∉ v ∧ n = u.byteLength := by
  induction w generalizing n with
  | nil => cases h
  | cons x w ih =>
      unfold lastOffset? at h
      cases hrest : lastOffset? c w with
      | some k =>
          obtain ⟨u, v, rfl, hv, rfl⟩ := ih hrest
          rw [hrest] at h
          cases h
          exact ⟨x :: u, v, rfl, hv, rfl⟩
      | none =>
          rw [hrest] at h
          by_cases hx : x = c
          · rw [if_pos hx] at h
            cases h
            exact ⟨[], w, congrArg (· :: w) hx,
              lastOffset?_eq_none.1 hrest, rfl⟩
          · rw [if_neg hx] at h
            cases h

theorem occurrences_append {x : Char} {u : Text} (w v : Text) (h : x ∉ u)
    (offset : Nat) :
    ∃ rest, occurrences (x :: w) 0 offset (u ++ x :: (w ++ v)) =
      (offset + u.byteLength) :: rest := by
  induction u generalizing offset with
  | nil =>
      have hprefix : (x :: w).isPrefixOf (x :: (w ++ v)) = true := by simp
      simp only [List.nil_append, occurrences, hprefix, if_true, byteLength_nil,
        Nat.add_zero]
      exact ⟨_, rfl⟩
  | cons c u ih =>
      simp only [List.mem_cons, not_or] at h
      obtain ⟨rest, hrest⟩ := ih h.2 (offset + c.utf8Size)
      have hprefix : (x :: w).isPrefixOf
          (c :: (u ++ x :: (w ++ v))) = false := by
        simp only [List.isPrefixOf, Bool.and_eq_false_iff, beq_eq_false_iff_ne]
        exact Or.inl h.1
      refine ⟨rest, ?_⟩
      simp only [List.cons_append, occurrences, hprefix, Bool.false_eq_true,
        if_false, byteLength_cons, hrest, Nat.add_assoc]

end Text

section Searches

variable {t : Text}

theorem standsAlone_append (before word after : Text) :
    standsAlone (before ++ (word ++ after)) before.byteLength
      (before.byteLength + word.byteLength) =
      .ok (!(before.getLast?.any isWordChar) &&
        !(after.head?.any isWordChar)) := by
  have hstart : Text.splitAt? (before ++ (word ++ after)) before.byteLength =
      some (before, word ++ after) :=
    Text.splitAt?_append _ _
  have hstop : Text.splitAt? (before ++ (word ++ after))
      (before.byteLength + word.byteLength) =
      some (before ++ word, after) := by
    rw [← List.append_assoc, ← Text.byteLength_append]
    exact Text.splitAt?_append _ _
  simp only [standsAlone, hstart, hstop]

/-- A word stands alone between characters that do not continue an
identifier. -/
theorem standsAlone_eq_true {s m e k : Nat} {u w v : Text} (hu : t.Stands s u m)
    (hw : t.Stands m w e) (hv : t.Stands e v k)
    (hbefore : ∃ c ∈ u.getLast?, isWordChar c = false)
    (hafter : ∃ c ∈ v.head?, isWordChar c = false) :
    standsAlone t m e = .ok true := by
  obtain ⟨b, hb, hbword⟩ := hbefore
  obtain ⟨a, ha, haword⟩ := hafter
  have hstart := hu.stop_eq
  have hstop := hw.stop_eq
  obtain ⟨before, after, rfl, rfl, -⟩ := (hu.append hw).append hv
  have hlast : (before ++ u).getLast? = some b := by
    simp [List.getLast?_append, Option.mem_def.1 hb]
  have hfirst : (v ++ after).head? = some a := by
    simp [List.head?_append, Option.mem_def.1 ha]
  have halone := standsAlone_append (before ++ u) w (v ++ after)
  rw [hlast, hfirst, Text.byteLength_append, ← hstart, ← hstop] at halone
  simpa [hbword, haword] using halone

/-- A word is found at its first occurrence, if it stands alone there.  This is
enough for a well-formed tag, where nothing in front of the word has its first
character. -/
theorem findWord_eq_ok {s m e k : Nat} {x : Char} {u w v : Text}
    (hu : t.Stands s u m) (hw : t.Stands m (x :: w) e) (hv : t.Stands e v k)
    (hx : x ∉ u) (hbefore : ∃ c ∈ u.getLast?, isWordChar c = false)
    (hafter : ∃ c ∈ v.head?, isWordChar c = false) :
    findWord t s k (x :: w) = .ok m := by
  have hall := hu.append (hw.append hv)
  have hmin : min s k = s := Nat.min_eq_left hall.le
  have hslice := Text.slice?_eq_some.2 hall
  obtain ⟨rest, hrest⟩ := Text.occurrences_append w v hx s
  have hm : s + u.byteLength = m := hu.stop_eq.symm
  have hstop : m + Text.byteLength (x :: w) = e := hw.stop_eq.symm
  have halone := standsAlone_eq_true hu hw hv hbefore hafter
  rw [hm] at hrest
  simp only [findWord, hmin, hslice, Option.getD_some, List.cons_append, hrest,
    firstAlone?, hstop, halone]
  rfl

end Searches

/-! ## Closing tags -/

/-- What the search for a closing tag lets stand between the tag and the end of
the block: nothing, or text that opens no brace and ends in one that closes. -/
def Trailing (rest : Text) : Prop :=
  rest = [] ∨ '{' ∉ rest ∧ rest.getLast? = some '}'

namespace Trailing

variable {rest : Text}

theorem not_mem (h : Trailing rest) : '{' ∉ rest := by
  rcases h with rfl | ⟨hopen, -⟩
  · simp
  · exact hopen

theorem getLast? (h : Trailing rest) : ('}' :: rest).getLast? = some '}' := by
  rcases h with rfl | ⟨-, hlast⟩
  · rfl
  · rw [List.getLast?_cons, hlast]
    rfl

theorem of_getLast? (hopen : '{' ∉ rest)
    (hlast : ('}' :: rest).getLast? = some '}') : Trailing rest := by
  cases rest with
  | nil => exact Or.inl rfl
  | cons c rest => exact Or.inr ⟨hopen, by simpa using hlast⟩

end Trailing

namespace Markup.ClosingTag

variable {t keyword : Text} {s e stop : Nat}

/-- A closing tag and what trails it, from the tag to the end of the block. -/
theorem stands_trailing (h : ClosingTag t keyword s e) {rest : Text}
    (hrest : t.Stands e rest stop) :
    ∃ w, Text.Blank w ∧ t.Stands s
      (('{' :: '/' :: keyword) ++ (w ++ '}' :: rest)) stop := by
  obtain ⟨w, hw, hstands⟩ := h
  exact ⟨w, hw, by simpa using hstands.append hrest⟩

theorem stop_unique (h : ClosingTag t keyword s e)
    (h' : ClosingTag t keyword s stop) (hle : e ≤ stop) : e = stop := by
  obtain ⟨rest, hrest⟩ : ∃ rest, t.Stands e rest stop := by
    obtain ⟨w, -, hstands⟩ := h
    obtain ⟨w', -, hstands'⟩ := h'
    exact hstands.right.between hstands'.right hle
  obtain ⟨w, hw, hstands⟩ := h.stands_trailing hrest
  obtain ⟨w', hw', hstands'⟩ := h'
  have hsame : w ++ '}' :: rest = w' ++ ['}'] :=
    List.append_cancel_left (hstands.unique hstands')
  have hbrace : isBlank '}' = false := by decide
  -- White space runs up to the first brace in either reading.
  have hlead :=
    Text.takeWhile_blank_append (r := '}' :: rest) hw (by simp [hbrace])
  have hlead' := Text.takeWhile_blank_append (r := ['}']) hw' (by simp [hbrace])
  obtain rfl : w = w' := by rw [← hlead, ← hlead', hsame]
  have hnil : rest = [] := by simpa using hsame
  exact (hnil ▸ hrest).eq_of_nil.symm

end Markup.ClosingTag

theorem terminator_of_closingTag {t u keyword rest : Text} {block : Span}
    {s e : Nat} (hkeyword : '{' ∉ keyword)
    (hbound : s + Text.byteLength ('{' :: '/' :: keyword) < offsetBound)
    (hu : t.Stands block.start u s) (hcloses : Markup.ClosingTag t keyword s e)
    (hrest : t.Stands e rest block.stop) (htrailing : Trailing rest) :
    terminator t block keyword = .ok s := by
  obtain ⟨w, hw, hclosing⟩ := hcloses.stands_trailing hrest
  have hbody := Text.slice?_eq_some.2 (hu.append hclosing)
  have hbrace : '{' ∉ '/' :: keyword ++ (w ++ '}' :: rest) := by
    intro hmem
    simp only [List.cons_append, List.mem_cons, List.mem_append] at hmem
    rcases hmem with h | h | h | h | h
    · exact absurd h (by decide)
    · exact hkeyword h
    · exact absurd (hw _ h) (by decide)
    · exact absurd h (by decide)
    · exact htrailing.not_mem h
  have hlast : Text.lastOffset? '{'
      (u ++ ('{' :: '/' :: keyword ++ (w ++ '}' :: rest))) =
      some u.byteLength :=
    Text.lastOffset?_append hbrace
  obtain ⟨hword, htail⟩ := hclosing.split
  have hstart : block.start + u.byteLength = s := hu.stop_eq.symm
  have hexpect := expectAt_eq_ok_iff.2 ⟨hword, hbound⟩
  have hslice := Text.slice?_eq_some.2 htail
  have htrim : (Text.trimLeft (w ++ '}' :: rest)).head? = some '}' := by
    rw [Text.trimLeft, List.dropWhile_append_of_pos hw]
    rfl
  have hends : (u ++ ('{' :: '/' :: keyword ++ (w ++ '}' :: rest))).getLast? =
      some '}' := by
    rw [show u ++ ('{' :: '/' :: keyword ++ (w ++ '}' :: rest)) =
      (u ++ ('{' :: '/' :: keyword ++ w)) ++ '}' :: rest by
      simp, List.getLast?_append, htrailing.getLast?]
    rfl
  simp only [terminator, hbody, Option.getD_some, hlast, hstart, hexpect]
  simp only [bind, Except.bind, hslice, htrim, hends, and_self, if_true]

/-- The closing tag of a block is found at its start, in a text that is short
enough for offsets to have room. -/
theorem terminator_eq_ok {t u keyword : Text}
    (hbound : t.byteLength < offsetBound) {block : Span} {e : Nat}
    (hkeyword : '{' ∉ keyword) (hu : t.Stands block.start u e)
    (hcloses : Markup.ClosingTag t keyword e block.stop) :
    terminator t block keyword = .ok e := by
  have ⟨w, _, hclosing⟩ := hcloses
  have hword := hclosing.split.1.stop_le
  exact terminator_of_closingTag hkeyword (Nat.lt_of_le_of_lt hword hbound) hu
    hcloses hclosing.right (Or.inl rfl)

/-- What the search looks at: from the last opening brace of the block on the
text reads as the closing tag does, the first character after it that is no
white space is a closing brace, and so is the last one of the block. -/
theorem terminator_inversion {t body keyword : Text} {block : Span}
    (hbody : t.Stands block.start body block.stop) {s : Nat}
    (h : terminator t block keyword = .ok s) :
    ∃ u v e tail, body = u ++ '{' :: v ∧ '{' ∉ v ∧ t.Stands block.start u s ∧
      e < offsetBound ∧
      t.Stands s ('{' :: '/' :: keyword) e ∧ t.Stands e tail block.stop ∧
      tail.trimLeft.head? = some '}' ∧ body.getLast? = some '}' := by
  simp only [terminator, Text.slice?_eq_some.2 hbody, Option.getD_some] at h
  cases hlast : body.lastOffset? '{' with
  | none => simp [hlast] at h
  | some before =>
      obtain ⟨u, v, rfl, hv, rfl⟩ := Text.lastOffset?_eq_some hlast
      simp only [hlast] at h
      cases hexpect : expectAt t (block.start + u.byteLength)
        ('{' :: '/' :: keyword) with
      | error fault => simp [hexpect, bind, Except.bind] at h
      | ok e =>
          obtain ⟨hword, hbound⟩ := expectAt_eq_ok_iff.1 hexpect
          simp only [hexpect, bind, Except.bind] at h
          cases hslice : t.slice? ⟨e, block.stop⟩ with
          | none => simp [hslice] at h
          | some tail =>
              simp only [hslice] at h
              split at h
              · rename_i hends
                cases h
                exact ⟨u, v, e, tail, rfl, hv, hbody.split.1, hbound, hword,
                  Text.slice?_eq_some.1 hslice, hends⟩
              · cases h

/-- What the search finds is a closing tag, and what trails it opens no brace
and ends as the block does. -/
theorem closingTag_of_terminator {t body keyword : Text} {block : Span}
    (hbody : t.Stands block.start body block.stop) {s : Nat}
    (h : terminator t block keyword = .ok s) :
    block.start ≤ s ∧ '{' ∉ keyword ∧
      s + Text.byteLength ('{' :: '/' :: keyword) < offsetBound ∧
      ∃ e rest, Markup.ClosingTag t keyword s e ∧ t.Stands e rest block.stop ∧
      Trailing rest := by
  obtain ⟨u, v, m, tail, rfl, hv, hu, hbound, hword, htail, htrim, hlast⟩ :=
    terminator_inversion hbody h
  obtain ⟨w, rest, rfl, hw⟩ := Text.exists_blank_of_trimLeft htrim
  -- The word and what follows it are what the block has from its last opening
  -- brace on.
  have hbrace : t.Stands s ('{' :: v) block.stop := by
    have hsplit := hbody.split.2
    rwa [← hu.stop_eq] at hsplit
  obtain rfl : v = '/' :: keyword ++ (w ++ '}' :: rest) := by
    have hsame : '{' :: v = '{' :: '/' :: keyword ++ (w ++ '}' :: rest) :=
      hbrace.unique (hword.append htail)
    simpa using hsame
  simp only [List.cons_append, List.mem_cons, List.mem_append, not_or] at hv
  obtain ⟨-, hkeyword, -, -, hrest⟩ := hv
  have htrailing : Trailing rest := by
    refine Trailing.of_getLast? hrest ?_
    simpa [List.getLast?_append, List.getLast?_cons] using hlast
  have hclosing : t.Stands s (('{' :: '/' :: keyword) ++ (w ++ ['}']) ++ rest)
      block.stop := by
    simpa using hword.append htail
  obtain ⟨htag, hafter⟩ := hclosing.split
  rw [hword.stop_eq] at hbound
  exact ⟨hu.le, hkeyword, hbound, _, rest, ⟨w, hw, htag⟩, hafter, htrailing⟩

/-- **The search for a closing tag finds a closing tag after which no brace
opens in the block, and that may be followed by other text as long as the block
ends in a closing brace.**  What it finds goes up to the end of the block
exactly when nothing follows. -/
theorem terminator_accepts_iff {t keyword : Text} {block : Span}
    (hblock : t.Cuts block) {s : Nat} :
    terminator t block keyword = .ok s ↔
      block.start ≤ s ∧ '{' ∉ keyword ∧
      s + Text.byteLength ('{' :: '/' :: keyword) < offsetBound ∧
        ∃ e rest, Markup.ClosingTag t keyword s e ∧ t.Stands e rest block.stop ∧
        Trailing rest ∧
          (Markup.ClosingTag t keyword s block.stop ↔ rest = []) := by
  constructor
  · intro h
    obtain ⟨body, hbody⟩ := hblock.stands
    obtain ⟨hstart, hkeyword, hbound, e, rest, htag, hrest, htrailing⟩ :=
      closingTag_of_terminator hbody h
    refine ⟨hstart, hkeyword, hbound, e, rest, htag, hrest, htrailing, ?_⟩
    constructor
    · intro hwhole
      have hstop := htag.stop_unique hwhole hrest.le
      exact Text.Stands.eq_nil (hstop ▸ hrest)
    · intro hnil
      have hstop := (hnil ▸ hrest).eq_of_nil
      rwa [hstop]
  · rintro ⟨hstart, hkeyword, hbound, e, rest, htag, hrest, htrailing, -⟩
    have ⟨w, _, hstands⟩ := htag
    obtain ⟨u, hu⟩ :=
      (Text.isBoundary_iff.1 hblock.2.1).between hstands.left hstart
    exact terminator_of_closingTag hkeyword hbound hu htag hrest htrailing

def twiceClosed : Text := "\x7b#if a\x7dx\x7b/if\x7d\x7d".toList

/-- A second brace after the closing tag goes unnoticed. -/
theorem terminator_accepts_iff_second_brace :
    terminator twiceClosed ⟨0, 14⟩ "if".toList = .ok 8 ∧
      ∃ e rest, Markup.ClosingTag twiceClosed "if".toList 8 e ∧
      twiceClosed.Stands e rest 14 ∧ Trailing rest := by
  have hfound : terminator twiceClosed ⟨0, 14⟩ "if".toList = .ok 8 := rfl
  obtain ⟨-, -, -, e, rest, htag, hrest, htrailing, -⟩ :=
    (terminator_accepts_iff (by decide)).1 hfound
  exact ⟨hfound, e, rest, htag, hrest, htrailing⟩

/-- What the search finds need not be the closing tag alone. -/
theorem terminator_second_brace :
    ¬∀ (t : Text) (block : Span) (keyword : Text) (s : Nat), t.Cuts block →
      terminator t block keyword = .ok s →
      block.start ≤ s ∧ Markup.ClosingTag t keyword s block.stop := by
  intro h
  have htag := (h twiceClosed ⟨0, 14⟩ "if".toList 8 (by decide) rfl).2
  have hfirst : Markup.ClosingTag twiceClosed "if".toList 8 13 :=
    ⟨[], Text.blank_nil, Text.slice?_eq_some.1 (by decide)⟩
  exact absurd (hfirst.stop_unique htag (by decide)) (by decide)

end TemplateJsx
