import TemplateJsx.Proofs.Markup.Origins

/-!
# Opening and closing names

An element, a raw element and a block that is no control-flow block are closed
by the name that opened them.  The grammar remembers the name where it reads it,
keeps it while it matches what stands between the tags, and takes it back in the
closing tag.  `NamedTags` says so of the text: both tags carry one name, letter
by letter.

What stands between the tags of a raw element is not markup, and its end tag is
the first one of its name: no end tag of that name stands inside
(`rawText_free`).
-/

namespace TemplateJsx.Markup

open Peg (Capture Match Cursor Recogniser Derives)
open Peg.Pattern

variable {t : Text} {c : Cursor} {m : Match Rule} {name : Text}
  {names : List Text}

/-! ## Tags of one name -/

def MatchedFrom (t : Text) (p : Pat) (s e : Nat) : Prop :=
  ∃ (c : Cursor) (m : Match Rule), c.At t ∧ c.offset = s ∧
    Derives grammar p c (some m) ∧ m.cursor.offset = e

/-- A name, what a tag has after its name, and white space. -/
def NamedHead (t name : Text) (inside : Pat) (s e : Nat) : Prop :=
  ∃ a b w, t.Stands s name a ∧ MatchedFrom t inside a b ∧ Text.Blank w ∧
    t.Stands b w e

/-- A span that reads as a tag with a name, some content, and a tag that closes
the same name.  Both names are the same text; it is not enough that they are the
same name in some case. -/
structure NamedTags (t left right stop name : Text) (inside : Pat)
    (span content : Span) : Prop where
  opens : ∃ s e, t.Stands span.start left s ∧ NamedHead t name inside s e ∧
    t.Stands e stop content.start
  reads : ∃ w, t.Stands content.start w content.stop
  closes : ∃ w, Text.Blank w ∧
    t.Stands content.stop (right ++ (name ++ (w ++ stop))) span.stop

/-- What a block that is no control-flow block has after its name. -/
def blockHead : Pat := .optional (.sequence gap (.rule .expression))

/-- A node that is closed by name is closed by the name that it was opened with.
Raw text has no end tag of its name inside, and a block that is closed by name
is none of the control-flow blocks. -/
def Node.NamesAgree (t : Text) : Node → Prop
  | other (.element name) span children =>
    ∀ f ∈ children, children = [f] ∧
      NamedTags t "<".toList "</".toList ">".toList name attributes span f.span
  | other (.block name) span children =>
    name ∉ blockKeywords.map String.toList ∧ ∃ f, children = [f] ∧
      NamedTags t "\x7b#".toList "\x7b/".toList "\x7d".toList name
        blockHead span f.span
  | other (.rawText name) span children =>
    children = [] ∧ ∃ content raw,
      NamedTags t "<".toList "</".toList ">".toList name attributes
        span content ∧
      t.Stands content.start raw content.stop ∧ ¬ ("</".toList ++ name) <:+: raw
  | _ => True

/-! ## Names remembered and taken back -/

def rememberedRules : List Rule := [.rawName, .tagName, .blockName]

theorem pushed_name {r : Rule} (hr : r ∈ rememberedRules) (hc : c.At t)
    (h : (push (.rule r)).recognise recognised c = some m) :
    ∃ name, m.cursor.At t ∧ m.cursor.names = name :: c.names ∧
      t.Stands c.offset name m.cursor.offset ∧
      Piece.ofCaptures? t m.captures = some [.name r name] := by
  obtain ⟨inner, hinner, rfl⟩ := Option.map_eq_some_iff.1 h
  have hderives := (derives_iff_recognised rfl).2 hinner
  have hstands := (hderives.advances rfl).stands_between hc
  have hnames : inner.cursor.names = c.names := names_of_recognised rfl hinner
  obtain ⟨hcursor, ps, hps, hleaves⟩ := held_of_recognised hc hinner
  have hname : ∃ n, ps = [.name r n] ∧
      t.Stands c.offset n inner.cursor.offset := by
    simp only [rememberedRules, List.mem_cons, List.not_mem_nil, or_false] at hr
    rcases hr with rfl | rfl | rfl <;> exact hleaves.2
  obtain ⟨n, rfl, hn⟩ := hname
  rw [hn.unique hstands] at hps
  exact ⟨_, hcursor, by rw [← hnames], hstands, hps⟩

theorem popped_name (hc : c.At t) (hnames : c.names = name :: names)
    (h : pop.recognise recognised c = some m) :
    m.cursor.At t ∧ t.Stands c.offset name m.cursor.offset ∧
      Piece.ofCaptures? t m.captures = some [] := by
  simp only [recognise, hnames] at h
  obtain ⟨d, hd, rfl⟩ := Option.map_eq_some_iff.1 h
  obtain ⟨hrest, hoffset, -⟩ := Cursor.word?_beq_eq_some hd
  obtain ⟨hlands, hstands⟩ := hc.move hrest hoffset
  exact ⟨hlands, hstands, rfl⟩

/-- A closing tag carries the name that was remembered last, and takes it off.
What was matched in between has left the names as they were. -/
theorem closing_name {right stop : String} (hc : c.At t)
    (hnames : c.names = name :: names)
    (h : (closing right stop).Splits recognised c m) :
    (∃ w, Text.Blank w ∧ t.Stands c.offset
      (right.toList ++ (name ++ (w ++ stop.toList))) m.cursor.offset) ∧
      Piece.ofCaptures? t m.captures = some [] := by
  obtain ⟨m₁, _, hright, ⟨m₂, _, hpop, ⟨m₃, m₄, hblanks, hstop, rfl⟩, rfl⟩,
      rfl⟩ := h
  obtain ⟨hc₁, _, hps₁, hrightStands, rfl⟩ := held_of_recognised hc hright
  have hnames₁ : m₁.cursor.names = name :: names :=
    (names_of_recognised rfl hright).trans hnames
  obtain ⟨hc₂, hnameStands, hps₂⟩ := popped_name hc₁ hnames₁ hpop
  obtain ⟨hc₃, _, hps₃, hreads⟩ := held_of_recognised hc₂ hblanks
  obtain ⟨rfl, w, hw, hwStands⟩ := reads_blanks hreads
  obtain ⟨-, _, hps₄, hstopStands, rfl⟩ := held_of_recognised hc₃ hstop
  exact ⟨⟨w, hw, hrightStands.append
      (hnameStands.append (hwStands.append hstopStands))⟩,
    ofCaptures?_append hps₁ (ofCaptures?_append hps₂
      (ofCaptures?_append hps₃ hps₄))⟩

structure AfterHead (t name : Text) (inside : Pat) (as : List Piece)
    (c d : Cursor) : Prop where
  lands : d.At t
  names : d.names = name :: c.names
  head : NamedHead t name inside c.offset d.offset
  reads : ∃ a b w, t.Stands c.offset name a ∧ inside.Reads t (Rests t) a b as ∧
    Text.Blank w ∧ t.Stands b w d.offset

/-- The part of a tag from its name on, up to what comes after the white space
at its end. -/
theorem head_name {r : Rule} (hr : r ∈ rememberedRules) {inside rest : Pat}
    (hlevel : inside.height 0 = some 0)
    (htakes : inside.repeatsTake mayBeEmpty = true) (hc : c.At t)
    (h : (sequence (.push (.rule r))
      (.sequence inside (.sequence blanks rest))).Splits recognised c m) :
    ∃ name as d m', AfterHead t name inside as c d ∧
      rest.Splits recognised d m' ∧ m.cursor = m'.cursor ∧
      ∀ ps, Piece.ofCaptures? t m'.captures = some ps →
        Piece.ofCaptures? t m.captures = some (.name r name :: (as ++ ps)) := by
  obtain ⟨m₁, _, hname, ⟨m₂, _, hinside, ⟨m₃, m₄, hblanks, hrest, rfl⟩, rfl⟩,
      rfl⟩ := h
  obtain ⟨name, hc₁, hnames₁, hnameStands, hps₁⟩ := pushed_name hr hc hname
  obtain ⟨hc₂, as, hps₂, hreads₂⟩ := held_of_recognised hc₁ hinside
  have hnames₂ := names_of_recognised hlevel hinside
  obtain ⟨hc₃, _, hps₃, hreads₃⟩ := held_of_recognised hc₂ hblanks
  have hnames₃ := names_of_recognised rfl hblanks
  obtain ⟨rfl, w, hw, hwStands⟩ := reads_blanks hreads₃
  have hinside' : MatchedFrom t inside m₁.cursor.offset m₂.cursor.offset :=
    ⟨m₁.cursor, m₂, hc₁, rfl, (derives_iff_recognised htakes).2 hinside, rfl⟩
  refine ⟨name, as, m₃.cursor, m₄,
    ⟨hc₃, ?_, ?_, ⟨_, _, w, hnameStands, hreads₂, hw, hwStands⟩⟩,
    hrest, rfl, ?_⟩
  · rw [hnames₃, hnames₂, hnames₁]
  · exact ⟨_, _, w, hnameStands, hinside', hw, hwStands⟩
  · intro ps hps
    exact ofCaptures?_append hps₁
      (ofCaptures?_append hps₂ (ofCaptures?_append hps₃ hps))

/-- The end of the opening tag, the content and the closing tag.  In the content
further names are remembered and forgotten again. -/
theorem content_name {r : Rule} {right stop : String} (hc : c.At t)
    (hnames : c.names = name :: names)
    (h : (seq [lit stop, .rule r, closing right stop]).Splits recognised c m) :
    ∃ (d : Cursor) (inner : Match Rule) (ps : List Piece), d.At t ∧
      d.names = name :: names ∧
      t.Stands c.offset stop.toList d.offset ∧ recognised r d = some inner ∧
      Rests t r d.offset inner.cursor.offset ps ∧
      Piece.ofCaptures? t m.captures = some ps ∧
      ∃ w, Text.Blank w ∧
        t.Stands inner.cursor.offset
          (right.toList ++ (name ++ (w ++ stop.toList))) m.cursor.offset := by
  obtain ⟨m₁, _, hstop, ⟨m₂, m₃, hcontent, hclosing, rfl⟩, rfl⟩ := h
  obtain ⟨hc₁, _, hps₁, hstopStands, rfl⟩ := held_of_recognised hc hstop
  have hnames₁ : m₁.cursor.names = name :: names :=
    (names_of_recognised rfl hstop).trans hnames
  obtain ⟨hc₂, ps, hps₂, hrests⟩ := held_of_recognised hc₁ hcontent
  have hnames₂ : m₂.cursor.names = name :: names :=
    (names_of_recognised rfl hcontent).trans hnames₁
  obtain ⟨hcloses, hps₃⟩ := closing_name hc₂ hnames₂ hclosing
  have hps := ofCaptures?_append hps₁ (ofCaptures?_append hps₂ hps₃)
  rw [List.append_nil] at hps
  exact ⟨m₁.cursor, m₂, ps, hc₁, hnames₁, hstopStands, hcontent, hrests,
    hps, hcloses⟩

/-! ## Raw text -/

/-- One character of raw text, before which no end tag of the remembered name
begins. -/
def rawItem : Pat := anythingBut [.sequence (lit "</") .peek]

theorem rawItem_taken {call : Rule → Recogniser Rule}
    (hnames : c.names = name :: names) (h : rawItem.recognise call c = some m) :
    (∃ x, c.rest = x :: m.cursor.rest ∧ m.cursor.offset =
      c.offset + x.utf8Size) ∧ m.cursor.names = c.names ∧
      ¬ ("</".toList ++ name) <+: c.rest := by
  obtain ⟨m₁, m₂, hno, hone, rfl⟩ := (splits_iff _).2 h
  simp only [recognise] at hno
  split at hno
  · cases hno
  · next hstop =>
      cases hno
      obtain ⟨d, hd, rfl⟩ := Option.map_eq_some_iff.1 hone
      obtain ⟨x, -, hrest, hoffset, hkept⟩ := Cursor.one?_eq_some hd
      have hsize : Text.byteLength [x] = x.utf8Size := by simp
      rw [hsize] at hoffset
      refine ⟨⟨x, hrest, hoffset⟩, hkept, ?_⟩
      rintro ⟨v, hv⟩
      apply hstop
      obtain ⟨offset, rest, remembered⟩ := c
      obtain rfl : remembered = name :: names := hnames
      obtain rfl : rest = "</".toList ++ (name ++ v) := by simpa using hv.symm
      simp only [firstOf, lit, recognise, word?_append, Option.map_some,
        Option.bind_some, Match.plain, Option.isSome_some]

theorem rawItem_repeat (call : Rule → Recogniser Rule) (k : Nat)
    (hnames : c.names = name :: names) :
    ∃ raw, c.rest = raw ++ (Recogniser.repeat (rawItem.recognise call) k
      c).cursor.rest ∧
      (Recogniser.repeat (rawItem.recognise call) k c).cursor.offset =
        c.offset + Text.byteLength raw ∧
      ∀ v, v ≠ [] → v <:+ raw →
        ¬ ("</".toList ++ name) <+: v ++
          (Recogniser.repeat (rawItem.recognise call) k c).cursor.rest := by
  induction k generalizing c with
  | zero =>
      exact ⟨[], rfl, rfl, fun v hv hsuffix =>
        absurd (List.suffix_nil.1 hsuffix) hv⟩
  | succ k ih =>
      cases hitem : rawItem.recognise call c with
      | none =>
          simp only [Recogniser.repeat, hitem]
          exact ⟨[], rfl, rfl, fun v hv hsuffix =>
            absurd (List.suffix_nil.1 hsuffix) hv⟩
      | some m =>
          obtain ⟨⟨x, hrest, hoffset⟩, hkept, hfree⟩ :=
            rawItem_taken hnames hitem
          obtain ⟨raw, hraw, hoffset', hfrees⟩ := ih (hkept.trans hnames)
          simp only [Recogniser.repeat, hitem]
          refine ⟨x :: raw, by rw [hrest, hraw, List.cons_append], ?_, ?_⟩
          · rw [hoffset', hoffset, Text.byteLength_cons, Nat.add_assoc]
          · intro v hv hsuffix
            rcases List.suffix_cons_iff.1 hsuffix with rfl | hsuffix
            · rw [List.cons_append, ← hraw, ← hrest]
              exact hfree
            · exact hfrees v hv hsuffix

/-- **No end tag of its own name stands inside raw text.**  The text of a script
ends at the first end tag of its name, whatever it may contain besides. -/
theorem rawText_free (hc : c.At t) (hnames : c.names = name :: names)
    (h : recognised .rawText c = some m) :
    ∃ raw, t.Stands c.offset raw m.cursor.offset ∧
      ¬ ("</".toList ++ name) <:+: raw := by
  rw [recognised_eq] at h
  obtain ⟨inner, hinner, rfl⟩ := Option.map_eq_some_iff.1 h
  have hrepeat :
      some (Recogniser.repeat (rawItem.recognise recognised) (c.rest.length + 1)
        c) = some inner := hinner
  obtain ⟨raw, hrest, hoffset, hfree⟩ :=
    rawItem_repeat recognised (c.rest.length + 1) hnames
  rw [Option.some.inj hrepeat] at hrest hoffset hfree
  refine ⟨raw, (hc.move hrest hoffset).2, ?_⟩
  rintro ⟨u, v, huv⟩
  apply hfree (("</".toList ++ name) ++ v) (by simp) ⟨u, by simpa using huv⟩
  exact ⟨v ++ inner.cursor.rest, by simp⟩

/-! ## Keywords -/

theorem blockKeyword_taken {k : String} (hk : k ∈ blockKeywords) {x : Char}
    {v : Text} (hrest : c.rest = k.toList ++ x :: v)
    (hx : continuesIdentifier x = false) :
    (blockKeyword.recognise recognised c).isSome = true := by
  obtain ⟨offset, rest, remembered⟩ := c
  obtain rfl : rest = k.toList ++ x :: v := hrest
  simp only [blockKeywords, List.mem_cons, List.not_mem_nil, or_false] at hk
  rcases hk with rfl | rfl | rfl <;>
    simpa [blockKeyword, firstOf, lit, identifierChar, recognise, Cursor.word?,
      Cursor.one?, Match.plain, continuesIdentifier] using hx

theorem head_stop {s e k : Nat} {as : List Piece} {w : Text}
    (hhead : blockHead.Reads t (Rests t) s e as) (hw : Text.Blank w)
    (hws : t.Stands e w k) {stop : Nat}
    (hbrace : t.Stands k "\x7d".toList stop) :
    ∃ x v z, t.Stands s (x :: v) z ∧ continuesIdentifier x = false := by
  rcases hhead with ⟨_, _, _, hgap, -, -⟩ | ⟨hnone, -⟩
  · obtain ⟨-, g, ⟨hg, hne⟩, hgs⟩ := reads_gap hgap
    obtain ⟨x, v, rfl⟩ := List.exists_cons_of_ne_nil hne
    exact ⟨x, v, _, hgs, continuesIdentifier_of_isBlank
      (hg x List.mem_cons_self)⟩
  · obtain rfl : e = s := hnone.eq_of_nil
    have hends := hws.append hbrace
    cases w with
    | nil => exact ⟨'}', [], _, hends, by decide⟩
    | cons x v =>
        exact ⟨x, v ++ "\x7d".toList, _, hends,
          continuesIdentifier_of_isBlank (hw x List.mem_cons_self)⟩

theorem reads_blockHead {s e : Nat} {as : List Piece}
    (h : blockHead.Reads t (Rests t) s e as) :
    as.filterMap Piece.fragment? = [] := by
  rcases h with ⟨_, _, _, hgap, ⟨-, x, rfl, -⟩, rfl⟩ | ⟨-, rfl⟩
  · obtain ⟨rfl, -⟩ := reads_gap hgap
    rfl
  · rfl

/-- A name that a control-flow block would be opened by is not taken for the
name of another block, so a malformed `if` is an error and not an unknown
block. -/
theorem not_mem_blockKeywords (hc : c.At t)
    (hno : blockKeyword.recognise recognised c = none) {a : Nat}
    (hname : t.Stands c.offset name a)
    (hstop : ∃ x v z, t.Stands a (x :: v) z ∧ continuesIdentifier x = false) :
    name ∉ blockKeywords.map String.toList := by
  intro hmem
  obtain ⟨k, hk, rfl⟩ := List.mem_map.1 hmem
  obtain ⟨x, v, z, hnext, hx⟩ := hstop
  obtain ⟨rest, hrest, -⟩ := (hname.append hnext).dropTo?
  have hleft : c.rest = k.toList ++ x :: (v ++ rest) := by
    rw [Option.some.inj (Eq.trans hc.symm hrest)]
    simp
  have hseen := blockKeyword_taken hk hleft hx
  rw [hno] at hseen
  cases hseen

/-! ## The nodes that are closed by name -/

variable {ps : List Piece} {n : Node}

theorem element_namesAgree (h : Opened t .element c m ps (.node n)) :
    n.NamesAgree t := by
  obtain ⟨m₁, m₀, hopen, hrest, rfl⟩ := (splits_iff _).2 h.body
  obtain ⟨hc₁, _, hps₁, hopenStands, rfl⟩ := held_of_recognised h.lands hopen
  obtain ⟨name, as, d, m₂, hafter, hend, hcursor, hpieces⟩ :=
    head_name (by decide) rfl (by decide) hc₁ hrest
  obtain ⟨_, _, _, -, has, -⟩ := hafter.reads
  have hattributes := reads_attributes has
  have hassembled := h.assembled
  rcases Option.or_eq_some_iff.1 hend with hself | ⟨-, hpaired⟩
  · -- The tag closes itself, and there is no content.
    obtain ⟨-, qs, hqs, hmark⟩ := held_of_recognised hafter.lands hself
    obtain ⟨_, _, _, ⟨-, rfl⟩, ⟨-, rfl⟩, rfl⟩ := hmark
    obtain rfl :=
      Option.some.inj (h.pieces.symm.trans
        (ofCaptures?_append hps₁ (hpieces _ hqs)))
    cases hassembled
    simp [Node.NamesAgree, hattributes]
  · obtain ⟨e, inner, qs, -, -, hstop, -, ⟨hcontent, f, rfl, hspan, -⟩,
        hqs, hcloses⟩ :=
      content_name hafter.lands hafter.names ((splits_iff _).2 hpaired)
    obtain rfl :=
      Option.some.inj (h.pieces.symm.trans
        (ofCaptures?_append hps₁ (hpieces _ hqs)))
    cases hassembled
    have hchildren : (as ++ [Piece.fragment f]).filterMap
        Piece.fragment? = [f] := by
      simp [hattributes, Piece.fragment?]
    have htags : NamedTags t "<".toList "</".toList ">".toList name attributes
        ⟨c.offset, (m₁.andThen m₀).cursor.offset⟩ f.span := by
      rw [hspan, show (m₁.andThen m₀).cursor = m₂.cursor from hcursor]
      exact ⟨⟨_, _, hopenStands, hafter.head, hstop⟩, hcontent, hcloses⟩
    intro f' hf'
    rw [hchildren] at hf' ⊢
    obtain rfl := List.mem_singleton.1 hf'
    exact ⟨rfl, htags⟩

theorem rawElement_namesAgree (h : Opened t .rawElement c m ps (.node n)) :
    n.NamesAgree t := by
  obtain ⟨m₁, m₀, hopen, hrest, rfl⟩ := (splits_iff _).2 h.body
  obtain ⟨hc₁, _, hps₁, hopenStands, rfl⟩ := held_of_recognised h.lands hopen
  obtain ⟨name, as, d, m₂, hafter, hend, hcursor, hpieces⟩ :=
    head_name (by decide) rfl (by decide) hc₁ hrest
  obtain ⟨_, _, _, -, has, -⟩ := hafter.reads
  obtain ⟨e, inner, qs, he, hnames, hstop, hinner, ⟨hcontent, rfl⟩,
      hqs, hcloses⟩ :=
    content_name hafter.lands hafter.names hend
  obtain ⟨raw, hraw, hfree⟩ := rawText_free he hnames hinner
  have hassembled := h.assembled
  obtain rfl :=
    Option.some.inj (h.pieces.symm.trans
      (ofCaptures?_append hps₁ (hpieces _ hqs)))
  cases hassembled
  refine ⟨?_, ⟨e.offset, inner.cursor.offset⟩, raw, ?_, hraw, hfree⟩
  · simp [reads_attributes has, Piece.fragment?]
  · rw [show (m₁.andThen m₀).cursor = m₂.cursor from hcursor]
    exact ⟨⟨_, _, hopenStands, hafter.head, hstop⟩, hcontent, hcloses⟩

theorem otherBlock_namesAgree (h : Opened t .otherBlock c m ps (.node n)) :
    n.NamesAgree t := by
  obtain ⟨m₁, _, hopen, ⟨m₂, m₀, hno, hrest, rfl⟩, rfl⟩ :=
    (splits_iff _).2 h.body
  obtain ⟨hc₁, _, hps₁, hopenStands, rfl⟩ := held_of_recognised h.lands hopen
  simp only [recognise] at hno
  split at hno
  · cases hno
  · next hkeyword =>
      cases hno
      obtain ⟨name, as, d, m₂, hafter, hend, hcursor, hpieces⟩ :=
        head_name (by decide) rfl (by decide) hc₁ hrest
      obtain ⟨a, b, w, hname, has, hw, hws⟩ := hafter.reads
      obtain ⟨e, inner, qs, -, -, hstop, -, ⟨hcontent, f, rfl, hspan, -⟩,
          hqs, hcloses⟩ :=
        content_name hafter.lands hafter.names hend
      have hnot :=
        not_mem_blockKeywords hc₁ (by simpa using hkeyword) hname
          (head_stop has hw hws hstop)
      have hassembled := h.assembled
      obtain rfl :=
        Option.some.inj (h.pieces.symm.trans
          (ofCaptures?_append hps₁ (hpieces _ hqs)))
      cases hassembled
      refine ⟨hnot, f, ?_, ?_⟩
      · simp [reads_blockHead has, Piece.fragment?]
      · rw [hspan,
          show (m₁.andThen ((Match.plain m₁.cursor).andThen m₀)).cursor =
            m₂.cursor from hcursor]
        exact ⟨⟨_, _, hopenStands, hafter.head, hstop⟩, hcontent, hcloses⟩

theorem voidElement_namesAgree (h : Opened t .voidElement c m ps (.node n)) :
    n.NamesAgree t := by
  obtain ⟨_, _, _, ⟨-, rfl⟩, ⟨_, _, _, ⟨-, name, rfl, -⟩,
      ⟨_, as, _, has, ⟨_, _, _, hblanks, ⟨_, slash, _, hslash, ⟨-, rfl⟩, rfl⟩,
          rfl⟩, rfl⟩, rfl⟩, rfl⟩ := h.reads
  obtain ⟨rfl, -⟩ := reads_blanks hblanks
  obtain rfl : slash = [] := by rcases hslash with ⟨-, h⟩ | ⟨-, h⟩ <;> exact h
  have hassembled := h.assembled
  cases hassembled
  simp [Node.NamesAgree, reads_attributes has]

/-- **A node is closed by the name that it was opened with**, if it is closed by
name at all.  This holds of each match on its own; which node it belongs to does
not matter. -/
theorem namesAgree_of_matched {k : Capture Rule} (hk : k.Matched grammar t)
    (hn : Piece.ofCapture? t k = some (.node n)) : n.NamesAgree t := by
  obtain ⟨r, c, m, ps, -, h⟩ := opened_of_matched hk hn
  have hr := h.mem_nodeRules
  have hassembled := h.assembled
  simp only [nodeRules, blockRules, tagRules, List.cons_append, List.nil_append,
    List.mem_cons, List.not_mem_nil, or_false] at hr
  rcases hr with rfl | rfl | rfl | rfl | rfl | rfl | rfl | rfl | rfl | rfl
  · obtain ⟨b, rfl, -⟩ := block_of_assemble (by decide) hassembled
    trivial
  · obtain ⟨b, rfl, -⟩ := block_of_assemble (by decide) hassembled
    trivial
  · obtain ⟨b, rfl, -⟩ := block_of_assemble (by decide) hassembled
    trivial
  · exact otherBlock_namesAgree h
  · cases hassembled
    trivial
  · exact rawElement_namesAgree h
  · exact voidElement_namesAgree h
  · exact element_namesAgree h
  · cases hassembled
    trivial
  · cases hassembled
    trivial

/-- **Opening and closing names agree at every depth**, letter by letter, and
matching a node leaves the remembered names as they were, whatever was tried in
between and however deep calls may go.  So backtracking never lets a closing tag
meet the name of another element. -/
theorem parse_names_agree {text : Text} {tree : Fragment}
    (h : parse text = .ok tree) :
    (∀ n ∈ tree.allNodes, n.NamesAgree text) ∧
      ∀ depth c attempts m, (node.run (grammar.call depth) c attempts).result =
        some m →
        m.cursor.names = c.names := by
  obtain ⟨_, -, horigins⟩ := origin_of_parse h
  refine ⟨?_, ?_⟩
  · intro n hn
    obtain ⟨k, -, hmatched, hpiece⟩ := horigins n hn
    exact namesAgree_of_matched hmatched hpiece
  · intro depth c attempts m hm
    exact grammar_level.run_names rfl depth hm

/-- Elements and a block nested in each other, and a raw element with another
end tag inside. -/
def namesNested : Text :=
  ("<a b=\"c\"><A>x</A ></a><style>i</b</style>" ++
    "\x7b#key k\x7d<a>y</a>\x7b/key\x7d").toList

/-- The names in nested elements agree, upper case with upper case, and so do
those of a raw element and a block. -/
theorem parse_names_agree_nested :
    ∃ tree, parse namesNested = .ok tree ∧
      tree.allNodes.map Node.typeName =
        ["Element", "Element", "Text", "RawText", "Block", "Element", "Text"] ∧
      (∀ n ∈ tree.allNodes, n.NamesAgree namesNested) ∧
      ∀ depth c attempts m, (node.run (grammar.call depth) c attempts).result =
        some m → m.cursor.names = c.names := by
  obtain ⟨tree, htree, hnodes⟩ : ∃ tree, parse namesNested = .ok tree ∧
    tree.allNodes.map Node.typeName =
      ["Element", "Element", "Text", "RawText", "Block", "Element", "Text"] :=
    exists_tree_of_map (by decide +kernel)
  exact ⟨tree, htree, hnodes, parse_names_agree htree⟩

end TemplateJsx.Markup
