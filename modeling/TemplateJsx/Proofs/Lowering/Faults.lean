import TemplateJsx.Proofs.Lowering.Transform
import TemplateJsx.Proofs.Lowering.WordSearch
import TemplateJsx.Proofs.Markup.Tiling

/-!
# What can go wrong with a tree

A tree that was built by hand may record any spans.  If they are at least spans
of the text, lowering checks each of them before it relies on it, and a tree
that does not fit the text is reported: a delimiter is not where it should be, a
splice cannot be made, or a block has an impossible shape.

There is one exception.  The search for a closing tag compares the whole of its
first part with the text, also where the block is recorded to end inside that
part.  What stands between the end of the part and the end of the block is then
asked for, and that is no span at all.  So **lowering gives code or a report,
unless it comes to the end of a block that is cut short**.
-/

namespace TemplateJsx

open Markup

/-! ## Results that are reports -/

section Reports

variable {α β : Type} {x : Except Fault α} {f : α → Except Fault β}
  {mid : α → Prop} {next : β → Prop}

/-- A value as `post` says, or a report of what is wrong with the tree.  The one
thing that this leaves out is an offset that the text does not have. -/
def Reports (x : Except Fault α) (post : α → Prop) : Prop :=
  match x with
  | .ok a => post a
  | .error fault => fault ≠ .offText

theorem Reports.bind (h : Reports x mid)
    (hf : ∀ a, mid a → Reports (f a) next) : Reports (x >>= f) next := by
  cases x with
  | ok a => exact hf a h
  | error fault => exact h

theorem Reports.foldlM {γ : Type} {step : β → γ → Except Fault β}
    {inv : β → Prop} {values : List γ}
    (hstep : ∀ v ∈ values, ∀ b, inv b → Reports (step b v) inv) {b : β}
    (hb : inv b) :
    Reports (values.foldlM step b) inv := by
  induction values generalizing b with
  | nil => exact hb
  | cons v values ih =>
      obtain ⟨hv, hvalues⟩ := List.forall_mem_cons.1 hstep
      rw [List.foldlM_cons]
      exact (hv b hb).bind fun b' hb' => ih hvalues hb'

end Reports

/-- A draft of a text with splices that can be made.  Lowering keeps this from
block to block, so that recording may refuse a splice but never finds one of its
own out of range. -/
structure Draft.Over (t : Text) (d : Draft) : Prop where
  text : d.text = t
  sound : d.Sound

theorem Draft.Over.splice {t : Text} {d : Draft} (h : d.Over t) (s : Splice) :
    Reports (d.splice s) (Draft.Over t) := by
  unfold Draft.splice
  cases hrecord : d.record s with
  | error fault => exact Fault.noConfusion
  | ok d' =>
      have htext : d'.text = d.text := by
        rw [(Draft.record_eq_ok.1 hrecord).2.2]
      exact ⟨htext.trans h.text, h.sound.record hrecord⟩

/-! ## Delimiters -/

section Delimiters

variable {t : Text} (hbound : 2 * t.byteLength < offsetBound)
include hbound

/-- A short word is either where it is expected or reported as missing.  Short
means that adding its length to an offset cannot overflow. -/
theorem expectAt_reports {offset : Nat} {word : Text}
    (hoffset : offset ≤ t.byteLength) (hword : word.byteLength ≤ 8) :
    Reports (expectAt t offset word) (t.Stands offset word) := by
  have hstop : ¬offsetBound ≤ offset + word.byteLength := by
    unfold offsetBound at hbound ⊢
    omega
  unfold expectAt
  rw [if_neg hstop]
  by_cases hslice : t.slice? ⟨offset, offset + word.byteLength⟩ = some word
  · rw [if_pos hslice]
    exact Text.slice?_eq_some.1 hslice
  · rw [if_neg hslice]
    exact Fault.noConfusion

theorem closingBrace_reports {tag : Span} (h : t.Cuts tag) :
    Reports (closingBrace t tag) fun _ => True := by
  unfold closingBrace
  by_cases hempty : tag.isEmpty = true
  · rw [if_pos hempty]
    exact Fault.noConfusion
  · have hlt : tag.start < tag.stop := by
      have hne : tag.start ≠ tag.stop := by simpa [Span.isEmpty] using hempty
      exact Nat.lt_of_le_of_ne h.1 hne
    have hstop : tag.stop ≤ t.byteLength :=
      (Text.isBoundary_iff.1 h.2.2).stop_le
    rw [if_neg hempty, if_neg (by omega)]
    exact (expectAt_reports hbound (by omega) (by decide)).bind
      fun _ _ => trivial

end Delimiters

section Words

variable {t word : Text}

theorem findWord_reports {start stop : Nat} (hstart : t.Stands start [] start)
    (hstop : t.Stands stop [] stop) :
    Reports (findWord t start stop word) fun _ => True := by
  have hmin : t.Stands (min start stop) [] (min start stop) := by
    rcases Nat.le_total start stop with h | h
    · rwa [Nat.min_eq_left h]
    · rwa [Nat.min_eq_right h]
  obtain ⟨inside, hinside⟩ := hmin.between hstop (Nat.min_le_right _ _)
  rcases findWord_cases word hinside with ⟨hnone, -⟩ | ⟨k, hk, -⟩
  · rw [hnone]
    exact Fault.noConfusion
  · rw [hk]
    trivial

theorem parametersStop_reports {F : Type} {b : EachBlock F}
    (hcontext : t.Cuts b.context.span) (htag : t.Cuts b.tag) :
    Reports (parametersStop t b) fun _ => True := by
  unfold parametersStop
  cases b.index with
  | none => trivial
  | some index =>
      have hstart := Text.isBoundary_iff.1 hcontext.2.2
      have hstop := Text.isBoundary_iff.1 htag.2.2
      exact (findWord_reports hstart hstop).bind fun start _ => trivial

end Words

/-! ## Closing tags -/

namespace Markup.Block

variable {F : Type} {t : Text}

/-- A block ends inside the first part of its closing tag.  No tree that was
read from a text has such a block, but one that was put together by hand may. -/
def CutShort (t : Text) (b : Block F) : Prop :=
  ∃ s e, t.Stands s ('{' :: '/' :: b.keyword) e ∧ b.span.start ≤ s ∧
    s < b.span.stop ∧ b.span.stop < e

theorem byteLength_keyword_le (b : Block F) :
    Text.byteLength ('{' :: '/' :: b.keyword) ≤ 8 := by
  cases b with
  | conditional c =>
      exact (by decide : Text.byteLength ('{' :: '/' :: "if".toList) ≤ 8)
  | each c =>
      exact (by decide : Text.byteLength ('{' :: '/' :: "each".toList) ≤ 8)
  | await c =>
      exact (by decide : Text.byteLength ('{' :: '/' :: "await".toList) ≤ 8)

theorem brace_not_mem_keyword (b : Block F) : '{' ∉ '/' :: b.keyword := by
  cases b with
  | conditional c => exact (by decide : '{' ∉ '/' :: "if".toList)
  | each c => exact (by decide : '{' ∉ '/' :: "each".toList)
  | await c => exact (by decide : '{' ∉ '/' :: "await".toList)

variable {b : Block F}

theorem CutShort.last_brace (h : b.CutShort t) (hcuts : t.Cuts b.span) :
    ∃ (u v : Text) (e : Nat), t.slice? b.span = some (u ++ '{' :: v) ∧ '{' ∉ v ∧
      t.Stands (b.span.start + u.byteLength) ('{' :: '/' :: b.keyword) e ∧
      b.span.stop < e := by
  obtain ⟨s, e, htag, hstart, hlt, hstop⟩ := h
  obtain ⟨u, hu⟩ := (Text.isBoundary_iff.1 hcuts.2.1).between htag.left hstart
  obtain ⟨v, hv⟩ :=
    htag.left.between (Text.isBoundary_iff.1 hcuts.2.2) (Nat.le_of_lt hlt)
  obtain ⟨w, hw⟩ := hv.right.between htag.right (Nat.le_of_lt hstop)
  have hparts : v ++ w = '{' :: '/' :: b.keyword := (hv.append hw).unique htag
  -- Some of the tag lies inside the block, so its brace does, and there is no
  -- other in the tag.
  obtain ⟨c, v, rfl⟩ := List.exists_cons_of_ne_nil (hv.ne_nil hlt)
  obtain ⟨rfl, hrest⟩ := List.cons.inj hparts
  have hbrace : '{' ∉ v := by
    intro hmem
    apply b.brace_not_mem_keyword
    rw [← hrest]
    exact List.mem_append_left _ hmem
  refine ⟨u, v, e, Text.slice?_eq_some.2 (hu.append hv), hbrace, ?_, hstop⟩
  rwa [← hu.stop_eq]

/-- **The search for a closing tag leaves the text exactly in a block that is
cut short.**  It looks for the keyword behind the last brace of the block, and
there the text of the block is not long enough for it. -/
theorem terminator_eq_offText_iff (hbound : 2 * t.byteLength < offsetBound)
    (hcuts : t.Cuts b.span) :
    terminator t b.span b.keyword = .error .offText ↔ b.CutShort t := by
  constructor
  · intro h
    obtain ⟨body, hbody⟩ : ∃ body, t.Stands b.span.start body b.span.stop :=
      hcuts.stands
    have hslice : t.slice? b.span = some body := Text.slice?_eq_some.2 hbody
    cases hlast : body.lastOffset? '{' with
    | none => simp [terminator, hslice, hlast] at h
    | some before =>
        obtain ⟨u, v, rfl, -, rfl⟩ := Text.lastOffset?_eq_some hlast
        obtain ⟨hu, hv⟩ := hbody.split
        have hreports :=
          expectAt_reports hbound hu.stop_le b.byteLength_keyword_le
        simp only [terminator, hslice, Option.getD_some, hlast] at h
        cases hexpect : expectAt t (b.span.start + u.byteLength)
          ('{' :: '/' :: b.keyword) with
        | error fault =>
            rw [hexpect] at hreports h
            cases h
            exact absurd rfl hreports
        | ok e =>
            rw [hexpect] at hreports h
            refine ⟨_, e, hreports, hu.le, hv.lt (List.cons_ne_nil _ _), ?_⟩
            -- Were the end of the tag not past that of the block, something
            -- would stand between them.
            apply Nat.lt_of_not_le
            intro hle
            obtain ⟨rest, hrest⟩ := hreports.right.between hv.right hle
            rw [ok_bind, Text.slice?_eq_some.2 hrest] at h
            simp only at h
            split at h <;> cases h
  · intro h
    obtain ⟨u, v, e, hslice, hbrace, htag, hstop⟩ := h.last_brace hcuts
    have hnone : t.slice? ⟨e, b.span.stop⟩ = none := by
      unfold Text.slice?
      rw [if_neg (by simpa using hstop)]
    have hexpect := expectAt_eq_ok (by omega) htag
    simp only [terminator, hslice, Option.getD_some,
      Text.lastOffset?_append hbrace, hexpect, ok_bind, hnone]

end Markup.Block

/-! ## Blocks -/

section Blocks

variable {t : Text} (hbound : 2 * t.byteLength < offsetBound) {F : Type}
  {d : Draft}
include hbound

theorem expectAt_start_reports {tag : Span} {word : Text} (htag : t.Cuts tag)
    (hword : word.byteLength ≤ 8) :
    Reports (expectAt t tag.start word) (t.Stands tag.start word) :=
  expectAt_reports hbound (Text.isBoundary_iff.1 htag.2.1).stop_le hword

theorem closeCondition_reports {a : Arm F} (htag : t.Cuts a.tag)
    (hd : d.Over t) :
    Reports (closeCondition a d) (Draft.Over t) := by
  unfold closeCondition
  refine (hd.splice _).bind fun d hd => ?_
  rw [hd.text]
  exact (closingBrace_reports hbound htag).bind fun brace _ => hd.splice _

theorem closeBranch_reports {tag : Span} (htag : t.Cuts tag) (hd : d.Over t) :
    Reports (closeBranch tag.start d) fun r => r.2.Over t := by
  unfold closeBranch
  rw [hd.text]
  refine (expectAt_start_reports hbound htag (by decide)).bind
    fun colon hcolon => ?_
  refine (expectAt_reports hbound hcolon.stop_le (by decide)).bind
    fun word hword => ?_
  refine (expectAt_reports hbound hword.stop_le (by decide)).bind
    fun stop _ => ?_
  refine (hd.splice _).bind fun d hd => ?_
  exact (hd.splice _).bind fun d hd => hd

theorem lowerLink_reports {a : Arm F} (htag : t.Cuts a.tag) (hd : d.Over t) :
    Reports (lowerLink d a) (Draft.Over t) := by
  unfold lowerLink
  refine (closeBranch_reports hbound htag hd).bind ?_
  intro ⟨stop, d⟩ hd
  exact (Draft.Over.splice hd _).bind fun d hd =>
    closeCondition_reports hbound htag hd

theorem lowerElse_reports {c : Clause F} (htag : t.Cuts c.tag) (hd : d.Over t) :
    Reports (lowerElse c d) (Draft.Over t) := by
  unfold lowerElse
  refine (closeBranch_reports hbound htag hd).bind ?_
  intro ⟨stop, d⟩ hd
  have htext : d.text = t := hd.text
  simp only [htext]
  exact (closingBrace_reports hbound htag).bind fun brace _ =>
    Draft.Over.splice hd _

theorem lowerThen_reports {b : AwaitBlock F} (htag : t.Cuts b.tag)
    (hexpression : t.Cuts b.expression) (hthen : ∀ tag ∈ b.thenTag, t.Cuts tag)
    (hd : d.Over t) : Reports (lowerThen b d) (Draft.Over t) := by
  unfold lowerThen
  rw [hd.text]
  cases hpending : b.pending with
  | none =>
      cases hthenTag : b.thenTag with
      | some tag => exact Fault.noConfusion
      | none =>
          have hstart := Text.isBoundary_iff.1 hexpression.2.2
          have hstop := Text.isBoundary_iff.1 htag.2.2
          refine (findWord_reports hstart hstop).bind fun word _ => ?_
          exact (closingBrace_reports hbound htag).bind
            fun brace _ => hd.splice _
  | some pending =>
      cases hthenTag : b.thenTag with
      | none => exact Fault.noConfusion
      | some tag =>
          refine (closingBrace_reports hbound htag).bind fun brace _ => ?_
          refine (expectAt_start_reports hbound (hthen tag hthenTag)
            (by decide)).bind fun stop _ => ?_
          refine (hd.splice _).bind fun d hd => ?_
          exact (hd.splice _).bind fun d hd => hd.splice _

theorem lowerCatch_reports {h : Handler F} (htag : t.Cuts h.tag)
    (hd : d.Over t) :
    Reports (lowerCatch h d) (Draft.Over t) := by
  unfold lowerCatch
  rw [hd.text]
  exact (expectAt_start_reports hbound htag (by decide)).bind
    fun stop _ => hd.splice _

theorem openIf_reports {b : IfBlock F} (htag : t.Cuts b.head.tag)
    (hlinks : ∀ a ∈ b.links, t.Cuts a.tag)
    (hotherwise : ∀ c ∈ b.otherwise.toList, t.Cuts c.tag) (hd : d.Over t) :
    Reports (openIf b d) (Draft.Over t) := by
  rw [openIf_eq, hd.text]
  refine (expectAt_start_reports hbound htag (by decide)).bind fun stop _ => ?_
  refine (hd.splice _).bind fun d hd => ?_
  refine (closeCondition_reports hbound htag hd).bind fun d hd => ?_
  refine (Reports.foldlM (fun a ha d hd =>
    lowerLink_reports hbound (hlinks a ha) hd) hd).bind fun d hd => ?_
  exact Reports.foldlM (fun c hc d hd =>
    lowerElse_reports hbound (hotherwise c hc) hd) hd

theorem openEach_reports {b : EachBlock F} (htag : t.Cuts b.tag)
    (hcontext : t.Cuts b.context.span) (hd : d.Over t) :
    Reports (openEach b d) (Draft.Over t) := by
  rw [openEach, hd.text]
  refine (expectAt_start_reports hbound htag (by decide)).bind fun stop _ => ?_
  refine (hd.splice _).bind fun d hd => ?_
  refine (hd.splice _).bind fun d hd => ?_
  rw [hd.text]
  refine (parametersStop_reports hcontext htag).bind fun parameters _ => ?_
  refine (hd.splice _).bind fun d hd => ?_
  rw [hd.text]
  exact (closingBrace_reports hbound htag).bind fun brace _ => hd.splice _

theorem openAwait_reports {b : AwaitBlock F} (htag : t.Cuts b.tag)
    (hexpression : t.Cuts b.expression)
    (hthen : ∀ tag ∈ b.thenTag, t.Cuts tag)
    (hrescue : ∀ h ∈ b.rescue.toList, t.Cuts h.tag) (hd : d.Over t) :
    Reports (openAwait b d) (Draft.Over t) := by
  rw [openAwait_eq, hd.text]
  refine (expectAt_start_reports hbound htag (by decide)).bind fun stop _ => ?_
  refine (hd.splice _).bind fun d hd => ?_
  refine (hd.splice _).bind fun d hd => ?_
  refine (lowerThen_reports hbound htag hexpression hthen hd).bind
    fun d hd => ?_
  exact Reports.foldlM (fun h hh d hd =>
    lowerCatch_reports hbound (hrescue h hh) hd) hd

/-- Up to its closing tag, a block whose spans are spans of the text is lowered
or reported. -/
theorem openBlock_reports {b : Block Fragment} (hb : ∀ x ∈ b.recorded, t.Cuts x)
    (hd : d.Over t) :
    Reports (openBlock d b) (Draft.Over t) := by
  cases b with
  | conditional b =>
      apply openIf_reports hbound (hb _ (by simp [Block.recorded])) ?_ ?_ hd
      · intro a ha
        apply hb
        simp only [Block.recorded, List.mem_append, List.mem_flatMap,
          List.mem_cons]
        exact Or.inl ⟨a, Or.inr ha, Or.inr (Or.inl rfl)⟩
      · intro c hc
        apply hb
        simp only [Block.recorded, List.mem_append, List.mem_flatMap]
        exact Or.inr ⟨c, hc, List.mem_cons_self⟩
  | each b =>
      exact openEach_reports hbound (hb _ (by simp [Block.recorded]))
        (hb _ (by simp [Block.recorded])) hd
  | await b =>
      apply openAwait_reports hbound (hb _ (by simp [Block.recorded]))
        (hb _ (by simp [Block.recorded])) ?_ ?_ hd
      · intro tag htag
        apply hb
        simp [Block.recorded, Option.mem_def.1 htag]
      · intro h hh
        apply hb
        simp only [Block.recorded, List.mem_append, List.mem_flatMap]
        exact Or.inr ⟨h, hh, List.mem_cons_self⟩

theorem closeBlock_reports {b : Block Fragment}
    (hb : ∀ x ∈ b.recorded, t.Cuts x) (stop : Nat) (hd : d.Over t) :
    Reports (closeBlock stop d b) (Draft.Over t) := by
  cases b with
  | conditional b => exact hd.splice _
  | await b => exact hd.splice _
  | each b =>
      rw [closeBlock, closeEach, hd.text]
      cases hfallback : b.fallback with
      | none => exact hd.splice _
      | some c =>
          have htag : t.Cuts c.tag := hb _ (by simp [Block.recorded, hfallback])
          refine (expectAt_start_reports hbound htag (by decide)).bind
            fun _ _ => ?_
          exact (hd.splice _).bind fun d hd => hd.splice _

omit hbound in
theorem Markup.Block.span_mem_recorded (b : Block Fragment) :
    b.span ∈ b.recorded := by
  cases b <;> simp [Block.recorded, Block.span, IfBlock.span]

/-- A block is lowered or reported, unless it is cut short and lowering comes
that far. -/
theorem lowerBlock_reports {b : Block Fragment}
    (hb : ∀ x ∈ b.recorded, t.Cuts x) (hd : d.Over t)
    (hcut : ∀ d', openBlock d b = .ok d' → ¬b.CutShort t) :
    Reports (lowerBlock d b) (Draft.Over t) := by
  have hopening := openBlock_reports hbound hb hd
  rw [lowerBlock]
  cases hopen : openBlock d b with
  | error fault =>
      rw [hopen] at hopening
      exact hopening
  | ok d' =>
      rw [hopen] at hopening
      have hd' : d'.Over t := hopening
      rw [ok_bind, hd'.text]
      have hterminator : Reports (terminator t b.span b.keyword)
          fun _ => True := by
        cases hresult : terminator t b.span b.keyword with
        | ok stop => trivial
        | error fault =>
            intro hfault
            rw [hfault] at hresult
            exact hcut d' hopen
              ((Block.terminator_eq_offText_iff hbound
                  (hb _ b.span_mem_recorded)).1 hresult)
      exact hterminator.bind fun stop _ => closeBlock_reports hbound hb stop hd'

theorem lowerBlock_eq_offText {b : Block Fragment}
    (hb : ∀ x ∈ b.recorded, t.Cuts x) (hd : d.Over t) {d' : Draft}
    (hopen : openBlock d b = .ok d') (hcut : b.CutShort t) :
    lowerBlock d b = .error .offText := by
  have hd' : d'.Over t := by
    have hopening := openBlock_reports hbound hb hd
    rw [hopen] at hopening
    exact hopening
  rw [lowerBlock, hopen, ok_bind, hd'.text,
    (Block.terminator_eq_offText_iff hbound (hb _ b.span_mem_recorded)).2 hcut]
  rfl

theorem lowerBlock_over {b : Block Fragment} (hb : ∀ x ∈ b.recorded, t.Cuts x)
    (hd : d.Over t) {d' : Draft} (h : lowerBlock d b = .ok d') : d'.Over t := by
  have hreports : Reports (lowerBlock d b) (Draft.Over t) := by
    apply lowerBlock_reports hbound hb hd
    intro d'' hopen hcut
    rw [lowerBlock_eq_offText hbound hb hd hopen hcut] at h
    cases h
  rw [h] at hreports
  exact hreports

end Blocks

/-! ## Trees -/

/-- Lowering one block after another comes to the end of one that is cut short,
and no block before it is reported. -/
def ComesToCut (t : Text) (d : Draft) (blocks : List (Block Fragment)) : Prop :=
  ∃ before b after d₁ d₂, blocks = before ++ b :: after ∧
    before.foldlM lowerBlock d = .ok d₁ ∧
    openBlock d₁ b = .ok d₂ ∧ b.CutShort t

section Trees

variable {t : Text} (hbound : 2 * t.byteLength < offsetBound)
  {blocks : List (Block Fragment)} {d : Draft}
include hbound

theorem lowerBlocks_reports (hblocks : ∀ b ∈ blocks, ∀ x ∈ b.recorded, t.Cuts x)
    (hd : d.Over t) (hcut : ¬ComesToCut t d blocks) :
    Reports (blocks.foldlM lowerBlock d) (Draft.Over t) := by
  induction blocks generalizing d with
  | nil => exact hd
  | cons b blocks ih =>
      obtain ⟨hb, hblocks⟩ := List.forall_mem_cons.1 hblocks
      have hfirst : Reports (lowerBlock d b) (Draft.Over t) :=
        lowerBlock_reports hbound hb hd fun d' hopen hshort =>
          hcut ⟨[], b, blocks, d, d', rfl, rfl, hopen, hshort⟩
      rw [List.foldlM_cons]
      cases hlower : lowerBlock d b with
      | error fault =>
          rw [hlower] at hfirst
          exact hfirst
      | ok d' =>
          rw [hlower] at hfirst
          refine ih hblocks hfirst ?_
          intro ⟨before, c, after, d₁, d₂, hsplit, hbefore, hopen, hshort⟩
          apply hcut
          refine ⟨b :: before, c, after, d₁, d₂, congrArg (b :: ·) hsplit, ?_,
            hopen, hshort⟩
          rw [List.foldlM_cons, hlower]
          exact hbefore

theorem lowerBlocks_eq_offText
    (hblocks : ∀ b ∈ blocks, ∀ x ∈ b.recorded, t.Cuts x) (hd : d.Over t)
    (hcut : ComesToCut t d blocks) :
    blocks.foldlM lowerBlock d = .error .offText := by
  obtain ⟨before, b, after, d₁, d₂, rfl, hbefore, hopen, hshort⟩ := hcut
  induction before generalizing d with
  | nil =>
      cases hbefore
      have hb := hblocks b (by simp)
      rw [List.nil_append, List.foldlM_cons,
        lowerBlock_eq_offText hbound hb hd hopen hshort]
      rfl
  | cons c before ih =>
      obtain ⟨hc, hblocks⟩ := List.forall_mem_cons.1 hblocks
      rw [List.foldlM_cons] at hbefore
      rw [List.cons_append, List.foldlM_cons]
      cases hlower : lowerBlock d c with
      | error fault =>
          rw [hlower] at hbefore
          cases hbefore
      | ok d' =>
          rw [hlower] at hbefore
          exact ih (lowerBlock_over hbound hc hd hlower) hblocks hbefore

end Trees

namespace Markup

/-- Every span of a tree is a span of the text, in order and between characters.
Nothing else is asked of the tree: its tags may be missing, and its nodes may
overlap. -/
def FragmentOf.InRange (t : Text) (tree : Fragment) : Prop :=
  ∀ f, Within tree f → t.Cuts f.span ∧ ∀ n ∈ f.nodes, ∀ x ∈ n.recorded, t.Cuts x

theorem Within.exists_of_mem_blocks {root f : Fragment} {n : Node}
    (hf : Within root f) (hn : n ∈ f.nodes) {b : Block Fragment}
    (hb : b ∈ n.blocks) : ∃ g, Within root g ∧ Node.block b ∈ g.nodes := by
  induction n using Node.induct generalizing f with
  | step n ih =>
      have hnested : b ∈ n.fragments.flatMap FragmentOf.blocks →
          ∃ g, Within root g ∧ Node.block b ∈ g.nodes := by
        intro hb
        obtain ⟨g, hg, hb⟩ := List.mem_flatMap.1 hb
        rw [FragmentOf.blocks_eq] at hb
        obtain ⟨m, hm, hb⟩ := List.mem_flatMap.1 hb
        exact ih g hg m hm (hf.nested hn hg) hm hb
      cases n with
      | other kind span children =>
          rw [Node.blocks_other] at hb
          exact hnested hb
      | block c =>
          rw [Node.blocks_block] at hb
          rcases List.mem_cons.1 hb with rfl | hb
          · exact ⟨f, hf, hn⟩
          · exact hnested hb

theorem FragmentOf.InRange.blocks {t : Text} {tree : Fragment}
    (h : tree.InRange t) :
    ∀ b ∈ tree.blocks, ∀ x ∈ b.recorded, t.Cuts x := by
  intro b hb
  rw [FragmentOf.blocks_eq] at hb
  obtain ⟨n, hn, hb⟩ := List.mem_flatMap.1 hb
  obtain ⟨g, hg, hmem⟩ := Within.root.exists_of_mem_blocks hn hb
  exact (h g hg).2 _ hmem

theorem Within.eq_or_nested {root f : Fragment} (h : Within root f) :
    f = root ∨ ∃ n ∈ root.nodes, ∃ g ∈ n.fragments, Within g f := by
  induction h with
  | root => exact Or.inl rfl
  | nested outer hn hg ih =>
      rcases ih with rfl | ⟨n, hn', g, hg', hwithin⟩
      · exact Or.inr ⟨_, hn, _, hg, .root⟩
      · exact Or.inr ⟨n, hn', g, hg', hwithin.nested hn hg⟩

theorem FragmentOf.InRange.intro {t : Text} {tree : Fragment}
    (hspan : t.Cuts tree.span)
    (hnodes : ∀ n ∈ tree.nodes, (∀ x ∈ n.recorded, t.Cuts x) ∧
      ∀ g ∈ n.fragments, g.InRange t) : tree.InRange t := by
  intro f hf
  rcases hf.eq_or_nested with rfl | ⟨n, hn, g, hg, hwithin⟩
  · exact ⟨hspan, fun n hn => (hnodes n hn).1⟩
  · exact (hnodes n hn).2 g hg f hwithin

end Markup

theorem Draft.Over.render (o : Options) {t : Text} {d : Draft} (h : d.Over t) :
    ∃ output, render o (wrap o d) = .ok output := by
  have hwrap : (wrap o d).Sound := by
    unfold wrap
    split
    · exact ⟨h.sound.fits, h.sound.apart⟩
    · exact h.sound
  unfold TemplateJsx.render
  rw [hwrap.render?]
  exact ⟨_, rfl⟩

theorem Fault.diagnostic_kind (source : Source) (fault : Fault) :
    (fault.diagnostic source).kind ∈
      [DiagnosticKind.delimiter, .edit, .internal] := by
  cases fault <;>
    simp [Fault.diagnostic, SpliceFault.diagnostic, Diagnostic.pointing]

/-- **A tree whose spans are spans of the text gives code or a report**, exactly
unless lowering comes to the end of a block that is cut short.  So a tree from
another source does no harm beyond a message, but for this one case. -/
theorem transformTree_reports_iff (o : Options) (source : Source) {text : Text}
    {tree : Fragment} (hbound : 2 * text.byteLength < offsetBound)
    (hrange : tree.InRange text) :
    ((∃ output, transformTree o text tree = .ok output) ∨
        ∃ fault, transformTree o text tree = .error fault ∧ fault ≠ .offText ∧
          (fault.diagnostic source).kind ∈
            [DiagnosticKind.delimiter, .edit, .internal]) ↔
      ¬ComesToCut text (Draft.ofText text) tree.blocks := by
  have hstart : (Draft.ofText text).Over text := ⟨rfl, Draft.sound_ofText text⟩
  constructor
  · intro h hcut
    have hlower := lowerBlocks_eq_offText hbound hrange.blocks hstart hcut
    have hfault : transformTree o text tree = .error .offText := by
      rw [transformTree, lower_eq_foldlM, hlower]
      rfl
    rcases h with ⟨output, hok⟩ | ⟨fault, herror, hne, -⟩
    · rw [hfault] at hok
      cases hok
    · rw [hfault] at herror
      cases herror
      exact hne rfl
  · intro hcut
    have hreports := lowerBlocks_reports hbound hrange.blocks hstart hcut
    rw [← lower_eq_foldlM] at hreports
    cases hlower : lower text tree with
    | ok d =>
        rw [hlower] at hreports
        have hd : d.Over text := hreports
        obtain ⟨output, houtput⟩ := hd.render o
        refine Or.inl ⟨output, ?_⟩
        rw [transformTree, hlower]
        exact houtput
    | error fault =>
        rw [hlower] at hreports
        refine Or.inr ⟨fault, ?_, hreports, fault.diagnostic_kind source⟩
        rw [transformTree, hlower]
        rfl

/-- The tree of `{#if a}x{/if}`, its block recorded to end at some offset. -/
def endingAt (stop : Nat) : Fragment :=
  ⟨⟨0, 13⟩, [.block (.conditional
    ⟨⟨⟨0, stop⟩, ⟨0, 7⟩, ⟨5, 6⟩, ⟨⟨7, 8⟩, [.other .text ⟨7, 8⟩ []]⟩⟩,
      [], none⟩)]⟩

theorem endingAt_inRange (stop : Nat)
    (h : Text.Cuts "\x7b#if a\x7dx\x7b/if\x7d".toList ⟨0, stop⟩) :
    (endingAt stop).InRange "\x7b#if a\x7dx\x7b/if\x7d".toList := by
  apply FragmentOf.InRange.intro
  · change Text.Cuts _ ⟨0, 13⟩
    decide
  · intro n hn
    rw [List.mem_singleton.1 hn]
    constructor
    · intro x hx
      simp only [Node.recorded, Block.recorded, List.flatMap_cons,
        List.flatMap_nil, List.append_nil, Option.toList_none, List.mem_cons,
        List.not_mem_nil, or_false] at hx
      rcases hx with rfl | rfl | rfl | rfl
      · exact h
      · decide
      · decide
      · decide
    · intro g hg
      rw [List.mem_singleton.1 hg]
      apply FragmentOf.InRange.intro
      · change Text.Cuts _ ⟨7, 8⟩
        decide
      · intro n hn
        rw [List.mem_singleton.1 hn]
        constructor
        · intro x hx
          rw [List.mem_singleton.1 hx]
          decide
        · intro g hg
          cases hg

/-- A block that ends one character early is reported. -/
theorem transformTree_reports_iff_early :
    transformTree .standard "\x7b#if a\x7dx\x7b/if\x7d".toList (endingAt 12) =
        .error (.delimiter (.malformed "if".toList ⟨8, 12⟩)) ∧
      ¬ComesToCut "\x7b#if a\x7dx\x7b/if\x7d".toList
        (Draft.ofText "\x7b#if a\x7dx\x7b/if\x7d".toList)
        (endingAt 12).blocks := by
  have hfault : transformTree .standard "\x7b#if a\x7dx\x7b/if\x7d".toList
      (endingAt 12) =
      .error (.delimiter (.malformed "if".toList ⟨8, 12⟩)) := by
    rfl
  have hiff :=
    transformTree_reports_iff .standard ⟨"", "\x7b#if a\x7dx\x7b/if\x7d".toList⟩
      (by decide) (endingAt_inRange 12 (by decide))
  exact ⟨hfault,
    hiff.1 (Or.inr ⟨_, hfault, Fault.noConfusion, Fault.diagnostic_kind _ _⟩)⟩

/-- A block that ends inside the word of its closing tag is not. -/
theorem transformTree_cut_short :
    (endingAt 10).InRange "\x7b#if a\x7dx\x7b/if\x7d".toList ∧
      transformTree .standard "\x7b#if a\x7dx\x7b/if\x7d".toList (endingAt 10) =
        .error .offText := by
  refine ⟨endingAt_inRange 10 ?_, ?_⟩
  · decide
  · rfl

end TemplateJsx
