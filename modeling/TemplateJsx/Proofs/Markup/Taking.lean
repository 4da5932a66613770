import TemplateJsx.Proofs.Markup.Assembly
import TemplateJsx.Proofs.Peg.Depth

/-!
# Which text a pattern takes

A reading says what a match means once there is one.  Here it is the other way
round: `Takes` says that there is a match, which text it leaves and what its
rules leave behind, and `Refuses` that there is none.  Choices are ordered and
nothing is taken back, so a later alternative is taken only where the earlier
ones are refused, and a repetition ends only where its item is.

Both are stated for what is left of the text and not for an offset.  Two
patterns in a row are then taken by following what is left from one to the next
(`Takes.sequence`, and `Takes.skip` where the first leaves nothing behind).
-/

namespace TemplateJsx.Markup

open Peg (Cursor Recogniser Match Capture)
open Peg.Pattern

/-! ## The ranks of the rules -/

def mayBeEmpty (r : Rule) : Bool :=
  [Rule.document, .fragment, .rawText, .endOfInput].contains r

/-- How many calls may follow a call before some of the text is taken.  The
numbers were read off the grammar; that they are right is checked below. -/
def rank : Rule → Nat
  | .document => 3
  | .fragment => 2
  | .ifBlock | .eachBlock | .awaitBlock | .elseIf | .elseClause | .thenClause
  | .catchClause | .attr | .attributeValue | .expression | .eachExpression
  | .awaitExpression | .eachKey => 1
  | _ => 0

/-- The depth that a text is matched with is enough: the grammar has no left
recursion, and the ranks stay below the depth for one character. -/
def ranked : grammar.Ranked callDepth where
  empty := mayBeEmpty
  rank := rank
  rank_lt r := by cases r <;> decide
  empty_body r := by cases r <;> decide
  heads_lt r := by cases r <;> decide

def recognised : Rule → Recogniser Rule := grammar.settled callDepth

theorem recognised_eq (r : Rule) (c : Cursor) :
    recognised r c = ((ruleBody r).recognise recognised c).map fun m =>
      if grammar.isNamed r then ⟨m.cursor,
        [.mk r ⟨c.offset, m.cursor.offset⟩ m.captures]⟩ else m :=
  ranked.settled_eq r c

/-! ## Taking and refusing -/

/-- Wherever `u` is left of the text, the pattern matches, `v` is left after it,
and what it leaves behind is as `post` says.  Unlike a reading this says that
the pattern does match, and so settles choices and repetitions. -/
def Takes (t : Text) (p : Pat) (names : List Text) (u : Text)
    (names' : List Text) (v : Text) (post : List Piece → Prop) : Prop :=
  ∀ s, t.dropTo? s = some u → ∃ e captures ps,
    p.recognise recognised ⟨s, u, names⟩ = some ⟨⟨e, v, names'⟩, captures⟩ ∧
    t.dropTo? e = some v ∧
      Piece.ofCaptures? t captures = some ps ∧ post ps

abbrev Passes (t : Text) (p : Pat) (names : List Text) (u : Text)
    (names' : List Text) (v : Text) : Prop :=
  Takes t p names u names' v (· = [])

/-- Wherever `u` is left of the text, the pattern does not match.  Ordered
choice and greedy repetition need this half as much as the other. -/
def Refuses (t : Text) (p : Pat) (names : List Text) (u : Text) : Prop :=
  ∀ s, t.dropTo? s = some u → p.recognise recognised ⟨s, u, names⟩ = none

variable {t : Text} {p q : Pat} {names names' names'' : List Text}
  {u v w : Text} {post post' : List Piece → Prop}

theorem dropTo?_append {s : Nat} (h : t.dropTo? s = some (w ++ v)) :
    t.dropTo? (s + Text.byteLength w) = some v :=
  (Cursor.At.move (c := ⟨s, w ++ v, []⟩) (d := ⟨_, v, []⟩) h rfl rfl).1

/-- What lies between two places is what is left at the one and no longer at the
other. -/
theorem slice?_between {s e : Nat} (hs : t.dropTo? s = some (w ++ v))
    (he : t.dropTo? e = some v) :
    t.slice? ⟨s, e⟩ = some w := by
  obtain ⟨before, rfl, rfl⟩ := Text.dropTo?_eq_some.1 hs
  obtain ⟨before', ht, rfl⟩ := Text.dropTo?_eq_some.1 he
  have hcut : before ++ w = before' := by
    rw [← List.append_assoc] at ht
    exact List.append_cancel_right ht
  subst hcut
  exact Text.slice?_eq_some.2 ⟨before, v, rfl, rfl, by simp⟩

theorem word?_append (word : Text) (s : Nat) :
    Cursor.word? (· == ·) word ⟨s, word ++ v, names⟩ =
      some ⟨s + Text.byteLength word, v, names⟩ := by
  induction word generalizing s with
  | nil => rfl
  | cons c word ih =>
      simpa [Cursor.word?, Cursor.one?, Nat.add_assoc] using ih (s + c.utf8Size)

namespace Takes

theorem imp (h : Takes t p names u names' v post)
    (himp : ∀ ps, post ps → post' ps) :
    Takes t p names u names' v post' := by
  intro s hs
  obtain ⟨e, captures, ps, hmatch, he, hps, hpost⟩ := h s hs
  exact ⟨e, captures, ps, hmatch, he, hps, himp ps hpost⟩

theorem literal (word : Text) (h : u = word ++ v) :
    Passes t (.literal word) names u names v := by
  subst h
  intro s hs
  exact ⟨_, [], [], by simp [recognise, word?_append, Match.plain],
    dropTo?_append hs, rfl, rfl⟩

theorem one {accepts : Char → Bool} {c : Char} (h : accepts c = true) :
    Passes t (.one accepts) names (c :: v) names v := by
  intro s hs
  refine ⟨s + c.utf8Size, [], [],
    by simp [recognise, Cursor.one?, h, Match.plain], ?_, rfl, rfl⟩
  simpa using dropTo?_append (w := [c]) hs

theorem sequence (h : Takes t p names u names' v post)
    (h' : ∀ ps, post ps → Takes t q names' v names'' w fun qs =>
      post' (ps ++ qs)) :
    Takes t (.sequence p q) names u names'' w post' := by
  intro s hs
  obtain ⟨m, captures, ps, hmatch, hm, hps, hpost⟩ := h s hs
  obtain ⟨e, captures', qs, hmatch', he, hqs, hpost'⟩ := h' ps hpost m hm
  exact ⟨e, captures ++ captures', ps ++ qs,
    by simp [recognise, hmatch, hmatch'], he,
    ofCaptures?_append hps hqs, hpost'⟩

theorem skip (h : Passes t p names u names' v)
    (h' : Takes t q names' v names'' w post) :
    Takes t (.sequence p q) names u names'' w post := by
  refine h.sequence ?_
  rintro _ rfl
  exact h'

theorem last (h : Takes t p names u names' v post)
    (h' : Passes t q names' v names'' w) :
    Takes t (.sequence p q) names u names'' w post := by
  refine h.sequence fun ps hps => h'.imp ?_
  rintro _ rfl
  rwa [List.append_nil]

theorem left (h : Takes t p names u names' v post) :
    Takes t (.choice p q) names u names' v post := by
  intro s hs
  obtain ⟨e, captures, ps, hmatch, hrest⟩ := h s hs
  exact ⟨e, captures, ps, by simp [recognise, hmatch], hrest⟩

theorem right (h : Refuses t p names u) (h' : Takes t q names u names' v post) :
    Takes t (.choice p q) names u names' v post := by
  intro s hs
  obtain ⟨e, captures, ps, hmatch, hrest⟩ := h' s hs
  exact ⟨e, captures, ps, by simp [recognise, h s hs, hmatch], hrest⟩

theorem present (h : Takes t p names u names' v post) :
    Takes t (.optional p) names u names' v post := by
  intro s hs
  obtain ⟨e, captures, ps, hmatch, hrest⟩ := h s hs
  exact ⟨e, captures, ps, by simp [recognise, hmatch], hrest⟩

theorem absent (h : Refuses t p names u) :
    Passes t (.optional p) names u names u := by
  intro s hs
  exact ⟨s, [], [], by simp [recognise, h s hs, Match.plain], hs, rfl, rfl⟩

theorem notAhead (h : Refuses t p names u) :
    Passes t (.unless p) names u names u := by
  intro s hs
  exact ⟨s, [], [], by simp [recognise, h s hs, Match.plain], hs, rfl, rfl⟩

theorem stop (h : Refuses t p names u) :
    Passes t (.many p) names u names u := by
  intro s hs
  exact ⟨s, [], [], by simp [recognise, Recogniser.repeat, h s hs, Match.plain],
    hs, rfl, rfl⟩

/-- A repetition goes on where its item is taken.  The item must take something
of the text, or the rounds would run out. -/
theorem more (hp : p.mayBeEmpty mayBeEmpty = false)
    (h : Takes t p names u names' v post)
    (h' : ∀ ps, post ps → Takes t (.many p) names' v names'' w fun qs =>
      post' (ps ++ qs)) :
    Takes t (.many p) names u names'' w post' := by
  intro s hs
  obtain ⟨m, captures, ps, hmatch, hm, hps, hpost⟩ := h s hs
  obtain ⟨e, captures', qs, hmatch', he, hqs, hpost'⟩ := h' ps hpost m hm
  have hshortens : ∀ c n, p.recognise recognised c = some n →
      n.cursor.rest.length < c.rest.length :=
    fun c n hn => (recognise_shortens ranked.settled_shortens p hn).2 hp
  -- The rounds that are left after the first are enough for what is left of the
  -- text.
  have hlt := hshortens _ _ hmatch
  have hrepeat : Recogniser.repeat (p.recognise recognised) u.length
      ⟨m, v, names'⟩ =
      ⟨⟨e, w, names''⟩, captures'⟩ := by
    have hrounds :=
      Recogniser.repeat_eq hshortens (c := ⟨m, v, names'⟩) hlt
        (Nat.lt_succ_self _)
    exact hrounds.trans (Option.some.inj hmatch')
  exact ⟨e, captures ++ captures', ps ++ qs,
    by simp [recognise, Recogniser.repeat, hmatch, hrepeat], he,
    ofCaptures?_append hps hqs, hpost'⟩

theorem push (h : Takes t p names (w ++ v) names v post) :
    Takes t (.push p) names (w ++ v) (w :: names) v post := by
  intro s hs
  obtain ⟨e, captures, ps, hmatch, hrest⟩ := h s hs
  exact ⟨e, captures, ps, by simp [recognise, hmatch, Cursor.between], hrest⟩

theorem pop : Passes t .pop (w :: names) (w ++ v) names v := by
  intro s hs
  exact ⟨_, [], [], by simp [recognise, word?_append, Match.plain],
    dropTo?_append hs, rfl, rfl⟩

/-- A rule is taken where its pattern is, and leaves behind one piece. -/
theorem rule {r : Rule} (hr : grammar.isNamed r = true) (hu : u = w ++ v)
    (h : Takes t (ruleBody r) names u names' v fun ps =>
      ∀ x, t.slice? x = some w → ∃ piece, assemble t r x ps = some piece ∧
        post [piece]) :
    Takes t (.rule r) names u names' v post := by
  intro s hs
  obtain ⟨e, captures, ps, hmatch, he, hps, hpost⟩ := h s hs
  obtain ⟨piece, hpiece, hpost⟩ := hpost ⟨s, e⟩ (slice?_between (hu ▸ hs) he)
  refine ⟨e, [.mk r ⟨s, e⟩ captures], [piece], ?_, he, ?_, hpost⟩
  · simp [recognise, recognised_eq, hmatch, hr]
  · simp [Piece.ofCaptures?, Piece.ofCapture?, hps, hpiece]

/-- A balanced stretch is taken where its pattern is, and is a mere
abbreviation. -/
theorem balanced (h : Takes t balanced names u names' v post) :
    Takes t (.rule .balanced) names u names' v post := by
  intro s hs
  obtain ⟨e, captures, ps, hmatch, hrest⟩ := h s hs
  have hbody : (ruleBody .balanced).recognise recognised ⟨s, u, names⟩ =
      some ⟨⟨e, v, names'⟩, captures⟩ := hmatch
  exact ⟨e, captures, ps, by simp [recognise, recognised_eq, hbody, grammar],
    hrest⟩

/-- Characters that are taken one by one. -/
theorem chars (hp : p.mayBeEmpty mayBeEmpty = false)
    (hw : ∀ c ∈ w, ∀ u, Passes t p names (c :: u) names u)
    (hv : Refuses t p names v) :
    Passes t (.many p) names (w ++ v) names v := by
  induction w with
  | nil => exact stop hv
  | cons c w ih =>
      refine more hp (hw c (by simp) _) ?_
      rintro _ rfl
      exact ih fun d hd => hw d (by simp [hd])

theorem chars1 {c : Char} (hp : p.mayBeEmpty mayBeEmpty = false)
    (hw : ∀ d ∈ c :: w, ∀ u, Passes t p names (d :: u) names u)
    (hv : Refuses t p names v) :
    Passes t (many1 p) names (c :: w ++ v) names v :=
  skip (hw c (by simp) _) (chars hp (fun d hd => hw d (by simp [hd])) hv)

end Takes

namespace Refuses

theorem literal {word : Text} (h : word.isPrefixOf u = false) :
    Refuses t (.literal word) names u := by
  intro s _
  cases hword : Cursor.word? (· == ·) word ⟨s, u, names⟩ with
  | none => simp [recognise, hword]
  | some d =>
      obtain ⟨hrest, -, -⟩ := Cursor.word?_beq_eq_some hword
      have hpre : word.isPrefixOf u = true :=
        List.isPrefixOf_iff_prefix.2 ⟨d.rest, hrest.symm⟩
      rw [h] at hpre
      cases hpre

theorem one {accepts : Char → Bool} {c : Char} (h : accepts c = false) :
    Refuses t (.one accepts) names (c :: u) := by
  intro s _
  simp [recognise, Cursor.one?, h]

theorem first (h : Refuses t p names u) :
    Refuses t (.sequence p q) names u := by
  intro s hs
  simp [recognise, h s hs]

/-- A row is refused where its second pattern is, after the first. -/
theorem next (h : Takes t p names u names' v post) (h' : Refuses t q names' v) :
    Refuses t (.sequence p q) names u := by
  intro s hs
  obtain ⟨e, captures, ps, hmatch, he, -, -⟩ := h s hs
  simp [recognise, hmatch, h' e he]

theorem choice (h : Refuses t p names u) (h' : Refuses t q names u) :
    Refuses t (.choice p q) names u := by
  intro s hs
  simp [recognise, h s hs, h' s hs]

theorem ahead (h : Takes t p names u names' v post) :
    Refuses t (.unless p) names u := by
  intro s hs
  obtain ⟨e, captures, ps, hmatch, -, -, -⟩ := h s hs
  simp [recognise, hmatch]

theorem push (h : Refuses t p names u) : Refuses t (.push p) names u := by
  intro s hs
  simp [recognise, h s hs]

theorem rule {r : Rule} (h : Refuses t (ruleBody r) names u) :
    Refuses t (.rule r) names u := by
  intro s hs
  simp [recognise, recognised_eq, h s hs]

end Refuses

end TemplateJsx.Markup
