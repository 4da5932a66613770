import TemplateJsx.Proofs.Peg.Derivation

/-!
# Matches inside a match

A repetition is a run of matches of its item, and the longest one
(`Repeats.advances`).

A match leaves captures, and captures hold captures.  Every one of them, at
whatever depth, is itself the match of a rule somewhere in the text
(`Derives.inside`).

To look into such a match, its pattern is taken apart item by item:
`Pattern.Splits` goes through a row of patterns and says of each item what it is
recognised as where the item before it stopped.  What is said of an item can
then be turned into what it reads, what it derives or what it does to the names.
-/

namespace TemplateJsx.Peg

variable {R : Type}

/-! ## Cursors further on -/

namespace Cursor

/-- A cursor further on in the same text, with some word between the two.  Its
names may be others. -/
def Advances (c d : Cursor) : Prop :=
  ∃ w, c.rest = w ++ d.rest ∧ d.offset = c.offset + Text.byteLength w

theorem Advances.refl (c : Cursor) : c.Advances c := ⟨[], rfl, rfl⟩

theorem Advances.trans {c d e : Cursor} (h : c.Advances d) (h' : d.Advances e) :
    c.Advances e := by
  obtain ⟨v, hv, hoffset⟩ := h
  obtain ⟨w, hw, hoffset'⟩ := h'
  refine ⟨v ++ w, by rw [hv, hw, List.append_assoc], ?_⟩
  rw [hoffset', hoffset, Text.byteLength_append, Nat.add_assoc]

theorem Advances.lands {t : Text} {c d : Cursor} (h : c.Advances d)
    (hc : c.At t) : d.At t := by
  obtain ⟨w, hrest, hoffset⟩ := h
  exact (hc.move hrest hoffset).1

/-- The text between two cursors is what stands between them. -/
theorem Advances.stands_between {t : Text} {c d : Cursor} (h : c.Advances d)
    (hc : c.At t) :
    t.Stands c.offset (c.between d) d.offset := by
  obtain ⟨w, hrest, hoffset⟩ := h
  have hbetween : c.between d = w := by simp [between, hrest]
  rw [hbetween]
  exact (hc.move hrest hoffset).2

end Cursor

/-- What is derived ends further on in the text, by induction on the derivation.
A failure leaves no cursor, so there is nothing to say of it. -/
theorem Derives.advances {g : Grammar R} {p : Pattern R} {c : Cursor}
    {r : Option (Match R)} (h : Derives g p c r) {m : Match R}
    (hm : r = some m) : c.Advances m.cursor := by
  induction h generalizing m with
  | literal word c =>
      obtain ⟨d, hd, rfl⟩ := Option.map_eq_some_iff.1 hm
      obtain ⟨hrest, hoffset, -⟩ := Cursor.word?_beq_eq_some hd
      exact ⟨word, hrest, hoffset⟩
  | caseless word c =>
      obtain ⟨d, hd, rfl⟩ := Option.map_eq_some_iff.1 hm
      obtain ⟨w, hrest, hoffset, -⟩ := Cursor.word?_eq_some hd
      exact ⟨w, hrest, hoffset⟩
  | one accepts c =>
      obtain ⟨d, hd, rfl⟩ := Option.map_eq_some_iff.1 hm
      obtain ⟨x, -, hrest, hoffset, -⟩ := Cursor.one?_eq_some hd
      exact ⟨[x], hrest, hoffset⟩
  | sequence first next ihFirst ihNext =>
      cases hm
      have hfirst := ihFirst rfl
      have hnext := ihNext rfl
      exact hfirst.trans hnext
  | choiceFirst first ih => exact ih hm
  | choiceOther first other _ ih => exact ih hm
  | manyMore item rest ihItem ihRest =>
      cases hm
      have hitem := ihItem rfl
      have hrest := ihRest rfl
      exact hitem.trans hrest
  | optionalPresent item ih => exact ih hm
  | rule body ih =>
      obtain ⟨inner, hinner, rfl⟩ := Option.map_eq_some_iff.1 hm
      have hbody := ih hinner
      unfold Grammar.capture
      split <;> exact hbody
  | push item ih =>
      obtain ⟨inner, hinner, rfl⟩ := Option.map_eq_some_iff.1 hm
      have hitem := ih hinner
      exact hitem
  | pop hnames =>
      obtain ⟨d, hd, rfl⟩ := Option.map_eq_some_iff.1 hm
      obtain ⟨hrest, hoffset, -⟩ := Cursor.word?_beq_eq_some hd
      exact ⟨_, hrest, hoffset⟩
  | peek hnames =>
      obtain ⟨d, hd, rfl⟩ := Option.map_eq_some_iff.1 hm
      obtain ⟨hrest, hoffset, -⟩ := Cursor.word?_beq_eq_some hd
      exact ⟨_, hrest, hoffset⟩
  | atStart c =>
      split at hm
      · cases hm
        exact .refl c
      · cases hm
  | atEnd c =>
      split at hm
      · cases hm
        exact .refl c
      · cases hm
  | sequenceFirst | sequenceNext | unlessPresent | popNone | peekNone
  | dropNone => cases hm
  | _ =>
      cases hm
      exact .refl _

/-! ## Runs of matches -/

/-- Matches of a pattern, one after another, with no word on whether another one
could follow. -/
inductive Repeats (g : Grammar R) (p : Pattern R) : Cursor → Cursor → Prop
  | done (c : Cursor) : Repeats g p c c
  | next {c d : Cursor} {m : Match R} (first : Derives g p c (some m))
      (rest : Repeats g p m.cursor d) : Repeats g p c d

theorem Derives.repeats {g : Grammar R} {p : Pattern R} {c : Cursor}
    {m : Match R} (h : Derives g (.many p) c (some m)) :
    Repeats g p c m.cursor := by
  generalize hpattern : Pattern.many p = q at h
  generalize hresult : some m = r at h
  induction h generalizing m with
  | manyDone item =>
      cases hresult
      exact .done _
  | manyMore item rest _ ih =>
      cases hpattern
      cases hresult
      have hrest := ih rfl rfl
      exact .next item hrest
  | _ => cases hpattern

/-- **A repetition goes as far as any such run does.**  It is greedy: where a
run goes on, the repetition cannot have ended, since an item has one result
only. -/
theorem Repeats.advances {g : Grammar R} {p : Pattern R} {c d : Cursor}
    (hrun : Repeats g p c d) {m : Match R}
    (h : Derives g (.many p) c (some m)) : d.Advances m.cursor := by
  induction hrun generalizing m with
  | done c => exact h.advances rfl
  | next first rest ih =>
      cases h with
      | manyDone item => cases first.unique item
      | manyMore item more =>
          cases first.unique item
          have hrest := ih more
          exact hrest

/-! ## Captures at any depth -/

/-- A capture among some captures or inside one of them, at whatever depth. -/
inductive Capture.Inside (k : Capture R) : List (Capture R) → Prop
  | here {ks : List (Capture R)} (h : k ∈ ks) : Inside k ks
  | deeper {r : R} {span : Span} {inner ks : List (Capture R)}
      (h : Capture.mk r span inner ∈ ks) (inside : Inside k inner) : Inside k ks

/-- The capture of a match of its rule somewhere in the text.  The cursor of the
match may have any names, as it lies in the middle of some larger match. -/
inductive Capture.Matched (g : Grammar R) (t : Text) : Capture R → Prop
  | intro {r : R} {c : Cursor} {m : Match R} (named : g.isNamed r = true)
      (lands : c.At t) (body : Derives g (g.body r) c (some m)) :
      Matched g t (.mk r ⟨c.offset, m.cursor.offset⟩ m.captures)

namespace Capture.Inside

variable {k : Capture R} {ks ls : List (Capture R)}

theorem mono (h : k.Inside ks) (hsub : ∀ x ∈ ks, x ∈ ls) : k.Inside ls := by
  cases h with
  | here h => exact .here (hsub _ h)
  | deeper h inside => exact .deeper (hsub _ h) inside

theorem of_append (h : k.Inside (ks ++ ls)) : k.Inside ks ∨ k.Inside ls := by
  cases h with
  | here h =>
      rcases List.mem_append.1 h with h | h
      · exact Or.inl (.here h)
      · exact Or.inr (.here h)
  | deeper h inside =>
      rcases List.mem_append.1 h with h | h
      · exact Or.inl (.deeper h inside)
      · exact Or.inr (.deeper h inside)

theorem not_nil : ¬ k.Inside [] := by
  intro h
  cases h with
  | here h => cases h
  | deeper h inside => cases h

end Capture.Inside

/-- **Every capture of a match is the capture of a match.**  A capture is made
where its rule matched and handed on unchanged, so that a node of a tree can be
traced back to the pattern it came from. -/
theorem Derives.inside {g : Grammar R} {t : Text} {p : Pattern R} {c : Cursor}
    {r : Option (Match R)} (h : Derives g p c r) (hc : c.At t) {m : Match R}
    (hm : r = some m) {k : Capture R} (hk : k.Inside m.captures) :
    k.Matched g t := by
  induction h generalizing m with
  | literal | caseless | one | peek | pop =>
      obtain ⟨d, -, rfl⟩ := Option.map_eq_some_iff.1 hm
      exact absurd hk Capture.Inside.not_nil
  | atStart | atEnd =>
      split at hm
      · cases hm
        exact absurd hk Capture.Inside.not_nil
      · cases hm
  | sequence first next ihFirst ihNext =>
      cases hm
      rcases hk.of_append with hk | hk
      · exact ihFirst hc rfl hk
      · exact ihNext ((first.advances rfl).lands hc) rfl hk
  | choiceFirst first ih => exact ih hc hm hk
  | choiceOther first other _ ih => exact ih hc hm hk
  | manyMore item rest ihItem ihRest =>
      cases hm
      rcases hk.of_append with hk | hk
      · exact ihItem hc rfl hk
      · exact ihRest ((item.advances rfl).lands hc) rfl hk
  | optionalPresent item ih => exact ih hc hm hk
  | rule body ih =>
      obtain ⟨inner, rfl, rfl⟩ := Option.map_eq_some_iff.1 hm
      unfold Grammar.capture at hk
      split at hk
      · next hnamed =>
          cases hk with
          | here h =>
              rw [List.mem_singleton.1 h]
              exact .intro hnamed hc body
          | deeper h inside =>
              cases List.mem_singleton.1 h
              exact ih hc rfl inside
      · exact ih hc rfl hk
  | push item ih =>
      obtain ⟨inner, rfl, rfl⟩ := Option.map_eq_some_iff.1 hm
      exact ih hc rfl hk
  | sequenceFirst | sequenceNext | unlessPresent | popNone | peekNone
  | dropNone => cases hm
  | _ =>
      cases hm
      exact absurd hk Capture.Inside.not_nil

/-! ## Patterns taken apart -/

/-- A row of patterns is recognised item by item.  Unlike the match of a
sequence, which is nested, this gives all items at once. -/
def Pattern.Splits (call : R → Recogniser R) :
    Pattern R → Cursor → Match R → Prop
  | sequence first next, c, m =>
    ∃ m₁ m₂, first.recognise call c = some m₁ ∧ next.Splits call m₁.cursor m₂ ∧
      m = m₁.andThen m₂
  | p, c, m => p.recognise call c = some m

theorem Pattern.splits_iff {call : R → Recogniser R} (p : Pattern R)
    {c : Cursor} {m : Match R} :
    p.Splits call c m ↔ p.recognise call c = some m := by
  induction p generalizing c m with
  | sequence first next _ ihNext =>
      simp only [Splits, recognise, Option.bind_eq_some_iff,
        Option.map_eq_some_iff, ihNext]
      constructor
      · rintro ⟨m₁, m₂, hfirst, hnext, rfl⟩
        exact ⟨m₁, hfirst, m₂, hnext, rfl⟩
      · rintro ⟨m₁, hfirst, m₂, hnext, rfl⟩
        exact ⟨m₁, m₂, hfirst, hnext, rfl⟩
  | _ => exact Iff.rfl

namespace Grammar.Ranked

variable {g : Grammar R} {limit : Nat} (k : g.Ranked limit)
  (htake : ∀ r, (g.body r).repeatsTake k.empty = true)
include k htake

/-- **A pattern comes to what it is recognised as, and to nothing else**, as its
rules do. -/
theorem derives_pattern_iff {p : Pattern R} (hp : p.repeatsTake k.empty = true)
    (c : Cursor) (result : Option (Match R)) :
    Derives g p c result ↔ p.recognise (g.settled limit) c = result := by
  have hcalls : ∀ r c, Derives g (.rule r) c (g.settled limit r c) := fun r c =>
    (k.derives_iff htake r c _).2 rfl
  have hderives : Derives g p c (p.recognise (g.settled limit) c) :=
    p.recognise_derives k.settled_shortens hp
      ⟨fun r c _ => hcalls r c, fun r _ c _ => hcalls r c⟩
  constructor
  · intro h
    exact hderives.unique h
  · intro h
    rw [← h]
    exact hderives

end Grammar.Ranked

end TemplateJsx.Peg
