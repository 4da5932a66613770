import TemplateJsx.Proofs.Peg.Recognition

/-!
# What a successful match says about the text

`Pattern.Reads` is the positive half of matching: between which offsets of a
text a pattern may lie, given where the rules may lie, and which values the
rules inside it leave behind.  It forgets that choices are ordered and that
repetition is greedy, so it says less than a match does; in return it speaks of
the text alone and opens by the structure of the pattern.

`Pattern.recognise_reads` is the bridge: whatever is recognised is read.
-/

namespace TemplateJsx.Peg

variable {R P : Type}

/-- A reading of one item after another, each from where the one before it
stopped. -/
inductive Rounds (t : Text) (item : Nat → Nat → List P → Prop) :
    Nat → Nat → List P → Prop
  | done {s e : Nat} (h : t.Stands s [] e) : Rounds t item s e []
  | next {s m e : Nat} {ps qs : List P} (first : item s m ps)
      (rest : Rounds t item m e qs) :
      Rounds t item s e (ps ++ qs)

/-- Where a pattern may lie in a text and what its rules leave behind.
Lookahead, the order of choices and the names are left out, so a pattern reads
wherever it is recognised but not the other way round. -/
def Pattern.Reads (t : Text) (rules : R → Nat → Nat → List P → Prop) :
    Pattern R → Nat → Nat → List P → Prop
  | literal word, s, e, ps => t.Stands s word e ∧ ps = []
  | caseless _, s, e, ps => (∃ w, t.Stands s w e) ∧ ps = []
  | one accepts, s, e, ps =>
    (∃ x, accepts x = true ∧ t.Stands s [x] e) ∧ ps = []
  | empty, s, e, ps => t.Stands s [] e ∧ ps = []
  | sequence first next, s, e, ps =>
    ∃ m qs rs, first.Reads t rules s m qs ∧ next.Reads t rules m e rs ∧
      ps = qs ++ rs
  | choice first other, s, e, ps =>
    first.Reads t rules s e ps ∨ other.Reads t rules s e ps
  | many item, s, e, ps => Rounds t (item.Reads t rules) s e ps
  | optional item, s, e, ps =>
    item.Reads t rules s e ps ∨ (t.Stands s [] e ∧ ps = [])
  | .unless _, s, e, ps => t.Stands s [] e ∧ ps = []
  | rule name, s, e, ps => rules name s e ps
  | atStart, s, e, ps => t.Stands s [] e ∧ s = 0 ∧ ps = []
  | atEnd, s, e, ps => t.Stands s [] e ∧ e = t.byteLength ∧ ps = []
  | push item, s, e, ps => item.Reads t rules s e ps
  | pop, s, e, ps => (∃ w, t.Stands s w e) ∧ ps = []
  | peek, s, e, ps => (∃ w, t.Stands s w e) ∧ ps = []
  | drop, s, e, ps => t.Stands s [] e ∧ ps = []

variable {t : Text} {rules : R → Nat → Nat → List P → Prop}

/-- Rounds of items that stand in the text stand in the text. -/
theorem Rounds.stands {item : Nat → Nat → List P → Prop}
    (hitem : ∀ s e ps, item s e ps → ∃ w, t.Stands s w e) {s e : Nat}
    {ps : List P} (h : Rounds t item s e ps) : ∃ w, t.Stands s w e := by
  induction h with
  | done h => exact ⟨[], h⟩
  | next first rest ih =>
      obtain ⟨v, hv⟩ := hitem _ _ _ first
      obtain ⟨w, hw⟩ := ih
      exact ⟨v ++ w, hv.append hw⟩

theorem Pattern.Reads.stands
    (hrules : ∀ r s e ps, rules r s e ps → ∃ w, t.Stands s w e) {p : Pattern R}
    {s e : Nat} {ps : List P} (h : p.Reads t rules s e ps) :
    ∃ w, t.Stands s w e := by
  induction p generalizing s e ps with
  | literal word => exact ⟨word, h.1⟩
  | one accepts =>
      obtain ⟨⟨x, -, hx⟩, -⟩ := h
      exact ⟨[x], hx⟩
  | sequence first next ihFirst ihNext =>
      obtain ⟨m, qs, rs, hfirst, hnext, -⟩ := h
      obtain ⟨v, hv⟩ := ihFirst hfirst
      obtain ⟨w, hw⟩ := ihNext hnext
      exact ⟨v ++ w, hv.append hw⟩
  | choice first other ihFirst ihOther =>
      rcases h with h | h
      · exact ihFirst h
      · exact ihOther h
  | many item ih => exact Rounds.stands (fun _ _ _ => ih) h
  | optional item ih =>
      rcases h with h | h
      · exact ih h
      · exact ⟨[], h.1⟩
  | rule name => exact hrules _ _ _ _ h
  | push item ih => exact ih h
  | caseless word => exact h.1
  | pop => exact h.1
  | peek => exact h.1
  | _ => exact ⟨[], h.1⟩

/-! ## Other values -/

section Values

variable {Q : Type} {rules' : R → Nat → Nat → List Q → Prop} {f : P → Q}

theorem Rounds.map {item : Nat → Nat → List P → Prop}
    {item' : Nat → Nat → List Q → Prop}
    (hitem : ∀ s e ps, item s e ps → item' s e (ps.map f)) {s e : Nat}
    {ps : List P} (h : Rounds t item s e ps) :
    Rounds t item' s e (ps.map f) := by
  induction h with
  | done h => exact .done h
  | next first rest ih =>
      rw [List.map_append]
      exact .next (hitem _ _ _ first) ih

/-- A pattern reads the images of what it reads, if the rules do. -/
theorem Pattern.Reads.map
    (hrules : ∀ r s e ps, rules r s e ps → rules' r s e (ps.map f))
    {p : Pattern R} {s e : Nat} {ps : List P} (h : p.Reads t rules s e ps) :
    p.Reads t rules' s e (ps.map f) := by
  induction p generalizing s e ps with
  | sequence first next ihFirst ihNext =>
      obtain ⟨m, qs, rs, hfirst, hnext, rfl⟩ := h
      exact ⟨m, qs.map f, rs.map f, ihFirst hfirst, ihNext hnext,
        List.map_append⟩
  | choice first other ihFirst ihOther =>
      rcases h with h | h
      · exact Or.inl (ihFirst h)
      · exact Or.inr (ihOther h)
  | many item ih =>
      have hrounds : Rounds t (item.Reads t rules) s e ps := h
      exact hrounds.map fun _ _ _ hitem => ih hitem
  | optional item ih =>
      rcases h with h | ⟨h, rfl⟩
      · exact Or.inl (ih h)
      · exact Or.inr ⟨h, rfl⟩
  | rule name => exact hrules _ _ _ _ h
  | push item ih => exact ih h
  | atStart =>
      obtain ⟨h, hzero, rfl⟩ := h
      exact ⟨h, hzero, rfl⟩
  | atEnd =>
      obtain ⟨h, hend, rfl⟩ := h
      exact ⟨h, hend, rfl⟩
  | _ =>
      obtain ⟨h, rfl⟩ := h
      exact ⟨h, rfl⟩

theorem Rounds.forall_mem {item : Nat → Nat → List P → Prop} {good : P → Prop}
    (hitem : ∀ s e ps, item s e ps → ∀ x ∈ ps, good x) {s e : Nat} {ps : List P}
    (h : Rounds t item s e ps) :
    ∀ x ∈ ps, good x := by
  induction h with
  | done h => simp
  | next first rest ih => exact List.forall_mem_append.2 ⟨hitem _ _ _ first, ih⟩

/-- What holds of all values that the rules leave behind holds of all that a
pattern reads. -/
theorem Pattern.Reads.forall_mem {good : P → Prop}
    (hrules : ∀ r s e ps, rules r s e ps → ∀ x ∈ ps, good x) {p : Pattern R}
    {s e : Nat} {ps : List P} (h : p.Reads t rules s e ps) :
    ∀ x ∈ ps, good x := by
  induction p generalizing s e ps with
  | sequence first next ihFirst ihNext =>
      obtain ⟨m, qs, rs, hfirst, hnext, rfl⟩ := h
      exact List.forall_mem_append.2 ⟨ihFirst hfirst, ihNext hnext⟩
  | choice first other ihFirst ihOther =>
      rcases h with h | h
      · exact ihFirst h
      · exact ihOther h
  | many item ih => exact Rounds.forall_mem (fun _ _ _ => ih) h
  | optional item ih =>
      rcases h with h | ⟨-, rfl⟩
      · exact ih h
      · simp
  | rule name => exact hrules _ _ _ _ h
  | push item ih => exact ih h
  | atStart =>
      obtain ⟨-, -, rfl⟩ := h
      simp
  | atEnd =>
      obtain ⟨-, -, rfl⟩ := h
      simp
  | _ =>
      obtain ⟨-, rfl⟩ := h
      simp

end Values

/-! ## Recognised means read -/

section Bridge

variable {call : R → Recogniser R} {value : List (Capture R) → Option (List P)}

/-- A matched stretch holds: the cursor stands in the text, the captures have
values and the reading fits.  It ties the two sides together, of which one is
about cursors and captures and the other about offsets and values. -/
def Held (t : Text) (value : List (Capture R) → Option (List P))
    (reads : Nat → Nat → List P → Prop) (c : Cursor) (m : Match R) : Prop :=
  m.cursor.At t ∧
    ∃ ps, value m.captures = some ps ∧ reads c.offset m.cursor.offset ps

/-- Every match of a recogniser holds, wherever in the text it starts. -/
def Recogniser.Holds (t : Text) (value : List (Capture R) → Option (List P))
    (reads : Nat → Nat → List P → Prop) (item : Recogniser R) : Prop :=
  ∀ c m, c.At t → item c = some m → Held t value reads c m

variable (hnil : value [] = some [])
  (happend : ∀ {xs ys ps qs}, value xs = some ps → value ys = some qs →
    value (xs ++ ys) = some (ps ++ qs))

theorem Held.imp {reads reads' : Nat → Nat → List P → Prop} {c : Cursor}
    {m : Match R} (h : Held t value reads c m)
    (himp : ∀ s e ps, reads s e ps → reads' s e ps) :
    Held t value reads' c m := by
  obtain ⟨hcursor, ps, hps, hreads⟩ := h
  exact ⟨hcursor, ps, hps, himp _ _ _ hreads⟩

include hnil in
/-- A plain move over a word is held by what the word satisfies. -/
theorem held_plain {reads : Nat → Nat → List P → Prop} {c d : Cursor}
    {w : Text} (hc : c.At t) (hrest : c.rest = w ++ d.rest)
    (hoffset : d.offset = c.offset + Text.byteLength w)
    (hreads : t.Stands c.offset w d.offset → reads c.offset d.offset []) :
    Held t value reads c (.plain d) := by
  obtain ⟨hd, hw⟩ := hc.move hrest hoffset
  exact ⟨hd, [], hnil, hreads hw⟩

include hnil in
theorem held_still {reads : Nat → Nat → List P → Prop} {c : Cursor}
    (names : List Text) (hc : c.At t)
    (hreads : t.Stands c.offset [] c.offset → reads c.offset c.offset []) :
    Held t value reads c (.plain { c with names }) :=
  held_plain hnil hc (w := []) rfl rfl hreads

namespace Recogniser.Holds

variable {first next other item : Pattern R}

include happend in
theorem sequence
    (hfirst : (first.recognise call).Holds t value (first.Reads t rules))
    (hnext : (next.recognise call).Holds t value (next.Reads t rules)) :
    ((Pattern.sequence first next).recognise call).Holds t value
      ((Pattern.sequence first next).Reads t rules) := by
  intro c m hc h
  obtain ⟨m₁, m₂, hm₁, hm₂, rfl⟩ := Pattern.exists_of_sequence h
  obtain ⟨hcursor, ps, hps, hreads⟩ := hfirst c m₁ hc hm₁
  obtain ⟨hcursor', qs, hqs, hreads'⟩ := hnext m₁.cursor m₂ hcursor hm₂
  exact ⟨hcursor', ps ++ qs, happend hps hqs, _, ps, qs, hreads, hreads', rfl⟩

theorem choice
    (hfirst : (first.recognise call).Holds t value (first.Reads t rules))
    (hother : (other.recognise call).Holds t value (other.Reads t rules)) :
    ((Pattern.choice first other).recognise call).Holds t value
      ((Pattern.choice first other).Reads t rules) := by
  intro c m hc h
  rcases Pattern.or_of_choice h with hm | hm
  · exact (hfirst c m hc hm).imp fun _ _ _ => Or.inl
  · exact (hother c m hc hm).imp fun _ _ _ => Or.inr

include hnil happend in
/-- A repetition reads rounds of what its item reads. -/
theorem «repeat» {item : Recogniser R} {reads : Nat → Nat → List P → Prop}
    (hitem : item.Holds t value reads) (n : Nat) {c : Cursor} (hc : c.At t) :
    Held t value (Rounds t reads) c (item.repeat n c) := by
  induction n generalizing c with
  | zero => exact held_still hnil c.names hc .done
  | succ n ih =>
      cases hm : item c with
      | none =>
          simp only [Recogniser.repeat, hm]
          exact held_still hnil c.names hc .done
      | some m =>
          obtain ⟨hcursor, ps, hps, hreads⟩ := hitem c m hc hm
          obtain ⟨hcursor', qs, hqs, hrounds⟩ := ih hcursor
          simp only [Recogniser.repeat, hm]
          exact ⟨hcursor', ps ++ qs, happend hps hqs, .next hreads hrounds⟩

include hnil in
theorem optional
    (hitem : (item.recognise call).Holds t value (item.Reads t rules)) :
    ((Pattern.optional item).recognise call).Holds t value
      ((Pattern.optional item).Reads t rules) := by
  intro c m hc h
  rcases Pattern.or_of_optional h with hm | rfl
  · exact (hitem c m hc hm).imp fun _ _ _ => Or.inl
  · exact held_still hnil c.names hc fun hw => Or.inr ⟨hw, rfl⟩

include hnil in
/-- At the end of the text the offset is its length. -/
theorem atEnd : ((Pattern.atEnd : Pattern R).recognise call).Holds t value
    (Pattern.atEnd.Reads t rules) := by
  intro c m hc h
  obtain ⟨hend, rfl⟩ := Pattern.eq_of_atEnd h
  refine held_still hnil c.names hc fun hw => ⟨hw, ?_, rfl⟩
  have hstop := Text.Stands.of_dropTo? hc
  rw [hend] at hstop
  simpa using hstop.stop_eq.symm

end Recogniser.Holds

include hnil happend in
/-- **Whatever is recognised is read**, if that holds of the rules: from here
on, what a grammar accepts can be argued about by what its patterns read. -/
theorem Pattern.recognise_reads
    (hcall : ∀ r, (call r).Holds t value (rules r)) (p : Pattern R) :
    (p.recognise call).Holds t value (p.Reads t rules) := by
  induction p with
  | literal word =>
      intro c m hc h
      obtain ⟨d, hd, rfl⟩ := Option.map_eq_some_iff.1 h
      obtain ⟨hrest, hoffset, -⟩ := Cursor.word?_beq_eq_some hd
      exact held_plain hnil hc hrest hoffset fun hw => ⟨hw, rfl⟩
  | caseless word =>
      intro c m hc h
      obtain ⟨d, hd, rfl⟩ := Option.map_eq_some_iff.1 h
      obtain ⟨w, hrest, hoffset, -⟩ := Cursor.word?_eq_some hd
      exact held_plain hnil hc hrest hoffset fun hw => ⟨⟨w, hw⟩, rfl⟩
  | one accepts =>
      intro c m hc h
      obtain ⟨d, hd, rfl⟩ := Option.map_eq_some_iff.1 h
      obtain ⟨x, hx, hrest, hoffset, -⟩ := Cursor.one?_eq_some hd
      exact held_plain hnil hc hrest hoffset fun hw => ⟨⟨x, hx, hw⟩, rfl⟩
  | empty =>
      intro c m hc h
      cases h
      exact held_still hnil c.names hc fun hw => ⟨hw, rfl⟩
  | sequence first next ihFirst ihNext => exact ihFirst.sequence happend ihNext
  | choice first other ihFirst ihOther => exact ihFirst.choice ihOther
  | many item ih =>
      intro c m hc h
      cases h
      exact ih.repeat hnil happend _ hc
  | optional item ih => exact ih.optional hnil
  | «unless» item ih =>
      -- The item was not recognised, which a reading does not record.
      intro c m hc h
      rw [eq_of_unless h]
      exact held_still hnil c.names hc fun hw => ⟨hw, rfl⟩
  | rule name => exact hcall name
  | atStart =>
      intro c m hc h
      obtain ⟨hzero, rfl⟩ := eq_of_atStart h
      exact held_still hnil c.names hc fun hw => ⟨hw, hzero, rfl⟩
  | atEnd => exact .atEnd hnil
  | push item ih =>
      intro c m hc h
      obtain ⟨m₁, hitem, hcaptures, hcursor⟩ := exists_of_push h
      obtain ⟨hlands, ps, hps, hreads⟩ := ih c m₁ hc hitem
      unfold Held
      rw [hcaptures, hcursor]
      exact ⟨hlands, ps, hps, hreads⟩
  | pop =>
      intro c m hc h
      obtain ⟨name, names, d, -, hd, rfl⟩ := exists_of_pop h
      obtain ⟨hrest, hoffset, -⟩ := Cursor.word?_beq_eq_some hd
      exact held_plain hnil hc hrest hoffset fun hw => ⟨⟨name, hw⟩, rfl⟩
  | peek =>
      intro c m hc h
      obtain ⟨name, d, hd, rfl⟩ := exists_of_peek h
      obtain ⟨hrest, hoffset, -⟩ := Cursor.word?_beq_eq_some hd
      exact held_plain hnil hc hrest hoffset fun hw => ⟨⟨name, hw⟩, rfl⟩
  | drop =>
      intro c m hc h
      obtain ⟨name, names, -, rfl⟩ := exists_of_drop h
      exact held_still hnil names hc fun hw => ⟨hw, rfl⟩

end Bridge

end TemplateJsx.Peg
