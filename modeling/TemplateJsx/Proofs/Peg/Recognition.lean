import TemplateJsx.Peg.Matcher
import TemplateJsx.Proofs.Text.Stands

/-!
# Recognition without bookkeeping

The attempts that a matcher carries along never decide whether it matches.
`Grammar.recognise` is the matcher without them, and `call_result` says that it
answers the same.

`Cursor.At t c` ties a cursor to the text it walks over: its offset is where
what is left of the text begins.  Reading a character or a word moves such a
cursor over just that (`Cursor.At.move`).
-/

namespace TemplateJsx.Peg

namespace Cursor

/-- The cursor stands in the text where its offset says.  A cursor holds the
rest of the text and an offset side by side, and nothing in its type says that
they belong together. -/
def At (t : Text) (c : Cursor) : Prop := t.dropTo? c.offset = some c.rest

theorem at_start (t : Text) : (start t).At t := by
  cases t <;> rfl

/-- A cursor moved over a word of what is left stands after that word. -/
theorem At.move {t w : Text} {c d : Cursor} (hc : c.At t)
    (hrest : c.rest = w ++ d.rest)
    (hoffset : d.offset = c.offset + Text.byteLength w) :
    d.At t ∧ t.Stands c.offset w d.offset := by
  obtain ⟨before, ht, hbefore⟩ := Text.dropTo?_eq_some.1 hc
  rw [hrest] at ht
  refine ⟨Text.dropTo?_eq_some.2 ⟨before ++ w, by simp [ht], ?_⟩,
    ⟨before, d.rest, ht, hbefore, hoffset⟩⟩
  rw [Text.byteLength_append, hbefore, hoffset]

theorem one?_eq_some {accepts : Char → Bool} {c d : Cursor}
    (h : c.one? accepts = some d) :
    ∃ x, accepts x = true ∧ c.rest = [x] ++ d.rest ∧
      d.offset = c.offset + Text.byteLength [x] ∧
      d.names = c.names := by
  unfold one? at h
  split at h
  · simp at h
  · next x rest hrest =>
      split at h
      · next hx =>
          cases h
          exact ⟨x, hx, by simpa using hrest, by simp, rfl⟩
      · simp at h

/-- Reading a word, whatever passes for its characters, is reading some stretch
of the text. -/
theorem word?_eq_some {same : Char → Char → Bool} {word : Text} {c d : Cursor}
    (h : word? same word c = some d) :
    ∃ w, c.rest = w ++ d.rest ∧ d.offset = c.offset + Text.byteLength w ∧
      d.names = c.names := by
  induction word generalizing c with
  | nil =>
      cases h
      exact ⟨[], rfl, rfl, rfl⟩
  | cons x word ih =>
      obtain ⟨m, hone, hword⟩ := Option.bind_eq_some_iff.1 h
      obtain ⟨y, -, hrest, hoffset, hnames⟩ := one?_eq_some hone
      obtain ⟨w, hrest', hoffset', hnames'⟩ := ih hword
      refine ⟨[y] ++ w, by simp [hrest, hrest'], ?_, hnames'.trans hnames⟩
      rw [hoffset', hoffset, Text.byteLength_append, Nat.add_assoc]

/-- Reading a word literally is reading the word itself. -/
theorem word?_beq_eq_some {word : Text} {c d : Cursor}
    (h : word? (· == ·) word c = some d) :
    c.rest = word ++ d.rest ∧ d.offset = c.offset + Text.byteLength word ∧
      d.names = c.names := by
  induction word generalizing c with
  | nil =>
      cases h
      exact ⟨rfl, rfl, rfl⟩
  | cons x word ih =>
      obtain ⟨m, hone, hword⟩ := Option.bind_eq_some_iff.1 h
      obtain ⟨y, hy, hrest, hoffset, hnames⟩ := one?_eq_some hone
      obtain ⟨hrest', hoffset', hnames'⟩ := ih hword
      have hxy : x = y := eq_of_beq hy
      refine ⟨by simp [hrest, hrest', hxy], ?_, hnames'.trans hnames⟩
      rw [hoffset', hoffset, hxy]
      simp [Nat.add_assoc]

end Cursor

variable {R : Type}

/-- A way to match at a cursor, without any record of attempts. -/
abbrev Recogniser (R : Type) := Cursor → Option (Match R)

/-- Repeats a recogniser until it fails, at most `n` times. -/
def Recogniser.repeat (item : Recogniser R) : Nat → Cursor → Match R
  | 0, c => .plain c
  | n + 1, c =>
    match item c with
    | none => .plain c
    | some m =>
      let m' := Recogniser.repeat item n m.cursor
      ⟨m'.cursor, m.captures ++ m'.captures⟩

namespace Pattern

/-- Matches a pattern, with `call` for the rules it refers to.  This is
`Pattern.run` without the attempts, which is how results are argued about. -/
def recognise (call : R → Recogniser R) : Pattern R → Recogniser R
  | literal word, c => (c.word? (· == ·) word).map .plain
  | caseless word, c => (c.word? Cursor.sameLetter word).map .plain
  | one accepts, c => (c.one? accepts).map .plain
  | empty, c => some (.plain c)
  | sequence first next, c =>
    (first.recognise call c).bind fun m =>
      (next.recognise call m.cursor).map fun m' =>
        ⟨m'.cursor, m.captures ++ m'.captures⟩
  | choice first other, c =>
    (first.recognise call c).or (other.recognise call c)
  | many item, c =>
    some (Recogniser.repeat (item.recognise call) (c.rest.length + 1) c)
  | optional item, c => (item.recognise call c).or (some (.plain c))
  | .unless item, c =>
    if (item.recognise call c).isSome then none else some (.plain c)
  | rule name, c => call name c
  | atStart, c => if c.offset = 0 then some (.plain c) else none
  | atEnd, c => if c.rest = [] then some (.plain c) else none
  | push item, c =>
    (item.recognise call c).map fun m =>
      ⟨{ m.cursor with
        names := c.between m.cursor :: m.cursor.names }, m.captures⟩
  | pop, c =>
    match c.names with
    | [] => none
    | name :: names =>
      (c.word? (· == ·) name).map fun d => .plain { d with names }
  | peek, c =>
    match c.names with
    | [] => none
    | name :: _ => (c.word? (· == ·) name).map .plain
  | drop, c =>
    match c.names with
    | [] => none
    | _ :: names => some (.plain { c with names })

end Pattern

/-- Matches a rule, at most `depth` calls deep, without the attempts. -/
def Grammar.recognise (g : Grammar R) : Nat → R → Recogniser R
  | 0, _, _ => none
  | depth + 1, r, c =>
    ((g.body r).recognise (g.recognise depth) c).map fun m =>
      if g.isNamed r then ⟨m.cursor,
        [.mk r ⟨c.offset, m.cursor.offset⟩ m.captures]⟩ else m

/-! ## What a match is made of

One lemma for each operator says what must have happened for it to match. -/

namespace Pattern

variable {call : R → Recogniser R} {first next other item : Pattern R}
  {c : Cursor} {m : Match R}

theorem exists_of_sequence
    (h : (sequence first next).recognise call c = some m) :
    ∃ m₁ m₂, first.recognise call c = some m₁ ∧
      next.recognise call m₁.cursor = some m₂ ∧
      m = ⟨m₂.cursor, m₁.captures ++ m₂.captures⟩ := by
  obtain ⟨m₁, hfirst, hrest⟩ := Option.bind_eq_some_iff.1 h
  obtain ⟨m₂, hnext, rfl⟩ := Option.map_eq_some_iff.1 hrest
  exact ⟨m₁, m₂, hfirst, hnext, rfl⟩

theorem or_of_choice (h : (choice first other).recognise call c = some m) :
    first.recognise call c = some m ∨ other.recognise call c = some m :=
  (Option.or_eq_some_iff.1 h).imp_right And.right

theorem or_of_optional (h : (optional item).recognise call c = some m) :
    item.recognise call c = some m ∨ m = .plain c := by
  rcases Option.or_eq_some_iff.1 h with hitem | ⟨-, hplain⟩
  · exact Or.inl hitem
  · exact Or.inr (Option.some.inj hplain).symm

theorem eq_of_unless (h : (Pattern.unless item).recognise call c = some m) :
    m = .plain c := by
  simp only [recognise] at h
  split at h
  · cases h
  · exact (Option.some.inj h).symm

theorem eq_of_atStart (h : (atStart : Pattern R).recognise call c = some m) :
    c.offset = 0 ∧ m = .plain c := by
  obtain ⟨hzero, heq⟩ := Option.ite_none_right_eq_some.1 h
  exact ⟨hzero, (Option.some.inj heq).symm⟩

theorem eq_of_atEnd (h : (atEnd : Pattern R).recognise call c = some m) :
    c.rest = [] ∧ m = .plain c := by
  obtain ⟨hend, heq⟩ := Option.ite_none_right_eq_some.1 h
  exact ⟨hend, (Option.some.inj heq).symm⟩

theorem exists_of_push (h : (push item).recognise call c = some m) :
    ∃ m₁, item.recognise call c = some m₁ ∧ m.captures = m₁.captures ∧
      m.cursor = { m₁.cursor with
        names := c.between m₁.cursor :: m₁.cursor.names } := by
  obtain ⟨m₁, hitem, rfl⟩ := Option.map_eq_some_iff.1 h
  exact ⟨m₁, hitem, rfl, rfl⟩

theorem exists_of_pop (h : (pop : Pattern R).recognise call c = some m) :
    ∃ name names d, c.names = name :: names ∧
      c.word? (· == ·) name = some d ∧ m = .plain { d with names } := by
  cases hnames : c.names with
  | nil => simp [recognise, hnames] at h
  | cons name names =>
      simp only [recognise, hnames] at h
      obtain ⟨d, hd, rfl⟩ := Option.map_eq_some_iff.1 h
      exact ⟨name, names, d, rfl, hd, rfl⟩

theorem exists_of_peek (h : (peek : Pattern R).recognise call c = some m) :
    ∃ name d, c.word? (· == ·) name = some d ∧ m = .plain d := by
  cases hnames : c.names with
  | nil => simp [recognise, hnames] at h
  | cons name names =>
      simp only [recognise, hnames] at h
      obtain ⟨d, hd, rfl⟩ := Option.map_eq_some_iff.1 h
      exact ⟨name, d, hd, rfl⟩

theorem exists_of_drop (h : (drop : Pattern R).recognise call c = some m) :
    ∃ name names, c.names = name :: names ∧ m = .plain { c with names } := by
  cases hnames : c.names with
  | nil => simp [recognise, hnames] at h
  | cons name names =>
      simp only [recognise, hnames] at h
      exact ⟨name, names, rfl, (Option.some.inj h).symm⟩

end Pattern

/-- A repetition stops only where its item fails, if every round takes some of
the text.  So the bound on rounds is never what ends it. -/
theorem Recogniser.repeat_stops {item : Recogniser R}
    (hitem : ∀ c m, item c = some m → m.cursor.rest.length < c.rest.length)
    (n : Nat) (c : Cursor) (hn : c.rest.length < n) :
    item (item.repeat n c).cursor = none := by
  induction n generalizing c with
  | zero => omega
  | succ n ih =>
      cases hm : item c with
      | none => simp [Recogniser.repeat, hm, Match.plain]
      | some m =>
          have hshort := hitem c m hm
          simpa [Recogniser.repeat, hm] using ih m.cursor (by omega)

/-! ## The attempts decide nothing -/

/-- A repetition always matches, and as its items do. -/
theorem Matcher.repeat_result {item : Matcher R} {item' : Recogniser R}
    (h : ∀ c a, (item c a).result = item' c) (n : Nat) (c : Cursor)
    (a : Attempts R) :
    (Matcher.repeat item n c a).result =
      some (Recogniser.repeat item' n c) := by
  induction n generalizing c a with
  | zero => rfl
  | succ n ih =>
      have hc := h c a
      cases hout : item c a with
      | mk a₁ result =>
          rw [hout] at hc
          cases result with
          | none => simp [Matcher.repeat, Recogniser.repeat, hout, ← hc]
          | some m =>
              have hrest := ih m.cursor a₁
              cases hnext : Matcher.repeat item n m.cursor a₁ with
              | mk a₂ result₂ =>
                  rw [hnext] at hrest
                  simp only at hrest
                  simp [Matcher.repeat, Recogniser.repeat, hout,
                    hnext, ← hc, hrest]

namespace Pattern

/-- **The attempts decide nothing.**  A pattern matches as it does without them,
if the rules do, so whatever is proved of the recogniser holds of the matcher
that runs. -/
theorem run_result {call : R → Matcher R} {call' : R → Recogniser R}
    (h : ∀ r c a, (call r c a).result = call' r c) (p : Pattern R) (c : Cursor)
    (a : Attempts R) :
    (p.run call c a).result = p.recognise call' c := by
  induction p generalizing c a with
  | sequence first next ihFirst ihNext =>
      have hfirst := ihFirst c a
      cases hout : first.run call c a with
      | mk a₁ result =>
          rw [hout] at hfirst
          cases result with
          | none => simp [run, recognise, hout, ← hfirst]
          | some m =>
              have hnext := ihNext m.cursor a₁
              cases hout' : next.run call m.cursor a₁ with
              | mk a₂ result₂ =>
                  rw [hout'] at hnext
                  cases result₂ <;>
                    simp [run, recognise, hout, hout', ← hfirst, ← hnext]
  | choice first other ihFirst ihOther =>
      have hfirst := ihFirst c a
      cases hout : first.run call c a with
      | mk a₁ result =>
          rw [hout] at hfirst
          cases result with
          | none => simp [run, recognise, hout, ← hfirst, ihOther c a₁]
          | some m => simp [run, recognise, hout, ← hfirst]
  | many item ih => exact Matcher.repeat_result ih _ c a
  | optional item ih =>
      have hitem := ih c a
      cases hout : item.run call c a with
      | mk a₁ result =>
          rw [hout] at hitem
          cases result <;> simp [run, recognise, hout, ← hitem]
  | «unless» item ih =>
      have hitem := ih c a
      cases hout : item.run call c a with
      | mk a₁ result =>
          rw [hout] at hitem
          cases result <;> simp [run, recognise, hout, ← hitem]
  | rule name => exact h name c a
  | push item ih =>
      have hitem := ih c a
      cases hout : item.run call c a with
      | mk a₁ result =>
          rw [hout] at hitem
          cases result <;> simp [run, recognise, hout, ← hitem]
  | pop => cases hnames : c.names <;> simp [run, recognise, hnames]
  | peek => cases hnames : c.names <;> simp [run, recognise, hnames]
  | drop => cases hnames : c.names <;> simp [run, recognise, hnames]
  | _ => rfl

end Pattern

/-- A rule matches as it does without attempts. -/
theorem Grammar.call_result (g : Grammar R) (depth : Nat) (r : R) (c : Cursor)
    (a : Attempts R) :
    (g.call depth r c a).result = g.recognise depth r c := by
  induction depth generalizing r c a with
  | zero => rfl
  | succ depth ih =>
      have hbody := Pattern.run_result ih (g.body r) c a
      cases hout : (g.body r).run (g.call depth) c a with
      | mk a₁ result =>
          rw [hout] at hbody
          cases result with
          | none => simp [Grammar.call, Grammar.recognise, hout, ← hbody]
          | some m =>
              cases hnamed : g.isNamed r <;>
                simp [Grammar.call, Grammar.recognise, hout, ← hbody, hnamed]

end TemplateJsx.Peg
