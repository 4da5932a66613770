import TemplateJsx.Proofs.Peg.Recognition

/-!
# Remembered names are put back

A pattern may remember names and forget them again.  How many of them there are
on top of those that it started with is counted along the pattern:
`Pattern.height d p` is the count after `p`, if it was `d` before, and `none`
where a name would be taken that is not one of them, or where two ways through
the pattern come to different counts.

In a level grammar every rule ends as high as it started.  So whatever a rule
tries on its way, it leaves the names as they were
(`Grammar.Level.recognise_names`).
-/

namespace TemplateJsx.Peg

variable {R : Type}

/-- How many names are remembered after a pattern, if there were `d` of them
before it.  A rule is taken to leave them as they were, and there is no height
where two ways through the pattern would end differently. -/
def Pattern.height : Nat → Pattern R → Option Nat
  | d, sequence first next => (first.height d).bind fun e => next.height e
  | d, choice first other =>
    if first.height d = other.height d then first.height d else none
  | d, many item => if item.height d = some d then some d else none
  | d, optional item => if item.height d = some d then some d else none
  | d, push item => (item.height d).map (· + 1)
  | d, pop => if d = 0 then none else some (d - 1)
  | d, drop => if d = 0 then none else some (d - 1)
  | d, _ => some d

/-- Every rule of the grammar leaves as many names as it found.  For a given
grammar this is a computation, rule by rule. -/
def Grammar.Level (g : Grammar R) : Prop := ∀ r, (g.body r).height 0 = some 0

/-- The names at two cursors are the same but for the first `d` of the one and
the first `e` of the other, which belong to the pattern in between. -/
structure Cursor.SameBelow (d e : Nat) (c c' : Cursor) : Prop where
  names : c'.names.drop e = c.names.drop d
  enough : e ≤ c'.names.length

namespace Cursor.SameBelow

variable {d e k : Nat} {c c' c'' : Cursor}

theorem refl (h : d ≤ c.names.length) : SameBelow d d c c := ⟨rfl, h⟩

theorem trans (h : SameBelow d e c c') (h' : SameBelow e k c' c'') :
    SameBelow d k c c'' :=
  ⟨h'.names.trans h.names, h'.enough⟩

theorem of_names_eq (h : d ≤ c.names.length) (hnames : c'.names = c.names) :
    SameBelow d d c c' :=
  ⟨by rw [hnames], by rw [hnames]; exact h⟩

theorem of_names_cons {name : Text} (h : d ≤ c.names.length) (hd : d ≠ 0)
    (hnames : c.names = name :: c'.names) :
    SameBelow d (d - 1) c c' := by
  obtain ⟨n, rfl⟩ := Nat.exists_eq_succ_of_ne_zero hd
  rw [hnames] at h
  exact ⟨by rw [hnames]; rfl, Nat.le_of_succ_le_succ h⟩

end Cursor.SameBelow

/-- A recogniser that starts with `d` names of its own on top of others ends
with `e` of its own, on top of the same others. -/
def Recogniser.Raises (item : Recogniser R) (d e : Nat) : Prop :=
  ∀ c m, d ≤ c.names.length → item c = some m → c.SameBelow d e m.cursor

namespace Recogniser.Raises

variable {call : R → Recogniser R} {first next other item : Pattern R}
  {d e k : Nat}

theorem of_names {item : Recogniser R}
    (h : ∀ c m, item c = some m → m.cursor.names = c.names) :
    item.Raises d d :=
  fun c m hc hm => .of_names_eq hc (h c m hm)

theorem word (same : Char → Char → Bool) (word : Text) :
    Recogniser.Raises (R := R)
      (fun c => (c.word? same word).map .plain) d d := by
  refine of_names fun c m hm => ?_
  obtain ⟨c', hc', rfl⟩ := Option.map_eq_some_iff.1 hm
  obtain ⟨-, -, -, hnames⟩ := Cursor.word?_eq_some hc'
  exact hnames

theorem sequence (hfirst : (first.recognise call).Raises d k)
    (hnext : (next.recognise call).Raises k e) :
    ((Pattern.sequence first next).recognise call).Raises d e := by
  intro c m hc h
  obtain ⟨m₁, m₂, hm₁, hm₂, rfl⟩ := Pattern.exists_of_sequence h
  have hbefore := hfirst c m₁ hc hm₁
  exact hbefore.trans (hnext m₁.cursor m₂ hbefore.enough hm₂)

/-- Both alternatives start from the same cursor, whatever the first one did
before it failed. -/
theorem choice (hfirst : (first.recognise call).Raises d e)
    (hother : (other.recognise call).Raises d e) :
    ((Pattern.choice first other).recognise call).Raises d e := by
  intro c m hc h
  rcases Pattern.or_of_choice h with hm | hm
  · exact hfirst c m hc hm
  · exact hother c m hc hm

/-- A repetition keeps the names, if its item does. -/
theorem «repeat» {item : Recogniser R} (hitem : item.Raises d d) (n : Nat)
    {c : Cursor} (hc : d ≤ c.names.length) :
    c.SameBelow d d (item.repeat n c).cursor := by
  induction n generalizing c with
  | zero => exact .refl hc
  | succ n ih =>
      cases hm : item c with
      | none =>
          simp only [Recogniser.repeat, hm]
          exact .refl hc
      | some m =>
          have hfirst := hitem c m hc hm
          simp only [Recogniser.repeat, hm]
          exact hfirst.trans (ih hfirst.enough)

theorem many (hitem : (item.recognise call).Raises d d) :
    ((Pattern.many item).recognise call).Raises d d := by
  intro c m hc h
  cases h
  exact hitem.repeat _ hc

theorem optional (hitem : (item.recognise call).Raises d d) :
    ((Pattern.optional item).recognise call).Raises d d := by
  intro c m hc h
  rcases Pattern.or_of_optional h with hm | rfl
  · exact hitem c m hc hm
  · exact .refl hc

theorem push (hitem : (item.recognise call).Raises d e) :
    ((Pattern.push item).recognise call).Raises d (e + 1) := by
  intro c m hc h
  obtain ⟨m₁, hm₁, -, hcursor⟩ := Pattern.exists_of_push h
  obtain ⟨hnames, henough⟩ := hitem c m₁ hc hm₁
  rw [hcursor]
  exact ⟨hnames, Nat.succ_le_succ henough⟩

theorem pop (hd : d ≠ 0) :
    ((Pattern.pop : Pattern R).recognise call).Raises d (d - 1) := by
  intro c m hc h
  obtain ⟨name, names, c', hnames, -, rfl⟩ := Pattern.exists_of_pop h
  exact .of_names_cons hc hd hnames

theorem drop (hd : d ≠ 0) :
    ((Pattern.drop : Pattern R).recognise call).Raises d (d - 1) := by
  intro c m hc h
  obtain ⟨name, names, hnames, rfl⟩ := Pattern.exists_of_drop h
  exact .of_names_cons hc hd hnames

end Recogniser.Raises

section Patterns

variable {call : R → Recogniser R}
  (hcall : ∀ r c m, call r c = some m → m.cursor.names = c.names)
include hcall

/-- **A pattern changes the names as its height says**, and those below not at
all: what it has counted on is still there when it is done. -/
theorem Pattern.recognise_raises (p : Pattern R) {d e : Nat}
    (hp : p.height d = some e) : (p.recognise call).Raises d e := by
  induction p generalizing d e with
  | literal word =>
      cases hp
      exact .word (· == ·) word
  | caseless word =>
      cases hp
      exact .word Cursor.sameLetter word
  | one accepts =>
      cases hp
      refine .of_names fun c m h => ?_
      obtain ⟨c', hc', rfl⟩ := Option.map_eq_some_iff.1 h
      obtain ⟨-, -, -, -, hnames⟩ := Cursor.one?_eq_some hc'
      exact hnames
  | sequence first next ihFirst ihNext =>
      obtain ⟨k, hfirst, hnext⟩ := Option.bind_eq_some_iff.1 hp
      exact (ihFirst hfirst).sequence (ihNext hnext)
  | choice first other ihFirst ihOther =>
      obtain ⟨heq, hp⟩ := Option.ite_none_right_eq_some.1 hp
      exact (ihFirst hp).choice (ihOther (heq ▸ hp))
  | many item ih =>
      obtain ⟨hitem, hp⟩ := Option.ite_none_right_eq_some.1 hp
      cases hp
      exact (ih hitem).many
  | optional item ih =>
      obtain ⟨hitem, hp⟩ := Option.ite_none_right_eq_some.1 hp
      cases hp
      exact (ih hitem).optional
  | «unless» item ih =>
      cases hp
      exact .of_names fun c m h => by rw [eq_of_unless h]; rfl
  | rule name =>
      cases hp
      exact .of_names (hcall name)
  | atStart =>
      cases hp
      exact .of_names fun c m h => by rw [(eq_of_atStart h).2]; rfl
  | atEnd =>
      cases hp
      exact .of_names fun c m h => by rw [(eq_of_atEnd h).2]; rfl
  | empty =>
      cases hp
      exact .of_names fun c m h => by cases h; rfl
  | push item ih =>
      obtain ⟨k, hitem, rfl⟩ := Option.map_eq_some_iff.1 hp
      exact (ih hitem).push
  | pop =>
      obtain ⟨hd, hp⟩ := Option.ite_none_left_eq_some.1 hp
      cases hp
      exact .pop hd
  | peek =>
      cases hp
      refine .of_names fun c m h => ?_
      obtain ⟨name, c', hc', rfl⟩ := exists_of_peek h
      obtain ⟨-, -, hnames⟩ := Cursor.word?_beq_eq_some hc'
      exact hnames
  | drop =>
      obtain ⟨hd, hp⟩ := Option.ite_none_left_eq_some.1 hp
      cases hp
      exact .drop hd

theorem Pattern.recognise_names {p : Pattern R} (hp : p.height 0 = some 0)
    {c : Cursor} {m : Match R} (h : p.recognise call c = some m) :
    m.cursor.names = c.names :=
  (p.recognise_raises hcall hp c m (Nat.zero_le _) h).names

end Patterns

namespace Grammar.Level

variable {g : Grammar R} (hg : g.Level)
include hg

/-- **The rules of a level grammar leave the names as they were**, by induction
on the depth of calls.  So the name on top when a closing tag is tried is that
of the tag that is open. -/
theorem recognise_names (depth : Nat) (r : R) (c : Cursor) (m : Match R)
    (h : g.recognise depth r c = some m) :
    m.cursor.names = c.names := by
  induction depth generalizing r c m with
  | zero => cases h
  | succ depth ih =>
      obtain ⟨inner, hinner, rfl⟩ := Option.map_eq_some_iff.1 h
      have hnames := Pattern.recognise_names ih (hg r) hinner
      split <;> exact hnames

/-- A matcher leaves the names as they were, too. -/
theorem run_names {p : Pattern R} (hp : p.height 0 = some 0) (depth : Nat)
    {c : Cursor} {a : Attempts R} {m : Match R}
    (h : (p.run (g.call depth) c a).result = some m) :
    m.cursor.names = c.names := by
  rw [Pattern.run_result (g.call_result depth)] at h
  exact Pattern.recognise_names (hg.recognise_names depth) hp h

end Grammar.Level

end TemplateJsx.Peg
