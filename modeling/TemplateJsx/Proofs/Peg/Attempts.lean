import TemplateJsx.Proofs.Peg.Inside
import TemplateJsx.Proofs.Peg.Reading

/-!
# What failed furthest

The attempts outlive every failure, and each named rule that fails rewrites
them: it leaves a more precise note alone, takes the place of the notes made
inside it, or clears those that lie further back.  Whatever it does, it leaves
some attempts, and these lie at its own offset or past it (`Ranked.call_fails`).

`Attempts.Sound g t a` says that the notes are right: they belong to a place of
the text, and every rule that is noted is named and does not match there.  What
is tried in the course of a match only ever turns sound attempts into sound
attempts (`Ranked.call_sound`).
-/

namespace TemplateJsx.Peg

variable {R : Type}

/-! ## Noting a failure -/

namespace Attempts

/-- What noting a failure comes to: the attempts stay, which then lie further on
or hold a note at this offset, or they are made anew at this offset, of notes
that were made there and the rule itself. -/
theorem note_cases (before after : Attempts R) (offset : Nat) (rule : R) :
    (before.note after offset rule = after ∧
      (offset < after.offset ∨ after.offset = offset ∧ after.rules ≠ [])) ∨
      ∃ kept, before.note after offset rule = ⟨offset, kept ++ [rule]⟩ ∧
      after.offset ≤ offset ∧
        ∀ r ∈ kept, r ∈ after.rules ∧ after.offset = offset := by
  unfold note
  by_cases hone : after.countAt offset = before.countAt offset + 1
  · rw [if_pos hone]
    refine Or.inl ⟨rfl, Or.inr ?_⟩
    unfold countAt at hone
    by_cases hsame : after.offset = offset
    · rw [if_pos hsame] at hone
      refine ⟨hsame, ?_⟩
      intro hnil
      rw [hnil] at hone
      cases hone
    · rw [if_neg hsame] at hone
      cases hone
  · rw [if_neg hone]
    by_cases hsame : after.offset = offset
    · rw [if_pos hsame]
      refine Or.inr ⟨_, rfl, Nat.le_of_eq hsame, ?_⟩
      intro r hr
      exact ⟨List.mem_of_mem_take hr, hsame⟩
    · rw [if_neg hsame]
      by_cases hback : after.offset < offset
      · rw [if_pos hback]
        exact Or.inr ⟨[], rfl, Nat.le_of_lt hback, by simp⟩
      · rw [if_neg hback]
        exact Or.inl ⟨rfl, Or.inl (by omega)⟩

/-- The attempts after a failure lie where it was or further on, and never go
back. -/
theorem le_note (before after : Attempts R) (offset : Nat) (rule : R) :
    offset ≤ (before.note after offset rule).offset ∧
      after.offset ≤ (before.note after offset rule).offset := by
  rcases note_cases before after offset rule with
    ⟨heq, hplace⟩ | ⟨kept, heq, hle, -⟩
  · rw [heq]
    omega
  · rw [heq]
    exact ⟨Nat.le_refl _, hle⟩

end Attempts

/-- A named rule does not match at an offset of the text, with some names
remembered there.  The names matter, since a closing tag is matched against the
one on top; which names they were is not part of a message, so some will do. -/
def Grammar.MissesAt (g : Grammar R) (t : Text) (offset : Nat) (r : R) : Prop :=
  g.isNamed r = true ∧ ∃ c : Cursor, c.At t ∧ c.offset = offset ∧
    Derives g (.rule r) c none

/-- The attempts are right about a text: they belong to a place in it, there are
none only at its start, and every rule among them does not match at that place.
This is what a reader of the message relies on, who takes each rule named there
for something that is missing. -/
structure Attempts.Sound (g : Grammar R) (t : Text) (a : Attempts R) :
    Prop where
  place : t.isBoundary a.offset = true
  noted : a.offset ≠ 0 → a.rules ≠ []
  misses : ∀ r ∈ a.rules, g.MissesAt t a.offset r

namespace Attempts.Sound

variable {g : Grammar R} {t : Text}

theorem none : Attempts.none.Sound g t where
  place := by cases t <;> rfl
  noted h := absurd rfl h
  misses r h := absurd h List.not_mem_nil

/-- Noting a rule where it does not match keeps the attempts sound: the notes
that are kept were made at the same offset, and the one that is added is
right. -/
theorem note {before after : Attempts R} (h : after.Sound g t) {r : R}
    {c : Cursor} (hc : c.At t) (hmisses : g.MissesAt t c.offset r) :
    (before.note after c.offset r).Sound g t := by
  rcases note_cases before after c.offset r with
    ⟨heq, -⟩ | ⟨kept, heq, -, hkept⟩
  · rw [heq]
    exact h
  · rw [heq]
    refine ⟨Option.isSome_iff_exists.2 ⟨c.rest, hc⟩, ?_, ?_⟩
    · intro _
      simp
    · intro r' hr'
      rcases List.mem_append.1 hr' with hold | hnew
      · obtain ⟨hmem, hsame⟩ := hkept r' hold
        exact hsame ▸ h.misses r' hmem
      · obtain rfl := List.mem_singleton.1 hnew
        exact hmisses

/-- After a failure some rule is noted, so a message always has something to
name. -/
theorem note_ne_nil {before after : Attempts R} (h : after.Sound g t)
    (offset : Nat) (r : R) :
    (before.note after offset r).rules ≠ [] := by
  rcases note_cases before after offset r with
    ⟨heq, hfurther | ⟨-, hnoted⟩⟩ | ⟨kept, heq, -, -⟩
  · rw [heq]
    exact h.noted (by omega)
  · rw [heq]
    exact hnoted
  · rw [heq]
    simp

end Attempts.Sound

/-! ## Places in the text -/

section Landing

variable {t : Text}

/-- What is recognised ends at a place in the text, if that holds of the rules.
It is the reading of a pattern with everything else left out. -/
theorem Pattern.recognise_lands {call : R → Recogniser R}
    (hcall : ∀ r c m, c.At t → call r c = some m → m.cursor.At t)
    (p : Pattern R) {c : Cursor} {m : Match R} (hc : c.At t)
    (h : p.recognise call c = some m) : m.cursor.At t := by
  -- A reading that keeps the captures as they are and says nothing of where the
  -- rules lie.
  have hrules : ∀ r, (call r).Holds t some (fun _ _ _ => True) :=
    fun r c m hc hm => ⟨hcall r c m hc hm, m.captures, rfl, trivial⟩
  have happend : ∀ {xs ys ps qs : List (Capture R)}, some xs = some ps →
      some ys = some qs →
      some (xs ++ ys) = some (ps ++ qs) := by
    intro xs ys ps qs hps hqs
    cases hps
    cases hqs
    rfl
  have hheld : Held t some (p.Reads t fun _ _ _ _ => True) c m :=
    p.recognise_reads rfl happend hrules c m hc h
  exact hheld.1

theorem Grammar.recognise_lands (g : Grammar R) (depth : Nat) (r : R)
    (c : Cursor) (m : Match R) (hc : c.At t)
    (h : g.recognise depth r c = some m) : m.cursor.At t := by
  induction depth generalizing r c m with
  | zero => cases h
  | succ depth ih =>
      obtain ⟨inner, hinner, rfl⟩ := Option.map_eq_some_iff.1 h
      have hlands := (g.body r).recognise_lands ih hc hinner
      split <;> exact hlands

end Landing

/-! ## Attempts along a match -/

namespace Pattern

variable (call : R → Matcher R) (first next other item : Pattern R)
  (c : Cursor) (a : Attempts R)

/-- A sequence leaves the attempts of its first pattern, if that one fails, and
otherwise those of the second pattern, which starts with them. -/
theorem run_sequence_attempts :
    ((sequence first next).run call c a).attempts =
        (first.run call c a).attempts ∨
      ∃ m, (first.run call c a).result = some m ∧
        ((sequence first next).run call c a).attempts =
          (next.run call m.cursor (first.run call c a).attempts).attempts := by
  cases hout : first.run call c a with
  | mk a₁ result =>
      cases result with
      | none => exact Or.inl (by simp [run, hout])
      | some m =>
          refine Or.inr ⟨m, rfl, ?_⟩
          cases hout' : next.run call m.cursor a₁ with
          | mk a₂ result₂ => cases result₂ <;> simp [run, hout, hout']

/-- A choice leaves the attempts of its first pattern, or those of the other
one, which starts at the old cursor but with the attempts of the first. -/
theorem run_choice_attempts :
    ((choice first other).run call c a).attempts =
        (first.run call c a).attempts ∨
      ((choice first other).run call c a).attempts =
        (other.run call c (first.run call c a).attempts).attempts := by
  cases hout : first.run call c a with
  | mk a₁ result =>
      cases result with
      | none => exact Or.inr (by simp [run, hout])
      | some m => exact Or.inl (by simp [run, hout])

theorem run_optional_attempts :
    ((optional item).run call c a).attempts =
      (item.run call c a).attempts := by
  cases hout : item.run call c a with
  | mk a₁ result => cases result <;> simp [run, hout]

/-- What is tried only to be ruled out leaves no attempts. -/
theorem run_unless_attempts :
    ((Pattern.unless item).run call c a).attempts = a := by
  cases hout : item.run call c a with
  | mk a₁ result => cases result <;> simp [run, hout]

theorem run_push_attempts :
    ((push item).run call c a).attempts = (item.run call c a).attempts := by
  cases hout : item.run call c a with
  | mk a₁ result => cases result <;> simp [run, hout]

end Pattern

section Kept

variable {t : Text} {kept : Attempts R → Prop}

/-- A repetition keeps what its item keeps, by induction on the rounds: each of
them starts further on in the text, with the attempts of the one before. -/
theorem Matcher.repeat_keeps {item : Matcher R} {item' : Recogniser R}
    {length : Nat} (hresult : ∀ c a, (item c a).result = item' c)
    (hitem : ∀ c a, c.At t → c.rest.length ≤ length → kept a →
      kept (item c a).attempts)
    (hnext : ∀ c m, c.At t → item' c = some m →
      m.cursor.At t ∧ m.cursor.rest.length ≤ c.rest.length) (n : Nat)
    {c : Cursor} {a : Attempts R} (hc : c.At t)
    (hlength : c.rest.length ≤ length) (ha : kept a) :
    kept (Matcher.repeat item n c a).attempts := by
  induction n generalizing c a with
  | zero => exact ha
  | succ n ih =>
      have hfirst := hitem c a hc hlength ha
      have hmatch := hresult c a
      cases hout : item c a with
      | mk a₁ result =>
          rw [hout] at hfirst hmatch
          cases result with
          | none => simpa [Matcher.repeat, hout] using hfirst
          | some m =>
              obtain ⟨hlands, hle⟩ := hnext c m hc hmatch.symm
              have hrest := ih hlands (Nat.le_trans hle hlength) hfirst
              cases hout' : Matcher.repeat item n m.cursor a₁ with
              | mk a₂ result₂ =>
                  rw [hout'] at hrest
                  cases result₂ <;>
                    simpa [Matcher.repeat, hout, hout'] using hrest

/-- Calls keep something of the attempts, wherever a pattern with these heads
may make them with so much of the text left. -/
def CallsKeep (t : Text) (kept : Attempts R → Prop) (call : R → Matcher R)
    (heads : List R) (length : Nat) : Prop :=
  ∀ r d b, Pattern.MayCall heads length r d → d.At t → kept b →
    kept (call r d b).attempts

theorem CallsKeep.mono {call : R → Matcher R} {heads heads' : List R}
    {length length' : Nat} (h : CallsKeep t kept call heads length)
    (hle : length' ≤ length)
    (hheads : length' = length → ∀ r ∈ heads', r ∈ heads) :
    CallsKeep t kept call heads' length' :=
  fun r d b hmay => h r d b (hmay.mono hle hheads)

namespace Pattern

variable {call : R → Matcher R} {call' : R → Recogniser R} {empty : R → Bool}
  (hresult : ∀ r c a, (call r c a).result = call' r c)
  (hshort : ∀ r c m, call' r c = some m → Shortens (empty r) c m)
  (hlands : ∀ r c m, c.At t → call' r c = some m → m.cursor.At t)

/-- A pattern keeps something of the attempts, wherever the calls that it may
make keep it. -/
def Keeps (t : Text) (kept : Attempts R → Prop) (call : R → Matcher R)
    (empty : R → Bool) (p : Pattern R) : Prop :=
  ∀ c a, CallsKeep t kept call (p.heads empty) c.rest.length → c.At t →
    kept a → kept (p.run call c a).attempts

include hresult hshort hlands in
theorem Keeps.sequence {first next : Pattern R}
    (hfirst : first.Keeps t kept call empty)
    (hnext : next.Keeps t kept call empty) :
    (sequence first next).Keeps t kept call empty := by
  intro c a hcall hc ha
  have hkept : kept (first.run call c a).attempts := by
    refine hfirst c a (hcall.mono (Nat.le_refl _) fun _ r hr => ?_) hc ha
    exact List.mem_append_left _ hr
  rcases run_sequence_attempts call first next c a with hout | ⟨m, hm, hout⟩
  · rw [hout]
    exact hkept
  · rw [run_result hresult] at hm
    have htaken := recognise_shortens hshort first hm
    rw [hout]
    exact hnext m.cursor _ (hcall.mono htaken.1 (mem_heads_sequence htaken))
      (first.recognise_lands hlands hc hm) hkept

theorem Keeps.choice {first other : Pattern R}
    (hfirst : first.Keeps t kept call empty)
    (hother : other.Keeps t kept call empty) :
    (choice first other).Keeps t kept call empty := by
  intro c a hcall hc ha
  have hkept : kept (first.run call c a).attempts := by
    refine hfirst c a (hcall.mono (Nat.le_refl _) fun _ r hr => ?_) hc ha
    exact List.mem_append_left _ hr
  rcases run_choice_attempts call first other c a with hout | hout
  · rw [hout]
    exact hkept
  · rw [hout]
    refine hother c _ (hcall.mono (Nat.le_refl _) fun _ r hr => ?_) hc hkept
    exact List.mem_append_right _ hr

include hresult hshort hlands in
theorem Keeps.many {item : Pattern R} (hitem : item.Keeps t kept call empty) :
    (many item).Keeps t kept call empty := by
  intro c a hcall hc ha
  apply Matcher.repeat_keeps (run_result hresult item) _ _ _ hc
    (Nat.le_refl _) ha
  · intro d b hd hle hb
    exact hitem d b (hcall.mono hle fun _ r hr => hr) hd hb
  · intro d m hd hm
    exact ⟨item.recognise_lands hlands hd hm,
      (recognise_shortens hshort item hm).1⟩

include hresult hshort hlands in
/-- **What calls keep, a pattern keeps**, if it holds wherever the pattern may
call a rule.  With `kept` as soundness this carries a note made deep inside a
match out to the end of it. -/
theorem run_keeps (p : Pattern R) : p.Keeps t kept call empty := by
  induction p with
  | sequence first next ihFirst ihNext =>
      exact ihFirst.sequence hresult hshort hlands ihNext
  | choice first other ihFirst ihOther => exact ihFirst.choice ihOther
  | many item ih => exact ih.many hresult hshort hlands
  | optional item ih =>
      intro c a hcall hc ha
      rw [run_optional_attempts]
      exact ih c a hcall hc ha
  | «unless» item ih =>
      intro c a _ _ ha
      rw [run_unless_attempts]
      exact ha
  | rule name =>
      intro c a hcall hc ha
      exact hcall name c a (Or.inr ⟨rfl, List.mem_singleton_self name⟩) hc ha
  | push item ih =>
      intro c a hcall hc ha
      rw [run_push_attempts]
      exact ih c a hcall hc ha
  | pop =>
      intro c a _ _ ha
      cases hnames : c.names <;> simpa [run, hnames] using ha
  | peek =>
      intro c a _ _ ha
      cases hnames : c.names <;> simpa [run, hnames] using ha
  | drop =>
      intro c a _ _ ha
      cases hnames : c.names <;> simpa [run, hnames] using ha
  | _ =>
      intro c a _ _ ha
      exact ha

end Pattern

end Kept

namespace Grammar

variable {g : Grammar R} {t : Text}

theorem call_eq_none_iff {depth : Nat} {r : R} {c : Cursor} {a : Attempts R} :
    (g.call (depth + 1) r c a).result = none ↔
      ((g.body r).run (g.call depth) c a).result = none := by
  cases hout : (g.body r).run (g.call depth) c a with
  | mk a₁ result =>
      cases result with
      | none => simp [call, hout]
      | some m =>
          by_cases hnamed : g.isNamed r = true <;> simp [call, hout, hnamed]

/-- What a rule does to the attempts that its pattern has left: a named rule
that fails notes its failure, any other leaves them alone. -/
theorem call_attempts_cases (depth : Nat) (r : R) (c : Cursor)
    (a : Attempts R) :
    (g.isNamed r = true ∧ (g.call (depth + 1) r c a).result = none ∧
        (g.call (depth + 1) r c a).attempts =
          a.note ((g.body r).run (g.call depth) c a).attempts c.offset r) ∨
      (¬(g.isNamed r = true ∧ (g.call (depth + 1) r c a).result = none) ∧
        (g.call (depth + 1) r c a).attempts =
          ((g.body r).run (g.call depth) c a).attempts) := by
  cases hout : (g.body r).run (g.call depth) c a with
  | mk a₁ result =>
      cases result with
      | none =>
          by_cases hnamed : g.isNamed r = true <;> simp [call, hout, hnamed]
      | some m =>
          by_cases hnamed : g.isNamed r = true <;> simp [call, hout, hnamed]

namespace Ranked

variable {limit : Nat} (k : g.Ranked limit)
  (htake : ∀ r, (g.body r).repeatsTake k.empty = true)
include k

/-- The pattern of a rule keeps the attempts sound, if the calls that it can
make do.  The depth that is left is enough for every such call, by the ranks. -/
theorem run_body_sound {depth : Nat}
    (hcalls : ∀ r c a, limit * c.rest.length + k.rank r < depth →
      c.At t → a.Sound g t → (g.call depth r c a).attempts.Sound g t)
    {r : R} {c : Cursor} {a : Attempts R}
    (hdepth : limit * c.rest.length + k.rank r < depth + 1) (hc : c.At t)
    (ha : a.Sound g t) :
    ((g.body r).run (g.call depth) c a).attempts.Sound g t := by
  apply (g.body r).run_keeps (g.call_result depth) (k.shortens depth)
    (g.recognise_lands depth) c a _ hc ha
  intro r' d b hmay hd hb
  exact hcalls r' d b (k.depth_of_mayCall hdepth hmay) hd hb

include htake

/-- A rule that fails with enough depth does not match.  Without enough depth a
call fails for that reason alone, and its note would be wrong. -/
theorem missesAt_of_call {depth : Nat} {r : R} {c : Cursor} {a : Attempts R}
    (hnamed : g.isNamed r = true)
    (hdepth : limit * c.rest.length + k.rank r < depth) (hc : c.At t)
    (h : (g.call depth r c a).result = none) :
    g.MissesAt t c.offset r := by
  rw [g.call_result, k.recognise_eq_settled r c hdepth] at h
  exact ⟨hnamed, c, hc, rfl, (k.derives_iff htake r c none).2 h⟩

/-- **Whatever a rule tries, the attempts stay sound.**  By induction on the
depth: what is tried inside a rule keeps them so, and the rule itself notes a
failure only where it does not match. -/
theorem call_sound (depth : Nat) (r : R) (c : Cursor) (a : Attempts R)
    (hdepth : limit * c.rest.length + k.rank r < depth) (hc : c.At t)
    (ha : a.Sound g t) :
    (g.call depth r c a).attempts.Sound g t := by
  induction depth generalizing r c a with
  | zero => omega
  | succ depth ih =>
      have hbody := k.run_body_sound ih hdepth hc ha
      rcases g.call_attempts_cases depth r c a with
        ⟨hnamed, hnone, heq⟩ | ⟨-, heq⟩
      · rw [heq]
        exact hbody.note hc (k.missesAt_of_call htake hnamed hdepth hc hnone)
      · rw [heq]
        exact hbody

/-- **A named rule that fails leaves some attempts, and they lie where it was
tried or further on**, no further back than its pattern has left them.  So a
message points at or past the place up to which the text was accepted. -/
theorem call_fails {depth : Nat} {r : R} {c : Cursor} {a : Attempts R}
    (hdepth : limit * c.rest.length + k.rank r < depth + 1) (hc : c.At t)
    (ha : a.Sound g t) (hnamed : g.isNamed r = true)
    (h : (g.call (depth + 1) r c a).result = none) :
    c.offset ≤ (g.call (depth + 1) r c a).attempts.offset ∧
      ((g.body r).run (g.call depth) c a).attempts.offset ≤
        (g.call (depth + 1) r c a).attempts.offset ∧
      (g.call (depth + 1) r c a).attempts.rules ≠ [] := by
  have hbody := k.run_body_sound (k.call_sound htake depth) hdepth hc ha
  rcases g.call_attempts_cases depth r c a with ⟨-, -, heq⟩ | ⟨hnot, -⟩
  · rw [heq]
    obtain ⟨hplace, hfurther⟩ :=
      Attempts.le_note a ((g.body r).run (g.call depth) c a).attempts c.offset r
    exact ⟨hplace, hfurther, hbody.note_ne_nil c.offset r⟩
  · exact absurd ⟨hnamed, h⟩ hnot

end Ranked

end Grammar

end TemplateJsx.Peg
