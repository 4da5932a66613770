import TemplateJsx.Proofs.Peg.Recognition

/-!
# How deep calls can go

A matcher is given a depth of calls, and below it every rule fails.  Where the
rules are ranked, so that before it has taken any of the text a rule calls only
rules of lower rank, a certain depth is enough: it grows with what is left of
the text, and beyond it nothing changes (`Ranked.recognise_stable`).

`Grammar.settled` is the recogniser with enough depth.  It no longer mentions
depth: a rule is recognised where its pattern is, with the rules in it
recognised in the same way (`Ranked.settled_eq`).
-/

namespace TemplateJsx.Peg

variable {R : Type}

namespace Pattern

/-- The pattern may match without taking any of the text, given which rules may.
This is read off the pattern alone and may say yes where no text shows it. -/
def mayBeEmpty (empty : R → Bool) : Pattern R → Bool
  | literal word => word.isEmpty
  | caseless word => word.isEmpty
  | one _ => false
  | sequence first next => first.mayBeEmpty empty && next.mayBeEmpty empty
  | choice first other => first.mayBeEmpty empty || other.mayBeEmpty empty
  | rule name => empty name
  | push item => item.mayBeEmpty empty
  | _ => true

/-- The rules that the pattern may call before it has taken any of the text.  A
sequence has the heads of its second pattern as well, where the first one may be
empty. -/
def heads (empty : R → Bool) : Pattern R → List R
  | sequence first next =>
    first.heads empty ++ if first.mayBeEmpty empty then next.heads empty else []
  | choice first other => first.heads empty ++ other.heads empty
  | many item => item.heads empty
  | optional item => item.heads empty
  | .unless item => item.heads empty
  | push item => item.heads empty
  | rule name => [name]
  | _ => []

end Pattern

/-! ## What a match takes -/

/-- A match leaves no more of the text than there was, and less unless it may be
empty.  What is left of the text is the first half of the measure by which calls
end. -/
def Shortens (empty : Bool) (c : Cursor) (m : Match R) : Prop :=
  m.cursor.rest.length ≤ c.rest.length ∧
    (empty = false → m.cursor.rest.length < c.rest.length)

/-- A match that may be empty need only not give anything back. -/
theorem shortens_of_le {c : Cursor} {m : Match R}
    (h : m.cursor.rest.length ≤ c.rest.length) : Shortens true c m :=
  ⟨h, by simp⟩

theorem shortens_plain (c : Cursor) : Shortens (R := R) true c (.plain c) :=
  shortens_of_le (Nat.le_refl _)

theorem Shortens.mono {empty empty' : Bool} {c : Cursor} {m : Match R}
    (h : Shortens empty c m) (himp : empty' = false → empty = false) :
    Shortens empty' c m :=
  ⟨h.1, fun hempty => h.2 (himp hempty)⟩

theorem Cursor.one?_length {accepts : Char → Bool} {c d : Cursor}
    (h : c.one? accepts = some d) :
    d.rest.length + 1 = c.rest.length := by
  obtain ⟨x, -, hrest, -, -⟩ := one?_eq_some h
  simp [hrest]

theorem Cursor.word?_length {same : Char → Char → Bool} {word : Text}
    {c d : Cursor} (h : word? same word c = some d) :
    d.rest.length + word.length = c.rest.length := by
  induction word generalizing c with
  | nil =>
      cases h
      rfl
  | cons x word ih =>
      obtain ⟨m, hone, hword⟩ := Option.bind_eq_some_iff.1 h
      have hm := one?_length hone
      have hd := ih hword
      simp only [List.length_cons]
      omega

/-- A word is taken off the text, so the match is empty only if the word is. -/
theorem shortens_word {same : Char → Char → Bool} {word : Text} {c : Cursor}
    {m : Match R} (h : (c.word? same word).map .plain = some m) :
    Shortens word.isEmpty c m := by
  obtain ⟨d, hd, rfl⟩ := Option.map_eq_some_iff.1 h
  have hlength := Cursor.word?_length hd
  cases word with
  | nil => exact ⟨by simp_all [Match.plain], by simp⟩
  | cons x word =>
      simp only [List.length_cons] at hlength
      exact ⟨by simp only [Match.plain]; omega,
        fun _ => by simp only [Match.plain]; omega⟩

/-- Repetition leaves no more of the text than there was, if its item does. -/
theorem Recogniser.repeat_length_le {item : Recogniser R}
    (hitem : ∀ c m, item c = some m → m.cursor.rest.length ≤ c.rest.length)
    (n : Nat) (c : Cursor) :
    (item.repeat n c).cursor.rest.length ≤ c.rest.length := by
  induction n generalizing c with
  | zero => exact Nat.le_refl _
  | succ n ih =>
      cases hm : item c with
      | none => simp [Recogniser.repeat, hm, Match.plain]
      | some m =>
          have hle := hitem c m hm
          have hrest := ih m.cursor
          simp only [Recogniser.repeat, hm]
          omega

/-- Once a repetition has more rounds than there are characters, further rounds
change nothing.  So the bound that makes repetition end hides no match. -/
theorem Recogniser.repeat_eq {item : Recogniser R}
    (hitem : ∀ c m, item c = some m → m.cursor.rest.length < c.rest.length)
    {n n' : Nat} {c : Cursor} (hn : c.rest.length < n)
    (hn' : c.rest.length < n') : item.repeat n c = item.repeat n' c := by
  induction n generalizing n' c with
  | zero => omega
  | succ n ih =>
      obtain ⟨n', rfl⟩ : ∃ k, n' = k + 1 := ⟨n' - 1, by omega⟩
      cases hm : item c with
      | none => simp [Recogniser.repeat, hm]
      | some m =>
          have hlt := hitem c m hm
          have hrest : item.repeat n m.cursor = item.repeat n' m.cursor :=
            ih (by omega) (by omega)
          simp only [Recogniser.repeat, hm, hrest]

namespace Pattern

variable {empty : R → Bool} {call call' : R → Recogniser R}

/-- A sequence takes something of the text as soon as one of its two patterns
does. -/
theorem shortens_sequence {first next : Pattern R}
    (hfirst : ∀ c m, first.recognise call c = some m →
      Shortens (first.mayBeEmpty empty) c m)
    (hnext : ∀ c m, next.recognise call c = some m →
      Shortens (next.mayBeEmpty empty) c m)
    {c : Cursor} {m : Match R}
    (h : (sequence first next).recognise call c = some m) :
    Shortens ((sequence first next).mayBeEmpty empty) c m := by
  obtain ⟨m₁, m₂, hm₁, hm₂, rfl⟩ := exists_of_sequence h
  obtain ⟨hle, hlt⟩ := hfirst c m₁ hm₁
  obtain ⟨hle', hlt'⟩ := hnext m₁.cursor m₂ hm₂
  refine ⟨Nat.le_trans hle' hle, fun hempty => ?_⟩
  -- A sequence takes something as soon as one of its parts does.
  rcases Bool.and_eq_false_iff.1 hempty with hempty | hempty
  · exact Nat.lt_of_le_of_lt hle' (hlt hempty)
  · exact Nat.lt_of_lt_of_le (hlt' hempty) hle

/-- **A pattern takes what it must.**  If rules that are not empty take
something of the text, so does every pattern that may not be empty, and no
pattern gives anything back. -/
theorem recognise_shortens
    (hcall : ∀ r c m, call r c = some m → Shortens (empty r) c m)
    (p : Pattern R) {c : Cursor} {m : Match R}
    (h : p.recognise call c = some m) : Shortens (p.mayBeEmpty empty) c m := by
  induction p generalizing c m with
  | literal word => exact shortens_word h
  | caseless word => exact shortens_word h
  | one accepts =>
      obtain ⟨d, hd, rfl⟩ := Option.map_eq_some_iff.1 h
      have hlength := Cursor.one?_length hd
      exact ⟨by simp only [Match.plain]; omega,
        fun _ => by simp only [Match.plain]; omega⟩
  | sequence first next ihFirst ihNext =>
      exact shortens_sequence (fun _ _ => ihFirst) (fun _ _ => ihNext) h
  | choice first other ihFirst ihOther =>
      rcases or_of_choice h with hfirst | hother
      · exact (ihFirst hfirst).mono fun hempty =>
          (Bool.or_eq_false_iff.1 hempty).1
      · exact (ihOther hother).mono fun hempty =>
          (Bool.or_eq_false_iff.1 hempty).2
  | many item ih =>
      cases h
      exact shortens_of_le
        (Recogniser.repeat_length_le (fun _ _ hm => (ih hm).1) _ c)
  | optional item ih =>
      rcases or_of_optional h with hitem | rfl
      · exact shortens_of_le (ih hitem).1
      · exact shortens_plain c
  | «unless» item ih =>
      rw [eq_of_unless h]
      exact shortens_plain c
  | rule name => exact hcall name c m h
  | push item ih =>
      obtain ⟨m₁, hitem, -, hcursor⟩ := exists_of_push h
      obtain ⟨hle, hlt⟩ := ih hitem
      unfold Shortens
      rw [hcursor]
      exact ⟨hle, hlt⟩
  | empty =>
      cases h
      exact shortens_plain c
  | atStart =>
      rw [(eq_of_atStart h).2]
      exact shortens_plain c
  | atEnd =>
      rw [(eq_of_atEnd h).2]
      exact shortens_plain c
  | pop =>
      obtain ⟨name, names, d, -, hd, rfl⟩ := exists_of_pop h
      have hlength := Cursor.word?_length hd
      exact shortens_of_le (by simp only [Match.plain]; omega)
  | peek =>
      obtain ⟨name, d, hd, rfl⟩ := exists_of_peek h
      have hlength := Cursor.word?_length hd
      exact shortens_of_le (by simp only [Match.plain]; omega)
  | drop =>
      obtain ⟨name, names, -, rfl⟩ := exists_of_drop h
      exact shortens_of_le (Nat.le_refl _)

/-- The heads of a sequence include those of its second pattern, where the
first one has taken nothing. -/
theorem mem_heads_sequence {first next : Pattern R} {c : Cursor} {m : Match R}
    (h : Shortens (first.mayBeEmpty empty) c m)
    (heq : m.cursor.rest.length = c.rest.length) (r : R)
    (hr : r ∈ next.heads empty) : r ∈ (sequence first next).heads empty := by
  cases hempty : first.mayBeEmpty empty with
  | false => exact absurd heq (Nat.ne_of_lt (h.2 hempty))
  | true => simp [heads, hempty, hr]

/-! ## What a match depends on -/

/-- A pattern with these heads, tried with so much of the text left, may call
this rule at this cursor: later on, or at once if the rule is one of the
heads. -/
def MayCall (heads : List R) (length : Nat) (r : R) (c : Cursor) : Prop :=
  c.rest.length < length ∨ c.rest.length = length ∧ r ∈ heads

theorem MayCall.mono {heads heads' : List R} {length length' : Nat} {r : R}
    {c : Cursor} (h : MayCall heads' length' r c) (hle : length' ≤ length)
    (hheads : length' = length → ∀ r ∈ heads', r ∈ heads) :
    MayCall heads length r c := by
  unfold MayCall at h ⊢
  by_cases heq : length' = length
  · rcases h with hlater | ⟨hnow, hr⟩
    · exact Or.inl (by omega)
    · exact Or.inr ⟨by omega, hheads heq r hr⟩
  · exact Or.inl (by omega)

/-- Two ways to call rules that agree wherever a pattern at a cursor may call
them: everywhere further on in the text, and at the cursor itself for the
heads. -/
structure Agree (call call' : R → Recogniser R) (heads : List R)
    (length : Nat) : Prop where
  later : ∀ r c, c.rest.length < length → call r c = call' r c
  now : ∀ r ∈ heads, ∀ c, c.rest.length = length → call r c = call' r c

theorem agree_iff {heads : List R} {length : Nat} :
    Agree call call' heads length ↔
      ∀ r c, MayCall heads length r c → call r c = call' r c := by
  constructor
  · intro h r c hmay
    rcases hmay with hlater | ⟨hnow, hr⟩
    · exact h.later r c hlater
    · exact h.now r hr c hnow
  · intro h
    exact ⟨fun r c hc => h r c (Or.inl hc), fun r hr c hc =>
      h r c (Or.inr ⟨hc, hr⟩)⟩

theorem Agree.mono {heads heads' : List R} {length length' : Nat}
    (h : Agree call call' heads length) (hle : length' ≤ length)
    (hheads : length' = length → ∀ r ∈ heads', r ∈ heads) :
    Agree call call' heads' length' :=
  agree_iff.2 fun r c hmay => agree_iff.1 h r c (hmay.mono hle hheads)

theorem Recogniser.repeat_congr {item item' : Recogniser R} {length : Nat}
    (hitem : ∀ c, c.rest.length ≤ length → item c = item' c)
    (hle : ∀ c m, item c = some m → m.cursor.rest.length ≤ c.rest.length)
    (n : Nat) {c : Cursor} (hc : c.rest.length ≤ length) :
    item.repeat n c = item'.repeat n c := by
  induction n generalizing c with
  | zero => rfl
  | succ n ih =>
      simp only [Recogniser.repeat, ← hitem c hc]
      cases hm : item c with
      | none => rfl
      | some m =>
          have hrest : item.repeat n m.cursor = item'.repeat n m.cursor :=
            ih (Nat.le_trans (hle c m hm) hc)
          simp only [hrest]

/-- A pattern is recognised alike by two ways to call rules that agree where it
calls them.  With two depths of calls as the two ways this turns depth into
something that does not matter. -/
theorem recognise_congr
    (hcall : ∀ r c m, call r c = some m → Shortens (empty r) c m)
    (p : Pattern R) {c : Cursor}
    (h : Agree call call' (p.heads empty) c.rest.length) :
    p.recognise call c = p.recognise call' c := by
  induction p generalizing c with
  | sequence first next ihFirst ihNext =>
      have hfirst : first.recognise call c = first.recognise call' c :=
        ihFirst (h.mono (Nat.le_refl _) fun _ r hr => List.mem_append_left _ hr)
      simp only [recognise, ← hfirst]
      cases hm : first.recognise call c with
      | none => rfl
      | some m =>
          have hshort := recognise_shortens hcall first hm
          have hnext : next.recognise call m.cursor =
              next.recognise call' m.cursor :=
            ihNext (h.mono hshort.1 (mem_heads_sequence hshort))
          simp only [Option.bind_some, hnext]
  | choice first other ihFirst ihOther =>
      have hfirst : first.recognise call c = first.recognise call' c :=
        ihFirst (h.mono (Nat.le_refl _) fun _ r hr => List.mem_append_left _ hr)
      have hother : other.recognise call c = other.recognise call' c :=
        ihOther (h.mono (Nat.le_refl _) fun _ r hr =>
          List.mem_append_right _ hr)
      simp only [recognise, hfirst, hother]
  | many item ih =>
      have hitem : ∀ d : Cursor, d.rest.length ≤ c.rest.length →
          item.recognise call d = item.recognise call' d := fun d hd =>
        ih (h.mono hd fun _ r hr => hr)
      simp only [recognise]
      rw [Recogniser.repeat_congr hitem (fun _ _ hm =>
        (recognise_shortens hcall item hm).1) _ (Nat.le_refl _)]
  | optional item ih => simp only [recognise, ih h]
  | «unless» item ih => simp only [recognise, ih h]
  | push item ih => simp only [recognise, ih h]
  | rule name => exact h.now name (List.mem_singleton_self name) c rfl
  | _ => rfl

end Pattern

/-! ## Ranked grammars -/

/-- Which rules may be empty, and a rank for each rule.  Before it has taken any
of the text a rule calls only rules of lower rank, so there is no left
recursion, and calls at one place of the text are no deeper than there are
ranks. -/
structure Grammar.Ranked (g : Grammar R) (limit : Nat) where
  empty : R → Bool
  rank : R → Nat
  rank_lt : ∀ r, rank r < limit
  empty_body : ∀ r, (g.body r).mayBeEmpty empty = true → empty r = true
  heads_lt : ∀ r, ∀ h ∈ (g.body r).heads empty, rank h < rank r

/-- Recognises a rule with as many calls as it can need: for each character that
is left, and once more at the end, as many as there are ranks. -/
def Grammar.settled (g : Grammar R) (limit : Nat) (r : R) : Recogniser R :=
  fun c => g.recognise (limit * (c.rest.length + 1)) r c

namespace Grammar.Ranked

variable {g : Grammar R} {limit : Nat} (k : g.Ranked limit)
include k

theorem shortens (depth : Nat) (r : R) (c : Cursor) (m : Match R)
    (h : g.recognise depth r c = some m) :
    Shortens (k.empty r) c m := by
  induction depth generalizing r c m with
  | zero => cases h
  | succ depth ih =>
      obtain ⟨inner, hinner, rfl⟩ := Option.map_eq_some_iff.1 h
      have hbody := Pattern.recognise_shortens ih (g.body r) hinner
      have hempty : k.empty r = false →
          (g.body r).mayBeEmpty k.empty = false := by
        intro hr
        cases hbody : (g.body r).mayBeEmpty k.empty with
        | false => rfl
        | true =>
            rw [k.empty_body r hbody] at hr
            cases hr
      split <;> exact hbody.mono hempty

/-- A rule that is called later, with less of the text left, needs less
depth. -/
theorem depth_later (r r' : R) {length length' : Nat} (h : length' < length) :
    limit * length' + k.rank r' < limit * length + k.rank r := by
  have hrank := k.rank_lt r'
  have hmul : limit * (length' + 1) ≤ limit * length :=
    Nat.mul_le_mul_left limit h
  rw [Nat.mul_succ] at hmul
  omega

/-- A rule with enough depth gives its calls enough depth.  Either less of the
text is left, or the rank is lower; the measure counts what is left of the text
first and the rank second. -/
theorem depth_of_mayCall {r r' : R} {c d : Cursor} {depth : Nat}
    (h : limit * c.rest.length + k.rank r < depth + 1)
    (hmay : Pattern.MayCall ((g.body r).heads k.empty) c.rest.length r' d) :
    limit * d.rest.length + k.rank r' < depth := by
  rcases hmay with hlater | ⟨hnow, hhead⟩
  · have hdepth := k.depth_later r r' hlater
    omega
  · have hrank := k.heads_lt r r' hhead
    rw [hnow]
    omega

/-- **Enough depth is as good as any more.**  By induction on the depth: calls
that the pattern of a rule can make have enough depth on both sides, and so they
agree. -/
theorem recognise_stable (r : R) (c : Cursor) {depth depth' : Nat}
    (h : limit * c.rest.length + k.rank r < depth)
    (h' : limit * c.rest.length + k.rank r < depth') :
    g.recognise depth r c = g.recognise depth' r c := by
  induction depth generalizing depth' r c with
  | zero => omega
  | succ depth ih =>
      obtain ⟨depth', rfl⟩ : ∃ e, depth' = e + 1 := ⟨depth' - 1, by omega⟩
      have hagree : Pattern.Agree (g.recognise depth) (g.recognise depth')
          ((g.body r).heads k.empty) c.rest.length := by
        apply Pattern.agree_iff.2
        intro r' c' hmay
        exact ih r' c' (k.depth_of_mayCall h hmay) (k.depth_of_mayCall h' hmay)
      simp only [Grammar.recognise,
        Pattern.recognise_congr (k.shortens depth) (g.body r) hagree]

theorem recognise_eq_settled (r : R) (c : Cursor) {depth : Nat}
    (h : limit * c.rest.length + k.rank r < depth) :
    g.recognise depth r c = g.settled limit r c := by
  refine k.recognise_stable r c h ?_
  have hrank := k.rank_lt r
  rw [Nat.mul_succ]
  omega

theorem settled_shortens (r : R) (c : Cursor) (m : Match R)
    (h : g.settled limit r c = some m) :
    Shortens (k.empty r) c m :=
  k.shortens _ r c m h

/-- **A rule is recognised where its pattern is**, with the rules in it
recognised in the same way.  This is the equation of the grammar that all later
arguments unfold, and it mentions no depth. -/
theorem settled_eq (r : R) (c : Cursor) :
    g.settled limit r c = ((g.body r).recognise (g.settled limit) c).map
      fun m =>
      if g.isNamed r then ⟨m.cursor,
        [.mk r ⟨c.offset, m.cursor.offset⟩ m.captures]⟩ else m := by
  have hrank := k.rank_lt r
  have hdepth : limit * (c.rest.length + 1) =
      limit * c.rest.length + (limit - 1) + 1 := by
    rw [Nat.mul_succ]
    omega
  have hagree :
      Pattern.Agree (g.recognise (limit * c.rest.length + (limit - 1)))
        (g.settled limit) ((g.body r).heads k.empty) c.rest.length := by
    apply Pattern.agree_iff.2
    intro r' c' hmay
    exact k.recognise_eq_settled r' c' (k.depth_of_mayCall (by omega) hmay)
  have hbody := Pattern.recognise_congr (k.shortens _) (g.body r) hagree
  rw [← hbody, Grammar.settled, hdepth]
  rfl

end Grammar.Ranked

end TemplateJsx.Peg
