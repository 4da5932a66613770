import TemplateJsx.Proofs.Peg.Depth

/-!
# What a grammar says

`Derives g p c r` says what becomes of a pattern at a cursor, by rules for the
operators alone and without a depth of calls, a bound on rounds or a record of
attempts: `r` is a match, or `none` where the pattern fails.  A choice goes on
to its second pattern only where the first one fails, a repetition ends only
where its item does, and whatever is tried after a failure starts from the old
cursor, names included.

A pattern comes to at most one result (`Derives.unique`).  In a ranked grammar
whose repetitions take some of the text in every round it comes to the one that
the recogniser gives (`Ranked.derives_iff`).
-/

namespace TemplateJsx.Peg

variable {R : Type}

/-- What a rule leaves of a match of its pattern: a capture with the span of the
match, if the rule is named, and otherwise the captures inside it. -/
def Grammar.capture (g : Grammar R) (r : R) (c : Cursor) (m : Match R) :
    Match R :=
  if g.isNamed r then ⟨m.cursor, [.mk r ⟨c.offset, m.cursor.offset⟩ m.captures]⟩
  else m

/-- One match after another: it ends where the second one does and has the
captures of both, in their order. -/
def Match.andThen (m m' : Match R) : Match R :=
  ⟨m'.cursor, m.captures ++ m'.captures⟩

def Match.remember (c : Cursor) (m : Match R) : Match R :=
  ⟨{ m.cursor with names := c.between m.cursor :: m.cursor.names }, m.captures⟩

/-- What a pattern at a cursor comes to, which is a match or a failure.  Each
operator has its own rules, and a rule of the grammar comes to what its pattern
comes to.  This is the meaning of the grammar, against which the matcher is
measured. -/
inductive Derives (g : Grammar R) : Pattern R → Cursor → Option (Match R) → Prop
  | literal (word : Text) (c : Cursor) :
      Derives g (.literal word) c ((c.word? (· == ·) word).map .plain)
  | caseless (word : Text) (c : Cursor) :
      Derives g (.caseless word) c ((c.word? Cursor.sameLetter word).map .plain)
  | one (accepts : Char → Bool) (c : Cursor) :
      Derives g (.one accepts) c ((c.one? accepts).map .plain)
  | empty (c : Cursor) : Derives g .empty c (some (.plain c))
  | sequence {p q : Pattern R} {c : Cursor} {m m' : Match R}
      (first : Derives g p c (some m)) (next : Derives g q m.cursor (some m')) :
      Derives g (.sequence p q) c (some (m.andThen m'))
  | sequenceFirst {p q : Pattern R} {c : Cursor} (first : Derives g p c none) :
      Derives g (.sequence p q) c none
  | sequenceNext {p q : Pattern R} {c : Cursor} {m : Match R}
      (first : Derives g p c (some m)) (next : Derives g q m.cursor none) :
      Derives g (.sequence p q) c none
  | choiceFirst {p q : Pattern R} {c : Cursor} {m : Match R}
      (first : Derives g p c (some m)) :
      Derives g (.choice p q) c (some m)
  | choiceOther {p q : Pattern R} {c : Cursor} {r : Option (Match R)}
      (first : Derives g p c none) (other : Derives g q c r) :
      Derives g (.choice p q) c r
  | manyDone {p : Pattern R} {c : Cursor} (item : Derives g p c none) :
      Derives g (.many p) c (some (.plain c))
  | manyMore {p : Pattern R} {c : Cursor} {m m' : Match R}
      (item : Derives g p c (some m))
      (rest : Derives g (.many p) m.cursor (some m')) :
      Derives g (.many p) c (some (m.andThen m'))
  | optionalPresent {p : Pattern R} {c : Cursor} {m : Match R}
      (item : Derives g p c (some m)) :
      Derives g (.optional p) c (some m)
  | optionalAbsent {p : Pattern R} {c : Cursor} (item : Derives g p c none) :
      Derives g (.optional p) c (some (.plain c))
  | unlessAbsent {p : Pattern R} {c : Cursor} (item : Derives g p c none) :
      Derives g (.unless p) c (some (.plain c))
  | unlessPresent {p : Pattern R} {c : Cursor} {m : Match R}
      (item : Derives g p c (some m)) :
      Derives g (.unless p) c none
  | rule {name : R} {c : Cursor} {r : Option (Match R)}
      (body : Derives g (g.body name) c r) :
      Derives g (.rule name) c (r.map (g.capture name c))
  | atStart (c : Cursor) :
      Derives g .atStart c (if c.offset = 0 then some (.plain c) else none)
  | atEnd (c : Cursor) :
      Derives g .atEnd c (if c.rest = [] then some (.plain c) else none)
  | push {p : Pattern R} {c : Cursor} {r : Option (Match R)}
      (item : Derives g p c r) :
      Derives g (.push p) c (r.map (.remember c))
  | popNone {c : Cursor} (h : c.names = []) : Derives g .pop c none
  | pop {c : Cursor} {name : Text} {names : List Text}
      (h : c.names = name :: names) :
      Derives g .pop c ((c.word? (· == ·) name).map fun d =>
        .plain { d with names })
  | peekNone {c : Cursor} (h : c.names = []) : Derives g .peek c none
  | peek {c : Cursor} {name : Text} {names : List Text}
      (h : c.names = name :: names) :
      Derives g .peek c ((c.word? (· == ·) name).map .plain)
  | dropNone {c : Cursor} (h : c.names = []) : Derives g .drop c none
  | drop {c : Cursor} {name : Text} {names : List Text}
      (h : c.names = name :: names) :
      Derives g .drop c (some (.plain { c with names }))

/-! ## One result only -/

/-- A pattern at a cursor comes to this result, if to any.  The negative half of
what a derivation says, stated on its own so that each operator has one lemma
for it. -/
def Only (g : Grammar R) (p : Pattern R) (c : Cursor)
    (r : Option (Match R)) : Prop :=
  ∀ r', Derives g p c r' → r = r'

namespace Only

variable {g : Grammar R} {p q : Pattern R} {c : Cursor}
  {r s : Option (Match R)}

/-- Where the first pattern fails nothing is asked of the second one. -/
theorem sequence (hfirst : Only g p c r)
    (hnext : ∀ m, r = some m → Only g q m.cursor s) :
    Only g (.sequence p q) c (r.bind fun m => s.map m.andThen) := by
  intro r' h'
  cases h' with
  | sequence first next =>
      cases hfirst _ first
      cases hnext _ rfl _ next
      rfl
  | sequenceFirst first =>
      cases hfirst _ first
      rfl
  | sequenceNext first next =>
      cases hfirst _ first
      cases hnext _ rfl _ next
      rfl

/-- Where the first pattern matches nothing is asked of the other one. -/
theorem choice (hfirst : Only g p c r) (hother : r = none → Only g q c s) :
    Only g (.choice p q) c (r.or s) := by
  intro r' h'
  cases h' with
  | choiceFirst first =>
      cases hfirst _ first
      rfl
  | choiceOther first other =>
      cases hfirst _ first
      exact hother rfl _ other

/-- A repetition that ends here has no match of its item to go on with. -/
theorem manyDone (hitem : Only g p c none) :
    Only g (.many p) c (some (.plain c)) := by
  intro r' h'
  cases h' with
  | manyDone item => rfl
  | manyMore item rest => cases hitem _ item

/-- A repetition that goes on has no failure of its item to end with. -/
theorem manyMore {m m' : Match R} (hitem : Only g p c (some m))
    (hrest : Only g (.many p) m.cursor (some m')) :
    Only g (.many p) c (some (m.andThen m')) := by
  intro r' h'
  cases h' with
  | manyDone item => cases hitem _ item
  | manyMore item rest =>
      cases hitem _ item
      cases hrest _ rest
      rfl

theorem optional (hitem : Only g p c r) :
    Only g (.optional p) c (r.or (some (.plain c))) := by
  intro r' h'
  cases h' with
  | optionalPresent item =>
      cases hitem _ item
      rfl
  | optionalAbsent item =>
      cases hitem _ item
      rfl

theorem «unless» (hitem : Only g p c r) :
    Only g (.unless p) c (if r.isSome then none else some (.plain c)) := by
  intro r' h'
  cases h' with
  | unlessAbsent item =>
      cases hitem _ item
      rfl
  | unlessPresent item =>
      cases hitem _ item
      rfl

theorem pop (g : Grammar R) (c : Cursor) : Only g .pop c (match c.names with
    | [] => none
    | name :: names =>
      (c.word? (· == ·) name).map fun d => .plain { d with names }) := by
  intro r' h'
  cases h' with
  | popNone h => rw [h]
  | pop h => rw [h]

theorem peek (g : Grammar R) (c : Cursor) : Only g .peek c (match c.names with
    | [] => none
    | name :: _ => (c.word? (· == ·) name).map .plain) := by
  intro r' h'
  cases h' with
  | peekNone h => rw [h]
  | peek h => rw [h]

theorem drop (g : Grammar R) (c : Cursor) : Only g .drop c (match c.names with
    | [] => none
    | _ :: names => some (.plain { c with names })) := by
  intro r' h'
  cases h' with
  | dropNone h => rw [h]
  | drop h => rw [h]

end Only

namespace Derives

variable {g : Grammar R} {p : Pattern R} {c : Cursor} {r r' : Option (Match R)}

/-- What a pattern comes to is all that it comes to, by induction on the
derivation: an operator has one result if its parts have. -/
theorem only (h : Derives g p c r) : Only g p c r := by
  induction h with
  | @sequence _ _ _ _ m' first next ihFirst ihNext =>
      refine ihFirst.sequence (s := some m') fun m hm => ?_
      cases hm
      exact ihNext
  | sequenceFirst first ih =>
      exact ih.sequence (s := none) fun m hm => nomatch hm
  | sequenceNext first next ihFirst ihNext =>
      refine ihFirst.sequence (s := none) fun m hm => ?_
      cases hm
      exact ihNext
  | choiceFirst first ih => exact ih.choice (s := none) fun hm => nomatch hm
  | choiceOther first other ihFirst ihOther =>
      exact ihFirst.choice fun _ => ihOther
  | manyDone item ih => exact ih.manyDone
  | manyMore item rest ih ihRest => exact ih.manyMore ihRest
  | optionalPresent item ih => exact ih.optional
  | optionalAbsent item ih => exact ih.optional
  | unlessAbsent item ih => exact ih.unless
  | unlessPresent item ih => exact ih.unless
  | rule body ih =>
      intro r' h'
      cases h' with
      | rule body' => rw [ih _ body']
  | push item ih =>
      intro r' h'
      cases h' with
      | push item' => rw [ih _ item']
  | @popNone c h => simpa only [h] using Only.pop g c
  | @pop c _ _ h => simpa only [h] using Only.pop g c
  | @peekNone c h => simpa only [h] using Only.peek g c
  | @peek c _ _ h => simpa only [h] using Only.peek g c
  | @dropNone c h => simpa only [h] using Only.drop g c
  | @drop c _ _ h => simpa only [h] using Only.drop g c
  | _ =>
      intro r' h'
      cases h'
      rfl

/-- **A pattern comes to one result only**, so a derivation may be used as if
it were a function of the pattern and the cursor. -/
theorem unique (h : Derives g p c r) (h' : Derives g p c r') : r = r' :=
  h.only r' h'

/-! ## Operators on results -/

variable {q : Pattern R}

theorem sequence_bind {after : Cursor → Option (Match R)}
    (first : Derives g p c r)
    (next : ∀ m, r = some m → Derives g q m.cursor (after m.cursor)) :
    Derives g (.sequence p q) c (r.bind fun m =>
      (after m.cursor).map m.andThen) := by
  cases r with
  | none => exact .sequenceFirst first
  | some m =>
      have hnext := next m rfl
      rw [Option.bind_some]
      cases hm : after m.cursor with
      | none =>
          rw [hm] at hnext
          exact .sequenceNext first hnext
      | some m' =>
          rw [hm] at hnext
          exact .sequence first hnext

theorem choice_or (first : Derives g p c r) (other : Derives g q c r') :
    Derives g (.choice p q) c (r.or r') := by
  cases r with
  | none => exact .choiceOther first other
  | some m => exact .choiceFirst first

theorem optional_or (item : Derives g p c r) :
    Derives g (.optional p) c (r.or (some (.plain c))) := by
  cases r with
  | none => exact .optionalAbsent item
  | some m => exact .optionalPresent item

theorem unless_isSome (item : Derives g p c r) :
    Derives g (.unless p) c (if r.isSome then none else some (.plain c)) := by
  cases r with
  | none => exact .unlessAbsent item
  | some m => exact .unlessPresent item

end Derives

/-! ## The recogniser derives -/

/-- In every repetition of the pattern the item takes some of the text.  A
repetition whose item matches nothing at all comes to no result, while the
recogniser, which counts rounds, would give a match. -/
def Pattern.repeatsTake (empty : R → Bool) : Pattern R → Bool
  | sequence first next => first.repeatsTake empty && next.repeatsTake empty
  | choice first other => first.repeatsTake empty && other.repeatsTake empty
  | many item => !item.mayBeEmpty empty && item.repeatsTake empty
  | optional item => item.repeatsTake empty
  | .unless item => item.repeatsTake empty
  | push item => item.repeatsTake empty
  | _ => true

section Recognised

variable {g : Grammar R} {empty : R → Bool} {call : R → Recogniser R}

/-- Rules come to what `call` says, wherever a pattern with these heads calls
them with so much of the text left. -/
structure CallsDerive (g : Grammar R) (call : R → Recogniser R) (heads : List R)
    (length : Nat) : Prop where
  later : ∀ r c, c.rest.length < length → Derives g (.rule r) c (call r c)
  now : ∀ r ∈ heads, ∀ c, c.rest.length = length →
    Derives g (.rule r) c (call r c)

theorem callsDerive_iff {heads : List R} {length : Nat} :
    CallsDerive g call heads length ↔
      ∀ r c, Pattern.MayCall heads length r c →
      Derives g (.rule r) c (call r c) := by
  constructor
  · intro h r c hmay
    rcases hmay with hlater | ⟨hnow, hr⟩
    · exact h.later r c hlater
    · exact h.now r hr c hnow
  · intro h
    exact ⟨fun r c hc => h r c (Or.inl hc), fun r hr c hc =>
      h r c (Or.inr ⟨hc, hr⟩)⟩

theorem CallsDerive.mono {heads heads' : List R} {length length' : Nat}
    (h : CallsDerive g call heads length) (hle : length' ≤ length)
    (hheads : length' = length → ∀ r ∈ heads', r ∈ heads) :
    CallsDerive g call heads' length' :=
  callsDerive_iff.2 fun r c hmay =>
    callsDerive_iff.1 h r c (hmay.mono hle hheads)

/-- A repetition derives, if its item does and takes some of the text: then the
rounds run out only after the item has failed. -/
theorem derives_repeat {p : Pattern R} {item : Recogniser R} {length : Nat}
    (hitem : ∀ c, c.rest.length ≤ length → Derives g p c (item c))
    (hshort : ∀ c m, item c = some m → m.cursor.rest.length < c.rest.length)
    (n : Nat) (c : Cursor) (hn : c.rest.length < n)
    (hc : c.rest.length ≤ length) :
    Derives g (.many p) c (some (item.repeat n c)) := by
  induction n generalizing c with
  | zero => omega
  | succ n ih =>
      have hderives := hitem c hc
      cases hm : item c with
      | none =>
          rw [hm] at hderives
          simp only [Recogniser.repeat, hm]
          exact .manyDone hderives
      | some m =>
          rw [hm] at hderives
          have hlt := hshort c m hm
          simp only [Recogniser.repeat, hm]
          exact .manyMore hderives (ih m.cursor (by omega) (by omega))

theorem derives_pop (g : Grammar R) (call : R → Recogniser R) (c : Cursor) :
    Derives g .pop c (Pattern.pop.recognise call c) := by
  cases hnames : c.names with
  | nil =>
      simp only [Pattern.recognise, hnames]
      exact .popNone hnames
  | cons name names =>
      simp only [Pattern.recognise, hnames]
      exact .pop hnames

theorem derives_peek (g : Grammar R) (call : R → Recogniser R) (c : Cursor) :
    Derives g .peek c (Pattern.peek.recognise call c) := by
  cases hnames : c.names with
  | nil =>
      simp only [Pattern.recognise, hnames]
      exact .peekNone hnames
  | cons name names =>
      simp only [Pattern.recognise, hnames]
      exact .peek hnames

theorem derives_drop (g : Grammar R) (call : R → Recogniser R) (c : Cursor) :
    Derives g .drop c (Pattern.drop.recognise call c) := by
  cases hnames : c.names with
  | nil =>
      simp only [Pattern.recognise, hnames]
      exact .dropNone hnames
  | cons name names =>
      simp only [Pattern.recognise, hnames]
      exact .drop hnames

/-- **What is recognised is derived**, failures included, if that holds of the
rules where the pattern calls them.  The operators on results above turn each
case of the recogniser into a rule of the derivation. -/
theorem Pattern.recognise_derives
    (hcall : ∀ r c m, call r c = some m → Shortens (empty r) c m)
    (p : Pattern R) (hp : p.repeatsTake empty = true) {c : Cursor}
    (h : CallsDerive g call (p.heads empty) c.rest.length) :
    Derives g p c (p.recognise call c) := by
  induction p generalizing c with
  | sequence first next ihFirst ihNext =>
      obtain ⟨hpFirst, hpNext⟩ := Bool.and_eq_true_iff.1 hp
      have hfirst : Derives g first c (first.recognise call c) :=
        ihFirst hpFirst (h.mono (Nat.le_refl _) fun _ r hr =>
          List.mem_append_left _ hr)
      apply hfirst.sequence_bind
      intro m hm
      have hshort := recognise_shortens hcall first hm
      exact ihNext hpNext (h.mono hshort.1 (mem_heads_sequence hshort))
  | choice first other ihFirst ihOther =>
      obtain ⟨hpFirst, hpOther⟩ := Bool.and_eq_true_iff.1 hp
      have hfirst : Derives g first c (first.recognise call c) :=
        ihFirst hpFirst (h.mono (Nat.le_refl _) fun _ r hr =>
          List.mem_append_left _ hr)
      have hother : Derives g other c (other.recognise call c) :=
        ihOther hpOther (h.mono (Nat.le_refl _) fun _ r hr =>
          List.mem_append_right _ hr)
      exact hfirst.choice_or hother
  | many item ih =>
      obtain ⟨hempty, hpItem⟩ := Bool.and_eq_true_iff.1 hp
      have hitem : ∀ d : Cursor, d.rest.length ≤ c.rest.length →
          Derives g item d (item.recognise call d) := by
        intro d hd
        exact ih hpItem (h.mono hd fun _ r hr => hr)
      apply derives_repeat hitem
      · intro d m hm
        exact (recognise_shortens hcall item hm).2 (by simpa using hempty)
      · exact Nat.lt_succ_self _
      · exact Nat.le_refl _
  | optional item ih => exact (ih hp h).optional_or
  | «unless» item ih => exact (ih hp h).unless_isSome
  | rule name => exact h.now name (List.mem_singleton_self name) c rfl
  | push item ih => exact .push (ih hp h)
  | pop => exact derives_pop g call c
  | peek => exact derives_peek g call c
  | drop => exact derives_drop g call c
  | literal word => exact .literal word c
  | caseless word => exact .caseless word c
  | one accepts => exact .one accepts c
  | empty => exact .empty c
  | atStart => exact .atStart c
  | atEnd => exact .atEnd c

end Recognised

namespace Grammar.Ranked

variable {g : Grammar R} {limit : Nat} (k : g.Ranked limit)
include k

/-- Every rule derives what it is recognised as, by induction on how deep its
calls can go. -/
theorem settled_derives (htake : ∀ r, (g.body r).repeatsTake k.empty = true)
    (depth : Nat) (r : R) (c : Cursor)
    (h : limit * c.rest.length + k.rank r < depth) :
    Derives g (.rule r) c (g.settled limit r c) := by
  induction depth generalizing r c with
  | zero => omega
  | succ depth ih =>
      rw [k.settled_eq]
      apply Derives.rule
      apply Pattern.recognise_derives k.settled_shortens (g.body r) (htake r)
      apply callsDerive_iff.2
      intro r' c' hmay
      exact ih r' c' (k.depth_of_mayCall h hmay)

/-- **A rule comes to what it is recognised as, and to nothing else.**  So a
derivation exists for every rule at every cursor, and whether one matches can be
decided by running the recogniser. -/
theorem derives_iff (htake : ∀ r, (g.body r).repeatsTake k.empty = true) (r : R)
    (c : Cursor) (result : Option (Match R)) :
    Derives g (.rule r) c result ↔ g.settled limit r c = result := by
  have hsettled := k.settled_derives htake _ r c (Nat.lt_succ_self _)
  constructor
  · intro h
    exact hsettled.unique h
  · intro h
    rw [← h]
    exact hsettled

end Grammar.Ranked

end TemplateJsx.Peg
