import TemplateJsx.Proofs.Draft.Exactness
import TemplateJsx.Proofs.Lowering.Scripts
import TemplateJsx.Lowering.Transform

/-!
# Code between other texts

Text put in front of a draft moves the code on its first line to the right and
leaves all other lines where they are. `Position.shift` is this move.  Going on
over text commutes with it (`Position.after_shift`), so the mappings of a draft
with some text in front are those of the draft, each moved
(`Draft.render?_around`), and a look-up at a moved position finds what it found
before (`Mapping.lookup_shift`).

It follows that the options of a run decide about the wrapper, the name and the
carried text of its source map only: `transform_wrapped` compares a run that
wraps its code with one that does not.
-/

namespace TemplateJsx

/-! ## Positions on the first line moved -/

/-- A position of the first line moved to the right; those of later lines stay.
Text without a line feed in front of some code does just this to every position
in it. -/
def Position.shift (k : Nat) (p : Position) : Position :=
  if p.line = 0 then ⟨0, p.column + k⟩ else p

def Mapping.shift (k : Nat) (m : Mapping) : Mapping :=
  ⟨m.generated.shift k, m.source⟩

namespace Position

theorem shift_later (k : Nat) {p : Position} (h : p.line ≠ 0) : p.shift k = p :=
  if_neg h

/-- One more character after a moved position.  A line feed ends the first line,
and with it the move. -/
theorem step_shift (k : Nat) (p : Position) (c : Char) :
    (p.shift k).step c = (p.step c).shift k := by
  by_cases hline : p.line = 0
  · by_cases hc : c = '\n'
    · simp [shift, step, hline, hc]
    · simp only [shift, step, hline, hc, if_true, if_false]
      congr 1
      omega
  · rw [shift_later k hline, shift_later k]
    unfold step
    split <;> simp [hline]

theorem after_shift (k : Nat) (p : Position) (t : Text) :
    (p.shift k).after t = (p.after t).shift k := by
  induction t generalizing p with
  | nil => rfl
  | cons c t ih => rw [after_cons, after_cons, step_shift, ih]

theorem atMost_shift (k : Nat) (p q : Position) :
    (p.shift k).atMost (q.shift k) = p.atMost q := by
  rw [Bool.eq_iff_iff, atMost_iff, atMost_iff]
  by_cases hp : p.line = 0 <;> by_cases hq : q.line = 0
  · rw [shift, if_pos hp, shift, if_pos hq]
    dsimp only
    omega
  · rw [shift, if_pos hp, shift_later k hq]
    dsimp only
    omega
  · rw [shift_later k hp, shift, if_pos hq]
    dsimp only
    omega
  · rw [shift_later k hp, shift_later k hq]

theorem shift_not_atMost {k column : Nat} (h : column < k) (p : Position) :
    (p.shift k).atMost ⟨0, column⟩ = false := by
  rw [← Bool.not_eq_true, atMost_iff]
  unfold shift
  split <;> dsimp only <;> omega

end Position

/-! ## Mappings moved -/

namespace Stretch

theorem characterMappings_shift (k : Nat) (g s : Position) (t : Text) :
    characterMappings (g.shift k) s t = (characterMappings g s t).map
      (Mapping.shift k) := by
  induction t generalizing g s with
  | nil => rfl
  | cons c t ih =>
      simp only [characterMappings, Position.step_shift, ih]
      split <;> rfl

theorem mappings_shift (k : Nat) (p : Position) (s : Stretch) :
    s.mappings (p.shift k) = (s.mappings p).map (Mapping.shift k) := by
  cases s with
  | unmapped text => rfl
  | placed origin text => rfl
  | copied origin text => exact characterMappings_shift k p origin text

theorem mappingsFrom_shift (k : Nat) (p : Position) (ss : List Stretch) :
    mappingsFrom (p.shift k) ss = (mappingsFrom p ss).map
      (Mapping.shift k) := by
  induction ss generalizing p with
  | nil => rfl
  | cons s ss ih =>
      rw [mappingsFrom, mappingsFrom, mappings_shift, Position.after_shift, ih,
        List.map_append]

end Stretch

namespace Mapping

/-- **A look-up at a moved position among moved mappings finds what it found
before.**  Moving keeps the order of positions, and a look-up depends on nothing
else. -/
theorem lookup_shift (k : Nat) (mappings : List Mapping) (p : Position) :
    lookup (mappings.map (shift k)) (p.shift k) = lookup mappings p := by
  have hfilter : (mappings.map (shift k)).filter
      (fun m => m.generated.atMost (p.shift k)) =
      (mappings.filter fun m => m.generated.atMost p).map (shift k) := by
    rw [List.filter_map]
    congr 1
    exact List.filter_congr fun m _ => Position.atMost_shift k m.generated p
  unfold lookup
  rw [hfilter, List.getLast?_map, Option.map_map]
  rfl

theorem lookup_shift_eq_none {k column : Nat} (h : column < k)
    (mappings : List Mapping) :
    lookup (mappings.map (shift k)) ⟨0, column⟩ = none := by
  apply lookup_eq_none
  intro m hm
  obtain ⟨n, -, rfl⟩ := List.mem_map.1 hm
  exact Position.shift_not_atMost h n.generated

end Mapping

/-! ## Text around a draft -/

namespace Draft

theorem mappingsFrom_between (intro outro : Text) (inner : List Stretch) :
    Stretch.mappingsFrom Position.origin
      (.unmapped intro :: (inner ++ [.unmapped outro])) =
      Stretch.mappingsFrom (Position.origin.after intro) inner := by
  simp [Stretch.mappingsFrom, Stretch.mappings, Stretch.text,
    mappingsFrom_append]

/-- **Text around a draft stands around its code and moves its mappings**, by as
much as the text in front is wide. -/
theorem render?_around (d : Draft) {before : Text} (after : Text) {k : Nat}
    (h : Position.origin.after before = Position.origin.shift k) :
    ((d.prepend before).append after).render? =
      d.render?.map fun r =>
        ⟨before ++ r.code ++ after, r.mappings.map (Mapping.shift k)⟩ := by
  have hstart : Position.origin.after (before ++ d.intro) =
      (Position.origin.after d.intro).shift k := by
    rw [Position.after_append, h, Position.after_shift]
  have hmappings : ∀ inner, Stretch.mappingsFrom Position.origin
      (.unmapped (before ++ d.intro) ::
        (inner ++ [.unmapped (d.outro ++ after)])) =
        (Stretch.mappingsFrom Position.origin
            (.unmapped d.intro :: (inner ++ [.unmapped d.outro]))).map
          (Mapping.shift k) := by
    intro inner
    rw [mappingsFrom_between, mappingsFrom_between, hstart,
      Stretch.mappingsFrom_shift]
  have hcode : ∀ inner, (Stretch.unmapped (before ++ d.intro) ::
      (inner ++ [.unmapped (d.outro ++ after)])).flatMap Stretch.text =
        before ++ (Stretch.unmapped d.intro ::
          (inner ++ [.unmapped d.outro])).flatMap Stretch.text ++ after := by
    intro inner
    simp [Stretch.text]
  unfold render? stretches?
  rw [Option.map_map, Option.map_map, Option.map_map]
  apply Option.map_congr
  intro inner _
  rw [Function.comp_apply, Function.comp_apply, Function.comp_apply,
    Rendered.mk.injEq]
  exact ⟨hcode inner, hmappings inner⟩

end Draft

/-! ## What the options of a run decide -/

/-- Two runs end alike: with the same fault, or with outputs that are
related. -/
inductive EndAlike {E : Type} (related : Output → Output → Prop) :
    Except E Output → Except E Output → Prop
  | fault (e : E) : EndAlike related (.error e) (.error e)
  | output {a b : Output} (h : related a b) : EndAlike related (.ok a) (.ok b)

/-- One output is another one with its code wrapped into a fragment, and nothing
else: the source map answers for each moved position as it did for the
position. -/
structure Output.Wraps (wrapped bare : Output) : Prop where
  code : wrapped.code = "<>".toList ++ bare.code ++ "</>".toList
  /-- On the first line everything is found behind the two characters in
  front. -/
  first : ∀ column, wrapped.map.lookup ⟨0, column + 2⟩ =
    bare.map.lookup ⟨0, column⟩
  /-- On later lines everything is found where it was. -/
  later : ∀ line column, 1 ≤ line → wrapped.map.lookup ⟨line, column⟩ =
    bare.map.lookup ⟨line, column⟩
  /-- The two characters in front stand for nothing. -/
  front : wrapped.map.lookup ⟨0, 0⟩ = none ∧ wrapped.map.lookup ⟨0, 1⟩ = none
  sourceName : wrapped.map.sourceName = bare.map.sourceName
  content : wrapped.map.content = bare.map.content

/-- Two outputs have the same code, and every look-up in them answers the
same. -/
structure Output.AnswersAlike (a b : Output) : Prop where
  code : a.code = b.code
  lookup : ∀ p, a.map.lookup p = b.map.lookup p

theorem Output.wraps (name : Text) (content : Option Text) (r : Rendered) :
    Output.Wraps ⟨"<>".toList ++ r.code ++ "</>".toList,
        ⟨name, content, r.mappings.map (Mapping.shift 2)⟩⟩
      ⟨r.code, ⟨name, content, r.mappings⟩⟩ where
  code := rfl
  first column := Mapping.lookup_shift 2 r.mappings ⟨0, column⟩
  later line column h := by
    have hstays : Position.shift 2 ⟨line, column⟩ = ⟨line, column⟩ :=
      Position.shift_later 2 (Nat.ne_of_gt h)
    have hlookup := Mapping.lookup_shift 2 r.mappings ⟨line, column⟩
    rw [hstays] at hlookup
    exact hlookup
  front :=
    ⟨Mapping.lookup_shift_eq_none (by omega) r.mappings,
      Mapping.lookup_shift_eq_none (by omega) r.mappings⟩
  sourceName := rfl
  content := rfl

/-- Options come into play only when a draft is rendered, so whatever relates
two renderings of every draft relates two runs. -/
theorem EndAlike.transform {related : Output → Output → Prop} {o o' : Options}
    (h : ∀ d, EndAlike related (render o (wrap o d)) (render o' (wrap o' d)))
    (text : Text) :
    EndAlike related (TemplateJsx.transform o text)
      (TemplateJsx.transform o' text) := by
  unfold TemplateJsx.transform
  cases Markup.parse text with
  | error fault => exact .fault _
  | ok tree =>
      simp only [transformTree]
      cases lower text tree with
      | error fault => exact .fault _
      | ok d =>
          have hd := h d
          rw [ok_bind, ok_bind]
          generalize render o (wrap o d) = a, render o' (wrap o' d) = b at hd
          cases hd with
          | fault e => exact .fault _
          | output hab => exact .output hab

theorem render_wraps (o : Options) (d : Draft) :
    EndAlike Output.Wraps (render { o with wrapFragment := true }
        (wrap { o with wrapFragment := true } d))
      (render { o with wrapFragment := false }
        (wrap { o with wrapFragment := false } d)) := by
  have hfront : Position.origin.after "<>".toList =
      Position.origin.shift 2 := by
    decide
  have haround := d.render?_around "</>".toList hfront
  unfold wrap render
  simp only [if_true, Bool.false_eq_true, if_false, haround]
  cases d.render? with
  | none => exact .fault _
  | some r => exact .output (Output.wraps _ _ r)

theorem render_answersAlike (o : Options) (name : Text) (content : Bool)
    (d : Draft) :
    EndAlike Output.AnswersAlike
      (render { o with sourceName := name, includeSourceContent := content }
        (wrap { o with sourceName := name, includeSourceContent := content } d))
      (render o (wrap o d)) := by
  have hwrap : wrap { o with
      sourceName := name, includeSourceContent := content } d = wrap o d := rfl
  rw [hwrap]
  unfold render
  cases (wrap o d).render? with
  | none => exact .fault _
  | some r => exact .output ⟨rfl, fun _ => rfl⟩

/-- **The options of a run decide about nothing but the wrapper and what the
source map says of the template.**  With and without a wrapper a run refuses the
same templates for the same reasons; otherwise the code differs by the wrapper
and the answers of the map by its two characters on the first line.  The name of
the template, and whether its text is carried along, change neither the code nor
any answer. -/
theorem transform_wrapped (o : Options) (text : Text) :
    EndAlike Output.Wraps (transform { o with wrapFragment := true } text)
        (transform { o with wrapFragment := false } text) ∧
      ∀ name content, EndAlike Output.AnswersAlike
        (transform { o with
            sourceName := name, includeSourceContent := content } text)
        (transform o text) :=
  ⟨.transform (render_wraps o) text, fun name content =>
    .transform (render_answersAlike o name content) text⟩

end TemplateJsx
