import TemplateJsx.Lowering.Block
import TemplateJsx.Proofs.Draft.Recording
import TemplateJsx.Proofs.Lowering.Delimiters
import TemplateJsx.Proofs.Lowering.Translation
import TemplateJsx.Proofs.Markup.Tiling

/-!
# The script of a block

Lowering a block checks the delimiters of its tags and records splices on them.
The checks pass on every block that is tagged and laid out in its text, so
lowering comes to recording a list of splices, the block's script
(`lowerBlock_records`).

The script is read off `Block.layout`, which lists the parts of a block in the
order of the text: each tag with the splices on it and the code that they make
of it, and the bodies between them.
-/

namespace TemplateJsx

open Markup

/-! ## Layouts -/

/-- A part of a block: a tag, with the splices on it and the code that they make
of it, or a body. -/
inductive Part (F : Type) where
  /-- A tag, the splices on it and the code it becomes. -/
  | tag (span : Span) (script : List Splice) (code : Text)
  | body (f : F)

namespace Part

variable {F : Type}

def script : Part F → List Splice
  | tag _ script _ => script
  | body _ => []

def bodies : Part F → List F
  | tag _ _ _ => []
  | body f => [f]

def code (body : F → Text) : Part F → Text
  | tag _ _ code => code
  | .body f => body f

def span : Part Fragment → Span
  | tag span _ _ => span
  | body f => f.span

end Part

section Tags

variable {F : Type} (t : Text)

def braceOf (tag : Span) : Span := ⟨tag.stop - 1, tag.stop⟩

def conditionScript (a : Arm F) : List Splice :=
  [.insert a.expression.stop ")".toList,
    .overwrite (braceOf a.tag) "\x7b<>".toList]

def branchScript (start : Nat) : List Splice :=
  [.overwrite ⟨start, start + 1⟩ "</>\x7d ".toList,
    .remove ⟨start + 1, start + 2⟩]

def headScript (a : Arm F) : List Splice :=
  .overwrite ⟨a.tag.start, a.expression.start⟩ "\x7b() => \x7bif (".toList ::
    conditionScript a

def linkScript (a : Arm F) : List Splice :=
  branchScript a.tag.start ++
    .overwrite ⟨a.tag.start + 6, a.expression.start⟩ " \x7bif (".toList ::
      conditionScript a

def elseScript (c : Clause F) : List Splice :=
  branchScript c.tag.start ++ [.overwrite (braceOf c.tag) " \x7b<>".toList]

def eachScript (b : EachBlock F) : List Splice :=
  [.overwrite ⟨b.tag.start, b.expression.start⟩ "\x7b(".toList,
    .overwrite ⟨b.expression.stop, b.context.span.start⟩ ").map((".toList,
    .insert (parametersEnd t b) ") =>".toList,
    .overwrite (braceOf b.tag) (if b.key.isSome then " && <>".toList
      else " <>".toList)]

def promiseScript (b : AwaitBlock F) : List Splice :=
  [.overwrite ⟨b.tag.start, b.expression.start⟩
    "\x7b() => \x7blet _$$p = (".toList, .insert b.expression.stop ");".toList]

/-- What leads to the body for the value. -/
def thenParts (b : AwaitBlock F) : List (Part F) :=
  match b.pending, b.thenTag with
  | some f, some tag =>
    [.tag b.tag (promiseScript b ++ [.overwrite (braceOf b.tag) " <>".toList])
      (promiseCode t b ++ (t.cut b.expression.stop (b.tag.stop - 1) ++
          " <>".toList)), .body f, .tag tag
      [.insert tag.start "</>; ".toList, .overwrite tag (attachThen b.value)]
      ("</>; ".toList ++ thenCode b.value)]
  | _, _ =>
    [.tag b.tag (promiseScript b ++
        [.overwrite ⟨thenWord t b, b.tag.stop⟩ (attachThen b.value)])
      (promiseCode t b ++ (t.cut b.expression.stop (thenWord t b) ++
          thenCode b.value))]

def overwritten (span : Span) (code : Text) : Part F :=
  .tag span [.overwrite span code] code

end Tags

namespace Markup.Block

/-- Where the closing tag of a block starts: at the end of its last part. -/
def closing (b : Block Fragment) : Nat :=
  ((b.parts.getLast?).map Span.stop).getD b.span.start

/-- The tags and bodies of a block in the order of the text, with the splices on
the tags.  The one place where it is written down which splice goes where. -/
def layout (t : Text) (b : Block Fragment) : List (Part Fragment) :=
  match b with
  | conditional c =>
    .tag c.head.tag (headScript c.head) (headCode t c.head) ::
      .body c.head.body :: (c.links.flatMap
        (fun a => [.tag a.tag (linkScript a) (linkCode t a), .body a.body]) ++
        c.otherwise.toList.flatMap (fun e =>
          [.tag e.tag (elseScript e) (elseCode t e), .body e.body]) ++
        [overwritten ⟨b.closing, b.span.stop⟩
          ("</>\x7d".toList ++ List.replicate c.links.length '}' ++
            "\x7d\x7d".toList)])
  | each c =>
    .tag c.tag (eachScript t c) (eachCode t c) :: .body c.body ::
      (match c.fallback with
        | none => [overwritten ⟨b.closing, b.span.stop⟩ "</>)\x7d".toList]
        | some e =>
          [overwritten e.tag "</>)\x7d".toList, .body e.body,
            .tag ⟨b.closing, b.span.stop⟩
              [.remove ⟨b.closing, b.span.stop⟩] []])
  | await c =>
    thenParts t c ++ .body c.body ::
      (c.rescue.toList.flatMap (fun h =>
          [overwritten h.tag (attachCatch h.value), .body h.body]) ++
        [overwritten ⟨b.closing, b.span.stop⟩ "</>\x7d)\x7d\x7d".toList])

/-- The splices of a block, in the order of the text.  They are what lowering
the block records if nothing is missing. -/
def script (t : Text) (b : Block Fragment) : List Splice :=
  (b.layout t).flatMap Part.script

end Markup.Block

/-! ## Recording a script -/

theorem ok_bind {α β : Type} (a : α) (f : α → Except Fault β) :
    (Except.ok a >>= f) = f a :=
  rfl

namespace Draft

variable {d d' : Draft}

def spliceAll (d : Draft) (splices : List Splice) : Except Fault Draft :=
  splices.foldlM Draft.splice d

theorem spliceAll_append (d : Draft) (splices more : List Splice) :
    d.spliceAll (splices ++ more) = d.spliceAll splices >>= fun d =>
      d.spliceAll more := by
  simp only [spliceAll, List.foldlM_append]

theorem splice_text {s : Splice} (h : d.splice s = .ok d') :
    d'.text = d.text := by
  unfold splice at h
  split at h
  · rename_i hrecord
    cases h
    rw [(record_eq_ok.1 hrecord).2.2]
  · cases h

theorem spliceAll_text {splices : List Splice}
    (h : d.spliceAll splices = .ok d') : d'.text = d.text := by
  induction splices generalizing d with
  | nil =>
      cases h
      rfl
  | cons s splices ih =>
      have hstep : d.spliceAll (s :: splices) = d.splice s >>= fun d =>
          d.spliceAll splices := rfl
      rw [hstep] at h
      cases hs : d.splice s with
      | error fault =>
          rw [hs] at h
          cases h
      | ok next =>
          rw [hs] at h
          exact (ih h).trans (splice_text hs)

theorem spliceAll_bind_congr {α : Type} {splices : List Splice}
    {k k' : Draft → Except Fault α}
    (h : ∀ d' : Draft, d'.text = d.text → k d' = k' d') :
    d.spliceAll splices >>= k = d.spliceAll splices >>= k' := by
  cases hs : d.spliceAll splices with
  | error fault => rfl
  | ok next => exact h next (spliceAll_text hs)

end Draft

/-- On drafts of a text an action comes to recording a script.  Checks are part
of the action, and where they pass nothing is seen of them; so a well-formed
block may be argued about without any. -/
def Records (t : Text) (action : Draft → Except Fault Draft)
    (script : List Splice) : Prop :=
  ∀ d : Draft, d.text = t → action d = d.spliceAll script

namespace Records

variable {t : Text} {action next : Draft → Except Fault Draft}
  {script more : List Splice}

theorem splice (t : Text) (s : Splice) :
    Records t (fun d => d.splice s) [s] := by
  intro d _
  simp [Draft.spliceAll]

theorem bind (h : Records t action script) (h' : Records t next more) :
    Records t (fun d => action d >>= next) (script ++ more) := by
  intro d hd
  rw [Draft.spliceAll_append, ← Draft.spliceAll_bind_congr fun d' hd' =>
    h' d' (hd'.trans hd)]
  exact congrArg (· >>= next) (h d hd)

theorem foldlM {α : Type} {step : Draft → α → Except Fault Draft}
    {scriptOf : α → List Splice} {values : List α}
    (h : ∀ a ∈ values, Records t (fun d => step d a) (scriptOf a)) :
    Records t (fun d => values.foldlM step d) (values.flatMap scriptOf) := by
  induction values with
  | nil => exact fun d _ => rfl
  | cons a values ih =>
      rw [List.flatMap_cons]
      exact (h a (by simp)).bind (ih fun b hb => h b (by simp [hb]))

/-- A check that passes may be left out, and what it gives is known. -/
theorem check {α : Type} {x : Draft → Except Fault α} {v : α}
    {k : α → Draft → Except Fault Draft}
    (hx : ∀ d : Draft, d.text = t → x d = .ok v) (h : Records t (k v) script) :
    Records t (fun d => x d >>= fun a => k a d) script := by
  intro d hd
  have hpass : (x d >>= fun a => k a d) = k v d := by
    rw [hx d hd]
    rfl
  exact hpass.trans (h d hd)

theorem expect (hbound : t.byteLength < offsetBound) {s e : Nat} {word : Text}
    (hword : t.Stands s word e) {k : Nat → Draft → Except Fault Draft}
    (h : Records t (k e) script) :
    Records t (fun d => expectAt d.text s word >>= fun stop =>
      k stop d) script :=
  check (fun d hd => by rw [hd]; exact expectAt_eq_ok hbound hword) h

theorem terminator {block : Span} {keyword : Text} {closing : Nat}
    (hcloses : TemplateJsx.terminator t block keyword = .ok closing)
    {k : Nat → Draft → Except Fault Draft} (h : Records t (k closing) script) :
    Records t (fun d =>
      TemplateJsx.terminator d.text block keyword >>= fun stop =>
      k stop d) script :=
  check (fun d hd => by rw [hd]; exact hcloses) h

end Records

/-! ## The tags of a block -/

/-- The text up to the end of a tag ends in a brace. -/
def EndsInBrace (t : Text) (tag : Span) : Prop :=
  ∃ s w, tag.start ≤ s ∧ t.Stands s (w ++ ['}']) tag.stop

namespace EndsInBrace

variable {t : Text} {tag : Span}

theorem lt (h : EndsInBrace t tag) : tag.start < tag.stop := by
  obtain ⟨s, w, hs, hstands⟩ := h
  exact Nat.lt_of_le_of_lt hs (hstands.lt (by simp))

theorem check (hbound : t.byteLength < offsetBound) (h : EndsInBrace t tag)
    {k : Nat → Draft → Except Fault Draft} {script : List Splice}
    (hk : Records t (k (tag.stop - 1)) script) :
    Records t (fun d => closingBrace d.text tag >>= fun brace => k brace d)
      script := by
  obtain ⟨s, w, hs, hstands⟩ := h
  exact Records.check
    (fun d hd => by rw [hd]; exact closingBrace_eq_ok hbound hs hstands) hk

theorem records (h : EndsInBrace t tag) (code : Text) :
    Records t (fun d => d.overwrite (tag.stop - 1) (tag.stop - 1 + 1) code)
      [.overwrite (braceOf tag) code] := by
  have hstop : tag.stop - 1 + 1 = tag.stop := by
    have := h.lt
    omega
  rw [hstop]
  exact Records.splice t (.overwrite (braceOf tag) code)

end EndsInBrace

section TagFacts

variable {t : Text}

theorem Markup.ExpressionTag.endsInBrace {opening : Text} {tag x : Span}
    (h : ExpressionTag t opening tag x) :
    EndsInBrace t tag := by
  obtain ⟨g, -, hopens⟩ := h.opens
  obtain ⟨w, -, hcloses⟩ := h.closes
  exact ⟨x.stop, w, Nat.le_trans hopens.le h.inside.cuts.1, hcloses⟩

theorem Markup.ShortTag.endsInBrace {tag x : Span} {value : Option Binding}
    (h : ShortTag t tag x value) :
    EndsInBrace t tag := by
  obtain ⟨g, -, hopens⟩ := h.opens
  obtain ⟨g', m, e, -, hthen, hvalue, w, -, hcloses⟩ := h.closes
  have hle : tag.start ≤ e := by
    have h₁ := hopens.le
    have h₂ := h.inside.cuts.1
    have h₃ := hthen.le
    have h₄ : m ≤ e := (hvalue.cuts hthen.right).1.1
    omega
  exact ⟨e, w, hle, hcloses⟩

theorem Markup.WordTag.endsInBrace {opening : Text} {tag : Span}
    (h : WordTag t opening tag.start tag.stop) :
    EndsInBrace t tag := by
  obtain ⟨w, -, hstands⟩ := h
  exact ⟨tag.start, opening ++ w, Nat.le_refl _, by simpa using hstands⟩

end TagFacts

section Conditionals

variable {F : Type} {t : Text} (hbound : t.byteLength < offsetBound)
include hbound

theorem closeCondition_records {a : Arm F} (h : EndsInBrace t a.tag) :
    Records t (closeCondition a) (conditionScript a) :=
  (Records.splice t (.insert a.expression.stop ")".toList)).bind
    (h.check hbound (h.records _))

theorem closeBranch_eq {start stop : Nat}
    (h : t.Stands start "\x7b:else".toList stop) {d : Draft} (hd : d.text = t) :
    closeBranch start d = d.spliceAll (branchScript start) >>= fun d =>
      .ok (start + 6, d) := by
  obtain ⟨hbrace, hrest⟩ :=
    (show t.Stands start ("\x7b".toList ++ (":".toList ++ "else".toList)) stop
      from h).split
  obtain ⟨hcolon, hword⟩ := hrest.split
  have hlast := hword.stop_eq
  have hbrace := expectAt_eq_ok hbound hbrace
  have hcolon := expectAt_eq_ok hbound hcolon
  have hword := expectAt_eq_ok hbound hword
  have hone : Text.byteLength "\x7b".toList = 1 := by decide
  have hone' : Text.byteLength ":".toList = 1 := by decide
  have hfour : Text.byteLength "else".toList = 4 := by decide
  simp only [hone, hone', hfour] at hbrace hcolon hword hlast
  subst hd hlast
  simp only [closeBranch, hbrace, ok_bind, hcolon, hword, Draft.overwrite,
    Draft.remove, Draft.spliceAll, branchScript, List.foldlM_cons,
    List.foldlM_nil, bind_assoc, pure_bind, Nat.add_assoc]
  rfl

theorem closeBranch_records {start stop : Nat}
    (h : t.Stands start "\x7b:else".toList stop)
    (next : Nat → Draft → Except Fault Draft) {script : List Splice}
    (hnext : Records t (next (start + 6)) script) :
    Records t (fun d => closeBranch start d >>= fun (stop, d) => next stop d)
      (branchScript start ++ script) := by
  intro d hd
  have hbranch : (closeBranch start d >>= fun (stop, d) => next stop d) =
      d.spliceAll (branchScript start) >>= next (start + 6) := by
    rw [closeBranch_eq hbound h hd, bind_assoc]
    rfl
  have hrecords : Records t (fun d => d.spliceAll (branchScript start))
      (branchScript start) := fun d _ => rfl
  exact hbranch.trans (hrecords.bind hnext d hd)

theorem lowerLink_records {a : Arm F} (h : LinkTag t a.tag a.expression) :
    Records t (fun d => lowerLink d a) (linkScript a) := by
  obtain ⟨g, -, htag⟩ := h
  obtain ⟨g', -, hopens⟩ := htag.opens
  have hword : t.Stands a.tag.start
      ("\x7b:else".toList ++ (g ++ "if".toList ++ g')) a.expression.start := by
    simpa using hopens
  have hrest : Records t (fun d =>
      d.overwrite (a.tag.start + 6) a.expression.start " \x7bif (".toList >>=
      closeCondition a) ([_] ++ conditionScript a) :=
    (Records.splice t (.overwrite ⟨a.tag.start + 6, a.expression.start⟩
      " \x7bif (".toList)).bind (closeCondition_records hbound htag.endsInBrace)
  exact closeBranch_records hbound hword.split.1
    (fun stop d =>
      d.overwrite stop a.expression.start " \x7bif (".toList >>=
      closeCondition a) hrest

theorem lowerElse_records {c : Clause F}
    (h : WordTag t "\x7b:else".toList c.tag.start c.tag.stop) :
    Records t (lowerElse c) (elseScript c) := by
  have hbrace : Records t (fun d => closingBrace d.text c.tag >>= fun brace =>
      d.overwrite brace (brace + 1) " \x7b<>".toList)
        [.overwrite (braceOf c.tag) " \x7b<>".toList] :=
    h.endsInBrace.check hbound (h.endsInBrace.records _)
  obtain ⟨w, -, hstands⟩ := h
  exact closeBranch_records hbound hstands.split.1 (fun _ => _) hbrace

end Conditionals

/-! ## Blocks -/

namespace Markup.Block

variable {t : Text} {b : Block Fragment}

theorem script_conditional (t : Text) (c : IfBlock Fragment) :
    (conditional c).script t =
      headScript c.head ++ (c.links.flatMap linkScript ++
        c.otherwise.toList.flatMap elseScript) ++
        [.overwrite ⟨(conditional c).closing, c.span.stop⟩
          ("</>\x7d".toList ++ List.replicate c.links.length '}' ++
            "\x7d\x7d".toList)] := by
  simp only [script, layout, List.flatMap_cons, List.flatMap_append,
    List.flatMap_assoc, List.flatMap_nil, List.append_nil, List.append_assoc,
    Part.script, List.nil_append]
  rfl

theorem script_each (t : Text) (c : EachBlock Fragment) : (each c).script t =
    eachScript t c ++
      match c.fallback with
      | none => [.overwrite ⟨(each c).closing, c.span.stop⟩ "</>)\x7d".toList]
      | some e =>
        [.overwrite e.tag "</>)\x7d".toList,
          .remove ⟨(each c).closing, c.span.stop⟩] := by
  cases hfallback : c.fallback <;> simp only [script, layout, hfallback] <;> rfl

def thenScript (t : Text) (c : AwaitBlock Fragment) : List Splice :=
  match c.pending, c.thenTag with
  | some _, some tag =>
    [.overwrite (braceOf c.tag) " <>".toList, .insert tag.start "</>; ".toList,
      .overwrite tag (attachThen c.value)]
  | _, _ => [.overwrite ⟨thenWord t c, c.tag.stop⟩ (attachThen c.value)]

theorem script_await (t : Text) (c : AwaitBlock Fragment) : (await c).script t =
    promiseScript c ++ (thenScript t c ++
      c.rescue.toList.flatMap (fun h =>
        [.overwrite h.tag (attachCatch h.value)])) ++
        [.overwrite ⟨(await c).closing, c.span.stop⟩
          "</>\x7d)\x7d\x7d".toList] := by
  have hthen : (thenParts t c).flatMap Part.script =
      promiseScript c ++ thenScript t c := by
    cases hpending : c.pending <;> cases htag : c.thenTag <;>
      simp only [thenParts, thenScript, hpending, htag] <;> rfl
  simp only [script, layout, List.flatMap_cons, List.flatMap_append,
    List.flatMap_assoc, List.flatMap_nil, List.append_nil, List.append_assoc,
    Part.script, List.nil_append, hthen]
  rfl

end Markup.Block

theorem openIf_eq {F : Type} (b : IfBlock F) (d : Draft) : openIf b d = (do
    let _ ← expectAt d.text b.head.tag.start "\x7b#if".toList
    let d ← d.overwrite b.head.tag.start b.head.expression.start
      "\x7b() => \x7bif (".toList
    let d ← closeCondition b.head d
    let d ← b.links.foldlM lowerLink d
    b.otherwise.toList.foldlM (fun d c => lowerElse c d) d) := by
  unfold openIf
  cases b.otherwise with
  | none => rfl
  | some c =>
      simp only [Option.toList_some, List.foldlM_cons,
        List.foldlM_nil, bind_pure]

theorem openIf_records {t : Text} (hbound : t.byteLength < offsetBound)
    {b : IfBlock Fragment} (htagged : (Block.conditional b).Tagged t) :
    Records t (openIf b) (headScript b.head ++
      (b.links.flatMap linkScript ++ b.otherwise.toList.flatMap
        elseScript)) := by
  obtain ⟨hhead, hlinks, hotherwise⟩ := htagged
  obtain ⟨g, -, hopens⟩ := hhead.opens
  have helse : Records t (fun d =>
      b.otherwise.toList.foldlM (fun d c => lowerElse c d) d) _ :=
    Records.foldlM fun c hc =>
      lowerElse_records hbound (hotherwise c (Option.mem_toList.1 hc))
  have hlinks : Records t (fun d => b.links.foldlM lowerLink d) _ :=
    Records.foldlM fun a ha => lowerLink_records hbound (hlinks a ha)
  rw [funext (openIf_eq b)]
  refine .expect hbound hopens.split.1 ?_
  refine (Records.splice t (.overwrite _ _)).bind ?_
  exact (closeCondition_records hbound hhead.endsInBrace).bind
    (hlinks.bind helse)

/-! ## Iterations -/

theorem head_not_word {v r : Text} (hv : Text.Blank v)
    (hr : ∃ c ∈ r.head?, isWordChar c = false) :
    ∃ c ∈ (v ++ r).head?, isWordChar c = false := by
  cases v with
  | nil => exact hr
  | cons c v => exact ⟨c, rfl, isWordChar_of_isBlank (hv c (by simp))⟩

theorem not_startsIdentifier {c : Char} (h : (isBlank c || c == ',') = true) :
    startsIdentifier c = false := by
  rcases Bool.or_eq_true_iff.1 h with h | h
  · exact startsIdentifier_of_isBlank h
  · rw [eq_of_beq h]
    decide

theorem not_isWordChar {c : Char} (h : (isBlank c || c == ',') = true) :
    isWordChar c = false := by
  rcases Bool.or_eq_true_iff.1 h with h | h
  · exact isWordChar_of_isBlank h
  · rw [eq_of_beq h]
    decide

theorem last_not_word {g : Text} (hne : g ≠ [])
    (hg : ∀ c ∈ g, isWordChar c = false) :
    ∃ c ∈ g.getLast?, isWordChar c = false := by
  obtain ⟨c, hc⟩ : ∃ c, g.getLast? = some c := by
    rw [← Option.isSome_iff_exists]
    simpa using hne
  exact ⟨c, hc, hg c (List.mem_of_getLast? hc)⟩

section Iterations

variable {F : Type} {t : Text} {b : EachBlock F}

/-- Behind the parameters of an iteration comes white space, a key or the
brace. -/
theorem Markup.KeyPart.after {m e stop : Nat} {key : Option Span} {w : Text}
    (h : KeyPart t m key e) (hw : Text.Blank w)
    (hend : t.Stands e (w ++ ['}']) stop) :
    ∃ r, t.Stands m (r ++ ['}']) stop ∧ ∃ c ∈ (r ++ ['}']).head?,
      isWordChar c = false := by
  cases key with
  | none =>
      obtain rfl : e = m := h
      exact ⟨w, hend, head_not_word hw ⟨'}', rfl, by decide⟩⟩
  | some k =>
      obtain ⟨v, g, g', hv, -, -, hopens, ⟨inside, -, hinside⟩, hcloses⟩ := h
      refine ⟨v ++ '(' :: g ++ inside ++ (g' ++ [')']) ++ w, ?_, ?_⟩
      · simpa using ((hopens.append hinside).append hcloses).append hend
      · have hparen : ∃ c ∈ List.head? ['('], isWordChar c = false :=
          ⟨'(', rfl, by decide⟩
        simpa using head_not_word hv hparen

theorem mem_separator {v w : Text} (hv : Text.Blank v) (hw : Text.Blank w) :
    ∀ c ∈ v ++ ',' :: w, (isBlank c || c == ',') = true := by
  intro c hc
  rcases List.mem_append.1 hc with hc | hc
  · simp [hv c hc]
  · rcases List.mem_cons.1 hc with rfl | hc
    · decide
    · simp [hw c hc]

/-- An index is found behind white space and a comma. -/
theorem Markup.IndexPart.found {s m stop : Nat} {index r : Text}
    (h : IndexPart t s (some index) m) (hr : t.Stands m r stop)
    (hhead : ∃ c ∈ r.head?, isWordChar c = false) :
    ∃ start, findWord t s stop index = .ok start ∧
      start + index.byteLength = m ∧
      start = s + Text.byteLength ((t.from s).takeWhile fun c =>
        isBlank c || c == ',') := by
  obtain ⟨v, w, hv, hw, ⟨x, hx, hstarts⟩, -, hstands⟩ := h
  obtain ⟨index', rfl⟩ : ∃ index', index = x :: index' := by
    cases index with
    | nil => simp at hx
    | cons y index' => exact ⟨index', by simpa using hx⟩
  have hstands : t.Stands s ((v ++ ',' :: w) ++ x :: index') m := by
    simpa using hstands
  have hother : (isBlank x || x == ',') = false := by
    cases hseparates : isBlank x || x == ',' with
    | false => rfl
    | true => simp [not_startsIdentifier hseparates] at hstarts
  -- The index begins with a character that the separator lacks, so it cannot be
  -- found earlier.
  have hmissing : x ∉ v ++ ',' :: w := by
    intro hmem
    simp [mem_separator hv hw x hmem] at hother
  obtain ⟨hseparator, hword⟩ := hstands.split
  obtain ⟨rest, hfrom, -⟩ := hstands.dropTo?
  have hbefore :=
    last_not_word (by simp) fun c hc =>
      not_isWordChar (mem_separator hv hw c hc)
  refine ⟨_, findWord_eq_ok hseparator hword hr hmissing hbefore hhead,
    hword.stop_eq.symm, ?_⟩
  rw [Text.from, hfrom, Option.getD_some, List.append_assoc,
    List.takeWhile_append_of_pos (mem_separator hv hw)]
  simp [hother]

/-- The parameters of an iteration end where its index does, if it has one.  The
index is searched for as a word, and the search finds the one that the tag
has. -/
theorem Markup.EachTag.parametersStop_eq
    (h : EachTag t b.tag b.expression b.context b.index b.key) :
    parametersStop t b = .ok (parametersEnd t b) ∧
      IndexPart t b.context.span.stop b.index (parametersEnd t b) ∧
      ∃ e, KeyPart t (parametersEnd t b) b.key e ∧ ∃ w, Text.Blank w ∧
      t.Stands e (w ++ ['}']) b.tag.stop := by
  obtain ⟨m, e, hindex, hkey, w, hw, hend⟩ := h.closes
  obtain ⟨r, hr, hhead⟩ := hkey.after hw hend
  suffices hstop : parametersEnd t b = m ∧ parametersStop t b = .ok m by
    rw [hstop.1]
    exact ⟨hstop.2, hindex, e, hkey, w, hw, hend⟩
  cases hb : b.index with
  | none =>
      rw [hb] at hindex
      obtain rfl : m = b.context.span.stop := hindex
      simp only [parametersEnd, parametersStop, hb, and_self]
  | some index =>
      rw [hb] at hindex
      obtain ⟨start, hfound, rfl, rfl⟩ := hindex.found hr hhead
      refine ⟨by simp only [parametersEnd, hb], ?_⟩
      simp only [parametersStop, hb, hfound, ok_bind]
      rfl

theorem Markup.EachTag.parameters
    (h : EachTag t b.tag b.expression b.context b.index b.key) :
    parametersStop t b = .ok (parametersEnd t b) ∧
      (∃ g, t.Stands b.context.span.start g (parametersEnd t b)) ∧
      ∃ r, t.Stands (parametersEnd t b) (r ++ ['}']) b.tag.stop := by
  obtain ⟨hstop, hindex, e, hkey, w, hw, hend⟩ := h.parametersStop_eq
  obtain ⟨r, hr, -⟩ := hkey.after hw hend
  obtain ⟨g, hg⟩ := (hindex.cuts h.binds.right).stands
  exact ⟨hstop, ⟨_, h.binds.append hg⟩, r, hr⟩

theorem Markup.EachTag.endsInBrace
    (h : EachTag t b.tag b.expression b.context b.index b.key) :
    EndsInBrace t b.tag := by
  obtain ⟨g, -, hopens⟩ := h.opens
  obtain ⟨g', g'', -, -, hjoins⟩ := h.joins
  obtain ⟨-, ⟨u, hu⟩, r, hr⟩ := h.parameters
  have hle : b.tag.start ≤ parametersEnd t b := by
    have h₁ := hopens.le
    have h₂ := h.inside.cuts.1
    have h₃ := hjoins.le
    have h₄ := hu.le
    omega
  exact ⟨_, r, hle, hr⟩

end Iterations

theorem openEach_records {t : Text} (hbound : t.byteLength < offsetBound)
    {b : EachBlock Fragment} (htagged : (Block.each b).Tagged t) :
    Records t (openEach b) (eachScript t b) := by
  obtain ⟨htag, -⟩ := htagged
  obtain ⟨g, -, hopens⟩ := htag.opens
  refine .expect hbound hopens.split.1 ?_
  refine (Records.splice t (.overwrite _ _)).bind ?_
  refine (Records.splice t (.overwrite _ _)).bind ?_
  refine .check (fun d hd => by rw [hd]; exact htag.parameters.1) ?_
  refine (Records.splice t (.insert _ _)).bind ?_
  exact htag.endsInBrace.check hbound (htag.endsInBrace.records _)

theorem closeEach_records {t : Text} (hbound : t.byteLength < offsetBound)
    {b : EachBlock Fragment} (htagged : (Block.each b).Tagged t) (stop : Nat) :
    Records t (closeEach b stop)
      (match b.fallback with
      | none => [.overwrite ⟨stop, b.span.stop⟩ "</>)\x7d".toList]
      | some e =>
        [.overwrite e.tag "</>)\x7d".toList, .remove ⟨stop, b.span.stop⟩]) := by
  obtain ⟨-, hfallback⟩ := htagged
  unfold closeEach
  cases hb : b.fallback with
  | none => exact Records.splice t (.overwrite _ _)
  | some c =>
      obtain ⟨w, -, hword⟩ := hfallback c hb
      exact .expect hbound hword.split.1
        ((Records.splice t (.overwrite _ _)).bind (.splice t (.remove _)))

/-! ## Await blocks -/

/-- Behind a word that may name a value comes white space or the brace. -/
theorem Markup.ValuePart.after {t : Text} {m e stop : Nat}
    {value : Option Binding} {w : Text} (h : ValuePart t m value e)
    (hw : Text.Blank w) (hend : t.Stands e (w ++ ['}']) stop) :
    ∃ r, t.Stands m r stop ∧ ∃ c ∈ r.head?, isWordChar c = false := by
  cases value with
  | none =>
      obtain rfl : e = m := h
      exact ⟨w ++ ['}'], hend, head_not_word hw ⟨'}', rfl, by decide⟩⟩
  | some b =>
      obtain ⟨⟨g, hg, hgap⟩, hname, rfl⟩ := h
      refine ⟨g ++ (b.name ++ (w ++ ['}'])),
        hgap.append (hname.append hend), ?_⟩
      cases g with
      | nil => exact absurd rfl hg.2
      | cons c g => exact ⟨c, rfl, isWordChar_of_isBlank (hg.1 c (by simp))⟩

/-- The word `then` is found behind white space. -/
theorem Markup.ValuePart.findWord_then {t : Text} {s n m e stop : Nat}
    {value : Option Binding} {g w : Text} (hg : Text.Gap g)
    (hgap : t.Stands s g n) (hword : t.Stands n "then".toList m)
    (h : ValuePart t m value e) (hw : Text.Blank w)
    (hend : t.Stands e (w ++ ['}']) stop) :
    findWord t s stop "then".toList = .ok n := by
  obtain ⟨r, hr, hhead⟩ := h.after hw hend
  have hmissing : 't' ∉ g := fun hmem => absurd (hg.1 _ hmem) (by decide)
  have hbefore :=
    last_not_word hg.2 fun c hc => isWordChar_of_isBlank (hg.1 c hc)
  exact findWord_eq_ok hgap hword hr hmissing hbefore hhead

theorem Markup.ShortTag.word {F : Type} {t : Text} {b : AwaitBlock F}
    (h : ShortTag t b.tag b.expression b.value) :
    findWord t b.expression.stop b.tag.stop "then".toList = .ok (thenWord t b) ∧
      (∃ g, Text.Blank g ∧ t.Stands b.expression.stop g (thenWord t b)) ∧
      ∃ r, r ≠ [] ∧ t.Stands (thenWord t b) r b.tag.stop := by
  obtain ⟨g, m, e, hg, hthen, hvalue, w, hw, hcloses⟩ := h.closes
  obtain ⟨r, hr, -⟩ := hvalue.after hw hcloses
  obtain ⟨hgap, hword⟩ := hthen.split
  have hfind := hvalue.findWord_then hg hgap hword hw hcloses
  obtain ⟨rest, hfrom, -⟩ := hthen.dropTo?
  have htake : (t.from b.expression.stop).takeWhile isBlank = g := by
    rw [Text.from, hfrom, Option.getD_some, List.append_assoc]
    exact Text.takeWhile_blank_append hg.1 (by simp; decide)
  have hstart : thenWord t b = b.expression.stop + g.byteLength := by
    rw [thenWord, htake]
  rw [hstart]
  exact ⟨hfind, ⟨g, hg.1, hgap⟩, "then".toList ++ r, by simp, hword.append hr⟩

theorem lowerThen_records {t : Text} (hbound : t.byteLength < offsetBound)
    {b : AwaitBlock Fragment} (htagged : (Block.await b).Tagged t) :
    Records t (lowerThen b) (Block.thenScript t b) := by
  obtain ⟨htags, -⟩ := htagged
  unfold lowerThen Block.thenScript
  cases hpending : b.pending <;> cases hthen : b.thenTag <;>
    simp only [hpending, hthen] at htags ⊢
  case none.none =>
    exact .check (fun d hd => by rw [hd]; exact htags.word.1)
      (htags.endsInBrace.check hbound (.splice t (.overwrite _ _)))
  case some.some f tag =>
    obtain ⟨htag, m, e, hopens, -⟩ := htags
    refine htag.endsInBrace.check hbound (.expect hbound hopens ?_)
    refine (htag.endsInBrace.records _).bind ?_
    exact (Records.splice t (.insert _ _)).bind (.splice t (.overwrite _ _))

theorem openAwait_eq {F : Type} (b : AwaitBlock F) (d : Draft) :
    openAwait b d = (do
    let _ ← expectAt d.text b.tag.start "\x7b#await".toList
    let d ← d.overwrite b.tag.start b.expression.start
      "\x7b() => \x7blet _$$p = (".toList
    let d ← d.insert b.expression.stop ");".toList
    let d ← lowerThen b d
    b.rescue.toList.foldlM (fun d h => lowerCatch h d) d) := by
  unfold openAwait
  cases b.rescue with
  | none => rfl
  | some h =>
      simp only [Option.toList_some, List.foldlM_cons,
        List.foldlM_nil, bind_pure]

theorem openAwait_records {t : Text} (hbound : t.byteLength < offsetBound)
    {b : AwaitBlock Fragment} (htagged : (Block.await b).Tagged t) :
    Records t (openAwait b) (promiseScript b ++ (Block.thenScript t b ++
      b.rescue.toList.flatMap fun h =>
        [.overwrite h.tag (attachCatch h.value)])) := by
  have hthen := lowerThen_records hbound htagged
  obtain ⟨htags, hrescue⟩ := htagged
  obtain ⟨m, hopens⟩ : ∃ m, t.Stands b.tag.start "\x7b#await".toList m := by
    split at htags
    · obtain ⟨g, -, hopens⟩ := htags.1.opens
      exact ⟨_, hopens.split.1⟩
    · obtain ⟨g, -, hopens⟩ := htags.opens
      exact ⟨_, hopens.split.1⟩
    · exact htags.elim
  have hcatch : Records t (fun d =>
        b.rescue.toList.foldlM (fun d h => lowerCatch h d) d)
      (b.rescue.toList.flatMap fun h =>
        [.overwrite h.tag (attachCatch h.value)]) := by
    refine Records.foldlM fun h hh => ?_
    obtain ⟨m, e, hword, -⟩ := (hrescue h (Option.mem_toList.1 hh)).opens
    exact .expect hbound hword (.splice t (.overwrite _ _))
  rw [funext (openAwait_eq b)]
  refine .expect hbound hopens ?_
  refine (Records.splice t (.overwrite _ _)).bind ?_
  exact (Records.splice t (.insert _ _)).bind (hthen.bind hcatch)

theorem Markup.Abut.getLast {s e : Nat} {xs : List Span} (h : Abut s xs e) :
    e = ((xs.getLast?).map Span.stop).getD s := by
  induction xs generalizing s with
  | nil => exact h
  | cons x xs ih =>
      rw [ih h.2]
      cases xs with
      | nil => rfl
      | cons y ys =>
          rw [List.getLast?_cons_cons]
          cases hlast : (y :: ys).getLast? with
          | none => simp at hlast
          | some z => rfl

/-- The closing tag of a block is found from anywhere before it. -/
theorem Markup.ClosingTag.terminator {F : Type} {t : Text}
    (hbound : t.byteLength < offsetBound) {b : Block F} {s e stop : Nat}
    (h : ClosingTag t b.keyword e stop) (hs : t.isBoundary s = true)
    (hle : s ≤ e) :
    TemplateJsx.terminator t ⟨s, stop⟩ b.keyword = .ok e := by
  have hboundary : t.isBoundary e = true := h.cuts.2.1
  obtain ⟨u, hu⟩ :=
    (Text.isBoundary_iff.1 hs).between (Text.isBoundary_iff.1 hboundary) hle
  have hkeyword : '{' ∉ b.keyword := by
    cases b with
    | conditional b => exact (by decide : '{' ∉ "if".toList)
    | each b => exact (by decide : '{' ∉ "each".toList)
    | await b => exact (by decide : '{' ∉ "await".toList)
  exact terminator_eq_ok hbound hkeyword hu h

theorem Markup.Block.Laid.terminator {t : Text}
    (hbound : t.byteLength < offsetBound) {b : Block Fragment}
    (hlaid : b.Laid t) (hparts : ∀ x ∈ b.parts, t.Cuts x)
    (hspan : t.Cuts b.span) :
    TemplateJsx.terminator t b.span b.keyword = .ok b.closing := by
  obtain ⟨e, hrow, hcloses⟩ := hlaid.parts
  have hclosing : e = b.closing := hrow.getLast
  rw [← hclosing]
  have hle : b.span.start ≤ e :=
    (hrow.ascend.bounds fun x hx => (hparts x hx).1).1
  exact hcloses.terminator hbound hspan.2.1 hle

/-- **Lowering a block comes to recording its script**, if the block is laid out
and tagged as the text has it.  All its checks pass, all its searches find what
they should, and nothing else is done. -/
theorem lowerBlock_records {t : Text} (hbound : t.byteLength < offsetBound)
    {b : Block Fragment} (h : (Node.block b).Sound t) :
    Records t (fun d => lowerBlock d b) (b.script t) := by
  obtain ⟨hlaid, htagged⟩ := h.placed.parts
  obtain ⟨w, -, hspan⟩ := h.placed.covers
  have hparts := htagged.cuts_parts fun f hf => (h.fragments f hf).cuts
  have hcloses := hlaid.terminator hbound hparts hspan.cuts
  cases b with
  | conditional b =>
      rw [Block.script_conditional]
      exact (openIf_records hbound htagged).bind
        (.terminator hcloses (.splice t (.overwrite _ _)))
  | each b =>
      rw [Block.script_each]
      exact (openEach_records hbound htagged).bind
        (.terminator hcloses (closeEach_records hbound htagged _))
  | await b =>
      rw [Block.script_await]
      exact (openAwait_records hbound htagged).bind
        (.terminator hcloses (.splice t (.overwrite _ _)))

end TemplateJsx
