import TemplateJsx.Proofs.Markup.Alternatives

/-!
# Reading a sketch back

What is written for a sketch is read as the sketch, with spans in it that cut
out of the text what was written for each part: `parse_print`.

For each constructor of a sketch there is one lemma, which assumes that its
parts are read.  A node is read whatever comes after it.  A body is read up to
where a body ends, and what may follow a body up to the closing tag of its
block.
-/

namespace TemplateJsx.Markup

open Peg (Cursor Match)
open Peg.Pattern

/-! ## What it is to be read -/

def LinkPieces (arms : List (Arm Fragment)) (o : Option (Clause Fragment))
    (ps : List Piece) : Prop :=
  ps = [.links arms o] ∨ (arms = [] ∧ ps = o.toList.map Piece.clause)

section

variable (t : Text)

/-- A node is read, whatever comes after it: the grammar takes just what was
written for it and leaves a piece that depicts it. -/
def Sketch.Read (s : Sketch) : Prop :=
  ∀ names v, Takes t node names (s.print ++ v) names v fun ps =>
    ∃ n, ps = [.node n] ∧ s.Depicted t n

/-- A run of nodes is read up to where a body ends.  It is the end of the body
that stops the last node, not the text after it. -/
def Content.Read (content : Content) : Prop :=
  ∀ names v, Halts v → Takes t (.many node) names (content.print ++ v)
    names v fun ps =>
    ∃ ns, ps = ns.map Piece.node ∧ content.Depicted t ns

def Alternative.Read (a : Alternative) : Prop :=
  ∀ names v, Takes t (.optional alternate) names (a.print ++ '{' :: '/' :: v)
    names ('{' :: '/' :: v) fun ps =>
    ∃ arms o, LinkPieces arms o ps ∧ a.Depicted t arms o

def Fallback.Read (f : Fallback) : Prop :=
  ∀ names v, Takes t (.optional (.rule .elseClause)) names
      (f.print ++ '{' :: '/' :: v) names ('{' :: '/' :: v) fun ps =>
    ∃ o, ps = o.toList.map Piece.clause ∧ f.Depicted t o

def Rescue.Read (r : Rescue) : Prop :=
  ∀ names v, Takes t (.optional (.rule .catchClause)) names
      (r.print ++ '{' :: '/' :: v) names ('{' :: '/' :: v) fun ps =>
    ∃ o, ps = o.toList.map (Piece.handler .catchClause) ∧ r.Depicted t o

end

variable {t : Text} {names : List Text} {v : Text}

/-! ## Runs of nodes -/

/-- Plain text stops in front of every other node. -/
theorem Sketch.stopsText_print (s : Sketch) (v : Text) :
    stopsText (s.print ++ v) = true := by
  cases s with
  | element name content =>
      obtain ⟨c, w, htext⟩ := List.exists_cons_of_ne_nil name.ne_nil
      have hc : c.isAlpha = true :=
        isAlpha_of_isLower (name.lower c (by simp [htext]))
      simp [Sketch.print, htext, stopsText, hc]
  | _ => rfl

theorem lead_takes (lead : Option PlainText) (nodes : List Node → Prop)
    {u : Text} (hu : stopsText u = true)
    (h : Takes t (.many node) names u names v fun ps =>
      ∃ ns, ps = ns.map Piece.node ∧ nodes ns) :
    Takes t (.many node) names (leadText lead ++ u) names v fun ps =>
      ∃ ns ms, ps = ns.map Piece.node ∧ LeadDepicted t lead ns ms ∧
        nodes ms := by
  cases lead with
  | none =>
      refine h.imp ?_
      rintro _ ⟨ns, rfl, hns⟩
      exact ⟨ns, ns, rfl, rfl, hns⟩
  | some w =>
      have hbefore : ∀ r ∈ blockRules ++ (tagRules ++ [.mustache]),
          Refuses t (.rule r) names (w.text ++ u) := by
        simp only [List.forall_mem_append, List.forall_mem_singleton]
        exact ⟨blockRules_refuse (w.isPrefixOf_eq_false (.inl rfl)),
          tagRules_refuse (w.isPrefixOf_eq_false (.inr rfl)),
          .rule (.first (.literal (w.isPrefixOf_eq_false (.inl rfl))))⟩
      refine .more rfl (node_takes (blockRules ++ (tagRules ++ [.mustache])) rfl
        hbefore (w.takes hu)) ?_
      rintro _ ⟨x, rfl, hx⟩
      refine h.imp ?_
      rintro _ ⟨ns, rfl, hns⟩
      exact ⟨.other .text x [] :: ns, ns, rfl, ⟨x, rfl, hx⟩, hns⟩

theorem done_read (lead : Option PlainText) : (Content.done lead).Read t := by
  intro names v hv
  refine (lead_takes lead (· = []) hv.stopsText
    ((Takes.stop (node_refuses hv)).imp ?_)).imp ?_
  · rintro _ rfl
    exact ⟨[], rfl, rfl⟩
  · rintro _ ⟨ns, _, rfl, hns, rfl⟩
    exact ⟨ns, rfl, hns⟩

theorem next_read (lead : Option PlainText) {s : Sketch} {rest : Content}
    (hs : s.Read t) (hrest : rest.Read t) :
    (Content.next lead s rest).Read t := by
  intro names v hv
  have htext : (Content.next lead s rest).print ++ v =
      leadText lead ++ (s.print ++ (rest.print ++ v)) := by
    simp [Content.print]
  rw [htext]
  refine (lead_takes lead (fun ns =>
      ∃ n ms, ns = n :: ms ∧ s.Depicted t n ∧ rest.Depicted t ms)
    (s.stopsText_print _) (.more rfl (hs names _) ?_)).imp ?_
  · rintro _ ⟨n, rfl, hn⟩
    refine (hrest names v hv).imp ?_
    rintro _ ⟨ms, rfl, hms⟩
    exact ⟨n :: ms, rfl, n, ms, rfl, hn, hms⟩
  · rintro _ ⟨ns, _, rfl, hns, n, ms, rfl, hn, hms⟩
    exact ⟨ns, rfl, n, ms, hns, hn, hms⟩

/-- A body is a fragment that covers what was written for it. -/
theorem Content.Read.fragment {content : Content} (h : content.Read t)
    (hv : Halts v) :
    Takes t (.rule .fragment) names (content.print ++ v) names v fun ps =>
      ∃ f, ps = [.fragment f] ∧ Framed t content.print
        (content.Depicted t) f := by
  refine .rule rfl rfl ((h names v hv).imp ?_)
  rintro _ ⟨ns, rfl, hns⟩ x hx
  refine ⟨.fragment ⟨x, ns⟩, ?_, _, rfl, hx, hns⟩
  simp only [assemble, fragmentPiece, mapM_node?, Option.map_some]

/-! ## Nodes that are no control-flow blocks -/

theorem mustache_read (e : Identifier) : (Sketch.mustache e).Read t := by
  intro names v
  have htext : (Sketch.mustache e).print ++ v =
      '{' :: (e.text ++ '}' :: v) := by
    simp [Sketch.print]
  have hmark : Refuses t (oneOf "#:/") names (e.text ++ '}' :: v) :=
    e.refuses fun _ _ hc => .oneOf_of_class hc (by decide)
  have hblock : "\x7b#".toList.isPrefixOf
      ('{' :: (e.text ++ '}' :: v)) = false := by
    obtain ⟨c, w, he, hc⟩ := e.exists_cons
    have hne : '#' ≠ c := (ne_of_class hc (by decide)).symm
    simp [he, List.isPrefixOf, hne]
  refine node_takes (blockRules ++ tagRules) rfl ?_ (.rule rfl rfl ?_) <;>
    rw [htext]
  · simp only [List.forall_mem_append]
    exact ⟨blockRules_refuse hblock, tagRules_refuse rfl⟩
  · refine .skip (.literal _ rfl)
      (.skip (.notAhead hmark) (.last (.present ((expression_takes e).imp ?_))
          (.literal _ rfl)))
    exact fun _ _ x hx => ⟨_, rfl, _, rfl, x, rfl, hx⟩

theorem closing_passes (opening stop : String) {w : Text}
    (hstop : Refuses t blank names (stop.toList ++ v)) :
    Passes t (closing opening stop) (w :: names)
      (opening.toList ++ (w ++ (stop.toList ++ v))) names v :=
  .skip (.literal _ rfl) (.skip .pop (.skip (.stop hstop) (.literal _ rfl)))

theorem tagName_takes (name : ElementName) :
    Takes t (.rule .tagName) names (name.text ++ '>' :: v) names ('>' :: v)
      (· = [.name .tagName name.text]) := by
  refine name_takes rfl (fun _ _ => rfl) ?_
  obtain ⟨c, w, htext⟩ := List.exists_cons_of_ne_nil name.ne_nil
  have halpha : ∀ d ∈ name.text, d.isAlpha = true :=
    fun d hd => isAlpha_of_isLower (name.lower d hd)
  rw [htext] at halpha ⊢
  refine .skip (.one (halpha c List.mem_cons_self))
    (.chars rfl (fun d hd _ => .one ?_) (.one rfl))
  simp [isAlphanum_of_isAlpha (halpha d (List.mem_cons_of_mem c hd))]

theorem element_read (name : ElementName) {content : Content}
    (h : content.Read t) :
    (Sketch.element name content).Read t := by
  intro names v
  have htext : (Sketch.element name content).print ++ v =
      '<' :: (name.text ++ '>' ::
        (content.print ++ '<' :: '/' :: (name.text ++ '>' :: v))) := by
    simp [Sketch.print]
  refine node_takes (blockRules ++ [.comment, .rawElement, .voidElement]) rfl ?_
    (.rule rfl rfl ?_) <;>
    rw [htext]
  · simp only [List.forall_mem_append, List.forall_mem_cons, List.not_mem_nil,
      false_implies, implies_true, and_true]
    refine ⟨blockRules_refuse rfl, .rule (.first (.literal ?_)),
      .rule (.next (.literal _ rfl) (.first (.push name.rawName_refuses))),
      .rule (.next (.literal _ rfl) (.first name.voidName_refuses))⟩
    obtain ⟨c, w, hname⟩ := List.exists_cons_of_ne_nil name.ne_nil
    have hne : '!' ≠ c :=
      (ne_of_class (name.lower c (by simp [hname])) (by decide)).symm
    simp [hname, List.isPrefixOf, hne]
  · refine .skip (.literal _ rfl)
      ((Takes.push (tagName_takes name)).sequence ?_)
    rintro _ rfl
    refine .skip (.stop (.first (.first (.one rfl))))
      (.skip (.stop (.one rfl)) (.right (.first (.literal rfl))
          (.skip (.literal _ rfl) (.last ((h.fragment (.endTag _)).imp ?_)
            (closing_passes "</" ">" (.one rfl))))))
    rintro _ ⟨f, rfl, hf⟩ x hx
    exact ⟨_, rfl, _, rfl, x, f, rfl, hx, hf⟩

theorem blockName_takes (name : BlockName) :
    Takes t (.rule .blockName) names (name.text ++ '}' :: v) names ('}' :: v)
      (· = [.name .blockName name.text]) := by
  refine name_takes rfl (fun _ _ => rfl) ?_
  obtain ⟨c, w, htext⟩ := List.exists_cons_of_ne_nil name.ne_nil
  have halpha := name.alpha
  rw [htext] at halpha ⊢
  exact .chars1 rfl (fun d hd _ => .one (halpha d hd)) (.one rfl)

theorem block_read (name : BlockName) {content : Content} (h : content.Read t) :
    (Sketch.block name content).Read t := by
  intro names v
  have htext : (Sketch.block name content).print ++ v =
      '{' :: '#' :: (name.text ++
        '}' :: (content.print ++ '{' :: '/' :: (name.text ++ '}' :: v))) := by
    simp [Sketch.print]
  refine node_takes [.ifBlock, .eachBlock, .awaitBlock] rfl ?_
    (.rule rfl rfl ?_) <;> rw [htext]
  · have htag : ∀ {k : String} {q : Pat}, k ∈ blockKeywords →
        Refuses t (.sequence (.literal ("\x7b#".toList ++ k.toList))
          (.sequence gap q)) names ("\x7b#".toList ++
          (name.text ++ '}' :: (content.print ++
              '{' :: '/' :: (name.text ++ '}' :: v)))) :=
      fun hk => name.tag_refuses hk
    simp only [List.forall_mem_cons, List.not_mem_nil, false_implies,
      implies_true, and_true]
    exact ⟨.rule (.first (.rule (htag (k := "if") (by decide)))),
      .rule (.first (.rule (htag (k := "each") (by decide)))),
      .rule (.choice (.first (.rule (htag (k := "await") (by decide))))
        (.first (.rule (htag (k := "await") (by decide)))))⟩
  · refine .skip (.literal _ rfl) (.skip (.notAhead name.keyword_refuses)
      ((Takes.push (blockName_takes name)).sequence ?_))
    rintro _ rfl
    refine .skip (.absent (.first (.first (.one rfl))))
      (.skip (.stop (.one rfl)) (.skip (.literal _ rfl)
          (.last ((h.fragment (.closing _)).imp ?_)
            (closing_passes "\x7b/" "\x7d" (.one rfl)))))
    rintro _ ⟨f, rfl, hf⟩ x hx
    exact ⟨_, rfl, _, rfl, x, f, rfl, hx, hf⟩

/-! ## Clauses -/

theorem elseClause_takes {body : Content} (h : body.Read t) (hv : Halts v) :
    Takes t (.rule .elseClause) names
      (wordTagText "\x7b:else".toList ++ body.print ++ v) names v fun ps =>
      ∃ c, ps = [.clause c] ∧ t.slice? c.tag =
        some (wordTagText "\x7b:else".toList) ∧
        Framed t body.print (body.Depicted t) c.body := by
  refine .rule rfl rfl ?_
  rw [List.append_assoc]
  refine elseTag_takes.sequence ?_
  rintro _ ⟨tag, rfl, htag⟩
  refine (h.fragment hv).imp ?_
  rintro _ ⟨f, rfl, hf⟩ x -
  exact ⟨_, rfl, ⟨tag, f⟩, rfl, htag, hf⟩

theorem handler_takes {r r' : Rule} (opening : String)
    (value : Option Identifier) {body : Content} (hr : grammar.isNamed r = true)
    (hassemble : ∀ x ps, assemble t r x ps = handlerPiece r r' ps)
    (hbody : ruleBody r = .sequence (.rule r') (.rule .fragment))
    (hr' : grammar.isNamed r' = true)
    (hassemble' : ∀ x ps, assemble t r' x ps = valueTagPiece r' x ps)
    (hbody' : ruleBody r' = bindingTag opening) (h : body.Read t)
    (hv : Halts v) :
    Takes t (.rule r) names (valueTagText opening.toList value ++ body.print ++
      v) names v fun ps =>
      ∃ c, ps = [.handler r c] ∧ t.slice? c.tag =
        some (valueTagText opening.toList value) ∧
        ValueDepicted t value c.value ∧
        Framed t body.print (body.Depicted t) c.body := by
  refine .rule hr rfl ?_
  rw [hbody, List.append_assoc]
  refine (valueTag_takes opening value hr' hassemble' hbody').sequence ?_
  rintro _ ⟨tag, b, rfl, htag, hb⟩
  refine (h.fragment hv).imp ?_
  rintro _ ⟨f, rfl, hf⟩ x -
  exact ⟨_, (hassemble x _).trans (if_pos rfl), ⟨tag, b, f⟩, rfl, htag, hb, hf⟩

theorem elseClause_refuses_closing :
    Refuses t (.rule .elseClause) names ('{' :: '/' :: v) :=
  .rule (.first (.rule (.first (.literal rfl))))

theorem elseIf_refuses_closing :
    Refuses t (.rule .elseIf) names ('{' :: '/' :: v) :=
  .rule (.first (.rule (.first (.literal rfl))))

theorem noFallback_read : Fallback.none.Read t := by
  intro names v
  refine (Takes.absent elseClause_refuses_closing).imp ?_
  rintro _ rfl
  exact ⟨none, rfl, rfl⟩

theorem fallback_read {body : Content} (h : body.Read t) :
    (Fallback.otherwise body).Read t := by
  intro names v
  refine .present ((elseClause_takes h (.closing v)).imp ?_)
  rintro _ ⟨c, rfl, hc⟩
  exact ⟨some c, rfl, c, rfl, hc⟩

theorem noRescue_read : Rescue.none.Read t := by
  intro names v
  refine (Takes.absent (.rule (.first (.rule (.first (.literal rfl)))))).imp ?_
  rintro _ rfl
  exact ⟨none, rfl, rfl⟩

theorem rescue_read (value : Option Identifier) {body : Content}
    (h : body.Read t) :
    (Rescue.handler value body).Read t := by
  intro names v
  refine .present
    ((handler_takes "\x7b:catch" value rfl (fun _ _ => rfl) rfl rfl
        (fun _ _ => rfl) rfl h (.closing v)).imp ?_)
  rintro _ ⟨c, rfl, hc⟩
  exact ⟨some c, rfl, c, rfl, hc⟩

/-! ## Conditionals -/

theorem noAlternative_read : Alternative.none.Read t := by
  intro names v
  refine (Takes.absent (.choice elseIf_refuses_closing
    elseClause_refuses_closing)).imp ?_
  rintro _ rfl
  exact ⟨[], none, .inr ⟨rfl, rfl⟩, rfl, rfl⟩

theorem otherwise_read {body : Content} (h : body.Read t) :
    (Alternative.otherwise body).Read t := by
  intro names v
  have hlink : Refuses t (.rule .elseIf) names
      (wordTagText "\x7b:else".toList ++ body.print ++ '{' :: '/' :: v) :=
    .rule (.first (.rule (.next (.literal _ rfl) (.first (.first (.one rfl))))))
  refine .present (.right hlink ((elseClause_takes h (.closing v)).imp ?_))
  rintro _ ⟨c, rfl, hc⟩
  exact ⟨[], some c, .inr ⟨rfl, rfl⟩, rfl, c, rfl, hc⟩

theorem Alternative.halts (a : Alternative) (v : Text) :
    Halts (a.print ++ '{' :: '/' :: v) := by
  cases a with
  | none => exact .closing _
  | otherwise body => exact .clause _
  | link e body rest => exact .clause _

theorem elseIfPiece_eq {ps : List Piece} {arms : List (Arm Fragment)}
    {o : Option (Clause Fragment)} (h : LinkPieces arms o ps) (x tag e : Span)
    (f : Fragment) :
    elseIfPiece x (.opening .elseIfOpen tag e :: .fragment f :: ps) =
      some (.links (⟨x, tag, e, f⟩ :: arms) o) := by
  rcases h with rfl | ⟨rfl, rfl⟩
  · rfl
  · cases o <;> rfl

theorem ifPiece_eq {ps : List Piece} {arms : List (Arm Fragment)}
    {o : Option (Clause Fragment)} (h : LinkPieces arms o ps) (x tag e : Span)
    (f : Fragment) :
    ifPiece x (.opening .ifOpen tag e :: .fragment f ::
      (ps ++ [.unrecorded .ifClose])) =
      some (conditional x tag e f arms o) := by
  rcases h with rfl | ⟨rfl, rfl⟩
  · rfl
  · cases o <;> rfl

theorem link_read (e : Identifier) {body : Content} {rest : Alternative}
    (hbody : body.Read t) (hrest : rest.Read t) :
    (Alternative.link e body rest).Read t := by
  intro names v
  refine .present (.left (.rule rfl rfl ?_))
  have htext : (Alternative.link e body rest).print ++ '{' :: '/' :: v =
      linkTagText e ++ (body.print ++ (rest.print ++ '{' :: '/' :: v)) := by
    simp only [Alternative.print, List.append_assoc]
  rw [htext]
  refine (elseIfOpen_takes e).sequence ?_
  rintro _ ⟨tag, y, rfl, htag, hy⟩
  refine (hbody.fragment (rest.halts v)).sequence ?_
  rintro _ ⟨f, rfl, hf⟩
  refine (hrest names v).imp ?_
  rintro ps ⟨arms, o, hps, hdepicted⟩ x -
  exact ⟨_, elseIfPiece_eq hps x tag y f, _, o, .inl rfl, ⟨x, tag, y, f⟩, arms,
    rfl, htag, hy, hf, hdepicted⟩

/-- How far the later arms reach is not written down. -/
theorem Alternative.Depicted.reach (stop : Nat) :
    ∀ {a : Alternative} {arms : List (Arm Fragment)}
      {o : Option (Clause Fragment)}, a.Depicted t arms o →
      a.Depicted t (arms.map fun arm =>
        { arm with span := ⟨arm.span.start, stop⟩ }) o
  | .none, _, _, ⟨harms, ho⟩ => ⟨by simp [harms], ho⟩
  | .otherwise _, _, _, ⟨harms, ho⟩ => ⟨by simp [harms], ho⟩
  | .link _ _ _, _, _, ⟨arm, _, harms, htag, he, hf, hrest⟩ =>
      ⟨{ arm with span := ⟨arm.span.start, stop⟩ }, _,
        by rw [harms, List.map_cons], htag, he, hf,
        hrest.reach stop⟩

theorem conditional_read (e : Identifier) {body : Content} {rest : Alternative}
    (hbody : body.Read t) (hrest : rest.Read t) :
    (Sketch.conditional e body rest).Read t := by
  intro names v
  refine node_takes [] rfl (by simp) (.rule rfl rfl ?_)
  have htext : (Sketch.conditional e body rest).print ++ v =
      ifTagText e ++ (body.print ++
        (rest.print ++ (wordTagText "\x7b/if".toList ++ v))) := by
    simp only [Sketch.print, List.append_assoc]
  rw [htext]
  refine (ifOpen_takes e).sequence ?_
  rintro _ ⟨tag, y, rfl, htag, hy⟩
  refine (hbody.fragment (rest.halts _)).sequence ?_
  rintro _ ⟨f, rfl, hf⟩
  refine (hrest names _).sequence ?_
  rintro ps ⟨arms, o, hps, hdepicted⟩
  refine (close_takes "\x7b/if" rfl (fun _ _ => rfl) rfl).imp ?_
  rintro _ rfl x hx
  exact ⟨_, ifPiece_eq hps x tag y f, _, rfl, _, rfl, hx, htag, hy, hf,
    hdepicted.reach x.stop⟩

/-! ## Iterations -/

theorem Fallback.halts (f : Fallback) (v : Text) :
    Halts (f.print ++ '{' :: '/' :: v) := by
  cases f with
  | none => exact .closing _
  | otherwise body => exact .clause _

theorem eachPiece_eq (x tag e : Span) (b : Binding) (i : Option Text)
    (k : Option Span) (f : Fragment) (o : Option (Clause Fragment)) :
    eachPiece x (.eachOpening tag e b i k :: .fragment f ::
      (o.toList.map Piece.clause ++ [.unrecorded .eachClose])) =
      some (iteration x tag e b i k f o) := by
  cases o <;> rfl

theorem each_read (e context : Identifier) (index key : Option Identifier)
    {body : Content} {fallback : Fallback} (hbody : body.Read t)
    (hfallback : fallback.Read t) :
    (Sketch.each e context index key body fallback).Read t := by
  intro names v
  have htext : (Sketch.each e context index key body fallback).print ++ v =
      eachTagText e context index key ++
      (body.print ++ (fallback.print ++
        (wordTagText "\x7b/each".toList ++ v))) := by
    simp only [Sketch.print, List.append_assoc]
  refine node_takes [.ifBlock] rfl ?_ (.rule rfl rfl ?_) <;> rw [htext]
  · simp only [List.forall_mem_singleton]
    exact .rule (.first (.rule (.first (.literal rfl))))
  refine (eachOpen_takes e context index key).sequence ?_
  rintro _ ⟨tag, y, b, k, rfl, htag, hy, hb, hk⟩
  refine (hbody.fragment (fallback.halts _)).sequence ?_
  rintro _ ⟨f, rfl, hf⟩
  refine (hfallback names _).sequence ?_
  rintro _ ⟨o, rfl, ho⟩
  refine (close_takes "\x7b/each" rfl (fun _ _ => rfl) rfl).imp ?_
  rintro _ rfl x hx
  exact ⟨_, eachPiece_eq x tag y b _ k f o, _, rfl, _, rfl, hx, htag, hy, hb,
    rfl, hk, hf, ho⟩

/-! ## Await blocks -/

theorem Rescue.halts (r : Rescue) (v : Text) :
    Halts (r.print ++ '{' :: '/' :: v) := by
  cases r with
  | none => exact .closing _
  | handler value body => exact .clause _

theorem beforeAwait_refuse : ∀ r ∈ [Rule.ifBlock, .eachBlock],
    Refuses t (.rule r) names ("\x7b#await".toList ++ v) := by
  simp only [List.forall_mem_cons, List.not_mem_nil, false_implies,
    implies_true, and_true]
  exact ⟨.rule (.first (.rule (.first (.literal rfl)))),
    .rule (.first (.rule (.first (.literal rfl))))⟩

theorem longAwaitPiece_eq (x tag e : Span) (p : Fragment) (s : Handler Fragment)
    (o : Option (Handler Fragment)) :
    awaitPiece x (.opening .awaitOpen tag e :: .fragment p ::
      .handler .thenClause s :: (o.toList.map (Piece.handler .catchClause) ++
        [.unrecorded .awaitClose])) =
      some (longAwait x tag e p s o) := by
  cases o <;> rfl

theorem shortAwaitPiece_eq (x tag e : Span) (b : Option Binding) (f : Fragment)
    (o : Option (Handler Fragment)) :
    awaitPiece x (.shortOpening tag e b :: .fragment f ::
      (o.toList.map (Piece.handler .catchClause) ++
        [.unrecorded .awaitClose])) =
      some (shortAwait x tag e b f o) := by
  cases o <;> rfl

theorem await_read (e : Identifier) (value : Option Identifier)
    {pending body : Content} {rescue : Rescue} (hpending : pending.Read t)
    (hbody : body.Read t) (hrescue : rescue.Read t) :
    (Sketch.await e pending value body rescue).Read t := by
  intro names v
  have htext : (Sketch.await e pending value body rescue).print ++ v =
      awaitTagText e ++ (pending.print ++
      ((valueTagText "\x7b:then".toList value ++ body.print) ++
        (rescue.print ++ (wordTagText "\x7b/await".toList ++ v)))) := by
    simp only [Sketch.print, List.append_assoc]
  refine node_takes [.ifBlock, .eachBlock] rfl ?_ (.rule rfl rfl ?_) <;>
    rw [htext]
  · unfold awaitTagText
    rw [expressionTagText_append]
    exact beforeAwait_refuse
  refine .right (.first (awaitShortOpen_refuses e))
    ((awaitOpen_takes e).sequence ?_)
  rintro _ ⟨tag, y, rfl, htag, hy⟩
  refine (hpending.fragment (.clause _)).sequence ?_
  rintro _ ⟨p, rfl, hp⟩
  refine (handler_takes "\x7b:then" value rfl (fun _ _ => rfl) rfl rfl
    (fun _ _ => rfl) rfl hbody (rescue.halts _)).sequence ?_
  rintro _ ⟨settled, rfl, hthen, hvalue, hf⟩
  refine (hrescue names _).sequence ?_
  rintro _ ⟨o, rfl, ho⟩
  refine (close_takes "\x7b/await" rfl (fun _ _ => rfl) rfl).imp ?_
  rintro _ rfl x hx
  exact ⟨_, longAwaitPiece_eq x tag y p settled o, _, rfl, _, rfl, hx, htag, hy,
    ⟨p, rfl, hp⟩, ⟨settled.tag, rfl, hthen⟩, hvalue, hf, ho⟩

theorem awaitThen_read (e : Identifier) (value : Option Identifier)
    {body : Content} {rescue : Rescue} (hbody : body.Read t)
    (hrescue : rescue.Read t) :
    (Sketch.awaitThen e value body rescue).Read t := by
  intro names v
  have htext : (Sketch.awaitThen e value body rescue).print ++ v =
      shortTagText e value ++ (body.print ++
      (rescue.print ++ (wordTagText "\x7b/await".toList ++ v))) := by
    simp only [Sketch.print, List.append_assoc]
  refine node_takes [.ifBlock, .eachBlock] rfl ?_ (.rule rfl rfl ?_) <;>
    rw [htext]
  · unfold shortTagText
    rw [List.append_assoc]
    exact beforeAwait_refuse
  refine .left ((awaitShortOpen_takes e value).sequence ?_)
  rintro _ ⟨tag, y, b, rfl, htag, hy, hb⟩
  refine (hbody.fragment (rescue.halts _)).sequence ?_
  rintro _ ⟨f, rfl, hf⟩
  refine (hrescue names _).sequence ?_
  rintro _ ⟨o, rfl, ho⟩
  refine (close_takes "\x7b/await" rfl (fun _ _ => rfl) rfl).imp ?_
  rintro _ rfl x hx
  exact ⟨_, shortAwaitPiece_eq x tag y b f o, _, rfl, _, rfl, hx, htag, hy, rfl,
    rfl, hb, hf, ho⟩

/-! ## Whole templates -/

mutual

theorem Sketch.read : (s : Sketch) → s.Read t
  | .mustache e => mustache_read e
  | .element name content => element_read name content.read
  | .block name content => block_read name content.read
  | .conditional e body rest => conditional_read e body.read rest.read
  | .each e context index key body fallback =>
    each_read e context index key body.read fallback.read
  | .await e pending value body rescue =>
    await_read e value pending.read body.read rescue.read
  | .awaitThen e value body rescue =>
    awaitThen_read e value body.read rescue.read

theorem Content.read : (content : Content) → content.Read t
  | .done lead => done_read lead
  | .next lead node rest => next_read lead node.read rest.read

theorem Alternative.read : (a : Alternative) → a.Read t
  | .none => noAlternative_read
  | .otherwise body => otherwise_read body.read
  | .link e body rest => link_read e body.read rest.read

theorem Fallback.read : (f : Fallback) → f.Read t
  | .none => noFallback_read
  | .otherwise body => fallback_read body.read

theorem Rescue.read : (r : Rescue) → r.Read t
  | .none => noRescue_read
  | .handler value body => rescue_read value body.read

end

theorem parse_eq_of_takes {text : Text} {tree : Fragment → Prop}
    (h : Takes text (.rule .fragment) [] text [] [] fun ps =>
      ∃ f, ps = [.fragment f] ∧ tree f) :
    ∃ f, parse text = .ok f ∧ tree f := by
  have hend : Takes text (.rule .endOfInput) [] [] [] []
      (· = [.unrecorded .endOfInput]) :=
    .rule (w := []) rfl rfl fun s hs =>
      ⟨s, [], [], rfl, hs, rfl, fun _ _ => ⟨_, rfl, rfl⟩⟩
  have hboth : Takes text (.sequence (.rule .fragment) (.rule .endOfInput)) []
      text [] [] fun ps =>
      ∃ f, ps = [.fragment f, .unrecorded .endOfInput] ∧ tree f := by
    refine h.sequence ?_
    rintro _ ⟨f, rfl, hf⟩
    refine hend.imp ?_
    rintro _ rfl
    exact ⟨f, rfl, hf⟩
  obtain ⟨e, captures, _, hmatch, -, hps, f, rfl, hf⟩ :=
    hboth 0 (Cursor.at_start text)
  have hbody : (ruleBody .document).recognise recognised (.start text) =
      some ⟨⟨e, [], []⟩, captures⟩ := by
    refine (Option.bind_some _ _).trans ?_
    exact Option.map_eq_some_iff.2 ⟨_, hmatch, rfl⟩
  have hresult : (matchDocument text).result =
      some ⟨⟨e, [], []⟩, [.mk .document ⟨0, e⟩ captures]⟩ := by
    refine (Peg.Grammar.call_result _ _ _ _ _).trans
      ((recognised_eq .document (.start text)).trans ?_)
    rw [hbody]
    rfl
  cases hout : matchDocument text with
  | mk attempts result =>
      rw [hout] at hresult
      cases hresult
      refine ⟨f, parse_eq_ok hout ?_, hf⟩
      simp [Piece.ofCaptures?, Piece.ofCapture?, hps, assemble, documentPiece]

/-- **What is written for a sketch is read as the sketch.**  There is a tree, it
has the shape and the names of the sketch, and each span in it cuts out of the
text what was written for its part.  So no such text is refused, and none is
read as something else. -/
theorem parse_print (content : Content) :
    ∃ tree, parse content.print = .ok tree ∧
      Framed content.print content.print
        (content.Depicted content.print) tree := by
  refine parse_eq_of_takes ?_
  have htext : content.print ++ [] = content.print := List.append_nil _
  have hfragment : Takes content.print (.rule .fragment) []
      (content.print ++ []) [] [] fun ps =>
      ∃ f, ps = [.fragment f] ∧ Framed content.print content.print
        (content.Depicted content.print) f :=
    content.read.fragment .nil
  rwa [htext] at hfragment

end TemplateJsx.Markup
