import TemplateJsx.Proofs.Files.Listing

/-!
# Runs on a directory

A run on a directory transforms the templates below it one after the other, on a
tree that earlier ones have changed.  `Ran` is such a run, step by step.  Each
step alters the two outputs of its template at most (`TransformsFile.alters`),
so the whole run alters outputs only (`Ran.alters`).

No two templates have an output in common (`outputPlaces_nodup`), and no output
is a template (`isTemplate_outputPlaces`).  So each template reads as it did
before the run, and what is written for it stays: `transformDirectory_accounts`.
-/

namespace TemplateJsx

open FileTree

/-! ## Where the outputs go -/

/-- The outputs of a template below a directory, with the same names below
`out`, or next to the template. -/
def outputsBelow (root : Path) (out : Option Path) (p : Path) : OutputPaths :=
  p.outputsFor (out.map (targetDirectory root · p))

namespace FileTree

variable {t t' : FileTree} {root p q : Path} {out : Option Path}
  {dirs : List Text} {n : Text}

def outputPlaces (t : FileTree) (paths : OutputPaths) : List Location :=
  [t.place paths.code, t.place paths.map]

theorem outputPlaces_below (hdirs : ∀ m ∈ dirs, isName m = true)
    (hn : isName n = true) (hp : p = root.below (dirs ++ [n])) :
    t.outputPlaces (outputsBelow root out p) =
      [t.place (out.getD root) ++ dirs ++ [p.codeName],
        t.place (out.getD root) ++ dirs ++ [p.mapName]] := by
  -- Both ways the directory of the outputs has the names of the directory of
  -- the template.
  have hdirectory :
      t.place ((out.map (targetDirectory root · p)).getD
        (p.parent?.getD .empty)) =
      t.place (out.getD root) ++ dirs := by
    cases out with
    | none =>
        obtain ⟨directory, hparent, hplace, -⟩ := t.place_parent hdirs hn root
        rw [hp, hparent]
        exact hplace
    | some out =>
        rw [hp]
        exact place_targetDirectory hdirs hn root out
  obtain ⟨hcode, hmap⟩ :=
    t.place_outputsIn p ((out.map (targetDirectory root · p)).getD
      (p.parent?.getD .empty))
  rw [outputPlaces, outputsBelow, Path.outputsFor, hcode, hmap, hdirectory]

/-- A template below a directory: the directories on the way to it, and its
name. -/
structure TemplateBelow (t : FileTree) (root p : Path) (dirs : List Text)
    (n : Text) : Prop where
  below : t.FileBelow root (dirs ++ [n])
  path : p = root.below (dirs ++ [n])
  template : p.isTemplate = true

namespace TemplateBelow

theorem isName_dirs (h : t.TemplateBelow root p dirs n) :
    ∀ m ∈ dirs, isName m = true := fun m hm =>
  h.below.named m (List.mem_append_left _ hm)

theorem isName_name (h : t.TemplateBelow root p dirs n) : isName n = true :=
  h.below.named n (by simp)

theorem path_eq (h : t.TemplateBelow root p dirs n) :
    p = ⟨root.absolute, root.front ++ dirs ++ [n]⟩ := by
  rw [h.path, Path.below, List.append_assoc]

theorem place_eq (h : t.TemplateBelow root p dirs n) :
    t.place p = t.place root ++ dirs ++ [n] := by
  rw [h.path, place_below_names h.below.named, List.append_assoc]

theorem outputPlaces_eq (h : t.TemplateBelow root p dirs n) :
    t.outputPlaces (outputsBelow root out p) =
      [t.place (out.getD root) ++ dirs ++ [p.codeName],
        t.place (out.getD root) ++ dirs ++ [p.mapName]] :=
  outputPlaces_below h.isName_dirs h.isName_name h.path

/-- The names of the outputs tell the name of the template: both are its stem
with an extension of their own. -/
theorem exists_stem (h : t.TemplateBelow root p dirs n) :
    ∃ stem, n = stem ++ ".svelte".toList ∧
      p.codeName = stem ++ ".jsx".toList ∧
      p.mapName = stem ++ ".jsx.map".toList := by
  have htemplate := h.template
  rw [h.path_eq] at htemplate
  obtain ⟨stem, hstem, hp⟩ := Path.isTemplate_concat h.isName_name htemplate
  rw [← h.path_eq] at hp
  exact ⟨stem, hstem, by rw [Path.codeName, hp, Option.getD_some],
    by rw [Path.mapName, hp, Option.getD_some]⟩

end TemplateBelow

theorem location_inj {base : Location} {dirs' : List Text} {m : Text}
    (h : base ++ dirs ++ [n] = base ++ dirs' ++ [m]) :
    dirs = dirs' ∧ n = m := by
  obtain ⟨hdirs, hname⟩ := List.append_inj' h rfl
  exact ⟨List.append_cancel_left hdirs, (List.cons.inj hname).1⟩

/-- An output belongs to one template.  Two templates in one directory have
different stems, and the names of directories are kept below `out`. -/
theorem eq_of_mem_outputPlaces {dirs' : List Text} {m : Text}
    (hp : t.TemplateBelow root p dirs n) (hq : t.TemplateBelow root q dirs' m)
    {l : Location} (hlp : l ∈ t.outputPlaces (outputsBelow root out p))
    (hlq : l ∈ t.outputPlaces (outputsBelow root out q)) : p = q := by
  obtain ⟨stem, hn, hcode, hmap⟩ := hp.exists_stem
  obtain ⟨stem', hm, hcode', hmap'⟩ := hq.exists_stem
  have hsame : dirs = dirs' → stem = stem' → p = q := by
    rintro rfl rfl
    rw [hp.path, hq.path, hn, hm]
  simp only [hp.outputPlaces_eq, hq.outputPlaces_eq, List.mem_cons,
    List.not_mem_nil, or_false] at hlp hlq
  rcases hlp with rfl | rfl <;> rcases hlq with hl | hl <;>
    obtain ⟨hdirs, hname⟩ := location_inj hl
  · rw [hcode, hcode'] at hname
    exact hsame hdirs (List.append_cancel_right hname)
  · exact absurd hname (Path.codeName_ne_mapName p q)
  · exact absurd hname.symm (Path.codeName_ne_mapName q p)
  · rw [hmap, hmap'] at hname
    exact hsame hdirs (List.append_cancel_right hname)

/-- No output is a template, so nothing that a run writes is found by the search
of a later one. -/
theorem isTemplate_outputPlaces (hp : t.TemplateBelow root p dirs n)
    {l : Location} (hl : l ∈ t.outputPlaces (outputsBelow root out p)) :
    Path.isTemplate ⟨true, l⟩ = false := by
  simp only [hp.outputPlaces_eq, List.mem_cons, List.not_mem_nil,
    or_false] at hl
  rcases hl with rfl | rfl
  · exact Path.isTemplate_of_getLast? p.isName_codeName
      p.getLast?_codeName (by decide)
  · exact Path.isTemplate_of_getLast? p.isName_mapName
      p.getLast?_mapName (by decide)

theorem TemplateBelow.isTemplate_place (h : t.TemplateBelow root p dirs n) :
    Path.isTemplate ⟨true, t.place p⟩ = true := by
  have htemplate := h.template
  rw [h.path_eq, Path.isTemplate_last h.isName_name] at htemplate
  rw [h.place_eq, Path.isTemplate_last h.isName_name, htemplate]

/-- All paths are those of templates below a directory. -/
def TemplatesBelow (t : FileTree) (root : Path) (ps : List Path) : Prop :=
  ∀ p ∈ ps, ∃ dirs n, t.TemplateBelow root p dirs n

theorem Discovered.templatesBelow {ps : List Path} (h : t.Discovered root ps) :
    t.TemplatesBelow root ps := by
  intro p hp
  obtain ⟨htemplate, names, hbelow, hpath⟩ := (h.listed p).1 hp
  obtain ⟨dirs, n, rfl⟩ : ∃ dirs n, names = dirs ++ [n] :=
    ⟨names.dropLast, names.getLast hbelow.nonempty,
      (List.dropLast_append_getLast hbelow.nonempty).symm⟩
  exact ⟨dirs, n, hbelow, hpath, htemplate⟩

def allOutputPlaces (t : FileTree) (root : Path) (out : Option Path)
    (ps : List Path) : List Location :=
  ps.flatMap fun p => t.outputPlaces (outputsBelow root out p)

/-- **All outputs of different templates are different files.**  So no template
of a run can overwrite what another one has written. -/
theorem outputPlaces_nodup {ps : List Path} (hps : t.TemplatesBelow root ps)
    (hnodup : ps.Nodup) :
    (t.allOutputPlaces root out ps).Nodup := by
  rw [allOutputPlaces, List.Nodup, List.pairwise_flatMap]
  constructor
  · intro p hp
    have hne :=
      t.place_code_ne_map p ((out.map (targetDirectory root · p)).getD
        (p.parent?.getD .empty))
    simpa [outputPlaces, outputsBelow, Path.outputsFor] using hne
  · refine hnodup.imp_of_mem ?_
    rintro p q hp hq hne l hlp _ hlq rfl
    obtain ⟨_, _, hp⟩ := hps p hp
    obtain ⟨_, _, hq⟩ := hps q hq
    exact hne (eq_of_mem_outputPlaces hp hq hlp hlq)

theorem TemplatesBelow.isTemplate_eq_false {ps : List Path}
    (hps : t.TemplatesBelow root ps) {l : Location}
    (hl : l ∈ t.allOutputPlaces root out ps) :
    Path.isTemplate ⟨true, l⟩ = false := by
  obtain ⟨p, hp, hl⟩ := List.mem_flatMap.1 hl
  obtain ⟨_, _, hp⟩ := hps p hp
  exact isTemplate_outputPlaces hp hl

end FileTree

/-! ## A run, step by step -/

section Steps

variable {o : Options} {root p : Path} {out : Option Path} {t t' : FileTree}

/-- Transforming a template alters its outputs at most. -/
theorem TransformsFile.alters {directory : Option Path}
    {result : Except RunFault OutputPaths}
    (h : TransformsFile o p directory t (result, t')) :
    t.Alters (t.outputPlaces (p.outputsFor directory)) t' := by
  have hleaves := h.leaves
  cases result with
  | ok paths =>
      obtain ⟨rfl, _, _, _, _, halters, _⟩ := hleaves
      exact halters
  | error fault =>
      unfold LeavesFile at hleaves
      cases hmisses : fault.missesMap (p.outputsFor directory) with
      | true =>
          simp only [hmisses, if_true] at hleaves
          obtain ⟨_, _, _, _, halters, _⟩ := hleaves
          exact halters.mono (by simp [outputPlaces])
      | false =>
          simp only [hmisses, Bool.false_eq_true, if_false] at hleaves
          exact hleaves.mono (List.nil_subset _)

/-- The templates are transformed in turn, each on the tree that the one before
leaves.  A template that fails does not end the run. -/
inductive Ran (o : Options) (root : Path) (out : Option Path) :
    FileTree → List (Path × Except RunFault OutputPaths) → FileTree → Prop where
  | nil {t : FileTree} : Ran o root out t [] t
  | cons {t t₁ t₂ : FileTree} {p : Path} {result : Except RunFault OutputPaths}
      {results : List (Path × Except RunFault OutputPaths)}
      (step : TransformsFile o p (out.map (targetDirectory root · p)) t
        (result, t₁))
      (rest : Ran o root out t₁ results t₂) :
      Ran o root out t ((p, result) :: results) t₂

def BatchReport.ofResults
    (results : List (Path × Except RunFault OutputPaths)) : BatchReport where
  written := results.filterMap fun r => r.2.toOption
  failed := results.filterMap fun r =>
    match r.2 with
    | .ok _ => none
    | .error fault => some (r.1, fault)

theorem transformEach_ran (o : Options) (root : Path) (out : Option Path)
    (ps : List Path) (t : FileTree) :
    ∃ results t', StateT.run (transformEach o
      (fun p => out.map (targetDirectory root · p)) ps :
        StateM FileTree BatchReport) t = (.ofResults results, t') ∧
      results.map Prod.fst = ps ∧ Ran o root out t results t' := by
  induction ps generalizing t with
  | nil => exact ⟨[], t, rfl, rfl, .nil⟩
  | cons p ps ih =>
      have hstep := transformsFile o p (out.map (targetDirectory root · p)) t
      cases hrun : runOn (transformFile o p
        (out.map (targetDirectory root · p))) t with
      | mk result t₁ =>
          rw [hrun] at hstep
          obtain ⟨results, t₂, hrest, hps, hran⟩ := ih t₁
          refine ⟨(p, result) :: results, t₂, ?_, by rw [List.map_cons, hps],
            .cons hstep hran⟩
          have hfirst : StateT.run (ExceptT.run (transformFile o p
              (out.map (targetDirectory root · p)) :
                ExceptT RunFault (StateM FileTree) OutputPaths)) t =
              (result, t₁) := hrun
          rw [transformEach, StateT.run_bind, hfirst]
          change StateT.run (transformEach o _ ps >>= fun report =>
            pure _) t₁ = _
          rw [StateT.run_bind, hrest]
          cases result <;> rfl

namespace Ran

variable {results : List (Path × Except RunFault OutputPaths)}

/-- A run alters the outputs of its templates at most, by induction on the
run. -/
theorem alters (h : Ran o root out t results t') :
    t.Alters (t.allOutputPlaces root out (results.map Prod.fst)) t' := by
  induction h with
  | nil => exact .refl _ _
  | @cons t t₁ t₂ p result results step rest ih =>
      have hstep : t.Alters (t.outputPlaces (outputsBelow root out p)) t₁ :=
        step.alters
      have hplaces : t₁.allOutputPlaces root out (results.map Prod.fst) =
          t.allOutputPlaces root out (results.map Prod.fst) := by
        simp only [allOutputPlaces, outputPlaces, hstep.place_eq]
      rw [hplaces] at ih
      rw [List.map_cons, allOutputPlaces, List.flatMap_cons]
      exact (hstep.mono (List.subset_append_left _ _)).trans
        (ih.mono (List.subset_append_right _ _))

/-- A run goes up to any one of its templates, transforms it and goes on. -/
theorem split (h : Ran o root out t results t')
    {result : Except RunFault OutputPaths} (hmem : (p, result) ∈ results) :
    ∃ before after t₁ t₂, results = before ++ (p, result) :: after ∧
      Ran o root out t before t₁ ∧
      TransformsFile o p (out.map (targetDirectory root · p)) t₁ (result, t₂) ∧
      Ran o root out t₂ after t' := by
  induction h with
  | nil => cases hmem
  | @cons t t₁ t₂ q first results step rest ih =>
      rcases List.mem_cons.1 hmem with heq | hmem
      · cases heq
        exact ⟨[], results, t, t₁, rfl, .nil, step, rest⟩
      · obtain ⟨before, after, u, u', rfl, hbefore, hstep, hafter⟩ := ih hmem
        exact ⟨(q, first) :: before, after, u, u', rfl, .cons step hbefore,
          hstep, hafter⟩

end Ran

end Steps

/-! ## What became of each template -/

/-- The fault is that an output could not be written, or the directory for it
could not be made. -/
def RunFault.OnOutputs (paths : OutputPaths) : RunFault → Prop
  | .create directory _ => paths.code.parent? = some directory
  | .write path _ => path = paths.code ∨ path = paths.map
  | _ => False

theorem WritesOutputs.onOutputs {output : Output} {paths : OutputPaths}
    {t t' : FileTree} {fault : RunFault}
    (h : WritesOutputs output paths t (.error fault, t')) :
    fault.OnOutputs paths := by
  cases h with
  | noDirectory around _ => exact around
  | noCode _ => exact .inl rfl
  | noMap _ _ _ => exact .inr rfl

/-- What a result says of a template, in terms of the tree `t` before the run
and the tree `t'` after it.  A template that was written has the outputs of its
text; one that failed could not be read or transformed, or its outputs could not
be written. -/
def Outcome (o : Options) (t t' : FileTree) (p : Path) (paths : OutputPaths) :
    Except RunFault OutputPaths → Prop
  | .ok written => written = paths ∧ ∃ text output, t.read p = .ok text ∧
      transformNamed o p.displayName text = .ok output ∧
      t'.read paths.code = .ok output.code ∧
      t'.read paths.map = .ok output.map.text
  | .error fault =>
    (∃ reason, t.read p = .error reason ∧ fault = .read p reason) ∨
      ∃ text, t.read p = .ok text ∧
      (transformNamed o p.displayName text = .error fault ∨
        (∃ output, transformNamed o p.displayName text = .ok output) ∧
        fault.OnOutputs paths)

theorem TransformsFile.outcome {o : Options} {p : Path}
    {directory : Option Path} {t t₁ t₂ t' : FileTree}
    {result : Except RunFault OutputPaths}
    (h : TransformsFile o p directory t₁ (result, t₂))
    (hread : t₁.read p = t.read p)
    (hstay : ∀ path ∈ [(p.outputsFor directory).code,
        (p.outputsFor directory).map], ∀ s, t₂.read path = .ok s →
      t'.read path = .ok s) :
    Outcome o t t' p (p.outputsFor directory) result := by
  have hleaves := h.leaves
  cases h with
  | unread read => exact .inl ⟨_, hread ▸ read, rfl⟩
  | refused read transformed => exact .inr ⟨_, hread ▸ read, .inl transformed⟩
  | unwritten read transformed writes =>
      exact .inr ⟨_, hread ▸ read, .inr ⟨⟨_, transformed⟩, writes.onOutputs⟩⟩
  | written _ _ _ =>
      obtain ⟨-, text, output, read, transformed, -, hcode, hmap⟩ := hleaves
      exact ⟨rfl, text, output, hread ▸ read, transformed,
        hstay _ (by simp) _ hcode, hstay _ (by simp) _ hmap⟩

/-- What a run on a directory comes to, in terms of the tree `t` before it and
the tree `t'` after it.  It accounts for every template and for every file,
including those that have nothing to do with the run. -/
structure Accounts (o : Options) (root : Path) (out : Option Path)
    (t : FileTree) (results : List (Path × Except RunFault OutputPaths))
    (t' : FileTree) : Prop where
  /-- There is one result for each template below the directory, in order. -/
  discovered : t.Discovered root (results.map Prod.fst)
  /-- No two outputs go to one place. -/
  apart : (t.allOutputPlaces root out (results.map Prod.fst)).Nodup
  /-- No other files than outputs change. -/
  others : t.Alters (t.allOutputPlaces root out (results.map Prod.fst)) t'
  /-- No template changes and none is made, though a directory may get the name
  of one. -/
  templates : ∀ l, Path.isTemplate ⟨true, l⟩ = true →
    t'.find? l = t.find? l ∨ t.find? l = none ∧ t'.find? l = some .directory
  outcome : ∀ p result, (p, result) ∈ results →
    Outcome o t t' p (outputsBelow root out p) result

theorem Ran.outcome {o : Options} {root p : Path} {out : Option Path}
    {t t' : FileTree} {results : List (Path × Except RunFault OutputPaths)}
    {result : Except RunFault OutputPaths} (ht : t.WellFormed)
    (hroot : t.isDirectory root = true) (hran : Ran o root out t results t')
    (hbelow : t.TemplatesBelow root (results.map Prod.fst))
    (hnodup : (results.map Prod.fst).Nodup) (hmem : (p, result) ∈ results) :
    Outcome o t t' p (outputsBelow root out p) result := by
  have hplaces : (t.allOutputPlaces root out (results.map Prod.fst)).Nodup :=
    outputPlaces_nodup hbelow hnodup
  obtain ⟨dirs, n, hp⟩ := hbelow p (List.mem_map_of_mem hmem)
  obtain ⟨before, after, t₁, t₂, rfl, hbefore, hstep, hafter⟩ := hran.split hmem
  have hfirst := hbefore.alters
  have hthis := hstep.alters
  refine hstep.outcome ?_ ?_
  · -- The template is no output, so it reads as before the run.
    have hnot : t.place root ++ (dirs ++ [n]) ∉
        t.allOutputPlaces root out (before.map Prod.fst) := by
      intro hin
      have hearlier : t.TemplatesBelow root (before.map Prod.fst) := by
        intro q hq
        apply hbelow
        rw [List.map_append]
        exact List.mem_append_left _ hq
      have hfalse := hearlier.isTemplate_eq_false hin
      rw [← List.append_assoc, ← hp.place_eq, hp.isTemplate_place] at hfalse
      cases hfalse
    obtain ⟨e, -, hfind⟩ := hp.below.file
    rw [hp.path]
    exact ht.read_below_eq hroot hp.below.named hfind hfirst hnot
  · -- The outputs are not among those of later templates, so they stay.
    intro path hpath s hs
    refine hafter.alters.read_eq_ok ?_ hs
    have hsame : ∀ ps, t₂.allOutputPlaces root out ps =
        t.allOutputPlaces root out ps := by
      intro ps
      simp only [allOutputPlaces, outputPlaces, hthis.place_eq, hfirst.place_eq]
    rw [hsame, hthis.place_eq, hfirst.place_eq]
    intro hin
    simp only [allOutputPlaces, List.map_append, List.map_cons,
      List.flatMap_append, List.flatMap_cons] at hplaces
    have hlater := (List.nodup_append.1 (List.nodup_append.1 hplaces).2.1).2.2
    have hown : t.place path ∈ t.outputPlaces (outputsBelow root out p) := by
      rcases List.mem_cons.1 hpath with rfl | hpath
      · exact List.mem_cons_self
      · rw [List.mem_singleton.1 hpath]
        exact List.mem_cons_of_mem _ List.mem_cons_self
    exact hlater _ hown _ hin rfl

theorem Ran.accounts {o : Options} {root : Path} {out : Option Path}
    {t t' : FileTree} {results : List (Path × Except RunFault OutputPaths)}
    (ht : t.WellFormed) (hroot : t.isDirectory root = true)
    (hran : Ran o root out t results t')
    (hps : t.Discovered root (results.map Prod.fst)) :
    Accounts o root out t results t' := by
  have hbelow : t.TemplatesBelow root (results.map Prod.fst) :=
    hps.templatesBelow
  exact {
    discovered := hps
    apart := outputPlaces_nodup hbelow hps.once
    others := hran.alters
    templates := fun l hl => hran.alters.others l fun hin => by
      rw [hbelow.isTemplate_eq_false hin] at hl
      cases hl
    outcome := fun p result hmem => hran.outcome ht hroot hbelow hps.once hmem }

/-- **Runs on a directory.**  Whatever walks over the tree, as long as it makes
nothing up, comes upon nothing twice and misses something only with a fault: a
run either fails, with the first fault of the walk, before it has changed
anything, or every template below the directory has one result, in the order of
the names on the way to it.  Then no template and no output of another is
overwritten, and what is written for a template comes from its text before the
run and is there after it.  In which order the system lists a directory does not
matter. -/
theorem transformDirectory_accounts [Walker (StateM FileTree)] {t : FileTree}
    {root : Path} {entries : List (Except WalkFault Found)} (ht : t.WellFormed)
    (hwalk : t.WalksTo root entries)
    (hwalked : t.isDirectory root = true → t.Walked root entries) (o : Options)
    (out : Option Path) :
    (t.isDirectory root = false →
      runOn (transformDirectory o root out) t =
        (.error (.notDirectory root), t)) ∧
    (t.isDirectory root = true → ∀ before fault after,
      entries = before ++ .error fault :: after →
      (∀ earlier, .error earlier ∉ before) →
      runOn (transformDirectory o root out) t = (.error (.walk fault), t)) ∧
    (t.isDirectory root = true → (∀ fault, .error fault ∉ entries) →
      ∃ results t', runOn (discover root) t = (.ok (results.map Prod.fst), t) ∧
        runOn (transformDirectory o root out) t =
          (.ok (.ofResults results), t') ∧
        Accounts o root out t results t') := by
  refine ⟨fun hroot => ?_, fun hroot before fault after hentries hbefore => ?_,
    fun hroot hnone => ?_⟩
  · exact runOn_bind_error (runOn_discover_of_not_directory hroot)
  · have hdiscover := runOn_discover hroot hwalk
    rw [hentries, templatesAmong_of_fault hbefore] at hdiscover
    exact runOn_bind_error hdiscover
  · have hdiscover := runOn_discover hroot hwalk
    rw [templatesAmong_of_no_fault hnone] at hdiscover
    obtain ⟨results, t', hrun, hps, hran⟩ := transformEach_ran o root out
      (sortBy Path.precedes (entries.filterMap templateOf?)) t
    have hdiscovered := (hwalked hroot).discovered hnone
    rw [← hps] at hdiscovered
    refine ⟨results, t', hps ▸ hdiscover, ?_,
      hran.accounts ht hroot hdiscovered⟩
    rw [transformDirectory, runOn_bind_ok hdiscover, runOn_lift, hrun]

/-- Two templates in directories whose paths are in another order than their
names, of which the second cannot be transformed. -/
def FileTree.twoPages : FileTree :=
  ((bare ["w".toList]).plant ["w".toList, "a".toList, "x.svelte".toList]
      (.text "x".toList)).plant ["w".toList, "a.b".toList, "x.svelte".toList]
    (.text "\x7b#if".toList)

/-- A walk that is kept out of the directory it should look into. -/
@[reducible] def FileTree.keptOut : Walker (StateM FileTree) where
  walk p := fun t =>
    ([.ok ⟨p, false⟩, .error ⟨p, .other "Permission denied (os error 13)"⟩], t)

theorem transformDirectory_accounts_twoPages :
    twoPages.WellFormed ∧ twoPages.isDirectory (.ofText ".".toList) = true ∧
    (∃ results t', runOn (discover (.ofText ".".toList)) twoPages =
      (.ok (results.map Prod.fst), twoPages) ∧
      runOn (transformDirectory .standard (.ofText ".".toList) none) twoPages =
        (.ok (.ofResults results), t') ∧
      Accounts .standard (.ofText ".".toList) none twoPages results t' ∧
      results.map Prod.fst =
        [.ofText "./a/x.svelte".toList, .ofText "./a.b/x.svelte".toList] ∧
      (BatchReport.ofResults results).written =
        [⟨.ofText "./a/x.jsx".toList, .ofText "./a/x.jsx.map".toList⟩] ∧
      (BatchReport.ofResults results).failed.map Prod.fst =
        [.ofText "./a.b/x.svelte".toList] ∧
      t'.read (.ofText "./a/x.jsx".toList) = .ok "<>x</>".toList ∧
      t'.read (.ofText "./a/x.jsx.map".toList) =
        .ok ("\x7b\"version\":3,\"sources\":[\"x.svelte\"]," ++
          "\"sourcesContent\":[\"x\"]," ++
          "\"names\":[],\"mappings\":\"EAAA\"\x7d").toList) ∧
    runOn (@transformDirectory _ _ _ keptOut .standard (.ofText ".".toList)
        none) twoPages =
      (.error (.walk ⟨.ofText ".".toList,
        .other "Permission denied (os error 13)"⟩), twoPages) := by
  have ht : twoPages.WellFormed :=
    ⟨by decide +kernel, by decide +kernel, by decide +kernel⟩
  have hroot : twoPages.isDirectory (.ofText ".".toList) = true := by
    decide +kernel
  have hnone : ∀ fault, .error fault ∉ twoPages.walk (.ofText ".".toList) := by
    have hall : (twoPages.walk (.ofText ".".toList)).all
        Except.isOk = true := by
      decide +kernel
    intro fault hfault
    have hok := List.all_eq_true.1 hall _ hfault
    cases hok
  refine ⟨ht, hroot, ?_, ?_⟩
  · obtain ⟨results, t', hdiscover, hrun, haccounts⟩ :=
      (transformDirectory_accounts ht rfl (fun h => ht.walked h) .standard
        none).2.2 hroot hnone
    have horder : (runOn (discover (.ofText ".".toList)) twoPages).1.toOption =
        some [.ofText "./a/x.svelte".toList,
          .ofText "./a.b/x.svelte".toList] := by
      decide +kernel
    have hreport :
        (runOn (transformDirectory .standard (.ofText ".".toList) none)
            twoPages).1.toOption.map (fun r =>
          (r.written, r.failed.map Prod.fst)) =
          some ([⟨.ofText "./a/x.jsx".toList, .ofText "./a/x.jsx.map".toList⟩],
            [.ofText "./a.b/x.svelte".toList]) := by
      decide +kernel
    have hleft :
        t' = (runOn (transformDirectory .standard (.ofText ".".toList) none)
          twoPages).2 := by
      rw [hrun]
    rw [hdiscover] at horder
    rw [hrun] at hreport
    obtain ⟨hdone, hfailed⟩ := Prod.ext_iff.1 (Option.some.inj hreport)
    refine ⟨results, t', hdiscover, hrun, haccounts, Option.some.inj horder,
      hdone, hfailed, ?_⟩
    rw [hleft]
    decide +kernel
  · have hwalked : twoPages.Walked (.ofText ".".toList)
        [.ok ⟨.ofText ".".toList, false⟩,
          .error ⟨.ofText ".".toList,
            .other "Permission denied (os error 13)"⟩] := by
      refine ⟨by simp, fun hnone => ?_, by simp⟩
      exact absurd (List.mem_cons_of_mem _ List.mem_cons_self) (hnone _)
    exact (@transformDirectory_accounts keptOut _ _ _ ht rfl (fun _ => hwalked)
      .standard none).2.1 hroot [.ok ⟨.ofText ".".toList, false⟩] _ [] rfl
      (by simp)

end TemplateJsx
