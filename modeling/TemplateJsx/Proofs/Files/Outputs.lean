import TemplateJsx.Proofs.Files.Paths

/-!
# What a run leaves of its outputs

Writing the outputs of a template makes the directory for them, writes the code
and then writes the map.  Each of the three may fail, and `WritesOutputs` lists
what may come of it with the tree that is left.

A run that fails before the map leaves all files as they were, and one that
succeeds leaves both outputs and changes nothing else.  A run that fails at the
map has written the code already, and the code stays
(`runs_leave_code_without_map`).
-/

namespace TemplateJsx

open FileTree

/-! ## Runs on a tree held in memory -/

/-- What comes of a run on a file tree, and the tree that it leaves.  A fault
does not undo what was done before it, so both are of interest. -/
def runOn {α : Type} (x : ExceptT RunFault (StateM FileTree) α) (t : FileTree) :
    Except RunFault α × FileTree :=
  StateT.run (ExceptT.run x) t

section Runs

variable {α β : Type} {x : ExceptT RunFault (StateM FileTree) α}
  {f : α → ExceptT RunFault (StateM FileTree) β} {t t' : FileTree}

theorem runOn_bind_ok {a : α} (h : runOn x t = (.ok a, t')) :
    runOn (x >>= f) t = runOn (f a) t' := by
  change StateT.run (ExceptT.run x >>= ExceptT.bindCont f) t = _
  rw [StateT.run_bind, show StateT.run (ExceptT.run x) t = (.ok a, t') from h]
  rfl

theorem runOn_bind_error {fault : RunFault}
    (h : runOn x t = (.error fault, t')) :
    runOn (x >>= f) t = (.error fault, t') := by
  change StateT.run (ExceptT.run x >>= ExceptT.bindCont f) t = _
  rw [StateT.run_bind, show StateT.run (ExceptT.run x) t =
    (.error fault, t') from h]
  rfl

theorem runOn_given (result : Except RunFault α) (t : FileTree) :
    runOn (ExceptT.mk (pure result)) t = (result, t) := rfl

theorem runOn_lift (action : StateM FileTree α) (t : FileTree) :
    runOn (liftM action) t = (.ok (action.run t).1, (action.run t).2) := rfl

theorem runOn_onFiles (fault : FileFault → RunFault)
    (action : StateM FileTree (Except FileFault α)) (t : FileTree) :
    runOn (onFiles fault action) t =
      ((action.run t).1.mapError fault, (action.run t).2) := rfl

theorem runOn_readTemplate_ok {p : Path} {text : Text}
    (h : t.read p = .ok text) :
    runOn (readTemplate p) t = (.ok text, t) := by
  rw [readTemplate, runOn_onFiles]
  change ((t.read p).mapError _, t) = _
  rw [h]
  rfl

theorem runOn_readTemplate_error {p : Path} {reason : FileFault}
    (h : t.read p = .error reason) :
    runOn (readTemplate p) t = (.error (.read p reason), t) := by
  rw [readTemplate, runOn_onFiles]
  change ((t.read p).mapError _, t) = _
  rw [h]
  rfl

theorem runOn_writeText_ok {p : Path} {text : Text}
    (h : t.write p text = .ok t') :
    runOn (writeText p text) t = (.ok (), t') := by
  have hrun : (Storage.write p text : StateM FileTree _).run t =
      (.ok (), t') := run_change_ok h
  rw [writeText, runOn_onFiles, hrun]
  rfl

theorem runOn_writeText_error {p : Path} {text : Text} {reason : FileFault}
    (h : t.write p text = .error reason) :
    runOn (writeText p text) t = (.error (.write p reason), t) := by
  have hrun : (Storage.write p text : StateM FileTree _).run t =
      (.error reason, t) := run_change_error h
  rw [writeText, runOn_onFiles, hrun]
  rfl

end Runs

/-! ## Writing the outputs -/

/-- Makes the directory that a file goes into. -/
def makeParent (p : Path) : ExceptT RunFault (StateM FileTree) Unit :=
  match p.parent? with
  | none => pure ()
  | some directory =>
    onFiles (.create directory) (Storage.makeDirectories directory.ancestors)

theorem writeOutputs_eq (output : Output) (paths : OutputPaths) :
    (writeOutputs output paths : ExceptT RunFault (StateM FileTree) Unit) =
      makeParent paths.code >>= fun _ =>
        writeText paths.code output.code >>= fun _ =>
          writeText paths.map output.map.text := by
  unfold writeOutputs makeParent
  cases paths.code.parent? <;> rfl

/-- Making the directory for a file alters no file, and where it fails the fault
is about that directory. -/
theorem runOn_makeParent (p : Path) (t : FileTree) : ∃ t', t.Alters [] t' ∧
    (runOn (makeParent p) t = (.ok (), t') ∨
      ∃ directory reason, p.parent? = some directory ∧
        runOn (makeParent p) t = (.error (.create directory reason), t')) := by
  unfold makeParent
  cases p.parent? with
  | none => exact ⟨t, .refl [] t, .inl rfl⟩
  | some directory =>
      dsimp only
      refine ⟨_, makeDirectories_confined directory.ancestors t, ?_⟩
      rw [runOn_onFiles]
      cases (StateT.run
        (Storage.makeDirectories directory.ancestors : StateM FileTree _)
        t).1 with
      | error reason => exact .inr ⟨directory, reason, rfl, rfl⟩
      | ok made => exact .inl rfl

/-- What may come of writing outputs, and the tree that is left.  The directory
for the code is made first, then the code is written, then the map; each step
may fail, and then the steps before it stay. -/
inductive WritesOutputs (output : Output) (paths : OutputPaths) (t : FileTree) :
    Except RunFault Unit × FileTree → Prop where
  | noDirectory {directory : Path} {reason : FileFault} {t₁ : FileTree}
      (around : paths.code.parent? = some directory) (made : t.Alters [] t₁) :
      WritesOutputs output paths t (.error (.create directory reason), t₁)
  | noCode {reason : FileFault} {t₁ : FileTree} (made : t.Alters [] t₁) :
      WritesOutputs output paths t (.error (.write paths.code reason), t₁)
  | noMap {reason : FileFault} {t₁ t₂ : FileTree} (made : t.Alters [] t₁)
      (code : t₁.write paths.code output.code = .ok t₂)
      (map : t₂.write paths.map output.map.text = .error reason) :
      WritesOutputs output paths t (.error (.write paths.map reason), t₂)
  | both {t₁ t₂ t₃ : FileTree} (made : t.Alters [] t₁)
      (code : t₁.write paths.code output.code = .ok t₂)
      (map : t₂.write paths.map output.map.text = .ok t₃) :
      WritesOutputs output paths t (.ok (), t₃)

theorem writesOutputs (output : Output) (paths : OutputPaths) (t : FileTree) :
    WritesOutputs output paths t (runOn (writeOutputs output paths) t) := by
  rw [writeOutputs_eq]
  obtain ⟨t₁, hmade, hparent | ⟨directory, reason, haround, hparent⟩⟩ :=
    runOn_makeParent paths.code t
  · rw [runOn_bind_ok hparent]
    cases hcode : t₁.write paths.code output.code with
    | error reason =>
        rw [runOn_bind_error (runOn_writeText_error hcode)]
        exact .noCode hmade
    | ok t₂ =>
        rw [runOn_bind_ok (runOn_writeText_ok hcode)]
        cases hmap : t₂.write paths.map output.map.text with
        | error reason =>
            rw [runOn_writeText_error hmap]
            exact .noMap hmade hcode hmap
        | ok t₃ =>
            rw [runOn_writeText_ok hmap]
            exact .both hmade hcode hmap
  · rw [runOn_bind_error hparent]
    exact .noDirectory haround hmade

/-- The fault is that the map could not be written to a file of its own. -/
def RunFault.missesMap (paths : OutputPaths) : RunFault → Bool
  | .write path _ => path = paths.map && paths.map ≠ paths.code
  | _ => false

/-- The files after a run for the outputs: both are there, or only the code
because the map is missed, or no file is other than it was.  A fault tells which
of the last two it is. -/
def LeavesOutputs (output : Output) (paths : OutputPaths) (t : FileTree) :
    Except RunFault Unit × FileTree → Prop
  | (.ok (), t') =>
      t.Alters [t.place paths.code, t.place paths.map] t' ∧
        t'.read paths.map = .ok output.map.text ∧
        (t.place paths.code ≠ t.place paths.map →
          t'.read paths.code = .ok output.code)
  | (.error fault, t') =>
      if fault.missesMap paths then t.Alters [t.place paths.code] t' ∧
        t'.read paths.code = .ok output.code
      else t.Alters [] t'

theorem code_alters {output : Output} {paths : OutputPaths} {t t₁ t₂ : FileTree}
    (made : t.Alters [] t₁) (code : t₁.write paths.code output.code = .ok t₂) :
    t.Alters [t.place paths.code] t₂ ∧ t₂.read paths.code =
      .ok output.code := by
  obtain ⟨hcode, hread⟩ := write_alters code
  rw [made.place_eq] at hcode
  exact ⟨(made.mono (List.nil_subset _)).trans hcode, hread⟩

theorem WritesOutputs.leaves {output : Output} {paths : OutputPaths}
    {t : FileTree} {result : Except RunFault Unit × FileTree}
    (h : WritesOutputs output paths t result) :
    LeavesOutputs output paths t result := by
  cases h with
  | noDirectory _ made => simpa [LeavesOutputs, RunFault.missesMap] using made
  | noCode made =>
      have hmisses : ∀ reason, (RunFault.write paths.code reason).missesMap
          paths = false := by
        intro reason
        simpa [RunFault.missesMap] using Eq.symm
      simpa [LeavesOutputs, hmisses] using made
  | noMap made code map =>
      -- One path for both: the file that holds the code can be written again,
      -- so the map is not missed.
      have hne : paths.map ≠ paths.code := by
        intro heq
        obtain ⟨t₃, hagain⟩ := write_again code output.map.text
        rw [heq, hagain] at map
        cases map
      simpa [LeavesOutputs, RunFault.missesMap, hne] using code_alters made code
  | both made code map =>
      obtain ⟨hcode, hread⟩ := code_alters made code
      obtain ⟨hmap, hmapRead⟩ := write_alters map
      rw [hcode.place_eq] at hmap
      refine ⟨(hcode.mono (by simp)).trans (hmap.mono (by simp)), hmapRead,
        fun hne => ?_⟩
      exact hmap.read_eq_ok (by rw [hcode.place_eq]; simpa using hne) hread

/-! ## Transforming a file -/

def Path.outputsFor (p : Path) (directory : Option Path) : OutputPaths :=
  p.outputsIn (directory.getD (p.parent?.getD .empty))

/-- What may come of transforming a file, and the tree that is left: it cannot
be read, it cannot be transformed, or its outputs are written as far as they can
be. -/
inductive TransformsFile (o : Options) (p : Path) (directory : Option Path)
    (t : FileTree) :
    Except RunFault OutputPaths × FileTree → Prop where
  | unread {reason : FileFault} (read : t.read p = .error reason) :
      TransformsFile o p directory t (.error (.read p reason), t)
  | refused {text : Text} {fault : RunFault} (read : t.read p = .ok text)
      (transformed : transformNamed o p.displayName text = .error fault) :
      TransformsFile o p directory t (.error fault, t)
  | unwritten {text : Text} {output : Output} {fault : RunFault} {t' : FileTree}
      (read : t.read p = .ok text)
      (transformed : transformNamed o p.displayName text = .ok output)
      (writes : WritesOutputs output (p.outputsFor directory) t
        (.error fault, t')) :
      TransformsFile o p directory t (.error fault, t')
  | written {text : Text} {output : Output} {t' : FileTree}
      (read : t.read p = .ok text)
      (transformed : transformNamed o p.displayName text = .ok output)
      (writes : WritesOutputs output (p.outputsFor directory) t (.ok (), t')) :
      TransformsFile o p directory t (.ok (p.outputsFor directory), t')

theorem transformFile_eq (o : Options) (p : Path) (directory : Option Path) :
    (transformFile o p directory :
      ExceptT RunFault (StateM FileTree) OutputPaths) = do
      let text ← readTemplate p
      let output ← ExceptT.mk (pure (transformNamed o p.displayName text))
      writeOutputs output (p.outputsFor directory)
      return p.outputsFor directory := rfl

theorem transformsFile (o : Options) (p : Path) (directory : Option Path)
    (t : FileTree) :
    TransformsFile o p directory t (runOn (transformFile o p directory) t) := by
  rw [transformFile_eq]
  cases hread : t.read p with
  | error reason =>
      rw [runOn_bind_error (runOn_readTemplate_error hread)]
      exact .unread hread
  | ok text =>
      rw [runOn_bind_ok (runOn_readTemplate_ok hread)]
      cases htransform : transformNamed o p.displayName text with
      | error fault =>
          rw [runOn_bind_error (runOn_given (.error fault) t)]
          exact .refused hread htransform
      | ok output =>
          rw [runOn_bind_ok (runOn_given (.ok output) t)]
          have hwrites := writesOutputs output (p.outputsFor directory) t
          cases hrun : runOn (writeOutputs output (p.outputsFor directory))
            t with
          | mk result t' =>
              rw [hrun] at hwrites
              cases result with
              | error fault =>
                  rw [runOn_bind_error hrun]
                  exact .unwritten hread htransform hwrites
              | ok _ =>
                  rw [runOn_bind_ok hrun]
                  exact .written hread htransform hwrites

/-- The fault of a template that cannot be transformed is not about its
outputs. -/
theorem missesMap_of_transformNamed {o : Options} {name text : Text}
    {fault : RunFault} (paths : OutputPaths)
    (h : transformNamed o name text = .error fault) :
    fault.missesMap paths = false := by
  unfold transformNamed at h
  split at h
  · cases h
  · cases h
    rfl

/-- The files after a template is transformed: both outputs are there, or only
the code because the map is missed, or no file is other than it was. -/
def LeavesFile (o : Options) (p : Path) (directory : Option Path)
    (t : FileTree) :
    Except RunFault OutputPaths × FileTree → Prop
  | (.ok paths, t') =>
      paths = p.outputsFor directory ∧ ∃ text output, t.read p = .ok text ∧
        transformNamed o p.displayName text = .ok output ∧
        t.Alters [t.place paths.code, t.place paths.map] t' ∧
        t'.read paths.code = .ok output.code ∧
        t'.read paths.map = .ok output.map.text
  | (.error fault, t') =>
      if fault.missesMap (p.outputsFor directory) then
        ∃ text output, t.read p = .ok text ∧
          transformNamed o p.displayName text = .ok output ∧
          t.Alters [t.place (p.outputsFor directory).code] t' ∧
          t'.read (p.outputsFor directory).code = .ok output.code
      else t.Alters [] t'

theorem TransformsFile.leaves {o : Options} {p : Path} {directory : Option Path}
    {t : FileTree} {result : Except RunFault OutputPaths × FileTree}
    (h : TransformsFile o p directory t result) :
    LeavesFile o p directory t result := by
  cases h with
  | unread read => simpa [LeavesFile, RunFault.missesMap] using Alters.refl [] t
  | refused read transformed =>
      simpa [LeavesFile, missesMap_of_transformNamed _ transformed]
        using Alters.refl [] t
  | @unwritten text output fault t' read transformed writes =>
      have hleaves := writes.leaves
      unfold LeavesOutputs at hleaves
      unfold LeavesFile
      cases hmisses : fault.missesMap (p.outputsFor directory) with
      | true =>
          simp only [hmisses, if_true] at hleaves ⊢
          exact ⟨text, output, read, transformed, hleaves⟩
      | false => simpa [hmisses] using hleaves
  | @written text output t' read transformed writes =>
      obtain ⟨halters, hmap, hcode⟩ := writes.leaves
      exact ⟨rfl, text, output, read, transformed, halters,
        hcode (t.place_code_ne_map p _), hmap⟩

/-- **Partial output.**  A run leaves both outputs and no other change, or no
change of any file, but for one case: where the map cannot be written to a file
of its own, the code that was written before it stays.  Whoever calls this must
not take a failure for a tree without changes. -/
theorem runs_leave_code_without_map (t : FileTree) :
    (∀ output paths, LeavesOutputs output paths t
      (runOn (writeOutputs output paths) t)) ∧
      ∀ o p directory, LeavesFile o p directory t
        (runOn (transformFile o p directory) t) :=
  ⟨fun output paths => (writesOutputs output paths t).leaves,
    fun o p directory => (transformsFile o p directory t).leaves⟩

/-- A template beside a directory that has the name of its map. -/
def FileTree.mapTaken : FileTree :=
  ((bare ["w".toList]).plant ["w".toList, "a.svelte".toList]
    (.text "x".toList)).plant ["w".toList, "a.jsx.map".toList] .directory

/-- The run fails, and the code, which was not there before, is there. -/
theorem transformFile_mapTaken :
    (runOn (transformFile .standard (.ofText "a.svelte".toList) none)
      mapTaken).1.isOk = false ∧
      mapTaken.find? ["w".toList, "a.jsx".toList] = none ∧
      (runOn (transformFile .standard (.ofText "a.svelte".toList) none)
          mapTaken).2.find? ["w".toList, "a.jsx".toList] =
        some (.text "<>x</>".toList) := by
  decide +kernel

end TemplateJsx
