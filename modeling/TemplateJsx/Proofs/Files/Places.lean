import TemplateJsx.Files.Storage

/-!
# Places in a file tree

Where a path leads is a matter of its segments alone: `FileTree.place` reads
them off without looking at what is there.  Following a path only checks that
there are directories on the way (`FileTree.follow_eq_ok`).

`Alters files t t'` says how far one tree is from another: directories stay and
new ones may be made, but of the files only those at the places `files` may
differ.  Writing a file alters that file (`write_alters`), and making
directories alters none (`makeDirectories_confined`).  Where such a change
leaves the way to a file and the file alone, reading gives the same as before
(`Alters.read_eq_ok`).
-/

namespace TemplateJsx

/-- A segment by which something in a directory can be called: neither empty nor
one or two dots. -/
def isName (segment : Text) : Bool :=
  segment ≠ [] && segment ≠ ['.'] && segment ≠ ['.', '.']

theorem isName_iff {segment : Text} :
    isName segment = true ↔ segment ≠ [] ∧ segment ≠ ['.'] ∧
      segment ≠ ['.', '.'] := by
  simp [isName, and_assoc]

def Location.enter (l : Location) (segment : Text) : Location :=
  if segment = [] || segment = ['.'] then l
  else if segment = ['.', '.'] then l.dropLast
  else l ++ [segment]

theorem Location.enter_blank {segment : Text}
    (h : segment = [] ∨ segment = ['.']) (l : Location) :
    Location.enter l segment = l := by
  rcases h with rfl | rfl <;> rfl

theorem Location.enter_name {segment : Text} (h : isName segment = true)
    (l : Location) :
    Location.enter l segment = l ++ [segment] := by
  obtain ⟨hempty, hhere, hup⟩ := isName_iff.1 h
  simp [Location.enter, hempty, hhere, hup]

theorem Location.foldl_enter_names {names : List Text}
    (h : ∀ n ∈ names, isName n = true) (l : Location) :
    names.foldl Location.enter l = l ++ names := by
  induction names generalizing l with
  | nil => simp
  | cons n names ih =>
      obtain ⟨hn, hnames⟩ := List.forall_mem_cons.1 h
      rw [List.foldl_cons, Location.enter_name hn, ih hnames, List.append_assoc,
        List.singleton_append]

namespace FileTree

variable {t t' t'' : FileTree} {p : Path} {l l' : Location}

/-- The place that a path leads to, whatever is there.  Following a path may
fail where something on the way is missing; the place is what it leads to where
it does not. -/
def place (t : FileTree) (p : Path) : Location :=
  p.segments.foldl Location.enter (if p.absolute then [] else t.working)

/-! ## What is found after a change -/

theorem find?_ne_nil (h : l ≠ []) : t.find? l = t.entries.lookup l := by
  simp [find?, h]

theorem lookup_filter_ne {entries : List (Location × Entry)} (h : l' ≠ l) :
    (entries.filter (·.1 ≠ l)).lookup l' = entries.lookup l' := by
  induction entries with
  | nil => rfl
  | cons entry entries ih =>
      obtain ⟨k, e⟩ := entry
      by_cases hk : k = l
      · have hne : (l' == k) = false := beq_eq_false_iff_ne.2 (hk ▸ h)
        simp only [List.filter_cons, hk, ne_eq, not_true_eq_false, decide_false,
          Bool.false_eq_true, if_false, ih, List.lookup_cons, hk ▸ hne]
      · simp only [List.filter_cons, hk, ne_eq, not_false_eq_true, decide_true,
          if_true, List.lookup_cons, ih]

theorem find?_put_self (h : l ≠ []) (e : Entry) :
    (t.put l e).find? l = some e := by
  simp [find?, h, put]

theorem find?_put_ne (h : l' ≠ l) (e : Entry) :
    (t.put l e).find? l' = t.find? l' := by
  by_cases hroot : l' = []
  · simp [find?, hroot]
  · have hne : (l' == l) = false := by simpa using h
    rw [find?_ne_nil hroot, find?_ne_nil hroot, put, List.lookup_cons, hne]
    exact lookup_filter_ne h

/-! ## Following a path -/

/-- A segment is entered from a directory, and a name must not be too long. -/
theorem enter_eq_ok {segment : Text} : t.enter l segment = .ok l' ↔
    t.find? l = some .directory ∧
    (isName segment = true → segment.byteLength ≤ nameLimit) ∧
      l' = Location.enter l segment := by
  unfold enter Location.enter
  cases hfind : t.find? l with
  | none => simp
  | some e =>
      cases e with
      | text s => simp
      | binary => simp
      | directory =>
          by_cases hblank : segment = [] ∨ segment = ['.']
          · have hname : isName segment = false := by
              rcases hblank with rfl | rfl <;> rfl
            simp only [hblank, hname, Bool.or_eq_true, decide_eq_true_eq,
              if_true, Except.ok.injEq, Bool.false_eq_true,
              false_implies, true_and]
            exact eq_comm
          · by_cases hup : segment = ['.', '.']
            · subst hup
              exact ⟨fun h =>
                ⟨rfl, by simp [isName], (Except.ok.inj h).symm⟩, fun h =>
                congrArg _ h.2.2.symm⟩
            · have hname : isName segment = true :=
                isName_iff.2 ⟨fun h => hblank (.inl h), fun h =>
                  hblank (.inr h), hup⟩
              by_cases hlong : nameLimit < segment.byteLength
              · simp [hblank, hup, hname, hlong, Nat.not_le.2 hlong]
              · simp only [hblank, hup, hname, hlong, Nat.not_lt.1 hlong,
                  Bool.or_eq_true, decide_eq_true_eq, if_false, Except.ok.injEq,
                  true_and, implies_true]
                exact eq_comm

theorem enter_of_not_directory (h : t.find? l ≠ some .directory) :
    ∃ fault, ∀ segment, t.enter l segment = .error fault := by
  unfold enter
  cases hfind : t.find? l with
  | none => exact ⟨.notFound, fun _ => rfl⟩
  | some e =>
      cases e with
      | directory => exact absurd hfind h
      | text s => exact ⟨.notDirectory, fun _ => rfl⟩
      | binary => exact ⟨.notDirectory, fun _ => rfl⟩

theorem foldlM_enter_cons_eq_ok {segment : Text} {segments : List Text} :
    (segment :: segments).foldlM t.enter l = .ok l' ↔
      ∃ m, t.enter l segment = .ok m ∧ segments.foldlM t.enter m = .ok l' := by
  rw [List.foldlM_cons]
  cases t.enter l segment with
  | error fault => simp [bind, Except.bind]
  | ok m => simp [bind, Except.bind]

theorem foldlM_enter_append_eq_ok {first rest : List Text} :
    (first ++ rest).foldlM t.enter l = .ok l' ↔
      ∃ m, first.foldlM t.enter l = .ok m ∧ rest.foldlM t.enter m = .ok l' := by
  rw [List.foldlM_append]
  cases first.foldlM t.enter l with
  | error fault => simp [bind, Except.bind]
  | ok m => simp [bind, Except.bind]

theorem eq_foldl_enter {segments : List Text}
    (h : segments.foldlM t.enter l = .ok l') :
    l' = segments.foldl Location.enter l := by
  induction segments generalizing l with
  | nil => exact (Except.ok.inj h).symm
  | cons segment segments ih =>
      obtain ⟨m, hm, hrest⟩ := foldlM_enter_cons_eq_ok.1 h
      rw [List.foldl_cons, ← (enter_eq_ok.1 hm).2.2]
      exact ih hrest

/-- More directories on the way change nothing. -/
theorem foldlM_enter_mono
    (hdirectories : ∀ l, t.find? l = some .directory →
      t'.find? l = some .directory)
    {segments : List Text} (h : segments.foldlM t.enter l = .ok l') :
    segments.foldlM t'.enter l = .ok l' := by
  induction segments generalizing l with
  | nil => exact h
  | cons segment segments ih =>
      obtain ⟨m, hm, hrest⟩ := foldlM_enter_cons_eq_ok.1 h
      obtain ⟨hfind, hname, hplace⟩ := enter_eq_ok.1 hm
      exact foldlM_enter_cons_eq_ok.2
        ⟨m, enter_eq_ok.2 ⟨hdirectories l hfind, hname, hplace⟩, ih hrest⟩

theorem origin_eq_ok (h : t.origin p = .ok l) :
    l = if p.absolute then [] else t.working := by
  unfold origin at h
  split at h
  · cases h
  · split at h
    · cases h
    · split at h
      · cases h
      · exact (Except.ok.inj h).symm

theorem origin_congr (h : t'.working = t.working) (p : Path) :
    t'.origin p = t.origin p := by
  simp only [origin, h]

theorem follow_eq_ok_iff : t.follow p = .ok l ↔
    ∃ o, t.origin p = .ok o ∧ p.segments.foldlM t.enter o = .ok l := by
  unfold follow
  cases t.origin p with
  | error fault => simp [bind, Except.bind]
  | ok o => simp [bind, Except.bind]

/-- A path that can be followed leads to its place. -/
theorem follow_eq_ok (h : t.follow p = .ok l) : l = t.place p := by
  obtain ⟨o, ho, hsegments⟩ := follow_eq_ok_iff.1 h
  rw [eq_foldl_enter hsegments, origin_eq_ok ho, place]

theorem read_eq_ok_iff {s : Text} :
    t.read p = .ok s ↔ ∃ l, t.follow p = .ok l ∧
      t.find? l = some (.text s) := by
  unfold read
  cases t.follow p with
  | error fault => simp [bind, Except.bind]
  | ok l =>
      cases hfind : t.find? l with
      | none =>
          simp [bind, Except.bind, throw, throwThe, MonadExceptOf.throw, hfind]
      | some e =>
          cases e <;>
            simp [bind, Except.bind, throw, throwThe, MonadExceptOf.throw,
              hfind, pure, Except.pure]

/-! ## Writing files -/

theorem dropSlashes_of_name {segments : List Text}
    (h : endsWithName segments = true) :
    dropSlashes segments = segments := by
  unfold dropSlashes
  cases hrev : segments.reverse with
  | nil => simpa using hrev.symm
  | cons last rest =>
      have hlast : segments.getLast? = some last := by
        rw [List.getLast?_eq_head?_reverse, hrev]
        rfl
      have hne : last ≠ [] := by
        unfold endsWithName at h
        rw [hlast] at h
        simp only [Bool.and_eq_true, decide_eq_true_eq] at h
        exact h.1.1
      rw [List.dropWhile_cons, if_neg (by simpa using hne), ← hrev,
        List.reverse_reverse]

theorem endsWithName_eq_true {segments : List Text}
    (h : endsWithName segments = true) :
    ∃ first last, segments = first ++ [last] ∧ isName last = true := by
  unfold endsWithName at h
  split at h
  · cases h
  · rename_i last hlast
    obtain ⟨first, rfl⟩ := List.getLast?_eq_some_iff.1 hlast
    exact ⟨first, last, rfl, h⟩

theorem write_of_name (h : endsWithName p.segments = true) (s : Text) :
    t.write p s = (t.follow p).bind fun l =>
      if t.find? l = some .directory then .error .isDirectory
      else .ok (t.put l (.text s)) := by
  obtain ⟨first, last, hsegments, -⟩ := endsWithName_eq_true h
  unfold write follow
  rw [dropSlashes_of_name h, h, hsegments]
  dsimp only
  rw [List.dropLast_concat, List.getLast?_concat]
  cases t.origin p with
  | error fault => rfl
  | ok o =>
      simp only [bind, Except.bind, List.foldlM_append, List.foldlM_cons,
        List.foldlM_nil, pure, Except.pure]
      cases first.foldlM t.enter o with
      | error fault => rfl
      | ok around =>
          by_cases hdirectory : t.find? around = some .directory
          · -- The empty segment leads to the directory itself, from which the
            -- name is entered on both sides.
            have hself : t.enter around [] = .ok around :=
              enter_eq_ok.2 ⟨hdirectory, by simp [isName], rfl⟩
            cases henter : t.enter around last with
            | error fault => simp [hself, henter]
            | ok l =>
                by_cases hfind : t.find? l = some .directory
                · simp [hself, henter, hfind, throw, throwThe,
                    MonadExceptOf.throw]
                · simp [hself, henter, hfind]
          · obtain ⟨fault, hfault⟩ := enter_of_not_directory hdirectory
            simp [hfault]

theorem write_of_not_name (h : endsWithName p.segments = false) (s : Text) :
    ∃ fault, t.write p s = .error fault := by
  unfold write
  cases t.origin p with
  | error fault => exact ⟨fault, rfl⟩
  | ok o =>
      simp only [bind, Except.bind, h]
      cases ((dropSlashes p.segments).dropLast ++ [[]]).foldlM t.enter o with
      | error fault => exact ⟨fault, rfl⟩
      | ok around => exact ⟨.isDirectory, rfl⟩

/-- A file is written where its path can be followed to something other than a
directory.  The tree then has the file there and is otherwise as it was. -/
theorem write_eq_ok {s : Text} : t.write p s = .ok t' ↔
    endsWithName p.segments = true ∧ ∃ l, t.follow p = .ok l ∧
    t.find? l ≠ some .directory ∧
      t' = t.put l (.text s) := by
  cases hends : endsWithName p.segments with
  | false =>
      obtain ⟨fault, hfault⟩ := write_of_not_name (t := t) hends s
      simp [hfault]
  | true =>
      rw [write_of_name hends]
      cases t.follow p with
      | error fault => simp [Except.bind]
      | ok l =>
          by_cases hfind : t.find? l = some .directory
          · simp [Except.bind, hfind]
          · simp [Except.bind, hfind, @eq_comm _ t']

theorem makeDirectory_eq_ok (h : t.makeDirectory p = .ok t') :
    ∃ l, t.find? l = none ∧ t' = t.put l .directory := by
  unfold makeDirectory at h
  cases horigin : t.origin p with
  | error fault => simp [horigin, bind, Except.bind] at h
  | ok o =>
      cases hfold : (dropSlashes p.segments).foldlM t.enter o with
      | error fault => simp [horigin, hfold, bind, Except.bind] at h
      | ok l =>
          simp only [horigin, hfold, bind, Except.bind, throw, throwThe,
            MonadExceptOf.throw, pure, Except.pure] at h
          split at h
          · cases h
          · rename_i hfree
            simp only [Bool.or_eq_true, not_or, Bool.not_eq_true,
              Option.isSome_eq_false_iff, Option.isNone_iff_eq_none] at hfree
            exact ⟨l, hfree.2, (Except.ok.inj h).symm⟩

/-! ## How far one tree is from another -/

/-- Directories stay and new ones may be made, but of the files only those at
the given places may differ.  It composes along a run, and everything that reads
a file elsewhere may ignore the run. -/
structure Alters (files : List Location) (t t' : FileTree) : Prop where
  working : t'.working = t.working
  directories : ∀ l, t.find? l = some .directory → t'.find? l = some .directory
  others : ∀ l, l ∉ files → t'.find? l = t.find? l ∨ t.find? l = none ∧
    t'.find? l = some .directory

namespace Alters

variable {files more : List Location}

theorem refl (files : List Location) (t : FileTree) : Alters files t t :=
  ⟨rfl, fun _ h => h, fun _ _ => .inl rfl⟩

theorem trans (h : Alters files t t') (h' : Alters files t' t'') :
    Alters files t t'' where
  working := h'.working.trans h.working
  directories l hl := h'.directories l (h.directories l hl)
  others l hl := by
    rcases h.others l hl with hsame | ⟨hnone, hmade⟩
    · rw [← hsame]
      exact h'.others l hl
    · exact .inr ⟨hnone, h'.directories l hmade⟩

theorem mono (h : Alters files t t') (hsub : files ⊆ more) : Alters more t t' :=
  ⟨h.working, h.directories, fun l hl => h.others l fun hmem => hl (hsub hmem)⟩

theorem origin_eq (h : Alters files t t') (p : Path) :
    t'.origin p = t.origin p :=
  origin_congr h.working p

theorem place_eq (h : Alters files t t') (p : Path) :
    t'.place p = t.place p := by
  simp only [place, h.working]

theorem follow (h : Alters files t t') (hfollow : t.follow p = .ok l) :
    t'.follow p = .ok l := by
  obtain ⟨o, ho, hsegments⟩ := follow_eq_ok_iff.1 hfollow
  exact follow_eq_ok_iff.2 ⟨o, (h.origin_eq p).trans ho,
    foldlM_enter_mono h.directories hsegments⟩

/-- A file that is not among those altered reads as before, since its path still
leads where it led. -/
theorem read_eq_ok (h : Alters files t t') {s : Text}
    (hplace : t.place p ∉ files) (hread : t.read p = .ok s) :
    t'.read p = .ok s := by
  obtain ⟨l, hl, hfind⟩ := read_eq_ok_iff.1 hread
  rw [← follow_eq_ok hl] at hplace
  refine read_eq_ok_iff.2 ⟨l, h.follow hl, ?_⟩
  rcases h.others l hplace with hsame | ⟨hnone, -⟩
  · rw [hsame, hfind]
  · simp [hfind] at hnone

end Alters

theorem put_directory_alters (h : t.find? l = none) :
    Alters [] t (t.put l .directory) where
  working := rfl
  directories l' hl' := by
    have hne : l' ≠ l := fun heq => by simp [← heq, hl'] at h
    rw [find?_put_ne hne, hl']
  others l' _ := by
    by_cases hl' : l' = l
    · have hroot : l ≠ [] := fun heq => by simp [heq, find?] at h
      rw [hl', find?_put_self hroot]
      exact .inr ⟨h, rfl⟩
    · exact .inl (find?_put_ne hl' _)

/-- Writing a file alters that file, which then holds what was written. -/
theorem write_alters {s : Text} (h : t.write p s = .ok t') :
    Alters [t.place p] t t' ∧ t'.read p = .ok s := by
  obtain ⟨-, l, hfollow, hfind, rfl⟩ := write_eq_ok.1 h
  have hroot : l ≠ [] := fun heq => by simp [heq, find?] at hfind
  have halters : Alters [t.place p] t (t.put l (.text s)) := by
    rw [← follow_eq_ok hfollow]
    refine ⟨rfl, ?_, ?_⟩
    · intro l' hl'
      have hne : l' ≠ l := fun heq => hfind (heq ▸ hl')
      rw [find?_put_ne hne, hl']
    · intro l' hl'
      exact .inl (find?_put_ne (by simpa using hl') _)
  exact ⟨halters, read_eq_ok_iff.2
    ⟨l, halters.follow hfollow, find?_put_self hroot _⟩⟩

theorem write_again {s : Text} (h : t.write p s = .ok t') (s' : Text) :
    ∃ t'', t'.write p s' = .ok t'' := by
  obtain ⟨hname, l, hfollow, hfind, rfl⟩ := write_eq_ok.1 h
  have hroot : l ≠ [] := fun heq => by simp [heq, find?] at hfind
  have hfollow' := (write_alters h).1.follow hfollow
  exact ⟨_, write_eq_ok.2 ⟨hname, l, hfollow',
    by simp [find?_put_self hroot], rfl⟩⟩

end FileTree

/-! ## Operations on a tree held in memory -/

open FileTree

/-- An operation that alters no other files than those at the given places,
whatever comes of it, a fault included. -/
def Confined {α : Type} (files : List Location) (x : StateM FileTree α) :
    Prop :=
  ∀ t : FileTree, t.Alters files (x.run t).2

namespace Confined

variable {α β : Type} {files : List Location}

theorem pure (a : α) : Confined files (Pure.pure a : StateM FileTree α) :=
  fun t => .refl files t

theorem bind {x : StateM FileTree α} {f : α → StateM FileTree β}
    (hx : Confined files x) (hf : ∀ a, Confined files (f a)) :
    Confined files (x >>= f) := fun t =>
  (hx t).trans (hf (x.run t).1 (x.run t).2)

end Confined

theorem run_change_ok {f : FileTree → Except FileFault FileTree}
    {t t' : FileTree} (h : f t = .ok t') :
    (Storage.change f).run t = (.ok (), t') := by
  simp [Storage.change, StateT.run, h]

theorem run_change_error {f : FileTree → Except FileFault FileTree}
    {t : FileTree} {fault : FileFault} (h : f t = .error fault) :
    (Storage.change f).run t = (.error fault, t) := by
  simp [Storage.change, StateT.run, h]

theorem makeDirectory_confined (p : Path) :
    Confined [] (Storage.makeDirectory p : StateM FileTree _) := by
  intro t
  change t.Alters [] ((Storage.change (·.makeDirectory p)).run t).2
  cases hmake : t.makeDirectory p with
  | error fault =>
      rw [run_change_error hmake]
      exact .refl [] t
  | ok t' =>
      obtain ⟨l, hnone, rfl⟩ := makeDirectory_eq_ok hmake
      rw [run_change_ok hmake]
      exact put_directory_alters hnone

theorem isDirectory_confined (p : Path) :
    Confined [] (Storage.isDirectory p : StateM FileTree _) :=
  fun t => .refl [] t

theorem makeDirectories_confined (ps : List Path) :
    Confined [] (Storage.makeDirectories ps : StateM FileTree
      (Except FileFault Unit)) := by
  induction ps with
  | nil => exact .pure _
  | cons p around ih =>
      unfold Storage.makeDirectories
      -- A directory that is there after all is as good as a new one.
      have hafter : ∀ fault, Confined [] (do
          return if ← (Storage.isDirectory p : StateM FileTree Bool) then .ok ()
            else .error fault :
            StateM FileTree (Except FileFault Unit)) :=
        fun fault => (isDirectory_confined p).bind fun _ => .pure _
      split
      · exact .pure _
      · refine (makeDirectory_confined p).bind fun made => ?_
        split
        · exact .pure _
        · refine ih.bind fun result => ?_
          split
          · exact .pure _
          · refine (makeDirectory_confined p).bind fun again => ?_
            split
            · exact .pure _
            · exact hafter _
        · exact hafter _

end TemplateJsx
