import Mathlib.Data.List.Induction
import TemplateJsx.Proofs.Files.Outputs
import TemplateJsx.Proofs.Order

/-!
# Templates below a directory

In a tree where every file lies in a directory (`FileTree.WellFormed`) the way
to a file below a directory leads through directories only.  As these stay, a
change of other files leaves what reading it gives, be it the text or a fault
(`WellFormed.read_below_eq`).

What is asked of a walk over a directory is `FileTree.Walked`: nothing is made
up, nothing is come upon twice, and nothing is missing unless some place could
not be looked into.  The walk over a tree held in memory is one of this sort
(`WellFormed.walked`).  From any such walk a search comes to the templates in
the order of the names on the way to them (`Walked.discovered`), or to the first
fault of the walk (`templatesAmong_of_fault`).
-/

namespace TemplateJsx

namespace FileTree

variable {t t' : FileTree} {l l' : Location} {root p : Path} {names : List Text}
  {files : List Location}

/-! ## Well-formed trees -/

/-- There is one entry for a location, under names, and around it there is a
directory.  A file system has no other states. -/
structure WellFormed (t : FileTree) : Prop where
  distinct : (t.entries.map Prod.fst).Nodup
  named : ∀ entry ∈ t.entries, entry.1 ≠ [] ∧ ∀ n ∈ entry.1, isName n = true
  around : ∀ entry ∈ t.entries, t.find? entry.1.dropLast = some .directory

namespace WellFormed

/-- The entries are what is found below the root. -/
theorem mem_entries_iff (ht : t.WellFormed) {e : Entry} :
    (l, e) ∈ t.entries ↔ l ≠ [] ∧ t.find? l = some e := by
  constructor
  · intro hmem
    have hne := (ht.named _ hmem).1
    refine ⟨hne, ?_⟩
    obtain ⟨before, after, hsplit⟩ := List.append_of_mem hmem
    rw [find?_ne_nil hne, List.lookup_eq_some_iff]
    refine ⟨before, after, hsplit, fun entry hentry => ?_⟩
    have hdistinct := ht.distinct
    rw [hsplit, List.map_append, List.map_cons, List.nodup_append] at hdistinct
    have hkeys := hdistinct.2.2 entry.1 (List.mem_map_of_mem hentry) l (by simp)
    simpa using hkeys.symm
  · rintro ⟨hne, hfind⟩
    rw [find?_ne_nil hne, List.lookup_eq_some_iff] at hfind
    obtain ⟨before, after, hsplit, -⟩ := hfind
    simp [hsplit]

theorem isName_of_find? (ht : t.WellFormed) {e : Entry}
    (h : t.find? l = some e) : ∀ n ∈ l, isName n = true := by
  by_cases hl : l = []
  · simp [hl]
  · exact (ht.named _ (ht.mem_entries_iff.2 ⟨hl, h⟩)).2

/-- Above everything that is found there are directories. -/
theorem directory_above (ht : t.WellFormed) (hne : names ≠ []) {e : Entry}
    (h : t.find? (l ++ names) = some e) :
    t.find? l = some .directory := by
  induction names using List.reverseRecOn generalizing e with
  | nil => exact absurd rfl hne
  | append_singleton names n ih =>
      have haround := ht.around _ (ht.mem_entries_iff.2 ⟨by simp, h⟩)
      rw [← List.append_assoc, List.dropLast_concat] at haround
      by_cases hnames : names = []
      · simpa [hnames] using haround
      · exact ih hnames haround

end WellFormed

/-! ## The way to a file -/

theorem isDirectory_eq_true (h : t.isDirectory p = true) :
    t.follow p = .ok (t.place p) ∧ t.find? (t.place p) = some .directory := by
  unfold isDirectory at h
  split at h
  · rename_i l hfollow
    rw [← follow_eq_ok hfollow]
    exact ⟨hfollow, by simpa using h⟩
  · cases h

/-- A path that can be followed leads through directories. -/
theorem directory_on_way {first rest : List Text} {segment : Text}
    (h : (first ++ segment :: rest).foldlM t.enter l = .ok l') :
    t.find? (first.foldl Location.enter l) = some .directory := by
  obtain ⟨m, hfirst, hrest⟩ := foldlM_enter_append_eq_ok.1 h
  obtain ⟨_, henter, _⟩ := foldlM_enter_cons_eq_ok.1 hrest
  rw [← eq_foldl_enter hfirst]
  exact (enter_eq_ok.1 henter).1

/-- Where the way leads through directories that stay, what comes of following
it stays, faults included. -/
theorem foldlM_enter_congr
    (hstay : ∀ l, t.find? l = some .directory → t'.find? l = some .directory)
    {segments : List Text}
    (hway : ∀ first segment rest, segments = first ++ segment :: rest →
      t.find? (first.foldl Location.enter l) = some .directory) :
    segments.foldlM t'.enter l = segments.foldlM t.enter l := by
  induction segments generalizing l with
  | nil => rfl
  | cons segment segments ih =>
      have hhere : t.find? l = some .directory := hway [] segment segments rfl
      have henter : t'.enter l segment = t.enter l segment := by
        simp only [enter, hhere, hstay l hhere]
      rw [List.foldlM_cons, List.foldlM_cons, henter]
      cases hm : t.enter l segment with
      | error fault => rfl
      | ok m =>
          obtain rfl := (enter_eq_ok.1 hm).2.2
          exact ih fun first s rest hsplit =>
            hway (segment :: first) s rest (by rw [hsplit]; rfl)

/-- All segments of the path of a file below a directory, but the last, lead to
directories. -/
theorem WellFormed.directory_on_way_below (ht : t.WellFormed)
    (hroot : t.isDirectory root = true) (hnames : ∀ n ∈ names, isName n = true)
    {e : Entry} (hfind : t.find? (t.place root ++ names) = some e)
    {first rest : List Text} {segment : Text}
    (hsplit : root.front ++ names = first ++ segment :: rest) :
    t.find? (first.foldl Location.enter (if root.absolute then []
      else t.working)) = some .directory := by
  rcases List.append_eq_append_iff.1 hsplit with
    ⟨down, rfl, hdown⟩ | ⟨up, hup, hrest⟩
  · -- Already below the directory.
    have hplace : (root.front ++ down).foldl Location.enter
        (if root.absolute then [] else t.working) =
        t.place root ++ down :=
      place_below_names (fun n hn =>
        hnames n (hdown ▸ List.mem_append_left _ hn)) root
    rw [hplace]
    rw [hdown, ← List.append_assoc] at hfind
    exact ht.directory_above (by simp) hfind
  · cases up with
    | nil =>
        have hplace : (root.front ++ []).foldl Location.enter
            (if root.absolute then [] else t.working) =
            t.place root := t.place_below root []
        rw [List.append_nil] at hplace hup
        rw [← hup, hplace]
        exact (isDirectory_eq_true hroot).2
    | cons s up =>
        -- Still on the way to the directory.
        obtain ⟨o, ho, hfollow⟩ :=
          follow_eq_ok_iff.1 (isDirectory_eq_true hroot).1
        rw [← origin_eq_ok ho]
        rcases root.segments_eq_front with hfront | hfront
        · rw [hfront, hup] at hfollow
          exact directory_on_way hfollow
        · rw [hfront, hup, List.append_assoc] at hfollow
          exact directory_on_way hfollow

theorem WellFormed.follow_below_eq (ht : t.WellFormed)
    (hroot : t.isDirectory root = true) (hnames : ∀ n ∈ names, isName n = true)
    {e : Entry} (hfind : t.find? (t.place root ++ names) = some e)
    (h : t.Alters files t') :
    t'.follow (root.below names) = t.follow (root.below names) := by
  unfold follow
  rw [h.origin_eq]
  cases ho : t.origin (root.below names) with
  | error fault => rfl
  | ok o =>
      rw [origin_eq_ok ho]
      exact foldlM_enter_congr h.directories fun first segment rest hsplit =>
        ht.directory_on_way_below hroot hnames hfind hsplit

/-- A file below a directory that is not among those altered gives the same when
it is read, be it its text or a fault.  In the course of a run each template
reads as it did at the start. -/
theorem WellFormed.read_below_eq (ht : t.WellFormed)
    (hroot : t.isDirectory root = true) (hnames : ∀ n ∈ names, isName n = true)
    {e : Entry} (hfind : t.find? (t.place root ++ names) = some e)
    (h : t.Alters files t') (hnot : t.place root ++ names ∉ files) :
    t'.read (root.below names) = t.read (root.below names) := by
  unfold read
  rw [ht.follow_below_eq hroot hnames hfind h]
  cases hfollow : t.follow (root.below names) with
  | error fault => rfl
  | ok l =>
      have hl : l = t.place root ++ names :=
        (follow_eq_ok hfollow).trans (place_below_names hnames root)
      have hsame : t'.find? l = t.find? l := by
        rw [hl]
        rcases h.others _ hnot with hsame | ⟨hnone, -⟩
        · exact hsame
        · simp [hfind] at hnone
      simp only [bind, Except.bind, hsame]

/-! ## Walks -/

/-- A file that is found under names below a directory. -/
structure FileBelow (t : FileTree) (root : Path) (names : List Text) :
    Prop where
  nonempty : names ≠ []
  named : ∀ n ∈ names, isName n = true
  file : ∃ e, e ≠ .directory ∧ t.find? (t.place root ++ names) = some e

/-- What is asked of a walk over a directory, however it is done and in
whichever order.  It may fail to look into some places, and then it need not be
complete. -/
structure Walked (t : FileTree) (root : Path)
    (entries : List (Except WalkFault Found)) :
    Prop where
  /-- A file that is come upon lies below the directory, and its path says
  where. -/
  sound : ∀ p, .ok ⟨p, true⟩ ∈ entries → ∃ names, t.FileBelow root names ∧
    p = root.below names
  /-- If all places could be looked into, every file is come upon. -/
  complete : (∀ fault, .error fault ∉ entries) →
    ∀ names, t.FileBelow root names →
    .ok ⟨root.below names, true⟩ ∈ entries
  /-- No file is come upon twice. -/
  once : entries.Pairwise fun x y => ∀ p, x = .ok ⟨p, true⟩ → y ≠ .ok ⟨p, true⟩

/-! ## The walk over a tree held in memory -/

theorem mem_walk (hroot : t.isDirectory root = true)
    {x : Except WalkFault Found} :
    x ∈ t.walk root ↔ ∃ entry ∈ t.entries,
      x ∈ comeUpon root (t.place root) entry := by
  rw [walk, (isDirectory_eq_true hroot).1, List.mem_flatMap]

theorem ok_mem_comeUpon {entry : Location × Entry}
    (h : .ok ⟨p, true⟩ ∈ comeUpon root l entry) :
    ∃ names, entry.1 = l ++ names ∧ entry.2 ≠ .directory ∧
      p = names.foldl Path.child root := by
  unfold comeUpon at h
  split at h
  · cases h
  · rename_i names hnames
    refine ⟨names, (List.isPrefixOf?_eq_some_iff_append_eq.1 hnames).symm, ?_⟩
    dsimp only at h
    split at h
    · cases h
    · split at h
      · rename_i he
        exact ⟨he, by simpa using h⟩
      · split at h <;> simp at h

/-- Of one entry a walk comes upon one file at most. -/
theorem comeUpon_pairwise (root : Path) (l : Location)
    (entry : Location × Entry) :
    (comeUpon root l entry).Pairwise fun x y =>
      ∀ p, x = .ok ⟨p, true⟩ → y ≠ .ok ⟨p, true⟩ := by
  unfold comeUpon
  split
  · simp
  · dsimp only
    split
    · simp
    · split
      · simp
      · split <;> simp

/-- The files that a walk comes upon lie below the directory. -/
theorem WellFormed.fileBelow_of_mem_comeUpon (ht : t.WellFormed)
    (hroot : t.isDirectory root = true) {entry : Location × Entry}
    (hmem : entry ∈ t.entries)
    (h : .ok ⟨p, true⟩ ∈ comeUpon root (t.place root) entry) :
    ∃ names, t.FileBelow root names ∧ p = root.below names ∧
      entry.1 = t.place root ++ names := by
  obtain ⟨names, hplace, he, rfl⟩ := ok_mem_comeUpon h
  have hfind : t.find? (t.place root ++ names) = some entry.2 :=
    hplace ▸ (ht.mem_entries_iff.1 hmem).2
  have hne : names ≠ [] := by
    rintro rfl
    rw [List.append_nil, (isDirectory_eq_true hroot).2] at hfind
    exact he (Option.some.inj hfind).symm
  have hnamed : ∀ n ∈ names, isName n = true := fun n hn =>
    ht.isName_of_find? hfind n (List.mem_append_right _ hn)
  exact ⟨names, ⟨hne, hnamed, entry.2, he, hfind⟩,
    Path.foldl_child hne hnamed root, hplace⟩

/-- A directory that is there has a path that the system takes. -/
theorem byteLength_le_of_isDirectory (hroot : t.isDirectory root = true) :
    root.text.byteLength ≤ pathLimit := by
  obtain ⟨o, ho, -⟩ := follow_eq_ok_iff.1 (isDirectory_eq_true hroot).1
  unfold origin at ho
  split at ho
  · cases ho
  · split at ho
    · cases ho
    · split at ho
      · cases ho
      · omega

/-- If the path of a directory is too long, the walk has a fault, at that
directory or at one around it. -/
theorem WellFormed.exists_fault_of_tooLong (ht : t.WellFormed)
    (hroot : t.isDirectory root = true)
    (hfind : t.find? (t.place root ++ names) = some .directory)
    (hlong : pathLimit < (names.foldl Path.child root).text.byteLength) :
    ∃ fault, .error fault ∈ t.walk root := by
  induction names using List.reverseRecOn with
  | nil =>
      exact absurd hlong (Nat.not_lt.2 (byteLength_le_of_isDirectory hroot))
  | append_singleton names n ih =>
      have haround : t.find? (t.place root ++ names) = some .directory :=
        ht.directory_above (List.cons_ne_nil n [])
          (by rw [List.append_assoc]; exact hfind)
      by_cases hearlier : pathLimit <
        (names.foldl Path.child root).text.byteLength
      · exact ih haround hearlier
      · refine ⟨⟨(names ++ [n]).foldl Path.child root, .tooLong⟩,
          (mem_walk hroot).2 ⟨_, ht.mem_entries_iff.2 ⟨by simp, hfind⟩, ?_⟩⟩
        rw [comeUpon, List.isPrefixOf?_eq_some_iff_append_eq.2 rfl]
        dsimp only
        rw [List.dropLast_concat, if_neg hearlier, if_neg (by simp),
          if_pos hlong]
        exact List.mem_cons_of_mem _ List.mem_cons_self

/-- The walk over a tree held in memory is as asked for, so the requirement can
be met.  A path that is too long is where such a walk fails. -/
theorem WellFormed.walked (ht : t.WellFormed)
    (hroot : t.isDirectory root = true) :
    t.Walked root (t.walk root) where
  sound p hp := by
    obtain ⟨entry, hmem, hp⟩ := (mem_walk hroot).1 hp
    obtain ⟨names, hbelow, hpath, -⟩ :=
      ht.fileBelow_of_mem_comeUpon hroot hmem hp
    exact ⟨names, hbelow, hpath⟩
  complete hnone := by
    rintro names ⟨hne, hnamed, e, he, hfind⟩
    -- The directory around the file was looked into, or else there is a fault.
    have hshort :
        ¬pathLimit < (names.dropLast.foldl Path.child
          root).text.byteLength := by
      intro hlong
      have hsplit : t.place root ++ names =
          t.place root ++ names.dropLast ++ [names.getLast hne] := by
        rw [List.append_assoc, List.dropLast_append_getLast hne]
      obtain ⟨fault, hfault⟩ := ht.exists_fault_of_tooLong hroot
        (ht.directory_above (by simp) (hsplit ▸ hfind)) hlong
      exact hnone fault hfault
    refine (mem_walk hroot).2 ⟨_,
      ht.mem_entries_iff.2 ⟨by simp [hne], hfind⟩, ?_⟩
    rw [comeUpon, List.isPrefixOf?_eq_some_iff_append_eq.2 rfl]
    dsimp only
    rw [if_neg hshort, if_pos he, Path.foldl_child hne hnamed root]
    exact List.mem_singleton_self _
  once := by
    rw [walk, (isDirectory_eq_true hroot).1, List.pairwise_flatMap]
    refine ⟨fun entry _ => comeUpon_pairwise root _ entry, ?_⟩
    have hkeys : t.entries.Pairwise fun x y => x.1 ≠ y.1 :=
      List.pairwise_map.1 ht.distinct
    refine hkeys.imp_of_mem ?_
    rintro entry entry' hmem hmem' hne _ hx _ hy p rfl rfl
    -- One path leads to one place.
    obtain ⟨names, hbelow, hpath, hplace⟩ :=
      ht.fileBelow_of_mem_comeUpon hroot hmem hx
    obtain ⟨names', hbelow', hpath', hplace'⟩ :=
      ht.fileBelow_of_mem_comeUpon hroot hmem' hy
    apply hne
    rw [hplace, hplace', ← place_below_names hbelow.named, ← place_below_names
      hbelow'.named, ← hpath, ← hpath']

end FileTree

/-! ## The templates that are found -/

/-- The first place that could not be looked into is what the search fails
with. -/
theorem templatesAmong_of_fault {before after : List (Except WalkFault Found)}
    {fault : WalkFault} (hbefore : ∀ fault, .error fault ∉ before) :
    templatesAmong (before ++ .error fault :: after) = .error fault := by
  induction before with
  | nil => rfl
  | cons x before ih =>
      cases x with
      | error earlier => exact absurd List.mem_cons_self (hbefore earlier)
      | ok found =>
          rw [List.cons_append, templatesAmong,
            ih fun fault hmem => hbefore fault (List.mem_cons_of_mem _ hmem)]
          rfl

/-- The template that a walk comes upon, if it is one. -/
def templateOf? : Except WalkFault Found → Option Path
  | .ok found =>
    if found.isFile && found.path.isTemplate then some found.path else none
  | .error _ => none

theorem templateOf?_eq_some {x : Except WalkFault Found} {p : Path} :
    templateOf? x = some p ↔ p.isTemplate = true ∧ x = .ok ⟨p, true⟩ := by
  rcases x with fault | ⟨path, isFile⟩
  · simp [templateOf?]
  · simp only [templateOf?, Except.ok.injEq, Found.mk.injEq,
      Option.ite_none_right_eq_some, Bool.and_eq_true, Option.some.injEq]
    constructor
    · rintro ⟨⟨hfile, htemplate⟩, rfl⟩
      exact ⟨htemplate, rfl, hfile⟩
    · rintro ⟨htemplate, rfl, hfile⟩
      exact ⟨⟨hfile, htemplate⟩, rfl⟩

theorem templatesAmong_of_no_fault {entries : List (Except WalkFault Found)}
    (h : ∀ fault, .error fault ∉ entries) :
    templatesAmong entries = .ok (entries.filterMap templateOf?) := by
  induction entries with
  | nil => rfl
  | cons x entries ih =>
      cases x with
      | error fault => exact absurd List.mem_cons_self (h fault)
      | ok found =>
          rw [templatesAmong, ih fun fault hfault =>
            h fault (List.mem_cons_of_mem _ hfault)]
          change Except.ok _ = _
          rw [List.filterMap_cons, templateOf?]
          split <;> rfl

namespace FileTree

variable {t : FileTree} {root : Path}

/-- What a search for templates below a directory has to come to: all of them,
each once, in the order of the names on the way to them. -/
structure Discovered (t : FileTree) (root : Path) (ps : List Path) : Prop where
  /-- The templates below the directory are found, and nothing else is. -/
  listed : ∀ p, p ∈ ps ↔ p.isTemplate = true ∧ ∃ names, t.FileBelow root names ∧
    p = root.below names
  once : ps.Nodup
  /-- Where the names on the way to two templates first differ, the characters
  of the names are in order. -/
  sorted : ps.Pairwise fun p q =>
    ∃ ns ms, p = root.below ns ∧ q = root.below ms ∧
    List.Lex (List.Lex (· < ·)) ns ms

/-- The templates among what a walk without faults comes upon, once sorted, are
what the search has to come to, in whatever order the walk came upon them. -/
theorem Walked.discovered {entries : List (Except WalkFault Found)}
    (h : t.Walked root entries) (hnone : ∀ fault, .error fault ∉ entries) :
    t.Discovered root (sortBy Path.precedes
      (entries.filterMap templateOf?)) := by
  have hlisted : ∀ p, p ∈ sortBy Path.precedes (entries.filterMap templateOf?) ↔
      p.isTemplate = true ∧ ∃ names, t.FileBelow root names ∧
      p = root.below names := by
    intro p
    rw [(sortBy_perm _ _).mem_iff, List.mem_filterMap]
    constructor
    · rintro ⟨x, hx, hp⟩
      obtain ⟨htemplate, rfl⟩ := templateOf?_eq_some.1 hp
      exact ⟨htemplate, h.sound p hx⟩
    · rintro ⟨htemplate, names, hbelow, rfl⟩
      exact ⟨_, h.complete hnone names hbelow,
        templateOf?_eq_some.2 ⟨htemplate, rfl⟩⟩
  have honce :
      (sortBy Path.precedes (entries.filterMap templateOf?)).Nodup := by
    rw [(sortBy_perm _ _).nodup_iff, List.Nodup, List.pairwise_filterMap]
    refine h.once.imp ?_
    rintro x y hxy p hp _ hq rfl
    exact hxy p (templateOf?_eq_some.1 hp).2 (templateOf?_eq_some.1 hq).2
  refine ⟨hlisted, honce, ?_⟩
  have hprecedes :
      (sortBy Path.precedes (entries.filterMap templateOf?)).Pairwise fun p q =>
      p.precedes q = true :=
    sortBy_pairwise Path.precedes_total Path.precedes_trans _
  refine (hprecedes.and honce).imp_of_mem ?_
  rintro p q hp hq ⟨hle, hne⟩
  obtain ⟨-, ns, hns, rfl⟩ := (hlisted p).1 hp
  obtain ⟨-, ms, hms, rfl⟩ := (hlisted q).1 hq
  exact ⟨ns, ms, rfl, rfl, Path.lex_of_precedes_below hns.named hms.named
    (fun heq => hne (heq ▸ rfl)) hle⟩

end FileTree

/-! ## The search, run on a tree -/

section Search

variable [Walker (StateM FileTree)] {t : FileTree} {root : Path}
  {entries : List (Except WalkFault Found)}

/-- The walk over a directory comes upon these, and leaves the tree as it is. -/
def FileTree.WalksTo (t : FileTree) (root : Path)
    (entries : List (Except WalkFault Found)) :
    Prop :=
  StateT.run (Walker.walk root : StateM FileTree _) t = (entries, t)

theorem runOn_discover_of_not_directory (hroot : t.isDirectory root = false) :
    runOn (discover root) t = (.error (.notDirectory root), t) := by
  unfold discover
  rw [runOn_bind_ok (runOn_lift (Storage.isDirectory root) t)]
  change runOn (if t.isDirectory root then _ else _) t = _
  rw [hroot]
  rfl

/-- In a directory a search comes to the templates among what the walk comes
upon. -/
theorem runOn_discover (hroot : t.isDirectory root = true)
    (hwalk : t.WalksTo root entries) :
    runOn (discover root) t =
      (((templatesAmong entries).mapError .walk).map
        (sortBy Path.precedes), t) := by
  unfold discover
  rw [runOn_bind_ok (runOn_lift (Storage.isDirectory root) t)]
  change runOn (if t.isDirectory root then _ else _) t = _
  rw [hroot, if_pos rfl, runOn_bind_ok (runOn_lift (Walker.walk root) t), hwalk]
  cases templatesAmong entries <;> rfl

end Search

end TemplateJsx
