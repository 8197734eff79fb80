/-
What a walk shows is what reading finds.

A walk shows each file below a directory as a path: the path of the directory, with the
names that lead to the file joined to it. When such a path is read, it is taken apart
again and followed from the working directory. The two agree in a tree whose names are
names: none is empty, a dot, two dots or has a slash in it, and none comes twice in one
directory. The path that was given for the directory may be as crooked as it likes.

The step that is not bookkeeping is `find_join`. Joining puts one more part behind the
parts of the path, except that a slash at the end of the path, which stands for an empty
part, is used up instead of a new one; and an empty part leads nowhere else. So what is
found at the joined path is an entry of what was found at the path.
-/
import Mathlib.Data.List.Basic
import PriceTaint.Command.Disk

set_option autoImplicit false

namespace PriceTaint

/-! ## Paths -/

namespace Path

theorem split_ne_nil (cs : List Char) : split cs ≠ [] := by
  fun_induction split cs <;> simp

theorem split_of_not_mem {cs : List Char} (h : '/' ∉ cs) : split cs = [cs] := by
  induction cs with
  | nil => rfl
  | cons c cs ih =>
    obtain ⟨hc, hcs⟩ := not_or.mp (mt List.mem_cons.mpr h)
    rw [split, ih hcs]
    exact fun heq => hc heq.symm

theorem split_append_slash (cs ds : List Char) :
    split (cs ++ '/' :: ds) = split cs ++ split ds := by
  fun_induction split cs with
  | case1 => rfl
  | case2 cs ih => rw [List.cons_append, split, ih, List.cons_append]
  | case3 c cs hc hnil ih => exact absurd hnil (split_ne_nil cs)
  | case4 c cs hc part parts hsplit ih =>
    rw [List.cons_append, split, ih, hsplit]
    · rfl
    · exact hc

/-- A name that an entry of a directory can have. -/
structure IsName (name : String) : Prop where
  notEmpty : name ≠ ""
  notHere : name ≠ "."
  notAbove : name ≠ ".."
  noSlash : '/' ∉ name.toList
  short : name.utf8ByteSize ≤ maxName

/-- A joined path starts with the path. -/
theorem exists_toList_join (path name : String) :
    ∃ rest, (join path name).toList = path.toList ++ rest := by
  rw [join]
  split
  · exact ⟨name.toList, String.toList_append⟩
  · exact ⟨'/' :: name.toList, by simp⟩

theorem size_le_size_join (path name : String) :
    path.utf8ByteSize ≤ (join path name).utf8ByteSize := by
  rw [join]
  split
  · rw [String.utf8ByteSize_append]
    omega
  · rw [String.utf8ByteSize_append, String.utf8ByteSize_append]
    omega

/-- The parts of a joined path are those of the path, less an empty one at the end, and
the name. -/
theorem exists_parts_join (path : String) {name : String} (h : '/' ∉ name.toList) :
    ∃ front, parts (join path name) = front ++ [name]
      ∧ (parts path = front ∨ parts path = front ++ [""]) := by
  have hname : (split name.toList).map String.ofList = [name] := by
    rw [split_of_not_mem h, List.map_singleton, String.ofList_toList]
  rw [join]
  split
  · next hlast =>
    obtain ⟨cs, hcs⟩ := List.getLast?_eq_some_iff.mp hlast
    refine ⟨(split cs).map String.ofList, ?_, .inr ?_⟩
    · rw [parts, String.toList_append, hcs, List.append_assoc, List.singleton_append,
        split_append_slash, List.map_append, hname]
    · rw [parts, hcs, split_append_slash, List.map_append]
      rfl
  · refine ⟨parts path, ?_, .inl rfl⟩
    have hjoined : (path ++ "/" ++ name).toList = path.toList ++ '/' :: name.toList := by simp
    rw [parts, hjoined, split_append_slash, List.map_append, hname, parts]

end Path

namespace FileTree

/-! ## Following a path -/

theorem follow_cons (above : List FileTree) (t : FileTree) (name : String) (rest : List String) :
    follow above t (name :: rest)
      = if !t.isDirectory then .error .notDirectory
        else if name = "" || name = "." then follow above t rest
        else if name = ".." then
          match above with
          | [] => follow [] empty rest
          | outer :: above => follow above outer rest
        else if Path.maxName < name.utf8ByteSize then .error .nameTooLong
        else match t.entries.lookup name with
          | none => .error .notFound
          | some below => follow (t :: above) below rest := by
  cases above <;> rfl

/-- Following a path in two stages: either the first fails, and then so does the whole,
or the second starts where the first has ended. -/
theorem follow_append (above : List FileTree) (t : FileTree) (front : List String) :
    (∃ e, follow above t front = .error e ∧ ∀ rest, follow above t (front ++ rest) = .error e)
      ∨ ∃ x above', follow above t front = .ok x
          ∧ ∀ rest, follow above t (front ++ rest) = follow above' x rest := by
  -- in every case the first part of `front` decides alike, whatever comes behind
  fun_induction follow above t front with
  | case1 above t => exact .inr ⟨t, above, rfl, fun rest => rfl⟩
  | case2 above t name front hfile =>
    exact .inl ⟨.notDirectory, rfl, fun rest => by rw [List.cons_append, follow_cons, if_pos hfile]⟩
  | case3 above t name front hdir hskip ih =>
    have hstep : ∀ rest, follow above t (name :: rest) = follow above t rest := by
      intro rest
      rw [follow_cons, if_neg hdir, if_pos hskip]
    simpa only [List.cons_append, hstep] using ih
  | case4 t front hdir hskip ih =>
    have hstep : ∀ rest, follow [] t (".." :: rest) = follow [] empty rest := by
      intro rest
      rw [follow_cons, if_neg hdir, if_neg hskip, if_pos rfl]
    simpa only [List.cons_append, hstep] using ih
  | case5 t front hdir outer above hskip ih =>
    have hstep : ∀ rest, follow (outer :: above) t (".." :: rest) = follow above outer rest := by
      intro rest
      rw [follow_cons, if_neg hdir, if_neg hskip, if_pos rfl]
    simpa only [List.cons_append, hstep] using ih
  | case6 above t name front hdir hskip hup hlong =>
    refine .inl ⟨.nameTooLong, rfl, fun rest => ?_⟩
    rw [List.cons_append, follow_cons, if_neg hdir, if_neg hskip, if_neg hup, if_pos hlong]
  | case7 above t name front hdir hskip hup hlong hnone =>
    refine .inl ⟨.notFound, rfl, fun rest => ?_⟩
    rw [List.cons_append, follow_cons, if_neg hdir, if_neg hskip, if_neg hup, if_neg hlong, hnone]
  | case8 above t name front hdir hskip hup hlong sub hsub ih =>
    have hstep : ∀ rest, follow above t (name :: rest) = follow (t :: above) sub rest := by
      intro rest
      rw [follow_cons, if_neg hdir, if_neg hskip, if_neg hup, if_neg hlong, hsub]
    simpa only [List.cons_append, hstep] using ih

/-- A name leads from a directory to its entry. -/
theorem follow_name (above : List FileTree) {entries : List (String × FileTree)} {name : String}
    (hname : Path.IsName name) {sub : FileTree} (hsub : entries.lookup name = some sub) :
    follow above (.directory entries) [name] = .ok sub := by
  have hskip : ¬ (decide (name = "") || decide (name = ".")) = true := by
    simp [hname.notEmpty, hname.notHere]
  have hlookup : (directory entries).entries.lookup name = some sub := hsub
  rw [follow_cons, if_neg (by simp [isDirectory]), if_neg hskip, if_neg hname.notAbove,
    if_neg (Nat.not_lt.mpr hname.short), hlookup]
  rfl

/-- An empty part at the end of a path changes nothing if something is found. -/
theorem follow_of_append_empty {above : List FileTree} {t x : FileTree} {front : List String}
    (h : follow above t (front ++ [""]) = .ok x) : follow above t front = .ok x := by
  rcases follow_append above t front with ⟨e, -, hall⟩ | ⟨y, above', hy, hall⟩
  · rw [hall] at h
    cases h
  · rw [hall, follow_cons] at h
    split at h
    · cases h
    · rw [if_pos (by decide), follow] at h
      rw [hy, h]

/-- Where paths start: outside the tree if there is a slash in front. -/
def start (t : FileTree) (path : String) : FileTree :=
  if path.toList.head? = some '/' then empty else t

theorem find_eq_follow (t : FileTree) {path : String} (hfits : Path.fits path = true)
    (hne : path.toList ≠ []) : t.find path = follow [] (t.start path) (Path.parts path) := by
  rw [find, hfits, Bool.not_true, if_neg Bool.false_ne_true, start]
  cases hcs : path.toList with
  | nil => exact absurd hcs hne
  | cons c cs =>
    simp only [List.head?_cons, Option.some.injEq]
    by_cases hc : c = '/'
    · subst hc
      rfl
    · rw [if_neg hc]
      split
      · next hnil => cases hnil
      · next hslash => exact absurd (List.cons.inj hslash).1 hc
      · rfl

/-- Something is found only at paths that are short enough and not empty. -/
theorem fits_of_find {t x : FileTree} {path : String} (h : t.find path = .ok x) :
    Path.fits path = true ∧ path.toList ≠ [] := by
  rw [find] at h
  split at h
  · cases h
  · next hfits =>
    refine ⟨by simpa using hfits, fun hnil => ?_⟩
    rw [hnil] at h
    cases h

theorem start_join (t : FileTree) {path : String} (hne : path.toList ≠ []) (name : String) :
    t.start (Path.join path name) = t.start path := by
  obtain ⟨rest, hrest⟩ := Path.exists_toList_join path name
  rw [start, start, hrest, List.head?_append_of_ne_nil _ hne]

/-- At a joined path stands the entry of that name. -/
theorem find_join {t : FileTree} {path name : String} {entries : List (String × FileTree)}
    {sub : FileTree} (h : t.find path = .ok (.directory entries)) (hname : Path.IsName name)
    (hsub : entries.lookup name = some sub) (hfits : Path.fits (Path.join path name) = true) :
    t.find (Path.join path name) = .ok sub := by
  obtain ⟨hshort, hne⟩ := fits_of_find h
  obtain ⟨rest, hrest⟩ := Path.exists_toList_join path name
  have hjoined : (Path.join path name).toList ≠ [] := by
    rw [hrest]
    exact List.append_ne_nil_of_left_ne_nil hne rest
  obtain ⟨front, hparts, hpath⟩ := Path.exists_parts_join path hname.noSlash
  rw [find_eq_follow t hshort hne] at h
  -- whether or not the path ends in a slash, the parts before the name lead to the directory
  have hfront : follow [] (t.start path) front = .ok (.directory entries) := by
    rcases hpath with heq | heq
    · rw [← heq]
      exact h
    · rw [heq] at h
      exact follow_of_append_empty h
  rw [find_eq_follow t hfits hjoined, t.start_join hne, hparts]
  rcases follow_append [] (t.start path) front with ⟨e, he, -⟩ | ⟨x, above, hx, hall⟩
  · rw [hfront] at he
    cases he
  · rw [hfront] at hx
    cases hx
    rw [hall]
    exact follow_name above hname hsub

/-! ## Trees with proper names -/

/-- All entries have names, and no two entries of one directory have the same. -/
inductive WellNamed : FileTree → Prop where
  | file (bytes : ByteArray) : WellNamed (.file bytes)
  | directory {entries : List (String × FileTree)} (names : ∀ e ∈ entries, Path.IsName e.1)
      (distinct : (entries.map Prod.fst).Nodup) (below : ∀ e ∈ entries, WellNamed e.2) :
      WellNamed (.directory entries)

theorem wellNamed_empty : empty.WellNamed :=
  .directory (List.forall_mem_nil _) List.nodup_nil (List.forall_mem_nil _)

theorem lookup_of_mem_entries {entries : List (String × FileTree)}
    (hdistinct : (entries.map Prod.fst).Nodup) {e : String × FileTree} (he : e ∈ entries) :
    entries.lookup e.1 = some e.2 := by
  obtain ⟨before, after, rfl⟩ := List.append_of_mem he
  rw [List.map_append, List.map_cons] at hdistinct
  obtain ⟨-, -, hapart⟩ := List.nodup_append.mp hdistinct
  refine List.lookup_eq_some_iff.mpr ⟨before, after, rfl, fun other hother => ?_⟩
  exact bne_iff_ne.mpr (hapart _ (List.mem_map_of_mem hother) _ List.mem_cons_self).symm

theorem WellNamed.entry {t sub : FileTree} (ht : t.WellNamed) {name : String}
    (hsub : t.entries.lookup name = some sub) : sub.WellNamed := by
  cases ht with
  | file bytes => cases hsub
  | directory names distinct below =>
    obtain ⟨before, after, hentries, -⟩ := List.lookup_eq_some_iff.mp hsub
    refine below (name, sub) ?_
    have hmem : (name, sub) ∈ before ++ (name, sub) :: after :=
      List.mem_append_right _ List.mem_cons_self
    rwa [← hentries] at hmem

/-- Whatever is found in a well-named tree is well named. -/
theorem WellNamed.follow {above : List FileTree} {t x : FileTree} {path : List String}
    (habove : ∀ a ∈ above, a.WellNamed) (ht : t.WellNamed) (h : follow above t path = .ok x) :
    x.WellNamed := by
  fun_induction FileTree.follow above t path with
  | case1 above t =>
    cases h
    exact ht
  | case2 above t name path hfile => cases h
  | case3 above t name path hdir hskip ih => exact ih habove ht h
  | case4 t path hdir hskip ih => exact ih habove wellNamed_empty h
  | case5 t path hdir outer above hskip ih =>
    obtain ⟨houter, hrest⟩ := List.forall_mem_cons.mp habove
    exact ih hrest houter h
  | case6 above t name path hdir hskip hup hlong => cases h
  | case7 above t name path hdir hskip hup hlong hnone => cases h
  | case8 above t name path hdir hskip hup hlong sub hsub ih =>
    exact ih (List.forall_mem_cons.mpr ⟨ht, habove⟩) (ht.entry hsub) h

theorem WellNamed.find {t x : FileTree} (ht : t.WellNamed) {path : String}
    (h : t.find path = .ok x) : x.WellNamed := by
  obtain ⟨hfits, hne⟩ := fits_of_find h
  have hstart : (t.start path).WellNamed := by
    rw [start]
    split
    · exact wellNamed_empty
    · exact ht
  rw [find_eq_follow t hfits hne] at h
  exact WellNamed.follow (List.forall_mem_nil _) hstart h

/-! ## What is shown below a directory -/

/-- In a tree that is shown as `path`, the file or directory `x` is shown as `p`. -/
inductive Shows : (path : String) → FileTree → (p : String) → (x : FileTree) → Prop where
  | here (path : String) (t : FileTree) : Shows path t path t
  | entry {path name p : String} {entries : List (String × FileTree)} {sub x : FileTree}
      (hmem : (name, sub) ∈ entries) (h : Shows (Path.join path name) sub p x) :
      Shows path (.directory entries) p x

theorem shows_file_iff (path : String) (bytes : ByteArray) (p : String) (x : FileTree) :
    Shows path (.file bytes) p x ↔ p = path ∧ x = .file bytes := by
  constructor
  · intro h
    cases h with
    | here => exact ⟨rfl, rfl⟩
  · rintro ⟨rfl, rfl⟩
    exact .here p _

theorem shows_directory_iff (path : String) (entries : List (String × FileTree)) (p : String)
    (x : FileTree) :
    Shows path (.directory entries) p x
      ↔ (p = path ∧ x = .directory entries)
        ∨ ∃ e ∈ entries, Shows (Path.join path e.1) e.2 p x := by
  constructor
  · intro h
    cases h with
    | here => exact .inl ⟨rfl, rfl⟩
    | entry hmem h => exact .inr ⟨_, hmem, h⟩
  · rintro (⟨rfl, rfl⟩ | ⟨e, he, h⟩)
    · exact .here p _
    · exact .entry he h

theorem Shows.size_le {path p : String} {t x : FileTree} (h : Shows path t p x) :
    path.utf8ByteSize ≤ p.utf8ByteSize := by
  induction h with
  | here => exact Nat.le_refl _
  | entry _ _ ih => exact Nat.le_trans (Path.size_le_size_join _ _) ih

/-- **Reading what is shown.** What a walk shows as a path is what is found there. -/
theorem Shows.find {t sub x : FileTree} {path p : String} (h : Shows path sub p x)
    (hsub : sub.WellNamed) (hfind : t.find path = .ok sub) (hfits : Path.fits p = true) :
    t.find p = .ok x := by
  induction h with
  | here => exact hfind
  | @entry path name p entries sub x hmem h ih =>
    cases hsub with
    | directory names distinct below =>
      -- paths only grow on the way down, so all those on the way to `p` fit
      have hshort : Path.fits (Path.join path name) = true :=
        decide_eq_true (Nat.le_trans h.size_le (of_decide_eq_true hfits))
      have hlookup := lookup_of_mem_entries distinct hmem
      exact ih (below _ hmem) (find_join hfind (names _ hmem) hlookup hshort) hfits

/-! ## The walk -/

/-- Among several entries the walk succeeds if it does for each, and appends what it finds. -/
theorem filesAmong_cons_eq_ok_iff (path : String) (e : String × FileTree)
    (es : List (String × FileTree)) (files : List String) :
    filesAmong path (e :: es) = .ok files
      ↔ ∃ first rest, filesBelow (Path.join path e.1) e.2 = .ok first
          ∧ filesAmong path es = .ok rest ∧ first ++ rest = files := by
  have hcons : filesAmong path (e :: es) = (filesBelow (Path.join path e.1) e.2).bind fun first =>
      (filesAmong path es).bind fun rest => .ok (first ++ rest) := rfl
  rw [hcons]
  cases filesBelow (Path.join path e.1) e.2 with
  | error e => simp [Except.bind]
  | ok first =>
    cases filesAmong path es with
    | error e => simp [Except.bind]
    | ok rest => simp [Except.bind]

mutual
/-- A walk lists the files that are shown, less those with a path that is too long. -/
theorem mem_filesBelow_iff (p : String) : (path : String) → (t : FileTree) → (files : List String) →
    filesBelow path t = .ok files →
      (p ∈ files ↔ (∃ bytes, Shows path t p (.file bytes)) ∧ Path.fits p = true)
  | path, .file bytes, files, h => by
    rw [filesBelow, Except.ok.injEq] at h
    have hshown : (∃ bytes', Shows path (.file bytes) p (.file bytes')) ↔ p = path := by
      simp only [shows_file_iff, FileTree.file.injEq, exists_and_left, exists_eq, and_true]
    rw [← h, hshown]
    by_cases hfits : Path.fits path = true
    · rw [if_pos hfits, List.mem_singleton]
      exact ⟨fun heq => ⟨heq, heq ▸ hfits⟩, And.left⟩
    · rw [if_neg hfits]
      exact ⟨fun hp => absurd hp List.not_mem_nil, fun hp => absurd (hp.1 ▸ hp.2) hfits⟩
  | path, .directory entries, files, h => by
    rw [filesBelow] at h
    split at h
    · -- the directory itself is shown but is no file
      rw [mem_filesAmong_iff p path entries files h]
      simp only [shows_directory_iff, reduceCtorEq, and_false, false_or]
      rw [exists_comm]
      simp only [exists_and_left]
    · cases h

theorem mem_filesAmong_iff (p : String) : (path : String) → (es : List (String × FileTree)) →
    (files : List String) → filesAmong path es = .ok files →
      (p ∈ files ↔ (∃ e ∈ es, ∃ bytes, Shows (Path.join path e.1) e.2 p (.file bytes))
        ∧ Path.fits p = true)
  | path, [], files, h => by
    rw [filesAmong, Except.ok.injEq] at h
    simp [← h]
  | path, e :: es, files, h => by
    obtain ⟨first, rest, hfirst, hrest, rfl⟩ := (filesAmong_cons_eq_ok_iff path e es files).mp h
    rw [List.mem_append, mem_filesBelow_iff p (Path.join path e.1) e.2 first hfirst,
      mem_filesAmong_iff p path es rest hrest, ← or_and_right]
    simp only [List.mem_cons, exists_eq_or_imp]
end

mutual
/-- A walk succeeds if the paths of all directories that are shown are short enough. -/
theorem exists_filesBelow_iff : (path : String) → (t : FileTree) →
    ((∃ files, filesBelow path t = .ok files)
      ↔ ∀ p entries, Shows path t p (.directory entries) → Path.fits p = true)
  | path, .file bytes => by
    refine iff_of_true ⟨_, rfl⟩ fun p entries h => ?_
    cases ((shows_file_iff path bytes p _).mp h).2
  | path, .directory entries => by
    have hamong := exists_filesAmong_iff path entries
    rw [filesBelow]
    by_cases hfits : Path.fits path = true
    · rw [if_pos hfits, hamong]
      constructor
      · intro h p es hshown
        rcases (shows_directory_iff path entries p _).mp hshown with ⟨rfl, -⟩ | ⟨e, he, hbelow⟩
        · exact hfits
        · exact h e he p es hbelow
      · intro h e he p es hbelow
        exact h p es ((shows_directory_iff path entries p _).mpr (.inr ⟨e, he, hbelow⟩))
    · rw [if_neg hfits]
      refine iff_of_false (fun ⟨_, h⟩ => by cases h) fun h => ?_
      exact hfits (h path entries (.here path _))

theorem exists_filesAmong_iff : (path : String) → (es : List (String × FileTree)) →
    ((∃ files, filesAmong path es = .ok files)
      ↔ ∀ e ∈ es, ∀ p entries, Shows (Path.join path e.1) e.2 p (.directory entries) →
          Path.fits p = true)
  | path, [] => iff_of_true ⟨[], rfl⟩ (List.forall_mem_nil _)
  | path, e :: es => by
    rw [List.forall_mem_cons, ← exists_filesBelow_iff (Path.join path e.1) e.2,
      ← exists_filesAmong_iff path es]
    simp only [filesAmong_cons_eq_ok_iff]
    constructor
    · rintro ⟨-, first, rest, hfirst, hrest, -⟩
      exact ⟨⟨first, hfirst⟩, ⟨rest, hrest⟩⟩
    · rintro ⟨⟨first, hfirst⟩, ⟨rest, hrest⟩⟩
      exact ⟨first ++ rest, first, rest, hfirst, hrest, rfl⟩
end

/-! ## The tree as a disk -/

/-- Below `directory`, the file or directory `x` is shown as `p`. -/
def ShowsBelow (t : FileTree) (directory p : String) (x : FileTree) : Prop :=
  ∃ sub, t.find directory = .ok sub ∧ Shows directory sub p x

section Disk

variable {t : FileTree} {directory p : String}

/-- What is shown is what is found there. -/
theorem find_of_showsBelow (ht : t.WellNamed) {x : FileTree} (h : t.ShowsBelow directory p x)
    (hfits : Path.fits p = true) : t.find p = .ok x := by
  obtain ⟨sub, hfind, hshown⟩ := h
  exact hshown.find (ht.find hfind) hfind hfits

/-- Reading what is shown as a path gives the contents of that file. -/
theorem read_of_showsBelow (ht : t.WellNamed) {bytes : ByteArray}
    (h : t.ShowsBelow directory p (.file bytes)) (hfits : Path.fits p = true) :
    t.disk.read p = (FileTree.file bytes).text := by
  simp only [disk, find_of_showsBelow ht h hfits]
  rfl

end Disk

end FileTree

end PriceTaint
