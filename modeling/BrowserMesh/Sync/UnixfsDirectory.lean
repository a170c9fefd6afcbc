import BrowserMesh.Library.PathTree
import BrowserMesh.Sync.Unixfs

/-! # UnixFS directories

* `addFiles`: the paths are normalised one after the other, and each one is added to the tree of directories.
* `buildUnixfsDirectory`: the tree is stored from below; the links of a directory are in the order of the UTF-8 bytes
  of their names.

Two names with the same bytes keep the order in which they were inserted: `directory_order`. -/

namespace BrowserMesh.Sync

open Js PathTrees

/-! ### Paths -/

/-- `p.split('/').filter((s) => s !== '')`. -/
def pathSegments (p : JsString) : List JsString := (p.splitOn 47).filter fun s => s ≠ []

def normalisePath (p : JsString) : Except UnixfsError (List JsString) :=
  let segs := pathSegments p
  if segs = [] ∨ js "." ∈ segs ∨ js ".." ∈ segs then .error (.invalidPath p) else .ok segs

/-- `segs.join('/')`. -/
def joinPath (segs : List JsString) : JsString := List.intercalate [47] segs

/-- What a file is in the tree of directories. -/
structure FileLeaf where
  data : Bytes
  path : JsString
deriving DecidableEq

abbrev DirEntries : Type := List (JsString × PathTree JsString FileLeaf)

def addFiles : List (JsString × Bytes) → DirEntries → Except UnixfsError DirEntries
  | [], root => .ok root
  | (path, data) :: rest, root =>
      match normalisePath path with
      | .error e => .error e
      | .ok segs =>
          match PathTree.insert root segs ⟨data, joinPath segs⟩ with
          | .error taken => .error (.pathConflict (joinPath taken))
          | .ok root' => addFiles rest root'

/-! ### Building -/

structure BuildState where
  blocks : Blocks
  fileCids : JsMap JsString JsString

/-- A build of a file or a directory, which puts blocks and gives the identifier and the size. -/
abbrev Build : Type := BuildState → Except UnixfsError ((JsString × ℕ) × BuildState)

structure BuiltDirectory where
  cid : JsString
  size : ℕ
  blocks : Blocks
  files : JsMap JsString JsString

/-- `MAX_DIR_NODE_BYTES`. -/
def maxDirNodeBytes : ℕ := 256 * 1024

section build
variable (sha256 : Bytes → Digest) (chunkSize maxLinks : ℕ)

def buildLeaf (file : FileLeaf) : Build := fun st =>
  match buildUnixfsFile sha256 (file.data.length + 1) chunkSize maxLinks file.data st.blocks with
  | .error e => .error e
  | .ok built => .ok ((built.cid, built.size), ⟨built.blocks, st.fileCids.set file.path built.cid⟩)

/-- The links to the children, built one after the other. -/
def buildLinks : List (JsString × Build) → BuildState → Except UnixfsError (List PBLink × BuildState)
  | [], st => .ok ([], st)
  | (name, build) :: rest, st =>
      match build st with
      | .error e => .error e
      | .ok (r, st') =>
          match cidBytes r.1 with
          | .error e => .error (.cid e)
          | .ok hash => (buildLinks rest st').map fun links => (⟨name, hash, r.2⟩ :: links.1, links.2)

/-- `build(dir)`, for the builds of its entries. -/
def buildDir (entries : List (JsString × Build)) : Build := fun st =>
  match buildLinks (entries.insertionSort (byRank fun e => encodeUtf8 e.1)) st with
  | .error e => .error e
  | .ok (links, st') =>
      let node := encodePBNode links unixfsDirData
      if maxDirNodeBytes < node.length then .error .tooLarge
      else
        let put := putBlock sha256 st'.blocks .dagPb node
        .ok ((put.1, node.length + (links.map PBLink.tsize).sum), { st' with blocks := put.2 })

def buildTree (t : PathTree JsString FileLeaf) : Build := t.fold (buildLeaf sha256 chunkSize maxLinks) (buildDir sha256)

/-- `buildUnixfsDirectory(files, { chunkSize, maxLinks })`, for the entries in their order. -/
def buildUnixfsDirectory (entries : List (JsString × Bytes)) : Except UnixfsError BuiltDirectory :=
  if entries = [] then .error .emptyTree
  else
    match addFiles entries [] with
    | .error e => .error e
    | .ok root =>
        match buildTree sha256 chunkSize maxLinks (.dir root) ⟨JsMap.empty, JsMap.empty⟩ with
        | .error e => .error e
        | .ok (r, st) => .ok ⟨r.1, r.2, st.blocks, st.fileCids⟩

end build

/-! ### Conflicts -/

/-- `normalisePath` accepts the path. -/
def ValidPath (p : JsString) : Prop := pathSegments p ≠ [] ∧ js "." ∉ pathSegments p ∧ js ".." ∉ pathSegments p

instance validPath_decidable (p : JsString) : Decidable (ValidPath p) := inferInstanceAs (Decidable (_ ∧ _))

theorem normalisePath_eq (p : JsString) :
    normalisePath p = if ValidPath p then .ok (pathSegments p) else .error (.invalidPath p) := by
  have hvalid : ValidPath p ↔ ¬ (pathSegments p = [] ∨ js "." ∈ pathSegments p ∨ js ".." ∈ pathSegments p) := by
    simp only [ValidPath, not_or, ne_eq]
  unfold normalisePath
  by_cases h : ValidPath p
  · rw [if_neg (hvalid.mp h), if_pos h]
  · rw [if_pos (not_not.mp (mt hvalid.mpr h)), if_neg h]

def segmented (e : JsString × Bytes) : List JsString × FileLeaf :=
  (pathSegments e.1, ⟨e.2, joinPath (pathSegments e.1)⟩)

/-- No two of the paths are the same, and none leads through another one. -/
def PathsApart (entries : List (JsString × Bytes)) : Prop :=
  (entries.map segmented).Pairwise fun e e' => ¬ PathTree.Clash e.1 e'.1

/-- The entries before the first path that `normalisePath` refuses. -/
def validPart (entries : List (JsString × Bytes)) : List (JsString × Bytes) :=
  entries.takeWhile fun e => ValidPath e.1

/-! ### Adding the files -/

variable {done : List (List JsString × FileLeaf)}

/-- What the loop does with one entry, when the tree is the one of the paths `done`. -/
theorem addFiles_step {n : ℕ} (hdone : PathTree.Free n done)
    {e : JsString × Bytes} (hlen : (pathSegments e.1).length ≤ n) (rest : List (JsString × Bytes)) :
    (¬ ValidPath e.1 → addFiles (e :: rest) (PathTree.treeOf n done) = .error (.invalidPath e.1)) ∧
      (ValidPath e.1 → (∀ d ∈ done, ¬ PathTree.Clash d.1 (segmented e).1) →
        addFiles (e :: rest) (PathTree.treeOf n done) = addFiles rest (PathTree.treeOf n (done ++ [segmented e]))) ∧
      (ValidPath e.1 → (∃ d ∈ done, PathTree.Clash d.1 (segmented e).1) →
        ∃ path, addFiles (e :: rest) (PathTree.treeOf n done) = .error (.pathConflict path)) := by
  obtain ⟨path, data⟩ := e
  refine ⟨fun h => ?_, fun h hfree => ?_, fun h hclash => ?_⟩
  · rw [addFiles, normalisePath_eq, if_neg h]
  · have hinsert := (PathTree.insert_treeOf hdone h.1 hlen (segmented (path, data)).2).1 hfree
    rw [addFiles, normalisePath_eq, if_pos h]
    simp only [segmented] at hinsert ⊢
    rw [hinsert]
  · obtain ⟨taken, htaken⟩ := (PathTree.insert_treeOf hdone h.1 hlen (segmented (path, data)).2).2 hclash
    refine ⟨joinPath taken, ?_⟩
    rw [addFiles, normalisePath_eq, if_pos h]
    simp only [segmented] at htaken ⊢
    rw [htaken]

theorem Free.snoc {n : ℕ} (hdone : PathTree.Free n done)
    {e : JsString × Bytes} (hlen : (pathSegments e.1).length ≤ n) (hvalid : ValidPath e.1)
    (hfree : ∀ d ∈ done, ¬ PathTree.Clash d.1 (segmented e).1) : PathTree.Free n (done ++ [segmented e]) where
  nonempty d hd := by
    rcases List.mem_append.mp hd with hd | hd
    · exact hdone.nonempty d hd
    · rw [List.mem_singleton.mp hd]
      exact hvalid.1
  short d hd := by
    rcases List.mem_append.mp hd with hd | hd
    · exact hdone.short d hd
    · rw [List.mem_singleton.mp hd]
      exact hlen
  apart := List.pairwise_append.mpr ⟨hdone.apart, List.pairwise_singleton _ _, fun d hd d' hd' => by
    rw [List.mem_singleton.mp hd']
    exact hfree d hd⟩

variable {entries : List (JsString × Bytes)}

theorem addFiles_ok {n : ℕ} (hdone : PathTree.Free n done) (hlen : ∀ e ∈ entries, (pathSegments e.1).length ≤ n)
    (hvalid : ∀ e ∈ entries, ValidPath e.1)
    (hapart : (done ++ entries.map segmented).Pairwise fun e e' => ¬ PathTree.Clash e.1 e'.1) :
    addFiles entries (PathTree.treeOf n done) = .ok (PathTree.treeOf n (done ++ entries.map segmented)) := by
  induction entries generalizing done with
  | nil => rw [addFiles, List.map_nil, List.append_nil]
  | cons e rest ih =>
      have he := hvalid e List.mem_cons_self
      have hle := hlen e List.mem_cons_self
      have hfree : ∀ d ∈ done, ¬ PathTree.Clash d.1 (segmented e).1 := fun d hd =>
        (List.pairwise_append.mp hapart).2.2 d hd _ List.mem_cons_self
      rw [(addFiles_step hdone hle rest).2.1 he hfree]
      have happend : done ++ (e :: rest).map segmented = done ++ [segmented e] ++ rest.map segmented := by
        rw [List.map_cons, List.append_assoc, List.singleton_append]
      rw [happend] at hapart ⊢
      exact ih (Free.snoc hdone hle he hfree) (fun e' he' => hlen e' (List.mem_cons_of_mem _ he'))
        (fun e' he' => hvalid e' (List.mem_cons_of_mem _ he')) hapart

/-- **Conflicts** are met exactly when two of the paths before the first invalid one clash. -/
theorem addFiles_conflict_iff {n : ℕ} (hdone : PathTree.Free n done)
    (hlen : ∀ e ∈ entries, (pathSegments e.1).length ≤ n) :
    (∃ path, addFiles entries (PathTree.treeOf n done) = .error (.pathConflict path)) ↔
      ¬ (done ++ (validPart entries).map segmented).Pairwise fun e e' => ¬ PathTree.Clash e.1 e'.1 := by
  induction entries generalizing done with
  | nil =>
      have hnone : ¬ ∃ path, addFiles [] (PathTree.treeOf n done) = .error (.pathConflict path) := by
        rintro ⟨path, hpath⟩
        cases hpath
      simp only [hnone, false_iff, not_not, validPart, List.takeWhile_nil, List.map_nil, List.append_nil]
      exact hdone.apart
  | cons e rest ih =>
      have hle := hlen e List.mem_cons_self
      obtain ⟨hinvalid, hadds, hclashes⟩ := addFiles_step hdone hle rest
      by_cases he : ValidPath e.1
      · have hpart : validPart (e :: rest) = e :: validPart rest := List.takeWhile_cons_of_pos (by simpa using he)
        have happend : done ++ (validPart (e :: rest)).map segmented =
            done ++ [segmented e] ++ (validPart rest).map segmented := by
          rw [hpart, List.map_cons, List.append_assoc, List.singleton_append]
        rw [happend]
        by_cases hfree : ∀ d ∈ done, ¬ PathTree.Clash d.1 (segmented e).1
        · rw [hadds he hfree]
          exact ih (Free.snoc hdone hle he hfree) fun e' he' => hlen e' (List.mem_cons_of_mem _ he')
        · push Not at hfree
          refine iff_of_true (hclashes he hfree) fun hapart => ?_
          obtain ⟨d, hd, hclash⟩ := hfree
          rw [List.append_assoc] at hapart
          exact (List.pairwise_append.mp hapart).2.2 d hd _ (List.mem_append_left _ (List.mem_singleton_self _)) hclash
      · have hpart : validPart (e :: rest) = [] := List.takeWhile_cons_of_neg (by simpa using he)
        rw [hinvalid he, hpart, List.map_nil, List.append_nil]
        refine iff_of_false ?_ (not_not.mpr hdone.apart)
        rintro ⟨path, hpath⟩
        cases hpath

theorem addFiles_valid {root root' : DirEntries}
    (h : addFiles entries root = .ok root') : ∀ e ∈ entries, ValidPath e.1 := by
  induction entries generalizing root with
  | nil => exact fun e he => absurd he List.not_mem_nil
  | cons e rest ih =>
      obtain ⟨path, data⟩ := e
      rw [addFiles, normalisePath_eq] at h
      by_cases he : ValidPath path
      · rw [if_pos he] at h
        simp only at h
        split at h
        · cases h
        · rintro e' (_ | ⟨_, he'⟩)
          · exact he
          · exact ih h e' he'
      · rw [if_neg he] at h
        cases h

/-! ### Building the directories -/

section build
variable {sha256 : Bytes → Digest} {chunkSize maxLinks : ℕ}

def FileError (e : UnixfsError) : Prop := e = .endless ∨ ∃ c, e = .cid c

variable {e : UnixfsError}

theorem groupLinks_error {group : List LevelEntry} (h : groupLinks group = .error e) :
    FileError e := by
  induction group with
  | nil => cases h
  | cons g group ih =>
      rw [groupLinks] at h
      split at h
      · cases h
        exact Or.inr ⟨_, rfl⟩
      · cases hrest : groupLinks group with
        | error e' =>
            rw [hrest] at h
            cases h
            exact ih hrest
        | ok links =>
            rw [hrest] at h
            cases h

variable {blocks : Blocks}

theorem groupEntry_error {group : List LevelEntry} (h : groupEntry sha256 blocks group = .error e) : FileError e := by
  unfold groupEntry at h
  split at h
  · cases h
  · simp only at h
    split at h
    · rename_i hlinks
      cases h
      exact groupLinks_error hlinks
    · cases h

theorem nextLevel_error {groups : List (List LevelEntry)}
    (h : nextLevel sha256 groups blocks = .error e) : FileError e := by
  induction groups generalizing blocks with
  | nil => cases h
  | cons group groups ih =>
      rw [nextLevel] at h
      split at h
      · rename_i hgroup
        cases h
        exact groupEntry_error hgroup
      · rename_i entry blocks' _
        cases hrest : nextLevel sha256 groups blocks' with
        | error e' =>
            rw [hrest] at h
            cases h
            exact ih hrest
        | ok r =>
            rw [hrest] at h
            cases h

theorem levelLoop_error {fuel : ℕ} {level : List LevelEntry}
    (h : levelLoop sha256 maxLinks fuel level blocks = .error e) : FileError e := by
  induction fuel generalizing level blocks with
  | zero =>
      rw [levelLoop] at h
      split_ifs at h
      cases h
      exact Or.inl rfl
  | succ fuel ih =>
      rw [levelLoop] at h
      split_ifs at h
      split at h
      · cases h
        exact Or.inl rfl
      · split at h
        · rename_i hnext
          cases h
          exact nextLevel_error hnext
        · exact ih h

theorem buildUnixfsFile_error {fuel : ℕ} {bytes : Bytes}
    (h : buildUnixfsFile sha256 fuel chunkSize maxLinks bytes blocks = .error e) : FileError e := by
  unfold buildUnixfsFile at h
  split at h
  · cases h
    exact Or.inl rfl
  · simp only at h
    split at h
    · rename_i hloop
      cases h
      exact levelLoop_error hloop
    · split at h
      · cases h
        exact Or.inl rfl
      · cases h

def Peaceful (build : Build) : Prop := ∀ st path, build st ≠ .error (.pathConflict path)

theorem peaceful_buildLeaf (file : FileLeaf) : Peaceful (buildLeaf sha256 chunkSize maxLinks file) := by
  intro st path h
  unfold buildLeaf at h
  split at h
  · rename_i hfile
    cases h
    obtain h | ⟨c, h⟩ := buildUnixfsFile_error hfile
    · cases h
    · cases h
  · cases h

theorem peaceful_buildLinks {entries : List (JsString × Build)} (hentries : ∀ e ∈ entries, Peaceful e.2)
    (st : BuildState) (path : JsString) : buildLinks entries st ≠ .error (.pathConflict path) := by
  induction entries generalizing st with
  | nil =>
      intro h
      cases h
  | cons e entries ih =>
      obtain ⟨name, build⟩ := e
      intro h
      rw [buildLinks] at h
      split at h
      · rename_i hbuild
        cases h
        exact hentries _ List.mem_cons_self st path hbuild
      · rename_i r st' _
        split at h
        · cases h
        · cases hrest : buildLinks entries st' with
          | error e' =>
              rw [hrest] at h
              cases h
              exact ih (fun e he => hentries e (List.mem_cons_of_mem _ he)) st' hrest
          | ok links =>
              rw [hrest] at h
              cases h

theorem peaceful_buildDir (entries : List (JsString × Build)) (hentries : ∀ e ∈ entries, Peaceful e.2) :
    Peaceful (buildDir sha256 entries) := by
  intro st path h
  unfold buildDir at h
  split at h
  · rename_i hlinks
    cases h
    exact peaceful_buildLinks (fun e he => hentries e ((List.mem_insertionSort _).mp he)) st path hlinks
  · simp only at h
    split_ifs at h
    cases h

theorem peaceful_buildTree (t : PathTree JsString FileLeaf) : Peaceful (buildTree sha256 chunkSize maxLinks t) :=
  PathTree.fold_induct peaceful_buildLeaf peaceful_buildDir t

/-- The names of a directory are sorted, so the order of its entries is that of their bytes, if these differ. -/
theorem buildDir_perm {entries entries' : List (JsString × Build)} (hperm : entries.Perm entries')
    (hnodup : (entries.map Prod.fst).Nodup)
    (hapart : ∀ k ∈ entries.map Prod.fst, ∀ k' ∈ entries.map Prod.fst, k ≠ k' → encodeUtf8 k ≠ encodeUtf8 k') :
    buildDir sha256 entries = buildDir sha256 entries' := by
  have hsorted : entries.insertionSort (byRank fun e => encodeUtf8 e.1) =
      entries'.insertionSort (byRank fun e => encodeUtf8 e.1) := by
    refine List.Perm.eq_of_pairwise ?_ (List.pairwise_insertionSort _ _) (List.pairwise_insertionSort _ _)
      ((List.perm_insertionSort _ _).trans (hperm.trans (List.perm_insertionSort _ _).symm))
    intro e e' he he' hle hle'
    have he := (List.mem_insertionSort _).mp he
    have he' := hperm.symm.subset ((List.mem_insertionSort _).mp he')
    have hbytes : encodeUtf8 e.1 = encodeUtf8 e'.1 := le_antisymm hle hle'
    have hname : e.1 = e'.1 := by
      by_contra hne
      exact hapart _ (List.mem_map_of_mem he) _ (List.mem_map_of_mem he') hne hbytes
    exact List.inj_on_of_nodup_map hnodup he he' hname
  funext st
  rw [buildDir, buildDir, hsorted]

end build

/-! ### The order of the entries -/

/-- The segments of the path of an entry, and its bytes. -/
def content (e : JsString × Bytes) : List JsString × Bytes := (pathSegments e.1, e.2)

/-- No two different names directly below one directory have the same UTF-8 bytes. -/
def NamesApart (entries : List (JsString × Bytes)) : Prop :=
  ∀ k k', PathTree.Siblings (entries.map content) k k' → k ≠ k' → encodeUtf8 k ≠ encodeUtf8 k'

/-- The entries in two orders: the results are the same, or both are errors. -/
def SameOutcome (r r' : Except UnixfsError BuiltDirectory) : Prop :=
  (∃ built, r = .ok built ∧ r' = .ok built) ∨ (∃ e, r = .error e) ∧ ∃ e, r' = .error e

variable {entries' : List (JsString × Bytes)}

theorem segmented_perm (h : (entries.map content).Perm (entries'.map content)) :
    (entries.map segmented).Perm (entries'.map segmented) := by
  have hmap := h.map fun c => (c.1, (⟨c.2, joinPath c.1⟩ : FileLeaf))
  rw [List.map_map, List.map_map] at hmap
  exact hmap

theorem valid_perm (h : (entries.map content).Perm (entries'.map content)) (hvalid : ∀ e ∈ entries, ValidPath e.1) :
    ∀ e ∈ entries', ValidPath e.1 := by
  intro e he
  obtain ⟨e₀, he₀, hcontent⟩ := List.mem_map.mp (h.symm.subset (List.mem_map_of_mem he))
  have hsegments : pathSegments e₀.1 = pathSegments e.1 := congrArg Prod.fst hcontent
  have hv := hvalid e₀ he₀
  unfold ValidPath at hv ⊢
  rw [← hsegments]
  exact hv

theorem pathsApart_perm
    (h : (entries.map content).Perm (entries'.map content)) (hapart : PathsApart entries) : PathsApart entries' :=
  ((segmented_perm h).pairwise_iff fun hc hc' => hc hc'.symm).mp hapart

theorem exists_depth (entries : List (JsString × Bytes)) : ∃ n, ∀ e ∈ entries, (pathSegments e.1).length ≤ n :=
  ⟨(entries.map fun e => (pathSegments e.1).length).sum, fun _ he => List.le_sum_of_mem (List.mem_map_of_mem he)⟩

theorem Free.none (n : ℕ) : PathTree.Free n ([] : List (List JsString × FileLeaf)) :=
  ⟨fun _ he => absurd he List.not_mem_nil, fun _ he => absurd he List.not_mem_nil, List.Pairwise.nil⟩

theorem Free.of_valid {n : ℕ}
    (hlen : ∀ e ∈ entries, (pathSegments e.1).length ≤ n) (hvalid : ∀ e ∈ entries, ValidPath e.1)
    (hapart : PathsApart entries) : PathTree.Free n (entries.map segmented) where
  nonempty d hd := by
    obtain ⟨e, he, rfl⟩ := List.mem_map.mp hd
    exact (hvalid e he).1
  short d hd := by
    obtain ⟨e, he, rfl⟩ := List.mem_map.mp hd
    exact hlen e he
  apart := hapart

section build
variable {sha256 : Bytes → Digest} {chunkSize maxLinks : ℕ}

theorem buildUnixfsDirectory_eq {n : ℕ} {entries : List (JsString × Bytes)} (hne : entries ≠ [])
    (hlen : ∀ e ∈ entries, (pathSegments e.1).length ≤ n) (hvalid : ∀ e ∈ entries, ValidPath e.1)
    (hapart : PathsApart entries) :
    buildUnixfsDirectory sha256 chunkSize maxLinks entries =
      (buildTree sha256 chunkSize maxLinks (.dir (PathTree.treeOf n (entries.map segmented)))
        ⟨JsMap.empty, JsMap.empty⟩).map fun r => ⟨r.1.1, r.1.2, r.2.blocks, r.2.fileCids⟩ := by
  have hadd := addFiles_ok (Free.none n) hlen hvalid (by rwa [List.nil_append])
  rw [PathTree.treeOf_nil, List.nil_append] at hadd
  rw [buildUnixfsDirectory, if_neg hne, hadd]
  simp only
  split
  · rename_i e he
    rw [he]
    rfl
  · rename_i r st hr
    rw [hr]
    rfl

theorem valid_of_built {entries : List (JsString × Bytes)} {built : BuiltDirectory}
    (h : buildUnixfsDirectory sha256 chunkSize maxLinks entries = .ok built) :
    (∀ e ∈ entries, ValidPath e.1) ∧ PathsApart entries := by
  unfold buildUnixfsDirectory at h
  split_ifs at h with hne
  split at h
  · cases h
  · rename_i root hadd
    have hvalid := addFiles_valid hadd
    refine ⟨hvalid, ?_⟩
    obtain ⟨n, hn⟩ := exists_depth entries
    have hiff := addFiles_conflict_iff (Free.none n) hn
    have hpart : validPart entries = entries :=
      List.takeWhile_eq_self_iff.mpr fun e he => decide_eq_true (hvalid e he)
    rw [PathTree.treeOf_nil, List.nil_append, hpart] at hiff
    by_contra hapart
    obtain ⟨path, hpath⟩ := hiff.mpr hapart
    rw [hadd] at hpath
    cases hpath

theorem buildUnixfsDirectory_conflict_iff (sha256 : Bytes → Digest) (chunkSize maxLinks : ℕ)
    (entries : List (JsString × Bytes)) :
    (∃ path, buildUnixfsDirectory sha256 chunkSize maxLinks entries = .error (.pathConflict path)) ↔
      ¬ PathsApart (validPart entries) := by
  obtain ⟨n, hn⟩ := exists_depth entries
  have hiff := addFiles_conflict_iff (Free.none n) hn
  rw [PathTree.treeOf_nil, List.nil_append] at hiff
  rw [PathsApart, ← hiff]
  refine exists_congr fun path => ?_
  unfold buildUnixfsDirectory
  split_ifs with hne
  · subst hne
    exact iff_of_false (by rintro ⟨⟩) (by rintro ⟨⟩)
  · split
    · rename_i hadd
      rw [hadd]
      rw [Except.error.injEq, Except.error.injEq]
    · rename_i root hadd
      rw [hadd]
      refine iff_of_false (fun h => ?_) (by rintro ⟨⟩)
      split at h
      · rename_i hbuild
        cases h
        exact peaceful_buildTree _ _ path hbuild
      · cases h

/-- **The order of the entries**: if no two different names in one directory have the same UTF-8 bytes, the results are
the same or both are errors.  A conflict is reported if and only if two paths before the first invalid one clash. -/
theorem directory_order (sha256 : Bytes → Digest) (chunkSize maxLinks : ℕ) (entries entries' : List (JsString × Bytes))
    (hperm : (entries.map content).Perm (entries'.map content)) :
    (NamesApart entries → SameOutcome (buildUnixfsDirectory sha256 chunkSize maxLinks entries)
        (buildUnixfsDirectory sha256 chunkSize maxLinks entries')) ∧
      ((∃ path, buildUnixfsDirectory sha256 chunkSize maxLinks entries = .error (.pathConflict path)) ↔
        ¬ PathsApart (validPart entries)) := by
  refine ⟨fun hnames => ?_, buildUnixfsDirectory_conflict_iff sha256 chunkSize maxLinks entries⟩
  by_cases hgood : entries ≠ [] ∧ (∀ e ∈ entries, ValidPath e.1) ∧ PathsApart entries
  · obtain ⟨hne, hvalid, hapart⟩ := hgood
    have hne' : entries' ≠ [] := by
      rintro rfl
      exact hne (List.map_eq_nil_iff.mp hperm.eq_nil)
    obtain ⟨n, hn⟩ := exists_depth entries
    have hn' : ∀ e ∈ entries', (pathSegments e.1).length ≤ n := by
      intro e he
      obtain ⟨e₀, he₀, hcontent⟩ := List.mem_map.mp (hperm.symm.subset (List.mem_map_of_mem he))
      have hsegments : pathSegments e₀.1 = pathSegments e.1 := congrArg Prod.fst hcontent
      rw [← hsegments]
      exact hn e₀ he₀
    have htree : buildTree sha256 chunkSize maxLinks (.dir (PathTree.treeOf n (entries.map segmented))) =
        buildTree sha256 chunkSize maxLinks (.dir (PathTree.treeOf n (entries'.map segmented))) := by
      refine PathTree.fold_treeOf_perm (fun l l' hp hnodup hall => buildDir_perm hp hnodup hall)
        (Free.of_valid hn hvalid hapart) (segmented_perm hperm) fun k k' hs => hnames k k' ?_
      obtain ⟨p, q, q', a, a', h₁, h₂⟩ := hs
      obtain ⟨e₁, he₁, heq₁⟩ := List.mem_map.mp h₁
      obtain ⟨e₂, he₂, heq₂⟩ := List.mem_map.mp h₂
      refine ⟨p, q, q', e₁.2, e₂.2, List.mem_map.mpr ⟨e₁, he₁, ?_⟩, List.mem_map.mpr ⟨e₂, he₂, ?_⟩⟩
      · have hpath : pathSegments e₁.1 = p ++ k :: q := congrArg Prod.fst heq₁
        rw [content, hpath]
      · have hpath : pathSegments e₂.1 = p ++ k' :: q' := congrArg Prod.fst heq₂
        rw [content, hpath]
    rw [buildUnixfsDirectory_eq hne hn hvalid hapart,
      buildUnixfsDirectory_eq hne' hn' (valid_perm hperm hvalid) (pathsApart_perm hperm hapart), htree]
    cases buildTree sha256 chunkSize maxLinks (.dir (PathTree.treeOf n (entries'.map segmented)))
        ⟨JsMap.empty, JsMap.empty⟩ with
    | ok r => exact Or.inl ⟨_, rfl, rfl⟩
    | error e => exact Or.inr ⟨⟨_, rfl⟩, _, rfl⟩
  · refine Or.inr ⟨?_, ?_⟩
    · cases hbuilt : buildUnixfsDirectory sha256 chunkSize maxLinks entries with
      | error e => exact ⟨e, rfl⟩
      | ok built =>
          refine absurd ⟨?_, valid_of_built hbuilt⟩ hgood
          rintro rfl
          cases hbuilt
    · cases hbuilt : buildUnixfsDirectory sha256 chunkSize maxLinks entries' with
      | error e => exact ⟨e, rfl⟩
      | ok built =>
          obtain ⟨hvalid', hapart'⟩ := valid_of_built hbuilt
          refine absurd ⟨?_, valid_perm hperm.symm hvalid', pathsApart_perm hperm.symm hapart'⟩ hgood
          rintro rfl
          rw [List.map_eq_nil_iff.mp hperm.symm.eq_nil] at hbuilt
          cases hbuilt

end build

/-! ### Two names with the same bytes -/

theorem namesApart_of_segments
    (h : ∀ k ∈ entries.flatMap fun e => pathSegments e.1, ∀ k' ∈ entries.flatMap fun e => pathSegments e.1,
      k ≠ k' → encodeUtf8 k ≠ encodeUtf8 k') : NamesApart entries := by
  have hmem : ∀ {p q : List JsString} {k : JsString} {a : Bytes}, (p ++ k :: q, a) ∈ entries.map content →
      k ∈ entries.flatMap fun e => pathSegments e.1 := by
    intro p q k a hk
    obtain ⟨e, he, hcontent⟩ := List.mem_map.mp hk
    have hpath : pathSegments e.1 = p ++ k :: q := congrArg Prod.fst hcontent
    refine List.mem_flatMap.mpr ⟨e, he, ?_⟩
    rw [hpath]
    exact List.mem_append_right _ List.mem_cons_self
  rintro k k' ⟨p, q, q', a, a', hk, hk'⟩
  exact h k (hmem hk) k' (hmem hk')

theorem length_padded (bytes : Bytes) : ((bytes ++ List.replicate 32 0).take 32).length = 32 := by
  rw [List.length_take, List.length_append, List.length_replicate]
  omega

def prefixHash (bytes : Bytes) : Digest := ⟨(bytes ++ List.replicate 32 0).take 32, length_padded bytes⟩

def twoFiles : List (JsString × Bytes) := [(js "a/b", [1]), (js "c", [2])]

theorem directory_order_two :
    SameOutcome (buildUnixfsDirectory prefixHash 1 2 twoFiles) (buildUnixfsDirectory prefixHash 1 2 twoFiles.reverse) ∧
      ((∃ path, buildUnixfsDirectory prefixHash 1 2 twoFiles = .error (.pathConflict path)) ↔
        ¬ PathsApart (validPart twoFiles)) := by
  have h := directory_order prefixHash 1 2 twoFiles twoFiles.reverse ((List.reverse_perm _).symm.map _)
  exact ⟨h.1 (namesApart_of_segments (by decide +kernel)), h.2⟩

/-- Two names that consist of one half of a surrogate pair each: they have the same UTF-8 bytes. -/
def halves : List (JsString × Bytes) := [([0xd800], [1]), ([0xd801], [2])]

/-- Two paths that are the same, after one that is not valid. -/
def refusedFirst : List (JsString × Bytes) := [(js "..", []), (js "a", []), (js "/a", [])]

theorem insertion_order_matters :
    ((halves.map content).Perm (halves.reverse.map content) ∧
      ¬ SameOutcome (buildUnixfsDirectory prefixHash 1 2 halves)
        (buildUnixfsDirectory prefixHash 1 2 halves.reverse)) ∧
      content (js "a", []) = content (js "/a", []) ∧
      ¬ ∃ path, buildUnixfsDirectory prefixHash 1 2 refusedFirst = .error (.pathConflict path) := by
  have hcids : ((buildUnixfsDirectory prefixHash 1 2 halves).toOption.map BuiltDirectory.cid).isSome ∧
      (buildUnixfsDirectory prefixHash 1 2 halves).toOption.map BuiltDirectory.cid ≠
        (buildUnixfsDirectory prefixHash 1 2 halves.reverse).toOption.map BuiltDirectory.cid := by
    decide +kernel
  refine ⟨⟨(List.reverse_perm _).symm.map _, ?_⟩, by decide +kernel, ?_⟩
  · rintro (⟨built, h, h'⟩ | ⟨⟨e, h⟩, -⟩)
    · exact hcids.2 (by rw [h, h'])
    · have hsome := hcids.1
      rw [h] at hsome
      cases hsome
  · rw [buildUnixfsDirectory_conflict_iff, not_not]
    have hpart : validPart refusedFirst = [] := by decide +kernel
    rw [hpart]
    exact List.Pairwise.nil

end BrowserMesh.Sync
