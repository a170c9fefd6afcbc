import BrowserMesh.Js.Dict
import BrowserMesh.Library.Layers
import BrowserMesh.Sync.Cid

/-! # UnixFS files

* `encodePBNode`, `unixfsFileData`: the bytes of an interior node.  They determine its links and its sizes
  (`encodePBNode_inj`, `unixfsFileData_inj`).
* `buildUnixfsFile`: the blocks of a file.  A level is a list of entries; `maxLinks` entries of a level make one of the
  next, until one is left.
* `layout`, `Stored`: the tree that the loops build, and what its nodes are stored as.  `buildUnixfsFile_eq` says that
  the loops store this tree. -/

namespace BrowserMesh.Sync

open Js Layers

/-! ### Encoding -/

/-- `varint(n)`. -/
def varint (n : ℕ) : Bytes :=
  if 0x80 ≤ n then Fin.ofNat _ ((n % 0x80) ||| 0x80) :: varint (n / 0x80) else [Fin.ofNat _ n]
termination_by n

def lenDelimited (tag : Fin 256) (bytes : Bytes) : Bytes := tag :: (varint bytes.length ++ bytes)

/-- A link of a node; `tsize` is the size of everything below. -/
structure PBLink where
  name : JsString
  hash : Bytes
  tsize : ℕ
deriving DecidableEq

def encodeLink (l : PBLink) : Bytes :=
  lenDelimited 0x12 (lenDelimited 0x0a l.hash ++ lenDelimited 0x12 (encodeUtf8 l.name) ++ (0x18 :: varint l.tsize))

/-- `encodePBNode(links, data)`: the links first. -/
def encodePBNode (links : List PBLink) (data : Bytes) : Bytes := links.flatMap encodeLink ++ lenDelimited 0x0a data

def unixfsDirData : Bytes := [0x08, 1]

def unixfsFileData (filesize : ℕ) (blocksizes : List ℕ) : Bytes :=
  [0x08, 2, 0x18] ++ varint filesize ++ blocksizes.flatMap fun s => 0x20 :: varint s

/-- `cidBytes(cid)`. -/
def cidBytes (cid : JsString) : Except CidError Bytes :=
  (parseCid cid).map fun p => identifierBytes p.codec p.digest

/-! ### Files -/

abbrev Blocks : Type := JsMap JsString Bytes

inductive UnixfsError where
  | cid (error : CidError)
  /-- A loop goes on for longer than it was followed. -/
  | endless
  | emptyTree
  | invalidPath (path : JsString)
  | pathConflict (path : JsString)
  | tooLarge
deriving DecidableEq

structure LevelEntry where
  cid : JsString
  tsize : ℕ
  filesize : ℕ
deriving DecidableEq

structure BuiltFile where
  cid : JsString
  size : ℕ
  blocks : Blocks

section build
variable (sha256 : Bytes → Digest)

def putBlock (blocks : Blocks) (codec : Codec) (bytes : Bytes) : JsString × Blocks :=
  let cid := cidFromDigest codec (sha256 bytes)
  (cid, blocks.set cid bytes)

/-- The chunks of the input; of an empty one, the input itself. -/
def fileChunks (chunkSize : ℕ) (bytes : Bytes) : Option (List Bytes) :=
  if bytes.length = 0 then some [bytes] else slices chunkSize bytes.length bytes

def leafLevel : List Bytes → Blocks → List LevelEntry × Blocks
  | [], blocks => ([], blocks)
  | chunk :: rest, blocks =>
      let put := putBlock sha256 blocks .raw chunk
      let next := leafLevel rest put.2
      (⟨put.1, chunk.length, chunk.length⟩ :: next.1, next.2)

def groupLinks : List LevelEntry → Except UnixfsError (List PBLink)
  | [] => .ok []
  | g :: group =>
      match cidBytes g.cid with
      | .error e => .error (.cid e)
      | .ok hash => (groupLinks group).map (⟨[], hash, g.tsize⟩ :: ·)

/-- The body of the loop over the groups of a level. -/
def groupEntry (blocks : Blocks) (group : List LevelEntry) : Except UnixfsError (LevelEntry × Blocks) :=
  match group with
  | [g] => .ok (g, blocks)
  | _ =>
      let filesize := (group.map LevelEntry.filesize).sum
      match groupLinks group with
      | .error e => .error e
      | .ok links =>
          let node := encodePBNode links (unixfsFileData filesize (group.map LevelEntry.filesize))
          let tsize := node.length + (group.map LevelEntry.tsize).sum
          let put := putBlock sha256 blocks .dagPb node
          .ok (⟨put.1, tsize, filesize⟩, put.2)

def nextLevel : List (List LevelEntry) → Blocks → Except UnixfsError (List LevelEntry × Blocks)
  | [], blocks => .ok ([], blocks)
  | group :: rest, blocks =>
      match groupEntry sha256 blocks group with
      | .error e => .error e
      | .ok (entry, blocks') => (nextLevel rest blocks').map fun r => (entry :: r.1, r.2)

/-- `while (level.length > 1)`, for `fuel` rounds at most. -/
def levelLoop (maxLinks : ℕ) : ℕ → List LevelEntry → Blocks → Except UnixfsError (List LevelEntry × Blocks)
  | 0, level, blocks => if 1 < level.length then .error .endless else .ok (level, blocks)
  | fuel + 1, level, blocks =>
      if 1 < level.length then
        match slices maxLinks level.length level with
        | none => .error .endless
        | some groups =>
            match nextLevel sha256 groups blocks with
            | .error e => .error e
            | .ok (next, blocks') => levelLoop maxLinks fuel next blocks'
      else .ok (level, blocks)

/-- `buildUnixfsFile(bytes, { chunkSize, maxLinks, blocks })`, followed for `fuel` levels. -/
def buildUnixfsFile (fuel chunkSize maxLinks : ℕ) (bytes : Bytes) (blocks : Blocks) : Except UnixfsError BuiltFile :=
  match fileChunks chunkSize bytes with
  | none => .error .endless
  | some chunks =>
      let leaves := leafLevel sha256 chunks blocks
      match levelLoop sha256 maxLinks fuel leaves.1 leaves.2 with
      | .error e => .error e
      | .ok (level, blocks') =>
          match level with
          | [] => .error .endless
          | root :: _ => .ok ⟨root.cid, root.tsize, blocks'⟩

end build

/-! ### Decoding is unique -/

theorem or_top {x : ℕ} (h : x < 128) : x ||| 0x80 = x + 128 := by
  have hall : ∀ x : Fin 128, x.val ||| 0x80 = x.val + 128 := by decide
  exact hall ⟨x, h⟩

/-- The bytes but for the last have the top bit, so a number is read off the front of what follows it. -/
theorem varint_append_inj {m n : ℕ} {s t : Bytes} (h : varint m ++ s = varint n ++ t) : m = n ∧ s = t := by
  have hm : m % 0x80 < 128 := Nat.mod_lt _ (by decide)
  have hn : n % 0x80 < 128 := Nat.mod_lt _ (by decide)
  induction m using Nat.strongRecOn generalizing n with
  | ind m ih =>
      rw [varint, varint.eq_def n, or_top hm, or_top hn] at h
      split_ifs at h with hbm hbn hbn
      · obtain ⟨hhead, htail⟩ := List.cons.inj h
        have hval := congrArg Fin.val hhead
        rw [Fin.val_ofNat, Fin.val_ofNat] at hval
        obtain ⟨hdiv, rfl⟩ := ih (m / 0x80) (by omega) htail (Nat.mod_lt _ (by decide)) (Nat.mod_lt _ (by decide))
        exact ⟨by omega, rfl⟩
      · have hval := congrArg Fin.val (List.cons.inj h).1
        rw [Fin.val_ofNat, Fin.val_ofNat] at hval
        omega
      · have hval := congrArg Fin.val (List.cons.inj h).1
        rw [Fin.val_ofNat, Fin.val_ofNat] at hval
        omega
      · obtain ⟨hhead, htail⟩ := List.cons.inj h
        have hval := congrArg Fin.val hhead
        rw [Fin.val_ofNat, Fin.val_ofNat] at hval
        exact ⟨by omega, htail⟩

theorem lenDelimited_append_inj {tag tag' : Fin 256} {b b' s t : Bytes}
    (h : lenDelimited tag b ++ s = lenDelimited tag' b' ++ t) : tag = tag' ∧ b = b' ∧ s = t := by
  rw [lenDelimited, lenDelimited, List.cons_append, List.cons_append, List.append_assoc, List.append_assoc] at h
  obtain ⟨htag, hrest⟩ := List.cons.inj h
  obtain ⟨hlen, hrest⟩ := varint_append_inj hrest
  obtain ⟨hb, hs⟩ := List.append_inj hrest hlen
  exact ⟨htag, hb, hs⟩

def PBLink.written (l : PBLink) : Bytes × Bytes × ℕ := (l.hash, encodeUtf8 l.name, l.tsize)

theorem encodeLink_append_inj {l l' : PBLink} {s t : Bytes} (h : encodeLink l ++ s = encodeLink l' ++ t) :
    l.written = l'.written ∧ s = t := by
  obtain ⟨-, hbody, hs⟩ := lenDelimited_append_inj h
  rw [List.append_assoc, List.append_assoc] at hbody
  obtain ⟨-, hhash, hbody⟩ := lenDelimited_append_inj hbody
  obtain ⟨-, hname, hsize⟩ := lenDelimited_append_inj hbody
  have hvarint : varint l.tsize ++ [] = varint l'.tsize ++ [] := by
    rw [List.append_nil, List.append_nil]
    exact (List.cons.inj hsize).2
  refine ⟨?_, hs⟩
  rw [PBLink.written, PBLink.written, hhash, hname, (varint_append_inj hvarint).1]

/-- **Nodes.**  The bytes of a node determine its links, with names up to their bytes, and its data. -/
theorem encodePBNode_inj {links links' : List PBLink} {data data' : Bytes}
    (h : encodePBNode links data = encodePBNode links' data') :
    links.map PBLink.written = links'.map PBLink.written ∧ data = data' := by
  unfold encodePBNode at h
  induction links generalizing links' with
  | nil =>
      cases links' with
      | nil =>
          have hdata : lenDelimited 0x0a data ++ [] = lenDelimited 0x0a data' ++ [] := by
            rw [List.append_nil, List.append_nil]
            exact h
          exact ⟨rfl, (lenDelimited_append_inj hdata).2.1⟩
      | cons l' links' =>
          have hhead : (0x0a : Fin 256) = 0x12 := (List.cons.inj h).1
          exact absurd hhead (by decide)
  | cons l links ih =>
      cases links' with
      | nil =>
          have hhead : (0x12 : Fin 256) = 0x0a := (List.cons.inj h).1
          exact absurd hhead (by decide)
      | cons l' links' =>
          rw [List.flatMap_cons, List.flatMap_cons, List.append_assoc, List.append_assoc] at h
          obtain ⟨hl, hrest⟩ := encodeLink_append_inj h
          obtain ⟨hlinks, hdata⟩ := ih hrest
          exact ⟨by rw [List.map_cons, List.map_cons, hl, hlinks], hdata⟩

theorem unixfsFileData_inj {filesize filesize' : ℕ} {sizes sizes' : List ℕ}
    (h : unixfsFileData filesize sizes = unixfsFileData filesize' sizes') : filesize = filesize' ∧ sizes = sizes' := by
  unfold unixfsFileData at h
  rw [List.append_assoc, List.append_assoc] at h
  obtain ⟨hsize, hrest⟩ := varint_append_inj (List.append_cancel_left h)
  refine ⟨hsize, ?_⟩
  clear h
  induction sizes generalizing sizes' with
  | nil =>
      cases sizes' with
      | nil => rfl
      | cons s' sizes' => cases hrest
  | cons s sizes ih =>
      cases sizes' with
      | nil => cases hrest
      | cons s' sizes' =>
          rw [List.flatMap_cons, List.flatMap_cons, List.cons_append, List.cons_append] at hrest
          obtain ⟨hs, htail⟩ := varint_append_inj (List.cons.inj hrest).2
          rw [hs, ih htail]

/-- **Files.**  The bytes of a node determine its links, the size of the file and the sizes of its blocks. -/
theorem fileNode_inj {links links' : List PBLink} {filesize filesize' : ℕ} {sizes sizes' : List ℕ}
    (h : encodePBNode links (unixfsFileData filesize sizes) = encodePBNode links' (unixfsFileData filesize' sizes')) :
    links.map PBLink.written = links'.map PBLink.written ∧ filesize = filesize' ∧ sizes = sizes' :=
  ⟨(encodePBNode_inj h).1, unixfsFileData_inj (encodePBNode_inj h).2⟩

/-- Lone surrogates are written alike. -/
theorem fileNode_surrogates : [PBLink.written ⟨[0xD800], [], 1⟩] = [PBLink.written ⟨[0xDFFF], [], 1⟩] :=
  (fileNode_inj (show encodePBNode [⟨[0xD800], [], 1⟩] (unixfsFileData 1 [1]) =
    encodePBNode [⟨[0xDFFF], [], 1⟩] (unixfsFileData 1 [1]) by decide +kernel)).1

/-! ### The tree of a file -/

/-- The chunks at the leaves, the nodes above them. -/
abbrev Dag : Type := LeafTree Bytes

/-- What a tree is stored as: the bytes below it, its own block, and the size of all blocks below it. -/
structure Stored where
  content : Bytes
  codec : Codec
  block : Bytes
  size : ℕ
deriving DecidableEq

section stored
variable (sha256 : Bytes → Digest)

def Stored.cid (s : Stored) : JsString := cidFromDigest s.codec (sha256 s.block)

def Stored.link (s : Stored) : PBLink := ⟨[], identifierBytes s.codec (sha256 s.block), s.size⟩

def storedLeaf (chunk : Bytes) : Stored := ⟨chunk, .raw, chunk, chunk.length⟩

/-- A node: it links its children, and records the number of bytes below it and below each child. -/
def storedNode (children : List Stored) : Stored :=
  let content := children.flatMap Stored.content
  let block := encodePBNode (children.map (Stored.link sha256))
    (unixfsFileData content.length (children.map fun s => s.content.length))
  ⟨content, .dagPb, block, block.length + (children.map Stored.size).sum⟩

def stored (d : Dag) : Stored := d.fold storedLeaf (storedNode sha256)

/-- The tree that the loops build: chunks of `chunkSize` bytes, and nodes of at most `maxLinks` links. -/
def layout (chunkSize maxLinks : ℕ) (bytes : Bytes) : Option Dag :=
  (fileChunks chunkSize bytes).bind fun chunks => LeafTree.grow maxLinks chunks.length (chunks.map LeafTree.leaf)

/-- Trees that are stored under one identifier are stored as the same block. -/
def NoCollision (ds : List Dag) : Prop :=
  ∀ d ∈ ds, ∀ d' ∈ ds, (stored sha256 d).codec = (stored sha256 d').codec →
    sha256 (stored sha256 d).block = sha256 (stored sha256 d').block →
      (stored sha256 d).block = (stored sha256 d').block

/-- The blocks after the trees were put, one after the other. -/
def putAll (blocks : Blocks) (ds : List Dag) : Blocks :=
  ds.foldl (fun bs d => bs.set ((stored sha256 d).cid sha256) (stored sha256 d).block) blocks

/-- The entry of a tree in a level. -/
def entryOf (d : Dag) : LevelEntry :=
  ⟨(stored sha256 d).cid sha256, (stored sha256 d).size, (stored sha256 d).content.length⟩

theorem stored_leaf (chunk : Bytes) : stored sha256 (.leaf chunk) = storedLeaf chunk := rfl

theorem stored_node (ds : List Dag) : stored sha256 (.node ds) = storedNode sha256 (ds.map (stored sha256)) :=
  LeafTree.fold_node _ _ ds

theorem content_stored (d : Dag) : (stored sha256 d).content = d.leaves.flatten := by
  induction d using LeafTree.induct with
  | leaf chunk => simp [stored_leaf, storedLeaf, LeafTree.leaves]
  | node ds ih =>
      rw [stored_node, storedNode, LeafTree.leaves_node, List.flatMap_map, ← List.flatMap_id, List.flatMap_assoc]
      exact List.flatMap_congr fun d hd => by rw [ih d hd, List.flatMap_id]

/-! ### Levels -/

theorem cidBytes_cid (s : Stored) : cidBytes (s.cid sha256) = .ok (identifierBytes s.codec (sha256 s.block)) := by
  rw [cidBytes, Stored.cid, cidFromDigest_eq, parseCid_of_decode (base32Decode_encode _)]
  rfl

theorem groupLinks_entries (ds : List Dag) :
    groupLinks (ds.map (entryOf sha256)) = .ok ((ds.map (stored sha256)).map (Stored.link sha256)) := by
  induction ds with
  | nil => rfl
  | cons d ds ih =>
      rw [List.map_cons, groupLinks]
      simp only [entryOf, cidBytes_cid]
      rw [ih]
      rfl

theorem leafLevel_eq (chunks : List Bytes) (blocks : Blocks) :
    leafLevel sha256 chunks blocks =
      ((chunks.map LeafTree.leaf).map (entryOf sha256), putAll sha256 blocks (chunks.map LeafTree.leaf)) := by
  induction chunks generalizing blocks with
  | nil => rfl
  | cons chunk chunks ih =>
      rw [leafLevel, ih]
      rfl

/-- The nodes of a layer: the slices of more than one tree. -/
def newNodes (gs : List (List Dag)) : List Dag := (gs.filter fun g => 2 ≤ g.length).map LeafTree.join

theorem groupEntry_of_two {blocks : Blocks} {l : List LevelEntry} (hl : 2 ≤ l.length) {links : List PBLink}
    (h : groupLinks l = .ok links) :
    groupEntry sha256 blocks l =
      let node := encodePBNode links (unixfsFileData (l.map LevelEntry.filesize).sum (l.map LevelEntry.filesize))
      .ok (⟨cidFromDigest .dagPb (sha256 node), node.length + (l.map LevelEntry.tsize).sum,
        (l.map LevelEntry.filesize).sum⟩, blocks.set (cidFromDigest .dagPb (sha256 node)) node) := by
  rcases l with _ | ⟨e, _ | ⟨e', l⟩⟩
  · cases hl
  · exact absurd hl (by simp)
  · rw [groupEntry, h]
    · rfl
    · exact fun _ he => by cases he

/-- A group of entries becomes the entry of the joined trees. -/
theorem groupEntry_eq {g : List Dag} (hg : g ≠ []) (blocks : Blocks) :
    groupEntry sha256 blocks (g.map (entryOf sha256)) =
      .ok (entryOf sha256 (LeafTree.join g), putAll sha256 blocks (newNodes [g])) := by
  rcases g with _ | ⟨d, _ | ⟨d', g⟩⟩
  · exact absurd rfl hg
  · rfl
  · have hnew : newNodes [d :: d' :: g] = [.node (d :: d' :: g)] := by simp [newNodes, LeafTree.join]
    have hsum : (((d :: d' :: g).map (entryOf sha256)).map LevelEntry.filesize).sum =
        (((d :: d' :: g).map (stored sha256)).flatMap Stored.content).length := by
      rw [List.map_map, List.length_flatMap, List.map_map]
      rfl
    have hjoin : stored sha256 (LeafTree.join (d :: d' :: g)) =
        storedNode sha256 ((d :: d' :: g).map (stored sha256)) := stored_node sha256 _
    have hnode : LeafTree.join (d :: d' :: g) = .node (d :: d' :: g) := rfl
    have hsizes : ((d :: d' :: g).map (entryOf sha256)).map LevelEntry.filesize =
        ((d :: d' :: g).map (stored sha256)).map fun s => s.content.length := by
      rw [List.map_map, List.map_map]
      rfl
    have htsizes : ((d :: d' :: g).map (entryOf sha256)).map LevelEntry.tsize =
        ((d :: d' :: g).map (stored sha256)).map Stored.size := by
      rw [List.map_map, List.map_map]
      rfl
    rw [groupEntry_of_two sha256 (by simp) (groupLinks_entries sha256 (d :: d' :: g)), hsum, hsizes, htsizes, hnew,
      entryOf, putAll, List.foldl_cons, List.foldl_nil, ← hnode, hjoin]
    rfl

theorem putAll_append (blocks : Blocks) (ds ds' : List Dag) :
    putAll sha256 blocks (ds ++ ds') = putAll sha256 (putAll sha256 blocks ds) ds' := List.foldl_append

theorem nextLevel_eq {gs : List (List Dag)} (hgs : ∀ g ∈ gs, g ≠ []) (blocks : Blocks) :
    nextLevel sha256 (gs.map (List.map (entryOf sha256))) blocks =
      .ok ((gs.map LeafTree.join).map (entryOf sha256), putAll sha256 blocks (newNodes gs)) := by
  induction gs generalizing blocks with
  | nil => rfl
  | cons g gs ih =>
      have hnew : newNodes (g :: gs) = newNodes [g] ++ newNodes gs := by
        rw [newNodes, newNodes, newNodes, ← List.map_append, ← List.filter_append, List.singleton_append]
      rw [List.map_cons, nextLevel, groupEntry_eq sha256 (hgs g List.mem_cons_self)]
      simp only
      rw [ih fun g' hg' => hgs g' (List.mem_cons_of_mem _ hg'), hnew, putAll_append]
      rfl

theorem mem_subtrees_join {g : List Dag} (hg : g ≠ []) {d : Dag} :
    d ∈ (LeafTree.join g).subtrees ↔ d ∈ newNodes [g] ∨ d ∈ g.flatMap LeafTree.subtrees := by
  rcases g with _ | ⟨t, _ | ⟨t', g⟩⟩
  · exact absurd rfl hg
  · simp [newNodes, LeafTree.join]
  · rw [LeafTree.join_of_two (by simp), LeafTree.subtrees_node, List.mem_cons]
    simp [newNodes, LeafTree.join]

theorem mem_subtrees_layer {gs : List (List Dag)} (hgs : ∀ g ∈ gs, g ≠ []) {d : Dag} :
    d ∈ (gs.map LeafTree.join).flatMap LeafTree.subtrees ↔
      d ∈ newNodes gs ∨ d ∈ gs.flatten.flatMap LeafTree.subtrees := by
  induction gs with
  | nil => simp [newNodes]
  | cons g gs ih =>
      have hnew : newNodes (g :: gs) = newNodes [g] ++ newNodes gs := by
        rw [newNodes, newNodes, newNodes, ← List.map_append, ← List.filter_append, List.singleton_append]
      rw [List.map_cons, List.flatMap_cons, List.mem_append, mem_subtrees_join (hgs g List.mem_cons_self),
        ih fun g' hg' => hgs g' (List.mem_cons_of_mem _ hg'), hnew, List.flatten_cons, List.flatMap_append,
        List.mem_append, List.mem_append]
      tauto

variable {maxLinks : ℕ}

/-- **The level loop** leaves the entry of the tree that grows, and has put all its nodes. -/
theorem levelLoop_eq {fuel : ℕ} (hm : 1 ≤ maxLinks) {ds : List Dag} {root : Dag}
    (h : LeafTree.grow maxLinks fuel ds = some root) (blocks : Blocks) :
    ∃ order, levelLoop sha256 maxLinks fuel (ds.map (entryOf sha256)) blocks =
        .ok ([entryOf sha256 root], putAll sha256 blocks order) ∧
      ∀ d, d ∈ root.subtrees ↔ d ∈ order ∨ d ∈ ds.flatMap LeafTree.subtrees := by
  have hone : ∀ (ds : List Dag) (blocks : Blocks), ¬ 1 < ds.length → ds.head? = some root →
      (ds.map (entryOf sha256), blocks) = ([entryOf sha256 root], putAll sha256 blocks []) ∧
        ∀ d, d ∈ root.subtrees ↔ d ∈ ([] : List Dag) ∨ d ∈ ds.flatMap LeafTree.subtrees := by
    intro ds blocks hlen hhead
    rcases ds with _ | ⟨t, _ | ⟨t', ds⟩⟩
    · cases hhead
    · obtain rfl := Option.some.inj hhead
      exact ⟨rfl, fun d => by simp⟩
    · exact absurd hlen (by simp)
  induction fuel generalizing ds blocks with
  | zero =>
      rw [LeafTree.grow] at h
      split_ifs at h with hlen
      obtain ⟨heq, hmem⟩ := hone ds blocks hlen h
      refine ⟨[], ?_, hmem⟩
      rw [levelLoop, List.length_map, if_neg hlen, heq]
  | succ fuel ih =>
      rw [LeafTree.grow] at h
      split_ifs at h with hlen
      · obtain ⟨gs, hgs, hgrow⟩ := Option.bind_eq_some_iff.mp h
        have hne : ∀ g ∈ gs, g ≠ [] := fun g hg => (mem_slices hm hgs g hg).1
        obtain ⟨order, hloop, hmem⟩ := ih hgrow (putAll sha256 blocks (newNodes gs))
        refine ⟨newNodes gs ++ order, ?_, fun d => ?_⟩
        · rw [levelLoop, List.length_map, if_pos hlen, slices_map (entryOf sha256) hgs]
          simp only
          rw [nextLevel_eq sha256 hne, putAll_append]
          exact hloop
        · rw [hmem, mem_subtrees_layer hne, flatten_slices hgs, List.mem_append]
          tauto
      · obtain ⟨heq, hmem⟩ := hone ds blocks hlen h
        refine ⟨[], ?_, hmem⟩
        rw [levelLoop, List.length_map, if_neg hlen, heq]

theorem levelLoop_mono {fuel fuel' : ℕ} (hle : fuel ≤ fuel') {level : List LevelEntry} {blocks : Blocks}
    {r : List LevelEntry × Blocks} (h : levelLoop sha256 maxLinks fuel level blocks = .ok r) :
    levelLoop sha256 maxLinks fuel' level blocks = .ok r := by
  induction fuel generalizing fuel' level blocks with
  | zero =>
      rw [levelLoop] at h
      split_ifs at h with hlen
      cases fuel' with
      | zero => rw [levelLoop, if_neg hlen, h]
      | succ fuel' => rw [levelLoop, if_neg hlen, h]
  | succ fuel ih =>
      obtain ⟨fuel', rfl⟩ : ∃ k, fuel' = k + 1 := ⟨fuel' - 1, by omega⟩
      rw [levelLoop] at h ⊢
      split_ifs at h ⊢ with hlen
      · cases hgroups : slices maxLinks level.length level with
        | none =>
            rw [hgroups] at h
            cases h
        | some groups =>
            simp only [hgroups] at h ⊢
            cases hnext : nextLevel sha256 groups blocks with
            | error e =>
                rw [hnext] at h
                cases h
            | ok next =>
                simp only [hnext] at h ⊢
                exact ih (Nat.le_of_succ_le_succ hle) h
      · exact h

/-! ### Files -/

variable {chunkSize : ℕ}

variable {sha256} in
theorem fileChunks_spec (hc : 1 ≤ chunkSize) (bytes : Bytes) :
    ∃ chunks, fileChunks chunkSize bytes = some chunks ∧ chunks.flatten = bytes ∧
      chunks.length = (bytes.length - 1) / chunkSize + 1 := by
  unfold fileChunks
  split_ifs with hlen
  · exact ⟨[bytes], rfl, by simp, by simp [hlen]⟩
  · obtain ⟨chunks, hchunks⟩ := exists_slices hc (le_refl bytes.length)
    refine ⟨chunks, hchunks, flatten_slices hchunks, length_slices hc hchunks ?_⟩
    rintro rfl
    exact hlen rfl

/-- **The build**: the loops end, and put exactly the trees of the layout. -/
theorem buildUnixfsFile_eq (hc : 1 ≤ chunkSize) (hm : 2 ≤ maxLinks) (bytes : Bytes) (blocks : Blocks) :
    ∃ root order, layout chunkSize maxLinks bytes = some root ∧ (∀ d, d ∈ root.subtrees ↔ d ∈ order) ∧
      ∀ fuel, bytes.length < fuel → buildUnixfsFile sha256 fuel chunkSize maxLinks bytes blocks =
        .ok ⟨(stored sha256 root).cid sha256, (stored sha256 root).size, putAll sha256 blocks order⟩ := by
  obtain ⟨chunks, hchunks, -, hlength⟩ := fileChunks_spec hc bytes
  have hle : chunks.length ≤ bytes.length + 1 := by
    have := Nat.div_le_self (bytes.length - 1) chunkSize
    omega
  have hpos : 1 ≤ (chunks.map LeafTree.leaf).length := by
    rw [List.length_map, hlength]
    exact Nat.le_add_left 1 _
  have henough : (chunks.map LeafTree.leaf).length ≤ chunks.length + 1 := by
    rw [List.length_map]
    exact Nat.le_succ _
  obtain ⟨root, hroot⟩ := LeafTree.exists_grow hm hpos henough
  obtain ⟨order, hloop, hmem⟩ := levelLoop_eq sha256 (by omega) hroot (putAll sha256 blocks (chunks.map LeafTree.leaf))
  refine ⟨root, chunks.map LeafTree.leaf ++ order, ?_, fun d => ?_, fun fuel hfuel => ?_⟩
  · rw [layout, hchunks]
    exact hroot
  · rw [hmem, List.mem_append, or_comm]
    have hleaf : d ∈ (chunks.map LeafTree.leaf).flatMap LeafTree.subtrees ↔ d ∈ chunks.map LeafTree.leaf := by
      simp [LeafTree.subtrees, eq_comm]
    rw [hleaf]
  · rw [buildUnixfsFile, hchunks]
    simp only [leafLevel_eq]
    rw [levelLoop_mono sha256 (show chunks.length ≤ fuel by omega) hloop, putAll_append]
    rfl

theorem cidFromDigest_inj {codec codec' : Codec} {digest digest' : Digest}
    (h : cidFromDigest codec digest = cidFromDigest codec' digest') : codec = codec' ∧ digest = digest' := by
  have hparse := congrArg parseCid h
  rw [cidFromDigest_eq, cidFromDigest_eq, parseCid_of_decode (base32Decode_encode _),
    parseCid_of_decode (base32Decode_encode _)] at hparse
  have hsame := Except.ok.inj hparse
  exact ⟨congrArg ParsedCid.codec hsame, congrArg ParsedCid.digest hsame⟩

/-- What is put is found, where no two trees collide. -/
theorem get?_putAll {ds : List Dag} (h : NoCollision sha256 ds) (blocks : Blocks) {d : Dag} (hd : d ∈ ds) :
    (putAll sha256 blocks ds).get? ((stored sha256 d).cid sha256) = some (stored sha256 d).block := by
  induction ds using List.reverseRecOn with
  | nil => cases hd
  | append_singleton front last ih =>
      rw [putAll_append, putAll, List.foldl_cons, List.foldl_nil, JsMap.get?_set]
      have hlast := List.mem_append_right front (List.mem_singleton_self last)
      split_ifs with hcid
      · obtain ⟨hcodec, hdigest⟩ := cidFromDigest_inj hcid
        rw [h d hd last hlast hcodec hdigest]
      · rcases List.mem_append.mp hd with hfront | hsame
        · exact ih (fun a ha b hb => h a (List.mem_append_left _ ha) b (List.mem_append_left _ hb)) hfront
        · rw [List.mem_singleton.mp hsame] at hcid
          exact absurd rfl hcid

/-- The serialised size of a tree with everything below it. -/
def cumulativeSize (d : Dag) : ℕ := (d.subtrees.map fun s => (stored sha256 s).block.length).sum

theorem size_stored (d : Dag) : (stored sha256 d).size = cumulativeSize sha256 d := by
  induction d using LeafTree.induct with
  | leaf chunk => simp [stored_leaf, storedLeaf, cumulativeSize, LeafTree.subtrees]
  | node ds ih =>
      have hsum : ((ds.map (stored sha256)).map Stored.size).sum =
          ((ds.flatMap LeafTree.subtrees).map fun s => (stored sha256 s).block.length).sum := by
        rw [List.map_flatMap, List.flatMap_def, List.sum_flatten, List.map_map, List.map_map]
        exact congrArg List.sum (List.map_congr_left fun d hd => ih d hd)
      rw [cumulativeSize, LeafTree.subtrees_node, List.map_cons, List.sum_cons, ← hsum, stored_node]
      rfl

/-- The number of bytes in the leaves of a tree. -/
def contentLength (d : Dag) : ℕ := d.leaves.flatten.length

/-- The link to a child: its identifier, and the size of all blocks from there on. -/
def childLink (c : Dag) : PBLink :=
  ⟨[], identifierBytes (stored sha256 c).codec (sha256 (stored sha256 c).block), cumulativeSize sha256 c⟩

/-- The tree `root` is a faithful image of `bytes`, and `file` holds it. -/
structure Faithful (maxLinks : ℕ) (bytes : Bytes) (root : Dag) (file : BuiltFile) : Prop where
  content : root.leaves.flatten = bytes
  links : ∀ children, .node children ∈ root.subtrees → 2 ≤ children.length ∧ children.length ≤ maxLinks
  cid : file.cid = (stored sha256 root).cid sha256
  size : file.size = cumulativeSize sha256 root
  held : ∀ d ∈ root.subtrees, file.blocks.get? ((stored sha256 d).cid sha256) = some (stored sha256 d).block
  leaf : ∀ chunk, .leaf chunk ∈ root.subtrees →
    (stored sha256 (.leaf chunk)).codec = .raw ∧ (stored sha256 (.leaf chunk)).block = chunk
  node : ∀ children, .node children ∈ root.subtrees →
    (stored sha256 (.node children)).codec = .dagPb ∧
      (stored sha256 (.node children)).block = encodePBNode (children.map (childLink sha256))
        (unixfsFileData (contentLength (.node children)) (children.map contentLength))
  /-- Links and sizes whose encoding is the block of a node are those of the node. -/
  recorded : ∀ children, .node children ∈ root.subtrees → ∀ links filesize blocksizes,
    (stored sha256 (.node children)).block = encodePBNode links (unixfsFileData filesize blocksizes) →
      links.map PBLink.written = children.map (fun c => (childLink sha256 c).written) ∧
        filesize = contentLength (.node children) ∧ blocksizes = children.map contentLength

theorem stored_node_block (children : List Dag) :
    (stored sha256 (.node children)).codec = .dagPb ∧
      (stored sha256 (.node children)).block = encodePBNode (children.map (childLink sha256))
        (unixfsFileData (contentLength (.node children)) (children.map contentLength)) := by
  have hcontent : contentLength (.node children) =
      ((children.map (stored sha256)).flatMap Stored.content).length := by
    rw [contentLength, ← content_stored sha256, stored_node]
    rfl
  have hsizes : children.map contentLength = (children.map (stored sha256)).map fun s => s.content.length := by
    rw [List.map_map]
    exact List.map_congr_left fun c _ => congrArg List.length (content_stored sha256 c).symm
  have hlinks : (children.map (stored sha256)).map (Stored.link sha256) = children.map (childLink sha256) := by
    rw [List.map_map]
    exact List.map_congr_left fun c _ => by rw [childLink, ← size_stored]; rfl
  rw [hcontent, hsizes, ← hlinks, stored_node]
  exact ⟨rfl, rfl⟩

/-- **The file of a byte array** is built in at most one level for each byte and one more, and it is faithful if no two
of its blocks collide. -/
theorem unixfs_file_faithful (chunkSize maxLinks : ℕ) (hc : 1 ≤ chunkSize) (hm : 2 ≤ maxLinks) (bytes : Bytes)
    (blocks : Blocks) :
    ∃ root file, layout chunkSize maxLinks bytes = some root ∧
      (∀ fuel, bytes.length < fuel → buildUnixfsFile sha256 fuel chunkSize maxLinks bytes blocks = .ok file) ∧
      (NoCollision sha256 root.subtrees → Faithful sha256 maxLinks bytes root file) := by
  obtain ⟨root, order, hlayout, hmem, hbuild⟩ := buildUnixfsFile_eq sha256 hc hm bytes blocks
  obtain ⟨chunks, hchunks, hflatten, -⟩ := fileChunks_spec hc bytes
  have hgrow : LeafTree.grow maxLinks chunks.length (chunks.map LeafTree.leaf) = some root := by
    rw [layout, hchunks] at hlayout
    exact hlayout
  obtain ⟨hleaves, -, harity⟩ := LeafTree.grow_spec hm hgrow
  refine ⟨root, _, hlayout, hbuild, fun hcoll => ?_⟩
  exact
    { content := by
        rw [hleaves, List.flatMap_map]
        simp only [LeafTree.leaves, LeafTree.fold_leaf, List.flatMap_singleton']
        exact hflatten
      links := harity fun s hs children hc => by
        obtain ⟨chunk, -, rfl⟩ := List.mem_map.mp hs
        cases List.mem_singleton.mp hc
      cid := rfl
      size := size_stored sha256 root
      held := fun d hd => get?_putAll sha256
        (fun a ha b hb => hcoll a ((hmem a).mpr ha) b ((hmem b).mpr hb)) blocks ((hmem d).mp hd)
      leaf := fun chunk _ => ⟨rfl, rfl⟩
      node := fun children _ => stored_node_block sha256 children
      recorded := fun children _ links filesize blocksizes hblock => by
        rw [(stored_node_block sha256 children).2] at hblock
        obtain ⟨hlinks, hdata⟩ := encodePBNode_inj hblock
        obtain ⟨hsize, hsizes⟩ := unixfsFileData_inj hdata
        rw [List.map_map] at hlinks
        exact ⟨hlinks.symm, hsize.symm, hsizes.symm⟩ }

variable {sha256} in
/-- All leaves are at one depth exactly when the number of chunks less one has no digit zero. -/
theorem uniform_layout_iff (hc : 1 ≤ chunkSize) (hm : 2 ≤ maxLinks) {bytes : Bytes}
    {root : Dag} (h : layout chunkSize maxLinks bytes = some root) :
    (∃ depth, root.Uniform depth) ↔ 0 ∉ Nat.digits maxLinks ((bytes.length - 1) / chunkSize) := by
  obtain ⟨chunks, hchunks, -, hlength⟩ := fileChunks_spec hc bytes
  rw [layout, hchunks] at h
  have hleaf : ∀ s ∈ chunks.map LeafTree.leaf, s.Uniform 0 ∧ s.Arity maxLinks := by
    intro s hs
    obtain ⟨chunk, -, rfl⟩ := List.mem_map.mp hs
    exact ⟨LeafTree.uniform_leaf chunk, fun children hc => by cases List.mem_singleton.mp hc⟩
  rw [LeafTree.uniform_grow_iff hm h (fun s hs => (hleaf s hs).1) fun s hs => (hleaf s hs).2, List.length_map, hlength,
    Nat.add_sub_cancel]

/-- **The layout is balanced** if and only if the number of chunks less one, `⌊(length - 1) / chunkSize⌋`, has no digit
zero in base `maxLinks`. -/
theorem unixfs_balanced_iff (chunkSize maxLinks : ℕ) (hc : 1 ≤ chunkSize) (hm : 2 ≤ maxLinks) (bytes : Bytes)
    (blocks : Blocks) :
    ∃ root file, layout chunkSize maxLinks bytes = some root ∧
      (∀ fuel, bytes.length < fuel → buildUnixfsFile sha256 fuel chunkSize maxLinks bytes blocks = .ok file) ∧
      file.cid = (stored sha256 root).cid sha256 ∧
      (NoCollision sha256 root.subtrees →
        ∀ d ∈ root.subtrees, file.blocks.get? ((stored sha256 d).cid sha256) = some (stored sha256 d).block) ∧
      ((∃ depth, root.Uniform depth) ↔ 0 ∉ Nat.digits maxLinks ((bytes.length - 1) / chunkSize)) := by
  obtain ⟨root, order, hlayout, hmem, hbuild⟩ := buildUnixfsFile_eq sha256 hc hm bytes blocks
  exact ⟨root, _, hlayout, hbuild, rfl, fun hcoll d hd => get?_putAll sha256
    (fun a ha b hb => hcoll a ((hmem a).mpr ha) b ((hmem b).mpr hb)) blocks ((hmem d).mp hd),
    uniform_layout_iff hc hm hlayout⟩

end stored

/-! ### A file of three chunks -/

/-- The length and the sum of the bytes. -/
def toyHash (bytes : Bytes) : Digest := ⟨Fin.ofNat _ bytes.length :: bytes.sum :: List.replicate 30 0, rfl⟩

def threeChunks : Dag := .node [.node [.leaf [1], .leaf [2]], .leaf [3]]

theorem unixfs_file_three : ∃ file,
    (∀ fuel, 3 < fuel → buildUnixfsFile toyHash fuel 1 2 [1, 2, 3] JsMap.empty = .ok file) ∧
    Faithful toyHash 2 [1, 2, 3] threeChunks file := by
  obtain ⟨root, file, hlayout, hbuild, hfaithful⟩ :=
    unixfs_file_faithful toyHash 1 2 (by decide) (by decide) [1, 2, 3] JsMap.empty
  have hroot : layout 1 2 [1, 2, 3] = some threeChunks := rfl
  obtain rfl := Option.some.inj (hroot.symm.trans hlayout)
  have hcoll : NoCollision toyHash threeChunks.subtrees := by
    unfold NoCollision
    decide +kernel
  exact ⟨file, hbuild, hfaithful hcoll⟩

theorem unixfs_balanced_three : ∃ root file, layout 1 2 [1, 2, 3] = some root ∧
    (∀ fuel, 3 < fuel → buildUnixfsFile toyHash fuel 1 2 [1, 2, 3] JsMap.empty = .ok file) ∧
    ((∃ depth, root.Uniform depth) ↔ 0 ∉ Nat.digits 2 2) := by
  obtain ⟨root, file, hlayout, hbuild, -, -, hiff⟩ :=
    unixfs_balanced_iff toyHash 1 2 (by decide) (by decide) [1, 2, 3] JsMap.empty
  exact ⟨root, file, hlayout, hbuild, hiff⟩

/-- A file of 174 chunks and a byte, with the chunks and the links of the defaults: the last leaf is a child of the
root, and the others are not. -/
theorem default_layout_unbalanced : ∃ root file, layout 262144 174 (List.replicate (174 * 262144 + 1) 0) = some root ∧
    (∀ fuel, 174 * 262144 + 1 < fuel →
      buildUnixfsFile toyHash fuel 262144 174 (List.replicate (174 * 262144 + 1) 0) JsMap.empty = .ok file) ∧
    file.cid = (stored toyHash root).cid toyHash ∧ ¬ ∃ depth, root.Uniform depth := by
  obtain ⟨root, order, hlayout, -, hbuild⟩ := buildUnixfsFile_eq toyHash (show 1 ≤ 262144 by decide)
    (show 2 ≤ 174 by decide) (List.replicate (174 * 262144 + 1) 0) JsMap.empty
  rw [List.length_replicate] at hbuild
  refine ⟨root, _, hlayout, hbuild, rfl, ?_⟩
  rw [uniform_layout_iff (by decide) (by decide) hlayout, List.length_replicate, not_not]
  norm_num

end BrowserMesh.Sync
