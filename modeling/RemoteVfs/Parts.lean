import Mathlib.Data.List.Perm.Subperm
import RemoteVfs.Session.Commit
import RemoteVfs.Pages.Calls
import RemoteVfs.Wire.Encoding

namespace RemoteVfs

open Base

def COMMIT_ID_BYTES : Nat := 16

namespace Pb

theorem Block.length_encode_le {block : Block} {size : Nat} (hindex : block.index < 2 ^ 32)
    (hdata : block.data.length = size) (hsize : size ≤ MAX_PAGE_SIZE) :
    block.encode.length ≤ size + 10 := by
  unfold MAX_PAGE_SIZE at hsize
  have hnumber : (Field.uint 1 block.index).length ≤ 4 + 2 :=
    Field.length_uint_le (by omega) (lt_of_lt_of_le hindex (by decide))
  have hbytes : (Field.bytes 2 block.data).length ≤ 2 + 2 + block.data.length :=
    Field.length_bytes_le (by omega) (by norm_num; omega)
  rw [encode, List.length_append]
  omega

-- What one block adds to a frame.
theorem Block.length_message_le {block : Block} {size : Nat} (hindex : block.index < 2 ^ 32)
    (hdata : block.data.length = size) (hsize : size ≤ MAX_PAGE_SIZE) :
    (Field.message 6 block.encode).length ≤ size + COMMIT_BLOCK_OVERHEAD := by
  have hencode := block.length_encode_le hindex hdata hsize
  unfold MAX_PAGE_SIZE at hsize
  have hmessage : (Field.message 6 block.encode).length ≤ 2 + 2 + block.encode.length :=
    Field.length_message_le (by omega) (by norm_num; omega)
  unfold COMMIT_BLOCK_OVERHEAD
  omega

theorem length_blocks_le {blocks : List Block} {size : Nat}
    (hblocks : ∀ block ∈ blocks, block.index < 2 ^ 32 ∧ block.data.length = size)
    (hsize : size ≤ MAX_PAGE_SIZE) :
    (blocks.flatMap fun block => Field.message 6 block.encode).length ≤
      blocks.length * (size + COMMIT_BLOCK_OVERHEAD) := by
  induction blocks with
  | nil => simp
  | cons block rest ih =>
      have hrest := ih fun other hother => hblocks other (List.mem_cons_of_mem _ hother)
      obtain ⟨hindex, hdata⟩ := hblocks block List.mem_cons_self
      have hblock := block.length_message_le hindex hdata hsize
      rw [List.flatMap_cons, List.length_append, List.length_cons, Nat.succ_mul]
      omega

-- What a part needs besides its blocks: 185 bytes, and 22 more for the frame around it.
theorem Commit.length_frame_le {commit : Commit} {size requestId : Nat}
    (hname : commit.dbId.utf8ByteSize ≤ 128) (hid : commit.commitId.length = COMMIT_ID_BYTES)
    (hepoch : commit.leaseEpoch < 2 ^ 64) (hversion : commit.baseVersion < 2 ^ 64)
    (hcount : commit.pageCount < 2 ^ 32) (hpart : commit.part < 2 ^ 32) (hrequest : requestId < 2 ^ 64)
    (hblocks : ∀ block ∈ commit.blocks, block.index < 2 ^ 32 ∧ block.data.length = size)
    (hsize : size ≤ MAX_PAGE_SIZE) (hlength : commit.blocks.length < 2 ^ 32) :
    (commit.frame requestId).length ≤
      COMMIT_FRAME_OVERHEAD + commit.blocks.length * (size + COMMIT_BLOCK_OVERHEAD) := by
  have hall := length_blocks_le hblocks hsize
  have hmany : commit.blocks.length * (size + COMMIT_BLOCK_OVERHEAD) ≤ 2 ^ 32 * 65552 :=
    Nat.mul_le_mul (Nat.le_of_lt hlength) (by unfold MAX_PAGE_SIZE COMMIT_BLOCK_OVERHEAD at *; omega)
  unfold COMMIT_ID_BYTES at hid
  have hutf8 : (text commit.dbId).length ≤ 128 := hname
  have h1 : (Field.bytes 1 (text commit.dbId)).length ≤ 1 + 2 + _ :=
    Field.length_bytes_le (by omega) (lt_of_le_of_lt hutf8 (by decide))
  have h2 : (Field.bytes 2 commit.commitId).length ≤ 0 + 2 + _ :=
    Field.length_bytes_le (by omega) (by rw [hid]; decide)
  have h3 : (Field.uint 3 commit.leaseEpoch).length ≤ 9 + 2 :=
    Field.length_uint_le (by omega) (lt_of_lt_of_le hepoch (by decide))
  have h4 : (Field.uint 4 commit.baseVersion).length ≤ 9 + 2 :=
    Field.length_uint_le (by omega) (lt_of_lt_of_le hversion (by decide))
  have h5 : (Field.uint 5 commit.pageCount).length ≤ 4 + 2 :=
    Field.length_uint_le (by omega) (lt_of_lt_of_le hcount (by decide))
  have h7 : (Field.bool 7 commit.more).length ≤ 0 + 2 :=
    Field.length_uint_le (by omega) (lt_of_le_of_lt (Bool.toNat_le _) (by decide))
  have h8 : (Field.uint 8 commit.part).length ≤ 4 + 2 :=
    Field.length_uint_le (by omega) (lt_of_lt_of_le hpart (by decide))
  have hrequest : (Field.uint 1 requestId).length ≤ 9 + 2 :=
    Field.length_uint_le (by omega) (lt_of_lt_of_le hrequest (by decide))
  have hencode : commit.encode.length ≤ 185 + commit.blocks.length * (size + COMMIT_BLOCK_OVERHEAD) := by
    unfold encode
    simp only [List.length_append]
    omega
  have hmessage : (Field.message 13 commit.encode).length ≤ 9 + 2 + commit.encode.length :=
    Field.length_message_le (by omega) (lt_of_le_of_lt hencode (by omega))
  have hframe : commit.frame requestId = Field.uint 1 requestId ++ Field.message 13 commit.encode := rfl
  rw [hframe, List.length_append]
  unfold COMMIT_FRAME_OVERHEAD
  omega

end Pb

theorem length_chunks_le {α : Type} {size : Nat} (hsize : 0 < size) (list : List α) :
    (chunks size list).length ≤ list.length := by
  rw [chunks, List.length_map, List.length_range, divCeil]
  cases hlist : list.length with
  | zero =>
      rw [Nat.zero_add, Nat.div_eq_of_lt (by omega)]
  | succ n =>
      apply Nat.div_le_of_le_mul
      have := Nat.mul_le_mul_right n hsize
      rw [Nat.mul_succ]
      omega

theorem mem_chunks {α : Type} {size : Nat} {list piece : List α} (h : piece ∈ chunks size list) :
    piece.length ≤ size ∧ piece.Sublist list := by
  obtain ⟨k, -, rfl⟩ := List.mem_map.mp h
  refine ⟨List.length_take_le _ _, ?_⟩
  exact (List.take_sublist _ _).trans (List.drop_sublist _ _)

-- A dirty set as the pages keep it.
structure Pages.Modified (pages : Pages) : Prop where
  size : validPageSize pages.pageSize = true
  count : pages.pageCount < 2 ^ 32
  dirty : ∀ i ∈ pages.dirty, i < pages.pageCount ∧ ∃ data, pages.block i = some data ∧
    data.length = pages.pageSize

namespace Remote

variable {remote : Remote} {pages : Pages} {commitId : Bytes} {maxFrameBytes : Nat}

-- The blocks of the parts, before they are numbered.
theorem mem_pieces {size : Nat} {blocks piece : List Pb.Block}
    (h : piece ∈ if blocks.isEmpty then [[]] else chunks size blocks) :
    piece.length ≤ size ∧ piece.Sublist blocks := by
  split_ifs at h
  · rw [List.mem_singleton.mp h]
    exact ⟨Nat.zero_le _, List.nil_sublist _⟩
  · exact mem_chunks h

theorem length_pieces {size : Nat} (hsize : 0 < size) (blocks : List Pb.Block) :
    0 < (if blocks.isEmpty then [[]] else chunks size blocks).length ∧
      (if blocks.isEmpty then [[]] else chunks size blocks).length ≤ max blocks.length 1 := by
  split_ifs with hempty
  · simp
  · have hle := length_chunks_le hsize blocks
    refine ⟨?_, by omega⟩
    by_contra hzero
    have hnil : chunks size blocks = [] := List.eq_nil_of_length_eq_zero (by omega)
    have hflat := flatten_chunks hsize blocks
    rw [hnil, List.flatten_nil] at hflat
    rw [← hflat] at hempty
    exact hempty rfl

theorem mem_parts_blocks {part : Pb.Commit} (h : part ∈ remote.parts pages commitId maxFrameBytes) :
    part.dbId = remote.dbId ∧ part.leaseEpoch = remote.leaseEpoch ∧
      part.blocks.length ≤ perPart pages maxFrameBytes ∧
      part.blocks.Sublist (pages.dirtyBlocks.map fun entry => ⟨entry.1, entry.2⟩) := by
  simp only [parts, List.mem_mapIdx] at h
  obtain ⟨i, hi, rfl⟩ := h
  exact ⟨rfl, rfl, mem_pieces (List.getElem_mem hi)⟩

theorem length_parts : 0 < (remote.parts pages commitId maxFrameBytes).length ∧
    (remote.parts pages commitId maxFrameBytes).length ≤ max pages.dirtyBlocks.length 1 := by
  have hper : 0 < perPart pages maxFrameBytes := by simp [perPart]
  have hlength := length_pieces hper (pages.dirtyBlocks.map fun entry => ⟨entry.1, entry.2⟩)
  rw [List.length_map] at hlength
  simpa only [parts, List.length_mapIdx] using hlength

-- Neighbouring parts fit together.
theorem continues_parts {i : Nat} {previous part : Pb.Commit}
    (hprevious : (remote.parts pages commitId maxFrameBytes)[i]? = some previous)
    (hpart : (remote.parts pages commitId maxFrameBytes)[i + 1]? = some part) :
    Server.continues previous part = true := by
  obtain ⟨hid, hversion, hcount⟩ := mem_parts remote pages commitId maxFrameBytes (List.mem_of_getElem? hprevious)
  obtain ⟨hid', hversion', hcount'⟩ := mem_parts remote pages commitId maxFrameBytes (List.mem_of_getElem? hpart)
  obtain ⟨-, hepoch, -⟩ := mem_parts_blocks (List.mem_of_getElem? hprevious)
  obtain ⟨-, hepoch', -⟩ := mem_parts_blocks (List.mem_of_getElem? hpart)
  have hmore := (getElem?_parts remote pages commitId maxFrameBytes hprevious).2
  have hlt : i + 1 < (remote.parts pages commitId maxFrameBytes).length :=
    (List.getElem?_eq_some_iff.mp hpart).1
  simp [Server.continues, hid, hid', hversion, hversion', hcount, hcount', hepoch, hepoch', hmore, hlt]

-- The server takes part after part, whatever it had pending.
theorem joined_parts (pending : List Pb.Commit) :
    (remote.parts pages commitId maxFrameBytes).foldlM Server.joined pending =
      some (remote.parts pages commitId maxFrameBytes) := by
  have hpos : 0 < (remote.parts pages commitId maxFrameBytes).length := length_parts.1
  have hnumber := @getElem?_parts remote pages commitId maxFrameBytes
  have hcontinues := @continues_parts remote pages commitId maxFrameBytes
  generalize remote.parts pages commitId maxFrameBytes = all at hpos hnumber hcontinues ⊢
  have htake : ∀ k < all.length, (all.take (k + 1)).foldlM Server.joined pending = some (all.take (k + 1)) := by
    intro k hk
    induction k with
    | zero =>
        have hfirst := (hnumber (List.getElem?_eq_getElem hk)).1
        rw [List.take_succ_eq_append_getElem hk]
        simp [Server.joined, hfirst]
    | succ k ih =>
        have hpart := (hnumber (List.getElem?_eq_getElem hk)).1
        have hlast : (all.take (k + 1)).getLast? = some all[k] := by
          rw [List.take_succ_eq_append_getElem (by omega), List.getLast?_concat]
        have hfits := hcontinues (List.getElem?_eq_getElem (by omega)) (List.getElem?_eq_getElem hk)
        have hlength : (all.take (k + 1)).length = k + 1 := by
          rw [List.length_take]
          omega
        rw [List.take_succ_eq_append_getElem hk, List.foldlM_append, ih (by omega)]
        simp only [Option.bind_eq_bind, Option.bind_some, List.foldlM_cons, List.foldlM_nil]
        rw [Server.joined, if_neg (by omega), hlast]
        dsimp only
        rw [if_pos (by simp [hfits, hpart, hlength])]
        rfl
  have hlast := htake (all.length - 1) (by omega)
  rwa [List.take_of_length_le (by omega)] at hlast

-- As many blocks as fit into a frame, if one does.
theorem perPart_fits (hfits : COMMIT_FRAME_OVERHEAD + pages.pageSize + COMMIT_BLOCK_OVERHEAD ≤ maxFrameBytes) :
    COMMIT_FRAME_OVERHEAD + perPart pages maxFrameBytes * (pages.pageSize + COMMIT_BLOCK_OVERHEAD) ≤
      maxFrameBytes := by
  have hone : 1 ≤ (maxFrameBytes - COMMIT_FRAME_OVERHEAD) / (pages.pageSize + COMMIT_BLOCK_OVERHEAD) := by
    rw [Nat.le_div_iff_mul_le (by unfold COMMIT_BLOCK_OVERHEAD; omega)]
    omega
  have hdiv := Nat.div_mul_le_self (maxFrameBytes - COMMIT_FRAME_OVERHEAD)
    (pages.pageSize + COMMIT_BLOCK_OVERHEAD)
  rw [perPart, Nat.max_eq_left hone]
  omega

end Remote

namespace Pages.Modified

variable {pages : Pages}

theorem indexes (h : Modified pages) : pages.dirtyBlocks.map Prod.fst = pages.dirty.elems := by
  apply map_fst_dirtyBlocks
  intro i hi
  obtain ⟨-, data, hdata, -⟩ := h.dirty i hi
  simp [hdata]

theorem length_dirtyBlocks (h : Modified pages) : pages.dirtyBlocks.length ≤ pages.pageCount := by
  have hnodup : pages.dirty.elems.Nodup := pages.dirty.sorted.imp fun hlt => Nat.ne_of_lt hlt
  have hsubset : pages.dirty.elems ⊆ List.range pages.pageCount :=
    fun i hi => List.mem_range.mpr (h.dirty i hi).1
  have hle := (List.Nodup.subperm hnodup hsubset).length_le
  rwa [← h.indexes, List.length_map, List.length_range] at hle

theorem sized (h : Modified pages) : ∀ block ∈ pages.dirtyBlocks.map fun entry => (⟨entry.1, entry.2⟩ : Pb.Block),
    block.index < 2 ^ 32 ∧ block.data.length = pages.pageSize := by
  intro block hblock
  obtain ⟨entry, hentry, rfl⟩ := List.mem_map.mp hblock
  obtain ⟨index, hdirty, hindex⟩ := List.mem_filterMap.mp hentry
  obtain ⟨found, hdata, rfl⟩ := Option.map_eq_some_iff.mp hindex
  obtain ⟨hlt, data, hheld, hlength⟩ := h.dirty index hdirty
  have hcount := h.count
  rw [hheld] at hdata
  cases hdata
  exact ⟨by dsimp only; omega, hlength⟩

end Pages.Modified

theorem commit_parts_reassemble_and_fit (remote : Remote) (pages : Pages) (commitId : Bytes)
    (maxFrameBytes : Nat) (hpages : pages.Modified) (hid : commitId.length = COMMIT_ID_BYTES)
    (hname : remote.dbId.utf8ByteSize ≤ 128) (hversion : remote.version < 2 ^ 64)
    (hepoch : remote.leaseEpoch < 2 ^ 64) :
    let parts := remote.parts pages commitId maxFrameBytes
    parts.flatMap (·.blocks) = pages.dirtyBlocks.map (fun entry => ⟨entry.1, entry.2⟩) ∧
    (parts.flatMap (·.blocks)).map (·.index) = pages.dirty.elems ∧
    pages.dirty.elems.Pairwise (· < ·) ∧
    0 < parts.length ∧
    (∀ i part, parts[i]? = some part → part.part = i ∧ part.part < 2 ^ 32 ∧
      (part.more = true ↔ i + 1 < parts.length) ∧ part.commitId = commitId ∧
      part.leaseEpoch = remote.leaseEpoch ∧ part.baseVersion = remote.version ∧
      part.pageCount = pages.pageCount) ∧
    (∀ pending, parts.foldlM Server.joined pending = some parts) ∧
    (256 + pages.pageSize + 16 ≤ maxFrameBytes → ∀ requestId < 2 ^ 64, ∀ part ∈ parts,
      (part.frame requestId).length ≤ maxFrameBytes) := by
  intro parts
  have hblocks := Remote.blocks_parts remote pages commitId maxFrameBytes
  have hdirty := hpages.length_dirtyBlocks
  have hcount := hpages.count
  have hlength : parts.length ≤ max pages.dirtyBlocks.length 1 := Remote.length_parts.2
  have hnumber : ∀ i (part : Pb.Commit), parts[i]? = some part → part.part = i ∧ part.part < 2 ^ 32 := by
    intro i part hi
    have hpart := (Remote.getElem?_parts remote pages commitId maxFrameBytes hi).1
    have hlt := (List.getElem?_eq_some_iff.mp hi).1
    exact ⟨hpart, by omega⟩
  refine ⟨hblocks, ?_, pages.dirty.sorted, Remote.length_parts.1, ?_, Remote.joined_parts, ?_⟩
  · rw [hblocks, List.map_map]
    exact hpages.indexes
  · intro i part hi
    obtain ⟨hcommit, hbase, hpageCount⟩ :=
      Remote.mem_parts remote pages commitId maxFrameBytes (List.mem_of_getElem? hi)
    have hshared := Remote.mem_parts_blocks (List.mem_of_getElem? hi)
    have hmore := (Remote.getElem?_parts remote pages commitId maxFrameBytes hi).2
    refine ⟨(hnumber i part hi).1, (hnumber i part hi).2, ?_, hcommit, hshared.2.1, hbase, hpageCount⟩
    rw [hmore, decide_eq_true_eq]
  · intro hfits requestId hrequest part hpart
    obtain ⟨i, hi⟩ := List.getElem?_of_mem hpart
    obtain ⟨hcommit, hbase, hpageCount⟩ := Remote.mem_parts remote pages commitId maxFrameBytes hpart
    obtain ⟨hdb, hlease, hper, hsub⟩ := Remote.mem_parts_blocks hpart
    have hmany := hsub.length_le
    rw [List.length_map] at hmany
    have hsize : pages.pageSize ≤ MAX_PAGE_SIZE := by
      have hvalid := hpages.size
      simp only [validPageSize, Bool.and_eq_true, decide_eq_true_eq] at hvalid
      exact hvalid.1.2
    have hframe := Pb.Commit.length_frame_le (hdb ▸ hname) (hcommit ▸ hid) (hlease ▸ hepoch) (hbase ▸ hversion)
      (hpageCount ▸ hcount) (hnumber i part hi).2 hrequest
      (fun block hblock => hpages.sized block (hsub.subset hblock)) hsize (by omega)
    have hper := Nat.mul_le_mul_right (pages.pageSize + COMMIT_BLOCK_OVERHEAD) hper
    have hfit := Remote.perPart_fits hfits
    omega

section Sample

-- Two modified blocks, one for each part.
def twoModified : Pages := ((Pages.new 512 2 none none).put 0 0 [7]).put 1 0 [8]

theorem twoModified_modified : twoModified.Modified where
  size := by decide
  count := by decide
  dirty i hi := by
    have hcases : i = 1 ∨ i = 0 := by
      simpa [twoModified, Pages.put, Pages.new] using hi
    rcases hcases with rfl | rfl
    · exact ⟨by decide, _, rfl, by decide +kernel⟩
    · exact ⟨by decide, _, rfl, by decide +kernel⟩

def lastVersion : Remote where
  dbId := "app.db"
  subject := ""
  version := 2 ^ 64 - 1
  leaseId := []
  leaseEpoch := 2 ^ 64 - 1
  lastCommitId := []
  pendingCommit := none
  copy := .None
  broken := none
  login := 0

theorem commit_parts_reassemble_and_fit_two :
    (lastVersion.parts twoModified (zeros 16) 800).length = 2 ∧
      ∀ part ∈ lastVersion.parts twoModified (zeros 16) 800, (part.frame (2 ^ 64 - 1)).length ≤ 800 := by
  obtain ⟨-, -, -, -, -, -, hfit⟩ := commit_parts_reassemble_and_fit lastVersion twoModified (zeros 16) 800
    twoModified_modified (by decide) (by decide +kernel) (by decide) (by decide)
  exact ⟨by decide +kernel, hfit (by decide) _ (by decide)⟩

end Sample

end RemoteVfs
