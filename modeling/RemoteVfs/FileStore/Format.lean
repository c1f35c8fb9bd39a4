import RemoteVfs.FileStore.Present

namespace RemoteVfs

open Base

-- The names fit into the header.
def Head.Named (head : Head) : Prop :=
  36 + (text head.subject).length + (text head.dbId).length ≤ HEADER_BYTES

instance (head : Head) : Decidable head.Named := Nat.decLe _ _

-- A head that the header of the file can hold.
structure Head.Fits (head : Head) : Prop where
  names : head.Named
  pageSize : 0 < head.pageSize ∧ head.pageSize ≤ MAX_PAGE_SIZE
  pageCount : head.pageCount ≤ MAX_PAGE_COUNT
  version : head.version < 2 ^ 64

instance (head : Head) : Decidable head.Fits :=
  decidable_of_iff (head.Named ∧ (0 < head.pageSize ∧ head.pageSize ≤ MAX_PAGE_SIZE) ∧
      head.pageCount ≤ MAX_PAGE_COUNT ∧ head.version < 2 ^ 64)
    ⟨fun ⟨a, b, c, d⟩ => ⟨a, b, c, d⟩, fun ⟨a, b, c, d⟩ => ⟨a, b, c, d⟩⟩

namespace FileStore

theorem length_magic : MAGIC.length = 8 := by decide

theorem slice_append {first middle last : Bytes} {start length : Nat} (hstart : first.length = start)
    (hlength : middle.length = length) : slice (first ++ (middle ++ last)) start length = middle := by
  rw [slice, List.drop_left' hstart, List.take_left' hlength]

theorem fromUTF8_text (name : String) : String.fromUTF8? ⟨(text name).toArray⟩ = some name := by
  have hbytes : (⟨(text name).toArray⟩ : ByteArray) = name.toUTF8 := rfl
  rw [hbytes]
  simp [String.fromUTF8?, String.fromUTF8, name.isValidUTF8]

theorem name_append {first last : Bytes} {value : String} {start length : Nat}
    (hstart : first.length = start) (hlength : (text value).length = length) :
    name (first ++ (text value ++ last)) start length = some value := by
  have hbound : start + length ≤ (first ++ (text value ++ last)).length := by
    simp only [List.length_append]
    omega
  rw [name, if_pos hbound, slice_append hstart hlength, fromUTF8_text]

-- The header as the code lays it out.
def layout (head : Head) (state : UInt8) : Bytes :=
  MAGIC ++ ([state, 0, 0, 0] ++ (leBytes 4 head.pageSize ++ (leBytes 8 head.pageCount ++
    (leBytes 8 head.version ++ (leBytes 2 (text head.subject).length ++
      (leBytes 2 (text head.dbId).length ++ (text head.subject ++ (text head.dbId ++
        List.replicate (HEADER_BYTES - (36 + (text head.subject).length + (text head.dbId).length))
          0))))))))

theorem encode_eq {head : Head} {state : UInt8} {bytes : Bytes} (h : encode head state = some bytes) :
    bytes = layout head state ∧ bytes.length = HEADER_BYTES := by
  unfold encode at h
  dsimp only at h
  split_ifs at h with hnames
  obtain rfl := Option.some.inj h
  refine ⟨by simp only [layout, List.append_assoc], ?_⟩
  simp only [List.length_append, length_magic, length_leBytes, List.length_replicate, List.length_cons,
    List.length_nil]
  omega

theorem encode_named {head : Head} (h : head.Named) (state : UInt8) :
    encode head state = some (layout head state) := by
  unfold Head.Named at h
  unfold encode
  dsimp only
  rw [if_pos h]
  simp only [layout, List.append_assoc]

theorem encode_none {head : Head} {state : UInt8} (h : encode head state = none) : ¬head.Named := by
  intro hnamed
  rw [encode_named hnamed] at h
  cases h

theorem named_of_length {head : Head} {state : UInt8}
    (h : (layout head state).length = HEADER_BYTES) : head.Named := by
  simp only [layout, List.length_append, length_magic, length_leBytes, List.length_replicate,
    List.length_cons, List.length_nil] at h
  unfold Head.Named
  omega

theorem text_of_name {bytes : Bytes} {start length : Nat} {value : String}
    (h : name bytes start length = some value) :
    start + length ≤ bytes.length ∧ (text value).length = length := by
  unfold name at h
  split_ifs at h with hbound
  refine ⟨hbound, ?_⟩
  unfold String.fromUTF8? at h
  split_ifs at h with hvalid
  obtain rfl := Option.some.inj h
  change (slice bytes start length).toArray.toList.length = length
  rw [List.toList_toArray, slice, List.length_take, List.length_drop]
  omega

-- What a decoded header consists of.
theorem decode_some {bytes : Bytes} {head : Head} {state : UInt8} (hlength : bytes.length = HEADER_BYTES)
    (h : decode bytes = some (head, state)) : state = bytes.getD 8 0 ∧ head.Fits := by
  unfold decode at h
  dsimp only at h
  split_ifs at h with hmagic hvalid
  cases hsubject : name bytes 36 (ofLeBytes (slice bytes 32 2)) with
  | none => rw [hsubject] at h; cases h
  | some subject =>
      rw [hsubject] at h
      cases hdbId : name bytes (36 + ofLeBytes (slice bytes 32 2)) (ofLeBytes (slice bytes 34 2)) with
      | none => rw [hdbId] at h; cases h
      | some dbId =>
          rw [hdbId] at h
          cases h
          obtain ⟨-, hsubjectLen⟩ := text_of_name hsubject
          obtain ⟨hbound, hdbIdLen⟩ := text_of_name hdbId
          have hversion := ofLeBytes_lt (slice bytes 24 8)
          have height : (slice bytes 24 8).length = 8 := by
            rw [slice, List.length_take, List.length_drop, hlength]
            rfl
          rw [height] at hversion
          refine ⟨rfl, ?_, ⟨?_, ?_⟩, ?_, hversion⟩
          · show 36 + (text subject).length + (text dbId).length ≤ HEADER_BYTES
            omega
          · show 0 < ofLeBytes (slice bytes 12 4)
            omega
          · show ofLeBytes (slice bytes 12 4) ≤ MAX_PAGE_SIZE
            omega
          · show ofLeBytes (slice bytes 16 8) ≤ MAX_PAGE_COUNT
            omega

theorem state_layout (head : Head) (state : UInt8) : (layout head state).getD 8 0 = state := by
  rw [layout, List.getD_append_right _ _ _ _ (by rw [length_magic]), length_magic]
  rfl

theorem pageCount_layout {head : Head} (h : head.pageCount < 2 ^ 64) (state : UInt8) :
    ofLeBytes (slice (layout head state) 16 8) = head.pageCount := by
  rw [layout, ← List.append_assoc, ← List.append_assoc,
    slice_append (by simp [length_magic]) (length_leBytes _ _), ofLeBytes_leBytes h]

theorem pageSize_layout {head : Head} (h : head.pageSize < 2 ^ 32) (state : UInt8) :
    ofLeBytes (slice (layout head state) 12 4) = head.pageSize := by
  rw [layout, ← List.append_assoc, slice_append (by simp [length_magic]) (length_leBytes _ _),
    ofLeBytes_leBytes h]

-- A header with sizes that a database cannot have is not trusted.
theorem decode_untrusted {head : Head}
    (h : head.pageSize = 0 ∨ MAX_PAGE_SIZE < head.pageSize ∨ MAX_PAGE_COUNT < head.pageCount)
    (hsize : head.pageSize < 2 ^ 32) (hcount : head.pageCount < 2 ^ 64) (state : UInt8) :
    decode (layout head state) = none := by
  unfold decode
  split_ifs with hmagic
  · rfl
  · dsimp only
    rw [pageSize_layout hsize, pageCount_layout hcount, if_pos h]

theorem decode_layout {head : Head} (h : head.Fits) (state : UInt8) :
    decode (layout head state) = some (head, state) := by
  have hnames := h.names
  simp only [Head.Named, HEADER_BYTES] at hnames
  have hmagic : slice (layout head state) 0 8 = MAGIC := by
    rw [layout, ← List.nil_append (MAGIC ++ _), slice_append List.length_nil length_magic]
  have hpageSize : ofLeBytes (slice (layout head state) 12 4) = head.pageSize :=
    pageSize_layout (h.pageSize.2.trans_lt (by decide)) state
  have hpageCount : ofLeBytes (slice (layout head state) 16 8) = head.pageCount :=
    pageCount_layout (h.pageCount.trans_lt (by decide)) state
  have hversion : ofLeBytes (slice (layout head state) 24 8) = head.version := by
    rw [layout, ← List.append_assoc, ← List.append_assoc, ← List.append_assoc,
      slice_append (by simp [length_magic]) (length_leBytes _ _), ofLeBytes_leBytes h.version]
  have hsubjectLen : ofLeBytes (slice (layout head state) 32 2) = (text head.subject).length := by
    rw [layout, ← List.append_assoc, ← List.append_assoc, ← List.append_assoc, ← List.append_assoc,
      slice_append (by simp [length_magic]) (length_leBytes _ _), ofLeBytes_leBytes (by omega)]
  have hdbIdLen : ofLeBytes (slice (layout head state) 34 2) = (text head.dbId).length := by
    rw [layout, ← List.append_assoc, ← List.append_assoc, ← List.append_assoc, ← List.append_assoc,
      ← List.append_assoc, slice_append (by simp [length_magic]) (length_leBytes _ _),
      ofLeBytes_leBytes (by omega)]
  have hsubject : name (layout head state) 36 (text head.subject).length = some head.subject := by
    rw [layout, ← List.append_assoc, ← List.append_assoc, ← List.append_assoc, ← List.append_assoc,
      ← List.append_assoc, ← List.append_assoc]
    exact name_append (by simp [length_magic]) rfl
  have hdbId : name (layout head state) (36 + (text head.subject).length) (text head.dbId).length =
      some head.dbId := by
    rw [layout, ← List.append_assoc, ← List.append_assoc, ← List.append_assoc, ← List.append_assoc,
      ← List.append_assoc, ← List.append_assoc, ← List.append_assoc]
    exact name_append (by simp [length_magic]; omega) rfl
  have hvalid : ¬(head.pageSize = 0 ∨ MAX_PAGE_SIZE < head.pageSize ∨ MAX_PAGE_COUNT < head.pageCount) := by
    have hsize := h.pageSize
    have hcount := h.pageCount
    omega
  unfold decode
  rw [if_neg (not_not.mpr hmagic)]
  simp only [hpageSize, hpageCount, hversion, hsubjectLen, hdbIdLen, hsubject, hdbId, state_layout]
  rw [if_neg hvalid]
  rfl

end FileStore

end RemoteVfs
