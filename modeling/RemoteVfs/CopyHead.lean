import RemoteVfs.FileStore.Header
import RemoteVfs.Transfer

namespace RemoteVfs.Transfer

open Base FileStore

-- `head_from` of the SQLite worker. `none` stands for the panic of an index out of bounds.
def Copy.headFrom (bytes : Bytes) : Option (Option Head) := do
  if bytes.length < 24 then
    return none
  let pageSize := ofLeBytes (← sliced bytes 0 4)
  let pageCount := ofLeBytes (← sliced bytes 4 8)
  let version := ofLeBytes (← sliced bytes 12 8)
  let subjectLen := ofLeBytes (← sliced bytes 20 2)
  let dbIdLen := ofLeBytes (← sliced bytes 22 2)
  match name bytes 24 subjectLen with
  | none => return none
  | some subject =>
    match name bytes (24 + subjectLen) dbIdLen with
    | none => return none
    | some dbId => return some ⟨subject, dbId, pageSize, pageCount, version⟩

-- `headBytes` of the connection worker, which fills an array of zeros.
def Worker.headBytes (head : Head) : Bytes :=
  let subject := text head.subject
  let dbId := text head.dbId
  let bytes := zeros (24 + subject.length + dbId.length)
  let bytes := patch bytes 0 (leBytes 4 head.pageSize)
  let bytes := patch bytes 4 (leBytes 8 head.pageCount)
  let bytes := patch bytes 12 (leBytes 8 head.version)
  let bytes := patch bytes 20 (leBytes 2 subject.length)
  let bytes := patch bytes 22 (leBytes 2 dbId.length)
  let bytes := patch bytes 24 subject
  patch bytes (24 + subject.length) dbId

-- The next bytes of an array of zeros are filled in.
theorem patch_zeros (first value : Bytes) {offset length rest : Nat} (hstart : first.length = offset)
    (hlength : value.length = length) :
    patch (first ++ zeros (length + rest)) offset value = first ++ value ++ zeros rest := by
  have hzeros : zeros (length + rest) = zeros length ++ zeros rest := List.replicate_add _ _ _
  rw [hzeros, patch_append first (zeros rest) hstart (by rw [hlength, zeros, List.length_replicate]),
    List.append_assoc]

-- Both sides lay the head out in the same way.
theorem worker_headBytes (head : Head) : Worker.headBytes head = headBytes head := by
  have hzeros : zeros (24 + (text head.subject).length + (text head.dbId).length) =
      [] ++ zeros (4 + (8 + (8 + (2 + (2 + ((text head.subject).length + ((text head.dbId).length + 0))))))) := by
    rw [List.nil_append]
    congr 1
    omega
  unfold Worker.headBytes headBytes
  dsimp only
  rw [hzeros, patch_zeros _ _ (by simp) (length_leBytes _ _), patch_zeros _ _ (by simp) (length_leBytes _ _),
    patch_zeros _ _ (by simp) (length_leBytes _ _), patch_zeros _ _ (by simp) (length_leBytes _ _),
    patch_zeros _ _ (by simp) (length_leBytes _ _), patch_zeros _ _ (by simp) rfl,
    patch_zeros _ _ (by simp; omega) rfl]
  simp [zeros]

-- A head of at least 24 bytes has all the numbers.
theorem copy_headFrom_total (bytes : Bytes) : ∃ result, Copy.headFrom bytes = some result := by
  unfold Copy.headFrom
  by_cases hshort : bytes.length < 24
  · exact ⟨none, by rw [if_pos hshort]; rfl⟩
  rw [if_neg hshort, sliced_of_le (by omega), sliced_of_le (by omega), sliced_of_le (by omega),
    sliced_of_le (by omega), sliced_of_le (by omega)]
  simp only [Option.bind_eq_bind, Option.bind_some]
  cases name bytes 24 (ofLeBytes (slice bytes 20 2)) with
  | none => exact ⟨none, rfl⟩
  | some subject =>
      dsimp only
      cases name bytes (24 + ofLeBytes (slice bytes 20 2)) (ofLeBytes (slice bytes 22 2)) with
      | none => exact ⟨none, rfl⟩
      | some dbId => exact ⟨_, rfl⟩

theorem sliced_of_getUint {bytes : Bytes} {offset width n : Nat} (h : getUint bytes offset width = some n) :
    sliced bytes offset width = some (slice bytes offset width) ∧
      ofLeBytes (slice bytes offset width) = n := by
  unfold getUint at h
  split_ifs at h with hbound
  exact ⟨sliced_of_le hbound, Option.some.inj h⟩

theorem name_of_slice {bytes : Bytes} {value : String} {start length : Nat}
    (hbound : start + length ≤ bytes.length) (h : slice bytes start length = text value) :
    name bytes start length = some value := by
  rw [name, if_pos hbound, h, fromUTF8_text]

theorem copy_headFrom_headBytes {head : Head} (h : Framed head) :
    Copy.headFrom (headBytes head) = some (some head) := by
  have hlength := length_headBytes head
  have hlaid := laid_headBytes h
  obtain ⟨hsize, hsizeIs⟩ := sliced_of_getUint hlaid.pageSize
  obtain ⟨hcount, hcountIs⟩ := sliced_of_getUint hlaid.pageCount
  obtain ⟨hversion, hversionIs⟩ := sliced_of_getUint hlaid.version
  obtain ⟨hsubjectLen, hsubjectLenIs⟩ := sliced_of_getUint hlaid.subjectLen
  obtain ⟨hdbIdLen, hdbIdLenIs⟩ := sliced_of_getUint hlaid.dbIdLen
  unfold Copy.headFrom
  rw [if_neg (by omega), hsize, hcount, hversion, hsubjectLen, hdbIdLen]
  simp only [Option.bind_eq_bind, Option.bind_some]
  rw [hsizeIs, hcountIs, hversionIs, hsubjectLenIs, hdbIdLenIs,
    name_of_slice (by omega) hlaid.subject]
  dsimp only
  rw [name_of_slice (by omega) hlaid.dbId]
  rfl

theorem exact_of_le {n : Nat} (h : n ≤ 2 ^ 53) : Exact n := by
  by_cases hlt : n < 2 ^ 53
  · exact ⟨n, 0, hlt, by omega⟩
  · exact ⟨1, 53, by decide, by omega⟩

-- What the worker decodes from a framed head can be framed again.
theorem framed_received {head : Head} (h : Framed head) (hversion : head.version ≤ 2 ^ 53) :
    Framed (received head) := by
  have hshorter : ∀ value : String, (text (decodeText (text value))).length ≤ (text value).length := by
    intro value
    rw [text_decodeText]
    split_ifs
    · rw [List.length_drop]
      omega
    · exact le_refl _
  refine ⟨h.pageSize, h.pageCount, ?_, (hshorter _).trans_lt h.subject, (hshorter _).trans_lt h.dbId⟩
  change toNumber head.version < 2 ^ 64
  rw [(toNumber_eq_iff _).mpr (exact_of_le hversion)]
  exact h.version

-- The head comes back exactly if none of its names starts with a byte order mark, which the worker's
-- decoder leaves out. Any bytes give a head or none.
theorem head_round_trips (head : Head) (bytes : Bytes)
    (hsize : 1 ≤ head.pageSize ∧ head.pageSize ≤ 65536) (hcount : head.pageCount ≤ MAX_PAGE_COUNT)
    (hversion : head.version ≤ 2 ^ 53) (hsubject : (text head.subject).length < 2 ^ 16)
    (hdbId : (text head.dbId).length < 2 ^ 16) :
    ((headFrom (headBytes head)).bind (fun arrived => Copy.headFrom (Worker.headBytes arrived)) =
        some (some head) ↔
      (text head.subject).take 3 ≠ BOM ∧ (text head.dbId).take 3 ≠ BOM) ∧
    ∃ result, Copy.headFrom bytes = some result := by
  have hframed : Framed head :=
    ⟨by omega, hcount.trans_lt (by decide), hversion.trans_lt (by decide), hsubject, hdbId⟩
  refine ⟨?_, copy_headFrom_total bytes⟩
  rw [headFrom_headBytes hframed, Option.bind_some, worker_headBytes,
    copy_headFrom_headBytes (framed_received hframed hversion), Option.some.injEq, Option.some.injEq,
    received_eq_iff]
  exact ⟨fun h => ⟨h.subject, h.dbId⟩, fun h => ⟨exact_of_le hversion, h.1, h.2⟩⟩

-- The largest version that is exact.
theorem head_round_trips_plain :
    let head : Head := { subject := "user", dbId := "notes", pageSize := 512, pageCount := 3, version := 2 ^ 53 }
    (headFrom (headBytes head)).bind (fun arrived => Copy.headFrom (Worker.headBytes arrived)) =
      some (some head) :=
  (head_round_trips _ [] (by decide) (by decide) (by decide) (by decide) (by decide)).1.mpr (by decide)

-- The copy of one database comes back as that of another one.
theorem marked_head_names_another :
    let head : Head := { subject := "user", dbId := "\ufeffnotes", pageSize := 512, pageCount := 3, version := 7 }
    (text head.dbId).length < 2 ^ 16 ∧
      (headFrom (headBytes head)).bind (fun arrived => Copy.headFrom (Worker.headBytes arrived)) =
        some (some { head with dbId := "notes" }) := by
  decide +kernel

end RemoteVfs.Transfer
