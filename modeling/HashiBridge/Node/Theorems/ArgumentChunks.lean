import HashiBridge.Node.TxExecutor

/-!
# Argument chunks stay within their limit

The loop keeps an estimate of the chunk's size: three bytes for the outer length and the exact size
of every entry.
-/

namespace HashiBridge.Node

/-! ## Sizes -/

theorem length_uleb128_pos (value : Nat) : 0 < (uleb128 value).length := by
  rw [uleb128]
  split_ifs <;> simp

theorem length_uleb128 {value : Nat} (h : value < 2 ^ 21) :
    (uleb128 value).length = uleb128Len value := by
  rw [uleb128Len]
  split_ifs with h7 h14 h21
  · rw [uleb128, if_pos (by omega), List.length_singleton]
  · rw [uleb128, if_neg (by omega), uleb128, if_pos (by omega)]
    rfl
  · rw [uleb128, if_neg (by omega), uleb128, if_neg (by omega), uleb128, if_pos (by omega)]
    rfl
  · omega

theorem uleb128Len_le_three {value : Nat} (h : value < 2 ^ 21) : uleb128Len value ≤ 3 := by
  unfold uleb128Len
  split_ifs <;> omega

def entriesSize (chunk : List (List UInt8)) : Nat := (chunk.map entryBcsSize).sum

theorem entriesSize_snoc (chunk : List (List UInt8)) (entry : List UInt8) :
    entriesSize (chunk ++ [entry]) = entriesSize chunk + entryBcsSize entry := by
  simp [entriesSize]

theorem length_bcsVecVecU8 {chunk : List (List UInt8)} (h : ∀ entry ∈ chunk, entry.length < 2 ^ 21) :
    (bcsVecVecU8 chunk).length = (uleb128 chunk.length).length + entriesSize chunk := by
  have hentry : ∀ entry ∈ chunk, (bcsBytes entry).length = entryBcsSize entry := by
    intro entry hentry
    rw [bcsBytes, List.length_append, length_uleb128 (h entry hentry), entryBcsSize]
  rw [bcsVecVecU8, List.length_append, List.length_flatMap, entriesSize, List.map_congr_left hentry]

/-! ## The loop -/

/-- The next chunk's first entry does not fit on top of the chunk, by the loop's estimate. -/
def Overflows (maxBytes : Nat) (chunk next : List (List UInt8)) : Prop :=
  ∃ first, next.head? = some first ∧ maxBytes < 3 + entriesSize (chunk ++ [first])

def Within (maxBytes : Nat) (chunk : List (List UInt8)) : Prop :=
  1 < chunk.length → 3 + entriesSize chunk ≤ maxBytes

namespace ChunkLoop

structure Packed (maxBytes : Nat) (done : List (List UInt8)) (loop : ChunkLoop) : Prop where
  size : loop.currentSize = 3 + entriesSize loop.currentChunk
  flatten : loop.result.flatten = done
  nonempty : ∀ chunk ∈ loop.chunks, chunk ≠ []
  within : ∀ chunk ∈ loop.result, Within maxBytes chunk
  chain : loop.result.IsChain (Overflows maxBytes)
  current : loop.currentChunk = [] → loop.chunks = []

variable {maxBytes : Nat} {done : List (List UInt8)} {loop : ChunkLoop}

theorem packed_init : init.Packed maxBytes [] where
  size := rfl
  flatten := rfl
  nonempty := by simp [init]
  within := by
    intro chunk hchunk hlength
    obtain rfl := List.mem_singleton.mp hchunk
    cases hlength
  chain := .singleton _
  current _ := rfl

theorem Packed.round (h : loop.Packed maxBytes done) (entry : List UInt8) :
    (loop.round maxBytes entry).Packed maxBytes (done ++ [entry]) := by
  unfold ChunkLoop.round flush
  split_ifs with hfull
  · -- the chunk is closed and the entry starts the next one
    obtain ⟨hne, hover⟩ := hfull
    refine ⟨?_, ?_, ?_, ?_, ?_, ?_⟩
    · simp [entriesSize]
    · simp [result, ← h.flatten]
    · exact List.forall_mem_append.mpr ⟨h.nonempty, List.forall_mem_singleton.mpr hne⟩
    · refine List.forall_mem_append.mpr ⟨h.within, List.forall_mem_singleton.mpr fun hlength => ?_⟩
      exact absurd hlength (by simp)
    · refine h.chain.append (.singleton _) ?_
      simp only [result, List.getLast?_append, List.getLast?_singleton, Option.some_or, Option.mem_def,
        Option.some.injEq, List.head?_cons, List.nil_append]
      rintro _ rfl _ rfl
      refine ⟨entry, rfl, ?_⟩
      rw [entriesSize_snoc]
      rw [h.size] at hover
      omega
    · simp
  · -- the entry joins the current chunk
    refine ⟨?_, ?_, h.nonempty, ?_, ?_, ?_⟩
    · dsimp only
      rw [h.size, entriesSize_snoc, Nat.add_assoc]
    · simp [result, ← h.flatten]
    · refine List.forall_mem_append.mpr ⟨(List.forall_mem_append.mp h.within).1,
        List.forall_mem_singleton.mpr fun hlength => ?_⟩
      have hne : loop.currentChunk ≠ [] := by
        rintro hnil
        simp [hnil] at hlength
      rw [entriesSize_snoc]
      have hfits : ¬ maxBytes < loop.currentSize + entryBcsSize entry := fun hover =>
        hfull ⟨hne, hover⟩
      rw [h.size] at hfits
      omega
    · refine List.isChain_append.mpr ⟨(List.isChain_append.mp h.chain).1, .singleton _, ?_⟩
      intro last hlast next hnext
      obtain rfl : loop.currentChunk ++ [entry] = next := by simpa using hnext
      obtain ⟨first, hfirst, hover⟩ :=
        (List.isChain_append.mp h.chain).2.2 last hlast loop.currentChunk (by simp)
      exact ⟨first, by simp [List.head?_append, hfirst], hover⟩
    · simp

theorem Packed.foldl (h : loop.Packed maxBytes done) (data : List (List UInt8)) :
    (data.foldl (ChunkLoop.round maxBytes) loop).Packed maxBytes (done ++ data) := by
  induction data generalizing loop done with
  | nil => simpa using h
  | cons entry data ih => simpa using ih (h.round entry)

end ChunkLoop

/-! ## The chunks -/

theorem chunkVecVecU8_packed (data : List (List UInt8)) (maxBytes : Nat) :
    ∃ loop : ChunkLoop, loop.Packed maxBytes data ∧ chunkVecVecU8 data maxBytes = loop.result := by
  unfold chunkVecVecU8
  split_ifs with hdata
  · exact ⟨.init, hdata ▸ ChunkLoop.packed_init, rfl⟩
  · exact ⟨_, by simpa using ChunkLoop.packed_init.foldl data, rfl⟩

/-- The chunks are the data in order, none is empty unless the data is, one with several entries
serializes within the limit, and one is closed only when the next entry comes within two bytes of the
limit or over it. -/
theorem chunkVecVecU8_within_limit (data : List (List UInt8)) (maxBytes : Nat)
    (hcount : data.length < 2 ^ 21) (hentries : ∀ entry ∈ data, entry.length < 2 ^ 21) :
    chunkVecVecU8 data maxBytes ≠ [] ∧
    (chunkVecVecU8 data maxBytes).flatten = data ∧
    (data ≠ [] → ∀ chunk ∈ chunkVecVecU8 data maxBytes, chunk ≠ []) ∧
    (∀ chunk ∈ chunkVecVecU8 data maxBytes, 1 < chunk.length →
      (bcsVecVecU8 chunk).length ≤ maxBytes) ∧
    (chunkVecVecU8 data maxBytes).IsChain fun chunk next => ∃ first, next.head? = some first ∧
      (maxBytes : Int) - 2 < (bcsVecVecU8 (chunk ++ [first])).length := by
  obtain ⟨loop, h, hresult⟩ := chunkVecVecU8_packed data maxBytes
  rw [hresult]
  have hmem : ∀ chunk ∈ loop.result, ∀ entry ∈ chunk, entry ∈ data := by
    intro chunk hchunk entry hentry
    rw [← h.flatten]
    exact List.mem_flatten_of_mem hchunk hentry
  refine ⟨by simp [ChunkLoop.result], h.flatten, ?_, ?_, ?_⟩
  · intro hdata
    refine List.forall_mem_append.mpr ⟨h.nonempty, List.forall_mem_singleton.mpr fun hnil => ?_⟩
    refine hdata ?_
    rw [← h.flatten, ChunkLoop.result, h.current hnil, hnil]
    rfl
  · intro chunk hchunk hlength
    have hshort : chunk.length < 2 ^ 21 := by
      have hle := (List.sublist_flatten_of_mem hchunk).length_le
      rw [h.flatten] at hle
      omega
    rw [length_bcsVecVecU8 fun entry hentry => hentries entry (hmem chunk hchunk entry hentry),
      length_uleb128 hshort]
    have hprefix := uleb128Len_le_three hshort
    have hwithin := h.within chunk hchunk hlength
    omega
  · refine h.chain.imp_of_mem_imp ?_
    rintro chunk next hchunk hnext ⟨first, hfirst, hover⟩
    refine ⟨first, hfirst, ?_⟩
    have hdata : ∀ entry ∈ chunk ++ [first], entry ∈ data := List.forall_mem_append.mpr
      ⟨hmem chunk hchunk, List.forall_mem_singleton.mpr (hmem next hnext _ (List.mem_of_head? hfirst))⟩
    rw [length_bcsVecVecU8 fun entry hentry => hentries entry (hdata entry hentry)]
    have hprefix := length_uleb128_pos (chunk ++ [first]).length
    omega

/-- Two entries of five bytes together are cut at a limit of six, which the estimate reaches first. -/
theorem chunkVecVecU8_within_limit_two :
    chunkVecVecU8 [[1], [2]] 6 = [[[1]], [[2]]] ∧ (chunkVecVecU8 [[1], [2]] 6).flatten = [[1], [2]] :=
  ⟨by decide, (chunkVecVecU8_within_limit [[1], [2]] 6 (by decide) (by decide)).2.1⟩

end HashiBridge.Node
