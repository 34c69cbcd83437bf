import Mathlib

/-!
# Cutting a stream into chunks (`LobStore::write_stream`)

The input reader may return fewer bytes than asked for. `fillChunk` reads until a chunk is full or
the input ends, and `chunksOf` cuts the whole input: whatever the sizes of the reads, the chunks are
not empty and joined they are the input (`flatten_chunksOf`).
-/

namespace UniDb.Side

open List

def chunkSize : Nat := 7000

/-- An input that has `data` left and answers the next reads with at most the given numbers of
bytes. A read returns nothing only at the end of the input. -/
structure Source where
  data : List UInt8
  sizes : List Nat

/-- `Read::read` into a buffer with `space` bytes left. -/
def Source.read (src : Source) (space : Nat) : List UInt8 × Source :=
  let n := min space (max 1 (src.sizes.headD space))
  (src.data.take n, ⟨src.data.drop n, src.sizes.tail⟩)

def fillChunk (src : Source) (filled : List UInt8) : List UInt8 × Source :=
  if _hroom : filled.length < chunkSize then
    if _hgot : (src.read (chunkSize - filled.length)).1 = [] then
      (filled, (src.read (chunkSize - filled.length)).2)
    else
      fillChunk (src.read (chunkSize - filled.length)).2
        (filled ++ (src.read (chunkSize - filled.length)).1)
  else (filled, src)
termination_by chunkSize - filled.length
decreasing_by
  have hpos := length_pos_of_ne_nil _hgot
  rw [length_append]
  omega

lemma Source.read_append (src : Source) (space : Nat) :
    (src.read space).1 ++ (src.read space).2.data = src.data :=
  take_append_drop _ _

variable {src : Source}

/-- An empty read of a buffer that has room is the end of the input. -/
lemma Source.data_of_read_nil {space : Nat} (hspace : 0 < space) (h : (src.read space).1 = []) :
    (src.read space).2.data = [] := by
  have hdata : src.data = [] := by
    rcases take_eq_nil_iff.1 h with hn | hdata
    · omega
    · exact hdata
  simp [Source.read, hdata]

lemma fillChunk_append (src : Source) (filled : List UInt8) :
    (fillChunk src filled).1 ++ (fillChunk src filled).2.data = filled ++ src.data := by
  fun_induction fillChunk src filled with
  | case1 src filled hroom hgot =>
    have happend := src.read_append (chunkSize - filled.length)
    rw [hgot, nil_append] at happend
    rw [happend]
  | case2 src filled hroom hgot ih =>
    rw [ih, append_assoc, src.read_append]
  | case3 src filled hfull => rfl

lemma fillChunk_short {filled : List UInt8} (h : (fillChunk src filled).1.length < chunkSize) :
    (fillChunk src filled).2.data = [] := by
  fun_induction fillChunk src filled with
  | case1 src filled hroom hgot => exact Source.data_of_read_nil (by omega) hgot
  | case2 src filled hroom hgot ih => exact ih h
  | case3 src filled hfull => exact absurd h hfull

/-- The outer loop of `write_stream`: the chunks in the order of their numbers. -/
def chunksOf (src : Source) : List (List UInt8) :=
  if _hend : (fillChunk src []).1 = [] then []
  else if (fillChunk src []).1.length < chunkSize then [(fillChunk src []).1]
  else (fillChunk src []).1 :: chunksOf (fillChunk src []).2
termination_by src.data.length
decreasing_by
  have hlen := congrArg List.length (fillChunk_append src [])
  have hpos := length_pos_of_ne_nil _hend
  rw [length_append, nil_append] at hlen
  omega

lemma flatten_chunksOf (src : Source) : (chunksOf src).flatten = src.data := by
  fun_induction chunksOf src with
  | case1 src hend =>
    have happend := fillChunk_append src []
    rw [fillChunk_short (by simp [hend, chunkSize]), hend] at happend
    exact happend
  | case2 src hend hshort =>
    have happend := fillChunk_append src []
    rw [fillChunk_short hshort, append_nil] at happend
    rw [flatten_singleton, happend, nil_append]
  | case3 src hend hfull ih =>
    rw [flatten_cons, ih, fillChunk_append, nil_append]

lemma ne_nil_of_mem_chunksOf {chunk : List UInt8} (h : chunk ∈ chunksOf src) : chunk ≠ [] := by
  fun_induction chunksOf src with
  | case1 src hend => cases h
  | case2 src hend hshort => rwa [mem_singleton.1 h]
  | case3 src hend hfull ih =>
    rcases mem_cons.1 h with rfl | h
    · exact hend
    · exact ih h

end UniDb.Side
