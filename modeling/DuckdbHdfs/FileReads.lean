import DuckdbHdfs.FileHandle
import Mathlib.Algebra.Ring.Int.Defs

/-!
# Reads of a file

Which ranges the two `Read`s pass to the bridge, and what a reader handle does over a whole
sequence of calls: it behaves as a byte array with a cursor.
-/

namespace DuckdbHdfs

/-- A reader of a file of ten zero bytes. -/
def FileReader.tenBytes : FileReader where
  display _ := []
  fileLength := 10
  readRangeBuf len offset := .ok (((List.replicate 10 0).drop offset.toNat).take len)

namespace HdfsFileHandle

variable {h : HdfsFileHandle} {reader : FileReader} {nrBytes : Int64} {location : UInt64}

/-- The bounds check of the positional `Read` is exact for every sign and location. -/
theorem outOfRange_iff (bounded : h.length.toNat < 2 ^ 63) :
    (location > h.length ∨ nrBytes.toUInt64 > h.length - location) ↔
      nrBytes.toInt < 0 ∨ (h.length.toNat : Int) < location.toNat + nrBytes.toInt := by
  have cast := nrBytes.toNat_toUInt64
  have upper := nrBytes.toInt_lt
  have lower := nrBytes.le_toInt
  rw [gt_iff_lt, gt_iff_lt, UInt64.lt_iff_toNat_lt, UInt64.lt_iff_toNat_lt]
  by_cases inside : location ≤ h.length
  · rw [UInt64.toNat_sub_of_le _ _ inside]
    rw [UInt64.le_iff_toNat_le] at inside
    split at cast <;> omega
  · rw [UInt64.le_iff_toNat_le] at inside
    split at cast <;> omega

/-- What sequential `Read` asks for: up to the end of the file, unless a negative request wraps
around below the start. -/
theorem toRead_toInt (bounded : h.length.toNat < 2 ^ 63) (before_end : h.position < h.length) :
    (h.toRead nrBytes).toInt =
      if 0 ≤ (h.position.toNat : Int) + nrBytes.toInt then
        min nrBytes.toInt (h.length.toNat - h.position.toNat)
      else
        h.length.toNat - h.position.toNat := by
  have cast := nrBytes.toNat_toUInt64
  have upper := nrBytes.toInt_lt
  have lower := nrBytes.le_toInt
  have left_length : (h.length - h.position).toNat = h.length.toNat - h.position.toNat :=
    UInt64.toNat_sub_of_le _ _ (UInt64.le_of_lt before_end)
  rw [UInt64.lt_iff_toNat_lt] at before_end
  have left : (h.length - h.position).toInt64.toInt = h.length.toNat - h.position.toNat := by
    rw [UInt64.toInt_toInt64, left_length]
    split <;> omega
  unfold toRead
  simp only [gt_iff_lt, UInt64.lt_iff_toNat_lt, UInt64.toNat_add]
  split
  · rw [left]
    split at cast <;> split <;> omega
  · split at cast <;> split <;> omega

theorem readAt_calls (bounded : h.length.toNat < 2 ^ 63) :
    (h.readAt reader nrBytes location).1 =
      if h.reader = true ∧ 0 < nrBytes.toInt ∧
          (location.toNat : Int) + nrBytes.toInt ≤ h.length.toNat then
        [⟨nrBytes, location⟩]
      else
        [] := by
  have zero_iff : nrBytes = 0 ↔ nrBytes.toInt = 0 := by
    rw [← Int64.toInt_inj, Int64.toInt_zero]
  unfold readAt
  split
  · rename_i closed
    simp_all
  · split
    · rename_i zero
      rw [zero_iff] at zero
      exact (if_neg (by omega)).symm
    · split
      · rename_i outside
        rw [outOfRange_iff bounded] at outside
        exact (if_neg (by omega)).symm
      · rename_i opened nonzero inside
        rw [outOfRange_iff bounded] at inside
        rw [zero_iff] at nonzero
        rw [Bool.not_eq_eq_eq_not, Bool.not_true, Bool.not_eq_false] at opened
        exact (if_pos ⟨opened, by omega, by omega⟩).symm

/-- What sequential `Read` asks for never passes the end of the file. -/
theorem toRead_le (bounded : h.length.toNat < 2 ^ 63) (before_end : h.position < h.length) :
    (h.position.toNat : Int) + (h.toRead nrBytes).toInt ≤ h.length.toNat := by
  rw [toRead_toInt bounded before_end]
  split <;> omega

theorem read_calls (bounded : h.length.toNat < 2 ^ 63) :
    (h.read reader nrBytes).1 =
      if h.reader = true ∧ h.position < h.length ∧ 0 < (h.toRead nrBytes).toInt then
        [⟨h.toRead nrBytes, h.position⟩]
      else
        [] := by
  unfold read
  split
  · rename_i at_end
    exact (if_neg fun reads => absurd reads.2.1 (UInt64.not_lt.mpr at_end)).symm
  · rename_i before_end
    rw [ge_iff_le, UInt64.not_le] at before_end
    split
    · rename_i nothing
      rw [Int64.le_iff_toInt_le, Int64.toInt_zero] at nothing
      exact (if_neg fun reads => absurd reads.2.2 (Int.not_lt.mpr nothing)).symm
    · have inside := @toRead_le h nrBytes bounded before_end
      have calls := @readAt_calls h reader (h.toRead nrBytes) h.position bounded
      simp only [inside, and_true] at calls
      simp only [before_end, true_and]
      rw [← calls]
      split <;> simp_all

/-- The ranges passed to the bridge lie within the request and within the file, so no more bytes
are transferred than requested. -/
def ReadsWithin (h : HdfsFileHandle) (nrBytes : Int64) (calls : List ReadCall) : Prop :=
  (∀ call ∈ calls, 0 < call.len.toInt ∧ call.len.toInt ≤ nrBytes.toInt ∧
      (call.offset.toNat : Int) + call.len.toInt ≤ h.length.toNat) ∧
    (calls.map fun call => call.len.toInt).sum ≤ max 0 nrBytes.toInt

theorem readsWithin_nil : ReadsWithin h nrBytes [] :=
  ⟨by simp, Int.le_max_left 0 _⟩

theorem readsWithin_singleton {call : ReadCall} :
    ReadsWithin h nrBytes [call] ↔ 0 < call.len.toInt ∧ call.len.toInt ≤ nrBytes.toInt ∧
      (call.offset.toNat : Int) + call.len.toInt ≤ h.length.toNat := by
  simp only [ReadsWithin, List.mem_singleton, forall_eq, List.map_cons, List.map_nil,
    List.sum_singleton]
  constructor
  · exact fun within => within.1
  · exact fun within => ⟨within, by omega⟩

theorem readsWithin_readAt (bounded : h.length.toNat < 2 ^ 63) :
    ReadsWithin h nrBytes (h.readAt reader nrBytes location).1 := by
  rw [readAt_calls bounded]
  split
  · rename_i reads
    exact readsWithin_singleton.mpr ⟨reads.2.1, Int.le_refl _, reads.2.2⟩
  · exact readsWithin_nil

/-- The failing call: one byte less than nothing is requested of a file of ten bytes, at its
start, and all ten are transferred. -/
theorem not_readsWithin_negative :
    ¬ReadsWithin (openReader "/d/x".toList .tenBytes) (-1)
        ((openReader "/d/x".toList .tenBytes).read .tenBytes (-1)).1 := by
  intro within
  have requested := within.1 ⟨10, 0⟩ (by decide)
  revert requested
  decide

/-- Positional reads stay within the request and the file always, and sequential ones unless a
negative request reaches from a cursor inside the file to below its start. -/
theorem readsWithin_iff (opened : h.reader = true) (bounded : h.length.toNat < 2 ^ 63)
    (reader : FileReader) (nrBytes : Int64) :
    ((∀ location, ReadsWithin h nrBytes (h.readAt reader nrBytes location).1) ∧
        ReadsWithin h nrBytes (h.read reader nrBytes).1) ↔
      h.length ≤ h.position ∨ 0 ≤ (h.position.toNat : Int) + nrBytes.toInt := by
  rw [and_iff_right fun location => readsWithin_readAt bounded, read_calls bounded]
  by_cases before_end : h.position < h.length
  · have past := UInt64.not_le.mpr before_end
    have inside := @toRead_le h nrBytes bounded before_end
    have asked := @toRead_toInt h nrBytes bounded before_end
    rw [UInt64.lt_iff_toNat_lt] at before_end
    simp only [past, false_or]
    split
    · rename_i reads
      rw [readsWithin_singleton]
      simp only
      split at asked
      · exact iff_of_true ⟨by omega, by omega, inside⟩ (by assumption)
      · exact iff_of_false (by omega) (by assumption)
    · rename_i nothing
      refine iff_of_true readsWithin_nil ?_
      by_contra below
      rw [if_neg below] at asked
      exact nothing ⟨opened, UInt64.lt_iff_toNat_lt.mpr before_end, by omega⟩
  · have at_end := UInt64.not_lt.mp before_end
    rw [if_neg fun reads => before_end reads.2.1]
    exact iff_of_true readsWithin_nil (.inl at_end)

/-- A request of one byte at the start of a file of ten bytes. -/
theorem readsWithin_iff_first :
    ((∀ location, ReadsWithin (openReader "/d/x".toList .tenBytes) 1
          ((openReader "/d/x".toList .tenBytes).readAt .tenBytes 1 location).1) ∧
        ReadsWithin (openReader "/d/x".toList .tenBytes) 1
          ((openReader "/d/x".toList .tenBytes).read .tenBytes 1).1) ↔
      (10 : UInt64) ≤ 0 ∨ 0 ≤ ((0 : UInt64).toNat : Int) + (1 : Int64).toInt :=
  readsWithin_iff rfl (by decide) .tenBytes 1

end HdfsFileHandle
end DuckdbHdfs
