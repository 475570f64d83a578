import Mathlib.Logic.Function.Basic
import Galio.Lib.Lists

/-! `png_unfilter` of `gui/src/png.c` undoes the filters of the PNG format. -/

namespace Galio

open Function

/-- The Paeth predictor of `png_unfilter`, computed in `s32`. -/
def paethPredictor (left up upperLeft : UInt8) : UInt8 :=
  let p : Int := left.toNat + up.toNat - upperLeft.toNat
  let pa : Int := if p > left.toNat then p - left.toNat else left.toNat - p
  let pb : Int := if p > up.toNat then p - up.toNat else up.toNat - p
  let pc : Int := if p > upperLeft.toNat then p - upperLeft.toNat else upperLeft.toNat - p
  if pa ≤ pb ∧ pa ≤ pc then left else if pb ≤ pc then up else upperLeft

/-- `predictor`, or `none` for a filter `png_unfilter` does not know. -/
def pngPredictor (filter left up upperLeft : UInt8) : Option UInt8 :=
  if filter = 1 then some left
  else if filter = 2 then some up
  else if filter = 3 then some (UInt8.ofNat ((left.toNat + up.toNat) / 2))
  else if filter = 4 then some (paethPredictor left up upperLeft)
  else if filter ≠ 0 then none
  else some 0

/-- The inner loop of `png_unfilter` at byte `x` of row `y`. -/
def unfilterByte (raw : Nat → UInt8) (stride y : Nat) (pixels : Nat → UInt8) (x : Nat) : Option (Nat → UInt8) :=
  let left := if x ≥ 3 then pixels (y * stride + x - 3) else 0
  let up := if y ≠ 0 then pixels ((y - 1) * stride + x) else 0
  let upperLeft := if y ≠ 0 ∧ x ≥ 3 then pixels ((y - 1) * stride + x - 3) else 0
  (pngPredictor (raw (y * (stride + 1))) left up upperLeft).map fun predictor =>
    update pixels (y * stride + x) (raw (y * (stride + 1) + 1 + x) + predictor)

def unfilterRow (raw : Nat → UInt8) (stride : Nat) (pixels : Nat → UInt8) (y : Nat) : Option (Nat → UInt8) :=
  (List.range stride).foldlM (unfilterByte raw stride y) pixels

/-- `png_unfilter`: `some` pixels where it returns 1. Images of up to `PNG_MAX_DIMENSION` rows and columns keep
every index within a `u32`. -/
def pngUnfilter (raw : Nat → UInt8) (width height : Nat) (pixels : Nat → UInt8) : Option (Nat → UInt8) :=
  (List.range height).foldlM (unfilterRow raw (width * 3)) pixels

/-- The filters of the PNG format. -/
inductive PngFilter where
  | none
  | sub
  | up
  | average
  | paeth

namespace PngFilter

def type : PngFilter → UInt8
  | none => 0
  | sub => 1
  | up => 2
  | average => 3
  | paeth => 4

/-- What the format predicts from the bytes to the left, above, and to the left of the one above. -/
def predict (a b c : Nat) : PngFilter → Nat
  | none => 0
  | sub => a
  | up => b
  | average => (a + b) / 2
  | paeth =>
    -- The nearest to `a + b - c`, and of equally near ones the first in this order.
    let distance (neighbour : Nat) : Nat := Int.natAbs (a + b - c - neighbour)
    if distance a ≤ distance b ∧ distance a ≤ distance c then a
    else if distance b ≤ distance c then b
    else c

end PngFilter

/-- The byte `down` rows above and `back` bytes before a byte of the image, 0 outside of it. -/
def pngNeighbour (image : Nat → UInt8) (stride y x down back : Nat) : Nat :=
  if down ≤ y ∧ back ≤ x then (image ((y - down) * stride + (x - back))).toNat else 0

/-- The prediction for a byte of the image under a filter. -/
def PngFilter.predictAt (filter : PngFilter) (image : Nat → UInt8) (stride y x : Nat) : UInt8 :=
  .ofNat (filter.predict (pngNeighbour image stride y x 0 3) (pngNeighbour image stride y x 1 0)
    (pngNeighbour image stride y x 1 3))

/-- Every row of `raw` is its filter followed by the differences of its bytes to their predictions. -/
structure PngFiltered (raw : Nat → UInt8) (stride height : Nat) (filters : Nat → PngFilter) (image : Nat → UInt8) :
    Prop where
  types : ∀ y < height, raw (y * (stride + 1)) = (filters y).type
  bytes : ∀ y < height, ∀ x < stride,
    raw (y * (stride + 1) + 1 + x) = image (y * stride + x) - (filters y).predictAt image stride y x

lemma paethPredictor_eq (left up upperLeft : UInt8) :
    paethPredictor left up upperLeft = .ofNat (PngFilter.paeth.predict left.toNat up.toNat upperLeft.toNat) := by
  have distance (p : Int) (byte : UInt8) :
      (if p > byte.toNat then p - byte.toNat else byte.toNat - p) = ((p - byte.toNat).natAbs : Int) := by
    split <;> omega
  simp only [paethPredictor, distance, PngFilter.predict, Int.ofNat_le]
  split
  · rw [UInt8.ofNat_toNat]
  · split <;> rw [UInt8.ofNat_toNat]

lemma pngPredictor_type (filter : PngFilter) (left up upperLeft : UInt8) :
    pngPredictor filter.type left up upperLeft =
      some (.ofNat (filter.predict left.toNat up.toNat upperLeft.toNat)) := by
  cases filter with
  | none | average => rfl
  | sub | up => exact congrArg some UInt8.ofNat_toNat.symm
  | paeth => exact congrArg some (paethPredictor_eq left up upperLeft)

section Rows

variable {raw image pixels : Nat → UInt8} {filters : Nat → PngFilter} {width stride height y x : Nat}

/-- The neighbours of a byte come before it, where the pixels are those of the image already. -/
theorem neighbours_restored (column : x < stride) (done : ∀ i < y * stride + x, pixels i = image i) :
    (if x ≥ 3 then pixels (y * stride + x - 3) else 0).toNat = pngNeighbour image stride y x 0 3 ∧
      (if y ≠ 0 then pixels ((y - 1) * stride + x) else 0).toNat = pngNeighbour image stride y x 1 0 ∧
        (if y ≠ 0 ∧ x ≥ 3 then pixels ((y - 1) * stride + x - 3) else 0).toNat =
          pngNeighbour image stride y x 1 3 := by
  have above (inside : y ≠ 0) : y * stride = (y - 1) * stride + stride := by
    rw [← Nat.succ_mul, Nat.succ_eq_add_one, Nat.sub_add_cancel (Nat.pos_of_ne_zero inside)]
  refine ⟨?_, ?_, ?_⟩
  · by_cases inside : x ≥ 3
    · rw [if_pos inside, pngNeighbour, if_pos (by omega), Nat.sub_zero, ← Nat.add_sub_assoc inside, done _ (by omega)]
    · rw [if_neg inside, pngNeighbour, if_neg (by omega), UInt8.toNat_zero]
  · by_cases inside : y ≠ 0
    · rw [if_pos inside, pngNeighbour, if_pos (by omega), Nat.sub_zero, done _ (by omega)]
    · rw [if_neg inside, pngNeighbour, if_neg (by omega), UInt8.toNat_zero]
  · by_cases inside : y ≠ 0 ∧ x ≥ 3
    · rw [if_pos inside, pngNeighbour, if_pos (by omega), ← Nat.add_sub_assoc inside.2, done _ (by omega)]
    · rw [if_neg inside, pngNeighbour, if_neg (by omega), UInt8.toNat_zero]

lemma unfilterByte_filtered (filtered : PngFiltered raw stride height filters image) (row : y < height)
    (column : x < stride) (done : ∀ i < y * stride + x, pixels i = image i) :
    ∃ after, unfilterByte raw stride y pixels x = some after ∧ ∀ i < y * stride + (x + 1), after i = image i := by
  obtain ⟨left, up, upperLeft⟩ := neighbours_restored column done
  -- So the byte is predicted from the pixels as it was from the image, and the difference is made good.
  have byte : unfilterByte raw stride y pixels x = some (update pixels (y * stride + x) (image (y * stride + x))) := by
    rw [unfilterByte, filtered.types y row, pngPredictor_type, left, up, upperLeft, Option.map_some,
      filtered.bytes y row x column, PngFilter.predictAt, UInt8.sub_add_cancel]
  refine ⟨_, byte, fun i before => ?_⟩
  by_cases here : i = y * stride + x
  · rw [here, update_self]
  · rw [update_of_ne here, done i (by omega)]

lemma unfilterRow_filtered (filtered : PngFiltered raw stride height filters image) (row : y < height)
    (done : ∀ i < y * stride, pixels i = image i) :
    ∃ after, unfilterRow raw stride pixels y = some after ∧ ∀ i < (y + 1) * stride, after i = image i := by
  rw [Nat.succ_mul]
  exact Lists.foldlM_range (fun x (pixels : Nat → UInt8) => ∀ i < y * stride + x, pixels i = image i)
    (fun x column pixels done => unfilterByte_filtered filtered row column done) done

/-- Unfiltering gives back the image that the rows were filtered from. -/
theorem pngUnfilter_filtered (filtered : PngFiltered raw (width * 3) height filters image) (pixels : Nat → UInt8) :
    ∃ after, pngUnfilter raw width height pixels = some after ∧ ∀ i < width * height * 3, after i = image i := by
  rw [Nat.mul_comm width, Nat.mul_assoc]
  exact Lists.foldlM_range (fun y (pixels : Nat → UInt8) => ∀ i < y * (width * 3), pixels i = image i)
    (fun y row pixels done => unfilterRow_filtered filtered row done) (by simp)

/-- Two rows of two pixels, the first under Sub and the second under Paeth. -/
theorem pngUnfilter_two_rows : ∃ after, pngUnfilter
    (fun i => [1, 0, 20, 40, 60, 60, 60, 4, 120, 120, 120, 60, 60, 60].getD i 0) 2 2 (fun _ => 0) = some after ∧
      ∀ i < 2 * 2 * 3, after i = .ofNat (i * 20) :=
  have filtered : PngFiltered (fun i => [1, 0, 20, 40, 60, 60, 60, 4, 120, 120, 120, 60, 60, 60].getD i 0) (2 * 3) 2
      (fun y => if y = 0 then .sub else .paeth) (fun i => .ofNat (i * 20)) := ⟨by decide, by decide⟩
  pngUnfilter_filtered filtered _

end Rows

end Galio
