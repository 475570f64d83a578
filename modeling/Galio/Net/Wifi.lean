import Mathlib.Data.List.Infix

/-! `kernel/net/80211.c`: the elements of a beacon frame, and what is copied out of them. -/

namespace Galio

open List

/-- The bytes of `struct ieee80211_hdr` and `struct ieee80211_beacon`. -/
def beaconFixedLen : Nat := 24 + 12

def ieSsid : UInt8 := 0
def ieDsParams : UInt8 := 3

section Frame

-- The memory from the start of a frame on, and the length of the frame.
variable (frame : Nat → UInt8) (len : Nat)

/-- `it_len` of the radiotap header. -/
def radiotapLen : Nat := (frame 2).toNat + 256 * (frame 3).toNat

/-- `wifi_parse_radiotap_rssi`, as an unsigned byte. -/
def wifiParseRadiotapRssi : UInt8 :=
  if len < 8 ∨ frame 0 ≠ 0 ∨ radiotapLen frame > len then -50
  else
    let present (bit : Nat) := (frame 4).toNat.testBit bit
    let width (bit size : Nat) := if present bit then size else 0
    let power := 8 + width 0 8 + width 1 1 + width 2 1 + width 3 4 + width 4 2
    let signal := power + width 5 1
    if present 6 ∧ signal + 1 ≤ len then frame signal
    else if present 5 ∧ power + 1 ≤ len then frame power
    else -50

/-- The place behind an element. -/
def ieEnd (place : Nat) : Nat := place + 2 + (frame (place + 1)).toNat

/-- The loop of `wifi_get_ie` from a place on. -/
def wifiIeFrom (type : UInt8) (place : Nat) : Option Nat :=
  if len < place + 2 then none
  else if frame place = type then some place
  else if len < ieEnd frame place then none
  else wifiIeFrom type (ieEnd frame place)
termination_by len - place
decreasing_by simp only [ieEnd] at *; omega

/-- `wifi_get_ie`: the place of an element. -/
def wifiGetIe (headerLen : Nat) (type : UInt8) : Option Nat :=
  if len < headerLen then none else wifiIeFrom frame len type headerLen

/-- `frame_header_len` of `wifi_parse_beacon`. -/
def beaconHeaderLen : Nat :=
  (if frame 0 = 0 ∧ 0 < radiotapLen frame ∧ radiotapLen frame < len then radiotapLen frame else 0) + beaconFixedLen

/-- What `wifi_parse_beacon` writes. -/
structure Beacon where
  ssid : List UInt8
  channel : UInt8
  rssi : UInt8

def wifiParseBeacon : Option Beacon :=
  if len < beaconFixedLen then none
  else some {
    ssid := match wifiGetIe frame len (beaconHeaderLen frame len) ieSsid with
      | none => []
      | some place => (range (min (frame (place + 1)).toNat 32)).map fun k => frame (place + 2 + k)
    channel := match wifiGetIe frame len (beaconHeaderLen frame len) ieDsParams with
      | none => 1
      | some place => if frame (place + 1) ≥ 1 then frame (place + 2) else 1
    rssi := wifiParseRadiotapRssi frame len }

/-- The elements of a beacon, up to the first that the end of the frame cuts. -/
inductive IeAt : Nat → Prop
  | first (fits : beaconHeaderLen frame len + 2 ≤ len) : IeAt (beaconHeaderLen frame len)
  | next {place : Nat} (element : IeAt place) (fits : ieEnd frame place + 2 ≤ len) : IeAt (ieEnd frame place)

/-- Each element that is found stands in the frame, and so does what is copied. -/
structure BeaconInside (beacon : Beacon) : Prop where
  element : ∀ type place, wifiGetIe frame len (beaconHeaderLen frame len) type = some place → ieEnd frame place ≤ len
  ssid : ∃ start, start + beacon.ssid.length ≤ len ∧
    beacon.ssid = (range beacon.ssid.length).map fun k => frame (start + k)
  channel : beacon.channel = 1 ∨ ∃ place < len, beacon.channel = frame place

end Frame

variable {frame : Nat → UInt8} {len : Nat} {type : UInt8} {place found : Nat}

lemma IeAt.fits (element : IeAt frame len place) : place + 2 ≤ len := by
  cases element with
  | first fits => exact fits
  | next _ fits => exact fits

lemma wifiIeFrom_found (element : IeAt frame len place) (walk : wifiIeFrom frame len type place = some found) :
    IeAt frame len found ∧ frame found = type := by
  fun_induction wifiIeFrom with
  | case1 => cases walk
  | case2 place _ same => exact Option.some.inj walk ▸ ⟨element, same⟩
  | case3 => cases walk
  | case4 place _ _ _ ih =>
    by_cases fits : ieEnd frame place + 2 ≤ len
    · exact ih (element.next fits) walk
    · rw [wifiIeFrom, if_pos (by omega)] at walk
      cases walk

lemma wifiIeFrom_skip (element : IeAt frame len place)
    (others : ∀ earlier < place, IeAt frame len earlier → frame earlier ≠ type) :
    wifiIeFrom frame len type (beaconHeaderLen frame len) = wifiIeFrom frame len type place := by
  induction element with
  | first => rfl
  | @next place element fits ih =>
    have before : place < ieEnd frame place := by
      unfold ieEnd
      omega
    rw [ih fun earlier less => others earlier (less.trans before), wifiIeFrom, if_neg element.fits.not_gt,
      if_neg (others place before element), if_neg (by omega)]

lemma wifiGetIe_eq : wifiGetIe frame len (beaconHeaderLen frame len) type =
    wifiIeFrom frame len type (beaconHeaderLen frame len) := by
  unfold wifiGetIe
  split_ifs with short
  · rw [wifiIeFrom, if_pos (by omega)]
  · rfl

/-- The first element of a type is the one that is found. -/
theorem wifiGetIe_eq_some_iff : wifiGetIe frame len (beaconHeaderLen frame len) type = some place ↔
    IeAt frame len place ∧ frame place = type ∧ ∀ earlier < place, IeAt frame len earlier → frame earlier ≠ type := by
  have find {place : Nat} (element : IeAt frame len place) (same : frame place = type)
      (others : ∀ earlier < place, IeAt frame len earlier → frame earlier ≠ type) :
      wifiIeFrom frame len type (beaconHeaderLen frame len) = some place := by
    rw [wifiIeFrom_skip element others, wifiIeFrom, if_neg element.fits.not_gt, if_pos same]
  rw [wifiGetIe_eq]
  constructor
  · intro walk
    have fits : beaconHeaderLen frame len + 2 ≤ len := by
      by_contra short
      rw [wifiIeFrom, if_pos (by omega)] at walk
      cases walk
    obtain ⟨element, same⟩ := wifiIeFrom_found (.first fits) walk
    refine ⟨element, same, ?_⟩
    -- Of the elements with the type, the walk stops at the first.
    intro earlier
    induction earlier using Nat.strong_induction_on with
    | _ earlier ih =>
      intro less other equal
      have stop := find other equal fun e before => ih e before (before.trans less)
      exact absurd (Option.some.inj (stop.symm.trans walk)) less.ne
  · exact fun ⟨element, same, others⟩ => find element same others

/-- Nothing behind a beacon is read exactly if an element that is cut repeats the type of one before it. -/
theorem beacon_inside_iff {beacon : Beacon} (accepted : wifiParseBeacon frame len = some beacon) :
    BeaconInside frame len beacon ↔ ∀ place, IeAt frame len place → len < ieEnd frame place →
      ∃ earlier < place, IeAt frame len earlier ∧ frame earlier = frame place := by
  constructor
  · intro inside place element cut
    by_contra! others
    have walk := wifiGetIe_eq_some_iff.mpr ⟨element, rfl, others⟩
    exact absurd (inside.element _ _ walk) cut.not_ge
  · intro repeated
    have inside : ∀ type place, wifiGetIe frame len (beaconHeaderLen frame len) type = some place →
        ieEnd frame place ≤ len := by
      intro type place walk
      obtain ⟨element, same, others⟩ := wifiGetIe_eq_some_iff.mp walk
      by_contra! cut
      obtain ⟨earlier, less, other, equal⟩ := repeated place element cut
      exact others earlier less other (equal.trans same)
    unfold wifiParseBeacon at accepted
    split_ifs at accepted
    cases accepted
    refine ⟨inside, ?_, ?_⟩
    · cases walk : wifiGetIe frame len (beaconHeaderLen frame len) ieSsid with
      | none => exact ⟨0, Nat.zero_le _, rfl⟩
      | some place =>
        have stands := inside _ _ walk
        unfold ieEnd at stands
        exact ⟨place + 2, by simp; omega, by simp⟩
    · cases walk : wifiGetIe frame len (beaconHeaderLen frame len) ieDsParams with
      | none => exact .inl rfl
      | some place =>
        have stands := inside _ _ walk
        dsimp only
        split_ifs with some
        · have size := UInt8.le_iff_toNat_le.mp some
          exact .inr ⟨_, by simp [ieEnd] at stands size; omega, rfl⟩
        · exact .inl rfl

/-- A beacon that ends in the first bytes of its SSID. -/
def cutBeacon (place : Nat) : UInt8 := if place = 0 then 0x80 else if place < 36 then 0 else [0, 5].getD (place - 36) 42

/-- A beacon that holds the whole of its SSID. -/
theorem beacon_inside_iff_whole :
    ∃ beacon, wifiParseBeacon cutBeacon 43 = some beacon ∧ BeaconInside cutBeacon 43 beacon := by
  -- The frame ends with its only element.
  have only : ∀ place, IeAt cutBeacon 43 place → place = 36 := by
    intro place element
    induction element with
    | first => rfl
    | next _ fits ih =>
      rw [ih] at fits
      exact absurd fits (by decide)
  refine ⟨_, rfl, (beacon_inside_iff rfl).mpr fun place element cut => ?_⟩
  rw [only place element] at cut
  exact absurd cut (by decide)

/-- The bytes behind the frame are copied as the SSID. -/
theorem beacon_ssid_outside :
    ∃ beacon, wifiParseBeacon cutBeacon 38 = some beacon ∧ beacon.ssid = replicate 5 (cutBeacon 38) := by
  have walk : wifiGetIe cutBeacon 38 (beaconHeaderLen cutBeacon 38) ieSsid = some 36 := by
    rw [wifiGetIe_eq, wifiIeFrom]
    rfl
  refine ⟨_, rfl, ?_⟩
  simp only [walk]
  rfl

end Galio
