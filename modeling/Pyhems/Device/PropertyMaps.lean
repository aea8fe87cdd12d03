import Mathlib.Order.Interval.Finset.Nat
import Pyhems.Device.NodeState
import Pyhems.Protocol.FrameCodec

/-! Property maps: what a device encodes is what is read. Up to 15 EPCs are listed in any order; from
16 on, a bitmap of 16 bytes has the low nibble of an EPC as its byte index and the high nibble as its
bit index. -/
namespace Pyhems.Device
open Protocol
open Get (Epc)

/-- The EPCs that a bitmap has a place for. -/
def InBitmap (epc : Nat) : Prop := 0x80 ≤ epc ∧ epc ≤ 0xFF

instance (epc : Nat) : Decidable (InBitmap epc) := inferInstanceAs (Decidable (_ ∧ _))

/-- A set of EPCs that a device can have. -/
structure EpcSet where
  epcs : Finset Epc
  valid : ∀ epc ∈ epcs, InBitmap epc

/-- A byte of the bitmap of a set of EPCs. -/
def bitmapByte (epcs : Finset Epc) (byteIdx : Nat) : UInt8 :=
  UInt8.ofNat (Nat.ofBits fun bitIdx : Fin 8 => decide (0x80+bitIdx.val*0x10+byteIdx ∈ epcs))

def bitmapOf (epcs : Finset Epc) : Bytes := (List.range 16).map (bitmapByte epcs)

namespace EpcSet

/-- The property maps that encode a set: a list in any order, or the bitmap. -/
inductive Encodes (s : EpcSet) : Bytes → Prop where
  | list (order : List Epc) (hnodup : order.Nodup) (horder : order.toFinset = s.epcs)
      (hcard : s.epcs.card ≤ 15) : Encodes s (UInt8.ofNat s.epcs.card :: order.map UInt8.ofNat)
  | bitmap (hcard : 16 ≤ s.epcs.card) : Encodes s (UInt8.ofNat s.epcs.card :: bitmapOf s.epcs)

/-- One property map of a set, its list in ascending order. -/
def encode (s : EpcSet) : Bytes :=
  UInt8.ofNat s.epcs.card ::
    if s.epcs.card ≤ 15 then (s.epcs.sort (· ≤ ·)).map UInt8.ofNat else bitmapOf s.epcs

theorem encodes_encode (s : EpcSet) : s.Encodes s.encode := by
  unfold encode
  split
  · next hcard =>
    exact .list (s.epcs.sort (· ≤ ·)) (Finset.sort_nodup _ _) (Finset.sort_toFinset _ _) hcard
  · next hcard => exact .bitmap (by omega)

variable {s : EpcSet}

theorem card_le (s : EpcSet) : s.epcs.card ≤ 128 := by
  have hsubset : s.epcs ⊆ Finset.Icc 0x80 0xFF := fun epc hepc => Finset.mem_Icc.mpr (s.valid epc hepc)
  simpa using Finset.card_le_card hsubset

/-- The count byte holds the number of EPCs. -/
theorem count_toNat (s : EpcSet) : (UInt8.ofNat s.epcs.card).toNat = s.epcs.card := by
  rw [UInt8.toNat_ofNat']
  exact Nat.mod_eq_of_lt (Nat.lt_of_le_of_lt s.card_le (by decide))

theorem epc_toNat (s : EpcSet) {epc : Epc} (h : epc ∈ s.epcs) : (UInt8.ofNat epc).toNat = epc := by
  rw [UInt8.toNat_ofNat']
  exact Nat.mod_eq_of_lt (Nat.lt_of_le_of_lt (s.valid epc h).2 (by decide))

end EpcSet

/-! ### Bitmaps -/

theorem testBit_bitmapByte (epcs : Finset Epc) (byteIdx : Nat) {bitIdx : Nat} (h : bitIdx < 8) :
    (bitmapByte epcs byteIdx).toNat.testBit bitIdx = decide (0x80+bitIdx*0x10+byteIdx ∈ epcs) := by
  rw [bitmapByte,UInt8.toNat_ofNat',Nat.mod_eq_of_lt (Nat.ofBits_lt_two_pow _),Nat.testBit_ofBits_lt _ _ h]

theorem mem_bitmapEpcs {bitmap : Bytes} {epc : Epc} : epc ∈ bitmapEpcs bitmap ↔
    ∃ byteIdx < 16, ∃ bitIdx < 8, (bitmap.getD byteIdx 0).toNat.testBit bitIdx = true ∧
      0x80+bitIdx*0x10+byteIdx = epc := by
  simp [bitmapEpcs,List.mem_flatMap,and_assoc]

theorem bitmapEpcs_valid {bitmap : Bytes} {epc : Epc} (h : epc ∈ bitmapEpcs bitmap) :
    InBitmap epc := by
  obtain ⟨byteIdx,hbyte,bitIdx,hbit,-,rfl⟩ := mem_bitmapEpcs.mp h
  unfold InBitmap
  omega

theorem InBitmap.place {epc : Nat} (h : InBitmap epc) : (epc-0x80)/0x10 < 8 ∧
    0x80+(epc-0x80)/0x10*0x10+(epc-0x80)%0x10 = epc := by
  unfold InBitmap at h
  omega

/-- The nibbles of an EPC are the only place where the bitmap can mark it. -/
theorem bitmapEpcs_bitmapOf (s : EpcSet) : (bitmapEpcs (bitmapOf s.epcs)).toFinset = s.epcs := by
  ext epc
  rw [List.mem_toFinset,mem_bitmapEpcs]
  have hbyte {byteIdx : Nat} (h : byteIdx < 16) :
      (bitmapOf s.epcs).getD byteIdx 0 = bitmapByte s.epcs byteIdx := by
    simp [bitmapOf,List.getD_eq_getElem?_getD,List.getElem?_range h]
  constructor
  · rintro ⟨byteIdx,hbyteIdx,bitIdx,hbitIdx,hset,rfl⟩
    rw [hbyte hbyteIdx,testBit_bitmapByte _ _ hbitIdx] at hset
    exact of_decide_eq_true hset
  · intro hepc
    obtain ⟨hbitIdx,hplace⟩ := (s.valid epc hepc).place
    refine ⟨(epc-0x80)%0x10,Nat.mod_lt _ (by decide),(epc-0x80)/0x10,hbitIdx,?_,hplace⟩
    rw [hbyte (Nat.mod_lt _ (by decide)),testBit_bitmapByte _ _ hbitIdx,hplace]
    exact decide_eq_true hepc

/-! ### Property maps -/

/-- The bytes that have to follow a count byte. -/
def requiredLength (count : UInt8) : Nat := if count.toNat ≤ 15 then count.toNat else 16

theorem parsePropertyMap_list {count : UInt8} {listed rest : Bytes} (hcount : count.toNat ≤ 15)
    (hlength : listed.length = count.toNat) :
    parsePropertyMap (count :: listed ++ rest) = some (listed.map UInt8.toNat).toFinset := by
  have hslice := slice_middle [count] listed rest
  rw [List.length_singleton,hlength,Nat.add_comm] at hslice
  have hlong : ¬ (count :: (listed ++ rest)).length < count.toNat+1 := by
    simp [hlength]
  rw [List.cons_append,parsePropertyMap,if_pos hcount,if_neg hlong]
  exact congrArg (fun bytes => some (bytes.map UInt8.toNat).toFinset) hslice

theorem parsePropertyMap_bitmap {count : UInt8} {bitmap rest : Bytes} (hcount : 16 ≤ count.toNat)
    (hlength : bitmap.length = 16) :
    parsePropertyMap (count :: bitmap ++ rest) = some (bitmapEpcs bitmap).toFinset := by
  have hslice := slice_middle [count] bitmap rest
  rw [List.length_singleton,hlength] at hslice
  have hlong : ¬ (count :: (bitmap ++ rest)).length < 17 := by simp [hlength]
  rw [List.cons_append,parsePropertyMap,if_neg (Nat.not_le.mpr hcount),if_neg hlong]
  exact congrArg (fun bytes => some (bitmapEpcs bytes).toFinset) hslice

/-- What a device encodes is read, whatever follows it. -/
theorem EpcSet.Encodes.parse {s : EpcSet} {edt : Bytes} (h : s.Encodes edt) (rest : Bytes) :
    parsePropertyMap (edt ++ rest) = some s.epcs := by
  cases h with
  | list order hnodup horder hcard =>
    have hlength : (order.map UInt8.ofNat).length = (UInt8.ofNat s.epcs.card).toNat := by
      rw [s.count_toNat,List.length_map,← horder,List.toFinset_card_of_nodup hnodup]
    have hepcs : (order.map UInt8.ofNat).map UInt8.toNat = order := by
      rw [List.map_map]
      refine (List.map_congr_left fun epc hepc => s.epc_toNat ?_).trans (List.map_id order)
      exact horder ▸ List.mem_toFinset.mpr hepc
    rw [parsePropertyMap_list (by rwa [s.count_toNat]) hlength,hepcs,horder]
  | bitmap hcard =>
    rw [parsePropertyMap_bitmap (by rwa [s.count_toNat]) (by simp [bitmapOf]),bitmapEpcs_bitmapOf]

/-- A map is malformed when the bytes that its count byte requires are not there. -/
theorem parsePropertyMap_eq_none {edt : Bytes} : parsePropertyMap edt = none ↔
    edt = [] ∨ ∃ count data, edt = count :: data ∧ data.length < requiredLength count := by
  unfold parsePropertyMap
  split
  · simp
  · next count data =>
    by_cases hcount : count.toNat ≤ 15
    · simp [hcount,requiredLength]
    · simp [hcount,requiredLength,Nat.succ_lt_succ_iff]

theorem parsePropertyMap_valid {count : UInt8} {data : Bytes} {epcs : Finset Epc}
    (hcount : 16 ≤ count.toNat) (h : parsePropertyMap (count :: data) = some epcs) :
    ∀ epc ∈ epcs, InBitmap epc := by
  rw [parsePropertyMap,if_neg (Nat.not_le.mpr hcount)] at h
  split at h
  · cases h
  · cases h
    exact fun epc hepc => bitmapEpcs_valid (List.mem_toFinset.mp hepc)

/-- Property maps decode what devices encode: every encoding of a set is read as the set, whatever
follows it; a byte string is refused exactly when bytes are missing, and a bitmap holds no EPC outside
its places. -/
theorem parsePropertyMap_exact :
    (∀ (s : EpcSet) (edt rest : Bytes), s.Encodes edt → parsePropertyMap (edt ++ rest) = some s.epcs) ∧
    ∀ edt : Bytes, (parsePropertyMap edt = none ↔
        edt = [] ∨ ∃ count data, edt = count :: data ∧ data.length < requiredLength count) ∧
      ∀ count data epcs, edt = count :: data → 16 ≤ count.toNat → parsePropertyMap edt = some epcs →
        ∀ epc ∈ epcs, InBitmap epc := by
  refine ⟨fun s edt rest h => h.parse rest,fun edt => ⟨parsePropertyMap_eq_none,?_⟩⟩
  rintro count data epcs rfl hcount h
  exact parsePropertyMap_valid hcount h

/-- A few EPCs, which are listed. -/
def fewEpcs : EpcSet := ⟨{0x80,0x9F},by decide⟩

/-- All EPCs with an even low nibble, which take the bitmap. -/
def manyEpcs : EpcSet := ⟨(Finset.range 64).image fun i => 0x80+2*i,by decide⟩

theorem parsePropertyMap_exact_maps :
    parsePropertyMap ([2,0x9F,0x80] ++ [0]) = some {0x80,0x9F} ∧
    parsePropertyMap (manyEpcs.encode ++ [0xFF]) = some manyEpcs.epcs ∧
    parsePropertyMap [3,0xFF] = none := by
  have hfew : fewEpcs.Encodes [2,0x9F,0x80] := .list [0x9F,0x80] (by decide) (by decide) (by decide)
  have hmalformed : parsePropertyMap [3,0xFF] = none :=
    (parsePropertyMap_exact.2 [3,0xFF]).1.mpr (.inr ⟨3,[0xFF],rfl,by decide⟩)
  exact ⟨parsePropertyMap_exact.1 fewEpcs _ [0] hfew,
    parsePropertyMap_exact.1 manyEpcs _ [0xFF] manyEpcs.encodes_encode,hmalformed⟩

/-- A setup reads the maps that the device encodes. -/
theorem extractPropertyMaps_encoded {values : Values} {getEpcs setEpcs infEpcs : EpcSet}
    {getMap setMap infMap : Bytes} (hget : getEpcs.Encodes getMap) (hset : setEpcs.Encodes setMap)
    (hinf : infEpcs.Encodes infMap) (hgetMap : values EPC.getPropertyMap = some getMap)
    (hsetMap : values EPC.setPropertyMap = some setMap)
    (hinfMap : values EPC.infPropertyMap = some infMap) :
    extractPropertyMaps values = (some getEpcs.epcs,some setEpcs.epcs,some infEpcs.epcs) := by
  have hparse {s : EpcSet} {edt : Bytes} (h : s.Encodes edt) : parsePropertyMap edt = some s.epcs := by
    simpa using h.parse []
  simp only [extractPropertyMaps,hgetMap,hsetMap,hinfMap,Option.getD_some,hparse hget,hparse hset,
    hparse hinf]

end Pyhems.Device
