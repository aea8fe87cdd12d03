import Mathlib.Data.List.Basic
import Pyhems.Library.Fallible
import Pyhems.Protocol.Frame

/-! The two directions of the frame codec. Encoding is total on well-formed frames and
decoding reads them back, also in front of other data; decoding arbitrary data
fails only with `FrameDecodeError` and otherwise consumes a prefix it can rebuild. -/
namespace Pyhems.Protocol
open Library

/-- The frames that fit the wire format. -/
structure Frame.WellFormed (frame : Frame) : Prop where
  tid : frame.tid < 2^16
  count : frame.properties.length ≤ 255
  epc : ∀ prop ∈ frame.properties, prop.epc < 256
  edt : ∀ prop ∈ frame.properties, prop.edt.length ≤ 255

/-- The bytes of one property that fits. -/
def Property.wire (prop : Property) : Bytes :=
  UInt8.ofNat prop.epc :: UInt8.ofNat prop.pdc :: prop.edt

/-- The bytes of a frame that fits. -/
def Frame.wire (frame : Frame) : Bytes :=
  [ehd1,ehd2] ++ BigEndian.digits 2 frame.tid ++ BigEndian.digits 3 frame.seoj.value ++
    BigEndian.digits 3 frame.deoj.value ++
      [frame.esv.value,UInt8.ofNat frame.properties.length] ++ frame.properties.flatMap Property.wire

/-! ### Slices -/

theorem slice_append_slice {data : Bytes} {a b c : Nat} (hab : a ≤ b) (hbc : b ≤ c) :
    slice data a b ++ slice data b c = slice data a c := by
  have hdrop : data.drop b = (data.drop a).drop (b-a) := by
    rw [List.drop_drop]
    congr 1
    omega
  have hsum : c-a = (b-a)+(c-b) := by omega
  rw [slice,slice,slice,hdrop,hsum,List.take_add]

theorem slice_succ {data : Bytes} {a : Nat} (h : a < data.length) :
    slice data a (a+1) = [data[a]] := by
  rw [slice,List.drop_eq_getElem_cons h,Nat.add_sub_cancel_left]
  rfl

theorem slice_zero (data : Bytes) (stop : Nat) : slice data 0 stop = data.take stop := by
  simp [slice]

theorem slice_middle (before middle after : Bytes) :
    slice (before ++ middle ++ after) before.length (before.length+middle.length) = middle := by
  simp [slice]

/-! ### Services and objects -/

theorem ESV.ofValue_value (esv : ESV) : ESV.ofValue esv.value = .ok esv := by
  cases esv <;> rfl

theorem ESV.value_of_ofValue {value : UInt8} {esv : ESV} (h : ESV.ofValue value = .ok esv) :
    esv.value = value := by
  unfold ESV.ofValue at h
  split at h
  · next found hfound =>
    cases h
    simpa using List.find?_some hfound
  · cases h

theorem decodeEsv_value (esv : ESV) : decodeEsv esv.value = .ok esv := by
  rw [decodeEsv,ESV.ofValue_value]

/-- An unknown service is reported as a decode error, never as the enum's own error. -/
theorem decodeEsv_cases (value : UInt8) :
    (∃ text, decodeEsv value = .error (.frameDecodeError text)) ∨
      ∃ esv, decodeEsv value = .ok esv ∧ esv.value = value := by
  cases h : ESV.ofValue value with
  | ok esv => exact Or.inr ⟨esv,by rw [decodeEsv,h],ESV.value_of_ofValue h⟩
  | error exn =>
    left
    unfold ESV.ofValue at h
    split at h
    · cases h
    · next hnone =>
      cases h
      exact ⟨_,by rw [decodeEsv,ESV.ofValue,hnone]⟩

theorem EOJ.toBytes_eq (eoj : EOJ) : eoj.toBytes = .ok (BigEndian.digits 3 eoj.value) :=
  toBytes_of_lt (by have := eoj.valid; omega)

theorem EOJ.fromBytes_digits (eoj : EOJ) :
    EOJ.fromBytes (BigEndian.digits 3 eoj.value) = .ok eoj := by
  have hv : Protocol.fromBytes (BigEndian.digits 3 eoj.value) = eoj.value :=
    BigEndian.value_digits_of_lt (by have := eoj.valid; omega)
  simp [EOJ.fromBytes,hv,EOJ.make,eoj.valid]

/-- Three bytes always form an object, and it is written back to the same bytes. -/
theorem EOJ.fromBytes_ok (data : Bytes) (h : data.length = 3) :
    ∃ eoj, EOJ.fromBytes data = .ok eoj ∧ eoj.toBytes = .ok data := by
  have hlt := BigEndian.value_lt data
  rw [h] at hlt
  have hv : Protocol.fromBytes data ≤ 0xFFFFFF := by
    rw [Protocol.fromBytes]
    omega
  refine ⟨⟨Protocol.fromBytes data,hv⟩,by simp [EOJ.fromBytes,h,EOJ.make,hv],?_⟩
  rw [EOJ.toBytes,← h]
  exact toBytes_fromBytes data

/-! ### Encoding then decoding -/

theorem Property.encode_eq {prop : Property} (hepc : prop.epc < 256) (hedt : prop.edt.length ≤ 255) :
    prop.encode = .ok prop.wire := by
  have hpdc : prop.pdc < 256 := by
    rw [Property.pdc]
    omega
  simp [Property.encode,appended_of_lt hepc,appended_of_lt hpdc,Property.wire,bind,Except.bind,pure,
    Except.pure]

theorem encodeProperties_eq {props : List Property} (hepc : ∀ prop ∈ props, prop.epc < 256)
    (hedt : ∀ prop ∈ props, prop.edt.length ≤ 255) :
    encodeProperties props = .ok (props.flatMap Property.wire) := by
  induction props with
  | nil => rfl
  | cons prop rest ih =>
    have hhead := Property.encode_eq (hepc prop (by simp)) (hedt prop (by simp))
    have htail := ih (fun p hp => hepc p (by simp [hp])) (fun p hp => hedt p (by simp [hp]))
    simp [encodeProperties,hhead,htail,bind,Except.bind,pure,Except.pure]

theorem Frame.encode_eq {frame : Frame} (h : frame.WellFormed) : frame.encode = .ok frame.wire := by
  have htid : toBytes frame.tid 2 = .ok (BigEndian.digits 2 frame.tid) := toBytes_of_lt h.tid
  have hcount := h.count
  have hopc := appended_of_lt (show frame.properties.length < 256 by omega)
  simp [Frame.encode,Frame.wire,htid,EOJ.toBytes_eq,hopc,encodeProperties_eq h.epc h.edt,bind,
    Except.bind,pure,Except.pure]

theorem appended_lt {n : Nat} {b : UInt8} (h : appended n = .ok b) : n < 256 := by
  unfold appended at h
  split at h
  · assumption
  · cases h

theorem encodeProperties_lt {props : List Property} {data : Bytes} (h : encodeProperties props = .ok data) :
    ∀ prop ∈ props, prop.epc < 256 ∧ prop.edt.length ≤ 255 := by
  induction props generalizing data with
  | nil => exact nofun
  | cons prop rest ih =>
    obtain ⟨_,hhead,h⟩ := Fallible.bind_eq_ok.mp h
    obtain ⟨_,htail,_⟩ := Fallible.bind_eq_ok.mp h
    obtain ⟨_,hepc,h⟩ := Fallible.bind_eq_ok.mp hhead
    obtain ⟨_,hpdc,_⟩ := Fallible.bind_eq_ok.mp h
    refine List.forall_mem_cons.mpr ⟨⟨appended_lt hepc,?_⟩,ih htail⟩
    have hlt := appended_lt hpdc
    rw [Property.pdc] at hlt
    omega

/-- Only what fits is encoded. -/
theorem Frame.wellFormed_of_encode {frame : Frame} {data : Bytes} (h : frame.encode = .ok data) :
    frame.WellFormed := by
  obtain ⟨_,htid,h⟩ := Fallible.bind_eq_ok.mp h
  obtain ⟨_,_,h⟩ := Fallible.bind_eq_ok.mp h
  obtain ⟨_,_,h⟩ := Fallible.bind_eq_ok.mp h
  obtain ⟨_,hopc,h⟩ := Fallible.bind_eq_ok.mp h
  obtain ⟨_,hproperties,_⟩ := Fallible.bind_eq_ok.mp h
  have hlt := encodeProperties_lt hproperties
  have hcount := appended_lt hopc
  refine ⟨?_,by omega,fun prop hprop => (hlt prop hprop).1,fun prop hprop => (hlt prop hprop).2⟩
  unfold toBytes at htid
  split at htid
  · assumption
  · cases htid

/-- The property loop reads back what was written at its offset, whatever follows. -/
theorem decodeProperties_wire (props : List Property) (before after : Bytes)
    (hepc : ∀ prop ∈ props, prop.epc < 256) (hedt : ∀ prop ∈ props, prop.edt.length ≤ 255) :
    decodeProperties (before ++ props.flatMap Property.wire ++ after) props.length before.length =
      .ok props := by
  induction props generalizing before with
  | nil => rfl
  | cons prop rest ih =>
    have he := hepc prop (by simp)
    have hd := hedt prop (by simp)
    have hepcByte : (UInt8.ofNat prop.epc).toNat = prop.epc := by
      rw [UInt8.toNat_ofNat']
      omega
    have hpdcByte : (UInt8.ofNat prop.pdc).toNat = prop.edt.length := by
      rw [UInt8.toNat_ofNat',Property.pdc]
      omega
    have hih := ih (before ++ prop.wire) (fun p hp => hepc p (by simp [hp]))
      (fun p hp => hedt p (by simp [hp]))
    have hdata : before ++ (prop :: rest).flatMap Property.wire ++ after =
        before ++ prop.wire ++ rest.flatMap Property.wire ++ after := by
      simp [List.append_assoc]
    rw [hdata]
    generalize hall : before ++ prop.wire ++ rest.flatMap Property.wire ++ after = data at hih ⊢
    have hlen : before.length + (2+prop.edt.length) ≤ data.length := by
      rw [← hall]
      simp [Property.wire]
      omega
    have h0 : byteAt data before.length = .ok (UInt8.ofNat prop.epc) := by
      simp [← hall,byteAt,Property.wire]
    have h1 : byteAt data (before.length+1) = .ok (UInt8.ofNat prop.pdc) := by
      simp [← hall,byteAt,Property.wire]
    have hedtSlice : slice data (before.length+2) (before.length+2+prop.edt.length) = prop.edt := by
      have hs := slice_middle (before ++ [UInt8.ofNat prop.epc,UInt8.ofNat prop.pdc]) prop.edt
        (rest.flatMap Property.wire ++ after)
      have hshape : before ++ [UInt8.ofNat prop.epc,UInt8.ofNat prop.pdc] ++ prop.edt ++
          (rest.flatMap Property.wire ++ after) = data := by
        rw [← hall]
        simp [Property.wire,List.append_assoc]
      rw [hshape] at hs
      simpa [Nat.add_assoc] using hs
    have hstop : (before ++ prop.wire).length = before.length+2+prop.edt.length := by
      simp [Property.wire]
      omega
    rw [hstop] at hih
    simp only [List.length_cons,decodeProperties,h0,h1,bind,Except.bind,hpdcByte,hepcByte,hih,
      hedtSlice,pure,Except.pure]
    rw [if_neg (by omega),if_neg (by omega)]

/-- A well-formed frame is read back from its bytes, also when other data follows. -/
theorem Frame.decode_wire {frame : Frame} (h : frame.WellFormed) (after : Bytes) :
    Frame.decode (frame.wire ++ after) = .ok frame := by
  have hcount := h.count
  have hopc : (UInt8.ofNat frame.properties.length).toNat = frame.properties.length := by
    rw [UInt8.toNat_ofNat']
    omega
  have htid : fromBytes (BigEndian.digits 2 frame.tid) = frame.tid :=
    BigEndian.value_digits_of_lt h.tid
  have hseoj := EOJ.fromBytes_digits frame.seoj
  have hdeoj := EOJ.fromBytes_digits frame.deoj
  -- The header is twelve bytes, so every fixed offset is found by computation.
  obtain ⟨t₀,t₁,ht⟩ := List.length_eq_two.mp (BigEndian.length_digits 2 frame.tid)
  obtain ⟨s₀,s₁,s₂,hs⟩ := List.length_eq_three.mp (BigEndian.length_digits 3 frame.seoj.value)
  obtain ⟨d₀,d₁,d₂,hd⟩ := List.length_eq_three.mp (BigEndian.length_digits 3 frame.deoj.value)
  have hprops := decodeProperties_wire frame.properties
    [ehd1,ehd2,t₀,t₁,s₀,s₁,s₂,d₀,d₁,d₂,frame.esv.value,UInt8.ofNat frame.properties.length] after
    h.epc h.edt
  rw [ht] at htid
  rw [hs] at hseoj
  rw [hd] at hdeoj
  rw [Frame.wire,ht,hs,hd]
  simp only [List.cons_append,List.nil_append] at hprops ⊢
  simp only [List.length_cons,List.length_nil] at hprops
  simp [Frame.decode,byteAt,slice,htid,hseoj,hdeoj,decodeEsv_value,hopc,hprops,bind,Except.bind,pure,
    Except.pure]

/-! ### Decoding then encoding -/

/-- What the property loop consumed is exactly what encoding its result writes. -/
theorem decodeProperties_cases (data : Bytes) (opc offset : Nat) (hoffset : offset ≤ data.length) :
    (∃ text, decodeProperties data opc offset = .error (.frameDecodeError text)) ∨
      ∃ props stop, decodeProperties data opc offset = .ok props ∧ props.length = opc ∧
        offset ≤ stop ∧ stop ≤ data.length ∧
        encodeProperties props = .ok (slice data offset stop) := by
  induction opc generalizing offset with
  | zero => exact Or.inr ⟨[],offset,rfl,rfl,le_refl _,hoffset,by simp [encodeProperties,slice]; rfl⟩
  | succ opc ih =>
    by_cases hhead : offset+2 > data.length
    · exact Or.inl ⟨_,by rw [decodeProperties,if_pos hhead]; rfl⟩
    have hlt0 : offset < data.length := by omega
    have hlt1 : offset+1 < data.length := by omega
    have h0 := byteAt_of_lt hlt0
    have h1 := byteAt_of_lt hlt1
    have hs0 := slice_succ hlt0
    have hs1 := slice_succ hlt1
    generalize data[offset] = epc at h0 hs0
    generalize data[offset+1] = pdc at h1 hs1
    by_cases hbody : offset+2+pdc.toNat > data.length
    · refine Or.inl ⟨"Incomplete property data",?_⟩
      simp only [decodeProperties,h0,h1,bind,Except.bind]
      rw [if_neg hhead,if_pos hbody]
      rfl
    rcases ih (offset+2+pdc.toNat) (by omega) with ⟨text,herr⟩ | ⟨props,stop,hok,hlen,hle,hstop,henc⟩
    · refine Or.inl ⟨text,?_⟩
      simp only [decodeProperties,h0,h1,bind,Except.bind,herr]
      rw [if_neg hhead,if_neg hbody]
    · let edt := slice data (offset+2) (offset+2+pdc.toNat)
      have hedt : edt.length = pdc.toNat := by
        rw [length_slice (by omega)]
        omega
      refine Or.inr ⟨⟨epc.toNat,edt⟩ :: props,stop,?_,by simp [hlen],by omega,hstop,?_⟩
      · simp only [decodeProperties,h0,h1,bind,Except.bind,hok,pure,Except.pure]
        rw [if_neg hhead,if_neg hbody]
      · have hbytes : slice data offset stop =
            epc :: pdc :: edt ++ slice data (offset+2+pdc.toNat) stop := by
          rw [← slice_append_slice (show offset ≤ offset+1 by omega) (show offset+1 ≤ stop by omega),
            ← slice_append_slice (show offset+1 ≤ offset+1+1 by omega)
              (show offset+1+1 ≤ stop by omega),
            ← slice_append_slice (show offset+1+1 ≤ offset+2+pdc.toNat by omega) hle,hs0,hs1]
          rfl
        simp only [encodeProperties,Property.encode,Property.pdc,hedt,appended_toNat,henc,bind,
          Except.bind,pure,Except.pure,hbytes]

private theorem toBytes_slice (data : Bytes) {a b width : Nat} (hw : b-a = width)
    (hb : b ≤ data.length) : toBytes (fromBytes (slice data a b)) width = .ok (slice data a b) := by
  have h := toBytes_fromBytes (slice data a b)
  rwa [length_slice hb,hw] at h

private theorem slice_pair {data : Bytes} {a : Nat} {x y : UInt8} (h : a+1 < data.length)
    (hx : byteAt data a = .ok x) (hy : byteAt data (a+1) = .ok y) : slice data a (a+2) = [x,y] := by
  rw [byteAt_of_lt (by omega)] at hx
  rw [byteAt_of_lt h] at hy
  cases hx
  cases hy
  rw [← slice_append_slice (show a ≤ a+1 by omega) (show a+1 ≤ a+2 by omega),
    slice_succ (by omega),slice_succ h]
  rfl

/-- Decoding never fails with another exception, and a decoded frame is written back to
the first `stop` bytes of the data, its property count being byte 11. -/
theorem Frame.decode_cases (data : Bytes) :
    (∃ text, Frame.decode data = .error (.frameDecodeError text)) ∨
      ∃ frame opc stop, Frame.decode data = .ok frame ∧ frame.encode = .ok (data.take stop) ∧
        12 ≤ stop ∧ stop ≤ data.length ∧ byteAt data 11 = .ok opc ∧
        frame.properties.length = opc.toNat ∧
        encodeProperties frame.properties = .ok (slice data 12 stop) := by
  by_cases hlen : data.length < 12
  · exact Or.inl ⟨"Frame too short",by rw [Frame.decode,if_pos hlen]; rfl⟩
  obtain ⟨first,h0⟩ : ∃ b, byteAt data 0 = .ok b := ⟨_,byteAt_of_lt (by omega)⟩
  obtain ⟨second,h1⟩ : ∃ b, byteAt data 1 = .ok b := ⟨_,byteAt_of_lt (by omega)⟩
  obtain ⟨service,h10⟩ : ∃ b, byteAt data 10 = .ok b := ⟨_,byteAt_of_lt (by omega)⟩
  obtain ⟨opc,h11⟩ : ∃ b, byteAt data 11 = .ok b := ⟨_,byteAt_of_lt (by omega)⟩
  by_cases hhead : first ≠ ehd1 ∨ second ≠ ehd2
  · refine Or.inl
      ⟨s!"Invalid ECHONET Lite header: {hexLiteral first.toNat} {hexLiteral second.toNat}",?_⟩
    simp only [Frame.decode,h0,h1,bind,Except.bind]
    rw [if_neg hlen,if_pos hhead]
    rfl
  obtain ⟨seoj,hseoj,hseojBytes⟩ := EOJ.fromBytes_ok (slice data 4 7)
    (length_slice (by omega))
  obtain ⟨deoj,hdeoj,hdeojBytes⟩ := EOJ.fromBytes_ok (slice data 7 10)
    (length_slice (by omega))
  rcases decodeEsv_cases service with ⟨text,hesv⟩ | ⟨esv,hesv,hvalue⟩
  · refine Or.inl ⟨text,?_⟩
    simp only [Frame.decode,h0,h1,h10,bind,Except.bind,hseoj,hdeoj,hesv]
    rw [if_neg hlen,if_neg hhead]
  rcases decodeProperties_cases data opc.toNat 12 (by omega) with
    ⟨text,hprops⟩ | ⟨props,stop,hprops,hcount,hle,hstop,henc⟩
  · refine Or.inl ⟨text,?_⟩
    simp only [Frame.decode,h0,h1,h10,h11,bind,Except.bind,hseoj,hdeoj,hesv,hprops]
    rw [if_neg hlen,if_neg hhead]
  refine Or.inr ⟨⟨seoj,deoj,esv,fromBytes (slice data 2 4),props⟩,opc,stop,?_,?_,hle,hstop,h11,hcount,
    henc⟩
  · simp only [Frame.decode,h0,h1,h10,h11,bind,Except.bind,hseoj,hdeoj,hesv,hprops,pure,Except.pure]
    rw [if_neg hlen,if_neg hhead]
  · obtain ⟨rfl,rfl⟩ := not_or.mp hhead |>.imp not_not.mp not_not.mp
    have htid := toBytes_slice data (a := 2) (b := 4) rfl (by omega)
    have hopc : appended props.length = .ok opc := by rw [hcount,appended_toNat]
    have hmagic : slice data 0 2 = [ehd1,ehd2] := slice_pair (by omega) h0 h1
    have hcounts : slice data 10 12 = [service,opc] := slice_pair (by omega) h10 h11
    simp only [Frame.encode,htid,hseojBytes,hdeojBytes,hopc,henc,bind,Except.bind,pure,Except.pure,
      hvalue]
    rw [← hmagic,← hcounts,slice_append_slice (by omega) (by omega),
      slice_append_slice (by omega) (by omega),slice_append_slice (by omega) (by omega),
      slice_append_slice (by omega) (by omega),slice_append_slice (by omega) hle,slice_zero]

/-- Frames that fit the format survive the wire. Any other data is either refused with
`FrameDecodeError` or decodes to a frame whose bytes are the data's first `stop` ones:
the header and exactly as many properties as byte 11 announces. -/
theorem Frame.codec_exact :
    (∀ frame : Frame, frame.WellFormed →
      ∃ data, frame.encode = .ok data ∧ Frame.decode data = .ok frame) ∧
    ∀ data : Bytes, (∃ text, Frame.decode data = .error (.frameDecodeError text)) ∨
      ∃ frame opc stop, Frame.decode data = .ok frame ∧ frame.encode = .ok (data.take stop) ∧
        12 ≤ stop ∧ stop ≤ data.length ∧ byteAt data 11 = .ok opc ∧
        frame.properties.length = opc.toNat ∧
        encodeProperties frame.properties = .ok (slice data 12 stop) := by
  refine ⟨fun frame h => ⟨frame.wire,Frame.encode_eq h,?_⟩,Frame.decode_cases⟩
  simpa using Frame.decode_wire h []

/-- A notification with one value and one empty property. -/
theorem Frame.codec_exact_notification :
    let frame : Frame :=
      ⟨⟨0x013001,by decide⟩,⟨0x05FF01,by decide⟩,.inf,7,[⟨0x80,[0x30]⟩,⟨0xB0,[]⟩]⟩
    ∃ data, frame.encode = .ok data ∧ Frame.decode data = .ok frame :=
  Frame.codec_exact.1 _ ⟨by decide,by decide,by decide,by decide⟩

end Pyhems.Protocol
