import Pyhems.Library.Fallible
import Pyhems.Protocol.FrameCodec
import Pyhems.Runtime.Router

/-! What a frame says about its sender: the node id and the instances of the node. The count byte of
an instance list comes from the network and may disagree with the data in either direction; the
reading neither fails nor reads past the data, and takes every instance that is there. -/
namespace Pyhems.Runtime
open Protocol Library

/-! ### Reading with the exceptions of its parts -/

/-- One turn of the loop over the instances of a list. -/
def appendInstance (edt : Bytes) (instances : List EOJ) (i : Nat) : Except Exn (List EOJ) :=
  let offset := 1+i*3
  if offset+3 ≤ edt.length then do
    let eoj ← EOJ.fromBytes (slice edt offset (offset+3))
    return instances ++ [eoj]
  else return instances

/-- One turn of the loop over the properties. -/
def readProperty (info : Option NodeId × List EOJ) (prop : Property) :
    Except Exn (Option NodeId × List EOJ) :=
  if prop.edt = [] then return info
  else if prop.epc = EPC.identificationNumber then return (some (hex prop.edt),info.2)
  else if prop.epc = EPC.instanceList ∨ prop.epc = EPC.selfNodeInstanceList then do
    let count ← byteAt prop.edt 0
    let instances ← (List.range count.toNat).foldlM (appendInstance prop.edt) info.2
    return (info.1,instances)
  else return info

/-- `_extract_discovery_info`, where what its parts raise is not caught. -/
def readDiscoveryInfo (frame : Frame) : Except Exn (Option NodeId × List EOJ) := do
  let (nodeId,instances) ← frame.properties.foldlM readProperty (none,[])
  return (nodeId,FirstMatch.fromkeys instances)

/-! ### What is to be read -/

def eojOf (a b c : UInt8) : EOJ :=
  ⟨a.toNat*65536+b.toNat*256+c.toNat,by have := a.toNat_lt; have := b.toNat_lt; have := c.toNat_lt; omega⟩

/-- The objects that the bytes hold, three by three. -/
def eojsIn : Bytes → List EOJ
  | a :: b :: c :: data => eojOf a b c :: eojsIn data
  | _ => []

/-- The instances of a list: as many as the count byte says, or as there are. -/
def listing : Bytes → List EOJ
  | [] => []
  | count :: data => (eojsIn data).take (min count.toNat (data.length/3))

def isInstanceList (prop : Property) : Bool :=
  prop.epc = EPC.instanceList ∨ prop.epc = EPC.selfNodeInstanceList

/-- The instances of all lists of a frame, one list after the other. -/
def listings (frame : Frame) : List EOJ :=
  (frame.properties.filter isInstanceList).flatMap fun prop => listing prop.edt

def isIdentification (prop : Property) : Bool :=
  prop.epc = EPC.identificationNumber ∧ prop.edt ≠ []

/-- The last identification number of a frame that is not empty. -/
def identificationOf (frame : Frame) : Option NodeId :=
  (frame.properties.filter isIdentification).getLast?.map fun prop => hex prop.edt

/-! ### One instance list -/

theorem length_of_short {data : Bytes} (h : ∀ a b c rest, data = a :: b :: c :: rest → False) :
    data.length < 3 := by
  rcases data with _ | ⟨a,_ | ⟨b,_ | ⟨c,data⟩⟩⟩
  · simp
  · simp
  · simp
  · exact absurd rfl (h a b c data)

theorem length_eojsIn (data : Bytes) : (eojsIn data).length = data.length/3 := by
  fun_induction eojsIn data with
  | case1 a b c data ih =>
    simp only [List.length_cons,ih]
    omega
  | case2 data hshort =>
    rw [Nat.div_eq_of_lt (length_of_short hshort)]
    rfl

theorem fromBytes_eojOf (a b c : UInt8) : EOJ.fromBytes [a,b,c] = .ok (eojOf a b c) := by
  have hvalue : Protocol.fromBytes [a,b,c] = (eojOf a b c).value := by
    simp [Protocol.fromBytes,BigEndian.value,eojOf]
    omega
  simp [EOJ.fromBytes,hvalue,EOJ.make,(eojOf a b c).valid]

/-- The instance that a list has at an index. -/
def instanceAt (edt : Bytes) (i : Nat) : Option EOJ :=
  let offset := 1+i*3
  if offset+3 ≤ edt.length then (EOJ.fromBytes (slice edt offset (offset+3))).toOption else none

/-- The next offset of the loop is three bytes further. -/
theorem instanceAt_succ (count a b c : UInt8) (data : Bytes) (i : Nat) :
    instanceAt (count :: a :: b :: c :: data) (i+1) = instanceAt (count :: data) i := by
  have hoffset : 1+(i+1)*3 = i*3+4 := by omega
  have hslice : slice (count :: a :: b :: c :: data) (i*3+4) (i*3+4+3) =
      slice (count :: data) (1+i*3) (1+i*3+3) := by
    simp [slice,Nat.add_comm 1]
  have hfits : i*3+4+3 ≤ (count :: a :: b :: c :: data).length ↔ 1+i*3+3 ≤ (count :: data).length := by
    simp only [List.length_cons]
    omega
  simp only [instanceAt,hoffset,hslice,hfits]

theorem instanceAt_cons (count : UInt8) (data : Bytes) (i : Nat) :
    instanceAt (count :: data) i = (eojsIn data)[i]? := by
  fun_induction eojsIn data generalizing i with
  | case1 a b c data ih =>
    cases i with
    | zero =>
      have hfits : 1+0*3+3 ≤ (count :: a :: b :: c :: data).length := by simp
      have hslice : slice (count :: a :: b :: c :: data) (1+0*3) (1+0*3+3) = [a,b,c] := rfl
      simp only [instanceAt,if_pos hfits,hslice,fromBytes_eojOf]
      rfl
    | succ i => rw [instanceAt_succ,ih,List.getElem?_cons_succ]
  | case2 data hshort =>
    have hmissing : ¬ 1+i*3+3 ≤ (count :: data).length := by
      have hlength := length_of_short hshort
      simp only [List.length_cons]
      omega
    simp only [instanceAt,if_neg hmissing]
    rfl

theorem appendInstance_eq (edt : Bytes) (instances : List EOJ) (i : Nat) :
    appendInstance edt instances i = .ok (instances ++ (instanceAt edt i).toList) := by
  unfold appendInstance instanceAt
  dsimp only
  split
  · next hfits =>
    obtain ⟨eoj,heoj,-⟩ := EOJ.fromBytes_ok (slice edt (1+i*3) (1+i*3+3)) (by
      rw [length_slice hfits]
      omega)
    rw [heoj]
    rfl
  · simp [pure,Except.pure]

theorem listedInstances_eq (edt : Bytes) : listedInstances edt = listing edt := by
  cases edt with
  | nil => rfl
  | cons count data =>
    have htake (n : Nat) : (List.range n).filterMap (instanceAt (count :: data)) = (eojsIn data).take n := by
      induction n with
      | zero => rfl
      | succ n ih =>
        rw [List.range_succ,List.filterMap_append,ih,List.take_add_one,← instanceAt_cons]
        cases hinstance : instanceAt (count :: data) n <;> simp [hinstance]
    have hlisted : listedInstances (count :: data) = (eojsIn data).take count.toNat := htake count.toNat
    rw [hlisted,listing,← length_eojsIn,← List.take_take,List.take_length]

/-! ### The frame -/

theorem readProperty_eq (info : Option NodeId × List EOJ) (prop : Property) :
    readProperty info prop = .ok (extractProperty info prop) := by
  unfold readProperty extractProperty
  split
  · rfl
  · next hedt =>
    split
    · rfl
    · split
      · obtain ⟨count,data,hdata⟩ := List.exists_cons_of_ne_nil hedt
        have hloop (n : Nat) := Fallible.foldlM_append_toList (appendInstance_eq prop.edt) (List.range n) info.2
        have hcount : byteAt prop.edt 0 = .ok (prop.edt.headD 0) := by simp [hdata,byteAt]
        simp only [hcount,bind,Except.bind]
        rw [hloop]
        rfl
      · rfl

/-- Nothing that the parts can raise is raised: the function the runtime is built on. -/
theorem readDiscoveryInfo_eq (frame : Frame) :
    readDiscoveryInfo frame = .ok (extractDiscoveryInfo frame) := by
  unfold readDiscoveryInfo extractDiscoveryInfo
  have hloop (info : Option NodeId × List EOJ) (properties : List Property) :
      properties.foldlM readProperty info = .ok (properties.foldl extractProperty info) := by
    induction properties generalizing info with
    | nil => rfl
    | cons prop properties ih =>
      rw [List.foldlM_cons,readProperty_eq]
      exact ih _
  rw [hloop]
  rfl

/-- What the loop over the properties has found. -/
theorem foldl_extractProperty (properties : List Property) :
    properties.foldl extractProperty (none,[]) =
      ((properties.filter isIdentification).getLast?.map fun prop => hex prop.edt,
        (properties.filter isInstanceList).flatMap fun prop => listing prop.edt) := by
  induction properties using List.reverseRecOn with
  | nil => rfl
  | append_singleton properties prop ih =>
    rw [List.foldl_append,ih,List.filter_append,List.filter_append,List.getLast?_append,
      List.flatMap_append,List.foldl_cons,List.foldl_nil]
    unfold extractProperty
    by_cases hedt : prop.edt = []
    · have hid : isIdentification prop = false := by simp [isIdentification,hedt]
      cases hlist : isInstanceList prop <;> simp [hedt,hid,hlist,listing]
    · by_cases hepc : prop.epc = EPC.identificationNumber
      · have hid : isIdentification prop = true := by simp [isIdentification,hedt,hepc]
        have hlist : isInstanceList prop = false := by
          simp [isInstanceList,hepc,EPC.identificationNumber,EPC.instanceList,EPC.selfNodeInstanceList]
        simp [hedt,hepc,hid,hlist]
      · have hid : isIdentification prop = false := by simp [isIdentification,hepc]
        by_cases hlist : prop.epc = EPC.instanceList ∨ prop.epc = EPC.selfNodeInstanceList
        · have hlisted : isInstanceList prop = true := decide_eq_true hlist
          simp [hedt,hepc,hlist,hid,hlisted,listedInstances_eq]
        · have hlisted : isInstanceList prop = false := decide_eq_false hlist
          simp [hedt,hepc,hlist,hid,hlisted]

/-- Discovery reads what a frame says, and never fails: the node id is the last identification number,
and the instances are those of all lists of the frame, each at its first occurrence. -/
theorem readDiscoveryInfo_exact (frame : Frame) :
    ∃ instances, readDiscoveryInfo frame = .ok (identificationOf frame,instances) ∧
      FirstMatch.FirstOccurrences (listings frame) instances := by
  refine ⟨FirstMatch.fromkeys (listings frame),?_,FirstMatch.fromkeys_firstOccurrences _⟩
  rw [readDiscoveryInfo_eq,extractDiscoveryInfo,foldl_extractProperty]
  rfl

/-- The count byte says two, and the data has one instance and a byte of the next. -/
example : (listing [2,0x01,0x30,0x01,0x02]).map EOJ.value = [0x013001] := by decide

end Pyhems.Runtime
