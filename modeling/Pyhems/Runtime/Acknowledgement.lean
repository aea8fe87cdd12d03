import Pyhems.Protocol.FrameCodec
import Pyhems.Runtime.NodeCalls

/-! The acknowledgement of an INFC. The answer stands behind the early returns for requests, for an
INF of unknown origin and for frames of a node profile. -/
namespace Pyhems.Runtime
open Protocol Library

/-- The INFC_RES for a frame: its EPCs without data, on the way back. -/
def infcRes (frame : Frame) : Frame :=
  ⟨frame.deoj,frame.seoj,.infcRes,frame.tid,frame.properties.map fun prop => ⟨prop.epc,[]⟩⟩

/-- A received frame is acknowledged by one INFC_RES if it is an INFC, and by none otherwise. -/
structure Acknowledged (s t : System) (frame : Frame) (address : Address) : Prop where
  answers : t.router.answers =
    s.router.answers ++ if frame.esv = .infc then [(address,infcRes frame)] else []
  sent : frame.esv = .infc → ∀ delivered, s.client.sendToAddress (infcRes frame) delivered = .ok delivered

variable {s t : System} {frame : Frame} {address : Address}

theorem answerInfc_answers (s : Router) (frame : Frame) (address : Address) :
    (s.answerInfc frame address).answers =
      s.answers ++ if frame.esv = .infc then [(address,infcRes frame)] else [] := by
  unfold Router.answerInfc
  split
  · rfl
  · exact (List.append_nil _).symm

/-- The answers to a frame: an INFC of a device object is acknowledged. -/
theorem processFrame_answers (s : Router) (frame : Frame) (address : Address) :
    (s.processFrame frame address).answers = s.answers ++
      if frame.esv = .infc ∧ frame.seoj.classCode ≠ nodeProfileClass then [(address,infcRes frame)] else [] := by
  unfold Router.processFrame
  simp only
  split
  · next hrequest =>
    have hinfc : frame.esv ≠ .infc := by
      intro he
      rw [he] at hrequest
      exact absurd hrequest (by decide)
    rw [if_neg fun h => hinfc h.1,List.append_nil]
  · split
    · next hinf =>
      have hinfc : frame.esv ≠ .infc := by
        rw [hinf.1]
        decide
      rw [if_neg fun h => hinfc h.1,List.append_nil]
      exact (queueUnknownFrame_aside ..).answers
    · split
      · next hclass =>
        rw [if_neg fun h => h.2 hclass,List.append_nil]
        refine (introduce_aside ..).answers.trans ?_
        cases (extractDiscoveryInfo frame).1 <;> rfl
      · next hclass =>
        have hanswer := answerInfc_answers {s with clock := s.clock+1} frame address
        simp only [ne_eq,hclass,not_false_eq_true,and_true]
        split
        · exact (queueUnknownFrame_aside ..).answers.trans hanswer
        · exact hanswer

theorem infcRes_wellFormed (h : frame.WellFormed) : (infcRes frame).WellFormed := by
  refine ⟨h.tid,by rw [infcRes,List.length_map]; exact h.count,?_,?_⟩ <;>
    intro prop hprop <;> obtain ⟨prop',hprop',rfl⟩ := List.mem_map.mp hprop
  · exact h.epc prop' hprop'
  · exact Nat.zero_le _

/-- The answer to a decoded frame reaches the transport. -/
theorem infcRes_sent {client : Client} (hopen : client.started = true) (hframe : frame.WellFormed)
    (delivered : Bool) : client.sendToAddress (infcRes frame) delivered = .ok delivered := by
  unfold Client.sendToAddress
  rw [hopen,Frame.encode_eq (infcRes_wellFormed hframe)]
  rfl

theorem wellFormed_of_decode {data : Bytes} (h : Frame.decode data = .ok frame) : frame.WellFormed := by
  rcases Frame.decode_cases data with ⟨text,herror⟩ | ⟨frame',_,_,hdecode,hencode,_⟩
  · cases herror.symm.trans h
  · cases hdecode.symm.trans h
    exact Frame.wellFormed_of_encode hencode

theorem not_acknowledged (h : s.step (.receive frame address) = some t) (hinfc : frame.esv = .infc)
    (hclass : frame.seoj.classCode = nodeProfileClass) : ¬ Acknowledged s t frame address := by
  intro hack
  cases h
  have hanswers := hack.answers
  rw [if_pos hinfc,processFrame_answers,if_neg fun h => h.2 hclass,List.append_nil] at hanswers
  rw [List.self_eq_append_right] at hanswers
  cases hanswers

/-- A frame is acknowledged as it should be, unless it is an INFC of a node profile. -/
theorem acknowledged_iff (s t : System) (frame : Frame) (address : Address) (data : Bytes)
    (hopen : s.client.started = true) (hdata : Frame.decode data = .ok frame)
    (h : s.step (.receive frame address) = some t) :
    Acknowledged s t frame address ↔ ¬ (frame.esv = .infc ∧ frame.seoj.classCode = nodeProfileClass) := by
  constructor
  · rintro hack ⟨hinfc,hclass⟩
    exact not_acknowledged h hinfc hclass hack
  · intro hnot
    cases h
    refine ⟨?_,fun _ => infcRes_sent hopen (wellFormed_of_decode hdata)⟩
    show (s.router.processFrame frame address).answers = _
    rw [processFrame_answers]
    by_cases hinfc : frame.esv = .infc
    · have hclass : frame.seoj.classCode ≠ nodeProfileClass := fun hclass => hnot ⟨hinfc,hclass⟩
      rw [if_pos ⟨hinfc,hclass⟩,if_pos hinfc]
    · rw [if_neg fun h => hinfc h.1,if_neg hinfc]

/-! ### A device object and a node profile -/

/-- An INFC about the operation status, to the controller. -/
def infcOf (seoj : EOJ) : Frame := ⟨seoj,controllerInstance,.infc,42,[⟨0x80,[0x30]⟩]⟩

theorem infcOf_received (seoj : EOJ) : Frame.decode (infcOf seoj).wire = .ok (infcOf seoj) := by
  have hframe : (infcOf seoj).WellFormed :=
    ⟨by simp [infcOf],by simp [infcOf],by simp [infcOf],by simp [infcOf]⟩
  rw [← List.append_nil (infcOf seoj).wire]
  exact Frame.decode_wire hframe []

theorem acknowledged_sensor : ∃ t : System, Acknowledged known t (infcOf temperatureSensor) "192.0.2.1" := by
  obtain ⟨t,ht⟩ : ∃ t, known.step (.receive (infcOf temperatureSensor) "192.0.2.1") = some t :=
    Option.isSome_iff_exists.mp rfl
  refine ⟨t,(acknowledged_iff known t _ _ _ rfl (infcOf_received temperatureSensor) ht).mpr ?_⟩
  rintro ⟨_,hclass⟩
  exact absurd hclass (by decide)

/-- The INFC of a node profile gets no answer. -/
theorem unacknowledged_profile : ¬ ∀ (s t : System) (frame : Frame) (address : Address) (data : Bytes),
    s.client.started = true → Frame.decode data = .ok frame → s.step (.receive frame address) = some t →
      Acknowledged s t frame address := by
  intro h
  obtain ⟨t,ht⟩ : ∃ t, known.step (.receive (infcOf nodeProfileInstance) "192.0.2.1") = some t :=
    Option.isSome_iff_exists.mp rfl
  exact not_acknowledged ht rfl rfl (h known t _ _ _ rfl (infcOf_received nodeProfileInstance) ht)

end Pyhems.Runtime
