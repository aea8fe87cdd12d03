import Mathlib.Data.Finset.Basic
import Mathlib.Data.Finset.Lattice.Lemmas
import Pyhems.Runtime.Requests

/-! What `set_properties` and `request_notifications` make of the end of their one request. -/
namespace Pyhems.Runtime
open Protocol Library

structure SetRequestResult where
  sent : Bool
  responseEsv : Option ESV := none
  acceptedEpcs : Finset Nat := ∅
  rejectedEpcs : Finset Nat := ∅
  unansweredEpcs : Finset Nat := ∅
  deriving DecidableEq

structure InfRequestResult where
  notifiedEpcs : Finset Nat
  rejectedEpcs : Finset Nat
  unansweredEpcs : Finset Nat
  deriving DecidableEq

/-- How the `_send_request` of a caller ended; none if the node had no address or the client no
transport, so that the caller never got there. -/
abbrev Reply := Option (Except Exn (Bool × Option Frame))

def epcsOf (properties : List Property) : Finset Nat := (properties.map Property.epc).toFinset

/-- The answer to a SetC: everything is accepted by a `SET_RES`, and otherwise what comes back
without data. -/
def acknowledged (requested : Finset Nat) (frame : Frame) : SetRequestResult :=
  if frame.esv = .setRes then
    {sent := true, responseEsv := some frame.esv, acceptedEpcs := requested}
  else
    let named := frame.properties.filter fun prop => decide (prop.epc ∈ requested)
    let rejected := epcsOf (named.filter fun prop => decide (prop.edt ≠ []))
    let accepted := epcsOf (named.filter fun prop => decide (prop.edt = []))
    {sent := true, responseEsv := some frame.esv, acceptedEpcs := accepted, rejectedEpcs := rejected,
     unansweredEpcs := (requested \ accepted) \ rejected}

def setProperties (properties : List Property) (reply : Reply) : Except Exn SetRequestResult :=
  if properties = [] then .ok {sent := false}
  else
    let requested := epcsOf properties
    match reply with
    | none => .ok {sent := false, unansweredEpcs := requested}
    | some (.error (.clientStoppedError _)) => .ok {sent := true, unansweredEpcs := requested}
    | some (.error exn) => .error exn
    | some (.ok (false,_)) => .ok {sent := false, unansweredEpcs := requested}
    | some (.ok (true,none)) => .ok {sent := true, unansweredEpcs := requested}
    | some (.ok (true,some frame)) => .ok (acknowledged requested frame)

/-- The answer to an INF_REQ: an `INF` notifies what it carries, and any other rejects it. -/
def notified (requested : Finset Nat) (frame : Frame) : InfRequestResult :=
  let responded := epcsOf frame.properties
  let (successful,failed) :=
    if frame.esv = .inf then (responded ∩ requested,∅) else (∅,responded ∩ requested)
  ⟨successful,failed,requested \ responded⟩

def requestNotifications (epcs : List Nat) (reply : Reply) : Except Exn InfRequestResult :=
  let requested := epcs.toFinset
  let noResponse : InfRequestResult := ⟨∅,∅,requested⟩
  if epcs = [] then .ok noResponse
  else
    match reply with
    | none => .ok noResponse
    | some (.error (.clientStoppedError _)) => .ok noResponse
    | some (.error exn) => .error exn
    | some (.ok (_,none)) => .ok noResponse
    | some (.ok (_,some frame)) => .ok (notified requested frame)

/-- The frame that answered the request, if one did. -/
def Reply.frame : Reply → Option Frame
  | some (.ok (_,frame)) => frame
  | _ => none

/-- The device accepted the EPC of a SetC: by a `SET_RES`, or by giving it back without data. -/
def Reply.Accepts (reply : Reply) (epc : Nat) : Prop :=
  ∃ frame, reply.frame = some frame ∧
    (frame.esv = .setRes ∨ ∃ prop ∈ frame.properties, prop.epc = epc ∧ prop.edt = [])

/-- The end of the request reaches the caller as an exception. -/
def Reply.raises : Reply → Bool
  | some (.error (.clientStoppedError _)) => false
  | some (.error _) => true
  | _ => false

theorem Reply.raises_error {exn : Exn} (h : ∀ text, exn ≠ .clientStoppedError text) :
    Reply.raises (some (.error exn)) = true := by
  cases exn with
  | clientStoppedError text => exact absurd rfl (h text)
  | _ => rfl

/-- Every requested EPC is notified, rejected or unanswered. -/
theorem notified_covers (requested : Finset Nat) (frame : Frame) :
    (notified requested frame).notifiedEpcs ∪
      ((notified requested frame).rejectedEpcs ∪ (notified requested frame).unansweredEpcs) =
        requested ∧
      Disjoint (notified requested frame).notifiedEpcs
        ((notified requested frame).rejectedEpcs ∪ (notified requested frame).unansweredEpcs) := by
  have hsplit := Finset.sdiff_union_inter requested (epcsOf frame.properties)
  have hapart := Finset.disjoint_sdiff_inter requested (epcsOf frame.properties)
  rw [Finset.inter_comm] at hsplit hapart
  unfold notified
  split_ifs <;> simp only [Finset.empty_union]
  · exact ⟨(Finset.union_comm _ _).trans hsplit,hapart.symm⟩
  · exact ⟨(Finset.union_comm _ _).trans hsplit,Finset.disjoint_empty_left _⟩

/-- What a notification request reports: a partition of the requested EPCs, with the notified
ones carried by an `INF`. -/
structure InfRequestResult.Answers (result : InfRequestResult) (requested : Finset Nat)
    (reply : Reply) : Prop where
  covers : result.notifiedEpcs ∪ (result.rejectedEpcs ∪ result.unansweredEpcs) = requested
  apart : Disjoint result.notifiedEpcs (result.rejectedEpcs ∪ result.unansweredEpcs)
  carried : ∀ epc ∈ result.notifiedEpcs, ∃ frame, reply.frame = some frame ∧ frame.esv = .inf ∧
    epc ∈ epcsOf frame.properties

theorem requestNotifications_answers {epcs : List Nat} {reply : Reply} {result : InfRequestResult}
    (h : requestNotifications epcs reply = .ok result) : result.Answers epcs.toFinset reply := by
  have hnone : result = ⟨∅,∅,epcs.toFinset⟩ → result.Answers epcs.toFinset reply := by
    rintro rfl
    exact ⟨by simp,Finset.disjoint_empty_left _,by simp⟩
  unfold requestNotifications at h
  simp only at h
  split at h
  · exact hnone (Except.ok.inj h).symm
  · split at h
    · exact hnone (Except.ok.inj h).symm
    · exact hnone (Except.ok.inj h).symm
    · cases h
    · exact hnone (Except.ok.inj h).symm
    · next sent frame =>
      cases h
      obtain ⟨hcovers,hapart⟩ := notified_covers epcs.toFinset frame
      refine ⟨hcovers,hapart,fun epc hepc => ⟨frame,rfl,?_⟩⟩
      unfold notified at hepc
      split_ifs at hepc with hinf
      · exact ⟨hinf,Finset.mem_of_mem_inter_left hepc⟩
      · cases hepc

theorem requestNotifications_raises {epcs : List Nat} {reply : Reply} {exn : Exn}
    (h : requestNotifications epcs reply = .error exn) : reply.raises = true := by
  unfold requestNotifications at h
  simp only at h
  split at h
  · cases h
  · split at h
    · cases h
    · cases h
    · next hne =>
      cases h
      exact Reply.raises_error fun text he => hne text he
    · cases h
    · cases h

theorem setProperties_raises {properties : List Property} {reply : Reply} {exn : Exn}
    (h : setProperties properties reply = .error exn) : reply.raises = true := by
  unfold setProperties at h
  simp only at h
  split at h
  · cases h
  · split at h
    · cases h
    · cases h
    · next hne =>
      cases h
      exact Reply.raises_error fun text he => hne text he
    · cases h
    · cases h
    · cases h

theorem setProperties_accepts {properties : List Property} {reply : Reply} {result : SetRequestResult}
    (h : setProperties properties reply = .ok result) {epc : Nat} (hepc : epc ∈ result.acceptedEpcs) :
    reply.Accepts epc := by
  unfold setProperties at h
  simp only at h
  split at h
  · cases h
    cases hepc
  · split at h <;> cases h <;> try cases hepc
    next frame =>
      refine ⟨frame,rfl,?_⟩
      unfold acknowledged at hepc
      split at hepc
      · next hesv => exact Or.inl hesv
      · obtain ⟨prop,hprop,he⟩ := List.mem_map.mp (List.mem_toFinset.mp hepc)
        obtain ⟨hnamed,hempty⟩ := List.mem_filter.mp hprop
        exact Or.inr ⟨prop,List.mem_of_mem_filter hnamed,he,of_decide_eq_true hempty⟩

theorem requestNotifications_error {epcs : List Nat} {reply : Reply} {exn : Exn}
    (h : requestNotifications epcs reply = .error exn) : reply = some (.error exn) := by
  unfold requestNotifications at h
  simp only at h
  split at h
  · cases h
  · split at h <;> cases h
    rfl

theorem setProperties_error {properties : List Property} {reply : Reply} {exn : Exn}
    (h : setProperties properties reply = .error exn) : reply = some (.error exn) := by
  unfold setProperties at h
  simp only at h
  split at h
  · cases h
  · split at h <;> cases h
    rfl

end Pyhems.Runtime
