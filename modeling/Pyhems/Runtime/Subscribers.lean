import Pyhems.Library.Walk

/-! The subscribers of the client and of the device manager. Both deliver an event to a list of
callbacks that may change the list while they are called: the client walks the list itself, the
manager a copy of it. -/
namespace Pyhems.Runtime
open Library
variable {σ γ ε : Type}

/-- What a callback can do to the list: `subscribe`, or the function that it returned. -/
inductive Subscription (γ : Type) where
  | subscribe (callback : γ)
  | unsubscribe (callback : γ)
  deriving DecidableEq

/-- One call of a callback, which may end in an `Exception`. -/
structure Delivery (γ : Type) where
  callback : γ
  subscriptions : List (Subscription γ)
  raised : Bool
  deriving DecidableEq

/-- `_callbacks` or `_listeners`, and the rest of the state that callbacks see and change. -/
structure Subscribers (σ γ : Type) where
  callbacks : List γ
  world : σ

/-- What the callbacks do when they are called with an event. -/
abbrev Behaviour (σ γ ε : Type) := ε → γ → σ → σ × List (Subscription γ) × Bool

def Delivery.unsubscribed (delivery : Delivery γ) : List γ :=
  delivery.subscriptions.filterMap fun
    | .subscribe _ => none
    | .unsubscribe callback => some callback

namespace Subscribers
variable [DecidableEq γ]

def subscribe (s : Subscribers σ γ) (callback : γ) : Subscribers σ γ :=
  {s with callbacks := s.callbacks ++ [callback]}

def unsubscribe (s : Subscribers σ γ) (callback : γ) : Subscribers σ γ :=
  if callback ∈ s.callbacks then {s with callbacks := s.callbacks.erase callback} else s

def change (s : Subscribers σ γ) : Subscription γ → Subscribers σ γ
  | .subscribe callback => s.subscribe callback
  | .unsubscribe callback => s.unsubscribe callback

/-- `callback(event)` within its `try`, which ends alike whether the callback raised or not. -/
def deliver (behaviour : Behaviour σ γ ε) (event : ε) (s : Subscribers σ γ × List (Delivery γ)) (callback : γ) :
    Subscribers σ γ × List (Delivery γ) :=
  let (world,subscriptions,raised) := behaviour event callback s.1.world
  (subscriptions.foldl change {s.1 with world},s.2 ++ [⟨callback,subscriptions,raised⟩])

/-- `HemsClient._dispatch`; none if it still goes on after `fuel` calls. -/
def dispatch (behaviour : Behaviour σ γ ε) (event : ε) (s : Subscribers σ γ) (fuel : Nat) :
    Option (Subscribers σ γ × List (Delivery γ)) :=
  Walk.overList (fun s => s.1.callbacks) (deliver behaviour event) fuel (s,[])

def emit (behaviour : Behaviour σ γ ε) (event : ε) (s : Subscribers σ γ) :
    Subscribers σ γ × List (Delivery γ) :=
  Walk.overCopy (fun s => s.1.callbacks) (deliver behaviour event) (s,[])

/-- When the callbacks are called in turn, each still stands at its own index of the list, and the list ends
there after the last. -/
def KeepsPlaces (behaviour : Behaviour σ γ ε) (event : ε) (s : Subscribers σ γ) : Prop :=
  Walk.InPlace (fun s => s.1.callbacks) (deliver behaviour event) 0 s.callbacks (s,[])

end Subscribers

/-- The deliveries serve the callbacks that were subscribed at the start: each is called once and in order,
unless it was unsubscribed before its turn. Others may be called in between. -/
inductive Delivered (start : List γ) : List γ → List (Delivery γ) → (unsubscribed : List γ) → Prop
  | done (unsubscribed : List γ) : Delivered start [] [] unsubscribed
  | called {callbacks unsubscribed : List γ} {deliveries : List (Delivery γ)} (delivery : Delivery γ)
      (h : Delivered start callbacks deliveries (unsubscribed ++ delivery.unsubscribed)) :
      Delivered start (delivery.callback :: callbacks) (delivery :: deliveries) unsubscribed
  | unsubscribed {callbacks unsubscribed : List γ} {deliveries : List (Delivery γ)} {callback : γ}
      (hcallback : callback ∈ unsubscribed) (h : Delivered start callbacks deliveries unsubscribed) :
      Delivered start (callback :: callbacks) deliveries unsubscribed
  | other {callbacks unsubscribed : List γ} {deliveries : List (Delivery γ)} {delivery : Delivery γ}
      (hcallback : delivery.callback ∉ start)
      (h : Delivered start callbacks deliveries (unsubscribed ++ delivery.unsubscribed)) :
      Delivered start callbacks (delivery :: deliveries) unsubscribed

theorem delivered_of_callbacks (start unsubscribed : List γ) {callbacks : List γ}
    {deliveries : List (Delivery γ)} (h : deliveries.map Delivery.callback = callbacks) :
    Delivered start callbacks deliveries unsubscribed := by
  subst h
  induction deliveries generalizing unsubscribed with
  | nil => exact .done unsubscribed
  | cons delivery deliveries ih => exact .called delivery (ih _)

variable [DecidableEq γ]

/-- Both dispatchers come to an end, serve all subscribers, and do the same. -/
structure EveryOnce (behaviour : Behaviour σ γ ε) (event : ε) (s : Subscribers σ γ) : Prop where
  emitted : Delivered s.callbacks s.callbacks (s.emit behaviour event).2 []
  dispatched : ∃ fuel t, s.dispatch behaviour event fuel = some t ∧
    Delivered s.callbacks s.callbacks t.2 [] ∧ t = s.emit behaviour event

variable {behaviour : Behaviour σ γ ε} {event : ε} {s : Subscribers σ γ}

theorem deliver_callbacks (behaviour : Behaviour σ γ ε) (event : ε)
    (s : Subscribers σ γ × List (Delivery γ)) (callback : γ) :
    (Subscribers.deliver behaviour event s callback).2.map Delivery.callback =
      s.2.map Delivery.callback ++ [callback] := List.map_append

/-- The manager calls what was subscribed when it began. -/
theorem emit_callbacks (behaviour : Behaviour σ γ ε) (event : ε) (s : Subscribers σ γ) :
    (s.emit behaviour event).2.map Delivery.callback = s.callbacks := by
  have h := Walk.visited_foldl (fun s => s.2.map Delivery.callback) (deliver_callbacks behaviour event)
    s.callbacks (s,[])
  rw [List.map_nil,List.nil_append] at h
  exact h

theorem dispatch_iff : (∃ fuel, s.dispatch behaviour event fuel = some (s.emit behaviour event)) ↔
    s.KeepsPlaces behaviour event :=
  Walk.overList_iff (fun s => s.2.map Delivery.callback) (deliver_callbacks behaviour event)

theorem EveryOnce.keepsPlaces (h : EveryOnce behaviour event s) : s.KeepsPlaces behaviour event := by
  obtain ⟨fuel,_,hdispatch,_,rfl⟩ := h.dispatched
  exact dispatch_iff.mp ⟨fuel,hdispatch⟩

/-- Everybody gets the event once, and both dispatchers do the same, exactly if the callbacks keep their
places. -/
theorem everyOnce_iff (behaviour : Behaviour σ γ ε) (event : ε) (s : Subscribers σ γ) :
    EveryOnce behaviour event s ↔ s.KeepsPlaces behaviour event := by
  constructor
  · exact EveryOnce.keepsPlaces
  · intro h
    have hemitted := delivered_of_callbacks s.callbacks [] (emit_callbacks behaviour event s)
    obtain ⟨fuel,hdispatch⟩ := dispatch_iff.mpr h
    exact ⟨hemitted,fuel,_,hdispatch,hemitted,rfl⟩

/-! ### Callbacks that change the list -/

/-- The first of two callbacks unsubscribes itself. -/
def unsubscribing : Behaviour Unit Nat Unit := fun _ callback world =>
  (world,if callback = 0 then [.unsubscribe 0] else [],false)

/-- The client skips the second one. -/
theorem dispatch_skips : ¬ ∀ (σ γ ε : Type) [DecidableEq γ] (behaviour : Behaviour σ γ ε) (event : ε)
    (s : Subscribers σ γ), EveryOnce behaviour event s := by
  intro h
  have hplaces := (h Unit Nat Unit unsubscribing () ⟨[0,1],()⟩).keepsPlaces
  revert hplaces
  unfold Subscribers.KeepsPlaces
  decide

/-- A callback that subscribes itself again. -/
def resubscribing : Behaviour Unit Nat Unit := fun _ callback world => (world,[.subscribe callback],false)

/-- The index of the walk has not reached the end of the list. -/
def Within (p : Nat × Subscribers Unit Nat × List (Delivery Nat)) : Prop := p.1 < p.2.1.callbacks.length

theorem turn_within {p : Nat × Subscribers Unit Nat × List (Delivery Nat)} (h : Within p) : ∃ callback,
    Walk.turn (fun s => s.1.callbacks) (Subscribers.deliver resubscribing ()) p =
      .again (p.1+1,Subscribers.deliver resubscribing () p.2 callback) :=
  ⟨_,Walk.turn_some (List.getElem?_eq_getElem h)⟩

/-- The client never comes to an end. -/
theorem dispatch_endless (fuel : Nat) :
    Subscribers.dispatch resubscribing () (⟨[0],()⟩ : Subscribers Unit Nat) fuel = none := by
  by_contra hsome
  obtain ⟨t,ht⟩ := Option.ne_none_iff_exists'.mp hsome
  obtain ⟨p,hheads,hleave⟩ := Loop.heads_of_run ht
  have hwithin : Within p := by
    refine hheads.invariant ?_ Nat.one_pos
    intro p q hlt hturn
    obtain ⟨callback,hagain⟩ := turn_within hlt
    cases hagain.symm.trans hturn
    have hlt : p.1 < p.2.1.callbacks.length := hlt
    show p.1+1 < (p.2.1.callbacks ++ [callback]).length
    rw [List.length_append,List.length_singleton]
    omega
  obtain ⟨callback,hagain⟩ := turn_within hwithin
  cases hagain.symm.trans hleave

end Pyhems.Runtime
