import OranNs3.Rrc.Model

/-!
# Two gNBs and one handover

The RRCs of the source and of the target of a handover, with what is under way between them: the X2
messages in either direction, in the order in which they were sent, the RRC messages that a UE has
not answered yet, and the requests to switch the path that the core network has not acknowledged.
The RRCs have one clock. Anything under way can arrive at any time, and a timeout comes when it is
due.

The contexts are those of one handover. A data packet comes to the source, from the core network,
for a bearer of the UE.
-/

namespace OranNs3

/-- The gNBs of a handover. -/
inductive Side
  | source
  | target
deriving DecidableEq

/-- The gNB at the other end of the X2 interface. -/
def Side.other : Side → Side
  | .source => .target
  | .target => .source

/-- The first cell of a gNB, by which the other end of an X2 interface knows it. -/
def Rrc.firstCell (r : Rrc) : Nat := r.cfg.cellIds.headD 0

/-- Two RRCs with what is under way: the X2 messages to either of them, the UEs that complete an RRC
connection reconfiguration, by gNB and RNTI, and the requests to switch the path. -/
structure Handover where
  source : Rrc
  target : Rrc
  toTarget : List X2Message
  toSource : List X2Message
  radio : List (Side × Nat)
  pathSwitches : List (Side × Nat)

/-- An X2 message arrives, a UE completes a reconfiguration, the core network acknowledges a path
switch, the next timeout of a gNB is due, a packet for the UE comes to the source, time passes. -/
inductive HandoverAction
  | toTarget (inp : Rrc.X2Input)
  | toSource (inp : Rrc.X2Input)
  | completed (k : Nat)
  | pathSwitchAcknowledge (k : Nat)
  | timer (side : Side)
  | data (rnti bid : Nat) (p : Packet)
  | advance (t : Nat)

namespace Handover

variable (s : Handover)

/-- The RRC of a gNB. -/
def rrc : Side → Rrc
  | .source => s.source
  | .target => s.target

/-- What one gNB sends is under way. A handover command sends the UE to the other gNB. -/
def emit (side : Side) (s : Handover) : RrcOut → Handover
  | .x2 _ m =>
    match side with
    | .source => { s with toTarget := s.toTarget ++ [m] }
    | .target => { s with toSource := s.toSource ++ [m] }
  | .ue rnti .connectionReconfiguration => { s with radio := s.radio ++ [(side, rnti)] }
  | .ue _ (.handover command) =>
    { s with radio := s.radio ++ [(side.other, command.newUeIdentity)] }
  | .s1 (.pathSwitchRequest rnti _ _ _) =>
    { s with pathSwitches := s.pathSwitches ++ [(side, rnti)] }
  | _ => s

/-- The messages of an RRC were taken from it. -/
def drained (r : Rrc) : Rrc := { r with out := [] }

/-- The RRC of a gNB after a call, with what it sent under way. -/
def put : Side → Rrc → Handover
  | .source, r => r.out.foldl (emit .source) { s with source := drained r }
  | .target, r => r.out.foldl (emit .target) { s with target := drained r }

/-- The beginning of a handover: the source requests it. -/
def start (source target : Rrc) (rnti cellId : Nat) : Except RrcError Handover :=
  ((drained source).sendHandoverRequest rnti cellId).map fun r =>
    put ⟨drained source, drained target, [], [], [], []⟩ .source r

/-- The next timeout of one gNB; the clock of the other one follows. -/
def timer : Side → Option (Except RrcError Handover)
  | .source => s.source.queue.next?.bind fun (e, q) =>
    (s.target.queue.advance? e.ts).map fun q' =>
      ((s.source.setQueue q).timeout e.ev).map
        ({ s with target := s.target.setQueue q' }.put .source)
  | .target => s.target.queue.next?.bind fun (e, q) =>
    (s.source.queue.advance? e.ts).map fun q' =>
      ((s.target.setQueue q).timeout e.ev).map
        ({ s with source := s.source.setQueue q' }.put .target)

/-- The effect of an action; `none` where it cannot happen. -/
def act : HandoverAction → Option (Except RrcError Handover)
  | .toTarget inp =>
    match s.toTarget with
    | [] => none
    | m :: ms =>
      some ((s.target.recvX2 s.source.firstCell inp m).map ({ s with toTarget := ms }.put .target))
  | .toSource inp =>
    match s.toSource with
    | [] => none
    | m :: ms =>
      some ((s.source.recvX2 s.target.firstCell inp m).map ({ s with toSource := ms }.put .source))
  | .completed k => s.radio[k]?.map fun (side, rnti) =>
    ((s.rrc side).recvRrcConnectionReconfigurationCompleted rnti).map
      ({ s with radio := s.radio.eraseIdx k }.put side)
  | .pathSwitchAcknowledge k => s.pathSwitches[k]?.map fun (side, rnti) =>
    ((s.rrc side).pathSwitchRequestAcknowledge rnti).map
      ({ s with pathSwitches := s.pathSwitches.eraseIdx k }.put side)
  | .timer side => s.timer side
  | .data rnti bid p =>
    ((s.source.findUe rnti).bind fun u => u.findDrb bid).map fun _ =>
      (s.source.sendData rnti bid p).map (s.put .source)
  | .advance t =>
    (s.source.queue.advance? t).bind fun q => (s.target.queue.advance? t).map fun q' =>
      .ok { s with source := s.source.setQueue q, target := s.target.setQueue q' }

/-- One step of a run; an error ends it. -/
def Step (a : HandoverAction) (s' : Handover) : Prop := s.act a = some (.ok s')

/-- The step as a partial function. -/
def step? (a : HandoverAction) : Option Handover :=
  match s.act a with
  | some (.ok s') => some s'
  | _ => none

theorem step_of_step? {s s' : Handover} {a : HandoverAction} (h : s.step? a = some s') :
    Step s a s' := by
  unfold step? at h
  split at h
  · next hact => rw [Step, hact, Option.some.inj h]
  · cases h

end Handover

end OranNs3
