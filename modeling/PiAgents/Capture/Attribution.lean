import Mathlib.Data.Finset.Basic
import PiAgents.Capture.Packet

/-! Device attribution by client MAC. The gateway is the access point: a frame from a client
carries the client's MAC as source, a frame to it carries it as destination. -/

namespace PiAgents.Capture

inductive Attribution where
  /-- The client sent this frame. -/
  | fromDevice (mac : Mac)
  /-- The frame is addressed to the client. -/
  | toDevice (mac : Mac)
  | unattributed
  deriving DecidableEq, Repr

structure Clients where
  macs : Finset Mac

def Clients.attribute (clients : Clients) (srcMac dstMac : Mac) : Attribution :=
  if srcMac ∈ clients.macs then .fromDevice srcMac
  else if dstMac ∈ clients.macs then .toDevice dstMac
  else .unattributed

end PiAgents.Capture
