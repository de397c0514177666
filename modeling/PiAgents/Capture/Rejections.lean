import PiAgents.Capture.IpPackets

/-! The flow an ICMP destination-unreachable message names, beside the flow of the packet it
quotes. -/

namespace PiAgents.Capture

namespace IpPacket

variable (packet : IpPacket)

end IpPacket

def ports (payload : Bytes) : UInt16 × UInt16 :=
  if 4 ≤ payload.length then (field16 payload 0, field16 payload 2) else (0, 0)

end PiAgents.Capture
