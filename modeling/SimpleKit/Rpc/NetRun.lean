import SimpleKit.Rpc.NetAlone
import SimpleKit.Rpc.NetInv

set_option autoImplicit false

namespace SimpleKit
open Framing Runs

namespace RpcNet
variable {ce se : Nat → ByteOrder} {n : RpcNet}

end RpcNet

section Sample

end Sample

section Long
variable {body : List UInt8}

theorem SioBuffer.Wf.unused {b : SioBuffer} (hstart : b.start = 0) (hstop : b.stop = 0)
    (hsize : b.buffer.length = b.capacity) : b.Wf ∧ sioBufferData b = [] := by
  refine ⟨⟨by rw [hstart, hstop], by rw [hstop]; exact Nat.zero_le _, hsize⟩, ?_⟩
  rw [sioBufferData, sioBufferLength, hstart, hstop]
  exact List.take_zero ..

end Long

end SimpleKit
