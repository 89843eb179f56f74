import SimpleKit.Rpc.Net

set_option autoImplicit false

namespace SimpleKit
open Framing Runs

def ClientOp.Quiet : ClientOp → Prop
  | .ready _ (.read _) _ _ => False
  | _ => True

namespace RpcNet
variable {ce se : Nat → ByteOrder} {n : RpcNet} {c k : Nat}

end RpcNet

section Reads
open RpcClient
variable {e : ByteOrder} {s s' : RpcClient} {st u : RpcRef} {x x' : RpcStream} {up : RpcUpstream}
  {fd : SioFd} {acts : RpcRef → List ClientAct} {env : RpcEnv} {c : List UInt8}

end Reads

section Flushes
open RpcServer
variable {e : ByteOrder} {s : RpcServer} {st : RpcRef} {x : RpcStream} {m : Nat}

end Flushes

end SimpleKit
