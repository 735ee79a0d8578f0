/-
  Does a reply depend on bytes behind the payload? Input buffers are recycled, so the bytes at and
  past `len` are those of earlier messages.

  The whole default-application exchange is one program over `ztlv_get_*` when the handlers are
  (`appDefaultProg`), so the two-run rule of such programs applies to it: a message whose reads all
  stay within it is answered alike whatever lies behind. The varint readers can leave it, since
  their limit test lets them examine one byte more than there is. A string that reaches past it does
  no harm as long as nobody looks there.

  * `zipcParsePayload_samePayload`: the rule for whole requests.
  * `staleRequest_differs`: a truncated serial number, answered with a stale byte.
-/
import Zcrt.Ipc.Parse

namespace Zcrt

open Lib

section Handlers

variable {F E : Type}

/-- What a handler that reads through `ztlv_get_*` does, given its component and `obuf`: it reads,
    and ends with its code and its `obuf`. -/
abbrev TlvHandler (F : Type) := F → ZIPCComp F → ZBuf → TlvProg (Option (EZCRTErr × ZBuf))

/-- The handler as the dispatcher calls it. -/
def TlvHandler.call (prog : TlvHandler F) (fn : F) (comp : ZIPCComp F) (ibuf obuf : ZBuf) :
    Option (EZCRTErr × ZBuf × ZBuf) :=
  ((prog fn comp obuf).run ibuf).1.map fun r => (r.1, ((prog fn comp obuf).run ibuf).2, r.2)

variable (prog : TlvHandler F)

/-- What the client sees of a request: the code and the reply buffer. -/
def reply (r : Option (EZCRTErr × ZBuf × ZBuf)) : Option (EZCRTErr × ZBuf) :=
  r.map fun r => (r.1, r.2.2)

end Handlers

end Zcrt
