import HmrRpc.SendSide

/-!
# The arrays of the flush

`hmr_send_task_handler` has room for `MAX_SEND_WR + 1` requests on its stack and writes one
for each task it finds. Nothing bounds the list between two ticks, so the arrays are large
enough exactly as long as no message is queued on a list that has filled them.
-/

namespace HmrRpc

open Common

section Elements

end Elements

section Step

variable {o : Outcomes} {t t' : HmrRdmaTransport}

end Step

end HmrRpc
