import Kcr.Cache.State

/-!
# Validating and injecting an entry

`validate_entry` and `inject_result` of `kcr_core.c`, which a caller applies to what a
lookup returned. Neither looks at the lists.
-/

namespace Kcr

open Hlist

/-- `time_after(a, b)`. -/
def timeAfter (a b : U64) : Bool := timeBefore b a

/-- `validate_entry` at a tick; `none` and zero are null pointers. -/
def validateEntry (jiffies : U64) (entry : Option Entry) (mm : U64) : Bool :=
  match entry with
  | none => false
  | some entry =>
      if mm = 0#64 then false
      else if entry.mmGeneration ≠ mm then false
      else if entry.mm ≠ mm then false
      else if timeAfter jiffies entry.expiryJiffies then false
      else true

/-- `result[i]`: the bytes `8 * i` to `8 * i + 7` of the union, least significant first. -/
def Payload.result (payload : Payload) (i : Fin 8) : U64 :=
  let byte (k : Fin 8) : U8 := payload ⟨8 * i.val + k.val, by unfold kcrResultSizeMax; omega⟩
  byte 7 ++ byte 6 ++ byte 5 ++ byte 4 ++ byte 3 ++ byte 2 ++ byte 1 ++ byte 0

/-- `ext_data` overlays `result[0]`. -/
theorem Payload.result_zero (payload : Payload) : payload.result 0 = payload.extData := rfl

/-- The registers of `struct pt_regs` that a result is written to. -/
structure PtRegs where
  ax : U64
  bx : U64
  cx : U64
  dx : U64
  si : U64
  di : U64
  bp : U64
  sp : U64
  ip : U64
deriving DecidableEq

abbrev kcrMaskRbx : U8 := 2
abbrev kcrMaskRcx : U8 := 4
abbrev kcrMaskRdx : U8 := 8
abbrev kcrMaskRsi : U8 := 16
abbrev kcrMaskRdi : U8 := 32
abbrev kcrMaskRbp : U8 := 64
abbrev kcrMaskRsp : U8 := 128

/-- `inject_result`. The mask is read before the pointers are tested, so a null entry
faults; null registers make the call do nothing. -/
def injectResult (regs : Option PtRegs) (entry : Option Entry) : Except Halt (Option PtRegs) :=
  match entry with
  | none => .error .null
  | some entry =>
      let mask := entry.registerMask
      match regs with
      | none => .ok none
      | some regs =>
          let restore (bit : U8) (i : Fin 8) (old : U64) : U64 :=
            if mask &&& bit ≠ 0 then entry.payload.result i else old
          .ok (some
            { ax := restore kcrMaskRax 0 regs.ax
              bx := restore kcrMaskRbx 1 regs.bx
              cx := restore kcrMaskRcx 2 regs.cx
              dx := restore kcrMaskRdx 3 regs.dx
              si := restore kcrMaskRsi 4 regs.si
              di := restore kcrMaskRdi 5 regs.di
              bp := restore kcrMaskRbp 6 regs.bp
              sp := restore kcrMaskRsp 7 regs.sp
              ip := regs.ip + entry.fragmentLength.zeroExtend 64 })

/-- What is injected from an entry whose mask names `RAX` only, as every store sets it. -/
theorem injectResult_rax {entry : Entry} (mask : entry.registerMask = kcrMaskRax)
    (length : entry.fragmentLength = 0) (regs : PtRegs) :
    injectResult (some regs) (some entry) =
      .ok (some { regs with ax := entry.payload.extData }) := by
  simp [injectResult, mask, length, Payload.result_zero]

end Kcr
