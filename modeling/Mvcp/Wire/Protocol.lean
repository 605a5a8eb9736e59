import Mvcp.Wire.Primitives

/-!
# Frames, codes and limits

The constants of `mvcp.go` that the handshake, the request layer and the app channel use, the
MVCP frame, and the service pattern.

## Main definitions

* `Frame`: one MVCP frame
* `typeHELLO`, `typeAPPOPEN`, …, `typeERROR`: the frame types
* `errorCodeBadPayload`, `errorCodeAppQuotaExceeded`, …: the error codes
* `appInitialWindow`, …, `appMaxBuffered`: the limits
* `validAppService`: the service pattern
-/

namespace Mvcp

/-- One MVCP frame, after the transport framing. -/
structure Frame where
  typ : UInt8
  flags : UInt8
  msgID : UInt32
  body : Bytes
  deriving DecidableEq

/-! ## Frame types and flags -/

def typeHELLO : UInt8 := 0x00
def typePING : UInt8 := 0x01
def typePONG : UInt8 := 0x02
def typeSHUTDOWN : UInt8 := 0x03
def typeSHUTDOWNACK : UInt8 := 0x04
def typeGETSTATUS : UInt8 := 0x05
def typeSTATUS : UInt8 := 0x06
def typeHEARTBEAT : UInt8 := 0x07
def typeEXEC : UInt8 := 0x10
def typeEXECSTREAM : UInt8 := 0x11
def typeEXECRESULT : UInt8 := 0x12
def typeXFERINIT : UInt8 := 0x20
def typeXFERCHUNK : UInt8 := 0x21
def typeXFERDONE : UInt8 := 0x22
def typeTOOLCALL : UInt8 := 0x30
def typeTOOLRESULT : UInt8 := 0x31
def typeLISTTOOLS : UInt8 := 0x32
def typeLISTTOOLSRESULT : UInt8 := 0x33
def typeSYNCFILESYSTEMS : UInt8 := 0x40
def typeSYNCFILESYSTEMSACK : UInt8 := 0x41
def typeAPPOPEN : UInt8 := 0x50
def typeAPPACCEPT : UInt8 := 0x51
def typeAPPREJECT : UInt8 := 0x52
def typeAPPDATA : UInt8 := 0x53
def typeAPPCREDIT : UInt8 := 0x54
def typeAPPCLOSE : UInt8 := 0x55
def typeAPPRESET : UInt8 := 0x56
def typeEVENTREADY : UInt8 := 0x80
def typeEVENTFILERECEIVED : UInt8 := 0x81
def typeEVENTMOUNT : UInt8 := 0x82
def typeEVENTERROR : UInt8 := 0x83
def typeEVENTLOG : UInt8 := 0x84
def typeEVENTINITFAILED : UInt8 := 0x86
def typeSTARTED : UInt8 := 0xFA
def typeERROR : UInt8 := 0xFE

def flagResponse : UInt8 := 0x01
def flagStreamMore : UInt8 := 0x02

/-! ## Error codes -/

def errorCodeUnknownType : UInt16 := 0x0001
def errorCodeBadPayload : UInt16 := 0x0002
def errorCodeUnexpectedRole : UInt16 := 0x000B
def errorCodeNoCommonCapability : UInt16 := 0x000C
def errorCodeAppQuotaExceeded : UInt16 := 0x0023
def errorCodeAppPeerGone : UInt16 := 0x0024
def errorCodeAppOverflow : UInt16 := 0x0025
def errorCodeAppTimeout : UInt16 := 0x0026
def errorCodeAppProtocolError : UInt16 := 0x0027
def errorCodeAppLocalError : UInt16 := 0x0028

/-! ## Limits -/

/-- The largest transport frame, header included. -/
def maxFrameSize : ℕ := 16 * 1024 * 1024

def frameHeaderSize : ℕ := 6

def appInitialWindow : ℕ := 256 <<< 10
def appMaxCredit : ℕ := 4 * appInitialWindow
def appMaxStreams : ℕ := 64
def appMaxMetaBytes : ℕ := 1 <<< 10
def appMaxDataBytes : ℕ := 64 <<< 10
def appMaxSendQueue : ℕ := 1 <<< 20
def appMaxBuffered : ℕ := 8 <<< 20

theorem appInitialWindow_eq : appInitialWindow = 262144 := rfl

theorem appMaxCredit_eq : appMaxCredit = 1048576 := rfl

theorem appMaxMetaBytes_eq : appMaxMetaBytes = 1024 := rfl

theorem appMaxDataBytes_eq : appMaxDataBytes = 65536 := rfl

theorem appMaxSendQueue_eq : appMaxSendQueue = 1048576 := rfl

/-! ## Service names -/

def isLower (b : UInt8) : Bool := 97 ≤ b && b ≤ 122

def isDigit (b : UInt8) : Bool := 48 ≤ b && b ≤ 57

/-- `ValidAppService`: the pattern `^[a-z][a-z0-9-]{0,30}$`, and at most 64 bytes. -/
def validAppService (service : Bytes) : Bool :=
  service.length ≤ 64 &&
    match service with
    | [] => false
    | b :: bs => isLower b && bs.all (fun c => isLower c || isDigit c || c == 45) && bs.length ≤ 30

theorem length_le_of_validAppService {service : Bytes} (h : validAppService service = true) :
    service.length ≤ 64 := by
  simp only [validAppService, Bool.and_eq_true, decide_eq_true_eq] at h
  exact h.1

end Mvcp
