import BluetoothStack.Gatt.Db

/-!
# BluetoothStack.Gatt.Browse

The codes of the ATT messages and the error response (`gatt_sr.cc`, `att_protocol.cc`), which the
server and the client share.
-/

namespace BluetoothStack.Gatt

open BluetoothStack.Lib

/-! ### ATT

The codes of the messages, `tGATT_OP_CODE`, and of the errors. -/

namespace Op

def rspError : Nat := 0x01
def reqMtu : Nat := 0x02
def reqFindInfo : Nat := 0x04
def reqFindTypeValue : Nat := 0x06
def reqReadByType : Nat := 0x08
def rspReadByType : Nat := 0x09
def reqRead : Nat := 0x0A
def rspRead : Nat := 0x0B
def reqReadBlob : Nat := 0x0C
def reqReadMulti : Nat := 0x0E
def rspReadMulti : Nat := 0x0F
def reqReadByGrpType : Nat := 0x10
def rspReadByGrpType : Nat := 0x11
def reqWrite : Nat := 0x12
def rspWrite : Nat := 0x13
def cmdWrite : Nat := 0x52
def reqPrepareWrite : Nat := 0x16
def reqExecWrite : Nat := 0x18
def reqReadMultiVar : Nat := 0x20
def rspReadMultiVar : Nat := 0x21
def signCmdWrite : Nat := 0xD2

end Op

/-- `tGATT_STATUS`. -/
inductive Status where
  | success
  | invalidHandle
  | readNotPermit
  | writeNotPermit
  | invalidPdu
  | insufAuthentication
  | reqNotSupported
  | notFound
  | notLong
  | insufKeySize
  | invalidAttrLen
  | insufEncryption
  | unsupportGrpType
  | databaseOutOfSync
  | noResources
  | internalError
  | busy
  | error
  | cmdStarted
  | illegalParameter
  | pending
  | congested
  /-- Any other code. -/
  | other (code : Nat)
deriving DecidableEq, Repr

def Status.code : Status → Nat
  | .success => 0x00
  | .invalidHandle => 0x01
  | .readNotPermit => 0x02
  | .writeNotPermit => 0x03
  | .invalidPdu => 0x04
  | .insufAuthentication => 0x05
  | .reqNotSupported => 0x06
  | .notFound => 0x0a
  | .notLong => 0x0b
  | .insufKeySize => 0x0c
  | .invalidAttrLen => 0x0d
  | .insufEncryption => 0x0f
  | .unsupportGrpType => 0x10
  | .databaseOutOfSync => 0x12
  | .noResources => 0x80
  | .internalError => 0x81
  | .busy => 0x84
  | .error => 0x85
  | .cmdStarted => 0x86
  | .illegalParameter => 0x87
  | .pending => 0x88
  | .congested => 0x8f
  | .other code => code

/-- `attp_build_err_cmd`. -/
def attpBuildErrCmd (cmdCode errHandle : Nat) (reason : Status) : List UInt8 :=
  UInt8.ofNat Op.rspError :: UInt8.ofNat cmdCode :: le16 errHandle ++ [UInt8.ofNat reason.code]

/-- `gatt_send_error_rsp`; nothing is sent on a channel that is closed already. -/
def gattSendErrorRsp (payloadSize : Nat) (errCode : Status) (opCode handle : Nat) :
    List (List UInt8) :=
  if payloadSize = 0 then [] else [attpBuildErrCmd opCode handle errCode]

/-! ### Find Information -/

end BluetoothStack.Gatt
