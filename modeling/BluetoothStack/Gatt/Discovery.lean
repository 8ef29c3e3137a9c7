import BluetoothStack.Gatt.Browse

/-!
# BluetoothStack.Gatt.Discovery

A discovery operation of the GATT client (`gatt_cl.cc`).

`gatt_act_discovery` sends a request for a range of handles, and each response moves the start of
the range behind the last handle it brought. An included service with a 128-bit UUID takes a
detour: its UUID is read with a request of its own before the discovery goes on.

`Disc` has the fields of `tGATT_CLCB` that a discovery uses, the command that waits for its
response, and a log of what was sent and reported.
-/

namespace BluetoothStack.Gatt

open BluetoothStack.Lib

/-- `tGATT_DISC_TYPE`. -/
inductive DiscType where
  | srvcAll
  | srvcByUuid
  | incSrvc
  | char
  | charDscpt
deriving DecidableEq, Repr

/-- `disc_type_to_att_opcode`. -/
def DiscType.opCode : DiscType → Nat
  | .srvcAll => Op.reqReadByGrpType
  | .srvcByUuid => Op.reqFindTypeValue
  | .incSrvc => Op.reqReadByType
  | .char => Op.reqReadByType
  | .charDscpt => Op.reqFindInfo

/-- `disc_type_to_uuid`; a descriptor is not searched by its type. -/
def DiscType.uuid : DiscType → Uuid
  | .srvcAll => uuidPriService
  | .srvcByUuid => uuidPriService
  | .incSrvc => uuidIncludeService
  | .char => uuidCharDeclare
  | .charDscpt => .kEmpty

/-- `tGATT_DISC_VALUE`. -/
inductive DiscValue where
  | groupValue (eHandle : Nat) (serviceType : Uuid)
  | inclService (sHandle eHandle : Nat) (serviceType : Uuid)
  | dclrValue (charProp valHandle : Nat) (charUuid : Uuid)
  /-- A descriptor has a type and a handle only. -/
  | none
deriving DecidableEq, Repr

/-- `tGATT_DISC_RES`. -/
structure DiscRes where
  type : Uuid
  handle : Nat
  value : DiscValue
deriving DecidableEq, Repr

inductive DiscEvent where
  /-- `gatt_act_discovery` sent a request that starts with this handle. -/
  | request (sHandle : Nat)
  /-- The UUID of an included service is read. -/
  | read (handle : Nat)
  | result (res : DiscRes)
  /-- `gatt_end_operation`. -/
  | ended (status : Status)
deriving DecidableEq, Repr

structure Disc where
  opSubtype : DiscType
  sHandle : Nat
  eHandle : Nat
  uuid : Uuid
  /-- The application has a callback for the results. -/
  discResCb : Bool
  nextDiscStartHdl : Nat
  /-- The result that waits for its UUID. -/
  uuid128 : Option DiscRes
  /-- The command in `cl_cmd_q`, and its parameters. -/
  pending : Option (Nat × List UInt8)
  log : List DiscEvent
deriving DecidableEq, Repr

/-- What becomes of a command: it is sent, sent on a channel that is then congested, queued behind
another one, or refused by L2CAP. -/
inductive Sending where
  | sent
  | congested
  | queued
  | failed
deriving DecidableEq, Repr

/-- `attp_cl_send_cmd`. -/
def Sending.status : Sending → Status
  | .sent => .success
  | .congested => .congested
  | .queued => .cmdStarted
  | .failed => .internalError

namespace Disc

def note (c : Disc) (e : DiscEvent) : Disc := { c with log := c.log ++ [e] }

/-- `gatt_end_operation`; a response that still comes is ignored. -/
def endOperation (c : Disc) (status : Status) : Disc :=
  { c with pending := none }.note (.ended status)

/-- `attp_build_browse_cmd` and `attp_build_read_by_type_value_cmd`: the parameters of a discovery
request. -/
def requestParams (c : Disc) (payloadSize : Nat) : List UInt8 :=
  let range := le16 c.sHandle ++ le16 c.eHandle ++ gattBuildUuidToStream c.opSubtype.uuid
  match c.opSubtype with
  | .srvcByUuid =>
    let value := if c.uuid.shortestSize = 2 then le16 c.uuid.as16Bit else c.uuid.to128BitLE
    range ++ value.take (payloadSize - (range.length + 1))
  | _ => range

/-- `attp_send_cl_msg` for a discovery request. -/
def sendRequest (c : Disc) (payloadSize : Nat) (lower : Sending) : Status × Disc :=
  if payloadSize = 0 then (.noResources, c)
  else if c.opSubtype = .srvcByUuid ∧ payloadSize < 5 then (.noResources, c)
  else if c.opSubtype ≠ .srvcByUuid ∧ (c.sHandle = 0 ∨ c.eHandle = 0 ∨ c.sHandle > c.eHandle) then
    (.illegalParameter, c)
  else
    (lower.status,
      { c.note (.request c.sHandle) with
        pending := if lower = .failed then none
          else some (c.opSubtype.opCode, c.requestParams payloadSize) })

/-- `gatt_act_discovery`. -/
def gattActDiscovery (c : Disc) (payloadSize : Nat) (lower : Sending) : Disc :=
  if c.sHandle > c.eHandle ∨ c.sHandle = 0 then c.endOperation .success
  else
    let (st, c) := c.sendRequest payloadSize lower
    if st ≠ .success ∧ st ≠ .cmdStarted then c.endOperation .error else c

/-- `gatt_act_read` with `GATT_READ_INC_SRV_UUID128`. -/
def gattActReadUuid128 (c : Disc) (payloadSize : Nat) (lower : Sending) : Disc :=
  if payloadSize = 0 then c.endOperation .noResources
  else if c.sHandle = 0 then c.endOperation .illegalParameter
  else
    let c := { c.note (.read c.sHandle) with
      pending := if lower = .failed then none else some (Op.reqRead, le16 c.sHandle) }
    if lower.status ≠ .success ∧ lower.status ≠ .cmdStarted then c.endOperation lower.status else c

/-- Results for the callback, if there is one. -/
def report (c : Disc) (results : List DiscRes) : Disc :=
  if c.discResCb then { c with log := c.log ++ results.map .result } else c

/-- The handle behind the last one. -/
def moveBehind (c : Disc) (handle : Nat) : Disc :=
  { c with sHandle := if handle = 0 then 0 else u16 (handle + 1) }

/-! ### Responses -/

/-- How the loop of `gatt_process_read_by_type_rsp` ends. -/
inductive LoopExit where
  /-- At the end of the response, with the last handle. -/
  | done (handle : Nat)
  | ended (status : Status)
  /-- The UUID of an included service has to be read. -/
  | readUuid (res : DiscRes) (sHandle : Nat)
deriving DecidableEq, Repr

/-- One entry of the response: the result if there is one, the handle that the discovery goes on
behind, and the rest. -/
def readByTypeEntry (c : Disc) (opCode valueLen : Nat) (p : List UInt8) :
    Except LoopExit (Option DiscRes × Nat × List UInt8) :=
  let handle := rd16 p 0
  let p := p.drop 2
  if handle = 0 then .error (.ended .invalidHandle)
  else if c.opSubtype = .srvcAll ∧ opCode = Op.rspReadByGrpType then
    let eHandle := rd16 p 0
    if eHandle = 0 then .error (.ended .invalidHandle)
    else
      -- the source breaks off the loop, and asks again behind this group
      match gattParseUuidFromCmd .kEmpty valueLen (p.drop 2) with
      | none => .error (.done eHandle)
      | some (serviceType, rest) =>
        .ok (some ⟨c.opSubtype.uuid, handle, .groupValue eHandle serviceType⟩, eHandle, rest)
  else if c.opSubtype = .incSrvc then
    if valueLen < 4 then .error (.ended .invalidPdu)
    else
      let sHandle := rd16 p 0
      let eHandle := rd16 p 2
      if sHandle = 0 ∨ eHandle = 0 then .error (.ended .invalidHandle)
      else if valueLen = 6 then
        .ok (some ⟨c.opSubtype.uuid, handle, .inclService sHandle eHandle (.from16Bit (rd16 p 4))⟩,
          handle, p.drop 6)
      else if valueLen = 4 then
        .error (.readUuid ⟨c.opSubtype.uuid, handle, .inclService sHandle eHandle .kEmpty⟩ sHandle)
      else .error (.ended .invalidPdu)
  else
    if valueLen < 3 then .error (.ended .invalidPdu)
    else
      let valHandle := rd16 p 1
      if valHandle = 0 then .error (.ended .invalidHandle)
      else
        match gattParseUuidFromCmd .kEmpty (valueLen - 3) (p.drop 3) with
        | none => .error (.ended .success)
        | some (charUuid, rest) =>
          if c.uuid ≠ .kEmpty ∧ charUuid ≠ .kEmpty ∧ charUuid ≠ c.uuid then
            .ok (none, handle, rest)
          else
            .ok (some ⟨c.opSubtype.uuid, handle,
              .dclrValue (p.getD 0 0).toNat valHandle charUuid⟩, handle, rest)

/-- The loop of `gatt_process_read_by_type_rsp`. -/
def readByTypeLoop (c : Disc) (opCode handleLen valueLen : Nat) :
    Nat → Nat → List UInt8 → List DiscRes × LoopExit
  | 0, handle, _ => ([], .done handle)
  | fuel + 1, handle, p =>
    if p.length ≥ handleLen + valueLen then
      match readByTypeEntry c opCode valueLen p with
      | .error exit => ([], exit)
      | .ok (res, handle, rest) =>
        let (results, exit) := readByTypeLoop c opCode handleLen valueLen fuel handle rest
        (res.toList ++ results, exit)
    else ([], .done handle)

/-- `gatt_process_read_by_type_rsp`. -/
def gattProcessReadByTypeRsp (c : Disc) (opCode : Nat) (p : List UInt8) (payloadSize : Nat)
    (lower : Sending) : Disc :=
  if !c.discResCb then c
  else if p.length < 1 then c.endOperation .invalidPdu
  else
    let valueLen := (p.getD 0 0).toNat
    if valueLen + 2 > payloadSize ∨ valueLen + 1 > p.length then c.endOperation .error
    else
      let handleLen := if opCode = Op.rspReadByGrpType then 4 else 2
      let (results, exit) := readByTypeLoop c opCode handleLen (u8 (valueLen + 256 - handleLen))
        p.length 0 (p.drop 1)
      let c := c.report results
      match exit with
      | .done handle => (c.moveBehind handle).gattActDiscovery payloadSize lower
      | .ended status => c.endOperation status
      | .readUuid res sHandle =>
        { c with
          sHandle := sHandle
          nextDiscStartHdl := u16 (res.handle + 1)
          uuid128 := some res }.gattActReadUuid128 payloadSize lower

/-- `gatt_cmd_to_rsp_code`. -/
def gattCmdToRspCode (cmdCode : Nat) : Nat :=
  if cmdCode > 1 ∧ cmdCode ≠ Op.cmdWrite then cmdCode + 1 else 0

end Disc

end BluetoothStack.Gatt
