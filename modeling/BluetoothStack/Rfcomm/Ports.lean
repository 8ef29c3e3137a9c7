import Mathlib.Tactic

/-!
# BluetoothStack.Rfcomm.Ports

The DLCIs of RFCOMM, and the states of a port and of a multiplexer.
-/

namespace BluetoothStack.Rfcomm

def rfcommMaxDlci : Nat := 61

/-- `RFCOMM_VALID_DLCI`. -/
def validDlci (dlci : Nat) : Bool :=
  dlci == 0 || (decide (2 ≤ dlci) && decide (dlci ≤ rfcommMaxDlci))

/-- `tPORT_CONNECTION_STATE`. -/
inductive PortState where
  | closed | opening | opened | closing
deriving DecidableEq, Repr

/-- `tRFC_PORT_STATE`. -/
inductive RfcState where
  | closed | sabmeWaitUa | origWaitSecCheck | termWaitSecCheck | opened | discWaitUa
deriving DecidableEq, Repr

/-- `tRFC_MX_STATE`. -/
inductive MxState where
  | idle | waitConnCnf | configure | sabmeWaitUa | waitSabme | connected | discWaitUa
deriving DecidableEq, Repr

end BluetoothStack.Rfcomm
