import BluetoothStack.Lib.LineBuffer

/-!
# BluetoothStack.Ag.AtParser

The AT command parser of the audio gateway, `bta_ag_at.cc`.

`bta_ag_at_parse` takes one RFCOMM buffer at a time and collects bytes in `p_cmd_buf`;
at a line terminator it hands the line to `bta_ag_process_at`, which looks the command up
in a table, finds out the kind of its argument and calls back. The two calls that
`bta_ag_at_parse` can make are `Call`; the callback each of them leads to is a `Dispatch`.
Nothing behind the terminating zero is ever read, so a string in the command buffer is the
list of its bytes up to `p_end`, and reading at or behind `p_end` gives zero.
-/

namespace BluetoothStack.Ag

/-! ### The command table -/

/-- Kinds of arguments, with their bits in `arg_type`. -/
inductive ArgType
  | none | set | read | test | free
  deriving DecidableEq, Repr

/-- `BTA_AG_AT_NONE`, ..., `BTA_AG_AT_FREE`. -/
def ArgType.bit : ArgType → Nat
  | .none => 0x01
  | .set => 0x02
  | .read => 0x04
  | .test => 0x08
  | .free => 0x10

/-- Argument formats. -/
inductive ArgFmt
  | str | int
  deriving DecidableEq, Repr

/-- `tBTA_AG_AT_CMD`. -/
structure AtCmd where
  pCmd : List UInt8
  commandId : Nat
  argType : Nat
  fmt : ArgFmt
  min : Nat
  max : Int

/-- `BTA_AG_LOCAL_EVT_BRSF`. -/
abbrev localEvtBrsf : Nat := 0x104

/-! ### Strings -/

/-- The bytes of a C string: up to the first zero. -/
def cString (p : List UInt8) : List UInt8 := p.takeWhile (· != 0)

/-- An ASCII letter in upper case. -/
def toUpper (c : UInt8) : UInt8 := if 97 ≤ c ∧ c ≤ 122 then c - 0x20 else c

/-- `utl_strucmp` returns zero: the command `s` is a prefix of the string, letters compared in
upper case. -/
def utlStrucmp : List UInt8 → List UInt8 → Bool
  | [], _ => true
  | _ :: _, [] => false
  | a :: s, c :: t => if c = 0 then false else a == toUpper c && utlStrucmp s t

/-- The loop of `utl_str2int` over the digits. -/
def str2intLoop (val : Int) : List UInt8 → Int
  | [] => -1
  | c :: p =>
    if c < 48 ∨ 57 < c then -1
    else
      let val := val + (c.toNat - 48)
      if 32767 < val then -1
      else if p.isEmpty then val
      else str2intLoop (val * 10) p

/-- `utl_str2int`. -/
def utlStr2int (p : List UInt8) : Int := str2intLoop 0 ((cString p).dropWhile (· == 32))

/-- The digits at the start of a string, as a number. -/
def digitsValue (val : Int) : List UInt8 → Int
  | [] => val
  | c :: p => if 48 ≤ c ∧ c ≤ 57 then digitsValue (val * 10 + (c.toNat - 48)) p else val

/-- `std::atoll`: blanks, a sign and digits. -/
def atoll (p : List UInt8) : Int :=
  match (cString p).dropWhile fun c => c == 32 || (9 ≤ c && c ≤ 13) with
  | [] => 0
  | c :: p =>
    if c = 45 then -digitsValue 0 p
    else if c = 43 then digitsValue 0 p
    else digitsValue 0 (c :: p)

/-- The argument of `+BRSF`: thirty-two bits, of which only the twelve defined ones are kept. -/
def brsfArg (p : List UInt8) : Int :=
  let v := atoll p
  let v := if 2 ^ 32 ≤ v ∨ v < 0 then -1 else v
  if 0 < v then v % 0x1000 else v

/-! ### `bta_ag_process_at` -/

/-- The callbacks `p_cmd_cback` and `p_err_cback`, with what they are given. -/
inductive Dispatch
  | cmd (commandId : Nat) (argType : ArgType) (pArg : List UInt8) (intArg : Int)
  | err (unknown : Bool) (pArg : Option (List UInt8))
  deriving DecidableEq, Repr

/-- The kind of an argument, and the argument itself. -/
def classifyArg (pArg : List UInt8) : ArgType × List UInt8 :=
  let at_ := fun i => pArg.getD i 0
  if at_ 0 = 0 then (.none, pArg)
  else if at_ 0 = 63 ∧ at_ 1 = 0 then (.read, pArg)
  else if at_ 0 = 61 ∧ at_ 1 ≠ 0 then
    if at_ 1 = 63 ∧ at_ 2 = 0 then (.test, pArg)
    else (.set, pArg.drop 1)
  else (.free, pArg)

/-- `bta_ag_process_at` on the bytes from `p_cmd_buf` to `p_end`. -/
def btaAgProcessAt (atTbl : List AtCmd) (p : List UInt8) : Dispatch :=
  match atTbl.find? fun e => utlStrucmp e.pCmd p with
  | none => .err true (some p)
  | some e =>
    if p.length < e.pCmd.length then .err false none
    else
      let (argType, pArg) := classifyArg (p.drop e.pCmd.length)
      if argType.bit &&& e.argType ≠ 0 then
        if argType = .set ∧ e.fmt = .int then
          let intArg := if e.commandId = localEvtBrsf then brsfArg pArg else utlStr2int pArg
          if intArg < e.min ∨ e.max < intArg then .err false none
          else .cmd e.commandId argType pArg intArg
        else .cmd e.commandId argType pArg 0
      else .err false none

/-! ### `bta_ag_at_parse` -/

/-- The fields of `tBTA_AG_AT_CB` that are set up once. -/
structure Cfg where
  atTbl : List AtCmd
  cmdMaxLen : Nat

/-- The parsing state of `tBTA_AG_AT_CB`. -/
structure AtCb where
  pCmdBuf : Option (List UInt8) := none
  cmdPos : Nat := 0
  deriving DecidableEq, Repr

/-- The allocated command buffer and the position in it. -/
structure CmdBuf where
  buf : List UInt8
  cmdPos : Nat
  deriving DecidableEq, Repr

/-- The calls that the parser makes. -/
inductive Call
  /-- `bta_ag_process_at`, with a line that ends at `p_end`. -/
  | processAt (line : List UInt8)
  /-- `p_err_cback`, with a line and its terminator. -/
  | errCback (line : List UInt8)
  deriving DecidableEq, Repr

/-- The callback that a call leads to; `bta_ag_process_at` is given the line behind `AT`. -/
def Call.dispatch (atTbl : List AtCmd) : Call → Dispatch
  | .processAt line => btaAgProcessAt atTbl (line.drop 2)
  | .errCback line => .err true (some line)

/-- The test of a line before it is processed. -/
def isAtLine (line : List UInt8) : Bool :=
  decide (2 < line.length) && (line.getD 0 0 == 65 || line.getD 0 0 == 97)
    && (line.getD 1 0 == 84 || line.getD 1 0 == 116)

/-- One turn of the inner loop of `bta_ag_at_parse`. -/
def takeByte (b : CmdBuf) (x : UInt8) : CmdBuf × List Call :=
  -- null characters between commands are skipped
  if b.cmdPos = 0 ∧ x = 0 then (b, [])
  else
    let buf := b.buf.set b.cmdPos x
    if x = 13 ∨ x = 10 then
      let buf := buf.set b.cmdPos 0
      let line := buf.take b.cmdPos
      ({ buf := buf, cmdPos := 0 }, if isAtLine line then [.processAt line] else [])
    else if x = 0x1A ∨ x = 0x1B then
      let buf := buf.set (b.cmdPos + 1) 0
      ({ buf := buf, cmdPos := 0 }, [.errCback (buf.take (b.cmdPos + 1))])
    else ({ buf := buf, cmdPos := b.cmdPos + 1 }, [])

/-- The inner loop: up to the end of the input or until the buffer is full. -/
def innerLoop (cmdMaxLen : Nat) : CmdBuf → List UInt8 → CmdBuf × List UInt8 × List Call
  | b, [] => (b, [], [])
  | b, x :: p =>
    if b.cmdPos < cmdMaxLen - 1 then
      let (b, calls) := takeByte b x
      let (b, rest, calls') := innerLoop cmdMaxLen b p
      (b, rest, calls ++ calls')
    else (b, x :: p, [])

/-- The outer loop, at most `k` times: a full buffer is emptied when there is more input. `none`
when the input is not used up. -/
def outerLoop (cmdMaxLen : Nat) : Nat → CmdBuf → List UInt8 → Option (CmdBuf × List Call)
  | _, b, [] => some (b, [])
  | 0, _, _ :: _ => none
  | k + 1, b, x :: p => do
    let (b, rest, calls) := innerLoop cmdMaxLen b (x :: p)
    let b := if rest.isEmpty then b else { b with cmdPos := 0 }
    let (b, calls') ← outerLoop cmdMaxLen k b rest
    pure (b, calls ++ calls')

/-- `bta_ag_at_parse`. -/
def btaAgAtParse (cfg : Cfg) (cb : AtCb) (p : List UInt8) : Option (AtCb × List Call) := do
  let b : CmdBuf :=
    match cb.pCmdBuf with
    | none => { buf := List.replicate cfg.cmdMaxLen 0, cmdPos := 0 }
    | some buf => { buf := buf, cmdPos := cb.cmdPos }
  let (b, calls) ← outerLoop cfg.cmdMaxLen (p.length + 1) b p
  pure ({ pCmdBuf := some b.buf, cmdPos := b.cmdPos }, calls)

/-- The buffers of a session, one after the other. -/
def parseAll (cfg : Cfg) : AtCb → List (List UInt8) → Option (AtCb × List Call)
  | cb, [] => some (cb, [])
  | cb, p :: ps => do
    let (cb, calls) ← btaAgAtParse cfg cb p
    let (cb, calls') ← parseAll cfg cb ps
    pure (cb, calls ++ calls')

/-- The dispatches of a session that starts with `bta_ag_at_init`. -/
def dispatches (cfg : Cfg) (packets : List (List UInt8)) : Option (List Dispatch) :=
  (parseAll cfg {} packets).map fun r => r.2.map (Call.dispatch cfg.atTbl)

end BluetoothStack.Ag
