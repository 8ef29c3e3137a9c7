import BluetoothStack.Gatt.Browse

/-!
# BluetoothStack.Gatt.ReadMultiple

Read Multiple requests at the GATT server (`gatt_sr.cc`).

`gatt_process_read_multi_req` reads the handles one after the other. What the stack has itself is
queued at once, an application is asked for the rest and answers when it likes. With the last answer
`build_read_multi_rsp` goes through the queue and expects the values in the order of the handles,
but the queue has them in the order of the answers.
-/

namespace BluetoothStack.Gatt

open BluetoothStack.Lib

/-- `GATT_MAX_READ_MULTI_HANDLES`. -/
def maxReadMultiHandles : Nat := 10

/-- `tGATT_SR_CMD`, with `multi_req`. -/
structure SrCmd where
  opCode : Nat
  handle : Nat
  status : Status
  handles : List Nat
  variableLen : Bool
  multiRspQ : List (Nat × List UInt8)
  rspMsg : Option (List UInt8)
deriving DecidableEq, Repr

/-- The command of a channel, and what was sent on it. -/
structure SrLink where
  cmd : SrCmd
  sent : List (List UInt8)
deriving DecidableEq, Repr

/-- A command that is cleared. -/
def SrCmd.idle : SrCmd := ⟨0, 0, .success, [], false, [], none⟩

/-- No request is being answered. The handles of one that was refused may still be there. -/
structure SrCmd.Idle (cmd : SrCmd) : Prop where
  opCode : cmd.opCode = 0
  multiRspQ : cmd.multiRspQ = []
  rspMsg : cmd.rspMsg = none

/-! ### The response -/

/-- The loop of `build_read_multi_rsp`: the status if there is a new one, and the response. -/
def readMultiLoop (variableLen : Bool) (mtu : Nat) :
    List Nat → List (Nat × List UInt8) → List UInt8 → Option Status × List UInt8
  | [], _, buf => (none, buf)
  | _ :: _, [], buf => (some .notFound, buf)
  | handle :: handles, (rspHandle, value) :: rsps, buf =>
    let totalLen := buf.length + if variableLen then 2 else 0
    if totalLen > mtu then (none, buf)
    else
      let len := min value.length (mtu - totalLen)
      if totalLen = mtu ∧ value.length > 0 then (none, buf)
      else
        let buf := if variableLen then buf ++ le16 len else buf
        if rspHandle = handle then
          let buf := buf ++ value.take len
          if len < value.length then (none, buf)
          else readMultiLoop variableLen mtu handles rsps buf
        else (some .notFound, buf)

def readMultiOpCode (variableLen : Bool) : Nat :=
  if variableLen then Op.rspReadMultiVar else Op.rspReadMulti

/-- `build_read_multi_rsp`. -/
def buildReadMultiRsp (cmd : SrCmd) (mtu : Nat) : SrCmd :=
  if mtu = 0 then { cmd with status := .illegalParameter }
  else
    let (status, buf) := readMultiLoop cmd.variableLen mtu cmd.handles cmd.multiRspQ
      [UInt8.ofNat (readMultiOpCode cmd.variableLen)]
    { cmd with status := status.getD cmd.status, rspMsg := some (cmd.rspMsg.getD buf) }

/-- `process_read_multi_rsp`; true if all replies have been received. -/
def processReadMultiRsp (cmd : SrCmd) (status : Status) (msg : Nat × List UInt8) (mtu : Nat) :
    Bool × SrCmd :=
  let cmd := { cmd with multiRspQ := cmd.multiRspQ ++ [msg], status := status }
  if status = .success then
    if cmd.multiRspQ.length = cmd.handles.length then (true, buildReadMultiRsp cmd mtu)
    else (false, cmd)
  else (true, cmd)

/-- `gatt_sr_process_app_rsp` for a Read Multiple request. The counts of callbacks are not used for
these requests: they were reset, and are zero. -/
def gattSrProcessAppRsp (payloadSize : Nat) (status : Status) (l : SrLink)
    (msg : Nat × List UInt8) : SrLink :=
  match processReadMultiRsp l.cmd status msg payloadSize with
  | (false, cmd) => { l with cmd := cmd }
  | (true, cmd) =>
    match cmd.status, cmd.rspMsg with
    | .success, some rsp => ⟨.idle, l.sent ++ [rsp]⟩
    | _, _ => ⟨.idle, l.sent ++ gattSendErrorRsp payloadSize status cmd.opCode cmd.handle⟩

/-! ### The request -/

/-- What the server knows of the handles. -/
structure ReadDb where
  /-- A service has the handle, `gatt_sr_find_i_rcb_by_handle`. -/
  inService : Nat → Bool
  /-- `gatts_read_attr_perm_check`. -/
  readAttrPermCheck : Nat → Status
  /-- `read_attr_value` builds the value: a declaration, and not the value of an application. -/
  byStack : Nat → Bool
  /-- The value, of the stack or of the application. -/
  value : Nat → List UInt8

/-- The first loop of `gatt_process_read_multi_req`: the handles, the error, and the last handle. -/
def readMultiHandles (db : ReadDb) : Nat → Nat → List UInt8 → List Nat × Status × Nat
  | room + 1, _, b₀ :: b₁ :: p =>
    let handle := rd16 [b₀, b₁] 0
    if db.inService handle then
      if db.readAttrPermCheck handle = .success then
        let (handles, err, last) := readMultiHandles db room handle p
        (handle :: handles, err, last)
      else ([handle], db.readAttrPermCheck handle, handle)
    else ([], .invalidHandle, handle)
  | _, last, _ => ([], .success, last)

/-- A channel while its request is read. -/
structure MultiRead where
  link : SrLink
  /-- The handles that the second loop has still to read. -/
  toRead : List Nat
  /-- The handles that applications have been asked for. -/
  waiting : List Nat

/-- `gatt_process_read_multi_req`, up to its second loop. -/
def gattProcessReadMultiReq (db : ReadDb) (opCode : Nat) (p : List UInt8) (payloadSize : Nat)
    (l : SrLink) : MultiRead :=
  let (handles, err, last) := readMultiHandles db maxReadMultiHandles 0 p
  let cmd := { l.cmd with handles := handles, variableLen := opCode = Op.reqReadMultiVar }
  let refuse (err : Status) : MultiRead :=
    ⟨⟨cmd, l.sent ++ gattSendErrorRsp payloadSize err opCode last⟩, [], []⟩
  match handles with
  | [] => refuse .invalidHandle
  | first :: _ =>
    if err = .success then
      if cmd.opCode = 0 then
        ⟨⟨{ cmd with opCode := opCode, handle := first, status := .notFound }, l.sent⟩, handles, []⟩
      else refuse .noResources
    else refuse err

/-- A value comes in. -/
def MultiRead.arrive (s : MultiRead) (db : ReadDb) (payloadSize handle : Nat) : MultiRead :=
  { s with link := gattSrProcessAppRsp payloadSize .success s.link (handle, db.value handle) }

/-- The second loop and the answers of the applications, in any order, with the handles whose values
came in. An application can answer while it is being asked, or later. -/
inductive MultiRead.Run (db : ReadDb) (payloadSize : Nat) :
    MultiRead → List Nat → MultiRead → Prop where
  | refl (s : MultiRead) : Run db payloadSize s [] s
  | stack {s s' : MultiRead} {handle : Nat} {rest arrived : List Nat} :
      s.toRead = handle :: rest → db.byStack handle = true →
      Run db payloadSize ({ s with toRead := rest }.arrive db payloadSize handle) arrived s' →
      Run db payloadSize s (handle :: arrived) s'
  | ask {s s' : MultiRead} {handle : Nat} {rest arrived : List Nat} :
      s.toRead = handle :: rest → db.byStack handle = false →
      Run db payloadSize { s with toRead := rest, waiting := handle :: s.waiting } arrived s' →
      Run db payloadSize s arrived s'
  | answer {s s' : MultiRead} {handle : Nat} {arrived : List Nat} :
      handle ∈ s.waiting →
      Run db payloadSize ({ s with waiting := s.waiting.erase handle }.arrive db payloadSize handle)
        arrived s' →
      Run db payloadSize s (handle :: arrived) s'

/-! ### What is expected -/

/-- A value in a response, with its length in the variable form. -/
def multiEntry (variableLen : Bool) (value : List UInt8) : List UInt8 :=
  if variableLen then le16 value.length ++ value else value

def multiValues (variableLen : Bool) (value : Nat → List UInt8) (handles : List Nat) : List UInt8 :=
  handles.flatMap fun handle => multiEntry variableLen (value handle)

/-- The values in the order of the handles, cut where the payload size is reached. -/
def multiRsp (variableLen : Bool) (payloadSize : Nat) (value : Nat → List UInt8)
    (handles : List Nat) : List UInt8 :=
  (UInt8.ofNat (readMultiOpCode variableLen) :: multiValues variableLen value handles).take
    payloadSize

/-- The first `k` values came in the order of the handles, and the response is complete with them:
`used` bytes are in it before, and `tail` would follow behind all of these handles. In the variable
form the values have to fit. Before the last handle the response has to be full, and a value that is
skipped must not be empty in the fixed form. -/
structure Reaches (variableLen : Bool) (mtu : Nat) (value : Nat → List UInt8) (used : Nat)
    (handles arrived : List Nat) (tail : List UInt8) (k : Nat) : Prop where
  inOrder : arrived.take k = handles.take k
  whole : variableLen = true → used + (multiValues variableLen value (handles.take k)).length ≤ mtu
  complete : k = handles.length ∧
      (mtu ≤ used + (multiValues variableLen value (handles.take k)).length ∨ tail = []) ∨
    k < handles.length ∧
      (mtu < used + (multiValues variableLen value (handles.take k)).length ∨
        mtu = used + (multiValues variableLen value (handles.take k)).length ∧
          (variableLen = true ∨ ∃ handle, arrived[k]? = some handle ∧ value handle ≠ []))

section Loop

variable {variableLen : Bool} {mtu used handle a : Nat} {value : Nat → List UInt8}
  {handles arrived : List Nat} {tail buf : List UInt8}

@[simp] theorem multiValues_cons : multiValues variableLen value (handle :: handles) =
    multiEntry variableLen (value handle) ++ multiValues variableLen value handles := rfl

theorem reaches_nil {k : Nat} : Reaches variableLen mtu value used [] [] tail k ↔
    k = 0 ∧ (variableLen = true → used ≤ mtu) ∧ (mtu ≤ used ∨ tail = []) := by
  constructor
  · rintro ⟨-, hwhole, ⟨hk, hend⟩ | ⟨hk, -⟩⟩
    · cases hk
      exact ⟨rfl, hwhole, hend⟩
    · exact absurd hk k.not_lt_zero
  · rintro ⟨rfl, hwhole, hend⟩
    exact ⟨rfl, hwhole, .inl ⟨rfl, hend⟩⟩

theorem reaches_zero :
    Reaches variableLen mtu value used (handle :: handles) (a :: arrived) tail 0 ↔
      (variableLen = true → used ≤ mtu) ∧
        (mtu < used ∨ mtu = used ∧ (variableLen = true ∨ value a ≠ [])) := by
  constructor
  · rintro ⟨-, hwhole, ⟨hk, -⟩ | ⟨-, hend⟩⟩
    · cases hk
    · refine ⟨hwhole, hend.imp_right fun ⟨heq, hskip⟩ => ⟨heq, hskip.imp_right ?_⟩⟩
      rintro ⟨b, hb, hne⟩
      cases hb
      exact hne
  · rintro ⟨hwhole, hend⟩
    refine ⟨rfl, hwhole, .inr ⟨Nat.succ_pos _, hend.imp_right fun ⟨heq, hskip⟩ => ⟨heq, ?_⟩⟩⟩
    exact hskip.imp_right fun hne => ⟨a, rfl, hne⟩

theorem reaches_succ {k : Nat} :
    Reaches variableLen mtu value used (handle :: handles) (a :: arrived) tail (k + 1) ↔
      a = handle ∧ Reaches variableLen mtu value
        (used + (multiEntry variableLen (value handle)).length) handles arrived tail k := by
  constructor
  · rintro ⟨horder, hwhole, hend⟩
    simp only [List.take_succ_cons, List.cons.injEq, multiValues_cons, List.length_append,
      List.length_cons, Nat.add_lt_add_iff_right, Nat.add_right_cancel_iff, List.getElem?_cons_succ,
      ← Nat.add_assoc] at horder hwhole hend
    exact ⟨horder.1, horder.2, hwhole, hend⟩
  · rintro ⟨rfl, horder, hwhole, hend⟩
    refine ⟨?_, ?_, ?_⟩ <;>
      simp only [List.take_succ_cons, List.cons.injEq, multiValues_cons, List.length_append,
        List.length_cons, Nat.add_lt_add_iff_right, Nat.add_right_cancel_iff,
        List.getElem?_cons_succ, ← Nat.add_assoc]
    · exact ⟨trivial, horder⟩
    · exact hwhole
    · exact hend

theorem exists_reaches_cons :
    (∃ k, Reaches variableLen mtu value used (handle :: handles) (a :: arrived) tail k) ↔
      (variableLen = true → used ≤ mtu) ∧
          (mtu < used ∨ mtu = used ∧ (variableLen = true ∨ value a ≠ [])) ∨
        a = handle ∧ ∃ k, Reaches variableLen mtu value
          (used + (multiEntry variableLen (value handle)).length) handles arrived tail k := by
  constructor
  · rintro ⟨k, hk⟩
    cases k with
    | zero => exact .inl (reaches_zero.mp hk)
    | succ k =>
      obtain ⟨ha, hk⟩ := reaches_succ.mp hk
      exact .inr ⟨ha, k, hk⟩
  · rintro (h | ⟨ha, k, hk⟩)
    · exact ⟨0, reaches_zero.mpr h⟩
    · exact ⟨k + 1, reaches_succ.mpr ⟨ha, hk⟩⟩

/-- Values that do not fit are out of reach in the variable form. -/
theorem Reaches.used_le {k : Nat} (h : Reaches true mtu value used handles arrived tail k) :
    used ≤ mtu :=
  (Nat.le_add_right _ _).trans (h.whole rfl)

theorem take_full (hbuf : buf.length = mtu) (rest : List UInt8) : (buf ++ rest).take mtu = buf :=
  List.take_left' hbuf

/-- A response with room for more is not cut. -/
theorem ne_take_of_lt (hbuf : buf.length < mtu) {rest : List UInt8} (hrest : rest ≠ []) :
    buf ≠ (buf ++ rest).take mtu := by
  intro h
  have hlen := congrArg List.length h
  rw [List.length_take, List.length_append] at hlen
  have hpos := List.length_pos_iff.mpr hrest
  omega

theorem readMultiLoop_nil_iff (hbuf : buf.length ≤ mtu) :
    readMultiLoop variableLen mtu [] [] buf = (none, (buf ++ tail).take mtu) ↔
      ∃ k, Reaches variableLen mtu value buf.length [] [] tail k := by
  simp only [reaches_nil, exists_eq_left, hbuf, implies_true, true_and]
  rw [readMultiLoop, Prod.mk.injEq]
  refine ⟨fun h => ?_, fun h => ⟨rfl, ?_⟩⟩
  · by_contra hnot
    rw [not_or, not_le] at hnot
    exact ne_take_of_lt hnot.1 hnot.2 h.2
  · obtain hfull | rfl := h
    · exact (take_full (le_antisymm hbuf hfull) tail).symm
    · rw [List.append_nil, List.take_of_length_le hbuf]

/-- Nothing more is needed behind a response that is cut. -/
theorem exists_reaches_of_lt (h : mtu < used) :
    ∃ k, Reaches false mtu value used handles arrived tail k := by
  refine ⟨0, rfl, fun h => (Bool.false_ne_true h).elim, ?_⟩
  have hused : used + (multiValues false value (handles.take 0)).length = used := rfl
  rw [hused]
  obtain hzero | hpos := Nat.eq_zero_or_pos handles.length
  · exact .inl ⟨hzero.symm, .inl h.le⟩
  · exact .inr ⟨hpos, .inl h⟩

theorem readMultiLoop_fixed_iff (hbuf : buf.length ≤ mtu) (hlen : arrived.length = handles.length) :
    readMultiLoop false mtu handles (arrived.map fun a => (a, value a)) buf =
        (none, (buf ++ (multiValues false value handles ++ tail)).take mtu) ↔
      ∃ k, Reaches false mtu value buf.length handles arrived tail k := by
  induction handles generalizing arrived buf with
  | nil =>
    obtain rfl := List.eq_nil_of_length_eq_zero hlen
    exact readMultiLoop_nil_iff hbuf
  | cons handle handles ih =>
    match arrived, hlen with
    | a :: arrived, hlen =>
      have hlen' : arrived.length = handles.length := Nat.succ.inj hlen
      have hroom : ¬ buf.length > mtu := not_lt.mpr hbuf
      rw [exists_reaches_cons, List.map_cons, readMultiLoop]
      simp only [Bool.false_eq_true, if_false, Nat.add_zero, if_neg hroom, false_implies, true_and,
        false_or, multiEntry]
      by_cases hskip : buf.length = mtu ∧ (value a).length > 0
      · rw [if_pos hskip, take_full hskip.1]
        exact iff_of_true rfl (.inl (.inr ⟨hskip.1.symm, List.length_pos_iff.mp hskip.2⟩))
      · have hnot : ¬ (mtu < buf.length ∨ mtu = buf.length ∧ value a ≠ []) := by
          rintro (h | ⟨h, hne⟩)
          · exact hroom h
          · exact hskip ⟨h.symm, List.length_pos_iff.mpr hne⟩
        rw [if_neg hskip, or_iff_right hnot]
        by_cases ha : a = handle
        · subst ha
          simp only [if_true, true_and]
          by_cases hover : min (value a).length (mtu - buf.length) < (value a).length
          · -- the value is cut, and the response is full
            have hcut : min (value a).length (mtu - buf.length) = mtu - buf.length := by omega
            rw [if_pos hover, multiValues_cons, multiEntry, if_neg Bool.false_ne_true, hcut]
            refine iff_of_true ?_ (exists_reaches_of_lt (by omega))
            rw [List.append_assoc, List.take_append, List.take_of_length_le hbuf,
              List.take_append_of_le_length (by omega)]
          · have hwhole : min (value a).length (mtu - buf.length) = (value a).length := by omega
            have hbuf' : (buf ++ value a).length ≤ mtu := by
              rw [List.length_append]
              omega
            rw [if_neg hover, hwhole, List.take_length, multiValues_cons, multiEntry,
              if_neg Bool.false_ne_true, ← List.length_append, ← ih hbuf' hlen']
            simp only [List.append_assoc]
        · rw [if_neg ha]
          exact iff_of_false (fun h => by cases h) fun h => ha h.1

theorem le16_inj {m n : Nat} (hm : m < 65536) (hn : n < 65536) (h : le16 m = le16 n) : m = n := by
  rw [← rd16_le16_append hm [], h, rd16_le16_append hn]

theorem cut_ne {n : Nat} {v rest : List UInt8} (hn : n < v.length) (hv : v.length < 65536)
    (hroom : buf.length + 2 ≤ mtu) :
    buf ++ le16 n ++ v.take n ≠ (buf ++ (le16 v.length ++ rest)).take mtu := by
  intro h
  have hbuf : buf.take mtu = buf := List.take_of_length_le (by omega)
  have hle : (le16 v.length).take (mtu - buf.length) = le16 v.length :=
    List.take_of_length_le (by rw [le16_length]; omega)
  rw [List.append_assoc, List.take_append, hbuf, List.take_append, hle] at h
  have hlen := (List.append_inj (List.append_cancel_left h) rfl).1
  exact absurd (le16_inj (by omega) hv hlen) hn.ne

theorem readMultiLoop_variable_iff (hvalue : ∀ a, (value a).length < 65536)
    (hbuf : buf.length ≤ mtu) (hlen : arrived.length = handles.length) :
    readMultiLoop true mtu handles (arrived.map fun a => (a, value a)) buf =
        (none, (buf ++ (multiValues true value handles ++ tail)).take mtu) ↔
      ∃ k, Reaches true mtu value buf.length handles arrived tail k := by
  induction handles generalizing arrived buf with
  | nil =>
    obtain rfl := List.eq_nil_of_length_eq_zero hlen
    exact readMultiLoop_nil_iff hbuf
  | cons handle handles ih =>
    match arrived, hlen with
    | a :: arrived, hlen =>
      have hlen' : arrived.length = handles.length := Nat.succ.inj hlen
      have hentry : (multiEntry true (value handle)).length = 2 + (value handle).length := by
        rw [multiEntry, if_pos rfl, List.length_append, le16_length]
      have hnonempty : multiValues true value (handle :: handles) ++ tail ≠ [] :=
        List.cons_ne_nil _ _
      rw [exists_reaches_cons, List.map_cons, readMultiLoop, hentry]
      simp only [if_true, true_implies, true_or, and_true]
      -- no value is reached if the next one does not fit
      have hstuck (h : mtu < buf.length + (2 + (value handle).length)) :
          ¬ (a = handle ∧ ∃ k, Reaches true mtu value (buf.length + (2 + (value handle).length))
            handles arrived tail k) := fun ⟨_, _, hk⟩ => absurd hk.used_le (not_le.mpr h)
      by_cases hfull : buf.length + 2 > mtu
      · rw [if_pos hfull, or_iff_left (hstuck (by omega)), Prod.mk.injEq]
        refine ⟨fun h => ⟨hbuf, ?_⟩, fun h => ⟨rfl, ?_⟩⟩
        · by_contra hnot
          exact ne_take_of_lt (by omega) hnonempty h.2
        · exact (take_full (by omega) _).symm
      · have hnot : ¬ (buf.length ≤ mtu ∧ (mtu < buf.length ∨ mtu = buf.length)) := by omega
        rw [if_neg hfull, or_iff_right hnot]
        by_cases hskip : buf.length + 2 = mtu ∧ (value a).length > 0
        · rw [if_pos hskip, Prod.mk.injEq]
          refine iff_of_false (fun h => ne_take_of_lt (by omega) hnonempty h.2) ?_
          rintro ⟨rfl, hk⟩
          exact hstuck (by omega) ⟨rfl, hk⟩
        · rw [if_neg hskip]
          by_cases ha : a = handle
          · subst ha
            simp only [if_true]
            by_cases hover : min (value a).length (mtu - (buf.length + 2)) < (value a).length
            · rw [if_pos hover, Prod.mk.injEq, multiValues_cons, multiEntry, if_pos rfl,
                List.append_assoc (le16 _), List.append_assoc (le16 _)]
              refine iff_of_false (fun h => cut_ne hover (hvalue a) (by omega) h.2) fun h => ?_
              exact hstuck (by omega) ⟨rfl, h.2⟩
            · have hwhole : min (value a).length (mtu - (buf.length + 2)) = (value a).length := by
                omega
              have hgrown : (buf ++ le16 (value a).length ++ value a).length =
                  buf.length + (2 + (value a).length) := by
                rw [List.length_append, List.length_append, le16_length, Nat.add_assoc]
              rw [if_neg hover, hwhole, List.take_length, multiValues_cons, multiEntry, if_pos rfl,
                ← hgrown, ← ih (by omega) hlen']
              simp only [List.append_assoc, true_and]
          · rw [if_neg ha]
            exact iff_of_false (fun h => by cases h) fun h => ha h.1

theorem readMultiLoop_iff (hvalue : ∀ a, (value a).length < 65536) (hbuf : buf.length ≤ mtu)
    (hlen : arrived.length = handles.length) :
    readMultiLoop variableLen mtu handles (arrived.map fun a => (a, value a)) buf =
        (none, (buf ++ (multiValues variableLen value handles ++ tail)).take mtu) ↔
      ∃ k, Reaches variableLen mtu value buf.length handles arrived tail k := by
  cases variableLen with
  | false => exact readMultiLoop_fixed_iff hbuf hlen
  | true => exact readMultiLoop_variable_iff hvalue hbuf hlen

end Loop

/-! ### Runs -/

section Runs

variable {db : ReadDb} {payloadSize : Nat} {s s' : MultiRead} {arrived : List Nat}

/-- What is left to read and to answer, and what came in. -/
theorem MultiRead.Run.perm (h : Run db payloadSize s arrived s') :
    (arrived ++ (s'.toRead ++ s'.waiting)).Perm (s.toRead ++ s.waiting) := by
  induction h with
  | refl s => exact .refl _
  | @stack s s' handle rest arrived hread _ _ ih =>
    rw [hread]
    exact ih.cons handle
  | @ask s s' handle rest arrived hread _ _ ih =>
    rw [hread]
    exact ih.trans List.perm_middle
  | @answer s s' handle arrived hmem _ ih =>
    have herase : (s.toRead ++ s.waiting).Perm (handle :: (s.toRead ++ s.waiting.erase handle)) :=
      ((List.perm_cons_erase hmem).append_left _).trans List.perm_middle
    exact (ih.cons handle).trans herase.symm

/-- The answer depends on the order in which the values came in. -/
theorem MultiRead.Run.link (h : Run db payloadSize s arrived s') :
    s'.link = (arrived.map fun a => (a, db.value a)).foldl
      (gattSrProcessAppRsp payloadSize .success) s.link := by
  induction h with
  | refl s => rfl
  | stack _ _ _ ih | ask _ _ _ ih | answer _ _ ih => exact ih

theorem readMultiLoop_status (variableLen : Bool) (mtu : Nat) (handles : List Nat)
    (rsps : List (Nat × List UInt8)) (buf : List UInt8) :
    (readMultiLoop variableLen mtu handles rsps buf).1 = none ∨
      (readMultiLoop variableLen mtu handles rsps buf).1 = some .notFound := by
  induction handles generalizing rsps buf with
  | nil => exact .inl rfl
  | cons handle handles ih =>
    cases rsps with
    | nil => exact .inr rfl
    | cons rsp rsps =>
      rw [readMultiLoop]
      generalize buf.length + (if variableLen = true then 2 else 0) = totalLen
      by_cases hfull : totalLen > mtu
      · exact .inl (by simp only [if_pos hfull])
      by_cases hskip : totalLen = mtu ∧ rsp.2.length > 0
      · exact .inl (by simp only [if_neg hfull, if_pos hskip])
      simp only [if_neg hfull, if_neg hskip]
      by_cases hhandle : rsp.1 = handle
      · by_cases hover : min rsp.2.length (mtu - totalLen) < rsp.2.length
        · exact .inl (by simp only [if_pos hhandle, if_pos hover])
        · simp only [if_pos hhandle, if_neg hover]
          exact ih _ _
      · exact .inr (by simp only [if_neg hhandle])

/-- What is sent with the last value. -/
def multiAnswer (cmd : SrCmd) (payloadSize : Nat) (msgs : List (Nat × List UInt8)) :
    List (List UInt8) :=
  match readMultiLoop cmd.variableLen payloadSize cmd.handles msgs
      [UInt8.ofNat (readMultiOpCode cmd.variableLen)] with
  | (none, rsp) => [rsp]
  | (some _, _) => gattSendErrorRsp payloadSize .success cmd.opCode cmd.handle

theorem gattSrProcessAppRsp_last {l : SrLink} {msg : Nat × List UInt8}
    (hlen : l.cmd.multiRspQ.length + 1 = l.cmd.handles.length) (hrsp : l.cmd.rspMsg = none)
    (hsize : payloadSize ≠ 0) :
    gattSrProcessAppRsp payloadSize .success l msg =
      ⟨.idle, l.sent ++ multiAnswer l.cmd payloadSize (l.cmd.multiRspQ ++ [msg])⟩ := by
  have hall : (l.cmd.multiRspQ ++ [msg]).length = l.cmd.handles.length := by
    rw [List.length_append, List.length_singleton, hlen]
  have hstatus := readMultiLoop_status l.cmd.variableLen payloadSize l.cmd.handles
    (l.cmd.multiRspQ ++ [msg]) [UInt8.ofNat (readMultiOpCode l.cmd.variableLen)]
  rw [gattSrProcessAppRsp, processReadMultiRsp, multiAnswer]
  simp only [if_true, if_pos hall, buildReadMultiRsp, if_neg hsize, hrsp]
  generalize readMultiLoop l.cmd.variableLen payloadSize l.cmd.handles (l.cmd.multiRspQ ++ [msg])
    [UInt8.ofNat (readMultiOpCode l.cmd.variableLen)] = r at hstatus ⊢
  obtain ⟨status, buf⟩ := r
  obtain rfl | rfl := hstatus <;> rfl

theorem gattSrProcessAppRsp_more {l : SrLink} {msg : Nat × List UInt8}
    (hlen : l.cmd.multiRspQ.length + 1 ≠ l.cmd.handles.length) :
    gattSrProcessAppRsp payloadSize .success l msg =
      { l with
        cmd := { l.cmd with multiRspQ := l.cmd.multiRspQ ++ [msg], status := .success } } := by
  have hmore : ¬ (l.cmd.multiRspQ ++ [msg]).length = l.cmd.handles.length := by
    rwa [List.length_append, List.length_singleton]
  rw [gattSrProcessAppRsp, processReadMultiRsp]
  simp only [if_true, if_neg hmore]

/-- The values are queued until the last one comes in. -/
theorem foldl_processAppRsp {l : SrLink} {msgs : List (Nat × List UInt8)} (hne : msgs ≠ [])
    (hlen : l.cmd.multiRspQ.length + msgs.length = l.cmd.handles.length)
    (hrsp : l.cmd.rspMsg = none) (hsize : payloadSize ≠ 0) :
    msgs.foldl (gattSrProcessAppRsp payloadSize .success) l =
      ⟨.idle, l.sent ++ multiAnswer l.cmd payloadSize (l.cmd.multiRspQ ++ msgs)⟩ := by
  induction msgs generalizing l with
  | nil => exact absurd rfl hne
  | cons msg msgs ih =>
    rw [List.foldl_cons]
    cases msgs with
    | nil => rw [gattSrProcessAppRsp_last hlen hrsp hsize, List.foldl_nil]
    | cons next msgs =>
      simp only [List.length_cons] at hlen
      rw [gattSrProcessAppRsp_more (by omega), ih (List.cons_ne_nil _ _) ?_ ?_]
      · rw [List.append_assoc, List.singleton_append]
        rfl
      · simp only [List.length_append, List.length_cons, List.length_nil]
        omega
      · exact hrsp

/-! ### Requests -/

/-- All of these handles can be read. -/
def ReadDb.Readable (db : ReadDb) (handles : List Nat) : Prop :=
  ∀ a ∈ handles, a < 65536 ∧ db.inService a = true ∧ db.readAttrPermCheck a = .success

theorem readMultiHandles_eq {handles : List Nat} (h : db.Readable handles) (room last : Nat) :
    (readMultiHandles db room last (handles.flatMap le16)).1 = handles.take room ∧
      (readMultiHandles db room last (handles.flatMap le16)).2.1 = .success := by
  induction handles generalizing room last with
  | nil =>
    rw [List.take_nil]
    cases room <;> exact ⟨rfl, rfl⟩
  | cons a handles ih =>
    cases room with
    | zero => exact ⟨rfl, rfl⟩
    | succ room =>
      obtain ⟨hword, hin, hperm⟩ := h a List.mem_cons_self
      have hbytes : (a :: handles).flatMap le16 =
          UInt8.ofNat a :: UInt8.ofNat (a / 256) :: handles.flatMap le16 := rfl
      have hrd : rd16 [UInt8.ofNat a, UInt8.ofNat (a / 256)] 0 = a := rd16_le16_append hword []
      obtain ⟨hrest, hok⟩ := ih (fun b hb => h b (List.mem_cons_of_mem _ hb)) room a
      rw [hbytes, readMultiHandles]
      simp only [hrd, hin, hperm, if_true]
      exact ⟨congrArg _ hrest, hok⟩

def reqReadMultiOpCode (variableLen : Bool) : Nat :=
  if variableLen then Op.reqReadMultiVar else Op.reqReadMulti

/-- A request for handles that can be read is taken up, for the first ten of them. -/
theorem gattProcessReadMultiReq_eq {variableLen : Bool} {handles : List Nat} {l : SrLink}
    (hread : db.Readable handles) (hidle : l.cmd.Idle) (hne : handles ≠ []) :
    ∃ first, gattProcessReadMultiReq db (reqReadMultiOpCode variableLen) (handles.flatMap le16)
        payloadSize l =
      ⟨⟨⟨reqReadMultiOpCode variableLen, first, .notFound, handles.take maxReadMultiHandles,
        variableLen, [], none⟩, l.sent⟩, handles.take maxReadMultiHandles, []⟩ := by
  obtain ⟨hhandles, hok⟩ := readMultiHandles_eq hread maxReadMultiHandles 0
  have hform : decide (reqReadMultiOpCode variableLen = Op.reqReadMultiVar) = variableLen := by
    cases variableLen <;> rfl
  rw [gattProcessReadMultiReq]
  generalize readMultiHandles db maxReadMultiHandles 0 (handles.flatMap le16) = r at hhandles hok ⊢
  obtain ⟨parsed, err, last⟩ := r
  cases hhandles
  cases hok
  obtain ⟨first, rest, rfl⟩ := List.exists_cons_of_ne_nil hne
  refine ⟨first, ?_⟩
  simp only [hidle.opCode, hidle.multiRspQ, hidle.rspMsg, hform]
  rfl

/-- An error response has another first byte. -/
theorem error_ne_multiRsp {variableLen : Bool} {value : Nat → List UInt8} {handles : List Nat}
    {status : Status} {opCode handle : Nat} (hsize : payloadSize ≠ 0) :
    gattSendErrorRsp payloadSize status opCode handle ≠
      [multiRsp variableLen payloadSize value handles] := by
  obtain ⟨n, rfl⟩ := Nat.exists_eq_succ_of_ne_zero hsize
  simp only [gattSendErrorRsp, if_neg hsize, attpBuildErrCmd, multiRsp, List.take_succ_cons]
  intro h
  injection h with h
  injection h with h
  revert h
  cases variableLen <;> decide

theorem multiAnswer_iff {cmd : SrCmd} {msgs : List (Nat × List UInt8)} {value : Nat → List UInt8}
    {handles : List Nat} (hsize : payloadSize ≠ 0) :
    multiAnswer cmd payloadSize msgs = [multiRsp cmd.variableLen payloadSize value handles] ↔
      readMultiLoop cmd.variableLen payloadSize cmd.handles msgs
          [UInt8.ofNat (readMultiOpCode cmd.variableLen)] =
        (none, multiRsp cmd.variableLen payloadSize value handles) := by
  rw [multiAnswer]
  generalize readMultiLoop cmd.variableLen payloadSize cmd.handles msgs
    [UInt8.ofNat (readMultiOpCode cmd.variableLen)] = r
  obtain ⟨status, rsp⟩ := r
  cases status with
  | none => simp only [List.cons.injEq, and_true, Prod.mk.injEq, true_and]
  | some status => exact iff_of_false (error_ne_multiRsp hsize) fun h => by cases h

end Runs

/-- A Read Multiple request is answered with the values in the order of its handles exactly if, up
to where the response is complete, they came in in that order; and the values behind the tenth are
missing. -/
theorem read_multiple_iff (db : ReadDb) (variableLen : Bool) (handles arrived : List Nat)
    (payloadSize : Nat) (l : SrLink) (s : MultiRead) (hread : db.Readable handles)
    (hvalue : ∀ a, (db.value a).length ≤ 512) (hsize : 0 < payloadSize) (hidle : l.cmd.Idle)
    (hrun : MultiRead.Run db payloadSize
      (gattProcessReadMultiReq db (reqReadMultiOpCode variableLen)
      (handles.flatMap le16) payloadSize l) arrived s)
    (hdone : s.toRead = [] ∧ s.waiting = []) :
    s.link.sent = l.sent ++ [multiRsp variableLen payloadSize db.value handles] ↔
      handles ≠ [] ∧ ∃ k, Reaches variableLen payloadSize db.value 1
        (handles.take maxReadMultiHandles) arrived
        (multiValues variableLen db.value (handles.drop maxReadMultiHandles)) k := by
  have hperm := hrun.perm
  have hlink := hrun.link
  rw [hdone.1, hdone.2, List.append_nil, List.append_nil] at hperm
  by_cases hne : handles = []
  · subst hne
    obtain rfl := hperm.eq_nil
    rw [hlink]
    refine iff_of_false (fun h => ?_) fun h => h.1 rfl
    exact error_ne_multiRsp hsize.ne' (List.append_cancel_left h)
  · rw [and_iff_right hne]
    obtain ⟨first, hreq⟩ := @gattProcessReadMultiReq_eq db payloadSize variableLen handles l hread
      hidle hne
    rw [hreq] at hperm hlink
    rw [List.append_nil] at hperm
    have hlen := hperm.length_eq
    -- every handle has been answered, so the loop has run
    have harrived : arrived ≠ [] := by
      intro hnil
      rw [hnil, List.length_nil, List.length_take, maxReadMultiHandles] at hlen
      have hpos := List.length_pos_iff.mpr hne
      omega
    rw [hlink, foldl_processAppRsp (by rwa [Ne, List.map_eq_nil_iff]) ?_ rfl hsize.ne']
    · have hrsp : multiRsp variableLen payloadSize db.value handles =
          ([UInt8.ofNat (readMultiOpCode variableLen)] ++
            (multiValues variableLen db.value (handles.take maxReadMultiHandles) ++
              multiValues variableLen db.value (handles.drop maxReadMultiHandles))).take
                payloadSize := by
        rw [multiValues, multiValues, ← List.flatMap_append, List.take_append_drop]
        rfl
      have hshort (a : Nat) : (db.value a).length < 65536 :=
        Nat.lt_of_le_of_lt (hvalue a) (by decide)
      rw [List.append_cancel_left_eq, multiAnswer_iff hsize.ne', hrsp]
      exact readMultiLoop_iff hshort hsize hlen
    · rw [List.length_map, hlen]
      exact Nat.zero_add _

/-- The server has the declaration of a characteristic, an application its value. -/
def charDb : ReadDb where
  inService a := a = 5 ∨ a = 6
  readAttrPermCheck _ := .success
  byStack a := a = 5
  value a := if a = 5 then [0x02, 6, 0, 0, 0x2a] else [0x42]

/-- The declaration and then the value, after a request for the handle 9 that was refused. -/
theorem read_multiple_iff_in_order : ∃ s : MultiRead,
    MultiRead.Run charDb 23 (gattProcessReadMultiReq charDb (reqReadMultiOpCode false)
      ([5, 6].flatMap le16) 23 ⟨{ SrCmd.idle with handles := [9] }, []⟩) [5, 6] s ∧
      s.link.sent = [] ++ [multiRsp false 23 charDb.value [5, 6]] := by
  obtain ⟨s, hread, hwait, hrun⟩ : ∃ s : MultiRead, s.toRead = [] ∧ s.waiting = [] ∧
      MultiRead.Run charDb 23 (gattProcessReadMultiReq charDb (reqReadMultiOpCode false)
        ([5, 6].flatMap le16) 23 ⟨{ SrCmd.idle with handles := [9] }, []⟩) [5, 6] s :=
    ⟨_, rfl, rfl, .stack rfl rfl (.ask rfl rfl (.answer (List.mem_singleton_self 6) (.refl _)))⟩
  have hreadable : charDb.Readable [5, 6] := by
    intro a ha
    simp only [List.mem_cons, List.not_mem_nil, or_false] at ha
    obtain rfl | rfl := ha <;> decide
  have hvalue (a : Nat) : (charDb.value a).length ≤ 512 := by
    simp only [charDb]
    split <;> decide
  have hreaches : Reaches false 23 charDb.value 1 ([5, 6].take maxReadMultiHandles) [5, 6]
      (multiValues false charDb.value ([5, 6].drop maxReadMultiHandles)) 2 :=
    ⟨rfl, fun h => (Bool.false_ne_true h).elim, .inl ⟨rfl, .inr rfl⟩⟩
  exact ⟨s, hrun, (read_multiple_iff charDb false [5, 6] [5, 6] 23 _ s hreadable hvalue
    (by decide) ⟨rfl, rfl, rfl⟩ hrun ⟨hread, hwait⟩).mpr ⟨by decide, 2, hreaches⟩⟩

/-- The value is asked for first, but the declaration is there before the application has answered.
The request is refused, with the code of a success. -/
theorem late_answer_refused : ∃ s : MultiRead,
    MultiRead.Run charDb 23 (gattProcessReadMultiReq charDb (reqReadMultiOpCode false)
      ([6, 5].flatMap le16) 23 ⟨.idle, []⟩) [5, 6] s ∧
      s.toRead = [] ∧ s.waiting = [] ∧ s.link.sent = [[0x01, 0x0e, 6, 0, 0x00]] ∧
      multiRsp false 23 charDb.value [6, 5] = [0x0f, 0x42, 0x02, 6, 0, 0, 0x2a] :=
  ⟨_, .ask rfl rfl (.stack rfl rfl (.answer (List.mem_singleton_self 6) (.refl _))), rfl, rfl, rfl,
    rfl⟩

end BluetoothStack.Gatt
