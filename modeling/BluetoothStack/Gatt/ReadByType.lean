import BluetoothStack.Gatt.Discovery
import BluetoothStack.Lib.Chunks

/-!
# BluetoothStack.Gatt.ReadByType

The records of a Read By Type or Read By Group Type response (`gatt_process_read_by_type_rsp` in
`gatt_cl.cc`).

Each record is as long as the first byte of the response says. The loop takes the handles off that
length in eight bits, so a length below that of the handles becomes one of more than 250 bytes. Most
responses are too short for such a record; the discovery then ends as if there were no more handles.
-/

namespace BluetoothStack.Gatt

open BluetoothStack.Lib

/-- The length of the records, the first byte of a response. -/
def recordLen (p : List UInt8) : Nat := (p.getD 0 0).toNat

/-- `handle_len`. -/
def handleLen (opCode : Nat) : Nat := if opCode = Op.rspReadByGrpType then 4 else 2

/-- The bytes of a record. -/
def recordBytes (p : List UInt8) (k : Nat) : List UInt8 :=
  slice p (1 + k * recordLen p) (recordLen p)

namespace Disc

/-- A response that answers the request of the discovery. -/
def ByType (c : Disc) (opCode : Nat) : Prop :=
  opCode = gattCmdToRspCode c.opSubtype.opCode ∧
    (opCode = Op.rspReadByType ∨ opCode = Op.rspReadByGrpType)

/-- A record that is read from its own bytes. -/
def recordAt (c : Disc) (opCode : Nat) (p : List UInt8) (k : Nat) :
    Except LoopExit (Option DiscRes × Nat × List UInt8) :=
  readByTypeEntry c opCode (recordLen p - handleLen opCode) (recordBytes p k)

/-- The result of a record, unless it is skipped. -/
def resultAt (c : Disc) (opCode : Nat) (p : List UInt8) (k : Nat) : Option DiscRes :=
  (recordAt c opCode p k).toOption.bind Prod.fst

end Disc

def DiscEvent.result? : DiscEvent → Option DiscRes
  | .result res => some res
  | _ => none

/-- The results that are reported between two states. -/
def newResults (c c' : Disc) : List DiscRes :=
  (c'.log.drop c.log.length).filterMap DiscEvent.result?

/-- The results are those of the first records, each of which is inside the response and read to its
end; so is an included service that waits for its UUID. A length below that of the handles ends the
discovery with an error. -/
structure SplitsRecords (c : Disc) (opCode : Nat) (p : List UInt8) (c' : Disc) : Prop where
  results : ∃ n, (∀ k < n, 1 + (k + 1) * recordLen p ≤ p.length ∧
      ∃ res handle, c.recordAt opCode p k = .ok (res, handle, [])) ∧
    newResults c c' = (List.range n).filterMap (c.resultAt opCode p)
  waiting : c'.uuid128 = c.uuid128 ∨ ∃ k res sHandle, 1 + (k + 1) * recordLen p ≤ p.length ∧
    c.recordAt opCode p k = .error (.readUuid res sHandle) ∧ c'.uuid128 = some res
  rejected : recordLen p < handleLen opCode → ∃ status, status ≠ .success ∧
    c'.log = c.log ++ [.ended status]

namespace Disc

variable {c : Disc} {opCode v payloadSize : Nat} {lower : Sending} {a b p : List UInt8}

theorem ByType.cases (h : c.ByType opCode) :
    c.opSubtype = .srvcAll ∧ opCode = Op.rspReadByGrpType ∨
      (c.opSubtype = .incSrvc ∨ c.opSubtype = .char) ∧ opCode = Op.rspReadByType := by
  obtain ⟨rfl, htype⟩ := h
  cases hsub : c.opSubtype <;> rw [hsub] at htype <;> revert htype <;> decide

/-! ### One record -/

theorem gattParseUuidFromCmd_append {uuid : Uuid} {n : Nat} (hn : a.length = n) :
    gattParseUuidFromCmd uuid n (a ++ b) = (gattParseUuidFromCmd uuid n a).map fun r =>
      (r.1, b) := by
  unfold gattParseUuidFromCmd
  split
  · rw [rd16_append_left hn.ge, List.drop_left' hn]
    rfl
  · have huuid : Uuid.from128BitLE (a ++ b) = Uuid.from128BitLE a := by
      simp only [Uuid.from128BitLE, List.append_assoc, List.take_left' hn]
    rw [huuid, List.drop_left' hn]
    rfl
  · rw [List.eq_nil_of_length_eq_zero hn]
    rfl
  · rfl

/-- A record is read from its own bytes, to their end. -/
theorem readByTypeEntry_append (hop : c.ByType opCode) (ha : a.length = handleLen opCode + v) :
    readByTypeEntry c opCode v (a ++ b) =
      (readByTypeEntry c opCode v a).map fun r => (r.1, r.2.1, b) := by
  have hword {i : Nat} (hi : i + 2 ≤ a.length) : rd16 (a ++ b) i = rd16 a i := rd16_append_left hi
  have hrest {i : Nat} (hi : i ≤ a.length) : (a ++ b).drop i = a.drop i ++ b :=
    List.drop_append_of_le_length hi
  have hrun {n : Nat} (hn : n = a.length) : (a ++ b).drop n = b := List.drop_left' hn.symm
  rw [readByTypeEntry, readByTypeEntry]
  simp only [rd16_drop, List.drop_drop, Nat.add_zero, Nat.reduceAdd]
  obtain ⟨hsub, rfl⟩ | ⟨hsub, rfl⟩ := hop.cases
  · -- a group: its two handles, then the UUID of the service
    have hlen : a.length = 4 + v := ha
    have huuid : (a.drop 4).length = v := by
      rw [List.length_drop]
      omega
    rw [hword (by omega), hword (by omega), hrest (by omega), gattParseUuidFromCmd_append huuid]
    simp only [hsub, and_self, if_true]
    split_ifs
    · rfl
    · rfl
    · cases gattParseUuidFromCmd .kEmpty v (a.drop 4) <;> rfl
  · have hlen : a.length = 2 + v := ha
    have hgroup : ¬ (c.opSubtype = .srvcAll ∧ Op.rspReadByType = Op.rspReadByGrpType) := by
      rintro ⟨-, h⟩
      exact absurd h (by decide)
    simp only [if_neg hgroup, hword (by omega : 0 + 2 ≤ a.length)]
    obtain hsub | hsub := hsub
    · -- an included service: its handles, and a UUID of sixteen bits or none
      simp only [hsub, if_true]
      by_cases hshort : v < 4
      · simp only [if_pos hshort]
        split_ifs <;> rfl
      · rw [hword (by omega), hword (by omega)]
        simp only [if_neg hshort]
        split_ifs with _ _ hsix
        · rfl
        · rfl
        · rw [hword (by omega), hrun (by omega)]
          rfl
        · rfl
        · rfl
    · -- a characteristic: its properties, its handle and its UUID
      have hinc : c.opSubtype ≠ .incSrvc := by
        rw [hsub]
        decide
      simp only [if_neg hinc]
      by_cases hshort : v < 3
      · simp only [if_pos hshort]
        split_ifs <;> rfl
      · have huuid : (a.drop 5).length = v - 3 := by
          rw [List.length_drop]
          omega
        have hprop : ((a ++ b).drop 2).getD 0 0 = (a.drop 2).getD 0 0 := by
          rw [hrest (by omega), List.getD_eq_getElem?_getD, List.getD_eq_getElem?_getD,
            List.getElem?_append_left (by rw [List.length_drop]; omega)]
        rw [hword (by omega), hrest (by omega), gattParseUuidFromCmd_append huuid, hprop]
        simp only [if_neg hshort]
        split_ifs
        · rfl
        · rfl
        · cases gattParseUuidFromCmd .kEmpty (v - 3) (a.drop 5) with
          | none => rfl
          | some r =>
            simp only [Option.map_some]
            split_ifs <;> rfl

theorem readByTypeEntry_rest (hop : c.ByType opCode) (ha : a.length = handleLen opCode + v)
    {res : Option DiscRes} {handle : Nat} {rest : List UInt8}
    (h : readByTypeEntry c opCode v a = .ok (res, handle, rest)) : rest = [] := by
  have happ := readByTypeEntry_append (b := []) hop ha
  rw [List.append_nil, h] at happ
  injection happ with happ
  exact congrArg (fun r => r.2.2) happ

/-! ### The loop -/

/-- The loop reads the records one after the other. -/
theorem readByTypeLoop_records (hop : c.ByType opCode) {l : Nat} (hl : handleLen opCode + v = l)
    (fuel handle : Nat) (p : List UInt8) :
    ∃ n, (∀ k < n, (k + 1) * l ≤ p.length ∧
        ∃ res handle, readByTypeEntry c opCode v (slice p (k * l) l) = .ok (res, handle, [])) ∧
      (readByTypeLoop c opCode (handleLen opCode) v fuel handle p).1 = (List.range n).filterMap
        (fun k => (readByTypeEntry c opCode v (slice p (k * l) l)).toOption.bind Prod.fst) ∧
      ∀ res sHandle, (readByTypeLoop c opCode (handleLen opCode) v fuel handle p).2 =
        .readUuid res sHandle → (n + 1) * l ≤ p.length ∧
          readByTypeEntry c opCode v (slice p (n * l) l) = .error (.readUuid res sHandle) := by
  induction fuel generalizing handle p with
  | zero => exact ⟨0, fun k hk => absurd hk k.not_lt_zero, rfl, fun _ _ h => by cases h⟩
  | succ fuel ih =>
    rw [readByTypeLoop, hl]
    by_cases hroom : p.length ≥ l
    · have hfirst : slice p (0 * l) l = p.take l := by rw [slice, Nat.zero_mul, List.drop_zero]
      have hnext (k : Nat) : slice p ((k + 1) * l) l = slice (p.drop l) (k * l) l := by
        rw [slice, slice, List.drop_drop, Nat.succ_mul, Nat.add_comm]
      have htake : (p.take l).length = handleLen opCode + v := by
        rw [List.length_take, Nat.min_eq_left hroom, hl]
      -- a record is read from its own bytes, so the record at `k` is that of a slice
      have happ : readByTypeEntry c opCode v p =
          (readByTypeEntry c opCode v (p.take l)).map fun r => (r.1, r.2.1, p.drop l) := by
        rw [← readByTypeEntry_append hop htake, List.take_append_drop]
      rw [if_pos hroom, happ]
      cases hentry : readByTypeEntry c opCode v (p.take l) with
      | error exit =>
        refine ⟨0, fun k hk => absurd hk k.not_lt_zero, rfl, ?_⟩
        intro res sHandle hexit
        refine ⟨by rwa [Nat.zero_add, Nat.one_mul], ?_⟩
        rw [hfirst, hentry]
        exact congrArg Except.error hexit
      | ok r =>
        obtain ⟨res, last, rest⟩ := r
        obtain rfl := readByTypeEntry_rest hop htake hentry
        obtain ⟨n, hin, hresults, hexit⟩ := ih last (p.drop l)
        rw [List.length_drop] at hin hexit
        refine ⟨n + 1, ?_, ?_, ?_⟩
        · intro k hk
          cases k with
          | zero =>
            rw [hfirst]
            exact ⟨by rwa [Nat.zero_add, Nat.one_mul], res, last, hentry⟩
          | succ k =>
            obtain ⟨hk, hok⟩ := hin k (by omega)
            rw [hnext]
            refine ⟨?_, hok⟩
            rw [Nat.succ_mul]
            omega
        · rw [List.range_succ_eq_map, List.filterMap_cons, List.filterMap_map, hfirst, hentry]
          simp only [Except.map, hresults, Function.comp_def, hnext]
          cases res <;> rfl
        · intro res' sHandle h
          obtain ⟨hn, hread⟩ := hexit res' sHandle h
          rw [hnext]
          refine ⟨?_, hread⟩
          rw [Nat.succ_mul]
          omega
    · rw [if_neg hroom]
      exact ⟨0, fun k hk => absurd hk k.not_lt_zero, rfl, fun _ _ h => by cases h⟩

/-! ### Behind the loop -/

@[simp] theorem report_opSubtype (results : List DiscRes) :
    (c.report results).opSubtype = c.opSubtype := by
  rw [report]
  split <;> rfl

@[simp] theorem report_uuid128 (results : List DiscRes) :
    (c.report results).uuid128 = c.uuid128 := by
  rw [report]
  split <;> rfl

/-- What follows the loop. -/
def leaveLoop (c : Disc) (exit : LoopExit) (payloadSize : Nat) (lower : Sending) : Disc :=
  match exit with
  | .done handle => (c.moveBehind handle).gattActDiscovery payloadSize lower
  | .ended status => c.endOperation status
  | .readUuid res sHandle =>
    { c with
      sHandle := sHandle
      nextDiscStartHdl := u16 (res.handle + 1)
      uuid128 := some res }.gattActReadUuid128 payloadSize lower

theorem gattProcessReadByTypeRsp_eq (hcb : c.discResCb = true)
    (hsize : recordLen p + 2 ≤ payloadSize) (hin : recordLen p + 1 ≤ p.length) :
    c.gattProcessReadByTypeRsp opCode p payloadSize lower =
      (c.report (readByTypeLoop c opCode (handleLen opCode)
        (u8 (recordLen p + 256 - handleLen opCode)) p.length 0 (p.drop 1)).1).leaveLoop
        (readByTypeLoop c opCode (handleLen opCode)
          (u8 (recordLen p + 256 - handleLen opCode)) p.length 0 (p.drop 1)).2 payloadSize
            lower := by
  have hpos : ¬ p.length < 1 := by omega
  have hfits : ¬ ((p.getD 0 0).toNat + 2 > payloadSize ∨ (p.getD 0 0).toNat + 1 > p.length) := by
    rw [not_or, not_lt, not_lt]
    exact ⟨hsize, hin⟩
  rw [gattProcessReadByTypeRsp]
  simp only [hcb, Bool.not_true, Bool.false_eq_true, if_false, if_neg hpos, if_neg hfits]
  rfl

theorem gattProcessReadByTypeRsp_refused (hcb : c.discResCb = true)
    (h : payloadSize < recordLen p + 2 ∨ p.length < recordLen p + 1) :
    ∃ status, status ≠ .success ∧
      c.gattProcessReadByTypeRsp opCode p payloadSize lower = c.endOperation status := by
  rw [gattProcessReadByTypeRsp]
  simp only [hcb, Bool.not_true, Bool.false_eq_true, if_false]
  split
  · exact ⟨.invalidPdu, by decide, rfl⟩
  · refine ⟨.error, by decide, ?_⟩
    rw [if_pos]
    exact h

/-- Nothing is reported, and no other result waits. -/
structure Silent (c c' : Disc) : Prop where
  log : ∃ es, c'.log = c.log ++ es ∧ es.filterMap DiscEvent.result? = []
  uuid128 : c'.uuid128 = c.uuid128

theorem endOperation_silent (c : Disc) (status : Status) : Silent c (c.endOperation status) :=
  ⟨⟨[.ended status], rfl, rfl⟩, rfl⟩

/-- A discovery goes on with a request, or ends with success. -/
theorem gattActDiscovery_log (hsize : payloadSize ≠ 0) (hsub : c.opSubtype ≠ .srvcByUuid) :
    ∃ e es, (c.gattActDiscovery payloadSize lower).log = c.log ++ e :: es ∧
      (e = .ended .success ∨ e = .request c.sHandle) ∧ (e :: es).filterMap DiscEvent.result? =
        [] := by
  rw [gattActDiscovery]
  by_cases hend : c.sHandle > c.eHandle ∨ c.sHandle = 0
  · rw [if_pos hend]
    exact ⟨_, [], rfl, .inl rfl, rfl⟩
  · have hrange : ¬ (c.opSubtype ≠ .srvcByUuid ∧
        (c.sHandle = 0 ∨ c.eHandle = 0 ∨ c.sHandle > c.eHandle)) := by omega
    have hby : ¬ (c.opSubtype = .srvcByUuid ∧ payloadSize < 5) := fun h => hsub h.1
    rw [if_neg hend]
    simp only [sendRequest, if_neg hsize, if_neg hby, if_neg hrange]
    by_cases hstatus : lower.status ≠ .success ∧ lower.status ≠ .cmdStarted
    · rw [if_pos hstatus]
      refine ⟨.request c.sHandle, [.ended .error], ?_, .inr rfl, rfl⟩
      simp only [endOperation, note, List.append_assoc, List.cons_append, List.nil_append]
    · rw [if_neg hstatus]
      exact ⟨.request c.sHandle, [], rfl, .inr rfl, rfl⟩

theorem gattActDiscovery_uuid128 : (c.gattActDiscovery payloadSize lower).uuid128 = c.uuid128 := by
  simp only [gattActDiscovery, sendRequest]
  split_ifs <;> rfl

theorem gattActReadUuid128_silent (c : Disc) (payloadSize : Nat) (lower : Sending) :
    Silent c (c.gattActReadUuid128 payloadSize lower) := by
  rw [gattActReadUuid128]
  split
  · exact endOperation_silent c _
  · split
    · exact endOperation_silent c _
    · simp only
      split
      · refine ⟨⟨[.read c.sHandle, .ended lower.status], ?_, rfl⟩, rfl⟩
        simp only [endOperation, note, List.append_assoc, List.cons_append, List.nil_append]
      · exact ⟨⟨[.read c.sHandle], rfl, rfl⟩, rfl⟩

theorem Silent.newResults {c' : Disc} (h : Silent c c') : newResults c c' = [] := by
  obtain ⟨es, hlog, hes⟩ := h.log
  rw [Gatt.newResults, hlog, List.drop_left, hes]

theorem newResults_report (hcb : c.discResCb = true) {results : List DiscRes} {c' : Disc}
    (h : ∃ es, c'.log = (c.report results).log ++ es ∧ es.filterMap DiscEvent.result? = []) :
    newResults c c' = results := by
  obtain ⟨es, hlog, hes⟩ := h
  have hresults : (results.map DiscEvent.result).filterMap DiscEvent.result? = results := by
    rw [List.filterMap_map]
    exact List.filterMap_some
  rw [newResults, hlog, report, if_pos hcb, List.append_assoc, List.drop_left,
    List.filterMap_append, hresults, hes, List.append_nil]

/-- Behind the loop nothing more is reported. -/
theorem leaveLoop_log (hsize : payloadSize ≠ 0) (hsub : c.opSubtype ≠ .srvcByUuid)
    (exit : LoopExit) : ∃ es, (c.leaveLoop exit payloadSize lower).log = c.log ++ es ∧
      es.filterMap DiscEvent.result? = [] := by
  cases exit with
  | done handle =>
    obtain ⟨e, es, hlog, -, hes⟩ :=
      @gattActDiscovery_log (c.moveBehind handle) payloadSize lower hsize hsub
    exact ⟨e :: es, hlog, hes⟩
  | ended status => exact (endOperation_silent c status).log
  | readUuid res sHandle =>
    obtain ⟨es, hlog, hes⟩ := (gattActReadUuid128_silent
      { c with
        sHandle := sHandle
        nextDiscStartHdl := u16 (res.handle + 1)
        uuid128 := some res } payloadSize lower).log
    exact ⟨es, hlog, hes⟩

theorem leaveLoop_uuid128 (exit : LoopExit) :
    (c.leaveLoop exit payloadSize lower).uuid128 = c.uuid128 ∨
      ∃ res sHandle, exit = .readUuid res sHandle ∧
        (c.leaveLoop exit payloadSize lower).uuid128 = some res := by
  cases exit with
  | done handle => exact .inl gattActDiscovery_uuid128
  | ended status => exact .inl rfl
  | readUuid res sHandle =>
    exact .inr ⟨res, sHandle, rfl, (gattActReadUuid128_silent _ _ _).uuid128⟩

/-! ### A length below that of the handles -/

/-- How the loop ends then: at once, or in the one record of more than 250 bytes. -/
def shortExit (c : Disc) (p : List UInt8) : LoopExit :=
  if p.length < recordLen p + 257 then .done 0
  else if rd16 p 1 = 0 then .ended .invalidHandle
  else match c.opSubtype with
    | .srvcAll => if rd16 p 3 = 0 then .ended .invalidHandle else .done (rd16 p 3)
    | .incSrvc => if rd16 p 3 = 0 ∨ rd16 p 5 = 0 then .ended .invalidHandle else .ended .invalidPdu
    | _ => if rd16 p 4 = 0 then .ended .invalidHandle else .ended .success

theorem gattParseUuidFromCmd_long {uuid : Uuid} {n : Nat} (hn : 16 < n) :
    gattParseUuidFromCmd uuid n p = none := by
  unfold gattParseUuidFromCmd
  split
  · omega
  · omega
  · omega
  · rfl

theorem readByTypeLoop_short (hop : c.ByType opCode) (hpos : 0 < p.length)
    (hl : recordLen p < handleLen opCode) :
    readByTypeLoop c opCode (handleLen opCode) (u8 (recordLen p + 256 - handleLen opCode)) p.length
      0 (p.drop 1) = ([], c.shortExit p) := by
  have hfour : handleLen opCode ≤ 4 := by
    rw [handleLen]
    split <;> decide
  have hwrap : u8 (recordLen p + 256 - handleLen opCode) = recordLen p + 256 - handleLen opCode :=
    Nat.mod_eq_of_lt (by omega)
  rw [hwrap]
  generalize hv : recordLen p + 256 - handleLen opCode = v
  obtain ⟨fuel, hfuel⟩ : ∃ k, p.length = k + 1 := ⟨p.length - 1, by omega⟩
  rw [hfuel, readByTypeLoop, List.length_drop, shortExit]
  by_cases hroom : p.length < recordLen p + 257
  · have hnone : ¬ p.length - 1 ≥ handleLen opCode + v := by omega
    rw [if_neg hnone, if_pos hroom]
  · have hsome : p.length - 1 ≥ handleLen opCode + v := by omega
    rw [if_pos hsome, if_neg hroom, readByTypeEntry]
    simp only [rd16_drop, List.drop_drop, Nat.add_zero, Nat.reduceAdd]
    obtain ⟨hsub, rfl⟩ | ⟨hsub, rfl⟩ := hop.cases
    · simp only [hsub, and_self, if_true, gattParseUuidFromCmd_long (by omega : 16 < v)]
      split_ifs <;> rfl
    · have hgroup : ¬ (c.opSubtype = .srvcAll ∧ Op.rspReadByType = Op.rspReadByGrpType) := by
        rintro ⟨-, h⟩
        exact absurd h (by decide)
      simp only [if_neg hgroup]
      obtain hsub | hsub := hsub
      · have hbig : ¬ v < 4 := by omega
        have hsix : v ≠ 6 := by omega
        have hfour : v ≠ 4 := by omega
        simp only [hsub, if_true, if_neg hbig, if_neg hsix, if_neg hfour]
        split_ifs <;> rfl
      · have hbig : ¬ v < 3 := by omega
        simp only [hsub, reduceCtorEq, if_false, if_neg hbig,
          gattParseUuidFromCmd_long (by omega : 16 < v - 3)]
        split_ifs <;> rfl

/-- A length below that of the handles is noticed if the response is as long as the record would be
and one of its handles is zero, and always among included services. -/
def ShortNoticed (c : Disc) (p : List UInt8) : Prop :=
  recordLen p + 257 ≤ p.length ∧ (rd16 p 1 = 0 ∨
    match c.opSubtype with
    | .srvcAll => rd16 p 3 = 0
    | .incSrvc => True
    | _ => rd16 p 4 = 0)

theorem shortExit_cases (c : Disc) (p : List UInt8) :
    ShortNoticed c p ∧ (∃ status, status ≠ .success ∧ c.shortExit p = .ended status) ∨
      ¬ ShortNoticed c p ∧
        (c.shortExit p = .ended .success ∨ ∃ handle, c.shortExit p = .done handle) := by
  rw [ShortNoticed, shortExit]
  by_cases hroom : p.length < recordLen p + 257
  · rw [if_pos hroom]
    exact .inr ⟨by omega, .inr ⟨0, rfl⟩⟩
  · rw [if_neg hroom]
    rw [not_lt] at hroom
    by_cases hzero : rd16 p 1 = 0
    · rw [if_pos hzero]
      exact .inl ⟨⟨hroom, .inl hzero⟩, .invalidHandle, by decide, rfl⟩
    · rw [if_neg hzero]
      cases c.opSubtype with
      | srvcAll =>
        simp only
        split_ifs with hend
        · exact .inl ⟨⟨hroom, .inr hend⟩, .invalidHandle, by decide, rfl⟩
        · exact .inr ⟨fun h => h.2.elim hzero hend, .inr ⟨_, rfl⟩⟩
      | incSrvc =>
        simp only
        split_ifs
        · exact .inl ⟨⟨hroom, .inr trivial⟩, .invalidHandle, by decide, rfl⟩
        · exact .inl ⟨⟨hroom, .inr trivial⟩, .invalidPdu, by decide, rfl⟩
      | srvcByUuid | char | charDscpt =>
        simp only
        split_ifs with hend
        · exact .inl ⟨⟨hroom, .inr hend⟩, .invalidHandle, by decide, rfl⟩
        · exact .inr ⟨fun h => h.2.elim hzero hend, .inl rfl⟩

/-- The discovery is ended with an error exactly if the length is noticed. -/
theorem leaveLoop_shortExit (hsize : payloadSize ≠ 0) (hsub : c.opSubtype ≠ .srvcByUuid) :
    (∃ status, status ≠ .success ∧
      ((c.report []).leaveLoop (c.shortExit p) payloadSize lower).log = c.log ++ [.ended status]) ↔
      ShortNoticed c p := by
  have hreport : (c.report []).log = c.log := by
    rw [report]
    split
    · exact List.append_nil _
    · rfl
  obtain ⟨hnoticed, status, hne, hexit⟩ | ⟨hnot, hexit⟩ := shortExit_cases c p
  · refine iff_of_true ⟨status, hne, ?_⟩ hnoticed
    rw [hexit, leaveLoop, endOperation, note, hreport]
  · refine iff_of_false ?_ hnot
    rintro ⟨status, hne, hlog⟩
    obtain hexit | ⟨handle, hexit⟩ := hexit
    · rw [hexit, leaveLoop, endOperation, note, hreport] at hlog
      have heq := List.append_cancel_left hlog
      simp only [List.cons.injEq, DiscEvent.ended.injEq, and_true] at heq
      exact hne heq.symm
    · have hsub' : ((c.report []).moveBehind handle).opSubtype ≠ .srvcByUuid := by
        rwa [moveBehind, report_opSubtype]
      obtain ⟨e, es, hact, hfirst, -⟩ := @gattActDiscovery_log _ payloadSize lower hsize hsub'
      have hmove : ((c.report []).moveBehind handle).log = c.log := hreport
      rw [hexit, leaveLoop, hact, hmove] at hlog
      injection List.append_cancel_left hlog with he
      obtain rfl | rfl := hfirst
      · injection he with he
        exact hne he.symm
      · cases he

end Disc

/-! ### Responses -/

section Responses

variable {c : Disc} {opCode payloadSize : Nat} {lower : Sending} {p : List UInt8}

theorem splitsRecords_of_le (hcb : c.discResCb = true) (hop : c.ByType opCode)
    (hsub : c.opSubtype ≠ .srvcByUuid) (hsize : recordLen p + 2 ≤ payloadSize)
    (hin : recordLen p + 1 ≤ p.length) (hl : handleLen opCode ≤ recordLen p) :
    SplitsRecords c opCode p (c.gattProcessReadByTypeRsp opCode p payloadSize lower) := by
  have hbyte : recordLen p < 256 := (p.getD 0 0).toNat_lt
  have hv : u8 (recordLen p + 256 - handleLen opCode) = recordLen p - handleLen opCode := by
    rw [u8]
    omega
  have hslice (k : Nat) : slice (p.drop 1) (k * recordLen p) (recordLen p) = recordBytes p k := by
    rw [recordBytes, slice, slice, List.drop_drop]
  rw [Disc.gattProcessReadByTypeRsp_eq hcb hsize hin, hv]
  obtain ⟨n, hrecords, hresults, hexit⟩ := Disc.readByTypeLoop_records hop
    (Nat.add_sub_of_le hl) p.length 0 (p.drop 1)
  simp only [hslice, List.length_drop] at hrecords hresults hexit
  generalize Disc.readByTypeLoop c opCode (handleLen opCode) (recordLen p - handleLen opCode)
    p.length 0 (p.drop 1) = r at hresults hexit ⊢
  obtain ⟨results, exit⟩ := r
  have hsub' : (c.report results).opSubtype ≠ .srvcByUuid := by
    rwa [Disc.report_opSubtype]
  refine ⟨⟨n, ?_, ?_⟩, ?_, fun hshort => absurd hl (not_le.mpr hshort)⟩
  · intro k hk
    obtain ⟨hend, hok⟩ := hrecords k hk
    exact ⟨by omega, hok⟩
  · rw [Disc.newResults_report hcb (Disc.leaveLoop_log (by omega) hsub' exit)]
    exact hresults
  · obtain hsame | ⟨res, sHandle, hread, hnew⟩ :=
      @Disc.leaveLoop_uuid128 (c.report results) payloadSize lower exit
    · exact .inl (hsame.trans (Disc.report_uuid128 _))
    · obtain ⟨hend, hentry⟩ := hexit res sHandle hread
      exact .inr ⟨n, res, sHandle, by omega, hentry, hnew⟩

theorem splitsRecords_of_lt (hcb : c.discResCb = true) (hop : c.ByType opCode)
    (hsub : c.opSubtype ≠ .srvcByUuid) (hsize : recordLen p + 2 ≤ payloadSize)
    (hin : recordLen p + 1 ≤ p.length) (hl : recordLen p < handleLen opCode) :
    SplitsRecords c opCode p (c.gattProcessReadByTypeRsp opCode p payloadSize lower) ↔
      c.ShortNoticed p := by
  have hloop := Disc.readByTypeLoop_short hop (by omega) hl
  have hsub' : (c.report []).opSubtype ≠ .srvcByUuid := by
    rwa [Disc.report_opSubtype]
  rw [Disc.gattProcessReadByTypeRsp_eq hcb hsize hin, hloop,
    ← @Disc.leaveLoop_shortExit c payloadSize lower p (by omega) hsub]
  refine ⟨fun h => h.rejected hl, fun h =>
    ⟨⟨0, fun k hk => absurd hk k.not_lt_zero, ?_⟩, ?_, fun _ => h⟩⟩
  · exact Disc.newResults_report hcb (Disc.leaveLoop_log (by omega) hsub' _)
  · obtain hsame | ⟨res, sHandle, hread, -⟩ :=
      @Disc.leaveLoop_uuid128 (c.report []) payloadSize lower (c.shortExit p)
    · exact .inl (hsame.trans (Disc.report_uuid128 _))
    · obtain ⟨-, status, -, hexit⟩ | ⟨-, hexit | ⟨handle, hexit⟩⟩ := Disc.shortExit_cases c p <;>
        rw [hexit] at hread <;> cases hread

end Responses

/-- The records of a response are always split at their boundaries; a length below that of the
handles is rejected if the response is refused for another reason or the length is noticed. -/
theorem splits_records_iff (c : Disc) (opCode : Nat) (p : List UInt8) (payloadSize : Nat)
    (lower : Sending) (hcb : c.discResCb = true) (hop : c.ByType opCode) :
    SplitsRecords c opCode p (c.gattProcessReadByTypeRsp opCode p payloadSize lower) ↔
      handleLen opCode ≤ recordLen p ∨ payloadSize < recordLen p + 2 ∨ p.length < recordLen p + 1 ∨
        c.ShortNoticed p := by
  have hsub : c.opSubtype ≠ .srvcByUuid := by
    intro hby
    obtain ⟨h, -⟩ | ⟨h | h, -⟩ := hop.cases <;> rw [hby] at h <;> cases h
  by_cases hrefuse : payloadSize < recordLen p + 2 ∨ p.length < recordLen p + 1
  · refine iff_of_true ?_ (.inr (or_assoc.mp (.inl hrefuse)))
    obtain ⟨status, hne, hend⟩ := Disc.gattProcessReadByTypeRsp_refused hcb hrefuse
    rw [hend]
    exact ⟨⟨0, fun k hk => absurd hk k.not_lt_zero, (Disc.endOperation_silent c status).newResults⟩,
      .inl rfl, fun _ => ⟨status, hne, rfl⟩⟩
  · rw [not_or, not_lt, not_lt] at hrefuse
    obtain ⟨hsize, hin⟩ := hrefuse
    by_cases hl : handleLen opCode ≤ recordLen p
    · exact iff_of_true (splitsRecords_of_le hcb hop hsub hsize hin hl) (.inl hl)
    · rw [splitsRecords_of_lt hcb hop hsub hsize hin (not_le.mp hl)]
      refine ⟨fun h => .inr (.inr (.inr h)), fun h => ?_⟩
      exact ((h.resolve_left hl).resolve_left (not_lt.mpr hsize)).resolve_left (not_lt.mpr hin)

/-- A discovery of characteristics that waits for its response. -/
def charDiscovery : Disc where
  opSubtype := .char
  sHandle := 1
  eHandle := 0xffff
  uuid := .kEmpty
  discResCb := true
  nextDiscStartHdl := 0
  uuid128 := none
  pending := some (Op.reqReadByType, [])
  log := []

/-- Two characteristics, and a third one that is cut short. -/
theorem splits_records_iff_char :
    let p := [7, 2, 0, 0x0a, 3, 0, 0, 0x2a, 4, 0, 0x02, 5, 0, 1, 0x2a, 6, 0, 0x02]
    SplitsRecords charDiscovery Op.rspReadByType p
      (charDiscovery.gattProcessReadByTypeRsp Op.rspReadByType p 23 .sent) :=
  (splits_records_iff charDiscovery Op.rspReadByType _ 23 .sent rfl ⟨rfl, .inl rfl⟩).mpr
    (.inl (by decide))

/-- Records of one byte end the discovery of characteristics as if it were complete. -/
theorem short_records_succeed :
    recordLen [1, 2, 0, 0x0a] < handleLen Op.rspReadByType ∧
      (charDiscovery.gattProcessReadByTypeRsp Op.rspReadByType [1, 2, 0, 0x0a] 23 .sent).log =
        [.ended .success] := by
  decide

end BluetoothStack.Gatt
