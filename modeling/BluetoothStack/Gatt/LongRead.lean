import Mathlib.Tactic
import BluetoothStack.Gatt.Notifications

/-!
# BluetoothStack.Gatt.LongRead

Reading an attribute by its handle (`gatt_act_read` and `gatt_process_read_rsp` in `gatt_cl.cc`,
`gatt_end_operation` in `gatt_utils.cc`).

The first request is a Read; as long as a response is full, a Read Blob asks for what is behind it.
The operation goes on over responses of the server until it ends, so it is run here against a server
that answers with the parts of one value.

A request that L2CAP takes on a congested channel is on its way, but ends the operation all the
same.
-/

namespace BluetoothStack.Gatt

open BluetoothStack.Lib

/-! ### The operation -/

/-- `tGATT_CLCB`, as far as a read by handle uses it. -/
structure ReadClcb where
  sHandle : Nat
  /-- How much has been read. -/
  counter : Nat
  /-- `p_attr_buf`. -/
  attrBuf : Option (List UInt8)
  readReqCurrentMtu : Nat
  firstReadBlobAfterRead : Bool
deriving DecidableEq, Repr

/-- What the operation waits for, or how it ended. -/
inductive ReadStep where
  | read (c : ReadClcb)
  | readBlob (c : ReadClcb) (offset : Nat)
  /-- The completion callback, with its status and value. -/
  | ended (status : Status) (v : Value)
deriving DecidableEq, Repr

namespace ReadClcb

/-- `gatt_end_operation`. The value of the callback is cleared first. -/
def gattEndOperation (c : ReadClcb) (status : Status) (data : Option (List UInt8)) : ReadStep :=
  let len := min c.counter gattMaxAttrLen
  .ended status ⟨c.sHandle, (data.getD (List.replicate gattMaxAttrLen 0)).take len⟩

/-- `gatt_act_read` for `GATT_READ_BY_HANDLE`; `lower` is the answer of `attp_cl_send_cmd`. -/
def gattActRead (c : ReadClcb) (offset : Nat) (lower : Status) : ReadStep :=
  if c.sHandle = 0 then c.gattEndOperation .illegalParameter none
  else if lower ≠ .success ∧ lower ≠ .cmdStarted then c.gattEndOperation lower none
  else if c.counter = 0 then .read c
  else .readBlob { c with firstReadBlobAfterRead := !c.firstReadBlobAfterRead } offset

/-- `gatt_process_read_rsp` for `GATT_READ_BY_HANDLE`. -/
def gattProcessReadRsp (c : ReadClcb) (payloadSize : Nat) (p : List UInt8) (lower : Status) :
    ReadStep :=
  let offset := c.counter
  let buf := c.attrBuf.getD (List.replicate gattMaxAttrLen 0)
  if offset < gattMaxAttrLen then
    let len := if p.length + offset > gattMaxAttrLen then gattMaxAttrLen - offset else p.length
    let buf := blit buf offset (p.take len)
    let full := if payloadSize = c.readReqCurrentMtu then len + 1 = payloadSize
      else len + 1 = c.readReqCurrentMtu ∨ len + 1 = payloadSize
    let c := { c with
      counter := c.counter + len
      attrBuf := some buf
      readReqCurrentMtu := payloadSize }
    if full ∧ len + offset < gattMaxAttrLen then c.gattActRead c.counter lower
    else c.gattEndOperation .success (some buf)
  else { c with attrBuf := some buf }.gattEndOperation .noResources (some buf)

/-- `gatt_client_handle_server_rsp`, for the response that the operation waits for. -/
def handleRsp (c : ReadClcb) (payloadSize : Nat) (p : List UInt8) (lower : Status) : ReadStep :=
  if p.length ≥ payloadSize then c.gattEndOperation .error none
  else c.gattProcessReadRsp payloadSize p lower

/-- `GATTC_Read`. -/
def gattcRead (handle payloadSize : Nat) (lower : Status) : ReadStep :=
  gattActRead ⟨handle, 0, none, payloadSize, false⟩ 0 lower

end ReadClcb

/-- The operation against a server with the value `v`; `lower n` is the answer to the request number
`n`, of which there were `sent` so far. -/
def runRead (v : List UInt8) (m : Nat) (lower : Nat → Status) : Nat → Nat → ReadStep → ReadStep
  | 0, _, step => step
  | _ + 1, _, .ended status value => .ended status value
  | fuel + 1, sent, .read c =>
    runRead v m lower fuel (sent + 1) (c.handleRsp m (v.take (m - 1)) (lower sent))
  | fuel + 1, sent, .readBlob c offset =>
    runRead v m lower fuel (sent + 1) (c.handleRsp m ((v.drop offset).take (m - 1)) (lower sent))

/-- A read of `v`, with room for as many responses as it can take. -/
def readByHandle (v : List UInt8) (m handle : Nat) (lower : Nat → Status) : ReadStep :=
  runRead v m lower (v.length + 1) 1 (ReadClcb.gattcRead handle m (lower 0))

/-! ### One response -/

/-- The operation goes on behind a request with this answer. -/
def Accepted (lower : Status) : Prop := lower = .success ∨ lower = .cmdStarted

section Reading

variable {v : List UInt8} {m sent handle : Nat} {lower : Nat → Status} {c : ReadClcb}
  {status : Status}

/-- What is read so far. -/
structure Reading (v : List UInt8) (m handle : Nat) (c : ReadClcb) : Prop where
  handle_eq : c.sHandle = handle
  counter : c.counter ≤ v.length
  room : c.counter < gattMaxAttrLen
  mtu : c.readReqCurrentMtu = m
  buf : ∀ buf ∈ c.attrBuf, buf.length = gattMaxAttrLen ∧ buf.take c.counter = v.take c.counter
  first : c.attrBuf = none → c.counter = 0

/-- The request that the operation waits for. -/
def ReadClcb.waits (c : ReadClcb) : ReadStep :=
  if c.counter = 0 then .read c else .readBlob c c.counter

theorem gattActRead_of_not_accepted (offset : Nat) (h : ¬ Accepted status) :
    ∃ st value, c.gattActRead offset status = .ended st value ∧ st ≠ .success := by
  rw [Accepted, not_or] at h
  rw [ReadClcb.gattActRead]
  split_ifs
  · exact ⟨_, _, rfl, by decide⟩
  · exact ⟨_, _, rfl, h.1⟩

theorem gattActRead_of_accepted (hr : Reading v m handle c) (hh : handle ≠ 0)
    (h : Accepted status) :
    ∃ c', c.gattActRead c.counter status = c'.waits ∧ c'.counter = c.counter ∧
      Reading v m handle c' := by
  have hok : ¬ (status ≠ .success ∧ status ≠ .cmdStarted) := by
    rw [Accepted] at h
    tauto
  rw [ReadClcb.gattActRead, if_neg (by rwa [hr.handle_eq]), if_neg hok]
  by_cases hzero : c.counter = 0
  · exact ⟨c, by rw [ReadClcb.waits, if_pos hzero, if_pos hzero], rfl, hr⟩
  · refine ⟨{ c with firstReadBlobAfterRead := !c.firstReadBlobAfterRead }, ?_, rfl,
      { hr with }⟩
    rw [ReadClcb.waits, if_neg hzero, if_neg hzero]

/-- The part of the value behind what is read. -/
def partAt (v : List UInt8) (m offset : Nat) : List UInt8 := (v.drop offset).take (m - 1)

/-- The buffer with the next part. -/
def ReadClcb.filled (c : ReadClcb) (v : List UInt8) (m : Nat) : List UInt8 :=
  blit (c.attrBuf.getD (List.replicate gattMaxAttrLen 0)) c.counter (partAt v m c.counter)

section

variable (hr : Reading v m handle c) (hv : v.length ≤ gattMaxAttrLen)
include hr hv

theorem Reading.filled :
    (c.filled v m).length = gattMaxAttrLen ∧
      (c.filled v m).take (c.counter + (partAt v m c.counter).length) =
        v.take (c.counter + (partAt v m c.counter).length) := by
  obtain ⟨old, hold, hlen, htake⟩ : ∃ old,
      c.attrBuf.getD (List.replicate gattMaxAttrLen 0) = old ∧ old.length = gattMaxAttrLen ∧
        old.take c.counter = v.take c.counter := by
    cases hbuf : c.attrBuf with
    | none => exact ⟨_, rfl, by simp, by simp [hr.first hbuf]⟩
    | some old => exact ⟨old, rfl, hr.buf old hbuf⟩
  have hpart : (partAt v m c.counter).length ≤ v.length - c.counter := by
    simp only [partAt, List.length_take, List.length_drop]
    omega
  have hroom := hr.counter
  rw [ReadClcb.filled, hold]
  refine ⟨by rw [blit_length (by omega), hlen], ?_⟩
  rw [take_blit (by omega), htake, List.take_add, partAt, List.length_take,
    ← List.take_eq_take_min]

/-- A full response is followed by another request, as long as there is room. -/
theorem Reading.handleRsp_full (hm : 2 ≤ m) (hfull : c.counter + (m - 1) ≤ v.length)
    (hroom : c.counter + (m - 1) < gattMaxAttrLen) (status : Status) :
    ∃ c', Reading v m handle c' ∧ c'.counter = c.counter + (m - 1) ∧
      c.handleRsp m (partAt v m c.counter) status = c'.gattActRead c'.counter status := by
  have hlen : (partAt v m c.counter).length = m - 1 := by
    simp only [partAt, List.length_take, List.length_drop]
    omega
  obtain ⟨hsize, htake⟩ := hr.filled hv
  rw [hlen] at htake
  have hfits : ¬ m - 1 + c.counter > gattMaxAttrLen := by omega
  have hnext : m - 1 + 1 = m ∧ m - 1 + c.counter < gattMaxAttrLen := by omega
  refine ⟨⟨c.sHandle, c.counter + (m - 1), some (c.filled v m), m, c.firstReadBlobAfterRead⟩,
    ⟨hr.handle_eq, hfull, hroom, rfl, ?_, by simp⟩, rfl, ?_⟩
  · rintro buf ⟨⟩
    exact ⟨hsize, htake⟩
  · rw [ReadClcb.handleRsp, if_neg (by omega), ReadClcb.gattProcessReadRsp]
    simp only [if_pos hr.room, hlen, if_neg hfits, List.take_of_length_le hlen.le, hr.mtu,
      reduceIte, if_pos hnext]
    rfl

/-- The last response ends the operation with the value. -/
theorem Reading.handleRsp_last (hm : 2 ≤ m)
    (hlast : ¬ (c.counter + (m - 1) ≤ v.length ∧ c.counter + (m - 1) < gattMaxAttrLen))
    (status : Status) :
    c.handleRsp m (partAt v m c.counter) status = .ended .success ⟨handle, v⟩ := by
  have hc := hr.counter
  have hlen : (partAt v m c.counter).length = v.length - c.counter := by
    simp only [partAt, List.length_take, List.length_drop]
    omega
  obtain ⟨hsize, htake⟩ := hr.filled hv
  rw [hlen] at htake
  have hend : c.counter + (v.length - c.counter) = v.length := by omega
  have hfits : ¬ v.length - c.counter + c.counter > gattMaxAttrLen := by omega
  have hstop : ¬ (v.length - c.counter + 1 = m ∧
      v.length - c.counter + c.counter < gattMaxAttrLen) := by omega
  rw [ReadClcb.handleRsp, if_neg (by omega), ReadClcb.gattProcessReadRsp]
  simp only [if_pos hr.room, hlen, if_neg hfits, List.take_of_length_le hlen.le, hr.mtu, reduceIte,
    if_neg hstop, ReadClcb.gattEndOperation, hend, min_eq_left hv, Option.getD_some, hr.handle_eq]
  rw [hend, List.take_length] at htake
  rw [← ReadClcb.filled, htake]

end

/-! ### The whole read -/

@[simp] theorem runRead_ended (fuel : Nat) (value : Value) :
    runRead v m lower fuel sent (.ended status value) = .ended status value := by
  cases fuel with
  | zero => rfl
  | succ fuel => rfl

theorem runRead_waits (fuel : Nat) : runRead v m lower (fuel + 1) sent c.waits =
    runRead v m lower fuel (sent + 1) (c.handleRsp m (partAt v m c.counter) (lower sent)) := by
  by_cases hzero : c.counter = 0
  · rw [ReadClcb.waits, if_pos hzero, runRead, partAt, hzero, List.drop_zero]
  · rw [ReadClcb.waits, if_neg hzero, runRead, partAt]

/-- The last offset at which something is asked for. -/
def lastOffset (v : List UInt8) : Nat := min v.length (gattMaxAttrLen - 1)

theorem runRead_iff (hh : handle ≠ 0) (hv : v.length ≤ gattMaxAttrLen) (hm : 2 ≤ m) {fuel : Nat}
    (hr : Reading v m handle c) (hfuel : v.length - c.counter < fuel) :
    runRead v m lower fuel sent c.waits = .ended .success ⟨handle, v⟩ ↔
      ∀ i < (lastOffset v - c.counter) / (m - 1), Accepted (lower (sent + i)) := by
  induction fuel generalizing c sent with
  | zero => omega
  | succ fuel ih =>
    rw [runRead_waits]
    by_cases hmore : c.counter + (m - 1) ≤ v.length ∧ c.counter + (m - 1) < gattMaxAttrLen
    · obtain ⟨c', hr', hc', hrun⟩ := hr.handleRsp_full hv hm hmore.1 hmore.2 (lower sent)
      -- one more request, and those behind it
      have hcount : (lastOffset v - c.counter) / (m - 1) =
          (lastOffset v - c'.counter) / (m - 1) + 1 := by
        rw [hc', ← Nat.add_div_right _ (by omega)]
        congr 1
        simp only [lastOffset, gattMaxAttrLen] at hmore ⊢
        omega
      rw [hrun, hcount, Nat.forall_lt_succ_left]
      by_cases hacc : Accepted (lower sent)
      · obtain ⟨c'', hwaits, hc'', hr''⟩ := gattActRead_of_accepted hr' hh hacc
        have hfirst : Accepted (lower (sent + 0)) := hacc
        rw [hwaits, ih hr'' (by omega), hc'', and_iff_right hfirst]
        simp only [Nat.add_assoc, Nat.add_comm 1]
      · obtain ⟨st, value, hended, hne⟩ := gattActRead_of_not_accepted (c := c') c'.counter hacc
        rw [hended, runRead_ended]
        exact iff_of_false (fun heq => hne (by injection heq)) (fun hall => hacc hall.1)
    · have hcount : (lastOffset v - c.counter) / (m - 1) = 0 := by
        refine Nat.div_eq_of_lt ?_
        simp only [lastOffset, gattMaxAttrLen] at hmore ⊢
        omega
      rw [hr.handleRsp_last hv hm hmore, runRead_ended, hcount]
      simp

/-- How many requests a read of `v` takes. -/
def requestCount (v : List UInt8) (m : Nat) : Nat := lastOffset v / (m - 1) + 1

/-- A read by handle ends with the value of the attribute exactly if each of its requests is
accepted, and not on a congested channel. -/
theorem read_by_handle_iff (hh : handle ≠ 0) (hv : v.length ≤ gattMaxAttrLen) (hm : 23 ≤ m) :
    readByHandle v m handle lower = .ended .success ⟨handle, v⟩ ↔
      ∀ i < requestCount v m, Accepted (lower i) := by
  have hr : Reading v m handle ⟨handle, 0, none, m, false⟩ :=
    ⟨rfl, Nat.zero_le _, (by decide : 0 < gattMaxAttrLen), rfl, by simp, fun _ => rfl⟩
  rw [readByHandle, requestCount, Nat.forall_lt_succ_left]
  by_cases hacc : Accepted (lower 0)
  · obtain ⟨c', hwaits, hc', hr'⟩ := gattActRead_of_accepted hr hh hacc
    have hzero : c'.counter = 0 := hc'
    rw [ReadClcb.gattcRead, hwaits, runRead_iff hh hv (by omega) hr' (by omega), hzero,
      and_iff_right hacc, Nat.sub_zero]
    simp only [Nat.add_comm 1]
  · obtain ⟨st, value, hended, hne⟩ :=
      gattActRead_of_not_accepted (c := ⟨handle, 0, none, m, false⟩) 0 hacc
    rw [ReadClcb.gattcRead, hended, runRead_ended]
    exact iff_of_false (fun heq => hne (by injection heq)) (fun hall => hacc hall.1)

end Reading

/-- Two full responses and an empty one bring a value of 44 bytes. -/
theorem read_by_handle_iff_two_full :
    readByHandle (List.replicate 44 7) 23 3 (fun _ => .success) =
      .ended .success ⟨3, List.replicate 44 7⟩ :=
  (read_by_handle_iff (by decide) (by decide) (by decide)).mpr fun _ _ => .inl rfl

/-- On a congested channel the first request ends the read. -/
theorem congested_read_ends :
    readByHandle [1, 2] 23 3 (fun _ => .congested) = .ended .congested ⟨3, []⟩ := by
  decide

end BluetoothStack.Gatt
