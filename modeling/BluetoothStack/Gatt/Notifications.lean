import Mathlib.Tactic
import BluetoothStack.Gatt.Browse

/-!
# BluetoothStack.Gatt.Notifications

Notifications and indications that a GATT client receives (`gatt_process_notification` in
`gatt_cl.cc`).

A notification of several values is a row of tuples of a handle, a length and a value. The first
tuple is read by the code for a single value, the others by a loop that counts down what is left.
The loop stops when four bytes are left, and these may be a tuple with an empty value.
-/

namespace BluetoothStack.Gatt

open BluetoothStack.Lib

/-! ### The function -/

namespace Op

def handleValueNotif : Nat := 0x1B
def handleValueInd : Nat := 0x1D
def handleMultiValueNotif : Nat := 0x23

end Op

/-- `GATT_MAX_ATTR_LEN`. -/
def gattMaxAttrLen : Nat := 512

/-- `tGATT_VALUE`, with the bytes that count. -/
structure Value where
  handle : Nat
  value : List UInt8
deriving DecidableEq, Repr

/-- A registered client of `cl_rcb_map`. -/
structure ClReg where
  gattIf : Nat
  inUse : Bool
  /-- It has a `p_cmpl_cb`. -/
  cmplCb : Bool
deriving DecidableEq, Repr

inductive NotifEvent where
  /-- `attp_send_cl_confirmation_msg`. -/
  | confirmation
  /-- `gatt_start_ind_ack_timer`. -/
  | indAckTimer
  | callback (gattIf : Nat) (indication : Bool) (value : Value)
deriving DecidableEq, Repr

/-- `STREAM_TO_UINT16`; `none` is a read behind the payload. -/
def streamToUint16 (p : List UInt8) : Option (Nat × List UInt8) :=
  if 2 ≤ p.length then some (rd16 p 0, p.drop 2) else none

/-- `STREAM_TO_ARRAY`. -/
def streamToArray (n : Nat) (p : List UInt8) : Option (List UInt8 × List UInt8) :=
  if n ≤ p.length then some (p.take n, p.drop n) else none

/-- The clients that are told about a value. -/
def notified (regs : List ClReg) : List ClReg := regs.filter fun r => r.inUse && r.cmplCb

/-- Each of them is told about it. -/
def callbacks (regs : List ClReg) (indication : Bool) (v : Value) : List NotifEvent :=
  (notified regs).map fun r => .callback r.gattIf indication v

/-- The loop over the tuples behind the first one; `remLen` counts down what is left. -/
def notifLoop : Nat → Int → List UInt8 → Option (List Value)
  | 0, _, _ => some []
  | fuel + 1, remLen, p =>
    if remLen > 4 then do
      let (handle, p) ← streamToUint16 p
      let (len, p) ← streamToUint16 p
      let remLen := remLen - 4
      let len := min remLen.toNat len
      if len > gattMaxAttrLen then return []
      else do
        let (value, p) ← streamToArray len p
        let rest ← notifLoop fuel (remLen - len) p
        return ⟨handle, value⟩ :: rest
    else some []

/-- What is left behind the first tuple, as an `int16_t`. -/
def firstRemLen (len valueLen : Nat) : Int :=
  Int.bmod (Int.bmod len 65536 - (4 + valueLen)) 65536

/-- What is done about an indication before its value is reported: `ind_count`, and the timer or the
confirmation. -/
def indicated (regs : List ClReg) : Nat × List NotifEvent :=
  let indCount := (notified regs).length
  (indCount, if indCount > 0 then [.indAckTimer] else [.confirmation])

/-- `gatt_process_notification`: `ind_count` afterwards, and what was done. -/
def gattProcessNotification (regs : List ClReg) (indCount opCode : Nat) (data : List UInt8) :
    Option (Nat × List NotifEvent) :=
  if data.length < 2 then some (indCount, [])
  else do
    let (handle, p) ← streamToUint16 data
    if handle = 0 then
      return (indCount, if opCode = Op.handleValueInd then [.confirmation] else [])
    else if opCode = Op.handleMultiValueNotif then
      if data.length < 4 then return (indCount, [])
      else do
        let (len, p) ← streamToUint16 p
        if len > data.length - 4 then return (indCount, [])
        else if len > gattMaxAttrLen then return (indCount, [])
        else do
          let (value, p) ← streamToArray len p
          let rest ← notifLoop p.length (firstRemLen data.length len) p
          return (indCount, (⟨handle, value⟩ :: rest).flatMap (callbacks regs false))
    else if data.length - 2 > gattMaxAttrLen then return (indCount, [])
    else do
      let (value, _) ← streamToArray (data.length - 2) p
      if opCode = Op.handleValueInd then
        return ((indicated regs).1, (indicated regs).2 ++ callbacks regs true ⟨handle, value⟩)
      else return (indCount, callbacks regs false ⟨handle, value⟩)

/-! ### The loop -/

section Loop

variable {p : List UInt8} {v : Value} {vs : List Value} {fuel n : Nat}

/-- A tuple of a notification. -/
def Value.tuple (v : Value) : List UInt8 := le16 v.handle ++ le16 v.value.length ++ v.value

/-- A value that a tuple can carry and a client can take. -/
structure Value.Fits (v : Value) : Prop where
  handle : v.handle < 65536
  value : v.value.length ≤ gattMaxAttrLen

/-- The payload of a notification. -/
def payload (vs : List Value) : List UInt8 := vs.flatMap Value.tuple

@[simp] theorem tuple_length (v : Value) : v.tuple.length = 4 + v.value.length := by
  simp [Value.tuple]
  omega

@[simp] theorem payload_cons (v : Value) (vs : List Value) :
    payload (v :: vs) = v.tuple ++ payload vs :=
  List.flatMap_cons

theorem streamToUint16_le16 (hn : n < 65536) (p : List UInt8) :
    streamToUint16 (le16 n ++ p) = some (n, p) := by
  rw [streamToUint16, if_pos (by simp), rd16_le16_append hn]
  rfl

theorem streamToArray_append (value p : List UInt8) :
    streamToArray value.length (value ++ p) = some (value, p) := by
  rw [streamToArray, if_pos (by simp), List.take_left, List.drop_left]

theorem stream_tuple (hv : v.Fits) (p : List UInt8) :
    streamToUint16 (v.tuple ++ p) = some (v.handle, le16 v.value.length ++ (v.value ++ p)) ∧
    streamToUint16 (le16 v.value.length ++ (v.value ++ p)) =
      some (v.value.length, v.value ++ p) := by
  have hlen : v.value.length < 65536 := lt_of_le_of_lt hv.value (by decide)
  refine ⟨?_, streamToUint16_le16 hlen _⟩
  rw [Value.tuple, List.append_assoc, List.append_assoc, streamToUint16_le16 hv.handle]

/-- What the loop reports: all but an empty value at the end. -/
def reported : List Value → List Value
  | [] => []
  | [v] => if v.value = [] then [] else [v]
  | v :: w :: vs => v :: reported (w :: vs)

theorem notifLoop_cons (hv : v.Fits) (hlong : 4 < (v.tuple ++ p).length) :
    notifLoop (fuel + 1) (v.tuple ++ p).length (v.tuple ++ p) =
      (notifLoop fuel p.length p).map (v :: ·) := by
  obtain ⟨hhandle, hlen⟩ := stream_tuple hv p
  have hrem : ((v.tuple ++ p).length : Int) - 4 = (v.value.length + p.length : Nat) := by
    simp only [List.length_append, tuple_length]
    omega
  have hmin : min (v.value.length + p.length) v.value.length = v.value.length := by omega
  have hleft : ((v.value.length + p.length : Nat) : Int) - v.value.length = p.length := by omega
  have hfits : ¬ v.value.length > gattMaxAttrLen := not_lt.mpr hv.value
  rw [notifLoop, if_pos (by omega)]
  simp only [hhandle, hlen, Option.bind_eq_bind, Option.bind_some, hrem, Int.toNat_natCast, hmin,
    if_neg hfits, streamToArray_append, hleft]
  cases notifLoop fuel p.length p <;> rfl

theorem notifLoop_payload (hvs : ∀ v ∈ vs, v.Fits) (hfuel : (payload vs).length ≤ fuel) :
    notifLoop fuel (payload vs).length (payload vs) = some (reported vs) := by
  induction vs generalizing fuel with
  | nil => cases fuel <;> rfl
  | cons v vs ih =>
    rw [List.forall_mem_cons] at hvs
    rw [payload_cons] at hfuel ⊢
    rw [List.length_append, tuple_length] at hfuel
    obtain ⟨fuel, rfl⟩ : ∃ m, fuel = m + 1 := ⟨fuel - 1, by omega⟩
    by_cases hlong : 4 < (v.tuple ++ payload vs).length
    · rw [notifLoop_cons hvs.1 hlong, ih hvs.2 (by omega)]
      cases vs with
      | nil =>
        have hne : v.value ≠ [] := by
          rintro hnil
          simp [payload, hnil] at hlong
        simp [reported, hne]
      | cons w vs => rfl
    · rw [List.length_append, tuple_length] at hlong
      obtain rfl : vs = [] := by
        cases vs with
        | nil => rfl
        | cons w vs =>
          rw [payload_cons, List.length_append, tuple_length] at hlong
          omega
      have hnil : v.value = [] := List.eq_nil_of_length_eq_zero (by omega)
      rw [notifLoop, if_neg (by simp [payload, hnil])]
      simp [reported, hnil]

theorem reported_length : (reported vs).length = vs.length ↔ ∀ v ∈ vs.getLast?, v.value ≠ [] := by
  induction vs with
  | nil => simp [reported]
  | cons v vs ih =>
    cases vs with
    | nil =>
      by_cases hnil : v.value = []
      · simp [reported, hnil]
      · simp [reported, hnil]
    | cons w vs =>
      rw [reported, List.length_cons, List.length_cons, Nat.add_right_cancel_iff, ih,
        List.getLast?_cons_cons]

theorem reported_eq (h : ∀ v ∈ vs.getLast?, v.value ≠ []) : reported vs = vs := by
  induction vs with
  | nil => rfl
  | cons v vs ih =>
    cases vs with
    | nil => exact if_neg (h v rfl)
    | cons w vs =>
      rw [List.getLast?_cons_cons] at h
      rw [reported, ih h]

end Loop

/-! ### Deliveries -/

section Delivery

variable {p data : List UInt8} {v : Value} {vs : List Value} {fuel len : Nat} {remLen : Int}
  {regs : List ClReg} {indCount : Nat}

/-- The count is right up to the largest `int16_t`, and negative beyond it. -/
theorem firstRemLen_eq {valueLen rest : Nat} (hlen : len = 4 + valueLen + rest)
    (hrest : rest < 65536) :
    firstRemLen len valueLen = if rest < 2 ^ 15 then (rest : Int) else (rest : Int) - 65536 := by
  have hsub : (len : Int) - (4 + valueLen) = (rest : Int) := by omega
  have hmod : (rest : Int) % (65536 : Nat) = rest := Int.emod_eq_of_lt (by omega) (by omega)
  have hcount : Int.bmod (rest : Int) 65536 =
      if rest < 2 ^ 15 then (rest : Int) else (rest : Int) - 65536 := by
    rw [Int.bmod_def, hmod]
    split_ifs <;> omega
  rw [← hcount, ← hsub]
  exact Int.bmod_sub_bmod

theorem notifLoop_of_nonpos (h : remLen ≤ 4) : notifLoop fuel remLen p = some [] := by
  cases fuel with
  | zero => rfl
  | succ fuel => exact if_neg (not_lt.mpr h)

theorem streamToUint16_of_le (h : 2 ≤ p.length) : streamToUint16 p = some (rd16 p 0, p.drop 2) :=
  if_pos h

theorem streamToArray_of_le (h : len ≤ p.length) :
    streamToArray len p = some (p.take len, p.drop len) := if_pos h

/-- The loop reads nothing behind the payload. -/
theorem notifLoop_safe (fuel : Nat) (hrem : remLen ≤ p.length) :
    ∃ vs, notifLoop fuel remLen p = some vs ∧ ∀ v ∈ vs, v.value <:+: p := by
  induction fuel generalizing remLen p with
  | zero => exact ⟨[], rfl, by simp⟩
  | succ fuel ih =>
    by_cases hmore : remLen > 4
    · rw [notifLoop, if_pos hmore]
      have hdrop : (p.drop 2).length = p.length - 2 := List.length_drop
      have hdrop4 : ((p.drop 2).drop 2).length = p.length - 4 := by
        rw [List.drop_drop, List.length_drop]
      simp only [streamToUint16_of_le (p := p) (by omega),
        streamToUint16_of_le (p := p.drop 2) (by omega), Option.bind_eq_bind, Option.bind_some]
      generalize hn : min (remLen - 4).toNat (rd16 (p.drop 2) 0) = n
      have hle : n ≤ (remLen - 4).toNat := by omega
      split
      · exact ⟨[], rfl, by simp⟩
      · have hleft : remLen - 4 - n ≤ (((p.drop 2).drop 2).drop n).length := by
          rw [List.length_drop]
          omega
        obtain ⟨vs, hvs, hin⟩ := ih hleft
        rw [streamToArray_of_le (by omega), Option.bind_some, hvs]
        refine ⟨_, rfl, ?_⟩
        have hsuffix : (p.drop 2).drop 2 <:+ p :=
          (List.drop_suffix 2 _).trans (List.drop_suffix 2 p)
        rw [List.forall_mem_cons]
        refine ⟨(List.take_prefix n _).isInfix.trans hsuffix.isInfix, fun v hv => ?_⟩
        exact (hin v hv).trans ((List.drop_suffix n _).trans hsuffix).isInfix
    · exact ⟨[], notifLoop_of_nonpos (not_lt.mp hmore), by simp⟩

/-- Every client that is told about values is told about each of these, in this order. -/
def Delivers (regs : List ClReg) (indCount : Nat) (vs : List Value) : Prop :=
  gattProcessNotification regs indCount Op.handleMultiValueNotif (payload vs) =
    some (indCount, vs.flatMap (callbacks regs false))

theorem process_payload (hhandle : v.handle ≠ 0) (hv : v.Fits) :
    gattProcessNotification regs indCount Op.handleMultiValueNotif (payload (v :: vs)) = (do
      let rest ← notifLoop (payload vs).length
        (firstRemLen (payload (v :: vs)).length v.value.length) (payload vs)
      return (indCount, (v :: rest).flatMap (callbacks regs false))) := by
  obtain ⟨hread, hlen⟩ := stream_tuple hv (payload vs)
  have hlength : (payload (v :: vs)).length = 4 + v.value.length + (payload vs).length := by
    rw [payload_cons, List.length_append, tuple_length]
  have hroom : ¬ v.value.length > (payload (v :: vs)).length - 4 := by omega
  have hfits : ¬ v.value.length > gattMaxAttrLen := not_lt.mpr hv.value
  rw [gattProcessNotification, if_neg (by omega), payload_cons, hread, Option.bind_eq_bind,
    Option.bind_some, ← payload_cons]
  simp only [if_neg hhandle, hlen, Option.bind_eq_bind, Option.bind_some, if_neg hroom,
    if_neg hfits, streamToArray_append]
  rw [if_pos trivial, if_neg (by omega)]

theorem callbacks_length (regs : List ClReg) (ind : Bool) (v : Value) :
    (callbacks regs ind v).length = (notified regs).length := by
  rw [callbacks, List.length_map]

/-- The number of events says how many values were reported. -/
theorem flatMap_callbacks_length (regs : List ClReg) (ind : Bool) (vs : List Value) :
    (vs.flatMap (callbacks regs ind)).length = vs.length * (notified regs).length := by
  induction vs with
  | nil => simp
  | cons v vs ih =>
    rw [List.flatMap_cons, List.length_append, callbacks_length, ih, List.length_cons, Nat.succ_mul,
      Nat.add_comm]

/-- Reporting fewer values is a difference only if there is someone to tell. -/
theorem flatMap_callbacks_iff (regs : List ClReg) {us : List Value}
    (hus : us = vs ∨ us.length ≠ vs.length) :
    us.flatMap (callbacks regs false) = vs.flatMap (callbacks regs false) ↔
      notified regs = [] ∨ us = vs := by
  constructor
  · intro heq
    have hlen := congrArg List.length heq
    rw [flatMap_callbacks_length, flatMap_callbacks_length] at hlen
    refine hus.elim .inr fun hne => .inl (List.eq_nil_of_length_eq_zero ?_)
    by_contra hpos
    exact hne (Nat.eq_of_mul_eq_mul_right (Nat.pos_of_ne_zero hpos) hlen)
  · rintro (hnil | rfl)
    · have hnone : callbacks regs false = fun _ => [] := by
        funext v
        rw [callbacks, hnil, List.map_nil]
      simp only [hnone, List.flatMap_eq_nil_iff.mpr (fun _ _ => rfl)]
    · rfl

theorem reported_eq_iff : reported vs = vs ↔ ∀ v ∈ vs.getLast?, v.value ≠ [] :=
  ⟨fun h => reported_length.mp (congrArg List.length h), reported_eq⟩

theorem delivers_iff (hhandle : v.handle ≠ 0) (hfits : ∀ u ∈ v :: vs, u.Fits)
    (hlen : (payload (v :: vs)).length < 65536) :
    Delivers regs indCount (v :: vs) ↔ notified regs = [] ∨
      (payload vs).length < 2 ^ 15 ∧ ∀ u ∈ vs.getLast?, u.value ≠ [] := by
  have hlength : (payload (v :: vs)).length = 4 + v.value.length + (payload vs).length := by
    rw [payload_cons, List.length_append, tuple_length]
  rw [List.forall_mem_cons] at hfits
  rw [Delivers, process_payload hhandle hfits.1, firstRemLen_eq hlength (by omega)]
  by_cases hshort : (payload vs).length < 2 ^ 15
  · rw [if_pos hshort, notifLoop_payload hfits.2 le_rfl, and_iff_right hshort, ← reported_eq_iff]
    have hcount : v :: reported vs = v :: vs ∨ (v :: reported vs).length ≠ (v :: vs).length := by
      by_cases heq : (reported vs).length = vs.length
      · exact .inl (by rw [reported_eq_iff.mpr (reported_length.mp heq)])
      · exact .inr (by simpa using heq)
    simpa using flatMap_callbacks_iff regs hcount
  · rw [if_neg hshort, notifLoop_of_nonpos (by omega)]
    have hne : vs ≠ [] := by
      rintro rfl
      simp [payload] at hshort
    have hcount : ([v] : List Value) = v :: vs ∨ ([v] : List Value).length ≠ (v :: vs).length :=
      .inr (by simpa using Ne.symm hne)
    have hiff := flatMap_callbacks_iff regs hcount
    rw [or_iff_left (by simpa using Ne.symm hne)] at hiff
    rw [or_iff_left (fun h => hshort h.1), ← hiff]
    simp

/-- Nothing behind the payload is read or delivered. -/
theorem notification_safe (regs : List ClReg) (indCount : Nat) (hlen : data.length < 65536) :
    ∃ events, gattProcessNotification regs indCount Op.handleMultiValueNotif data =
        some (indCount, events) ∧
      ∀ gattIf ind v, .callback gattIf ind v ∈ events → v.value <:+: data := by
  rw [gattProcessNotification]
  by_cases hshort : data.length < 2
  · exact ⟨[], if_pos hshort, by simp⟩
  rw [if_neg hshort, streamToUint16_of_le (by omega), Option.bind_eq_bind, Option.bind_some]
  by_cases hhandle : rd16 data 0 = 0
  · exact ⟨[], by simp [hhandle, Op.handleMultiValueNotif, Op.handleValueInd], by simp⟩
  simp only [if_neg hhandle, reduceIte]
  by_cases hfour : data.length < 4
  · exact ⟨[], by rw [if_pos hfour]; rfl, by simp⟩
  have hdrop : (data.drop 2).length = data.length - 2 := List.length_drop
  have hdrop4 : ((data.drop 2).drop 2).length = data.length - 4 := by
    rw [List.drop_drop, List.length_drop]
  simp only [if_neg hfour, streamToUint16_of_le (p := data.drop 2) (by omega), Option.bind_eq_bind,
    Option.bind_some]
  generalize rd16 (data.drop 2) 0 = n
  by_cases hroom : n > data.length - 4
  · exact ⟨[], by rw [if_pos hroom]; rfl, by simp⟩
  by_cases hmax : n > gattMaxAttrLen
  · exact ⟨[], by rw [if_neg hroom, if_pos hmax]; rfl, by simp⟩
  rw [if_neg hroom, if_neg hmax, streamToArray_of_le (by omega), Option.bind_some]
  -- the count of the first tuple is right or negative, never too large
  have hrem : firstRemLen data.length n ≤ (((data.drop 2).drop 2).drop n).length := by
    rw [List.length_drop, hdrop4,
      firstRemLen_eq (by omega : data.length = 4 + n + (data.length - 4 - n)) (by omega)]
    split <;> omega
  obtain ⟨vs, hvs, hin⟩ := notifLoop_safe (((data.drop 2).drop 2).drop n).length hrem
  rw [hvs]
  refine ⟨_, rfl, fun gattIf ind v hv => ?_⟩
  have hsuffix : (data.drop 2).drop 2 <:+ data :=
    (List.drop_suffix 2 _).trans (List.drop_suffix 2 data)
  obtain ⟨u, hu, hcb⟩ := List.mem_flatMap.mp hv
  obtain ⟨r, -, heq⟩ := List.mem_map.mp hcb
  cases heq
  obtain rfl | hu := List.mem_cons.mp hu
  · exact (List.take_prefix n _).isInfix.trans hsuffix.isInfix
  · exact (hin _ hu).trans ((List.drop_suffix n _).trans hsuffix).isInfix

/-- A notification of several values is delivered tuple by tuple exactly if no one is to be told, or
what is behind the first tuple is not longer than an `int16_t` can count and its last value is not
empty. No payload is read beyond its end. -/
theorem multi_notification_iff (regs : List ClReg) (indCount : Nat) :
    (∀ v vs, v.handle ≠ 0 → (∀ u ∈ v :: vs, Value.Fits u) → (payload (v :: vs)).length < 65536 →
      (Delivers regs indCount (v :: vs) ↔ notified regs = [] ∨
        (payload vs).length < 2 ^ 15 ∧ ∀ u ∈ vs.getLast?, u.value ≠ [])) ∧
    ∀ data, data.length < 65536 →
      ∃ events, gattProcessNotification regs indCount Op.handleMultiValueNotif data =
          some (indCount, events) ∧
        ∀ gattIf ind v, .callback gattIf ind v ∈ events → v.value <:+: data :=
  ⟨fun _ _ hhandle hfits hlen => delivers_iff hhandle hfits hlen,
    fun _ hlen => notification_safe regs indCount hlen⟩

end Delivery

theorem multi_notification_iff_two :
    Delivers [⟨4, true, true⟩] 0 [⟨3, [1]⟩, ⟨5, [2]⟩] ↔ notified [⟨4, true, true⟩] = [] ∨
      (payload [⟨5, [2]⟩]).length < 2 ^ 15 ∧
        ∀ u ∈ ([⟨5, [2]⟩] : List Value).getLast?, u.value ≠ [] := by
  have hfits : ∀ u ∈ ([⟨3, [1]⟩, ⟨5, [2]⟩] : List Value), u.Fits := by
    simp only [List.forall_mem_cons]
    exact ⟨⟨by decide, by decide⟩, ⟨by decide, by decide⟩, by simp⟩
  exact (multi_notification_iff [⟨4, true, true⟩] 0).1 _ _ (by decide) hfits (by decide)

/-- An empty value at the end is not delivered. -/
theorem empty_value_not_delivered :
    gattProcessNotification [⟨4, true, true⟩] 0 Op.handleMultiValueNotif
        (payload [⟨3, [1]⟩, ⟨5, []⟩]) = some (0, [.callback 4 false ⟨3, [1]⟩]) ∧
    ¬ Delivers [⟨4, true, true⟩] 0 [⟨3, [1]⟩, ⟨5, []⟩] := by
  rw [Delivers]
  decide +kernel

end BluetoothStack.Gatt
