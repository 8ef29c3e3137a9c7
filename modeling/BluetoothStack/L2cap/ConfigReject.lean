import BluetoothStack.L2cap.ConfigOptions
import BluetoothStack.L2cap.Types

/-!
# BluetoothStack.L2cap.ConfigReject

The answer to a configuration request with unknown options, `l2cu_send_peer_config_rej` of
`l2c_utils.cc`.

The loop that reads the request adds up how long the options are that it rejects. The answer
declares this length, and a second loop, with checks of its own, copies the options.
-/

namespace BluetoothStack.L2cap.Config

open BluetoothStack.Lib

/-! ### The answer -/

def l2capConfigRspLen : ℕ := 6
def l2capCmdOverhead : ℕ := 4

/-- `BT_SMALL_BUFFER_SIZE`, the longest command that is read. -/
def btSmallBufferSize : ℕ := 660

/-- What the answer takes from the channel, its link and the controller. -/
structure RejTarget where
  handle : ℕ
  nonFlushablePb : Bool
  remoteId : UInt8
  remoteCid : ℕ

/-- The loop of `l2cu_send_peer_config_rej`: the bytes that are copied into `bufSpace` bytes, or
`none` if one is read behind the options. -/
def copyRejected (dataLen bufSpace : ℕ) : List UInt8 → Option (List UInt8)
  | [] => some []
  | [_] => none
  | code :: len :: rest =>
    match CfgType.ofCode code with
    | some _ => copyRejected dataLen bufSpace (rest.drop len.toNat)
    | none =>
      if len.toNat + cfgOptionOverhead ≤ dataLen then
        if code &&& 0x80 = 0 then
          if len.toNat + cfgOptionOverhead ≤ bufSpace then
            if rest.length < len.toNat then none
            else do
              let copied ← copyRejected dataLen (bufSpace - (len.toNat + cfgOptionOverhead))
                (rest.drop len.toNat)
              return code :: len :: rest.take len.toNat ++ copied
          else some []
        else copyRejected dataLen bufSpace (rest.drop len.toNat)
      else some []
termination_by bytes => bytes.length
decreasing_by
  all_goals
    rw [List.length_drop, List.length_cons, List.length_cons]
    omega

/-- The packet that is sent, and the length its buffer gives it. -/
structure RejPacket where
  bytes : List UInt8
  len : ℕ
deriving DecidableEq, Repr

/-- The packet behind its HCI header. -/
def rejBody (c : RejTarget) (rejLen : ℕ) (copied : List UInt8) : List UInt8 :=
  -- `L2CAP_SIGNALLING_CID`
  le16 (l2capCmdOverhead + l2capConfigRspLen + rejLen) ++ le16 1 ++
  -- `L2CAP_CMD_CONFIG_RSP`
  [0x05, c.remoteId] ++ le16 (l2capConfigRspLen + rejLen) ++ le16 c.remoteCid ++
  -- no flags, `L2CAP_CFG_UNKNOWN_OPTIONS`
  le16 0 ++ le16 3 ++ copied

/-- `l2cu_send_peer_config_rej`. -/
def l2cuSendPeerConfigRej (c : RejTarget) (data : List UInt8) (rejLen : ℕ) : Option RejPacket :=
  let len := btHdrSize + hciDataPreambleSize + l2capPktOverhead + l2capCmdOverhead +
    l2capConfigRspLen
  if rejLen > 0xFFFF - len then none
  else do
    let copied ← copyRejected data.length rejLen data
    let body := rejBody c rejLen copied
    let handle := c.handle ||| ((if c.nonFlushablePb then 0 else 2) <<< 12)
    let hciLen := u16 body.length
    return ⟨le16 handle ++ le16 hciLen ++ body, u16 (hciLen + 4)⟩

/-! ### The two loops agree -/

/-- An option that has to be rejected. -/
def Rejectable (t : Triplet) : Bool := CfgType.ofCode t.1 = none ∧ t.1 &&& 0x80 = 0

/-- The bytes of the whole options that have to be rejected. -/
def rejectedBytes (options : List UInt8) : List UInt8 :=
  ((triplets options).filter Rejectable).flatMap Triplet.bytes

theorem rejectedBytes_cons {code len : UInt8} {rest : List UInt8} (hle : len.toNat ≤ rest.length) :
    rejectedBytes (code :: len :: rest) =
      (if CfgType.ofCode code = none ∧ code &&& 0x80 = 0 then code :: len :: rest.take len.toNat
        else []) ++ rejectedBytes (rest.drop len.toNat) := by
  rw [rejectedBytes, triplets, if_pos hle, List.filter_cons]
  split
  next hrej =>
    rw [if_pos (of_decide_eq_true hrej), List.flatMap_cons, Triplet.bytes_take hle]
    rfl
  next hkeep =>
    rw [if_neg fun h => hkeep (decide_eq_true h)]
    rfl

/-- What the first loop counts is what the second one copies, if it has that much space. -/
theorem configReqLoop_rejected {cmdLen dataLen rejLen : ℕ} {p : Progress} {rej : Option ℕ}
    {bytes : List UInt8} (hcmd : dataLen < cmdLen) (hdata : bytes.length ≤ dataLen)
    (h : configReqLoop cmdLen p rej bytes = .rejected rejLen) :
    rejLen = rej.getD 0 + (rejectedBytes bytes).length ∧
      ∀ space, (rejectedBytes bytes).length ≤ space →
        copyRejected dataLen space bytes = some (rejectedBytes bytes) := by
  fun_induction configReqLoop cmdLen p rej bytes with
  | case1 p r =>
    cases h
    simp [rejectedBytes, triplets_nil, copyRejected]
  | case2 => cases h
  | case3 => cases h
  | case4 => cases h
  | case5 => cases h
  | case6 p rej code len rest starts t ht hlen hle ih =>
    have hrest : rest.length + 2 ≤ dataLen := hdata
    obtain ⟨hsum, hcopy⟩ :=
      ih ((List.drop_sublist ..).length_le.trans (Nat.le_of_add_right_le hrest)) h
    have hknown : ¬(CfgType.ofCode code = none ∧ code &&& 0x80 = 0) := by
      rw [ht]
      intro hrej
      cases hrej.1
    rw [rejectedBytes_cons (not_lt.mp hle), if_neg hknown, List.nil_append]
    refine ⟨hsum, fun space hspace => ?_⟩
    simp only [copyRejected, ht]
    exact hcopy space hspace
  | case7 => cases h
  | case8 p rej code len rest starts hnone hlen hle rej' ih =>
    have hrest : rest.length + 2 ≤ dataLen := hdata
    obtain ⟨hsum, hcopy⟩ :=
      ih ((List.drop_sublist ..).length_le.trans (Nat.le_of_add_right_le hrest)) h
    have hwhole : len.toNat ≤ rest.length := not_lt.mp hle
    have hfits : len.toNat + cfgOptionOverhead ≤ dataLen :=
      (Nat.add_le_add_right hwhole _).trans hdata
    rw [rejectedBytes_cons hwhole]
    by_cases hhint : code &&& 0x80 = 0
    · have hcopied : (code :: len :: rest.take len.toNat).length =
          len.toNat + cfgOptionOverhead := by
        rw [List.length_cons, List.length_cons, List.length_take, Nat.min_eq_left hwhole]
        rfl
      rw [if_pos ⟨hnone, hhint⟩, List.length_append, hcopied]
      refine ⟨?_, fun space hspace => ?_⟩
      · rw [hsum, show rej' = some (rej.getD 0 + len.toNat + cfgOptionOverhead) from if_pos hhint,
          Option.getD_some]
        omega
      · simp only [copyRejected, hnone, if_pos hfits, if_pos hhint, if_neg hle,
          if_pos (Nat.le_of_add_right_le hspace), hcopy _ (Nat.le_sub_of_add_le' hspace)]
        rfl
    · rw [if_neg fun hrej => hhint hrej.2, List.nil_append]
      refine ⟨?_, fun space hspace => ?_⟩
      · rw [hsum, show rej' = rej from if_neg hhint]
      · simp only [copyRejected, hnone, if_pos hfits, if_neg hhint]
        exact hcopy space hspace
  | case9 p rej code len rest hnone hlen =>
    cases h
    -- An option longer than the command is longer than what is left of it.
    have hlong : dataLen < len.toNat + cfgOptionOverhead := hcmd.trans (not_le.mp hlen)
    have hnil : rejectedBytes (code :: len :: rest) = [] := by
      rw [rejectedBytes, triplets, if_neg]
      · rfl
      · exact fun hle => absurd ((Nat.add_le_add_right hle 2).trans hdata) (not_le.mpr hlong)
    rw [hnil]
    refine ⟨rfl, fun space _ => ?_⟩
    simp only [copyRejected, hnone, if_neg (not_le.mpr hlong)]

/-- **An answer that rejects options is well formed.** It has the whole unknown options of the
request that are no hints, in order, and its three lengths are those of what is written. -/
theorem config_rej_well_formed {i : CfgInfo} {options : List UInt8} {rejLen : ℕ} (c : RejTarget)
    (h : configReqOptions i options = .rejected rejLen)
    (hcmd : options.length + 4 ≤ btSmallBufferSize) :
    ∃ p, l2cuSendPeerConfigRej c options rejLen = some p ∧ p.bytes.drop 18 = rejectedBytes options ∧
      p.bytes.length = 18 + (rejectedBytes options).length ∧ p.len = p.bytes.length ∧
      rd16 p.bytes 2 = p.bytes.length - 4 ∧ rd16 p.bytes 4 = p.bytes.length - 8 ∧
      rd16 p.bytes 10 = p.bytes.length - 12 := by
  obtain ⟨hsum, hcopy⟩ := configReqLoop_rejected (Nat.lt_add_of_pos_right (by decide)) le_rfl h
  have hspace : (rejectedBytes options).length = rejLen := by
    rw [hsum]
    exact (Nat.zero_add _).symm
  have hcopied := hcopy rejLen hspace.le
  -- the options came in a small buffer, so no length wraps around
  have hsmall : rejLen ≤ 660 := by
    rw [← hspace]
    exact (triplets_filter_length_le Rejectable options).trans (Nat.le_of_add_right_le hcmd)
  generalize rejectedBytes options = copied at *
  subst hspace
  have hbody : (rejBody c copied.length copied).length = 14 + copied.length := by
    simp [rejBody]
    omega
  have hhci : u16 (rejBody c copied.length copied).length = 14 + copied.length := by
    rw [hbody]
    exact u16_of_lt (by omega)
  have hsend : l2cuSendPeerConfigRej c options copied.length =
      some ⟨le16 (c.handle ||| ((if c.nonFlushablePb then 0 else 2) <<< 12)) ++
        le16 (14 + copied.length) ++ rejBody c copied.length copied, 18 + copied.length⟩ := by
    rw [l2cuSendPeerConfigRej,
      if_neg (by simp only [btHdrSize, hciDataPreambleSize, l2capPktOverhead,
      l2capCmdOverhead, l2capConfigRspLen]; omega), hcopied]
    simp only [Option.bind_eq_bind, Option.bind_some, hhci]
    rw [u16_of_lt (by omega), Nat.add_right_comm]
    rfl
  have hlength : (le16 (c.handle ||| ((if c.nonFlushablePb then 0 else 2) <<< 12)) ++
      le16 (14 + copied.length) ++ rejBody c copied.length copied).length = 18 + copied.length := by
    rw [List.length_append, List.length_append, hbody, le16_length, le16_length]
    omega
  refine ⟨_, hsend, rfl, hlength, hlength.symm, ?_, ?_, ?_⟩
  · rw [hlength, rd16_of_drop (v := 14 + copied.length) (k := 2) rfl (by omega)]
    omega
  · rw [hlength, rd16_of_drop (v := 10 + copied.length) (k := 4) rfl (by omega)]
    omega
  · rw [hlength, rd16_of_drop (v := 6 + copied.length) (k := 10) rfl (by omega)]
    omega

/-- An unknown option between an MTU and an unknown hint. -/
theorem config_rej_well_formed_one :
    ∃ p, l2cuSendPeerConfigRej ⟨1, true, 1, 64⟩ [1, 2, 0x30, 0, 0x10, 1, 7, 0x90, 0] 3 = some p ∧
      p.bytes.drop 18 = rejectedBytes [1, 2, 0x30, 0, 0x10, 1, 7, 0x90, 0] := by
  have hmtu : CfgType.ofCode 1 = some .mtu := by decide
  have hother : CfgType.ofCode 0x10 = none ∧ (0x10 : UInt8) &&& 0x80 = 0 := by decide
  have hhint : CfgType.ofCode 0x90 = none ∧ (0x90 : UInt8) &&& 0x80 ≠ 0 := by decide
  have h : configReqOptions {} [1, 2, 0x30, 0, 0x10, 1, 7, 0x90, 0] = .rejected 3 := by
    simp [configReqOptions, configReqLoop, hhint, hother, hmtu, CfgType.len, CfgType.store, rdAt,
      leValue, CfgInfo.reset, cfgOptionOverhead]
  obtain ⟨p, hsend, hoptions, -⟩ := config_rej_well_formed ⟨1, true, 1, 64⟩ h (by decide)
  exact ⟨p, hsend, hoptions⟩

end BluetoothStack.L2cap.Config
