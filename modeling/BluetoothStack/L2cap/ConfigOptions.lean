import BluetoothStack.Lib.Words
import BluetoothStack.Lib.Triplets

/-!
# BluetoothStack.L2cap.ConfigOptions

The options of a configuration request and of its response, as `process_l2cap_cmd` of `l2c_main.cc`
reads them.

There are two loops. That of the request goes from option to option by the length each of them has.
That of the response never looks at this length: it knows how long the options are that it knows,
and goes on right behind the header of any other one. Both loops record how many bytes were left at
each option.
-/

namespace BluetoothStack.L2cap.Config

open BluetoothStack.Lib

/-! ### Configuration -/

/-- `FLOW_SPEC` -/
structure FlowSpec where
  qosFlags : ℕ := 0
  serviceType : ℕ := 0
  tokenRate : ℕ := 0
  tokenBucketSize : ℕ := 0
  peakBandwidth : ℕ := 0
  latency : ℕ := 0
  delayVariation : ℕ := 0
deriving DecidableEq, Repr

/-- `tL2CAP_FCR_OPTS` -/
structure FcrOpts where
  mode : ℕ := 0
  txWinSz : ℕ := 0
  maxTransmit : ℕ := 0
  rtransTout : ℕ := 0
  monTout : ℕ := 0
  mps : ℕ := 0
deriving DecidableEq, Repr

/-- `tHCI_EXT_FLOW_SPEC` -/
structure ExtFlowSpec where
  id : ℕ := 0
  stype : ℕ := 0
  maxSduSize : ℕ := 0
  sduInterTime : ℕ := 0
  accessLatency : ℕ := 0
  flushTimeout : ℕ := 0
deriving DecidableEq, Repr

/-- The options in `tL2CAP_CFG_INFO`. -/
structure CfgInfo where
  mtuPresent : Bool := false
  mtu : ℕ := 0
  qosPresent : Bool := false
  qos : FlowSpec := {}
  flushToPresent : Bool := false
  flushTo : ℕ := 0
  fcrPresent : Bool := false
  fcr : FcrOpts := {}
  fcsPresent : Bool := false
  fcs : ℕ := 0
  extFlowSpecPresent : Bool := false
  extFlowSpec : ExtFlowSpec := {}
deriving DecidableEq, Repr

/-- What both commands reset before they read options; `ext_flow_spec_present` is not among it. -/
def CfgInfo.reset (i : CfgInfo) : CfgInfo :=
  { i with
    flushToPresent := false, mtuPresent := false, qosPresent := false, fcrPresent := false
    fcsPresent := false }

/-! ### Options -/

/-- `L2CAP_CFG_TYPE_*` -/
inductive CfgType
  | mtu
  | flushTout
  | qos
  | fcr
  | fcs
  | extFlow
deriving DecidableEq, Repr

/-- The `case` of a code without its hint bit. -/
def CfgType.ofCode (code : UInt8) : Option CfgType :=
  if code &&& 0x7F = 0x01 then some .mtu
  else if code &&& 0x7F = 0x02 then some .flushTout
  else if code &&& 0x7F = 0x03 then some .qos
  else if code &&& 0x7F = 0x04 then some .fcr
  else if code &&& 0x7F = 0x05 then some .fcs
  else if code &&& 0x7F = 0x06 then some .extFlow
  else none

/-- How many bytes an option has behind its header. -/
def CfgType.len : CfgType → ℕ
  | mtu => 2
  | flushTout => 2
  | qos => 2 + 5 * 4
  | fcr => 3 + 3 * 2
  | fcs => 1
  | extFlow => 2 + 2 + 3 * 4

/-- `STREAM_TO_UINT8`, `STREAM_TO_UINT16` and `STREAM_TO_UINT32`: the number of `w` bytes at index
`i`. -/
def rdAt (bytes : List UInt8) (i w : ℕ) : ℕ := leValue ((bytes.drop i).take w)

/-- An option is read from its bytes. -/
def CfgType.store (bytes : List UInt8) (i : CfgInfo) : CfgType → CfgInfo
  | mtu => { i with mtuPresent := true, mtu := rdAt bytes 0 2 }
  | flushTout => { i with flushToPresent := true, flushTo := rdAt bytes 0 2 }
  | qos =>
    { i with
      qosPresent := true
      qos :=
        { qosFlags := rdAt bytes 0 1
          serviceType := rdAt bytes 1 1
          tokenRate := rdAt bytes 2 4
          tokenBucketSize := rdAt bytes 6 4
          peakBandwidth := rdAt bytes 10 4
          latency := rdAt bytes 14 4
          delayVariation := rdAt bytes 18 4 } }
  | fcr =>
    { i with
      fcrPresent := true
      fcr :=
        { mode := rdAt bytes 0 1
          txWinSz := rdAt bytes 1 1
          maxTransmit := rdAt bytes 2 1
          rtransTout := rdAt bytes 3 2
          monTout := rdAt bytes 5 2
          mps := rdAt bytes 7 2 } }
  | fcs => { i with fcsPresent := true, fcs := rdAt bytes 0 1 }
  | extFlow =>
    { i with
      extFlowSpecPresent := true
      extFlowSpec :=
        { id := rdAt bytes 0 1
          stype := rdAt bytes 1 1
          maxSduSize := rdAt bytes 2 2
          sduInterTime := rdAt bytes 4 4
          accessLatency := rdAt bytes 8 4
          flushTimeout := rdAt bytes 12 4 } }

/-! ### The two loops -/

/-- The state of a loop: the options read, and how many bytes were left at the start of each option.
-/
structure Progress where
  info : CfgInfo
  starts : List ℕ
deriving DecidableEq, Repr

/-- How the loop of the request ends. -/
inductive ReqResult
  /-- the command is dropped -/
  | dropped
  /-- `cfg_rej`, with `cfg_rej_len` -/
  | rejected (rejLen : ℕ)
  | accepted (p : Progress)
deriving DecidableEq, Repr

/-- `L2CAP_CFG_OPTION_OVERHEAD` -/
def cfgOptionOverhead : ℕ := 2

/-- The loop of `L2CAP_CMD_CONFIG_REQ`; `rej` is `cfg_rej_len` once an option is to be rejected. -/
def configReqLoop (cmdLen : ℕ) (p : Progress) (rej : Option ℕ) : List UInt8 → ReqResult
  | [] =>
    match rej with
    | some rejLen => .rejected rejLen
    | none => .accepted p
  | [_] => .dropped
  | code :: len :: rest =>
    let starts := p.starts ++ [rest.length + 2]
    match CfgType.ofCode code with
    | some t =>
      if len.toNat ≠ t.len then .dropped
      else if rest.length < len.toNat then .dropped
      else
        configReqLoop cmdLen ⟨t.store (rest.take len.toNat) p.info, starts⟩ rej
          (rest.drop len.toNat)
    | none =>
      if len.toNat + cfgOptionOverhead ≤ cmdLen then
        if rest.length < len.toNat then .dropped
        else
          -- only a hint may be unknown
          let rej :=
            if code &&& 0x80 = 0 then some (rej.getD 0 + len.toNat + cfgOptionOverhead) else rej
          configReqLoop cmdLen ⟨p.info, starts⟩ rej (rest.drop len.toNat)
      else .rejected (rej.getD 0)
termination_by bytes => bytes.length
decreasing_by
  all_goals
    rw [List.length_drop, List.length_cons, List.length_cons]
    omega

/-- The loop of `L2CAP_CMD_CONFIG_RSP`; `none` if the command is dropped. -/
def configRspLoop (p : Progress) : List UInt8 → Option Progress
  | [] => some p
  | [_] => none
  | code :: _ :: rest =>
    let starts := p.starts ++ [rest.length + 2]
    match CfgType.ofCode code with
    | some t =>
      if rest.length < t.len then none
      else configRspLoop ⟨t.store (rest.take t.len) p.info, starts⟩ (rest.drop t.len)
    | none => configRspLoop ⟨p.info, starts⟩ rest
termination_by bytes => bytes.length
decreasing_by
  all_goals
    simp only [List.length_drop, List.length_cons]
    omega

/-- The options of a request. -/
def configReqOptions (i : CfgInfo) (options : List UInt8) : ReqResult :=
  -- four bytes of the command are in front of its options
  configReqLoop (options.length + 4) ⟨i.reset, []⟩ none options

/-- The options of a response. -/
def configRspOptions (i : CfgInfo) (options : List UInt8) : Option Progress :=
  configRspLoop ⟨i.reset, []⟩ options

/-! ### When the loops agree -/

/-- No unknown option carries anything. -/
def HintsEmpty (options : List UInt8) : Prop :=
  ∀ t ∈ triplets options, CfgType.ofCode t.1 = none → t.2 = []

/-- The bytes left at the next option, if there is one. -/
def startOf (bytes : List UInt8) : Option ℕ := if bytes = [] then none else some bytes.length

/-- `q` goes on from `p`, with an option at the start of `bytes` next. -/
def GoesOn (p q : Progress) (bytes : List UInt8) : Prop :=
  ∃ more, q.starts = p.starts ++ more ∧ more.head? = startOf bytes

theorem GoesOn.refl (p : Progress) : GoesOn p p [] := ⟨[], (List.append_nil _).symm, rfl⟩

variable {p q : Progress} {rest bytes : List UInt8} {cmdLen : ℕ} {rej : Option ℕ}

theorem GoesOn.cons {i : CfgInfo} {code len : UInt8}
    (h : GoesOn ⟨i, p.starts ++ [rest.length + 2]⟩ q bytes) :
    GoesOn p q (code :: len :: rest) := by
  obtain ⟨more, hq, -⟩ := h
  refine ⟨(rest.length + 2) :: more, ?_, ?_⟩
  · rw [hq, List.append_assoc, List.singleton_append]
  · rw [startOf, if_neg (List.cons_ne_nil _ _)]
    rfl

/-- There is one next option. -/
theorem GoesOn.startOf_eq {bytes' : List UInt8} (h : GoesOn p q bytes) (h' : GoesOn p q bytes') :
    startOf bytes = startOf bytes' := by
  obtain ⟨more, hq, hmore⟩ := h
  obtain ⟨more', hq', hmore'⟩ := h'
  have heq : more = more' := List.append_cancel_left (hq.symm.trans hq')
  rw [← hmore, ← hmore', heq]

theorem configRspLoop_goesOn (h : configRspLoop p bytes = some q) : GoesOn p q bytes := by
  fun_induction configRspLoop p bytes with
  | case1 =>
    cases h
    exact GoesOn.refl _
  | case2 => cases h
  | case3 => cases h
  | case4 p code len rest starts t ht hlong ih | case5 p code len rest starts hnone ih =>
    exact (ih h).cons

theorem configReqLoop_goesOn (h : configReqLoop cmdLen p rej bytes = .accepted q) :
    GoesOn p q bytes := by
  fun_induction configReqLoop cmdLen p rej bytes with
  | case1 => cases h
  | case2 =>
    cases h
    exact GoesOn.refl _
  | case3 => cases h
  | case4 => cases h
  | case5 => cases h
  | case6 p rej code len rest starts t ht hlen hle ih => exact (ih h).cons
  | case7 => cases h
  | case8 p rej code len rest starts hnone hcmd hle rej' ih => exact (ih h).cons
  | case9 => cases h

theorem hintsEmpty_nil : HintsEmpty [] := by
  intro t ht
  rw [triplets_nil] at ht
  exact absurd ht List.not_mem_nil

theorem hintsEmpty_cons {code len : UInt8} (hle : len.toNat ≤ rest.length) :
    HintsEmpty (code :: len :: rest) ↔
      (CfgType.ofCode code = none → len.toNat = 0) ∧ HintsEmpty (rest.drop len.toNat) := by
  have hempty : rest.take len.toNat = [] ↔ len.toNat = 0 := by
    rw [List.take_eq_nil_iff]
    refine or_iff_left_of_imp fun hnil => ?_
    rw [hnil] at hle
    exact Nat.le_zero.mp hle
  rw [HintsEmpty, triplets, if_pos hle, List.forall_mem_cons, hempty]
  rfl

/-- Behind an unknown option with contents, the response does not find the next option where the
request did. -/
theorem configRspLoop_inside {n : ℕ} (h : configReqLoop cmdLen p rej (rest.drop n) = .accepted q)
    (hn : n ≠ 0) (hle : n ≤ rest.length) : configRspLoop p rest ≠ some q := by
  intro hrsp
  have hstart := (configReqLoop_goesOn h).startOf_eq (configRspLoop_goesOn hrsp)
  have hrest : rest ≠ [] := by
    intro hnil
    rw [hnil] at hle
    exact hn (Nat.le_zero.mp hle)
  rw [startOf, startOf, if_neg hrest] at hstart
  split at hstart
  · cases hstart
  · have hlength := Option.some.inj hstart
    rw [List.length_drop] at hlength
    omega

theorem configRspLoop_iff (h : configReqLoop cmdLen p rej bytes = .accepted q) :
    configRspLoop p bytes = some q ↔ HintsEmpty bytes := by
  fun_induction configReqLoop cmdLen p rej bytes with
  | case1 => cases h
  | case2 =>
    cases h
    rw [configRspLoop]
    exact iff_of_true rfl hintsEmpty_nil
  | case3 => cases h
  | case4 => cases h
  | case5 => cases h
  | case6 p rej code len rest starts t ht hlen hle ih =>
    have hlen : len.toNat = t.len := not_not.mp hlen
    rw [hintsEmpty_cons (not_lt.mp hle), ← ih h, configRspLoop]
    simp only [ht, ← hlen, if_neg hle]
    exact (and_iff_right fun hnone => nomatch hnone).symm
  | case7 => cases h
  | case8 p rej code len rest starts hnone hcmd hle rej' ih =>
    rw [hintsEmpty_cons (not_lt.mp hle), ← ih h, configRspLoop]
    simp only [hnone, forall_const]
    by_cases hzero : len.toNat = 0
    · rw [hzero, List.drop_zero]
      exact (and_iff_right rfl).symm
    · exact iff_of_false (configRspLoop_inside h hzero (not_lt.mp hle)) fun hboth => hzero hboth.1
  | case9 => cases h

/-- A response finds in the options of an accepted request what the request found in them, and
where, just if no hint it does not know carries anything. -/
theorem config_rsp_reads_req_options_iff {i : CfgInfo} {options : List UInt8} {q : Progress}
    (h : configReqOptions i options = .accepted q) :
    configRspOptions i options = some q ↔ HintsEmpty options :=
  configRspLoop_iff h

/-- An MTU behind a hint without contents. -/
theorem config_rsp_reads_req_options_iff_empty_hint :
    configReqOptions {} [0x80, 0, 1, 2, 0x30, 0] =
        .accepted ⟨{ mtuPresent := true, mtu := 48 }, [6, 4]⟩ ∧
      (configRspOptions {} [0x80, 0, 1, 2, 0x30, 0] =
          some ⟨{ mtuPresent := true, mtu := 48 }, [6, 4]⟩ ↔
        HintsEmpty [0x80, 0, 1, 2, 0x30, 0]) :=
  have hhint : CfgType.ofCode 0x80 = none ∧ (0x80 : UInt8) &&& 0x80 ≠ 0 := by decide
  have hmtu : CfgType.ofCode 1 = some .mtu := by decide
  have h : configReqOptions {} [0x80, 0, 1, 2, 0x30, 0] =
      .accepted ⟨{ mtuPresent := true, mtu := 48 }, [6, 4]⟩ := by
    simp [configReqOptions, configReqLoop, hhint, hmtu, CfgType.len, CfgType.store, rdAt, leValue,
      CfgInfo.reset, cfgOptionOverhead]
  ⟨h, config_rsp_reads_req_options_iff h⟩

/-- The two contents of the hint are an option of their own to the response: it reads the header of
the MTU option as an MTU, and the MTU in it as the header of an unknown option. -/
theorem config_rsp_reads_inside_hint :
    configReqOptions {} [0x80, 2, 1, 2, 1, 2, 0x30, 0] =
        .accepted ⟨{ mtuPresent := true, mtu := 48 }, [8, 4]⟩ ∧
      configRspOptions {} [0x80, 2, 1, 2, 1, 2, 0x30, 0] =
        some ⟨{ mtuPresent := true, mtu := 513 }, [8, 6, 2]⟩ := by
  have hhint : CfgType.ofCode 0x80 = none ∧ (0x80 : UInt8) &&& 0x80 ≠ 0 := by decide
  have hmtu : CfgType.ofCode 1 = some .mtu := by decide
  have hother : CfgType.ofCode 0x30 = none := by decide
  constructor
  · simp [configReqOptions, configReqLoop, hhint, hmtu, CfgType.len, CfgType.store, rdAt, leValue,
      CfgInfo.reset, cfgOptionOverhead]
  · simp [configRspOptions, configRspLoop, hhint, hmtu, hother, CfgType.len, CfgType.store, rdAt,
      leValue, CfgInfo.reset]

end BluetoothStack.L2cap.Config
