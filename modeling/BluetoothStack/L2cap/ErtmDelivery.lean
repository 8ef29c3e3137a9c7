import BluetoothStack.L2cap.ErtmLink

/-!
# BluetoothStack.L2cap.ErtmDelivery

Two ends of an ERTM channel, connected by lossy FIFO links, deliver every SDU at most once,
unchanged and in order.

`sysStep` lets one of the two ends act, takes the oldest frame off a link and gives it to
the other end, or loses a frame. Each step refines a `SysMove`: one end transmits, or one
end receives the oldest frame under way. The invariant is the `Link` of `ErtmLink` in both
directions; a frame that is received is a ReqSeq in one of them and data in the other.
-/

namespace BluetoothStack.L2cap

open BluetoothStack.Lib Relation

variable {fcsLen : Nat} {G : Ghost} {S S' R R' : Core} {c : ChanCfg} {g : List UInt8}

/-! ### A PDU in one direction -/

theorem Link.receiver_ack (h : Link fcsLen G S R) {req : SeqNum} (ha : Core.AckBy req R R') :
    Link fcsLen G S R' := by
  cases ha with
  | ignored => exact h
  | acked => exact { h with }

/-- The I-frame in a PDU, if any, is processed. -/
theorem Link.receiver_process (hwin : c.ourCfg.txWinSz ≤ maxWin)
    (h : Link (l2cuGetFcsLen c) G S R) (hr : AtRest G R)
    (hg : DataLabel (l2cuGetFcsLen c) G.sent G.dataLow g)
    (hp : Core.Process c (frameItems c g) R R') (ho : R'.isOpen = true) :
    (Link (l2cuGetFcsLen c) G S R' ∧ AtRest G R') ∨
      (Link (l2cuGetFcsLen c) { G with received := G.received + 1 } S R' ∧ R'.srej = false ∧
        Draining { G with received := G.received + 1 } R'.held) := by
  unfold frameItems at hp
  split at hp
  · cases hp with
    | nil hrun => exact .inl ⟨h.receiver_txRun hrun ho, hr.of_sameRx (hrun.sameRx ho)⟩
  · next hodd =>
    obtain ⟨n, hold, hnew, hitem⟩ := hg (by omega)
    cases hp with
    | cons hrun hi hrest =>
      cases hrest with
      | nil hrun' =>
        have ho₂ := hrun'.isOpen ho
        have ho₁ := hi.isOpen ho₂
        have hrx := hrun'.sameRx ho
        rcases (h.receiver_txRun hrun ho₁).receiver_iFrame hwin (hr.of_sameRx (hrun.sameRx ho₁))
          hold hnew hitem hi ho₂ with ⟨hlink, hrest⟩ | ⟨hlink, hsrej, hd⟩
        · exact .inl ⟨hlink.receiver_txRun hrun' ho, hrest.of_sameRx hrx⟩
        · refine .inr ⟨hlink.receiver_txRun hrun' ho, hrx.srej.trans hsrej, ?_⟩
          rw [hrx.held]
          exact hd

theorem Link.receiver_pdu (hwin : c.ourCfg.txWinSz ≤ maxWin) (h : Link (l2cuGetFcsLen c) G S R)
    (hr : AtRest G R) (hg : DataLabel (l2cuGetFcsLen c) G.sent G.dataLow g)
    (hp : Core.Pdu c g R R') (ho : R'.isOpen = true) :
    ∃ m, Link (l2cuGetFcsLen c) { G with received := m } S R' ∧
      AtRest { G with received := m } R' := by
  cases hp with
  | ignored hrun => exact ⟨_, h.receiver_txRun hrun ho, hr.of_sameRx (hrun.sameRx ho)⟩
  | processed hack hp hafter =>
    have ho₂ := hafter.isOpen ho
    rcases (h.receiver_ack hack).receiver_process hwin (hr.of_sameRx hack.sameRx) hg hp ho₂ with
      ⟨hlink, hrest⟩ | ⟨hlink, hsrej, hd⟩
    · cases hafter with
      | idle _ hrun => exact ⟨_, hlink.receiver_txRun hrun ho, hrest.of_sameRx (hrun.sameRx ho)⟩
      | drain hsrej hne =>
        cases hrest with
        | quiet _ hheld => exact absurd hheld hne
        | holding hsrej' => rw [hsrej] at hsrej'; cases hsrej'
    · cases hafter with
      | idle hidle hrun =>
        have hrx := hrun.sameRx ho
        rw [hsrej, ho₂] at hidle
        exact ⟨_, hlink.receiver_txRun hrun ho,
          .quiet (hrx.srej.trans hsrej) (hrx.held.trans (by simpa using hidle))⟩
      | drain _ _ hdrain =>
        obtain ⟨m, hend, hsrej', hheld'⟩ := Link.drain hdrain ho { hlink with } hsrej rfl hd
        exact ⟨m, hend, .quiet hsrej' hheld'⟩

/-- What the sender does between acknowledgements. -/
theorem Link.sender_stable (hwin : c.peerCfg.txWinSz ≤ maxWin) :
    Core.Stable c fun k => ∃ sent acked, G.sent <+: sent ∧
      Link (l2cuGetFcsLen c) { G with sent := sent, acked := acked } k R where
  tx := by
    rintro k k' ht ho ⟨sent, acked, hpre, h⟩
    obtain ⟨sent', hpre', h'⟩ := h.sender_tx hwin ht ho
    exact ⟨sent', acked, hpre.trans hpre', h'⟩
  iFrame := by
    rintro it k k' hi ho ⟨sent, acked, hpre, h⟩
    refine ⟨sent, acked, hpre, ?_⟩
    cases hi with
    | closed hclosed => rw [hclosed] at ho; cases ho
    | dropped | held | firstHeld | accepted => exact { h with }
  drain := by
    rintro k ⟨sent, acked, hpre, h⟩
    exact ⟨sent, acked, hpre, { h with }⟩

theorem Link.sender_pdu (hwin : c.peerCfg.txWinSz ≤ maxWin) (h : Link (l2cuGetFcsLen c) G S R)
    (hg : ReqLabel G.reqLow g) (hp : Core.Pdu c g S S') (ho : S'.isOpen = true) :
    ∃ sent acked, G.sent <+: sent ∧
      Link (l2cuGetFcsLen c) { G with sent := sent, acked := acked } S' R := by
  refine (Link.sender_stable hwin).pdu ?_ hp ho ⟨_, _, List.prefix_rfl, h⟩
  intro k₁ hack
  obtain ⟨acked, h'⟩ := h.sender_ack hg hack
  exact ⟨_, acked, List.prefix_rfl, h'⟩

/-! ### The system -/

/-- What can happen at one end or on its link. -/
inductive SysEvent
  | timeout
  | ackTimeout
  | acts (as : List LinkAct)
  /-- The oldest frame on the link from the other end arrives. -/
  | deliver
  /-- A frame on the link to the other end is lost. -/
  | lose (i : Nat)

/-- An event at one of the two ends, with what happens at its call-outs. -/
structure SysStep where
  side : Bool
  event : SysEvent
  env : List (List LinkAct)

variable (cfg : Bool → ChanCfg)

/-- An event at the end `s`. -/
def stepAt (σ : Bool → Node) (s : Bool) (env : List (List LinkAct)) (e : Event) :
    Result (Bool → Node) := do
  let n ← nodeStep (cfg s) { σ s with env := env } e
  pure (Function.update σ s n)

def sysStep (σ : Bool → Node) (e : SysStep) : Result (Bool → Node) :=
  match e.event with
  | .timeout => stepAt cfg σ e.side e.env .timeout
  | .ackTimeout => stepAt cfg σ e.side e.env .ackTimeout
  | .acts as => stepAt cfg σ e.side e.env (.acts as)
  | .deliver =>
    match (σ !e.side).lower with
    | [] => .ok σ
    | g :: rest =>
      stepAt cfg (Function.update σ (!e.side) { σ !e.side with lower := rest }) e.side e.env (.rx g)
  | .lose i =>
    .ok (Function.update σ e.side { σ e.side with lower := (σ e.side).lower.eraseIdx i })

def sysRun (σ : Bool → Node) : List SysStep → Result (Bool → Node)
  | [] => .ok σ
  | e :: es => do
    let σ ← sysStep cfg σ e
    sysRun σ es

/-- One step of the two abstract machines. -/
inductive SysMove (κ κ' : Bool → Core) : Prop
  | transmit (s : Bool) (hs : TxRun (cfg s) (κ s) (κ' s)) (hother : κ' (!s) = κ (!s))
  | receive (s : Bool) {g : List UInt8} {w : List (List UInt8)} (hwire : (κ (!s)).wire = g :: w)
      (hother : κ' (!s) = { κ (!s) with wire := w }) (hs : Core.Pdu (cfg s) g (κ s) (κ' s))

/-- What the two ends agreed on when the channel was configured. -/
structure Connected : Prop where
  mode : ∀ s, (cfg s).peerCfg.mode = .ertm
  ourWin : ∀ s, (cfg s).ourCfg.txWinSz = kDefaultErtmOptions.txWinSz
  peerWin : ∀ s, (cfg s).peerCfg.txWinSz ≤ kDefaultErtmOptions.txWinSz
  /-- each end knows the other's FCS option -/
  fcsPresent : ∀ s, (cfg s).peerCfg.fcsPresent = (cfg !s).ourCfg.fcsPresent
  fcs : ∀ s, (cfg s).peerCfg.fcs = (cfg !s).ourCfg.fcs

variable {cfg}

/-- Both ends put the same FCS behind their frames. -/
theorem Connected.fcsLen_eq (h : Connected cfg) (s : Bool) :
    l2cuGetFcsLen (cfg !s) = l2cuGetFcsLen (cfg s) := by
  unfold l2cuGetFcsLen
  rw [h.fcsPresent s, h.fcs s, h.fcsPresent !s, h.fcs !s, Bool.not_not, Bool.and_comm]

variable {σ : Bool → Node} {w : List (List UInt8)}

theorem wf_update (hwf : ∀ t, (σ t).Wf) (s : Bool) {n : Node} (hn : n.Wf) (t : Bool) :
    (Function.update σ s n t).Wf := by
  by_cases ht : t = s
  · subst ht
    rw [Function.update_self]
    exact hn
  · rw [Function.update_of_ne ht]
    exact hwf t

/-- What is on its way to the peer does not matter to the buffers at an end. -/
theorem Node.Wf.withLower {n : Node} (h : n.Wf) (w : List (List UInt8)) :
    ({ n with lower := w } : Node).Wf :=
  { h with }

theorem stepAt_spec (s : Bool) {env : List (List LinkAct)} {e : Event} {Q : Node → Prop}
    (hwf : ∀ t, (σ t).Wf)
    (h : Ensures IsOverrun (nodeStep (cfg s) { σ s with env := env } e) fun n => n.Wf ∧ Q n) :
    Ensures IsOverrun (stepAt cfg σ s env e) fun σ' =>
      (∀ t, (σ' t).Wf) ∧ σ' (!s) = σ (!s) ∧ Q (σ' s) := by
  refine Ensures.bind h ?_
  rintro n ⟨hn, hQ⟩
  refine ⟨wf_update hwf s hn, ?_, ?_⟩
  · rw [Function.update_of_ne (by simp)]
  · rw [Function.update_self]
    exact hQ

/-- An event without an arriving frame is a transmission. -/
theorem stepAt_transmit (hconn : Connected cfg) (s : Bool) {env : List (List LinkAct)} {e : Event}
    (he : ∀ g, e ≠ .rx g) (hwf : ∀ t, (σ t).Wf) :
    Ensures IsOverrun (stepAt cfg σ s env e) fun σ' =>
      (∀ t, (σ' t).Wf) ∧ SysMove cfg (fun t => (σ t).core) fun t => (σ' t).core := by
  have hmoves := nodeStep_moves (hconn.mode s) ((hwf s).withEnv env) he
  refine (stepAt_spec s hwf (hmoves.mono fun n hn => ⟨hn.wf, hn.run⟩)).mono ?_
  rintro σ' ⟨hwf', hother, hrun⟩
  exact ⟨hwf', .transmit s hrun (congrArg Node.core hother)⟩

theorem sysStep_spec (hconn : Connected cfg) (hwf : ∀ s, (σ s).Wf) (e : SysStep) :
    Ensures IsOverrun (sysStep cfg σ e) fun σ' =>
      (∀ s, (σ' s).Wf) ∧ SysMove cfg (fun s => (σ s).core) fun s => (σ' s).core := by
  obtain ⟨s, event, env⟩ := e
  cases event with
  | timeout | ackTimeout | acts as => exact stepAt_transmit hconn s (by simp) hwf
  | deliver =>
    simp only [sysStep]
    split
    · exact ⟨hwf, .transmit s ReflTransGen.refl rfl⟩
    · next g rest hlower =>
      -- the link without its oldest frame
      obtain ⟨σ₀, hσ₀⟩ : ∃ σ₀, σ₀ = Function.update σ (!s) { σ !s with lower := rest } := ⟨_, rfl⟩
      have hwf₀ : ∀ t, (σ₀ t).Wf := hσ₀ ▸ wf_update hwf _ ((hwf !s).withLower rest)
      have hself : σ₀ s = σ s := by rw [hσ₀, Function.update_of_ne (by simp)]
      have hpeer : σ₀ (!s) = { σ !s with lower := rest } := by rw [hσ₀, Function.update_self]
      have hrx : Ensures IsOverrun (nodeStep (cfg s) { σ₀ s with env := env } (.rx g)) fun n =>
          n.Wf ∧ Core.Pdu (cfg s) g ({ σ₀ s with env := env } : Node).core n.core :=
        l2cRcvAclData_spec (hconn.mode s) ((hwf₀ s).withEnv env) g
      rw [← hσ₀]
      refine (stepAt_spec s hwf₀ hrx).mono ?_
      rintro σ' ⟨hwf', hother, hpdu⟩
      have hcore : ({ σ₀ s with env := env } : Node).core = (σ s).core := by rw [hself]; rfl
      refine ⟨hwf', .receive s (g := g)
        (w := rest ++ (σ !s).linkXmitDataQ.map BtHdr.bytes) ?_ ?_ ?_⟩
      · simp only [Node.core, hlower, List.cons_append]
      · exact congrArg Node.core (hother.trans hpeer)
      · exact hcore ▸ hpdu
  | lose i =>
    refine ⟨wf_update hwf s ((hwf s).withLower _), .transmit s (ReflTransGen.single ?_) ?_⟩
    · simp only [Function.update_self]
      exact Core.Tx.flush (σ s).core (List.Sublist.append_right (List.eraseIdx_sublist _ _) _)
    · simp only [Function.update_of_ne (show (!s) ≠ s by simp)]

/-! ### The invariant of the system -/

variable (cfg) in
/-- Both directions are consistent. -/
def SysInv (κ : Bool → Core) : Prop :=
  ∀ s, ∃ G, Link (l2cuGetFcsLen (cfg s)) G (κ s) (κ !s) ∧ AtRest G (κ !s)

theorem sysInv_init : SysInv cfg fun _ => Node.init.core := by
  refine fun s => ⟨⟨[], 0, 0, 0, 0⟩, ?_, .quiet rfl rfl⟩
  exact {
    nextTx := rfl
    lastAck := rfl
    waiting := trivial
    inFlight := rfl
    window := Nat.zero_le _
    retrans := fun it hit => by cases hit
    stream := ⟨none, [], [], rfl, .whole fun p hp => by (cases hp), rfl⟩
    data := le_rfl
    expected := rfl
    reassembled := rfl
    reqs := le_rfl
    acked_le := le_rfl
    received_le := le_rfl }

theorem Link.sender_txRun (hwin : c.peerCfg.txWinSz ≤ maxWin) (h : Link (l2cuGetFcsLen c) G S R)
    (hr : AtRest G R) (ht : TxRun c S S') (ho : S'.isOpen = true) :
    ∃ G', Link (l2cuGetFcsLen c) G' S' R ∧ AtRest G' R := by
  obtain ⟨sent, acked, hpre, h'⟩ :=
    (Link.sender_stable hwin).txRun ht ho ⟨_, _, List.prefix_rfl, h⟩
  exact ⟨_, h', hr.mono hpre rfl le_rfl⟩

/-- The frame `g` is taken off the link to the sender: its ReqSeq is the least one under way. -/
theorem Link.pop_req (h : Link fcsLen G S R) (hwire : R.wire = g :: w) :
    ∃ r, ReqLabel r g ∧ Link fcsLen { G with reqLow := r } S { R with wire := w } := by
  have hreqs := h.reqs
  rw [hwire] at hreqs
  obtain ⟨r, hlow, hlabel, hrest⟩ := hreqs
  exact ⟨r, hlabel, { h with reqs := hrest, acked_le := h.acked_le.trans hlow }⟩

/-- The frame `g` is taken off the link to the receiver: all others are at least as new. -/
theorem Link.pop_data (h : Link fcsLen G S R) (hwire : S.wire = g :: w) :
    ∃ t, G.dataLow ≤ t ∧ DataLabel fcsLen G.sent t g ∧
      Link fcsLen { G with dataLow := t } { S with wire := w } R := by
  have hdata := h.data
  rw [hwire] at hdata
  obtain ⟨t, hlow, hlabel, hrest⟩ := hdata
  exact ⟨t, hlow, hlabel, { h with data := hrest, received_le := h.received_le.trans hlow }⟩

/-- The side that receives a frame sees a ReqSeq for what it sent. -/
theorem Link.sender_receives (hwin : c.peerCfg.txWinSz ≤ maxWin)
    (h : Link (l2cuGetFcsLen c) G S R) (hr : AtRest G R) (hwire : R.wire = g :: w)
    (hp : Core.Pdu c g S S') (ho : S'.isOpen = true) :
    ∃ G', Link (l2cuGetFcsLen c) G' S' { R with wire := w } ∧ AtRest G' { R with wire := w } := by
  obtain ⟨r, hlabel, hpop⟩ := h.pop_req hwire
  obtain ⟨sent, acked, hpre, h'⟩ := hpop.sender_pdu hwin hlabel hp ho
  have hpopped : AtRest G { R with wire := w } := hr.of_sameRx ⟨rfl, rfl, rfl, rfl, rfl⟩
  exact ⟨_, h', hpopped.mono hpre rfl le_rfl⟩

/-- The side that receives a frame sees data from the other side. -/
theorem Link.receiver_receives (hwin : c.ourCfg.txWinSz ≤ maxWin)
    (h : Link (l2cuGetFcsLen c) G S R) (hr : AtRest G R) (hwire : S.wire = g :: w)
    (hp : Core.Pdu c g R R') (ho : R'.isOpen = true) :
    ∃ G', Link (l2cuGetFcsLen c) G' { S with wire := w } R' ∧ AtRest G' R' := by
  obtain ⟨t, hlow, hlabel, hpop⟩ := h.pop_data hwire
  obtain ⟨m, hend⟩ := hpop.receiver_pdu hwin (hr.mono List.prefix_rfl rfl hlow) hlabel hp ho
  exact ⟨_, hend⟩

theorem SysMove.inv (hconn : Connected cfg) {κ κ' : Bool → Core} (hmove : SysMove cfg κ κ')
    (ho : ∀ s, (κ' s).isOpen = true) (hinv : SysInv cfg κ) : SysInv cfg κ' := by
  have hpeer (s : Bool) : (cfg s).peerCfg.txWinSz ≤ maxWin := hconn.peerWin s
  have hour (s : Bool) : (cfg s).ourCfg.txWinSz ≤ maxWin := (hconn.ourWin s).le
  intro t
  cases hmove with
  | transmit s hrun hother =>
    obtain rfl | rfl := Bool.eq_or_eq_not t s
    · obtain ⟨G, hlink, hrest⟩ := hinv t
      rw [hother]
      exact hlink.sender_txRun (hpeer t) hrest hrun (ho t)
    · obtain ⟨G, hlink, hrest⟩ := hinv !s
      rw [Bool.not_not] at hlink hrest ⊢
      rw [hother]
      exact ⟨G, hlink.receiver_txRun hrun (ho s), hrest.of_sameRx (hrun.sameRx (ho s))⟩
  | receive s hwire hother hpdu =>
    obtain rfl | rfl := Bool.eq_or_eq_not t s
    · obtain ⟨G, hlink, hrest⟩ := hinv t
      rw [hother]
      exact hlink.sender_receives (hpeer t) hrest hwire hpdu (ho t)
    · obtain ⟨G, hlink, hrest⟩ := hinv !s
      rw [hconn.fcsLen_eq s] at hlink ⊢
      rw [Bool.not_not] at hlink hrest ⊢
      rw [hother]
      exact hlink.receiver_receives (hour s) hrest hwire hpdu (ho s)

theorem SysMove.isOpen {κ κ' : Bool → Core} (hmove : SysMove cfg κ κ')
    (ho : ∀ s, (κ' s).isOpen = true) (t : Bool) : (κ t).isOpen = true := by
  have hother (s : Bool) {w : List (List UInt8)} (h : κ' (!s) = { κ (!s) with wire := w }) :
      (κ !s).isOpen = true := by
    have := ho !s
    rwa [h] at this
  cases hmove with
  | transmit s hrun hpeer =>
    obtain rfl | rfl := Bool.eq_or_eq_not t s
    · exact hrun.isOpen (ho t)
    · exact hother s hpeer
  | receive s _ hpeer hpdu =>
    obtain rfl | rfl := Bool.eq_or_eq_not t s
    · exact (Core.Step.pdu _ hpdu).isOpen (ho t)
    · exact hother s hpeer

/-- The invariant after any run that leaves both ends open. -/
theorem sysRun_inv (hconn : Connected cfg) (es : List SysStep) {σ' : Bool → Node}
    (hwf : ∀ s, (σ s).Wf) (hinv : (∀ s, (σ s).isOpen = true) → SysInv cfg fun s => (σ s).core)
    (hrun : sysRun cfg σ es = .ok σ') (ho : ∀ s, (σ' s).isOpen = true) :
    SysInv cfg fun s => (σ' s).core := by
  induction es generalizing σ with
  | nil => cases hrun; exact hinv ho
  | cons e es ih =>
    obtain ⟨σ₁, hstep, hrest⟩ := bind_eq_ok hrun
    obtain ⟨hwf₁, hmove⟩ := (sysStep_spec hconn hwf e).of_ok hstep
    exact ih hwf₁ (fun ho₁ => hmove.inv hconn ho₁ (hinv (hmove.isOpen ho₁))) hrest

/-- In every run of the two ends, over links that lose frames, as long as neither end has
disconnected, the SDUs that one end has delivered are the first ones that the other has
written. -/
theorem ertm_delivers_in_order (hconn : Connected cfg) (es : List SysStep) {σ : Bool → Node}
    (hrun : sysRun cfg (fun _ => Node.init) es = .ok σ) (ho : ∀ s, (σ s).isOpen = true)
    (s : Bool) : (σ !s).delivered <+: (σ s).written := by
  obtain ⟨G, hlink, -⟩ :=
    sysRun_inv hconn es (fun _ => Node.init_wf) (fun _ => sysInv_init) hrun ho s
  exact hlink.stream.delivered_initial hlink.reassembled

theorem default_connected : Connected fun _ => .default :=
  ⟨fun _ => rfl, fun _ => rfl, fun _ => le_rfl, fun _ => rfl, fun _ => rfl⟩

/-- Two SDUs are sent and the first frame is lost; the second is held, the first asked for with
an SREJ and sent again. -/
def firstLost : List SysStep :=
  [⟨false, .acts [.write (.ofBytes [1, 2]), .serve, .write (.ofBytes [3]),
      .serve], []⟩,
    ⟨false, .lose 0, []⟩, ⟨true, .deliver, []⟩, ⟨true, .acts [.toLower], []⟩,
    ⟨false, .deliver, []⟩, ⟨false, .acts [.serve], []⟩, ⟨true, .deliver, []⟩]

theorem ertm_delivers_first_lost :
    ∃ σ, sysRun (fun _ => .default) (fun _ => Node.init) firstLost = .ok σ ∧
      (∀ s, (σ s).isOpen = true) ∧ (σ true).delivered = [[1, 2], [3]] ∧
      (σ true).delivered <+: (σ false).written := by
  obtain ⟨σ, hrun, hfalse, htrue, hdel⟩ : ∃ σ,
      sysRun (fun _ => .default) (fun _ => Node.init) firstLost = .ok σ ∧
      (σ false).isOpen = true ∧ (σ true).isOpen = true ∧ (σ true).delivered = [[1, 2], [3]] :=
    ⟨_, rfl, rfl, rfl, rfl⟩
  have ho : ∀ s, (σ s).isOpen = true := by
    intro s
    cases s
    · exact hfalse
    · exact htrue
  exact ⟨σ, hrun, ho, hdel, ertm_delivers_in_order default_connected firstLost hrun ho false⟩

end BluetoothStack.L2cap
