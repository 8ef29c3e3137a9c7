import BluetoothStack.L2cap.ErtmReceive

/-!
# BluetoothStack.L2cap.ErtmRun

Runs of one end of an ERTM channel, whatever the peer sends and whatever the timers, the
scheduler and the upper layer do.

`nodeStep` is one event at the node; `nodeRun` a list of them. Each event comes with what
happens at its call-outs. A run refines a sequence of `Core.Step`s (`nodeRun_spec`), so an
invariant of the abstract machine holds at the end of every run that leaves the channel
open. `Core.Stable` is the rule for the invariants that each step of the machine keeps on
its own.

A run starts with the channel open and stays there until it is disconnected. A
reconfiguration takes it back to `CST_CONFIG`, where `l2c_fcr_proc_pdu` still accepts
frames but leaves before the held ones are processed; that is not among the events.
-/

namespace BluetoothStack.L2cap

open BluetoothStack.Lib Relation

/-- What can happen to one end. -/
inductive Event
  /-- An L2CAP frame arrives on the link. -/
  | rx (g : List UInt8)
  /-- The monitor or retransmission timer expires. -/
  | timeout
  | ackTimeout
  /-- The link, the scheduler or the upper layer acts. -/
  | acts (as : List LinkAct)

/-- An event, with what happens at the call-outs while it is handled. -/
abbrev TimedEvent := Event × List (List LinkAct)

variable (c : ChanCfg)

def nodeStep (n : Node) : Event → Result Node
  | .rx g => l2cRcvAclData c n g
  | .timeout => if n.isOpen then l2cFcrProcTout c n else .ok n
  | .ackTimeout => l2cFcrProcAckTout c n
  | .acts as => runActs c n as

def nodeRun (n : Node) : List TimedEvent → Result Node
  | [] => .ok n
  | e :: es => do
    let n ← nodeStep c { n with env := e.2 } e.1
    nodeRun n es

/-- One event, seen by the abstract machine. -/
inductive Core.Step : Core → Core → Prop
  | tx {k k' : Core} (h : TxRun c k k') : Step k k'
  | pdu {k k' : Core} (g : List UInt8) (h : Core.Pdu c g k k') : Step k k'

variable {c}

theorem Node.init_wf : Node.init.Wf :=
  ⟨by simp [Node.init], by simp [Node.init], by simp [Node.init], by simp [Node.init],
    (fun h => by cases h), by simp [Node.init]⟩

variable {n : Node} {k k' : Core}

theorem Node.Wf.withEnv (h : n.Wf) (env : List (List LinkAct)) :
    ({ n with env := env } : Node).Wf :=
  { h with }

/-- What happens at one end without a frame arriving is a sequence of transmit steps. -/
theorem nodeStep_moves (hc : c.peerCfg.mode = .ertm) (h : n.Wf) {e : Event} (he : ∀ g, e ≠ .rx g) :
    Ensures IsOverrun (nodeStep c n e) (Moves c n) := by
  cases e with
  | rx g => exact absurd rfl (he g)
  | timeout =>
    simp only [nodeStep]
    split
    · exact l2cFcrProcTout_spec hc h
    · exact Moves.of_core_eq h rfl
  | ackTimeout => exact l2cFcrProcAckTout_spec hc h
  | acts as => exact runActs_spec hc as h

theorem nodeStep_spec (hc : c.peerCfg.mode = .ertm) (h : n.Wf) (e : Event) :
    Ensures IsOverrun (nodeStep c n e) fun n' => n'.Wf ∧ Core.Step c n.core n'.core := by
  cases e with
  | rx g =>
    refine (l2cRcvAclData_spec hc h g).mono ?_
    rintro n' ⟨hn', hpdu⟩
    exact ⟨hn', .pdu g hpdu⟩
  | timeout | ackTimeout | acts =>
    exact (nodeStep_moves hc h (by simp)).mono fun n' hn' => ⟨hn'.wf, .tx hn'.run⟩

/-- A run refines steps of the abstract machine, and dereferences no null pointer. -/
theorem nodeRun_spec (hc : c.peerCfg.mode = .ertm) (es : List TimedEvent) (h : n.Wf) :
    Ensures IsOverrun (nodeRun c n es) fun n' =>
      n'.Wf ∧ ReflTransGen (Core.Step c) n.core n'.core := by
  induction es generalizing n with
  | nil => exact ⟨h, ReflTransGen.refl⟩
  | cons e es ih =>
    refine Ensures.bind (nodeStep_spec hc (h.withEnv e.2) e.1) ?_
    rintro n₁ ⟨hn₁, hstep⟩
    refine (ih hn₁).mono ?_
    rintro n' ⟨hn', hrun⟩
    exact ⟨hn', ReflTransGen.head hstep hrun⟩

/-- A specification leaves no room for a null dereference. -/
theorem ne_nullDeref {α : Type} {m : Result α} {Q : α → Prop} (h : Ensures IsOverrun m Q) :
    m ≠ .error .nullDeref := by
  rintro rfl
  cases h

/-! ### Invariants -/

theorem Core.IFrame.isOpen {it : Item} (h : Core.IFrame c it k k') (ho : k'.isOpen = true) :
    k.isOpen = true := by
  cases h with
  | closed hc => rw [hc] at ho; cases ho
  | dropped | held | firstHeld | accepted => exact ho

theorem Core.AckBy.isOpen {req : SeqNum} (h : Core.AckBy req k k') : k'.isOpen = k.isOpen := by
  cases h <;> rfl

theorem Core.Process.isOpen {its : List Item} (h : Core.Process c its k k')
    (ho : k'.isOpen = true) : k.isOpen = true := by
  induction h with
  | nil hrun => exact hrun.isOpen ho
  | cons hrun hi _ ih => exact hrun.isOpen (hi.isOpen (ih ho))

theorem Core.After.isOpen (h : Core.After c k k') (ho : k'.isOpen = true) : k.isOpen = true := by
  cases h with
  | idle _ hrun => exact hrun.isOpen ho
  | drain _ _ hp => exact hp.isOpen ho

theorem Core.Step.isOpen (h : Core.Step c k k') (ho : k'.isOpen = true) : k.isOpen = true := by
  cases h with
  | tx hrun => exact hrun.isOpen ho
  | pdu g hpdu =>
    cases hpdu with
    | ignored hrun => exact hrun.isOpen ho
    | processed hack hp hafter => exact hack.isOpen ▸ hp.isOpen (hafter.isOpen ho)

variable (c) in
/-- A predicate that every single step of the machine keeps while the channel is open,
acknowledgements apart. -/
structure Core.Stable (P : Core → Prop) : Prop where
  tx : ∀ {k k' : Core}, Core.Tx c k k' → k'.isOpen = true → P k → P k'
  iFrame : ∀ {it : Item} {k k' : Core}, Core.IFrame c it k k' → k'.isOpen = true → P k → P k'
  drain : ∀ {k : Core}, P k → P { k with held := [] }

namespace Core.Stable

variable {P : Core → Prop}

variable {k k' : Core}

theorem txRun (hP : Core.Stable c P) (h : TxRun c k k') (ho : k'.isOpen = true) (hk : P k) :
    P k' := by
  induction h with
  | refl => exact hk
  | tail _ hstep ih => exact hP.tx hstep ho (ih (hstep.isOpen ho))

theorem process (hP : Core.Stable c P) {its : List Item} (h : Core.Process c its k k')
    (ho : k'.isOpen = true) (hk : P k) : P k' := by
  induction h with
  | nil hrun => exact hP.txRun hrun ho hk
  | cons hrun hi hr ih =>
    have ho₂ := hr.isOpen ho
    exact ih ho (hP.iFrame hi ho₂ (hP.txRun hrun (hi.isOpen ho₂) hk))

/-- A PDU keeps it if the acknowledgement in the PDU does. -/
theorem pdu (hP : Core.Stable c P) {g : List UInt8}
    (hack : ∀ k₁, Core.AckBy (reqSeqOf (frameCtrl g)) k k₁ → P k₁) (h : Core.Pdu c g k k')
    (ho : k'.isOpen = true) (hk : P k) : P k' := by
  cases h with
  | ignored hrun => exact hP.txRun hrun ho hk
  | processed hack' hp hafter =>
    have hk₂ := hP.process hp (hafter.isOpen ho) (hack _ hack')
    cases hafter with
    | idle _ hrun => exact hP.txRun hrun ho hk₂
    | drain _ _ hd => exact hP.process hd ho (hP.drain hk₂)

theorem step (hP : Core.Stable c P)
    (hack : ∀ {req : SeqNum} {k k' : Core}, Core.AckBy req k k' → P k → P k')
    (h : Core.Step c k k') (ho : k'.isOpen = true) (hk : P k) : P k' := by
  cases h with
  | tx hrun => exact hP.txRun hrun ho hk
  | pdu g hpdu => exact hP.pdu (fun _ h₁ => hack h₁ hk) hpdu ho hk

end Core.Stable

/-- An invariant of `Core.Step` holds after every run that leaves the channel open. -/
theorem nodeRun_invariant (hc : c.peerCfg.mode = .ertm) {P : Core → Prop}
    (hinit : P Node.init.core)
    (hstep : ∀ {k k' : Core}, Core.Step c k k' → k'.isOpen = true → P k → P k')
    {es : List TimedEvent} (hrun : nodeRun c Node.init es = .ok n) (ho : n.isOpen = true) :
    n.Wf ∧ P n.core := by
  obtain ⟨hn, hsteps⟩ := (nodeRun_spec hc es Node.init_wf).of_ok hrun
  refine ⟨hn, ?_⟩
  change n.core.isOpen = true at ho
  revert ho
  generalize n.core = k at hsteps ⊢
  induction hsteps with
  | refl => exact fun _ => hinit
  | tail _ hlast ih => exact fun ho => hstep hlast ho (ih (hlast.isOpen ho))

/-- A channel with the default options on both sides. -/
def ChanCfg.default : ChanCfg where
  localCid := 0x40
  remoteCid := 0x40
  ourCfg := kDefaultErtmOptions
  peerCfg := kDefaultErtmOptions
  txMps := 1010
  maxRxMtu := 1000
  maxHeldAcks := 3
  dynamic := by decide

/-- An SDU of the first thousand bytes of `l`, with the least headroom the upper layer leaves. -/
def SduBuf.ofBytes (l : List UInt8) : SduBuf where
  len := (l.take 1000).length
  offset := l2capMinOffset
  data := List.replicate l2capMinOffset 0 ++ l.take 1000 ++ [0, 0]
  headroom := le_rfl
  tailroom := by simp only [List.length_append, List.length_replicate]; rfl
  addressable := by
    simp only [List.length_append, List.length_replicate, l2capMinOffset, List.length_cons,
      List.length_nil, List.length_take]
    omega
  flags := by decide

end BluetoothStack.L2cap
