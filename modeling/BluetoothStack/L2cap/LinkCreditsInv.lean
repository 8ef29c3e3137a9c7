import BluetoothStack.L2cap.LinkCredits

/-!
# No controller buffer is lost

For each transport, the free buffers and the packets that are out on its links add up to the
buffers of the controller. The step lemmas are about this sum: sending moves a buffer from the
window to a link, an acknowledgement or a release moves buffers back. In the middle of
`l2c_packets_completed` some buffers are with neither; `returning` counts these.

The sum survives nested calls only if none is made between the test of the window and the sending
of a packet. `l2cu_get_next_buffer_to_send` runs callbacks there, so this is a condition on the
run (`CreditEvent.notReentrant`), and `credits_unbalanced` shows what happens without it.
-/

namespace BluetoothStack.L2cap.Link

open BluetoothStack.Lib

/-! ### What is counted -/

/-- The packets of a link that are out on a transport. -/
def LinkCb.sentOn (t : Transport) (l : LinkCb) : Nat :=
  if l.inUse ∧ l.transport = t then l.sentNotAcked else 0

def LinkCb.usedOn (t : Transport) (l : LinkCb) : Nat :=
  if l.inUse ∧ l.transport = t then 1 else 0

/-- The sum of `sent_not_acked` over the links of a transport that are in use. -/
def Credits.sent (s : Credits) (t : Transport) : Nat := ∑ c, (s.lcb c).sentOn t

/-- How many links of a transport are in use. -/
def Credits.used (s : Credits) (t : Transport) : Nat := ∑ c, (s.lcb c).usedOn t

def Credits.transport (s : Credits) (c : LcbId) : Transport := (s.lcb c).transport

/-- The link that a call is about. -/
def Frame.link : Frame → Option LcbId
  | .linkLoop c _ | .chanLoop c | .chanSend c | .rrSend _ c _ | .completed c _ | .served c => some c
  | .rrLoop _ _ _ | .releasing _ => none

/-- The call has tested the window and not sent the packet yet. -/
def Frame.unsent : Frame → Bool
  | .chanSend _ | .rrSend _ _ _ => true
  | _ => false

/-- What a call is going to give back to the window of a transport. -/
def Frame.returning (tr : LcbId → Transport) (t : Transport) : Frame → Nat
  | .completed c n => if tr c = t then n else 0
  | _ => 0

def Frame.isReleasing (t : Transport) : Frame → Nat
  | .releasing t' => if t' = t then 1 else 0
  | _ => 0

def Credits.returning (s : Credits) (t : Transport) : Nat :=
  (s.stack.map (Frame.returning s.transport t)).sum

def Credits.releasing (s : Credits) (t : Transport) : Nat :=
  (s.stack.map (Frame.isReleasing t)).sum

/-- The accounts of a transport balance. -/
def Credits.Balanced (s : Credits) : Prop :=
  ∀ t, s.window t + s.sent t + s.returning t = s.bufs t

/-- What the calls under way rely on: their links are in use, and only the topmost one may have
tested the window, which is then not empty. -/
structure StackOk (s : Credits) (frames : List Frame) : Prop where
  used : ∀ f ∈ frames, ∀ c, f.link = some c → (s.lcb c).inUse
  ready : ∀ f ∈ frames, f.unsent → ∀ c, f.link = some c → s.window (s.transport c) ≠ 0
  top : ∀ f ∈ frames.tail, f.unsent = false

structure CreditInv (s : Credits) : Prop where
  size : ∀ t, s.bufs t < 65536
  balanced : s.Balanced
  links : ∀ t, s.links t = s.used t + s.releasing t
  stack : StackOk s s.stack

variable {s s' : Credits} {t : Transport} {c : LcbId} {l : LinkCb}

@[simp] theorem Credits.setLcb_lcb (s : Credits) (c : LcbId) (l : LinkCb) (d : LcbId) :
    (s.setLcb c l).lcb d = if d = c then l else s.lcb d := by
  simp [Credits.setLcb, Function.update_apply]

@[simp] theorem Credits.setWindow_window (s : Credits) (t : Transport) (n : Nat) (t' : Transport) :
    (s.setWindow t n).window t' = if t' = t then n else s.window t' := by
  simp [Credits.setWindow, Function.update_apply]

@[simp] theorem Credits.setLinks_links (s : Credits) (t : Transport) (n : Nat) (t' : Transport) :
    (s.setLinks t n).links t' = if t' = t then n else s.links t' := by
  simp [Credits.setLinks, Function.update_apply]

theorem sum_setLcb (f : LinkCb → Nat) (s : Credits) (c : LcbId) (l : LinkCb) :
    ∑ d, f ((s.setLcb c l).lcb d) + f (s.lcb c) = ∑ d, f (s.lcb d) + f l := by
  rw [← Finset.add_sum_erase _ _ (Finset.mem_univ c),
    ← Finset.add_sum_erase _ (fun d => f (s.lcb d)) (Finset.mem_univ c)]
  have hrest : ∑ d ∈ Finset.univ.erase c, f ((s.setLcb c l).lcb d)
      = ∑ d ∈ Finset.univ.erase c, f (s.lcb d) := by
    refine Finset.sum_congr rfl fun d hd => ?_
    rw [Credits.setLcb_lcb, if_neg (Finset.ne_of_mem_erase hd)]
  rw [hrest, Credits.setLcb_lcb, if_pos rfl]
  omega

/-! ### Steps that move no buffer -/

/-- Nothing that is counted has changed, except perhaps the stack. -/
structure SameAccounts (s s' : Credits) : Prop where
  inUse : ∀ c, (s'.lcb c).inUse = (s.lcb c).inUse
  transport : s'.transport = s.transport
  sent : ∀ c, (s'.lcb c).sentNotAcked = (s.lcb c).sentNotAcked
  window : s'.window = s.window
  bufs : s'.bufs = s.bufs
  links : s'.links = s.links

namespace SameAccounts

theorem refl (s : Credits) : SameAccounts s s := ⟨fun _ => rfl, rfl, fun _ => rfl, rfl, rfl, rfl⟩

theorem trans {s₁ s₂ s₃ : Credits} (h : SameAccounts s₁ s₂) (h' : SameAccounts s₂ s₃) :
    SameAccounts s₁ s₃ :=
  ⟨fun c => (h'.inUse c).trans (h.inUse c), h'.transport.trans h.transport,
    fun c => (h'.sent c).trans (h.sent c), h'.window.trans h.window, h'.bufs.trans h.bufs,
    h'.links.trans h.links⟩

theorem transport_eq (h : SameAccounts s s') (c : LcbId) :
    (s'.lcb c).transport = (s.lcb c).transport := congrFun h.transport c

theorem sent_eq (h : SameAccounts s s') (t : Transport) : s'.sent t = s.sent t :=
  Finset.sum_congr rfl fun c _ => by
    simp only [LinkCb.sentOn, h.inUse, h.transport_eq, h.sent]

theorem used_eq (h : SameAccounts s s') (t : Transport) : s'.used t = s.used t :=
  Finset.sum_congr rfl fun c _ => by
    simp only [LinkCb.usedOn, h.inUse, h.transport_eq]

/-- A change to a link that touches none of the fields that are counted. -/
theorem setLcb (s : Credits) (c : LcbId) {l : LinkCb} (hin : l.inUse = (s.lcb c).inUse)
    (htr : l.transport = (s.lcb c).transport) (hsent : l.sentNotAcked = (s.lcb c).sentNotAcked) :
    SameAccounts s (s.setLcb c l) := by
  refine ⟨?_, ?_, ?_, rfl, rfl, rfl⟩
  · intro d
    by_cases hd : d = c <;> simp [hd, hin]
  · funext d
    by_cases hd : d = c <;> simp [Credits.transport, hd, htr]
  · intro d
    by_cases hd : d = c <;> simp [hd, hsent]

end SameAccounts

variable {fs : List Frame} {f : Frame}

theorem StackOk.of_same (h : StackOk s fs) (hs : SameAccounts s s') : StackOk s' fs := by
  refine ⟨?_, ?_, h.top⟩
  · intro f hf c hc
    rw [hs.inUse]
    exact h.used f hf c hc
  · intro f hf hu c hc
    rw [hs.window, hs.transport]
    exact h.ready f hf hu c hc

theorem StackOk.rest (h : StackOk s (f :: fs)) : StackOk s fs :=
  ⟨fun g hg => h.used g (List.mem_cons_of_mem _ hg),
    fun g hg => h.ready g (List.mem_cons_of_mem _ hg),
    fun g hg => h.top g (List.mem_of_mem_tail hg)⟩

/-- A call that starts while no other one has an unsent packet. -/
theorem StackOk.push (h : StackOk s fs) (hfs : ∀ g ∈ fs, g.unsent = false)
    (hused : ∀ c, f.link = some c → (s.lcb c).inUse)
    (hready : f.unsent → ∀ c, f.link = some c → s.window (s.transport c) ≠ 0) :
    StackOk s (f :: fs) := by
  refine ⟨?_, ?_, hfs⟩
  · intro g hg
    rcases List.mem_cons.mp hg with rfl | hg
    · exact hused
    · exact h.used g hg
  · intro g hg
    rcases List.mem_cons.mp hg with rfl | hg
    · exact hready
    · exact h.ready g hg

/-- Nothing is counted anew, and the new stack is as good as the old one. -/
theorem CreditInv.restack (h : CreditInv s) (hs : SameAccounts s s')
    (hret : ∀ t, (s'.stack.map (Frame.returning s.transport t)).sum = s.returning t)
    (hrel : ∀ t, (s'.stack.map (Frame.isReleasing t)).sum = s.releasing t)
    (hstack : StackOk s s'.stack) : CreditInv s' := by
  refine ⟨?_, ?_, ?_, hstack.of_same hs⟩
  · intro t
    rw [hs.bufs]
    exact h.size t
  · intro t
    rw [Credits.returning, hs.transport, hret, hs.window, hs.bufs, hs.sent_eq]
    exact h.balanced t
  · intro t
    rw [Credits.releasing, hrel, hs.links, hs.used_eq]
    exact h.links t

theorem CreditInv.of_same (h : CreditInv s) (hs : SameAccounts s s') (hstack : s'.stack = s.stack) :
    CreditInv s' :=
  h.restack hs (fun t => by rw [hstack]; rfl) (fun t => by rw [hstack]; rfl) (hstack ▸ h.stack)

/-! ### Quotas -/

theorem assignQuota_same (t : Transport) (counts : LinkCb → Bool) (hiQuota qq : Nat)
    (p : Credits × Nat) (c : LcbId) :
    SameAccounts p.1 (assignQuota t counts hiQuota qq p c).1 ∧
      (assignQuota t counts hiQuota qq p c).1.stack = p.1.stack := by
  obtain ⟨s, remainder⟩ := p
  have hunacked : ∀ n, SameAccounts s (s.setUnacked t n) :=
    fun n => ⟨fun _ => rfl, rfl, fun _ => rfl, rfl, rfl, rfl⟩
  simp only [assignQuota]
  split_ifs
  · exact ⟨.setLcb _ _ rfl rfl rfl, rfl⟩
  · exact ⟨(hunacked _).trans (.setLcb _ _ rfl rfl rfl), rfl⟩
  · exact ⟨.setLcb _ _ rfl rfl rfl, rfl⟩
  · exact ⟨(hunacked _).trans (.setLcb _ _ rfl rfl rfl), rfl⟩
  · exact ⟨.setLcb _ _ rfl rfl rfl, rfl⟩
  · exact ⟨.refl _, rfl⟩

theorem foldl_assignQuota_same (t : Transport) (counts : LinkCb → Bool) (hiQuota qq : Nat)
    (pool : List LcbId) (p : Credits × Nat) :
    SameAccounts p.1 (pool.foldl (assignQuota t counts hiQuota qq) p).1 ∧
      (pool.foldl (assignQuota t counts hiQuota qq) p).1.stack = p.1.stack := by
  induction pool generalizing p with
  | nil => exact ⟨.refl _, rfl⟩
  | cons c pool ih =>
    obtain ⟨h₁, hstack₁⟩ := assignQuota_same t counts hiQuota qq p c
    obtain ⟨h₂, hstack₂⟩ := ih (assignQuota t counts hiQuota qq p c)
    exact ⟨h₁.trans h₂, hstack₂.trans hstack₁⟩

/-- New quotas move no buffer, except that a transport without links gets all of its buffers. -/
theorem adjustAllocation_same {counts : LinkCb → Bool} {few : Nat}
    (h : adjustAllocation t counts few s = some s') :
    s'.stack = s.stack ∧
      (SameAccounts s s' ∨ s.links t = 0 ∧ SameAccounts (s.setWindow t (s.bufs t)) s') := by
  by_cases hlinks : s.links t = 0
  · simp only [adjustAllocation, hlinks, if_true] at h
    obtain rfl := Option.some.inj h
    exact ⟨rfl, .inr ⟨hlinks, ⟨fun _ => rfl, rfl, fun _ => rfl, rfl, rfl, rfl⟩⟩⟩
  · simp only [adjustAllocation, hlinks, if_false] at h
    obtain ⟨hiQuota, -, h⟩ := Option.bind_eq_some_iff.mp h
    obtain rfl := Option.some.inj h
    obtain ⟨hsame, hstack⟩ := foldl_assignQuota_same t counts hiQuota _ (List.finRange 16) _
    exact ⟨hstack, .inl { hsame with }⟩

/-- Without links, no packet of the transport is out. -/
theorem CreditInv.window_full (h : CreditInv s) (hlinks : s.links t = 0) :
    s.window t = s.bufs t := by
  have hused : s.used t = 0 := by
    have := h.links t
    omega
  have hfree : ∀ c, ¬ ((s.lcb c).inUse = true ∧ (s.lcb c).transport = t) := by
    intro c hc
    have hzero := (Finset.sum_eq_zero_iff.mp hused) c (Finset.mem_univ c)
    simp [LinkCb.usedOn, hc] at hzero
  have hsent : s.sent t = 0 :=
    Finset.sum_eq_zero fun c _ => if_neg (hfree c)
  have hret : s.returning t = 0 := by
    refine List.sum_eq_zero ?_
    intro n hn
    obtain ⟨f, hf, rfl⟩ := List.mem_map.mp hn
    cases f with
    | completed c n =>
      have hin := h.stack.used _ hf c rfl
      exact if_neg fun htr => hfree c ⟨hin, htr⟩
    | _ => rfl
  have := h.balanced t
  omega

theorem CreditInv.adjust {counts : LinkCb → Bool} {few : Nat} (h : CreditInv s)
    (hadj : adjustAllocation t counts few s = some s') : CreditInv s' := by
  obtain ⟨hstack, hsame | ⟨hlinks, hsame⟩⟩ := adjustAllocation_same hadj
  · exact h.of_same hsame hstack
  · have hwindow : s.setWindow t (s.bufs t) = s := by
      rw [← h.window_full hlinks, Credits.setWindow, Function.update_eq_self]
    exact h.of_same (hwindow ▸ hsame) hstack

theorem CreditInv.adjust_transport (h : CreditInv s) (hadj : adjustFor t s = some s') :
    CreditInv s' := by
  cases t with
  | brEdr =>
    rw [adjustFor, l2cLinkAdjustAllocation] at hadj
    exact h.adjust hadj
  | le =>
    rw [adjustFor, l2cBleLinkAdjustAllocation] at hadj
    exact h.adjust hadj

/-! ### Steps that move buffers -/

/-- One link and the window of its transport change, and perhaps the stack. The accounts of this
transport have to balance again, with what the calls are going to return. -/
theorem CreditInv.move (h : CreditInv s) {w : Nat}
    (hs : SameAccounts ((s.setLcb c l).setWindow (s.transport c) w) s')
    (hl : l.transport = s.transport c)
    (hown : w + l.sentOn (s.transport c)
        + (s'.stack.map (Frame.returning s.transport (s.transport c))).sum
      = s.window (s.transport c) + (s.lcb c).sentOn (s.transport c) + s.returning (s.transport c))
    (hother : ∀ t ≠ s.transport c, (s'.stack.map (Frame.returning s.transport t)).sum =
      s.returning t)
    (hrel : ∀ t, (s'.stack.map (Frame.isReleasing t)).sum + l.usedOn t
      = s.releasing t + (s.lcb c).usedOn t)
    (hstack : StackOk s' s'.stack) : CreditInv s' := by
  have htransport : s'.transport = s.transport := by
    rw [hs.transport]
    funext d
    by_cases hd : d = c
    · simp only [Credits.transport, Credits.setWindow, Credits.setLcb_lcb, hd, if_true]
      exact hl
    · simp [Credits.transport, Credits.setWindow, hd]
  have hsent : ∀ t, s'.sent t + (s.lcb c).sentOn t = s.sent t + l.sentOn t := by
    intro t
    rw [hs.sent_eq]
    exact sum_setLcb (LinkCb.sentOn t) s c l
  have hused : ∀ t, s'.used t + (s.lcb c).usedOn t = s.used t + l.usedOn t := by
    intro t
    rw [hs.used_eq]
    exact sum_setLcb (LinkCb.usedOn t) s c l
  refine ⟨?_, ?_, ?_, hstack⟩
  · intro t
    rw [hs.bufs]
    exact h.size t
  · intro t
    have hbal := h.balanced t
    have hsent' := hsent t
    rw [Credits.returning, htransport, hs.window, hs.bufs, Credits.setWindow_window]
    change _ = s.bufs t
    -- only the transport of the link has accounts that move
    by_cases ht : t = s.transport c
    · rw [← ht] at hown
      rw [if_pos ht]
      omega
    · have h₁ : (s.lcb c).sentOn t = 0 := if_neg fun hc => ht hc.2.symm
      have h₂ : l.sentOn t = 0 := if_neg fun hc => ht (hc.2.symm.trans hl)
      rw [if_neg ht, hother t ht]
      change s.window t + _ + _ = _
      omega
  · intro t
    have hlinks := h.links t
    have hrel' := hrel t
    have hused' := hused t
    rw [Credits.releasing, hs.links]
    change s.links t = _
    omega

theorem LinkCb.sentOn_self (hin : l.inUse = true) : l.sentOn l.transport = l.sentNotAcked :=
  if_pos ⟨hin, rfl⟩

/-- The packets of one link are among all that are out. -/
theorem sentNotAcked_le_sent (hin : (s.lcb c).inUse = true) :
    (s.lcb c).sentNotAcked ≤ s.sent (s.transport c) := by
  rw [← LinkCb.sentOn_self hin]
  exact Finset.single_le_sum (f := fun d => (s.lcb d).sentOn _) (fun d _ => Nat.zero_le _)
    (Finset.mem_univ c)

theorem sendToLower_same (s : Credits) (c : LcbId) (fs : List Frame) :
    SameAccounts
      ((s.setLcb c { s.lcb c with sentNotAcked := u16 ((s.lcb c).sentNotAcked + 1) }).setWindow
        (s.transport c) (sub16 (s.window (s.transport c)) 1))
      { l2cLinkSendToLower s c with stack := fs } := by
  simp only [l2cLinkSendToLower]
  split_ifs <;> exact ⟨fun _ => rfl, rfl, fun _ => rfl, rfl, rfl, rfl⟩

/-- A link in use is in use after one link in use has changed. -/
theorem inUse_of_same {w : Nat} (hs : SameAccounts ((s.setLcb c l).setWindow t w) s')
    (hin : l.inUse = true) {d : LcbId} (hd : (s.lcb d).inUse = true) : (s'.lcb d).inUse = true := by
  rw [hs.inUse]
  by_cases hdc : d = c
  · simpa [Credits.setWindow, hdc] using hin
  · simpa [Credits.setWindow, hdc] using hd

/-- A packet is sent on a link in use while the window is not empty. -/
theorem CreditInv.send (h : CreditInv s) (hin : (s.lcb c).inUse = true)
    (hwin : s.window (s.transport c) ≠ 0)
    (hret : ∀ t, (fs.map (Frame.returning s.transport t)).sum = s.returning t)
    (hrel : ∀ t, (fs.map (Frame.isReleasing t)).sum = s.releasing t)
    (hused : ∀ f ∈ fs, ∀ d, f.link = some d → (s.lcb d).inUse)
    (hunsent : ∀ f ∈ fs, f.unsent = false) :
    CreditInv { l2cLinkSendToLower s c with stack := fs } := by
  have hbal := h.balanced (s.transport c)
  have hsize := h.size (s.transport c)
  have hle := sentNotAcked_le_sent hin
  have hu : u16 ((s.lcb c).sentNotAcked + 1) = (s.lcb c).sentNotAcked + 1 := u16_of_lt (by omega)
  have hw : sub16 (s.window (s.transport c)) 1 = s.window (s.transport c) - 1 :=
    sub16_of_le (by omega) (by omega)
  have hsame := sendToLower_same s c fs
  rw [hu, hw] at hsame
  refine h.move hsame rfl ?_ (fun t _ => hret t) ?_ ⟨?_, ?_, ?_⟩
  · have hnew : LinkCb.sentOn (s.transport c)
        { s.lcb c with sentNotAcked := (s.lcb c).sentNotAcked + 1 } = (s.lcb c).sentNotAcked + 1 :=
      if_pos ⟨hin, rfl⟩
    have hold : (s.lcb c).sentOn (s.transport c) = (s.lcb c).sentNotAcked := if_pos ⟨hin, rfl⟩
    rw [hnew, hold]
    change _ + (fs.map _).sum = _
    rw [hret]
    omega
  · intro t
    change (fs.map _).sum + _ = _
    rw [hrel]
    rfl
  · intro f hf d hd
    exact inUse_of_same hsame hin (hused f hf d hd)
  · intro f hf hu
    rw [hunsent f hf] at hu
    cases hu
  · intro f hf
    exact hunsent f (List.mem_of_mem_tail hf)

theorem CreditInv.acknowledge (h : CreditInv s) (hstack : s.stack = [])
    (hin : (s.lcb c).inUse = true) {n : Nat} (hn : n ≤ (s.lcb c).sentNotAcked) :
    CreditInv { s.setLcb c { s.lcb c with sentNotAcked := (s.lcb c).sentNotAcked - n } with
      stack := [.completed c n] } := by
  have hsame : SameAccounts
      ((s.setLcb c { s.lcb c with sentNotAcked := (s.lcb c).sentNotAcked - n }).setWindow
        (s.transport c) (s.window (s.transport c)))
      { s.setLcb c { s.lcb c with sentNotAcked := (s.lcb c).sentNotAcked - n } with
        stack := [.completed c n] } := by
    refine ⟨fun _ => rfl, rfl, fun _ => rfl, ?_, rfl, rfl⟩
    exact (Function.update_eq_self (s.transport c) s.window).symm
  refine h.move hsame rfl ?_ ?_ ?_ ⟨?_, ?_, ?_⟩
  · have hnew : LinkCb.sentOn (s.transport c)
        { s.lcb c with sentNotAcked := (s.lcb c).sentNotAcked - n } = (s.lcb c).sentNotAcked - n :=
      if_pos ⟨hin, rfl⟩
    have hold : (s.lcb c).sentOn (s.transport c) = (s.lcb c).sentNotAcked := if_pos ⟨hin, rfl⟩
    rw [hnew, hold]
    simp [Frame.returning, Credits.returning, hstack]
    omega
  · intro t ht
    simp [Frame.returning, Credits.returning, hstack, Ne.symm ht]
  · intro t
    simp [Credits.releasing, hstack, Frame.isReleasing, LinkCb.usedOn]
  · simp [Frame.link, hin]
  · simp [Frame.unsent]
  · simp

/-- The acknowledged packets are free again. -/
theorem CreditInv.credit (h : CreditInv s) {n : Nat} {rest : List Frame}
    (hstack : s.stack = .completed c n :: rest) :
    CreditInv { creditWindow s c n with stack := .served c :: rest } := by
  have hframes := h.stack
  rw [hstack] at hframes
  have hin := hframes.used _ List.mem_cons_self c rfl
  have hbal := h.balanced (s.transport c)
  have hsize := h.size (s.transport c)
  have hret : ∀ t, s.returning t =
      (if s.transport c = t then n else 0) + (rest.map (Frame.returning s.transport t)).sum := by
    intro t
    simp [Credits.returning, hstack, Frame.returning]
  have hown := hret (s.transport c)
  rw [if_pos rfl] at hown
  -- window and returning packets are together within the buffers
  have hu : u16 (s.window (s.transport c) + n) = s.window (s.transport c) + n :=
    u16_of_lt (by omega)
  have hsame : SameAccounts ((s.setLcb c (s.lcb c)).setWindow (s.transport c)
      (s.window (s.transport c) + n)) { creditWindow s c n with stack := .served c :: rest } := by
    rw [← hu, Credits.setLcb, Function.update_eq_self]
    simp only [creditWindow]
    split_ifs <;> exact ⟨fun _ => rfl, rfl, fun _ => rfl, rfl, rfl, rfl⟩
  refine h.move hsame rfl ?_ ?_ ?_ ⟨?_, ?_, hframes.top⟩
  · simp only [List.map_cons, List.sum_cons, Frame.returning]
    omega
  · intro t ht
    rw [hret, if_neg (Ne.symm ht)]
    simp [Frame.returning]
  · intro t
    simp [Credits.releasing, hstack, Frame.isReleasing]
  · intro f hf d hd
    refine inUse_of_same hsame hin ?_
    rcases List.mem_cons.mp hf with rfl | hf
    · exact Option.some.inj hd ▸ hin
    · exact hframes.used f (List.mem_cons_of_mem _ hf) d hd
  · intro f hf hunsent
    rcases List.mem_cons.mp hf with rfl | hf
    · cases hunsent
    · rw [hframes.top f hf] at hunsent
      cases hunsent

theorem CreditInv.release (h : CreditInv s) (hstack : s.stack = [])
    (hin : (s.lcb c).inUse = true) : CreditInv (l2cuReleaseLcb s c) := by
  have hbal := h.balanced (s.transport c)
  have hsize := h.size (s.transport c)
  have hle := sentNotAcked_le_sent hin
  -- nothing is cut off: the window never gets larger than it was at the start
  have hwindow : (if (s.lcb c).sentNotAcked > 0 then
      if u16 (s.window (s.transport c) + (s.lcb c).sentNotAcked) > s.bufs (s.transport c)
        then s.bufs (s.transport c)
        else u16 (s.window (s.transport c) + (s.lcb c).sentNotAcked)
      else s.window (s.transport c)) = s.window (s.transport c) + (s.lcb c).sentNotAcked := by
    rw [u16_of_lt (by omega)]
    split_ifs <;> omega
  have hsame : SameAccounts
      ((s.setLcb c { s.lcb c with inUse := false, linkXmitDataQ := 0 }).setWindow (s.transport c)
        (s.window (s.transport c) + (s.lcb c).sentNotAcked)) (l2cuReleaseLcb s c) := by
    rw [← hwindow]
    exact ⟨fun _ => rfl, rfl, fun _ => rfl, rfl, rfl, rfl⟩
  have hframes : (l2cuReleaseLcb s c).stack = [.releasing (s.transport c)] := by
    simp only [l2cuReleaseLcb, hstack]
    rfl
  refine h.move hsame rfl ?_ ?_ ?_ ?_
  · have hnew : LinkCb.sentOn (s.transport c)
        { s.lcb c with inUse := false, linkXmitDataQ := 0 } = 0 := if_neg nofun
    have hold : (s.lcb c).sentOn (s.transport c) = (s.lcb c).sentNotAcked := if_pos ⟨hin, rfl⟩
    rw [hnew, hold, hframes]
    simp [Credits.returning, hstack, Frame.returning]
  · intro t _
    rw [hframes]
    simp [Credits.returning, hstack, Frame.returning]
  · intro t
    rw [hframes]
    simp [Credits.releasing, hstack, Frame.isReleasing, LinkCb.usedOn, hin, Credits.transport]
  · rw [hframes]
    exact ⟨by simp [Frame.link], by simp [Frame.unsent], by simp⟩

/-! ### Calls -/

/-- A call of `l2c_link_check_send_pkts`: nothing is going to be given back by it. -/
def Frame.isSending : Frame → Bool
  | .linkLoop _ _ | .chanLoop _ | .chanSend _ | .rrLoop _ _ _ | .rrSend _ _ _ => true
  | _ => false

theorem Frame.isSending_returning (h : f.isSending = true) (tr : LcbId → Transport)
    (t : Transport) : f.returning tr t = 0 := by
  cases f <;> first | rfl | cases h

theorem Frame.isSending_isReleasing (h : f.isSending = true) (t : Transport) :
    f.isReleasing t = 0 := by
  cases f <;> first | rfl | cases h

theorem CreditInv.enter (h : CreditInv s) (hs : SameAccounts s s')
    (hstack : s'.stack = f :: s.stack) (hf : f.isSending = true)
    (hfree : ∀ g ∈ s.stack, g.unsent = false) (hused : ∀ c, f.link = some c → (s.lcb c).inUse)
    (hready : f.unsent → ∀ c, f.link = some c → s.window (s.transport c) ≠ 0) : CreditInv s' := by
  refine h.restack hs ?_ ?_ ?_
  · intro t
    rw [hstack, List.map_cons, List.sum_cons, Frame.isSending_returning hf, Nat.zero_add]
    rfl
  · intro t
    rw [hstack, List.map_cons, List.sum_cons, Frame.isSending_isReleasing hf, Nat.zero_add]
    rfl
  · rw [hstack]
    exact h.stack.push hfree hused hready

theorem CreditInv.leave (h : CreditInv s) {rest : List Frame} (hstack : s.stack = f :: rest)
    (hf : f.isSending = true) : CreditInv { s with stack := rest } := by
  have hframes := h.stack
  rw [hstack] at hframes
  refine h.restack ⟨fun _ => rfl, rfl, fun _ => rfl, rfl, rfl, rfl⟩ ?_ ?_ hframes.rest
  · intro t
    rw [Credits.returning, hstack, List.map_cons, List.sum_cons, Frame.isSending_returning hf,
      Nat.zero_add]
  · intro t
    rw [Credits.releasing, hstack, List.map_cons, List.sum_cons, Frame.isSending_isReleasing hf,
      Nat.zero_add]

theorem CreditInv.goto (h : CreditInv s) {g : Frame} {rest : List Frame}
    (hstack : s.stack = f :: rest) (hf : f.isSending = true) (hg : g.isSending = true)
    (hused : ∀ c, g.link = some c → (s.lcb c).inUse)
    (hready : g.unsent → ∀ c, g.link = some c → s.window (s.transport c) ≠ 0) :
    CreditInv { s with stack := g :: rest } := by
  have hframes := h.stack
  rw [hstack] at hframes
  exact (h.leave hstack hf).enter ⟨fun _ => rfl, rfl, fun _ => rfl, rfl, rfl, rfl⟩ rfl hg
    hframes.top hused hready

/-- It sends a packet and goes on at the head of a loop. -/
theorem CreditInv.sendGoto (h : CreditInv s) {g : Frame} {rest : List Frame}
    (hstack : s.stack = f :: rest) (hf : f.isSending = true) (hg : g.isSending = true)
    (hloop : g.unsent = false) (hlink : ∀ d, g.link = some d → d = c)
    (hin : (s.lcb c).inUse = true) (hwin : s.window (s.transport c) ≠ 0) :
    CreditInv { l2cLinkSendToLower s c with stack := g :: rest } := by
  have hframes := h.stack
  rw [hstack] at hframes
  refine h.send hin hwin ?_ ?_ ?_ ?_
  · intro t
    simp [Credits.returning, hstack, Frame.isSending_returning hf, Frame.isSending_returning hg]
  · intro t
    simp [Credits.releasing, hstack, Frame.isSending_isReleasing hf, Frame.isSending_isReleasing hg]
  · intro e he d hd
    rcases List.mem_cons.mp he with rfl | he
    · rw [hlink d hd]
      exact hin
    · exact hframes.used e (List.mem_cons_of_mem _ he) d hd
  · intro e he
    rcases List.mem_cons.mp he with rfl | he
    · exact hloop
    · exact hframes.top e he

theorem queueOnLink_same (s : Credits) (c : LcbId) :
    SameAccounts s (queueOnLink s c) ∧ (queueOnLink s c).stack = s.stack := by
  have hset := SameAccounts.setLcb s c
    (l := { s.lcb c with linkXmitDataQ := (s.lcb c).linkXmitDataQ + 1 }) rfl rfl rfl
  simp only [queueOnLink]
  split_ifs
  · exact ⟨⟨hset.inUse, hset.transport, hset.sent, rfl, rfl, rfl⟩, rfl⟩
  · exact ⟨hset, rfl⟩

/-- `l2c_link_check_send_pkts` is called for a link in use, or for all links. Outside of a
congestion callback, no call under way may have an unsent packet. -/
theorem CreditInv.call (h : CreditInv s) {p : Option LcbId} {buf cong : Bool} {localCid : Nat}
    (hp : ∀ c, p = some c → (s.lcb c).inUse = true)
    (hfree : cong = false → ∀ g ∈ s.stack, g.unsent = false) :
    CreditInv (l2cLinkCheckSendPkts s p buf localCid cong) := by
  cases p with
  | none =>
    cases cong with
    | true => exact h
    | false =>
      exact h.enter (f := .rrLoop 16 0 (buf && localCid != 0))
        ⟨fun _ => rfl, rfl, fun _ => rfl, rfl, rfl, rfl⟩ rfl rfl (hfree rfl) (nofun) (nofun)
  | some c =>
    obtain ⟨hsame, hstack⟩ : SameAccounts s (if buf then queueOnLink s c else s) ∧
        (if buf then queueOnLink s c else s).stack = s.stack := by
      split
      · exact queueOnLink_same s c
      · exact ⟨.refl s, rfl⟩
    have hin := hp c rfl
    simp only [l2cLinkCheckSendPkts]
    generalize (if buf then queueOnLink s c else s) = s₁ at hsame hstack ⊢
    have h₁ : CreditInv s₁ := h.of_same hsame hstack
    have hfree₁ : cong = false → ∀ g ∈ s₁.stack, g.unsent = false := hstack ▸ hfree
    cases cong with
    | true => exact h₁
    | false =>
      have hsame₁ : ∀ fs, SameAccounts s₁ { s₁ with stack := fs } :=
        fun fs => ⟨fun _ => rfl, rfl, fun _ => rfl, rfl, rfl, rfl⟩
      simp only [Bool.false_eq_true, if_false]
      split_ifs
      · exact h₁.enter (f := .rrLoop 16 _ _) (hsame₁ _) rfl rfl (hfree₁ rfl) (nofun) (nofun)
      · exact h₁.enter (f := .rrLoop 16 _ _) (hsame₁ _) rfl rfl (hfree₁ rfl) (nofun) (nofun)
      · refine h₁.enter (f := .linkLoop c _) (hsame₁ _) rfl rfl (hfree₁ rfl) ?_ (nofun)
        intro d hd
        rw [← Option.some.inj hd, hsame.inUse]
        exact hin
      · exact h₁

/-! ### Steps -/

theorem sendToLower_stack (s : Credits) (c : LcbId) : (l2cLinkSendToLower s c).stack = s.stack := by
  simp only [l2cLinkSendToLower]
  split_ifs <;> rfl

/-- A packet of a link's own queue is sent. -/
theorem CreditInv.sendQueued (h : CreditInv s) {g : Frame} {rest : List Frame}
    (hstack : s.stack = f :: rest) (hf : f.isSending = true) (hg : g.isSending = true)
    (hloop : g.unsent = false) (hlink : ∀ d, g.link = some d → d = c)
    (hin : (s.lcb c).inUse = true) (hwin : s.window (s.transport c) ≠ 0) :
    CreditInv { Link.sendQueued s c with stack := g :: rest } := by
  have hset := SameAccounts.setLcb s c
    (l := { s.lcb c with linkXmitDataQ := (s.lcb c).linkXmitDataQ - 1 }) rfl rfl rfl
  have hwin' : s.window ((s.setLcb c { s.lcb c with
      linkXmitDataQ := (s.lcb c).linkXmitDataQ - 1 }).transport c) ≠ 0 := by
    rw [hset.transport]
    exact hwin
  exact (h.of_same hset rfl).sendGoto hstack hf hg hloop hlink ((hset.inUse c).trans hin) hwin'

theorem window_of_mayServe (h : mayServe s c = true) : s.window (s.transport c) ≠ 0 := by
  rw [mayServe, Bool.and_eq_true, bne_iff_ne] at h
  exact h.1

theorem CreditInv.rrTurn (h : CreditInv s) {left place : Nat} {singleWrite : Bool}
    {rest : List Frame} (hstack : s.stack = .rrLoop left place singleWrite :: rest)
    (k : Nat) (c : LcbId) (offer : Bool) :
    CreditInv (Link.rrTurn s k c singleWrite offer rest) := by
  have hnext : CreditInv { s with stack := .rrLoop k (c.val + 1) singleWrite :: rest } :=
    h.goto hstack rfl rfl (nofun) (nofun)
  simp only [Link.rrTurn]
  by_cases hwin : (s.window (s.lcb c).transport = 0 || s.roundRobinUnacked (s.lcb c).transport ≥
      s.roundRobinQuota (s.lcb c).transport) = true
  · rw [if_pos hwin]
    exact hnext
  rw [if_neg hwin]
  have hwindow : s.window (s.transport c) ≠ 0 := by
    intro hzero
    exact hwin (by rw [Bool.or_eq_true]; exact .inl (decide_eq_true hzero))
  by_cases hskip : (!(s.lcb c).inUse || !(s.lcb c).connected || (s.lcb c).linkXmitQuota != 0) = true
  · rw [if_pos hskip]
    exact hnext
  rw [if_neg hskip]
  have hin : (s.lcb c).inUse = true := by
    by_contra hnot
    exact hskip (by simp [hnot])
  split_ifs
  · exact h.sendQueued hstack rfl rfl rfl (nofun) hin hwindow
  · exact h.goto hstack rfl rfl (nofun) (nofun)
  · refine h.goto (g := .rrSend k c singleWrite) hstack rfl rfl ?_ fun _ => ?_
    · intro d hd
      exact Option.some.inj hd ▸ hin
    · intro d hd
      exact Option.some.inj hd ▸ hwindow
  · exact hnext

/-- The first free block of the pool becomes a link. -/
theorem CreditInv.alloc (h : CreditInv s) (halloc : l2cuAllocateLcb s t = some s') :
    CreditInv s' := by
  rw [l2cuAllocateLcb] at halloc
  cases hfind : (List.finRange 16).find? fun c => !(s.lcb c).inUse with
  | none =>
    rw [hfind] at halloc
    exact Option.some.inj halloc ▸ h
  | some c =>
    rw [hfind] at halloc
    have hfree : (s.lcb c).inUse = false := by
      simpa using List.find?_some hfind
    refine CreditInv.adjust_transport ?_ halloc
    -- a block that is not in use counts for nothing, and no call on the stack is about it
    have hold : ∀ t', (s.lcb c).sentOn t' = 0 ∧ (s.lcb c).usedOn t' = 0 := by
      intro t'
      simp [LinkCb.sentOn, LinkCb.usedOn, hfree]
    have hother : ∀ f ∈ s.stack, ∀ d, f.link = some d → d ≠ c := by
      intro f hf d hd hdc
      have hin := h.stack.used f hf d hd
      rw [hdc, hfree] at hin
      cases hin
    have htr : ∀ f ∈ s.stack, ∀ d, f.link = some d →
        (s.setLcb c { inUse := true, transport := t }).transport d = s.transport d := by
      intro f hf d hd
      simp [Credits.transport, hother f hf d hd]
    refine ⟨h.size, ?_, ?_, ?_, ?_, h.stack.top⟩
    · intro t'
      have hnew : LinkCb.sentOn t' { inUse := true, transport := t } = 0 := by
        simp [LinkCb.sentOn]
      have hsent : (s.setLcb c { inUse := true, transport := t }).sent t' + (s.lcb c).sentOn t'
          = s.sent t' + LinkCb.sentOn t' { inUse := true, transport := t } := sum_setLcb _ s c _
      rw [(hold t').1, hnew] at hsent
      have hret : (s.stack.map (Frame.returning
          (s.setLcb c { inUse := true, transport := t }).transport t')).sum = s.returning t' := by
        refine congrArg List.sum (List.map_congr_left fun f hf => ?_)
        cases f with
        | completed d n => simp only [Frame.returning, htr _ hf d rfl]
        | _ => rfl
      have hbal := h.balanced t'
      change s.window t' + (s.setLcb c { inUse := true, transport := t }).sent t'
        + (s.stack.map (Frame.returning (s.setLcb c { inUse := true, transport := t }).transport
          t')).sum = s.bufs t'
      rw [hret]
      omega
    · intro t'
      have hused : (s.setLcb c { inUse := true, transport := t }).used t' + (s.lcb c).usedOn t'
          = s.used t' + LinkCb.usedOn t' { inUse := true, transport := t } := sum_setLcb _ s c _
      rw [(hold t').2] at hused
      have hlinks := h.links t'
      change _ = (s.setLcb c { inUse := true, transport := t }).used t' + s.releasing t'
      rw [Credits.setLinks_links]
      by_cases ht : t' = t
      · have hnew : LinkCb.usedOn t' { inUse := true, transport := t } = 1 := by
          simp [LinkCb.usedOn, ht]
        rw [if_pos ht]
        change s.links t + 1 = _
        rw [← ht]
        rw [← ht] at hused hnew
        omega
      · have hnew : LinkCb.usedOn t' { inUse := true, transport := t } = 0 := by
          simp [LinkCb.usedOn, Ne.symm ht]
        rw [if_neg ht]
        change s.links t' = _
        omega
    · intro f hf d hd
      simpa [Credits.setLinks, hother f hf d hd] using h.stack.used f hf d hd
    · intro f hf hu d hd
      change s.window ((s.setLcb c { inUse := true, transport := t }).transport d) ≠ 0
      rw [htr f hf d hd]
      exact h.stack.ready f hf hu d hd

theorem CreditInv.finish (h : CreditInv s) {rest : List Frame}
    (hstack : s.stack = .releasing t :: rest)
    (hfin : releaseFinish { s with stack := rest } t = some s') : CreditInv s' := by
  refine CreditInv.adjust_transport ?_ hfin
  have hframes := h.stack
  rw [hstack] at hframes
  have hrel : ∀ t', s.releasing t' =
      (if t = t' then 1 else 0) + (rest.map (Frame.isReleasing t')).sum := by
    intro t'
    simp [Credits.releasing, hstack, Frame.isReleasing]
  have hpos : s.links t ≥ 1 := by
    have hlinks := h.links t
    rw [hrel t, if_pos rfl] at hlinks
    omega
  rw [if_pos hpos]
  refine ⟨h.size, ?_, ?_, hframes.rest.used, hframes.rest.ready, hframes.rest.top⟩
  · intro t'
    have hbal := h.balanced t'
    have hret : s.returning t' = (rest.map (Frame.returning s.transport t')).sum := by
      simp [Credits.returning, hstack, Frame.returning]
    rw [hret] at hbal
    exact hbal
  · intro t'
    have hlinks := h.links t'
    rw [hrel t'] at hlinks
    rw [Credits.setLinks_links]
    change _ = s.used t' + (rest.map (Frame.isReleasing t')).sum
    by_cases ht : t' = t
    · rw [if_pos ht, ← ht]
      rw [if_pos ht.symm] at hlinks
      change s.links t' - 1 = _
      omega
    · rw [if_neg ht]
      rw [if_neg (Ne.symm ht)] at hlinks
      change s.links t' = _
      omega

theorem rrFinish_same (s : Credits) (x : Option Transport) :
    SameAccounts s (rrFinish s x) ∧ (rrFinish s x).stack = s.stack := by
  cases x with
  | none => exact ⟨.refl s, rfl⟩
  | some t =>
    simp only [rrFinish]
    split_ifs <;> exact ⟨⟨fun _ => rfl, rfl, fun _ => rfl, rfl, rfl, rfl⟩, rfl⟩

theorem CreditInv.tick (h : CreditInv s) {offer : Bool} {past : Option Transport}
    (htick : Link.tick s offer past = some s') : CreditInv s' := by
  unfold Link.tick at htick
  cases hstack : s.stack with
  | nil =>
    rw [hstack] at htick
    exact Option.some.inj htick ▸ h
  | cons f rest =>
    rw [hstack] at htick
    have hframes := h.stack
    rw [hstack] at hframes
    have hin := fun c => hframes.used f List.mem_cons_self c
    cases f with
    | linkLoop c singleWrite =>
      obtain rfl := Option.some.inj htick
      -- a packet is taken from the link's own queue only while the window is open
      by_cases hserve : (mayServe s c && decide ((s.lcb c).linkXmitDataQ > 0)) = true
      · rw [if_pos hserve]
        rw [Bool.and_eq_true] at hserve
        have hsent := h.sendQueued (g := .linkLoop c singleWrite) hstack rfl rfl rfl
          (fun d hd => (Option.some.inj hd).symm) (hin c rfl) (window_of_mayServe hserve.1)
        rw [← hstack] at hsent
        have hsame : (Link.sendQueued s c).stack = s.stack := sendToLower_stack _ c
        rw [← hsame] at hsent
        exact hsent
      · rw [if_neg hserve]
        cases singleWrite with
        | true => exact h.leave hstack rfl
        | false => exact h.goto (g := .chanLoop c) hstack rfl rfl hin (nofun)
    | chanLoop c =>
      obtain rfl := Option.some.inj htick
      by_cases hserve : (mayServe s c && offer) = true
      · rw [if_pos hserve]
        rw [Bool.and_eq_true] at hserve
        refine h.goto (g := .chanSend c) hstack rfl rfl hin fun _ d hd => ?_
        exact Option.some.inj hd ▸ window_of_mayServe hserve.1
      · rw [if_neg hserve]
        exact h.leave hstack rfl
    | chanSend c =>
      obtain rfl := Option.some.inj htick
      exact h.sendGoto (g := .chanLoop c) hstack rfl rfl rfl (fun d hd => (Option.some.inj hd).symm)
        (hin c rfl) (hframes.ready _ List.mem_cons_self rfl c rfl)
    | rrLoop left place singleWrite =>
      cases left with
      | zero =>
        obtain rfl := Option.some.inj htick
        obtain ⟨hsame, hsameStack⟩ := rrFinish_same { s with stack := rest }
          (if hp : place < 16 then some (s.lcb ⟨place, hp⟩).transport else past)
        exact (h.leave hstack rfl).of_same hsame hsameStack
      | succ left =>
        obtain rfl := Option.some.inj htick
        exact h.rrTurn hstack left _ offer
    | rrSend left c singleWrite =>
      obtain rfl := Option.some.inj htick
      exact h.sendGoto (g := .rrLoop left (c.val + 1) singleWrite) hstack rfl rfl rfl (nofun)
        (hin c rfl) (hframes.ready _ List.mem_cons_self rfl c rfl)
    -- the acknowledged packets are counted before the call that sends again
    | completed c n =>
      obtain rfl := Option.some.inj htick
      have hcredit := h.credit hstack
      refine hcredit.call (fun d hd => ?_) fun _ g hg => ?_
      · exact hcredit.stack.used (.served c) List.mem_cons_self d hd
      · rcases List.mem_cons.mp hg with rfl | hg
        · rfl
        · exact hframes.top g hg
    | served c =>
      obtain rfl := Option.some.inj htick
      have hleave : CreditInv { s with stack := rest } := by
        refine h.restack ⟨fun _ => rfl, rfl, fun _ => rfl, rfl, rfl, rfl⟩ ?_ ?_ hframes.rest
        · intro t
          simp [Credits.returning, hstack, Frame.returning]
        · intro t
          simp [Credits.releasing, hstack, Frame.isReleasing]
      split_ifs
      · exact hleave.call (nofun) fun _ => hframes.top
      · exact hleave
    | releasing t =>
      exact h.finish hstack htick

/-! ### Runs -/

/-- The controller acknowledges no more packets of a handle than are out on it. -/
def CreditEvent.honest (s : Credits) : CreditEvent → Bool
  | .completed handle n => (l2cuFindLcbByHandle s handle).all fun c => n ≤ (s.lcb c).sentNotAcked
  | _ => true

/-- No callback that `l2cu_get_next_buffer_to_send` runs sends packets: outside of a congestion
callback, `l2c_link_check_send_pkts` is not called while a call of it has tested the window and not
sent its packet yet. -/
def CreditEvent.notReentrant (s : Credits) : CreditEvent → Bool
  | .checkSend _ _ _ cong => cong || s.stack.all fun f => !f.unsent
  | _ => true

/-- Every event of a run meets a condition on it and on the state before it. -/
def runMeets (cond : Credits → CreditEvent → Bool) : Credits → List CreditEvent → Bool
  | _, [] => true
  | s, e :: es =>
    cond s e && match creditStep s e with
      | some s' => runMeets cond s' es
      | none => true

theorem creditStep_inv (h : CreditInv s) {e : CreditEvent} (hhonest : e.honest s = true)
    (hcond : e.notReentrant s = true) (hstep : creditStep s e = some s') : CreditInv s' := by
  cases e with
  | alloc t => exact h.alloc hstep
  | setState c connected handle =>
    obtain rfl := Option.some.inj hstep
    exact h.of_same (.setLcb s c rfl rfl rfl) rfl
  | setPriority c high =>
    rw [creditStep] at hstep
    split at hstep
    · exact Option.some.inj hstep ▸ h
    · have hset : CreditInv (s.setLcb c { s.lcb c with highPriority := high }) :=
        h.of_same (.setLcb s c rfl rfl rfl) rfl
      rw [l2cLinkAdjustAllocation] at hstep
      exact hset.adjust hstep
  | release c =>
    rw [creditStep] at hstep
    split at hstep
    next hc => exact Option.some.inj hstep ▸ h.release hc.1 hc.2
    next => cases hstep
  | completed handle n =>
    rw [creditStep] at hstep
    split at hstep
    next hstack =>
      obtain rfl := Option.some.inj hstep
      simp only [CreditEvent.honest] at hhonest
      rw [l2cPacketsCompleted]
      cases hfind : l2cuFindLcbByHandle s handle with
      | none => exact h
      | some c =>
        rw [hfind] at hhonest
        have hin : (s.lcb c).inUse = true := by
          have hc := List.find?_some hfind
          rw [Bool.and_eq_true] at hc
          exact hc.1
        simp only [hstack]
        exact h.acknowledge hstack hin (by simpa using hhonest)
    next => cases hstep
  | checkSend p buf localCid cong =>
    rw [creditStep] at hstep
    split at hstep
    next hp =>
      obtain rfl := Option.some.inj hstep
      refine h.call hp fun hcong f hf => ?_
      simp only [CreditEvent.notReentrant, hcong, Bool.false_or] at hcond
      simpa using List.all_eq_true.mp hcond f hf
    next => cases hstep
  | tick offer past => exact h.tick hstep

theorem creditRun_inv (h : CreditInv s) {es : List CreditEvent}
    (hhonest : runMeets (fun s e => e.honest s) s es = true)
    (hcond : runMeets (fun s e => e.notReentrant s) s es = true)
    (hrun : creditRun s es = some s') : CreditInv s' := by
  induction es generalizing s with
  | nil => exact Option.some.inj hrun ▸ h
  | cons e es ih =>
    obtain ⟨s₁, hs₁, hrest⟩ := Option.bind_eq_some_iff.mp hrun
    rw [runMeets, hs₁, Bool.and_eq_true] at hhonest hcond
    exact ih (creditStep_inv h hhonest.1 hcond.1 hs₁) hhonest.2 hcond.2 hrest

/-- With separate buffers for LE, the accounts balance at the start. -/
theorem creditInv_init {aclBufs leBufs : UInt16} (hle : leBufs ≠ 0) :
    CreditInv (Credits.init aclBufs leBufs) := by
  have hinit : Credits.init aclBufs leBufs =
      { window := Transport.pick aclBufs.toNat leBufs.toNat
        bufs := Transport.pick aclBufs.toNat leBufs.toNat } := if_neg hle
  have hsent : ∀ t, (Credits.init aclBufs leBufs).sent t = 0 := by
    intro t
    rw [hinit]
    exact Finset.sum_eq_zero fun c _ => if_neg nofun
  have hused : ∀ t, (Credits.init aclBufs leBufs).used t = 0 := by
    intro t
    rw [hinit]
    exact Finset.sum_eq_zero fun c _ => if_neg nofun
  have hstack : (Credits.init aclBufs leBufs).stack = [] := by
    rw [hinit]
  refine ⟨?_, ?_, ?_, by simp [hstack], by simp [hstack], by simp [hstack]⟩
  · intro t
    rw [hinit]
    cases t
    · exact aclBufs.toNat_lt
    · exact leBufs.toNat_lt
  · intro t
    rw [hsent, Credits.returning, hstack, hinit]
    cases t <;> rfl
  · intro t
    rw [hused, Credits.releasing, hstack, hinit]
    rfl

/-- If the controller has buffers of its own for LE, then in every run in which no callback of
`l2cu_get_next_buffer_to_send` sends packets, the free buffers and the packets that are out add up
to all buffers of the transport, whenever no call is under way; while calls are under way, what
`l2c_packets_completed` is about to return comes on top. So the window is never decreased at zero.
-/
theorem credits_balanced {aclBufs leBufs : UInt16} (hle : leBufs ≠ 0) {es : List CreditEvent}
    (hhonest : runMeets (fun s e => e.honest s) (Credits.init aclBufs leBufs) es = true)
    (hcond : runMeets (fun s e => e.notReentrant s) (Credits.init aclBufs leBufs) es = true)
    {s : Credits} (hrun : creditRun (Credits.init aclBufs leBufs) es = some s) (t : Transport) :
    s.window t + s.sent t + s.returning t = s.bufs t ∧
      (s.stack = [] → s.window t + s.sent t = s.bufs t) := by
  have hbal := (creditRun_inv (creditInv_init hle) hhonest hcond hrun).balanced t
  refine ⟨hbal, fun hstack => ?_⟩
  have hnone : s.returning t = 0 := by
    rw [Credits.returning, hstack]
    rfl
  omega

/-- The first place of the pool. -/
def firstLcb : LcbId := ⟨0, Nat.succ_pos _⟩

/-- A link is set up, sends two packets and gets one acknowledged. -/
def oneLink : List CreditEvent :=
  [.alloc .brEdr, .setState firstLcb true (some 11), .checkSend (some firstLcb) true 0 false,
    .tick true none, .tick true none, .tick true none, .tick true none, .tick false none,
    .completed 11 1]

theorem credits_balanced_one_link :
    ∃ s, creditRun (Credits.init 4 2) oneLink = some s ∧ s.window .brEdr = 2 ∧
      s.sent .brEdr = 1 ∧ s.returning .brEdr = 1 ∧
      s.window .brEdr + s.sent .brEdr + s.returning .brEdr = s.bufs .brEdr := by
  have hout : (creditRun (Credits.init 4 2) oneLink).map
      (fun s => (s.window .brEdr, s.sent .brEdr, s.returning .brEdr)) = some (2, 1, 1) := by
    decide +kernel
  obtain ⟨s, hs, hval⟩ := Option.map_eq_some_iff.mp hout
  have hbal := credits_balanced (by decide) (by decide +kernel) (by decide +kernel) hs .brEdr
  simp only [Prod.mk.injEq] at hval
  exact ⟨s, hs, hval.1, hval.2.1, hval.2.2, hbal.1⟩

/-- A packet of the link is sent from a callback that runs while another packet is about to be
sent. -/
def reentrantSend : List CreditEvent :=
  [.alloc .le, .setState firstLcb true (some 11), .checkSend (some firstLcb) false 0 false,
    .tick true none, .tick true none, .checkSend (some firstLcb) false 0 false,
    .tick true none, .tick true none, .tick true none, .tick false none, .tick true none,
    .tick false none]

/-- Without the conditions the accounts do not balance. If LE shares the buffers of BR/EDR, one
buffer too many is free from the start. If a callback sends while another packet is about to be
sent, both take the last buffer and the window wraps around. -/
theorem credits_unbalanced :
    ((Credits.init 8 0).stack = [] ∧ (Credits.init 8 0).window .brEdr = 8 ∧
      (Credits.init 8 0).sent .brEdr = 0 ∧ (Credits.init 8 0).bufs .brEdr = 7) ∧
    ∃ s, creditRun (Credits.init 8 1) reentrantSend = some s ∧
      runMeets (fun s e => e.honest s) (Credits.init 8 1) reentrantSend = true ∧
      s.stack = [] ∧ s.window .le = 65535 ∧ s.sent .le = 2 ∧ s.bufs .le = 1 := by
  refine ⟨by decide +kernel, ?_⟩
  have hout : (creditRun (Credits.init 8 1) reentrantSend).map
      (fun s => (s.stack, s.window .le, s.sent .le, s.bufs .le)) = some ([], 65535, 2, 1) := by
    decide +kernel
  obtain ⟨s, hs, hval⟩ := Option.map_eq_some_iff.mp hout
  simp only [Prod.mk.injEq] at hval
  exact ⟨s, hs, by decide +kernel, hval.1, hval.2.1, hval.2.2.1, hval.2.2.2⟩

end BluetoothStack.L2cap.Link
