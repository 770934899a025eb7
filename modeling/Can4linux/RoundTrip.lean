/-
  Can4linux.RoundTrip

  `sendcanmsg` and `readcanmsg` on the two devices: what a load and a release do
  to a controller in either mode, and that `readcanmsg` gives back the message
  whose frame `sendcanmsg` wrote, both on a plain register image and from the
  transmit buffer of one controller to the receive buffer of another.
-/

import Can4linux.Codec

namespace Can4linux

/-! ## Plain memory -/

/-- A register image: every byte keeps what was written to it last. -/
structure RegImage where
  byte : Nat → U8

namespace RegImage

instance instChip : Chip RegImage where
  inb off c := (c.byte off, c)
  outb off v c := ⟨Function.update c.byte off v⟩

/-- The frame registers of an image in the layout of target `t`. -/
def frame (t : Target) (c : RegImage) : Frame := fun i => c.byte (t.stride * (16 + i))

variable {t : Target}

theorem frame_reg (c : RegImage) {i : Nat} (hi : i < 13) :
    (c.frame t).reg i = c.byte (t.stride * (16 + i)) := by
  simp [Frame.reg, frame, hi]

/-- An image shows its frame registers. -/
theorem shows_frame (c : RegImage) : Shows t c (c.frame t) := by
  intro r i hr hi
  rw [frame_reg c hi, ← hr, ← r.offset_eq]
  rfl

/-- A store into one frame register changes no other: the layouts do not overlap. -/
theorem frame_canOut (c : RegImage) {r : Reg} {i : Nat} (hr : r.number = 16 + i) (v : U8) :
    (canOut t r v c).frame t = (c.frame t).setReg i v := by
  funext j
  show Function.update c.byte (r.offset t) v (t.stride * (16 + j)) = _
  rw [r.offset_eq, hr]
  by_cases hj : j.val = i
  · rw [hj, Function.update_self]
    simp [Frame.setReg, hj]
  · have hne : t.stride * (16 + j) ≠ t.stride * (16 + i) := by
      intro h
      have := Nat.eq_of_mul_eq_mul_left t.stride_pos h
      omega
    rw [Function.update_of_ne hne]
    simp [Frame.setReg, hj, frame]

/-- The command register is none of the frame registers. -/
theorem frame_command (c : RegImage) (v : U8) : (canOut t .cancmd v c).frame t = c.frame t := by
  funext j
  show Function.update c.byte (Reg.cancmd.offset t) v (t.stride * (16 + j)) = _
  have hne : t.stride * (16 + j) ≠ Reg.cancmd.offset t := by
    rw [Reg.offset_eq]
    intro h
    have := Nat.eq_of_mul_eq_mul_left t.stride_pos h
    simp only [Reg.number] at this
    omega
  rw [Function.update_of_ne hne]
  rfl

/-- The image after a load holds the encoded frame. -/
theorem frame_loadFrame {m : Canmsg} (hm : m.rounds ≤ 8) (c : RegImage) :
    (loadFrame t m c).frame t = encodeFrame m (c.frame t) := by
  rw [loadFrame, frame_command]
  -- the relation every store keeps: the image holds exactly this frame
  exact writeFrame_rule (V := fun (c : RegImage) f => c.frame t = f)
    (fun r i v c f hr _ h => by rw [frame_canOut c hr, h]) hm rfl

end RegImage

/-! ## The controller -/

namespace Sja1000

variable {t : Target}

/-- In operating mode the frame registers show the oldest frame received. -/
theorem shows_head {c : Sja1000 t} (hop : c.inReset = false) {f : Frame} {fs : List Frame}
    (hfifo : c.rxfifo = f :: fs) : Shows t c f := by
  intro r i hr hi
  rw [canIn_frame _ hr hi]
  simp [frameReg, hop, hfifo]

/-- In operating mode a store into a frame register goes to the transmit buffer. -/
theorem canOut_txbuf {c : Sja1000 t} (hop : c.inReset = false) (r : Reg) (i : Nat) (v : U8)
    (c' : Sja1000 t) (f : Frame) (hr : r.number = 16 + i) (hi : i < 13)
    (hc : c' = { c with txbuf := f }) : canOut t r v c' = { c with txbuf := f.setReg i v } := by
  subst hc
  rw [canOut_frame _ _ hr hi, setFrameReg, if_neg]
  simpa [inReset] using hop

/-- In reset mode it goes to the acceptance filter. -/
theorem canOut_acc {c : Sja1000 t} (hres : c.inReset = true) (r : Reg) (i : Nat) (v : U8)
    (c' : Sja1000 t) (f : Frame) (hr : r.number = 16 + i) (hi : i < 13)
    (hc : c' = { c with acc := f }) : canOut t r v c' = { c with acc := f.setReg i v } := by
  subst hc
  rw [canOut_frame _ _ hr hi, setFrameReg, if_pos]
  simpa [inReset] using hres

/-- In operating mode a load fills the transmit buffer and starts transmission. -/
theorem loadFrame_operating {c : Sja1000 t} (hop : c.inReset = false) {m : Canmsg}
    (hm : m.rounds ≤ 8) :
    loadFrame t m c = { c with
      txbuf := encodeFrame m c.txbuf, tx := some (encodeFrame m c.txbuf) } := by
  have hwrite : writeFrame t m c = { c with txbuf := encodeFrame m c.txbuf } :=
    writeFrame_rule (canOut_txbuf hop) hm (f := c.txbuf) rfl
  rw [loadFrame, hwrite, canOut_cancmd]
  -- the writes leave the mode alone, so the request is taken
  have hop' : inReset ({ c with txbuf := encodeFrame m c.txbuf } : Sja1000 t) = false := hop
  simp [command, isSet, hop', canTransmissionRequest, canReleaseReceiveBuffer,
    canClearOverrunStatus]

/-- In reset mode a load overwrites the acceptance filter and transmits nothing. -/
theorem loadFrame_reset {c : Sja1000 t} (hres : c.inReset = true) {m : Canmsg}
    (hm : m.rounds ≤ 8) : loadFrame t m c = { c with acc := encodeFrame m c.acc } := by
  have hwrite : writeFrame t m c = { c with acc := encodeFrame m c.acc } :=
    writeFrame_rule (canOut_acc hres) hm (f := c.acc) rfl
  rw [loadFrame, hwrite, canOut_cancmd]
  -- a transmission request in reset mode is ignored
  have hres' : inReset ({ c with acc := encodeFrame m c.acc } : Sja1000 t) = true := hres
  simp [command, isSet, hres', canTransmissionRequest, canReleaseReceiveBuffer,
    canClearOverrunStatus]

/-- The release command removes the oldest frame and does nothing else. -/
@[simp] theorem command_release (c : Sja1000 t) :
    c.command canReleaseReceiveBuffer = { c with rxfifo := c.rxfifo.tail } := by
  simp [command, isSet, canTransmissionRequest, canReleaseReceiveBuffer, canClearOverrunStatus]

/-- Clearing the overrun status does nothing else. -/
@[simp] theorem command_clearOverrun (c : Sja1000 t) :
    c.command canClearOverrunStatus = { c with overrun := false } := by
  simp [command, isSet, canTransmissionRequest, canReleaseReceiveBuffer, canClearOverrunStatus]

/-- `readcanmsg` in operating mode decodes the oldest frame and removes it. -/
theorem readcanmsg_operating {c : Sja1000 t} (hop : c.inReset = false) {f : Frame}
    {fs : List Frame} (hfifo : c.rxfifo = f :: fs) (inf : Msginf) (msg : Canmsg) :
    readcanmsg t inf msg c = (decodeMsg inf msg f, { c with rxfifo := fs }) := by
  rw [readcanmsg_of_shows (shows_head hop hfifo), canOut_cancmd, command_release, hfifo,
    List.tail_cons]

end Sja1000

/-! ## Receiving undoes sending -/

/-- A message without a delay is loaded at once. -/
theorem waits_of_noDelay (baud : CInt) {m : Canmsg} (h : m.timestamp.tvUsec = 0) :
    waits baud m.capLength = false := by
  have h' : m.capLength.timestamp.tvUsec = 0 := h
  simp [waits, requestedDelay, h']

/-- A length in the range of the format is not capped. -/
theorem Canmsg.capLength_eq {m : Canmsg} (h8 : m.length.toInt ≤ 8) : m.capLength = m := by
  have hn : ¬ (8 : BitVec 16).slt m.length = true := by
    rw [BitVec.slt_iff_toInt_lt]
    have : (8 : BitVec 16).toInt = 8 := by decide
    omega
  rw [Canmsg.capLength, if_neg hn]

/-- What `sendcanmsg` does with a message that has no delay and a proper length. -/
theorem sendcanmsg_noDelay {σ : Type} [Chip σ] (t : Target) {m : Canmsg}
    (hdly : m.timestamp.tvUsec = 0) (h8 : m.length.toInt ≤ 8) (s : Chan σ) :
    (sendcanmsg t m s).2.2.chip = loadFrame t m s.chip := by
  have hw := waits_of_noDelay s.sys.baud hdly
  rw [Canmsg.capLength_eq h8] at hw
  simp [sendcanmsg, Canmsg.capLength_eq h8, hw]

/-- From controller to controller: once the frame that `sendcanmsg` loaded is the
    oldest one received, `readcanmsg` gives the message back, whatever the layouts. -/
theorem sameFrame_received {t t' : Target} {m : Canmsg} (hdly : m.timestamp.tvUsec = 0)
    (h0 : 0 ≤ m.length.toInt) (h8 : m.length.toInt ≤ 8)
    {s : Chan (Sja1000 t)} (hs : s.chip.inReset = false)
    {c : Sja1000 t'} (hc : c.inReset = false) {f : Frame} {fs : List Frame}
    (hsent : (sendcanmsg t m s).2.2.chip.tx = some f) (hfifo : c.rxfifo = f :: fs)
    (rxstatus : CInt) (tstamp : Timeval) (slot : Canmsg) :
    m.SameFrame (readcanmsg t' ⟨presetFlags rxstatus, tstamp⟩ slot c).1 := by
  rw [sendcanmsg_noDelay t hdly h8, Sja1000.loadFrame_operating hs (Canmsg.rounds_eq h0 h8).2]
    at hsent
  -- the frame that was sent is the encoded one
  obtain rfl := Option.some.inj hsent
  rw [Sja1000.readcanmsg_operating hc hfifo]
  exact sameFrame_decodeMsg h0 h8 rxstatus tstamp slot _

/-- **Receiving undoes sending.**  In either register layout, `readcanmsg` on the
    register image that `sendcanmsg` wrote gives back the message. -/
theorem readcanmsg_sendcanmsg (t : Target) {m : Canmsg} (hdly : m.timestamp.tvUsec = 0)
    (h0 : 0 ≤ m.length.toInt) (h8 : m.length.toInt ≤ 8) (s : Chan RegImage)
    (rxstatus : CInt) (tstamp : Timeval) (slot : Canmsg) :
    m.SameFrame
      (readcanmsg t ⟨presetFlags rxstatus, tstamp⟩ slot (sendcanmsg t m s).2.2.chip).1 := by
  rw [sendcanmsg_noDelay t hdly h8]
  -- the image shows the encoded frame, and nothing but the frame is decoded
  have hframe := RegImage.frame_loadFrame (t := t) (Canmsg.rounds_eq h0 h8).2 s.chip
  have hshows := RegImage.shows_frame (t := t) (loadFrame t m s.chip)
  rw [hframe] at hshows
  rw [readcanmsg_of_shows hshows]
  exact sameFrame_decodeMsg h0 h8 rxstatus tstamp slot _

/-- An extended remote frame whose identifier is wider than the field, on the PCI board. -/
theorem readcanmsg_sendcanmsg_pci :
    (Canmsg.mk (msgExt ||| msgRtr) 0 0xF2345678 ⟨0, 0⟩ 3 (fun i => 0x10 + i.val)).SameFrame
      (readcanmsg .cpcPci ⟨presetFlags bufOverrun, ⟨7, 0⟩⟩ Canmsg.zero
        (sendcanmsg .cpcPci (Canmsg.mk (msgExt ||| msgRtr) 0 0xF2345678 ⟨0, 0⟩ 3
          (fun i => 0x10 + i.val))
          (Chan.coreInit .cpcPci 0 5 0x320 (RegImage.mk fun _ => 0))).2.2.chip).1 :=
  readcanmsg_sendcanmsg .cpcPci (by decide) (by decide) (by decide) _ _ _ _

end Can4linux
