import ThunderboltStack.Tbnet.Xmit

/-!
# Receiving frames

`tbnet_check_frame` and the loop of `tbnet_poll`: the first frame of a packet becomes the linear
part of an skb, every further one a fragment.
-/

namespace ThunderboltStack.Tbnet

/-- A frame from the receive ring. -/
structure RxFrame where
  frame : Frame
  crcError : Bool := false
  overrun : Bool := false
  /-- `build_skb` finds memory, if it is called for this frame. -/
  built : Bool := true

/-- An skb under construction. -/
structure RxSkb where
  linear : List UInt8
  frags : List (List UInt8) := []
  deriving DecidableEq

def RxSkb.bytes (skb : RxSkb) : List UInt8 := skb.linear ++ skb.frags.flatten

/-- What the receiver keeps between frames: `net->skb` and `net->rx_hdr`. -/
structure Rx where
  skb : Option RxSkb
  rxHdr : FrameHeader

/-- The counters that `tbnet_check_frame` increments. -/
inductive RxError
  | crc
  | overrun
  | length
  | missed
  deriving DecidableEq

def checkFrame (net : Rx) (rf : RxFrame) : Except RxError Unit :=
  let hdr := rf.frame.hdr
  if rf.crcError then .error .crc
  else if rf.overrun then .error .overrun
  else if rf.frame.fullSize ≤ headerSize then .error .length
  else if rf.frame.fullSize - headerSize < hdr.frameSize ∨ hdr.frameSize = 0 then .error .length
  else
    match net.skb with
    | some skb =>
      if net.rxHdr.frameCount ≠ 0 then
        if hdr.frameCount ≠ net.rxHdr.frameCount then .error .length
        else if hdr.frameIndex ≠ net.rxHdr.frameIndex + 1 ∨ hdr.frameId ≠ net.rxHdr.frameId then
          .error .missed
        else if maxMtu < skb.bytes.length + hdr.frameSize then .error .length
        else .ok ()
      else checkStart hdr
    | none => checkStart hdr
where
  /-- The start of a packet. -/
  checkStart (hdr : FrameHeader) : Except RxError Unit :=
    if hdr.frameCount = 0 ∨ maxSkbFrags + 1 < hdr.frameCount then .error .length
    else if hdr.frameIndex ≠ 0 then .error .missed
    else .ok ()

/-- The end of the loop body of `tbnet_poll`: the last frame of a packet completes the skb. -/
def takeFrame (hdr : FrameHeader) (skb : RxSkb) : Rx × Option RxSkb :=
  if hdr.frameIndex = hdr.frameCount - 1 then ({ skb := none, rxHdr := hdr }, some skb)
  else ({ skb := some skb, rxHdr := hdr }, none)

/-- A frame in the loop of `tbnet_poll`: the receiver behind it, and the skb that goes to the
stack. -/
def pollFrame (net : Rx) (rf : RxFrame) : Rx × Option RxSkb :=
  match checkFrame net rf with
  | .error _ => ({ net with skb := none }, none)
  | .ok _ =>
    let data := rf.frame.data.take rf.frame.hdr.frameSize
    match net.skb with
    | none => if rf.built then takeFrame rf.frame.hdr { linear := data } else (net, none)
    | some skb => takeFrame rf.frame.hdr { skb with frags := skb.frags ++ [data] }

/-- The receiver over the frames of the ring, and the packets that go to the stack. -/
def poll (net : Rx) : List RxFrame → Rx × List RxSkb
  | [] => (net, [])
  | rf :: rfs =>
    let step := pollFrame net rf
    let rest := poll step.1 rfs
    (rest.1, step.2.toList ++ rest.2)

end ThunderboltStack.Tbnet
