import Mathlib.Data.Nat.Notation
import Mathlib.Data.List.Basic

/-!
# Interface names of rails

`tbrxe_ndev_name()` names the interface of a rail after the peer, so that the udev helper
`tbv-rdma-ifname` does not have to rename it.  Both keep the alphanumeric characters of the peer's
name and use the last eleven of them.  The helper filters the whole name for ASCII letters and
digits; the kernel function stops after fifteen characters, and `isalnum()` of the kernel accepts
the letters of Latin-1 too.
-/

namespace ThunderboltStack.Rxe

/-- `isalnum()` of the kernel, a lookup in the Latin-1 table `_ctype`. -/
def isalnum (c : UInt8) : Bool :=
  (48 ≤ c && c ≤ 57) || (65 ≤ c && c ≤ 90) || (97 ≤ c && c ≤ 122) ||
    (192 ≤ c && c != 215 && c != 247)

/-- `IFNAMSIZ`. -/
def ifNameSize : ℕ := 16

/-- `"tbr-"`. -/
def railPrefix : List UInt8 := [116, 98, 114, 45]

/-- The field `remote_name` of `struct tbframe_link_info`. -/
structure RemoteName where
  bytes : List UInt8
  size : bytes.length = 48
  terminated : 0 ∈ bytes

def RemoteName.str (r : RemoteName) : List UInt8 :=
  r.bytes.takeWhile (· != 0)

/-- The loop of `tbrxe_ndev_name()` over the rest of the field, with the contents of `alnum`. -/
def filterAlnum : List UInt8 → List UInt8 → List UInt8
  | [], alnum => alnum
  | c :: rest, alnum =>
    if c ≠ 0 ∧ alnum.length < ifNameSize - 1 then
      filterAlnum rest (if isalnum c then alnum ++ [c] else alnum)
    else alnum

/-- The string that `snprintf()` leaves in a buffer. -/
def snprintf (buflen : ℕ) (text : List UInt8) : List UInt8 :=
  text.take (buflen - 1)

def tbrxeNdevName (buflen : ℕ) (r : RemoteName) : List UInt8 :=
  let alnum := filterAlnum r.bytes []
  let start := if 11 < alnum.length then alnum.length - 11 else 0
  snprintf buflen (railPrefix ++ alnum.drop start)

def tbvPeerNameShow (r : RemoteName) : List UInt8 :=
  r.str ++ [10]

/-! ## The helper -/

/-- The set `A-Za-z0-9` of `tr`. -/
def asciiAlnum (c : UInt8) : Bool :=
  (65 ≤ c && c ≤ 90) || (97 ≤ c && c ≤ 122) || (48 ≤ c && c ≤ 57)

/-- The set `0-9a-f` of `tr`. -/
def hexDigit (c : UInt8) : Bool :=
  (48 ≤ c && c ≤ 57) || (97 ≤ c && c ≤ 102)

/-- `tail -c`. -/
def tailBytes (n : ℕ) (text : List UInt8) : List UInt8 :=
  text.drop (text.length - n)

/-- What the helper reads: the attributes of the interface, of its parent and of the local router.
A missing attribute reads as nothing. -/
structure NetAttrs where
  peerUuid : List UInt8
  peerName : List UInt8
  route : List UInt8
  deviceName : List UInt8
  deviceId : List UInt8
  hostId : List UInt8
  anyHostId : List UInt8

def orElse (text other : List UInt8) : List UInt8 :=
  if text = [] then other else text

/-- The route by which the helper names the end of a self-loop. -/
def NetAttrs.loopRoute (a : NetAttrs) : List UInt8 :=
  let peer := a.peerUuid.filter hexDigit
  let host := orElse (a.hostId.filter hexDigit) (a.anyHostId.filter hexDigit)
  if peer ≠ [] ∧ peer = host then a.route.filter hexDigit else []

/-- `tbv-rdma-ifname`: what it prints.  Without output the interface is not renamed. -/
def tbvRdmaIfname (a : NetAttrs) : List UInt8 :=
  let host := orElse (a.peerName.filter asciiAlnum) (a.deviceName.filter asciiAlnum)
  let uid := orElse (a.peerUuid.filter hexDigit) (a.deviceId.filter hexDigit)
  if a.loopRoute ≠ [] then railPrefix ++ [108, 111] ++ tailBytes 9 a.loopRoute
  else if host ≠ [] then railPrefix ++ tailBytes 11 host
  else if uid ≠ [] then railPrefix ++ uid.take 12
  else []

def RemoteName.alnum (r : RemoteName) : List UInt8 :=
  r.str.filter isalnum

def RemoteName.ascii (r : RemoteName) : List UInt8 :=
  r.str.filter asciiAlnum

/-- With at most fifteen alphanumeric characters, the last eleven are ASCII.  With more, the eleven
before the cut are repeated at the end of the name. -/
def RemoteName.Nameable (r : RemoteName) : Prop :=
  if r.alnum.length ≤ 15 then ∀ c ∈ tailBytes 11 r.alnum, asciiAlnum c
  else (r.alnum.drop 4).take 11 = tailBytes 11 r.ascii

section Names

/-- The loop keeps the first fifteen alphanumeric characters of the string. -/
theorem filterAlnum_eq (bytes alnum : List UInt8) (hlen : alnum.length ≤ 15) :
    filterAlnum bytes alnum =
      alnum ++ ((bytes.takeWhile (· != 0)).filter isalnum).take (15 - alnum.length) := by
  induction bytes generalizing alnum with
  | nil => simp [filterAlnum]
  | cons c rest ih =>
    unfold filterAlnum
    by_cases hc : c = 0
    · simp [hc]
    by_cases hfull : alnum.length < 15
    · rw [if_pos ⟨hc, by simpa [ifNameSize] using hfull⟩]
      by_cases halnum : isalnum c = true
      · have hstep : 15 - alnum.length = (15 - (alnum ++ [c]).length) + 1 := by
          rw [List.length_append, List.length_singleton]
          omega
        rw [if_pos halnum, ih _ (by rw [List.length_append, List.length_singleton]; omega),
          List.takeWhile_cons_of_pos (by simpa using hc), List.filter_cons_of_pos halnum, hstep,
          List.take_succ_cons, List.append_assoc, List.singleton_append]
      · rw [if_neg halnum, ih _ hlen, List.takeWhile_cons_of_pos (by simpa using hc),
          List.filter_cons_of_neg halnum]
    · have hroom : 15 - alnum.length = 0 := by omega
      rw [if_neg fun h ↦ hfull (by simpa [ifNameSize] using h.2), hroom, List.take_zero,
        List.append_nil]

/-- Every ASCII letter or digit is alphanumeric for the kernel. -/
theorem isalnum_of_asciiAlnum {c : UInt8} (h : asciiAlnum c = true) : isalnum c = true := by
  simp only [asciiAlnum, isalnum, Bool.or_eq_true, Bool.and_eq_true] at h ⊢
  tauto

theorem tailBytes_of_le {n : ℕ} {text : List UInt8} (h : text.length ≤ n) :
    tailBytes n text = text := by
  simp [tailBytes, Nat.sub_eq_zero_of_le h]

theorem tailBytes_append {n : ℕ} (front : List UInt8) {back : List UInt8} (h : back.length = n) :
    tailBytes n (front ++ back) = back := by
  simp [tailBytes, h]

theorem length_tailBytes_le (n : ℕ) (text : List UInt8) : (tailBytes n text).length ≤ n := by
  rw [tailBytes, List.length_drop]
  omega

/-- Filtering before the tail is taken makes no difference if the tail passes the filter. -/
theorem tailBytes_filter_iff {n : ℕ} (p : UInt8 → Bool) (text : List UInt8) :
    tailBytes n text = tailBytes n (text.filter p) ↔ ∀ c ∈ tailBytes n text, p c := by
  constructor
  · intro heq c hc
    rw [heq] at hc
    exact List.of_mem_filter (List.mem_of_mem_drop hc)
  · intro hall
    have hfilter : (tailBytes n text).filter p = tailBytes n text := List.filter_eq_self.2 hall
    by_cases hlen : text.length ≤ n
    · rw [tailBytes_of_le hlen] at hfilter
      rw [hfilter]
    · let front := text.take (text.length - n)
      have hsplit : front ++ tailBytes n text = text := List.take_append_drop ..
      have hback : (tailBytes n text).length = n := by
        rw [tailBytes, List.length_drop]
        omega
      calc
        tailBytes n text = tailBytes n (front.filter p ++ tailBytes n text) :=
          (tailBytes_append _ hback).symm
        _ = tailBytes n ((front ++ tailBytes n text).filter p) := by
          rw [List.filter_append, hfilter]
        _ = tailBytes n (text.filter p) := by rw [hsplit]

/-- The name that the kernel gives. -/
theorem tbrxeNdevName_eq (r : RemoteName) :
    tbrxeNdevName ifNameSize r = railPrefix ++ tailBytes 11 (r.alnum.take 15) := by
  have halnum : filterAlnum r.bytes [] = r.alnum.take 15 := by
    exact filterAlnum_eq r.bytes [] (Nat.zero_le _)
  have hstart : (if 11 < (r.alnum.take 15).length then (r.alnum.take 15).length - 11 else 0) =
      (r.alnum.take 15).length - 11 := by
    split <;> omega
  have hlen : (railPrefix ++ tailBytes 11 (r.alnum.take 15)).length ≤ ifNameSize - 1 := by
    have htail := length_tailBytes_le 11 (r.alnum.take 15)
    rw [List.length_append]
    simp only [railPrefix, ifNameSize, List.length_cons, List.length_nil]
    omega
  simp only [tbrxeNdevName, halnum, hstart]
  exact List.take_of_length_le hlen

/-- The name that the helper prints for a link that is no self-loop. -/
theorem tbvRdmaIfname_eq (r : RemoteName) (a : NetAttrs) (hname : a.peerName = tbvPeerNameShow r)
    (hloop : a.loopRoute = []) (hascii : ∃ c ∈ r.str, asciiAlnum c) :
    tbvRdmaIfname a = railPrefix ++ tailBytes 11 r.ascii := by
  have hfilter : a.peerName.filter asciiAlnum = r.ascii := by
    rw [hname, tbvPeerNameShow, List.filter_append, RemoteName.ascii]
    exact List.append_nil _
  have hne : r.ascii ≠ [] := by
    obtain ⟨c, hc, hletter⟩ := hascii
    exact List.ne_nil_of_mem (List.mem_filter.2 ⟨hc, hletter⟩)
  simp [tbvRdmaIfname, hloop, hfilter, orElse, hne]

/-- The kernel and the helper give a rail the same name exactly if the cut after fifteen characters
and the Latin-1 letters do not show in its last eleven characters. -/
theorem rail_names_agree_iff (r : RemoteName) (a : NetAttrs)
    (hname : a.peerName = tbvPeerNameShow r) (hloop : a.loopRoute = [])
    (hascii : ∃ c ∈ r.str, asciiAlnum c) :
    tbrxeNdevName ifNameSize r = tbvRdmaIfname a ↔ r.Nameable := by
  have hfilter : r.ascii = r.alnum.filter asciiAlnum := by
    rw [RemoteName.alnum, List.filter_filter, RemoteName.ascii]
    apply List.filter_congr
    intro c _
    by_cases hc : asciiAlnum c = true
    · simp [hc, isalnum_of_asciiAlnum hc]
    · simp [hc]
  rw [tbrxeNdevName_eq, tbvRdmaIfname_eq r a hname hloop hascii, List.append_cancel_left_eq,
    RemoteName.Nameable]
  split
  · next hshort =>
    rw [List.take_of_length_le hshort, hfilter]
    exact tailBytes_filter_iff asciiAlnum r.alnum
  · next hlong =>
    have hcut : (r.alnum.take 15).length = 15 := by
      rw [List.length_take]
      omega
    have hwindow : tailBytes 11 (r.alnum.take 15) = (r.alnum.drop 4).take 11 := by
      rw [tailBytes, hcut, List.drop_take]
    rw [hwindow]

end Names

def remoteName (text : List UInt8) (h : text.length < 48) : RemoteName where
  bytes := text ++ List.replicate (48 - text.length) 0
  size := by
    rw [List.length_append, List.length_replicate]
    omega
  terminated := by
    apply List.mem_append_right
    rw [List.mem_replicate]
    exact ⟨by omega, rfl⟩

def railAttrs (r : RemoteName) : NetAttrs where
  peerUuid := [97]
  peerName := tbvPeerNameShow r
  route := [49]
  deviceName := []
  deviceId := []
  hostId := [98]
  anyHostId := []

/-- `appmana-019`. -/
def shortHost : RemoteName :=
  remoteName [97, 112, 112, 109, 97, 110, 97, 45, 48, 49, 57] (by decide)

/-- `render-station-019`, with sixteen letters and digits. -/
def longHost : RemoteName :=
  remoteName [114, 101, 110, 100, 101, 114, 45, 115, 116, 97, 116, 105, 111, 110, 45, 48, 49, 57]
    (by decide)

theorem rail_names_agree_short :
    tbrxeNdevName ifNameSize shortHost = tbvRdmaIfname (railAttrs shortHost) ∧
      shortHost.Nameable := by
  have hnameable : shortHost.Nameable := by
    unfold RemoteName.Nameable
    decide +kernel
  exact ⟨(rail_names_agree_iff shortHost (railAttrs shortHost) rfl (by decide +kernel)
    (by decide +kernel)).2 hnameable, hnameable⟩

/-- The kernel calls the rail to `render-station-019` `tbr-erstation01`, the helper
`tbr-rstation019`. -/
theorem rail_names_differ :
    (∃ c ∈ longHost.str, asciiAlnum c) ∧ (railAttrs longHost).loopRoute = [] ∧
      (railAttrs longHost).peerName = tbvPeerNameShow longHost ∧
      tbrxeNdevName ifNameSize longHost ≠ tbvRdmaIfname (railAttrs longHost) := by
  decide +kernel

end ThunderboltStack.Rxe
