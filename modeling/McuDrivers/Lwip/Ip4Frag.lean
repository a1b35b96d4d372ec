import McuDrivers.Lwip.IpHdr
import McuDrivers.Lwip.Mem
import McuDrivers.Lwip.Port

set_option autoImplicit false

/-! # lwIP: `ip4_frag.c`

How a datagram is cut into fragments, and put together from them again. A packet is its header and the
chain of what is behind it; the first pbuf of the chain is the one that the header is in. A fragment
that is queued has the place it covers instead of its header. A failed assertion, or a NULL pointer
that is read, ends the call. -/

namespace Lwip

open Eth

structure IpPacket where
  hdr : IpHdr
  body : Pbuf
deriving DecidableEq

/-- The bytes of a chain. -/
def Pbuf.data (p : Pbuf) : List Byte := p.flatten

/-- `p->tot_len` -/
def IpPacket.totLen (p : IpPacket) : Nat := ipHlen + p.body.data.length

/-- Conversion to `u16_t`. -/
def u16T (n : Nat) : Nat := n % 2 ^ 16

def htonsNat (n : Nat) : BitVec 16 := lwipHtons (BitVec.ofNat 16 n)

/-! ## `ip4_frag` -/

/-- The PBUF_REFs for the next `leftToCopy` bytes: a custom pbuf is allocated for each pbuf that some
    of them lie in. Returns them with what is left of the chain and of the `allocs` allocations, or
    none when these do not suffice. -/
def mirrorPbufs : (p : Pbuf) → (leftToCopy allocs : Nat) → Except String (Option (Pbuf × Pbuf × Nat))
  | p, 0, allocs => .ok (some ([], p, allocs))
  | [], _ + 1, _ => .error "p == NULL"
  | payload :: p, leftToCopy + 1, allocs =>
      let newpbuflen := min (leftToCopy + 1) payload.length
      if newpbuflen = 0 then mirrorPbufs p (leftToCopy + 1) allocs
      else
        match allocs with
        | 0 => .ok none
        | allocs + 1 =>
            let newpbuf := payload.take newpbuflen
            if leftToCopy + 1 - newpbuflen = 0 then
              .ok (some ([newpbuf], payload.drop newpbuflen :: p, allocs))
            else do
              let mirrored ← mirrorPbufs p (leftToCopy + 1 - newpbuflen) allocs
              .ok (mirrored.map fun (refs, rest, allocs) => (newpbuf :: refs, rest, allocs))

/-- The fragment at offset `ofo` with `body`, of `left` bytes that are still to be sent. -/
def fragmentHdr (originalIphdr : IpHdr) (mtu left fragsize ofo : Nat) (mfSet : Bool)
    (payload : Word) : IpHdr :=
  let last := (left : Int) ≤ (mtu : Int) - ipHlen
  let tmp := ipOffmask &&& BitVec.ofNat 16 ofo
  let tmp := if ¬ last ∨ mfSet then tmp ||| ipMf else tmp
  { originalIphdr with offset := lwipHtons tmp, len := htonsNat (fragsize + ipHlen) }.setChksum
    payload []

/-- `(u16_t)((netif->mtu - IP_HLEN) / 8)` -/
def fragBlocks (mtu : Nat) : Nat := (((mtu : Int) - ipHlen).tdiv 8 % 2 ^ 16).toNat

/-- The loop of `ip4_frag`, for `fuel` rounds: returns the fragments sent, and whether all could be
    allocated. -/
def ip4FragLoop (originalIphdr : IpHdr) (mtu : Nat) (mfSet : Bool) (payload : Word) :
    (fuel : Nat) → (p : Pbuf) → (left ofo allocs : Nat) → Except String (List IpPacket × Int)
  | 0, _, left, _, _ => if left = 0 then .ok ([], errOk) else .error "out of fuel"
  | fuel + 1, p, left, ofo, allocs =>
      if left = 0 then .ok ([], errOk)
      else
        let fragsize := min left (u16T (fragBlocks mtu * 8))
        match allocs with
        | 0 => .ok ([], errMem)
        | allocs + 1 => do
            match ← mirrorPbufs p fragsize allocs with
            | none => .ok ([], errMem)
            | some (refs, p, allocs) =>
                let hdr := fragmentHdr originalIphdr mtu left fragsize ofo mfSet payload
                let (sent, err) ← ip4FragLoop originalIphdr mtu mfSet payload fuel p (left - fragsize)
                  (u16T (ofo + fragBlocks mtu)) allocs
                .ok (⟨hdr, [] :: refs⟩ :: sent, err)

def errVal : Int := -6

/-- `ip4_frag`, with a loop of `fuel` rounds at most, on an interface of the given `mtu`, where `allocs`
    allocations succeed. The header of each fragment is written at `payload`. -/
def ip4Frag (fuel : Nat) (p : IpPacket) (mtu : Nat) (payload : Word) (allocs : Nat) :
    Except String (List IpPacket × Int) :=
  if p.hdr.hlBytes ≠ ipHlen then .ok ([], errVal)
  else
    let tmp := lwipHtons p.hdr.offset
    let ofo := (tmp &&& ipOffmask).toNat
    let mfSet := tmp &&& ipMf ≠ 0#16
    ip4FragLoop p.hdr mtu mfSet payload fuel p.body (u16T (p.totLen - ipHlen)) ofo allocs

/-! ## `ip4_reass` -/

def ipReassMaxPbufs : Nat := 10
def ipReassMaxage : Nat := 15
def mempNumReassdata : Nat := 5
def ipReassFlagLastfrag : Byte := 0x01#8

/-- `struct ip_reass_helper`, and the chain that it heads. -/
structure ReassHelper where
  start : Nat
  stop : Nat
  pbufs : Pbuf
deriving DecidableEq

/-- `struct ip_reassdata`. The chain `p` is linked by `next_pbuf`. -/
structure ReassData where
  p : List ReassHelper
  iphdr : IpHdr
  datagramLen : Nat
  flags : Byte
  timer : Nat

/-- `reassdatagrams` and `ip_reass_pbufcount`, and the packets that ICMP time exceeded was sent for. -/
structure Reass where
  datagrams : List ReassData
  pbufcount : Nat
  timeExceeded : List IpPacket

def Reass.init : Reass := ⟨[], 0, []⟩

/-- `IP_ADDRESSES_AND_ID_MATCH` -/
def addressesAndIdMatch (a b : IpHdr) : Prop := a.src = b.src ∧ a.dest = b.dest ∧ a.id = b.id

instance (a b : IpHdr) : Decidable (addressesAndIdMatch a b) :=
  inferInstanceAs (Decidable (_ ∧ _ ∧ _))

/-- `pbuf_clen` of what is queued. -/
def ReassHelper.clen (q : ReassHelper) : Nat := q.pbufs.length

def ReassData.clen (ipr : ReassData) : Nat := (ipr.p.map ReassHelper.clen).sum

/-- `ip_reass_free_complete_datagram` for the datagram at `i` of the list. -/
def ipReassFreeCompleteDatagram (s : Reass) (i : Nat) : Except String (Nat × Reass) :=
  match s.datagrams[i]? with
  | none => .error "ipr == NULL"
  | some ipr =>
      match ipr.p with
      | [] => .error "ipr->p == NULL"
      | iprh :: _ => do
          let timeExceeded := if iprh.start = 0 then [⟨ipr.iphdr, iprh.pbufs⟩] else []
          let pbufsFreed := ipr.clen
          lwipAssert "pbufs_freed + clen <= 0xffff" (pbufsFreed ≤ 0xffff)
          lwipAssert "ip_reass_pbufcount >= pbufs_freed" (pbufsFreed ≤ s.pbufcount)
          .ok (pbufsFreed, {
            datagrams := s.datagrams.eraseIdx i
            pbufcount := s.pbufcount - pbufsFreed
            timeExceeded := s.timeExceeded ++ timeExceeded })

/-- The walk of `ip_reass_tmr` from the datagram at `i` on, over the `n` that are left. -/
def ipReassTmrFrom : (n i : Nat) → Reass → Except String Reass
  | 0, _, s => .ok s
  | n + 1, i, s =>
      match s.datagrams[i]? with
      | none => .ok s
      | some r =>
          if 0 < r.timer then
            ipReassTmrFrom n (i + 1)
              { s with datagrams := s.datagrams.set i { r with timer := r.timer - 1 } }
          else do
            let (_, s) ← ipReassFreeCompleteDatagram s i
            ipReassTmrFrom n i s

def ipReassTmr (s : Reass) : Except String Reass := ipReassTmrFrom s.datagrams.length 0 s

/-- The search for `oldest` among the datagrams that `fraghdr` does not belong to; of several with the
    least timer it is the last. Returns its place and its timer. -/
def findOldest (fraghdr : IpHdr) : List ReassData → (i : Nat) → (oldest : Option (Nat × Nat)) →
    Option (Nat × Nat)
  | [], _, oldest => oldest
  | r :: rest, i, oldest =>
      if addressesAndIdMatch r.iphdr fraghdr then findOldest fraghdr rest (i + 1) oldest
      else
        match oldest with
        | none => findOldest fraghdr rest (i + 1) (some (i, r.timer))
        | some (j, timer) =>
            if r.timer ≤ timer then findOldest fraghdr rest (i + 1) (some (i, r.timer))
            else findOldest fraghdr rest (i + 1) (some (j, timer))

/-- The loop of `ip_reass_remove_oldest_datagram`. Each round frees a datagram, so that as many rounds
    as there are datagrams suffice. -/
def removeOldestLoop (fraghdr : IpHdr) (pbufsNeeded : Nat) :
    (rounds : Nat) → (pbufsFreed : Nat) → Reass → Except String (Nat × Reass)
  | 0, pbufsFreed, s => .ok (pbufsFreed, s)
  | rounds + 1, pbufsFreed, s =>
      let otherDatagrams := s.datagrams.countP fun r => ¬ addressesAndIdMatch r.iphdr fraghdr
      match findOldest fraghdr s.datagrams 0 none with
      | none => .ok (pbufsFreed, s)
      | some (oldest, _) => do
          let (pbufsFreedCurrent, s) ← ipReassFreeCompleteDatagram s oldest
          let pbufsFreed := pbufsFreed + pbufsFreedCurrent
          if pbufsFreed < pbufsNeeded ∧ 1 < otherDatagrams then
            removeOldestLoop fraghdr pbufsNeeded rounds pbufsFreed s
          else .ok (pbufsFreed, s)

def ipReassRemoveOldestDatagram (s : Reass) (fraghdr : IpHdr) (pbufsNeeded : Nat) :
    Except String (Nat × Reass) :=
  removeOldestLoop fraghdr pbufsNeeded s.datagrams.length 0 s

/-- A new entry. -/
def ReassData.new (fraghdr : IpHdr) : ReassData :=
  { p := [], iphdr := fraghdr, datagramLen := 0, flags := 0#8, timer := ipReassMaxage }

/-- The new entry goes to the front of the list. -/
def Reass.push (s : Reass) (fraghdr : IpHdr) : Reass :=
  { s with datagrams := ReassData.new fraghdr :: s.datagrams }

/-- `ip_reass_enqueue_new_datagram`; returns whether there was an entry left for it. -/
def ipReassEnqueueNewDatagram (s : Reass) (fraghdr : IpHdr) (clen : Nat) :
    Except String (Bool × Reass) :=
  if s.datagrams.length < mempNumReassdata then .ok (true, s.push fraghdr)
  else do
    let (freed, s) ← ipReassRemoveOldestDatagram s fraghdr clen
    if clen ≤ freed ∧ s.datagrams.length < mempNumReassdata then .ok (true, s.push fraghdr)
    else .ok (false, s)

/-- The loop that looks for the place of a fragment in the chain, from `q` on. Returns the fragments
    before that place and those behind it, and `valid`; or none when the fragment is thrown away. -/
def findPlace (iprh : ReassHelper) : (prev : Option ReassHelper) → (q : List ReassHelper) →
    (valid : Bool) → Except String (Option (List ReassHelper × List ReassHelper × Bool))
  | none, [], valid => .ok (some ([], [], valid))
  | some prev, [], valid => do
      lwipAssert "check fragments don't overlap" (prev.stop ≤ iprh.start)
      .ok (some ([], [], valid && prev.stop == iprh.start))
  | prev, tmp :: rest, valid =>
      if iprh.start < tmp.start then
        match prev with
        | some prev =>
            if iprh.start < prev.stop ∨ tmp.start < iprh.stop then .ok none
            else .ok (some ([], tmp :: rest, valid && prev.stop == iprh.start))
        | none =>
            if tmp.start < iprh.stop then .ok none
            else .ok (some ([], tmp :: rest, valid))
      else if iprh.start = tmp.start then .ok none
      else if iprh.start < tmp.stop then .ok none
      else do
        let valid :=
          match prev with
          | some prev => valid && prev.stop == tmp.start
          | none => valid
        let place ← findPlace iprh (some tmp) rest valid
        .ok (place.map fun (before, behind, valid) => (tmp :: before, behind, valid))

/-- No holes after this datagram: each fragment of `q` starts where the one before it ends. -/
def noHoles : (prev : ReassHelper) → (q : List ReassHelper) → Bool
  | _, [] => true
  | prev, iprh :: q => prev.stop == iprh.start && noHoles iprh q

/-- `IP_REASS_VALIDATE_*` -/
inductive ReassValidate
  | telegramFinished
  | pbufQueued
  | pbufDropped
deriving DecidableEq

/-- `ip_reass_chain_frag_into_datagram_and_validate` -/
def ipReassChainFrag (ipr : ReassData) (newP : IpPacket) (isLast : Bool) :
    Except String (ReassValidate × ReassData) :=
  let len := newP.hdr.lenBytes
  let hlen := newP.hdr.hlBytes
  if len < hlen then .ok (.pbufDropped, ipr)
  else
    let len := len - hlen
    let offset := newP.hdr.offsetBytes
    let iprh : ReassHelper := { start := offset, stop := u16T (offset + len), pbufs := newP.body }
    if iprh.stop < offset then .ok (.pbufDropped, ipr)
    else do
      match ← findPlace iprh none ipr.p true with
      | none => .ok (.pbufDropped, ipr)
      | some (before, behind, valid) =>
          let ipr := { ipr with p := before ++ iprh :: behind }
          if isLast ∨ ipr.flags &&& ipReassFlagLastfrag ≠ 0#8 then
            let valid := valid && (ipr.p.head?.map ReassHelper.start == some 0) && noHoles iprh behind
            if valid then
              lwipAssert "sanity check" (before ≠ [] ∨ behind ≠ [])
              .ok (.telegramFinished, ipr)
            else .ok (.pbufQueued, ipr)
          else .ok (.pbufQueued, ipr)

/-- The datagram that is complete, with the header of its first fragment. -/
def ReassData.telegram (ipr : ReassData) (payload : Word) : IpPacket :=
  { hdr := { ipr.iphdr with
      len := htonsNat (u16T (ipr.datagramLen + ipHlen)), offset := 0#16 }.setChksum payload []
    body := ipr.p.flatMap ReassHelper.pbufs }

/-- `nullreturn_ipr` for the datagram at `i`. -/
def nullreturnIpr (s : Reass) (i : Nat) (ipr : ReassData) : Except String (Option IpPacket × Reass) :=
  if ipr.p = [] then do
    lwipAssert "not firstalthough just enqueued" (i = 0)
    .ok (none, { s with datagrams := s.datagrams.eraseIdx i })
  else .ok (none, s)

/-- The header of the first fragment replaces that of another one. -/
def ReassData.refreshHdr (ipr : ReassData) (fraghdr : IpHdr) : ReassData :=
  if lwipHtons fraghdr.offset &&& ipOffmask = 0#16
      ∧ lwipHtons ipr.iphdr.offset &&& ipOffmask ≠ 0#16 then
    { ipr with iphdr := fraghdr }
  else ipr

/-- The last fragment gives the datagram its length. -/
def ReassData.noteLast (ipr : ReassData) (datagramLen : Nat) (isLast : Bool) : ReassData :=
  if isLast then { ipr with datagramLen, flags := ipr.flags ||| ipReassFlagLastfrag } else ipr

/-- `(IPH_OFFSET(fraghdr) & PP_NTOHS(IP_MF)) == 0` -/
def IpHdr.isLast (h : IpHdr) : Bool := h.offset &&& lwipHtons ipMf = 0#16

/-- `ip4_reass` from where the datagram of the fragment is `ipr`, at `i` of the list. -/
def ip4ReassInto (s : Reass) (p : IpPacket) (i : Nat) (ipr : ReassData) (payload : Word) :
    Except String (Option IpPacket × Reass) :=
  let clen := p.body.length
  let offset := p.hdr.offsetBytes
  let len := p.hdr.lenBytes - p.hdr.hlBytes
  let isLast := p.hdr.isLast
  let datagramLen := u16T (offset + len)
  if isLast ∧ (datagramLen < offset ∨ 0xffff - ipHlen < datagramLen) then nullreturnIpr s i ipr
  else do
    match ← ipReassChainFrag ipr p isLast with
    | (.pbufDropped, ipr) => nullreturnIpr s i ipr
    | (valid, ipr) =>
        let pbufcount := u16T (s.pbufcount + clen)
        let ipr := ipr.noteLast datagramLen isLast
        if valid = .telegramFinished then
          let telegram := ipr.telegram payload
          let clen := telegram.body.length
          lwipAssert "ip_reass_pbufcount >= clen" (clen ≤ pbufcount)
          .ok (some telegram,
            { s with datagrams := s.datagrams.eraseIdx i, pbufcount := u16T (pbufcount - clen) })
        else .ok (none, { s with datagrams := s.datagrams.set i ipr, pbufcount })

/-- `ip4_reass` once there is room for the pbufs of `p`. -/
def ip4ReassQueue (s : Reass) (p : IpPacket) (payload : Word) :
    Except String (Option IpPacket × Reass) :=
  let i := s.datagrams.findIdx fun ipr => addressesAndIdMatch ipr.iphdr p.hdr
  match s.datagrams[i]? with
  | some ipr =>
      let ipr := ipr.refreshHdr p.hdr
      ip4ReassInto { s with datagrams := s.datagrams.set i ipr } p i ipr payload
  | none => do
      let (enqueued, s) ← ipReassEnqueueNewDatagram s p.hdr p.body.length
      match enqueued, s.datagrams with
      | true, ipr :: _ => ip4ReassInto s p 0 ipr payload
      | _, _ => .ok (none, s)

/-- `ip4_reass`; the header of a complete datagram is written at `payload`. -/
def ip4Reass (s : Reass) (p : IpPacket) (payload : Word) : Except String (Option IpPacket × Reass) :=
  if p.hdr.hlBytes ≠ ipHlen then .ok (none, s)
  else if p.hdr.lenBytes < p.hdr.hlBytes then .ok (none, s)
  else
    let clen := p.body.length
    if ipReassMaxPbufs < s.pbufcount + clen then do
      let (freed, s) ← ipReassRemoveOldestDatagram s p.hdr clen
      if freed = 0 ∨ ipReassMaxPbufs < s.pbufcount + clen then .ok (none, s)
      else ip4ReassQueue s p payload
    else ip4ReassQueue s p payload

end Lwip
