import McuDrivers.Lwip.ReassComplete

set_option autoImplicit false

/-! # lwIP: what `ip4_frag` cuts a datagram into

The fragments follow one another from the first byte of the datagram on, and each fits the interface.
The flag that says that more follow is taken from how much is left before a fragment, and compared with
what the interface could send instead of what the fragment holds. -/

namespace Lwip

open Span

/-! ## The chain of a fragment -/

theorem Pbuf.data_cons (payload : List Eth.Byte) (p : Pbuf) :
    Pbuf.data (payload :: p) = payload ++ Pbuf.data p := rfl

/-- What the PBUF_REFs hold, and what they take: of the allocations one for each pbuf that they touch. -/
inductive Mirrored (p : Pbuf) (n allocs : Nat) : Option (Pbuf × Pbuf × Nat) → Prop
  | done {refs rest : Pbuf} {allocs' : Nat} (hrefs : refs.data = p.data.take n)
      (hrest : rest.data = p.data.drop n) (hallocs : allocs' + refs.length = allocs)
      (hlength : refs.length + rest.length ≤ p.length + 1) :
      Mirrored p n allocs (some (refs, rest, allocs'))
  | memerr (hallocs : allocs < p.length) : Mirrored p n allocs none

theorem mirrorPbufs_spec {p : Pbuf} {n : Nat} (allocs : Nat) (hn : n ≤ p.data.length) :
    ∃ r, mirrorPbufs p n allocs = .ok r ∧ Mirrored p n allocs r := by
  induction p generalizing n allocs with
  | nil =>
    obtain rfl : n = 0 := Nat.le_zero.mp hn
    exact ⟨_, rfl, .done rfl rfl rfl (by simp)⟩
  | cons payload p ih =>
    cases n with
    | zero => exact ⟨_, rfl, .done rfl rfl rfl (by simp)⟩
    | succ n =>
      rw [Pbuf.data_cons, List.length_append] at hn
      simp only [mirrorPbufs]
      by_cases hempty : min (n + 1) payload.length = 0
      · -- an empty pbuf is passed
        have hnil : payload = [] := List.eq_nil_of_length_eq_zero (by omega)
        rw [if_pos hempty]
        subst hnil
        obtain ⟨r, hrun, hr⟩ := ih (n := n + 1) allocs (by simpa using hn)
        refine ⟨r, hrun, ?_⟩
        cases hr with
        | done hrefs hrest hallocs hlength =>
          refine .done hrefs hrest hallocs ?_
          rw [List.length_cons]
          omega
        | memerr hallocs => exact .memerr (by rw [List.length_cons]; omega)
      rw [if_neg hempty]
      cases allocs with
      | zero => exact ⟨none, rfl, .memerr (Nat.succ_pos _)⟩
      | succ allocs =>
        by_cases hdone : n + 1 ≤ payload.length
        · have hmin : min (n + 1) payload.length = n + 1 := Nat.min_eq_left hdone
          rw [hmin, Nat.sub_self]
          dsimp only
          rw [if_pos rfl]
          refine ⟨_, rfl, .done ?_ ?_ rfl ?_⟩
          · rw [Pbuf.data_cons, Pbuf.data_cons, List.take_append_of_le_length hdone]
            simp [Pbuf.data]
          · rw [Pbuf.data_cons, Pbuf.data_cons, List.drop_append_of_le_length hdone]
          · simp only [List.length_cons, List.length_nil]
            omega
        · -- the whole pbuf, and more from those behind it
          have hmin : min (n + 1) payload.length = payload.length := Nat.min_eq_right (by omega)
          rw [hmin]
          dsimp only
          rw [if_neg (by omega : ¬ n + 1 - payload.length = 0)]
          obtain ⟨r, hrun, hr⟩ := ih (n := n + 1 - payload.length) allocs (by omega)
          refine ⟨_, by rw [hrun]; rfl, ?_⟩
          cases hr with
          | memerr hallocs => exact .memerr (by rw [List.length_cons]; omega)
          | done hrefs hrest hallocs hlength =>
            refine .done ?_ ?_ ?_ ?_
            · rw [Pbuf.data_cons, Pbuf.data_cons, hrefs, List.take_length, List.take_append,
                List.take_of_length_le (by omega : payload.length ≤ n + 1)]
            · rw [Pbuf.data_cons, hrest, List.drop_append,
                List.drop_of_length_le (by omega : payload.length ≤ n + 1), List.nil_append]
            · rw [List.length_cons]
              dsimp only
              omega
            · rw [List.length_cons, List.length_cons]
              dsimp only
              omega

/-! ## The header of a fragment -/

section Header

variable {orig : IpHdr} {mtu left fragsize ofo : Nat} {mfSet : Bool} {payload : Eth.Word}

theorem fragmentHdr_verifies :
    ~~~internetSum (fragmentHdr orig mtu left fragsize ofo mfSet payload).bytes = 0#16 :=
  IpHdr.setChksum_nil_verifies _ payload

theorem fragmentHdr_lenBytes (hlen : fragsize + ipHlen < 65536) :
    (fragmentHdr orig mtu left fragsize ofo mfSet payload).lenBytes = fragsize + ipHlen :=
  lenBytes_htonsNat _ rfl hlen

theorem offmask_ofNat (hofo : ofo < 8192) : ipOffmask &&& BitVec.ofNat 16 ofo = BitVec.ofNat 16 ofo := by
  refine BitVec.eq_of_toNat_eq ?_
  rw [BitVec.toNat_and, BitVec.toNat_ofNat, show ipOffmask.toNat = 2 ^ 13 - 1 from rfl, Nat.and_comm,
    Nat.and_two_pow_sub_one_eq_mod]
  omega

/-- The offset field of a fragment holds its offset, and the flag unless nothing is taken to follow. -/
theorem fragmentHdr_offset (hofo : ofo < 8192) :
    lwipHtons (fragmentHdr orig mtu left fragsize ofo mfSet payload).offset
      = if (left : Int) ≤ (mtu : Int) - ipHlen ∧ mfSet = false then BitVec.ofNat 16 ofo
        else BitVec.ofNat 16 ofo ||| ipMf := by
  simp only [fragmentHdr, IpHdr.setChksum, lwipHtons_lwipHtons, offmask_ofNat hofo]
  by_cases hlast : (left : Int) ≤ (mtu : Int) - ipHlen
  · cases mfSet <;> simp [hlast]
  · simp [hlast]

theorem fragmentHdr_offsetBytes (hofo : ofo < 8192) :
    (fragmentHdr orig mtu left fragsize ofo mfSet payload).offsetBytes = ofo * 8 := by
  have hmask : BitVec.ofNat 16 ofo &&& ipOffmask = BitVec.ofNat 16 ofo := by
    rw [BitVec.and_comm, offmask_ofNat hofo]
  have hnat : (BitVec.ofNat 16 ofo).toNat = ofo := by
    rw [BitVec.toNat_ofNat]
    omega
  rw [IpHdr.offsetBytes, fragmentHdr_offset hofo]
  split
  · rw [hmask, hnat]
  · rw [BitVec.and_comm, BitVec.and_or_distrib_left, BitVec.and_comm _ (BitVec.ofNat 16 ofo), hmask,
      show ipOffmask &&& ipMf = 0#16 from rfl, BitVec.or_zero, hnat]

theorem fragmentHdr_isLast (hofo : ofo < 8192) (hmtu : ipHlen ≤ mtu) :
    (fragmentHdr orig mtu left fragsize ofo mfSet payload).isLast = true
      ↔ left ≤ mtu - ipHlen ∧ mfSet = false := by
  have hle : (left : Int) ≤ (mtu : Int) - ipHlen ↔ left ≤ mtu - ipHlen := by omega
  have hmf : BitVec.ofNat 16 ofo &&& ipMf = 0#16 := by
    rw [← offmask_ofNat hofo, BitVec.and_comm ipOffmask, BitVec.and_assoc,
      show ipOffmask &&& ipMf = 0#16 from rfl, BitVec.and_zero]
  rw [IpHdr.isLast_iff, fragmentHdr_offset hofo]
  simp only [hle]
  split
  case isTrue hlast => simp only [hmf, hlast, and_self]
  case isFalse hmore =>
    rw [BitVec.and_comm, BitVec.and_or_distrib_left, BitVec.and_comm _ (BitVec.ofNat 16 ofo), hmf,
      BitVec.zero_or, BitVec.and_self]
    exact iff_of_false (by decide) hmore

end Header

/-! ## The loop -/

section Loop

variable {orig : IpHdr} {mtu left ofo allocs till fuel : Nat} {mfSet : Bool} {payload : Eth.Word}
  {data : List Eth.Byte} {p refs : Pbuf} {f : IpPacket}

/-- The bytes of a fragment that is not the last. -/
def fragBytes (mtu : Nat) : Nat := fragBlocks mtu * 8

theorem fragBlocks_eq (hmtu : ipHlen ≤ mtu) (hmax : mtu < 65536) : fragBlocks mtu = (mtu - ipHlen) / 8 := by
  unfold ipHlen at hmtu
  have hsub : (mtu : Int) - (ipHlen : Nat) = ((mtu - ipHlen : Nat) : Int) := by
    unfold ipHlen
    omega
  rw [fragBlocks, hsub, Int.tdiv_eq_ediv_of_nonneg (Int.natCast_nonneg _)]
  unfold ipHlen
  omega

/-- A fragment of the bytes of `data` up to `till`. It holds as many as there are, and as the interface
    takes; whether it is the last is taken from what the interface takes. -/
structure CutFrom (orig : IpHdr) (mtu : Nat) (mfSet : Bool) (data : List Eth.Byte) (till : Nat)
    (f : IpPacket) : Prop where
  hlBytes : f.hdr.hlBytes = ipHlen
  key_eq : f.hdr.key = orig.key
  trimmed : f.hdr.lenBytes = f.totLen
  pbufs : f.body ≠ []
  verifies : ~~~internetSum f.hdr.bytes = 0#16
  slice : SliceOf data f.body.data f.hdr.offsetBytes
  before : f.hdr.offsetBytes < till
  length : f.body.data.length = min (till - f.hdr.offsetBytes) (fragBytes mtu)
  isLast : f.hdr.isLast = true ↔ till - f.hdr.offsetBytes ≤ mtu - ipHlen ∧ mfSet = false

theorem CutFrom.stop_eq (hf : CutFrom orig mtu mfSet data till f) :
    f.helper.stop = f.hdr.offsetBytes + f.body.data.length := by
  rw [IpPacket.helper, hf.hlBytes, hf.trimmed, IpPacket.totLen, Nat.add_sub_cancel_left]

/-- A fragment that more follow is full. -/
theorem CutFrom.stop_of_more {start : Nat} (hf : CutFrom orig mtu mfSet data till f)
    (hstart : f.hdr.offsetBytes = start) (hmore : fragBytes mtu < till - start) :
    f.helper.stop = start + fragBytes mtu := by
  rw [hf.stop_eq, hf.length, hstart]
  omega

/-- A full fragment leaves the bytes of the last one as many as they are. -/
theorem sub_fragBytes_mod {start : Nat} (hmore : fragBytes mtu < till - start) :
    (till - (start + fragBytes mtu) - 1) % fragBytes mtu = (till - start - 1) % fragBytes mtu := by
  rw [show till - start - 1 = till - (start + fragBytes mtu) - 1 + fragBytes mtu by omega,
    Nat.add_mod_right]

/-- What is sent of the bytes from `start` to `till`. -/
structure Fragments (orig : IpHdr) (mtu : Nat) (mfSet : Bool) (data : List Eth.Byte) (start till : Nat)
    (sent : List IpPacket) (err : Int) : Prop where
  joined : Adjoined start (sent.map IpPacket.helper)
  each : ∀ f ∈ sent, CutFrom orig mtu mfSet data till f
    ∧ (till - f.hdr.offsetBytes - 1) % fragBytes mtu = (till - start - 1) % fragBytes mtu
  err_or : err = errOk ∨ err = errMem
  whole : err = errOk → endOf start (sent.map IpPacket.helper) = till
  part : err = errMem → endOf start (sent.map IpPacket.helper) < till
  lastButOne : err = errOk → fragBytes mtu < till - start →
    ∃ before f last, sent = before ++ [f, last]
      ∧ till - f.hdr.offsetBytes = fragBytes mtu + ((till - start - 1) % fragBytes mtu + 1)

theorem Fragments.memerr {start : Nat} (hmore : start < till) :
    Fragments orig mtu mfSet data start till [] errMem where
  joined := trivial
  each := by simp
  err_or := .inr rfl
  whole h := absurd h (by decide)
  part _ := hmore
  lastButOne h := absurd h (by decide)

/-- Nothing is sent behind a fragment that all fits into. -/
theorem Fragments.single {start : Nat} {sent : List IpPacket}
    (h : Fragments orig mtu mfSet data start till sent errOk) (hmore : start < till)
    (hlast : till - start ≤ fragBytes mtu) : ∃ f, sent = [f] := by
  have hwhole := h.whole rfl
  cases sent with
  | nil => exact absurd hwhole (Nat.ne_of_lt hmore)
  | cons f sent =>
    cases sent with
    | nil => exact ⟨f, rfl⟩
    | cons g sent =>
      obtain ⟨hf_start, hg_start, -⟩ := h.joined
      have hf := (h.each f (List.mem_cons_self ..)).1
      have hg := (h.each g (List.mem_cons_of_mem _ (List.mem_cons_self ..))).1.before
      have hf_stop := hf.stop_eq
      have hf_length := hf.length
      change f.hdr.offsetBytes = start at hf_start
      change g.hdr.offsetBytes = f.helper.stop at hg_start
      omega

/-- One round. -/
theorem cutFrom_fragment (mfSet : Bool) (payload : Eth.Word) (horig : orig.hlBytes = ipHlen)
    (hmtu : ipHlen + 8 ≤ mtu) (hmax : mtu < 65536) (hshort : data.length + ipHlen ≤ 0xffff) (hslice : SliceOf data p.data (ofo * 8))
    (hleft : p.data.length = left) (hpos : 0 < left) (htill : ofo * 8 + left = till)
    (hrefs : refs.data = p.data.take (min left (fragBytes mtu))) :
    CutFrom orig mtu mfSet data till
      ⟨fragmentHdr orig mtu left (min left (fragBytes mtu)) ofo mfSet payload, [] :: refs⟩ := by
  have hstop := hslice.stop_le
  unfold ipHlen at hmtu hshort
  have hofo : ofo < 8192 := by omega
  have hblocks : fragBytes mtu ≤ mtu - ipHlen := by
    rw [fragBytes, fragBlocks_eq (by unfold ipHlen; omega) hmax]
    exact Nat.div_mul_le_self _ _
  unfold ipHlen at hblocks
  have hdata : Pbuf.data ([] :: refs) = p.data.take (min left (fragBytes mtu)) := hrefs
  have hlength : (Pbuf.data ([] :: refs)).length = min left (fragBytes mtu) := by
    rw [hdata, List.length_take]
    omega
  have hoffset : (fragmentHdr orig mtu left (min left (fragBytes mtu)) ofo mfSet payload).offsetBytes
      = ofo * 8 := fragmentHdr_offsetBytes hofo
  have hrest : till - ofo * 8 = left := by omega
  refine ⟨horig, rfl, ?_, List.cons_ne_nil _ _, fragmentHdr_verifies, ?_, ?_, ?_, ?_⟩
  · rw [IpPacket.totLen, hlength, Nat.add_comm]
    exact fragmentHdr_lenBytes (by unfold ipHlen; omega)
  · dsimp only
    rw [hdata, hoffset]
    exact hslice.take _
  · dsimp only
    omega
  · dsimp only
    rw [hlength, hoffset, hrest]
  · dsimp only
    rw [hoffset, hrest]
    exact fragmentHdr_isLast hofo (by unfold ipHlen; omega)

theorem ip4FragLoop_done (orig : IpHdr) (mtu : Nat) (mfSet : Bool) (payload : Eth.Word) (fuel : Nat)
    (p : Pbuf) (ofo allocs : Nat) :
    ip4FragLoop orig mtu mfSet payload fuel p 0 ofo allocs = .ok ([], errOk) := by
  cases fuel with
  | zero => rfl
  | succ fuel => rfl

/-- A round that finds no memory, and one that does. -/
theorem ip4FragLoop_memerr {fragsize : Nat} (hpos : 0 < left)
    (hfragsize : min left (u16T (fragBlocks mtu * 8)) = fragsize)
    (hmirror : mirrorPbufs p fragsize allocs = .ok none) :
    ip4FragLoop orig mtu mfSet payload (fuel + 1) p left ofo (allocs + 1) = .ok ([], errMem) := by
  unfold ip4FragLoop
  rw [if_neg (Nat.ne_of_gt hpos)]
  dsimp only
  rw [hfragsize, hmirror]
  rfl

theorem ip4FragLoop_round {fragsize allocs' : Nat} {rest : Pbuf} {sent : List IpPacket} {err : Int}
    (hpos : 0 < left) (hfragsize : min left (u16T (fragBlocks mtu * 8)) = fragsize)
    (hmirror : mirrorPbufs p fragsize allocs = .ok (some (refs, rest, allocs')))
    (hrest : ip4FragLoop orig mtu mfSet payload fuel rest (left - fragsize)
      (u16T (ofo + fragBlocks mtu)) allocs' = .ok (sent, err)) :
    ip4FragLoop orig mtu mfSet payload (fuel + 1) p left ofo (allocs + 1)
      = .ok (⟨fragmentHdr orig mtu left fragsize ofo mfSet payload, [] :: refs⟩ :: sent, err) := by
  unfold ip4FragLoop
  rw [if_neg (Nat.ne_of_gt hpos)]
  dsimp only
  rw [hfragsize, hmirror]
  simp only [bind, Except.bind]
  rw [hrest]

/-- The last fragment that is sent. -/
theorem Fragments.last {start : Nat} (hf : CutFrom orig mtu mfSet data till f)
    (hstart : f.hdr.offsetBytes = start) (hlast : till - start ≤ fragBytes mtu) :
    Fragments orig mtu mfSet data start till [f] errOk where
  joined := ⟨hstart, trivial⟩
  each g hg := by
    rw [List.mem_singleton.mp hg, hstart]
    exact ⟨hf, rfl⟩
  err_or := .inl rfl
  whole _ := by
    have hbefore := hf.before
    have hlength := hf.length
    rw [hstart] at hlength hbefore
    refine hf.stop_eq.trans ?_
    rw [hlength, hstart]
    omega
  part h := absurd h (by decide)
  lastButOne _ hmore := absurd hmore (Nat.not_lt.mpr hlast)

/-- A fragment in front of those that follow it. -/
theorem Fragments.cons {start : Nat} {sent : List IpPacket} {err : Int}
    (hf : CutFrom orig mtu mfSet data till f) (hstart : f.hdr.offsetBytes = start)
    (hmore : fragBytes mtu < till - start)
    (hsent : Fragments orig mtu mfSet data (start + fragBytes mtu) till sent err) :
    Fragments orig mtu mfSet data start till (f :: sent) err where
  joined := by
    refine ⟨hstart, ?_⟩
    rw [show stop f.helper = f.helper.stop from rfl, hf.stop_of_more hstart hmore]
    exact hsent.joined
  each g hg := by
    rcases List.mem_cons.mp hg with rfl | hg
    · rw [hstart]
      exact ⟨hf, rfl⟩
    · rw [← sub_fragBytes_mod hmore]
      exact hsent.each g hg
  err_or := hsent.err_or
  whole herr := by
    rw [← hsent.whole herr, ← hf.stop_of_more hstart hmore]
    rfl
  part herr := by
    have hpart := hsent.part herr
    rw [← hf.stop_of_more hstart hmore] at hpart
    exact hpart
  lastButOne herr _ := by
    rw [← sub_fragBytes_mod hmore]
    by_cases hnext : fragBytes mtu < till - (start + fragBytes mtu)
    · obtain ⟨before, g, last, rfl, hlen⟩ := hsent.lastButOne herr hnext
      exact ⟨f :: before, g, last, rfl, hlen⟩
    · obtain ⟨last, rfl⟩ := (herr ▸ hsent).single (by omega) (by omega)
      refine ⟨[], f, last, rfl, ?_⟩
      rw [Nat.mod_eq_of_lt (by omega), hstart]
      omega

/-- Each round of the loop that finds memory sends a fragment, until all is sent. For each there must be
    two allocations at most, and one for each pbuf. -/
theorem ip4FragLoop_spec (allocs : Nat) (payload : Eth.Word) (horig : orig.hlBytes = ipHlen)
    (hmtu : ipHlen + 8 ≤ mtu) (hmax : mtu < 65536) (hshort : data.length + ipHlen ≤ 0xffff)
    (hslice : SliceOf data p.data (ofo * 8)) (hleft : p.data.length = left)
    (htill : ofo * 8 + left = till) (hpos : 0 < left) (hfuel : left ≤ fuel) :
    ∃ sent err, ip4FragLoop orig mtu mfSet payload fuel p left ofo allocs = .ok (sent, err)
      ∧ Fragments orig mtu mfSet data (ofo * 8) till sent err
      ∧ ∀ rounds, left ≤ rounds * fragBytes mtu → 2 * rounds + p.length ≤ allocs → err = errOk := by
  have hblocks := fragBlocks_eq (by omega : ipHlen ≤ mtu) hmax
  have hbytes : fragBytes mtu = (mtu - ipHlen) / 8 * 8 := by rw [fragBytes, hblocks]
  unfold ipHlen at hblocks hbytes hmtu hshort
  have hu16 : u16T (fragBlocks mtu * 8) = fragBytes mtu := Nat.mod_eq_of_lt (by omega)
  have hfragsize : min left (u16T (fragBlocks mtu * 8)) = min left (fragBytes mtu) := by rw [hu16]
  induction fuel generalizing p left ofo allocs with
  | zero => omega
  | succ fuel ih =>
    have hmemory : ∀ rounds, left ≤ rounds * fragBytes mtu → 0 < rounds := by
      intro rounds hrounds
      refine Nat.pos_of_ne_zero fun hzero => ?_
      rw [hzero, Nat.zero_mul] at hrounds
      omega
    cases allocs with
    | zero =>
      refine ⟨[], errMem, ?_, .memerr (by omega), fun rounds hrounds hallocs => ?_⟩
      · unfold ip4FragLoop
        exact if_neg (Nat.ne_of_gt hpos)
      · have hone := hmemory rounds hrounds
        omega
    | succ allocs =>
      obtain ⟨mirrored, hmirror, hspec⟩ := mirrorPbufs_spec (p := p) (n := min left (fragBytes mtu))
        allocs (by omega)
      cases hspec with
      | memerr hallocs =>
        refine ⟨[], errMem, ip4FragLoop_memerr hpos hfragsize hmirror, .memerr (by omega),
          fun rounds hrounds hallocs' => ?_⟩
        have hone := hmemory rounds hrounds
        omega
      | @done refs rest allocs' hrefs hrest hallocs hlength =>
        have hcut := cutFrom_fragment mfSet payload horig hmtu hmax hshort hslice hleft hpos htill hrefs
        have hstop := hslice.stop_le
        have hstart : (fragmentHdr orig mtu left (min left (fragBytes mtu)) ofo mfSet payload).offsetBytes
            = ofo * 8 := fragmentHdr_offsetBytes (by omega)
        by_cases hlast : left ≤ fragBytes mtu
        · refine ⟨_, _, ip4FragLoop_round hpos hfragsize hmirror ?_, .last hcut hstart (by omega),
            fun _ _ _ => rfl⟩
          rw [Nat.min_eq_left hlast, Nat.sub_self]
          exact ip4FragLoop_done ..
        · have hofo : u16T (ofo + fragBlocks mtu) = ofo + fragBlocks mtu := Nat.mod_eq_of_lt (by omega)
          have hmin : min left (fragBytes mtu) = fragBytes mtu := by omega
          rw [hmin] at hrefs hrest hcut hstart hmirror hfragsize
          have hnext : (ofo + fragBlocks mtu) * 8 = ofo * 8 + fragBytes mtu := Nat.add_mul ..
          have hrest_slice : SliceOf data rest.data ((ofo + fragBlocks mtu) * 8) := by
            rw [hrest, hnext]
            exact hslice.drop (by omega)
          have hrest_length : rest.data.length = left - fragBytes mtu := by
            rw [hrest, List.length_drop, hleft]
          obtain ⟨sent, err, hrun, hsent, hsuffice⟩ := ih allocs' hrest_slice hrest_length
            (by omega) (by omega) (by omega) (by rw [hu16])
          rw [hnext] at hsent
          rw [← hofo] at hrun
          refine ⟨_, err, ip4FragLoop_round hpos hfragsize hmirror hrun,
            .cons hcut hstart (by omega) hsent, fun rounds hrounds hallocs' => ?_⟩
          have hone := hmemory rounds hrounds
          obtain ⟨rounds, rfl⟩ := Nat.exists_eq_succ_of_ne_zero (Nat.ne_of_gt hone)
          rw [Nat.succ_mul] at hrounds
          exact hsuffice rounds (by omega) (by omega)

end Loop

/-! ## The fragments of a packet -/

section Packet

variable {p f : IpPacket} {mtu allocs till : Nat} {payload : Eth.Word} {data : List Eth.Byte}

theorem IpPacket.FragmentOf.stop_le (hp : p.FragmentOf data) :
    p.hdr.offsetBytes + p.body.data.length ≤ data.length := hp.slice.stop_le

/-- `ip4_frag` sends the bytes of the packet, or as many as there is memory for. -/
theorem ip4Frag_spec (allocs : Nat) (payload : Eth.Word) (hhl : p.hdr.hlBytes = ipHlen)
    (hmtu : ipHlen + 8 ≤ mtu) (hmax : mtu < 65536) (hp : p.FragmentOf data) (hshort : data.length + ipHlen ≤ 0xffff) :
    ∃ sent err, ip4Frag p.body.data.length p mtu payload allocs = .ok (sent, err)
      ∧ Fragments p.hdr mtu (!p.hdr.isLast) data p.hdr.offsetBytes
        (p.hdr.offsetBytes + p.body.data.length) sent err
      ∧ ∀ rounds, p.body.data.length ≤ rounds * fragBytes mtu → 2 * rounds + p.body.length ≤ allocs →
        err = errOk := by
  have hstop := hp.stop_le
  have hmf : decide (lwipHtons p.hdr.offset &&& ipMf ≠ 0#16) = !p.hdr.isLast := by
    rw [Bool.eq_iff_iff, decide_eq_true_eq, Bool.not_eq_true', ← Bool.not_eq_true, p.hdr.isLast_iff]
  have hleft : u16T (p.totLen - ipHlen) = p.body.data.length := by
    rw [IpPacket.totLen, Nat.add_sub_cancel_left]
    exact Nat.mod_eq_of_lt (by omega)
  have hcall : ip4Frag p.body.data.length p mtu payload allocs
      = ip4FragLoop p.hdr mtu (!p.hdr.isLast) payload p.body.data.length p.body p.body.data.length
        (lwipHtons p.hdr.offset &&& ipOffmask).toNat allocs := by
    unfold ip4Frag
    rw [if_neg (by simpa using hhl)]
    dsimp only
    rw [hmf, hleft]
  rw [hcall]
  cases hpos : p.body.data.length with
  | zero =>
    refine ⟨[], errOk, ip4FragLoop_done .., ⟨trivial, by simp, .inl rfl, fun _ => rfl, fun h => ?_,
      fun _ h => ?_⟩, fun _ _ _ => rfl⟩
    · exact absurd h (by decide)
    · omega
  | succ n =>
    rw [← hpos]
    exact ip4FragLoop_spec allocs payload hhl hmtu hmax hshort hp.slice rfl rfl (by omega) (Nat.le_refl _)

/-- What is left of the room of a fragment, when it holds blocks of 8 bytes. -/
def fragSlack (mtu : Nat) : Nat := (mtu - ipHlen) % 8

/-- The bytes of the last fragment. -/
def lastBytes (mtu n : Nat) : Nat := (n - 1) % fragBytes mtu + 1

theorem lastBytes_pos (mtu n : Nat) : 0 < lastBytes mtu n := Nat.succ_pos _

theorem fragBytes_add_slack (hmtu : ipHlen ≤ mtu) (hmax : mtu < 65536) :
    fragBytes mtu + fragSlack mtu = mtu - ipHlen := by
  rw [fragBytes, fragBlocks_eq hmtu hmax, fragSlack, Nat.div_add_mod']

/-- The flag of each fragment is right: there is one only, or the packet is not the last itself, or the
    last fragment does not fit into what is left of the room of the one before it. -/
def FlagsRight (p : IpPacket) (mtu : Nat) : Prop :=
  p.hdr.isLast = false ∨ p.body.data.length ≤ fragBytes mtu
    ∨ fragSlack mtu < lastBytes mtu p.body.data.length

instance (p : IpPacket) (mtu : Nat) : Decidable (FlagsRight p mtu) :=
  inferInstanceAs (Decidable (_ ∨ _ ∨ _))

/-- With blocks that fill the room there is nothing left of it. -/
theorem FlagsRight.of_slack (hslack : fragSlack mtu = 0) : FlagsRight p mtu := by
  refine .inr (.inr ?_)
  rw [hslack]
  exact Nat.succ_pos _

example (p : IpPacket) : FlagsRight p 1500 := .of_slack rfl

/-- A fragment that more follow is flagged as the last just when one follows that fits into the slack. -/
theorem CutFrom.flag_iff {orig : IpHdr} {start : Nat} (hf : CutFrom orig mtu false data till f)
    (hmtu : ipHlen + 8 ≤ mtu) (hmax : mtu < 65536) (hmore : f.helper.stop < till)
    (hmod : (till - f.hdr.offsetBytes - 1) % fragBytes mtu = (till - start - 1) % fragBytes mtu) :
    f.hdr.isLast = true ↔ f.helper.stop + lastBytes mtu (till - start) = till
      ∧ lastBytes mtu (till - start) ≤ fragSlack mtu := by
  have hroom := fragBytes_add_slack (by omega : ipHlen ≤ mtu) hmax
  have hslack : fragSlack mtu < 8 := Nat.mod_lt _ (by omega)
  have hbytes : 8 ≤ fragBytes mtu := by
    rw [fragBytes, fragBlocks_eq (by omega : ipHlen ≤ mtu) hmax]
    omega
  have hstop := hf.stop_eq
  have hlength := hf.length
  have hlast := hf.isLast
  simp only [and_true] at hlast
  have hwhole : f.body.data.length = fragBytes mtu := by omega
  rw [hlast, lastBytes, ← hmod]
  by_cases hnext : till - f.hdr.offsetBytes - 1 < fragBytes mtu + fragBytes mtu
  · rw [Nat.mod_eq_sub_mod (by omega), Nat.mod_eq_of_lt (by omega)]
    omega
  · have hlt : (till - f.hdr.offsetBytes - 1) % fragBytes mtu < fragBytes mtu := Nat.mod_lt _ (by omega)
    omega

theorem Fragments.bounds {orig : IpHdr} {mfSet : Bool} {start : Nat} {sent : List IpPacket} {err : Int}
    (h : Fragments orig mtu mfSet data start till sent err) (hf : f ∈ sent) :
    start ≤ f.hdr.offsetBytes ∧ f.helper.stop ≤ till := by
  have hle : ∀ q ∈ sent.map IpPacket.helper, Span.start q ≤ Span.stop q := by
    intro q hq
    obtain ⟨g, _, rfl⟩ := List.mem_map.mp hq
    exact Nat.le_add_right _ _
  have hstart := (h.joined.bounds hle (List.mem_map_of_mem hf)).1
  have hcut := (h.each f hf).1
  have hbefore := hcut.before
  have hlength := hcut.length
  rw [hcut.stop_eq]
  exact ⟨hstart, by omega⟩

/-- The fragments of a packet follow one another, each whole and no longer than the interface takes, with
    the identification of the datagram and a checksum that verifies. They end where the packet ends when
    `ERR_OK` is returned, and before when the memory does not suffice. -/
theorem ip4_frag_cuts (p : IpPacket) (mtu allocs : Nat) (payload : Eth.Word) (data : List Eth.Byte)
    (hhl : p.hdr.hlBytes = ipHlen) (hmtu : ipHlen + 8 ≤ mtu) (hmax : mtu < 65536)
    (hp : p.FragmentOf data) (hshort : data.length + ipHlen ≤ 0xffff) :
    ∃ sent err, ip4Frag p.body.data.length p mtu payload allocs = .ok (sent, err)
      ∧ Adjoined p.hdr.offsetBytes (sent.map IpPacket.helper)
      ∧ (∀ f ∈ sent, SliceOf data f.body.data f.hdr.offsetBytes ∧ f.hdr.key = p.hdr.key
        ∧ f.hdr.hlBytes = ipHlen ∧ f.hdr.lenBytes = f.totLen ∧ ipHlen < f.totLen ∧ f.totLen ≤ mtu
        ∧ ~~~internetSum f.hdr.bytes = 0#16)
      ∧ (err = errOk ∧ endOf p.hdr.offsetBytes (sent.map IpPacket.helper)
          = p.hdr.offsetBytes + p.body.data.length
        ∨ err = errMem ∧ endOf p.hdr.offsetBytes (sent.map IpPacket.helper)
            < p.hdr.offsetBytes + p.body.data.length
          ∧ ∀ rounds, p.body.data.length ≤ rounds * fragBytes mtu →
            allocs < 2 * rounds + p.body.length) := by
  obtain ⟨sent, err, hrun, hsent, hmemory⟩ := ip4Frag_spec allocs payload hhl hmtu hmax hp hshort
  refine ⟨sent, err, hrun, hsent.joined, fun f hf => ?_, ?_⟩
  · have hcut := (hsent.each f hf).1
    have hroom := fragBytes_add_slack (by omega : ipHlen ≤ mtu) hmax
    have hbytes : 8 ≤ fragBytes mtu := by
      rw [fragBytes, fragBlocks_eq (by omega : ipHlen ≤ mtu) hmax]
      omega
    have hbefore := hcut.before
    have hlength := hcut.length
    refine ⟨hcut.slice, hcut.key_eq, hcut.hlBytes, hcut.trimmed, ?_, ?_, hcut.verifies⟩
    · rw [IpPacket.totLen]
      omega
    · rw [IpPacket.totLen]
      omega
  · rcases hsent.err_or with rfl | rfl
    · exact .inl ⟨rfl, hsent.whole rfl⟩
    · refine .inr ⟨rfl, hsent.part rfl, fun rounds hrounds => Nat.lt_of_not_le fun hallocs => ?_⟩
      exact absurd (hmemory rounds hrounds hallocs) (by decide)

/-- Sixteen bytes in two pbufs. -/
def smallPacket : IpPacket :=
  { smallFragment 0#16 (List.replicate 16 0#8) with
    body := [[1#8, 2#8, 3#8, 4#8, 5#8], [6#8, 7#8, 8#8, 9#8, 10#8, 11#8, 12#8, 13#8, 14#8, 15#8, 16#8]] }

theorem smallPacket_fragmentOf : smallPacket.FragmentOf smallPacket.body.data :=
  ⟨⟨[], [], by decide, by decide⟩, by decide⟩

theorem ip4_frag_cuts_small : ∃ sent err, ip4Frag 16 smallPacket 30 0#32 5 = .ok (sent, err)
    ∧ Adjoined 0 (sent.map IpPacket.helper)
    ∧ (err = errOk ∧ endOf 0 (sent.map IpPacket.helper) = 16
      ∨ err = errMem ∧ endOf 0 (sent.map IpPacket.helper) < 16
        ∧ ∀ rounds, 16 ≤ rounds * 8 → 5 < 2 * rounds + 2) := by
  obtain ⟨sent, err, hrun, hjoined, -, hend⟩ := ip4_frag_cuts smallPacket 30 5 0#32 smallPacket.body.data
    (by decide) (by decide) (by decide) smallPacket_fragmentOf (by decide)
  exact ⟨sent, err, hrun, hjoined, hend⟩

/-- What `ip4_frag` has sent when it returns. -/
theorem ip4Frag_fragments {sent : List IpPacket} {err : Int} (hhl : p.hdr.hlBytes = ipHlen)
    (hmtu : ipHlen + 8 ≤ mtu) (hmax : mtu < 65536) (hp : p.FragmentOf data)
    (hshort : data.length + ipHlen ≤ 0xffff)
    (hsent : ip4Frag p.body.data.length p mtu payload allocs = .ok (sent, err)) :
    Fragments p.hdr mtu (!p.hdr.isLast) data p.hdr.offsetBytes (p.hdr.offsetBytes + p.body.data.length)
      sent err := by
  obtain ⟨_, _, hrun, hfragments, _⟩ := ip4Frag_spec allocs payload hhl hmtu hmax hp hshort
  rw [hsent] at hrun
  obtain ⟨rfl, rfl⟩ := Prod.mk.inj (Except.ok.inj hrun)
  exact hfragments

section Flags

variable {sent : List IpPacket} {err : Int}

/-- With the flags right, what is sent are fragments of the datagram. -/
theorem Fragments.fragmentOf (hfragments : Fragments p.hdr mtu (!p.hdr.isLast) data p.hdr.offsetBytes
      (p.hdr.offsetBytes + p.body.data.length) sent err)
    (hright : FlagsRight p mtu) (hmtu : ipHlen + 8 ≤ mtu) (hmax : mtu < 65536) (hp : p.FragmentOf data)
    (hf : f ∈ sent) : f.FragmentOf data := by
  have hstop := hp.stop_le
  have hroom := fragBytes_add_slack (by omega : ipHlen ≤ mtu) hmax
  obtain ⟨hcut, hmod⟩ := hfragments.each f hf
  have hbounds := hfragments.bounds hf
  refine ⟨hcut.slice, ?_⟩
  rw [← hcut.stop_eq]
  cases hlast : p.hdr.isLast with
  | false =>
    -- more follow the packet itself
    have hmore : p.hdr.offsetBytes + p.body.data.length ≠ data.length := by
      rw [Ne, ← hp.isLast, hlast]
      exact Bool.false_ne_true
    rw [hcut.isLast, hlast]
    simp only [Bool.not_false, Bool.true_eq_false, and_false, false_iff]
    omega
  | true =>
    have hend := hp.isLast.mp hlast
    rw [hend] at hcut hmod hbounds
    rw [hlast, Bool.not_true] at hcut
    have hlen : data.length - p.hdr.offsetBytes = p.body.data.length := by omega
    have hlength := hcut.length
    have hbefore := hcut.before
    have hf_stop := hcut.stop_eq
    by_cases hmore : f.helper.stop < data.length
    · rw [hcut.flag_iff hmtu hmax hmore hmod, hlen]
      refine iff_of_false (fun ⟨_, hslack⟩ => ?_) (Nat.ne_of_lt hmore)
      rcases hright with hright | hright | hright
      · rw [hlast] at hright
        cases hright
      · omega
      · omega
    · exact iff_of_true (hcut.isLast.mpr ⟨by omega, rfl⟩) (by omega)

/-- With a flag wrong, it is that of the last fragment but one, which the last follows all the same. -/
theorem Fragments.lastButOne_isLast (hfragments : Fragments p.hdr mtu (!p.hdr.isLast) data
      p.hdr.offsetBytes (p.hdr.offsetBytes + p.body.data.length) sent errOk)
    (hwrong : ¬ FlagsRight p mtu) (hmtu : ipHlen + 8 ≤ mtu) (hmax : mtu < 65536)
    (hp : p.FragmentOf data) :
    ∃ before f last, sent = before ++ [f, last] ∧ f.hdr.isLast = true
      ∧ f.hdr.offsetBytes + f.body.data.length < data.length := by
  have hstop := hp.stop_le
  have hroom := fragBytes_add_slack (by omega : ipHlen ≤ mtu) hmax
  simp only [FlagsRight, not_or, Bool.not_eq_false, Nat.not_le, Nat.not_lt] at hwrong
  obtain ⟨hlast, hmore, hslack⟩ := hwrong
  have hend := hp.isLast.mp hlast
  rw [hlast, Bool.not_true, hend] at hfragments
  have hlen : data.length - p.hdr.offsetBytes = p.body.data.length := by omega
  obtain ⟨before, f, last, rfl, hplace⟩ := hfragments.lastButOne rfl (by omega)
  rw [hlen] at hplace
  change _ = fragBytes mtu + lastBytes mtu p.body.data.length at hplace
  obtain ⟨hcut, hmod⟩ := hfragments.each f (by simp)
  have hlength := hcut.length
  have hf_stop := hcut.stop_eq
  have hpos := lastBytes_pos mtu p.body.data.length
  have hflag := hcut.flag_iff hmtu hmax (by omega) hmod
  rw [hlen] at hflag
  exact ⟨before, f, last, rfl, hflag.mpr ⟨by omega, hslack⟩, by omega⟩

end Flags

/-- When all is sent, the fragments are fragments of the datagram just when the flags are right. Else the
    last but one is flagged as the last too. -/
theorem ip4_frag_flags (p : IpPacket) (mtu allocs : Nat) (payload : Eth.Word) (data : List Eth.Byte)
    (sent : List IpPacket) (hhl : p.hdr.hlBytes = ipHlen) (hmtu : ipHlen + 8 ≤ mtu) (hmax : mtu < 65536)
    (hp : p.FragmentOf data) (hshort : data.length + ipHlen ≤ 0xffff)
    (hsent : ip4Frag p.body.data.length p mtu payload allocs = .ok (sent, errOk)) :
    ((∀ f ∈ sent, f.FragmentOf data) ↔ FlagsRight p mtu)
      ∧ (¬ FlagsRight p mtu → ∃ before f last, sent = before ++ [f, last] ∧ f.hdr.isLast = true) := by
  have hfragments := ip4Frag_fragments hhl hmtu hmax hp hshort hsent
  refine ⟨⟨fun hall => Classical.not_not.mp fun hwrong => ?_, fun hright f hf => ?_⟩, fun hwrong => ?_⟩
  · obtain ⟨_, f, _, rfl, hlast, hmore⟩ := hfragments.lastButOne_isLast hwrong hmtu hmax hp
    exact Nat.ne_of_lt hmore ((hall f (by simp)).isLast.mp hlast)
  · exact hfragments.fragmentOf hright hmtu hmax hp hf
  · obtain ⟨before, f, last, hsplit, hlast, -⟩ := hfragments.lastButOne_isLast hwrong hmtu hmax hp
    exact ⟨before, f, last, hsplit, hlast⟩

/-- The fragments of the sixteen bytes. -/
def smallSent : List IpPacket :=
  [⟨fragmentHdr smallPacket.hdr 30 16 8 0 false 0#32, [[], [1#8, 2#8, 3#8, 4#8, 5#8], [6#8, 7#8, 8#8]]⟩,
    ⟨fragmentHdr smallPacket.hdr 30 8 8 1 false 0#32,
      [[], [9#8, 10#8, 11#8, 12#8, 13#8, 14#8, 15#8, 16#8]]⟩]

theorem ip4Frag_smallPacket : ip4Frag 16 smallPacket 30 0#32 5 = .ok (smallSent, errOk) := by
  decide +kernel

/-- Seventeen bytes. -/
def oddPacket : IpPacket :=
  { smallFragment 0#16 (List.replicate 17 0#8) with body := [List.replicate 16 1#8, [17#8]] }

theorem oddPacket_fragmentOf : oddPacket.FragmentOf oddPacket.body.data :=
  ⟨⟨[], [], by decide, by decide⟩, by decide⟩

/-- The second of its fragments says that none follows. -/
def oddSent : List IpPacket :=
  [⟨fragmentHdr oddPacket.hdr 30 17 8 0 false 0#32, [[], List.replicate 8 1#8]⟩,
    ⟨fragmentHdr oddPacket.hdr 30 9 8 1 false 0#32, [[], List.replicate 8 1#8]⟩,
    ⟨fragmentHdr oddPacket.hdr 30 1 1 2 false 0#32, [[], [17#8]]⟩]

theorem ip4Frag_oddPacket : ip4Frag 17 oddPacket 30 0#32 6 = .ok (oddSent, errOk) := by
  decide +kernel

theorem ip4_frag_flags_small :
    (∀ f ∈ smallSent, f.FragmentOf smallPacket.body.data)
      ∧ (¬ ∀ f ∈ oddSent, f.FragmentOf oddPacket.body.data)
      ∧ ∃ before f last, oddSent = before ++ [f, last] ∧ f.hdr.isLast = true := by
  have hright := ip4_frag_flags smallPacket 30 5 0#32 smallPacket.body.data smallSent (by decide)
    (by decide) (by decide) smallPacket_fragmentOf (by decide) ip4Frag_smallPacket
  have hwrong := ip4_frag_flags oddPacket 30 6 0#32 oddPacket.body.data oddSent (by decide)
    (by decide) (by decide) oddPacket_fragmentOf (by decide) ip4Frag_oddPacket
  exact ⟨hright.1.mpr (by decide), fun hall => absurd (hwrong.1.mp hall) (by decide),
    hwrong.2 (by decide)⟩

end Packet

end Lwip
