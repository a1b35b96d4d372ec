import McuDrivers.At32.Ertc
import McuDrivers.Library.Bits

set_option autoImplicit false

/-! # AT32F4xx: the bits of `ISTS`

What reads and stores of `ISTS` do to the request for the initialization mode and to the event flags,
and which accesses of the driver touch neither. -/

namespace At32

variable {α : Type} {s : Ertc}

/-! ## The registers, bit by bit -/

def Ertc.InitmClear (s : Ertc) : Prop := s.ists &&& istsInitm = 0

theorem shownIsts_initm (ists answer : Word) :
    shownIsts ists answer &&& istsInitm = ists &&& istsInitm := by
  unfold shownIsts
  rw [BitVec.and_or_distrib_right, Mask.and_and_of_subset ists (by decide),
    Mask.and_and_of_disjoint answer (by decide)]
  exact BitVec.or_zero

/-- Status bits are what the hardware shows. -/
theorem shownIsts_status {flag : Word} (h : (istsInitm ||| istsEvents) &&& flag = 0)
    (h' : ~~~istsInitm &&& flag = flag) (ists answer : Word) :
    shownIsts ists answer &&& flag = answer &&& flag := by
  unfold shownIsts
  rw [BitVec.and_or_distrib_right, Mask.and_and_of_disjoint ists h, Mask.and_and_of_subset answer h']
  exact BitVec.zero_or

/-- Event flag `i` is set. -/
def Ertc.HasEvent (s : Ertc) (i : Nat) : Prop :=
  istsEvents.getLsbD i = true ∧ s.ists.getLsbD i = true

/-- A read keeps the event flags. -/
theorem shownIsts_event {ists : Word} {i : Nat} (he : istsEvents.getLsbD i = true)
    (hi : ists.getLsbD i = true) {answer : Word} : (shownIsts ists answer).getLsbD i = true := by
  simp [shownIsts, he, hi]

/-- The request is no event. -/
theorem initm_of_event {i : Nat} (he : istsEvents.getLsbD i = true) :
    istsInitm.getLsbD i = false := by
  have hdisj : istsEvents &&& istsInitm = 0 := by decide
  have hbit := congrArg (·.getLsbD i) hdisj
  simpa [he] using hbit

/-- A store keeps the event flags to which it writes a 1. -/
theorem storeIsts_event {v : Word} {i : Nat} (h : s.HasEvent i)
    (hv : v.getLsbD i = true) : (s.storeIsts v).HasEvent i := by
  have hnot := initm_of_event h.1
  have hlt : i < 32 := BitVec.lt_of_getLsbD h.2
  refine ⟨h.1, ?_⟩
  simp only [Ertc.storeIsts, BitVec.getLsbD_or, BitVec.getLsbD_and, BitVec.getLsbD_not, h.2, hv,
    hnot, hlt, decide_true, Bool.not_false, Bool.true_and, Bool.true_or]

/-- A flag to which it writes a 0 is gone. -/
theorem storeIsts_lost {v : Word} {i : Nat} (he : istsEvents.getLsbD i = true)
    (hv : v.getLsbD i = false) : (s.storeIsts v).ists.getLsbD i = false := by
  have hnot := initm_of_event he
  simp only [Ertc.storeIsts, BitVec.getLsbD_or, BitVec.getLsbD_and, BitVec.getLsbD_not, hv, he,
    hnot, Bool.true_or, Bool.not_true, Bool.and_false, Bool.false_and, Bool.false_or]
  split <;> simp [hnot]

theorem storeIsts_initm (v : Word) (s : Ertc) :
    (s.storeIsts v).ists &&& istsInitm =
      if s.protection = .off then v &&& istsInitm else s.ists &&& istsInitm := by
  simp only [Ertc.storeIsts]
  rw [BitVec.and_or_distrib_right, Mask.and_and_of_disjoint _ (by decide)]
  split
  all_goals
    rw [Mask.and_and_of_subset _ (by decide)]
    exact BitVec.zero_or

/-- A value without the request leaves it clear, whether or not it is written. -/
theorem storeIsts_clear {v : Word} (hv : v &&& istsInitm = 0) (hs : s.InitmClear) :
    (s.storeIsts v).InitmClear := by
  unfold Ertc.InitmClear
  rw [storeIsts_initm]
  split
  · exact hv
  · exact hs

/-! ## Accesses that leave protection, request and events alone -/

structure Calm (s s' : Ertc) : Prop where
  protection : s'.protection = s.protection
  answers : s'.answers = s.answers
  held : s'.held = s.held
  initm : s'.ists &&& istsInitm = s.ists &&& istsInitm
  events : ∀ i, s.HasEvent i → s'.HasEvent i

theorem Calm.refl (s : Ertc) : Calm s s := ⟨rfl, rfl, rfl, rfl, fun _ h => h⟩

theorem Calm.trans {s t u : Ertc} (h : Calm s t) (h' : Calm t u) : Calm s u :=
  ⟨h'.protection.trans h.protection, h'.answers.trans h.answers, h'.held.trans h.held,
    h'.initm.trans h.initm, fun i hi => h'.events i (h.events i hi)⟩

theorem Calm.clear {s s' : Ertc} (h : Calm s s') : s'.InitmClear ↔ s.InitmClear := by
  unfold Ertc.InitmClear
  rw [h.initm]

theorem calm_exec {p : ErtcProg α} (hp : p.Accesses Calm) (s : Ertc) :
    Calm s (p.exec s).2 :=
  Prog.exec_of_accesses hp Calm.refl Calm.trans s

theorem Calm.shown (s : Ertc) : Calm s s.shown :=
  ⟨rfl, rfl, rfl, shownIsts_initm _ _, fun _ hi => ⟨hi.1, shownIsts_event hi.1 hi.2⟩⟩

theorem readIsts_calm : readIsts.Accesses Calm := ⟨Calm.shown, fun _ => trivial⟩

theorem readReg_calm (r : ErtcReg) : (readReg r).Accesses Calm := by
  simp [readReg, Calm.refl]

theorem writeReg_calm (r : ErtcReg) (v : Word) : (writeReg r v).Accesses Calm := by
  simp only [writeReg, Prog.accesses_put]
  intro s
  split
  · exact ⟨rfl, rfl, rfl, rfl, fun _ h => h⟩
  · exact Calm.refl s

theorem setBits_calm (r : ErtcReg) (bits : Word) : (setBits r bits).Accesses Calm :=
  Prog.accesses_bind (readReg_calm r) fun _ => writeReg_calm r _

theorem keepBits_calm (r : ErtcReg) (mask : Word) : (keepBits r mask).Accesses Calm :=
  Prog.accesses_bind (readReg_calm r) fun _ => writeReg_calm r _

theorem enableBits_calm (r : ErtcReg) (bits : Word) (newState : Bool) :
    (enableBits r bits newState).Accesses Calm := by
  unfold enableBits
  split
  · exact setBits_calm r bits
  · exact keepBits_calm r _

theorem writeRegs_calm (writes : List (ErtcReg × Word)) : (writeRegs writes).Accesses Calm := by
  induction writes with
  | nil => trivial
  | cons write rest ih => exact Prog.accesses_bind (writeReg_calm write.1 write.2) fun _ => ih

theorem waitSet_calm (flag : Word) (tmrout : Nat) : (waitSet flag tmrout).Accesses Calm :=
  waitSet_accesses readIsts_calm flag tmrout

theorem waitReset_calm (flag : Word) (tmrout : Nat) : (waitReset flag tmrout).Accesses Calm := by
  induction tmrout with
  | zero => exact Prog.accesses_bind readIsts_calm fun _ => trivial
  | succ tmrout ih =>
      refine Prog.accesses_bind readIsts_calm fun v => ?_
      split
      · exact ih
      · trivial

theorem waitPending_calm (flag : Word) (tmrout : Nat) :
    (waitPending flag tmrout).Accesses Calm := by
  refine Prog.accesses_bind readIsts_calm fun v => ?_
  split
  · exact waitReset_calm flag tmrout
  · trivial

theorem checkSet_calm (flag : Word) : (checkSet flag).Accesses Calm :=
  Prog.accesses_bind readIsts_calm fun _ => trivial

theorem enableAndWait_calm (bits flag : Word) (newState : Bool) :
    (enableAndWait bits flag newState).Accesses Calm := by
  unfold enableAndWait
  split
  · exact Prog.accesses_bind (setBits_calm _ _) fun _ => trivial
  · exact Prog.accesses_bind (keepBits_calm _ _) fun _ =>
      Prog.accesses_bind (waitSet_calm _ _) fun _ => checkSet_calm _

theorem withHourFormat_calm (t : ErtcTime) : (withHourFormat t).Accesses Calm :=
  Prog.accesses_bind (readReg_calm _) fun _ => trivial

theorem keepAndSet_calm (r : ErtcReg) (mask bits : Word) :
    (do keepBits r mask; setBits r bits : ErtcProg Unit).Accesses Calm :=
  Prog.accesses_bind (keepBits_calm r mask) fun _ => setBits_calm r bits

/-- What `ERTC_SmoothCalConfig` does with the protection off. -/
theorem ertcSmoothCalBody_calm (period plusPulses minusPulses : Word) :
    (do
      waitPending istsRecalpdf recalpdfTmrout
      let v ← readIsts
      if v &&& istsRecalpdf = 0 then do
        writeReg .ccr (period ||| plusPulses ||| minusPulses)
        return .success
      else return .error : ErtcProg ErrorStatus).Accesses Calm := by
  refine Prog.accesses_bind (waitPending_calm _ _) fun _ => ?_
  refine Prog.accesses_bind readIsts_calm fun v => ?_
  split
  · exact Prog.accesses_bind (writeReg_calm _ _) fun _ => trivial
  · trivial

end At32
