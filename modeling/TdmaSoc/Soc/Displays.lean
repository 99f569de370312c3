import TdmaSoc.Asp.Counts
import TdmaSoc.Asp.Displays
import TdmaSoc.Asp.Freshness
import TdmaSoc.Soc.Correlations

/-!
# What the displays of the chip show

A report that the Nios reads was sent by PdAsp while a peak was not acknowledged (`Fresh`), and its count is one for
two consecutive values that end a rise. The Nios starts anew with KEY0, and then shows the last three digits of the
largest count that it has read.
-/

namespace TdmaSoc
open TdmaMin (portAddr)

namespace Nios

/-- A report has the type and the mode of one. -/
theorem isPeakReport_of_isReport {w : BitVec 32} (h : isReport w = true) : isPeakReport w = true := by
  rw [isReport, Bool.and_eq_true, Bool.and_eq_true, beq_iff_eq, beq_iff_eq] at h
  obtain ⟨⟨htype, hmode⟩, -⟩ := h
  have hslice (lo : Nat) {v : BitVec 32} (hv : (w >>> lo) &&& 0xF#32 = v) : w.slice lo 4 = v.setWidth 4 := by
    apply BitVec.eq_of_toNat_eq
    rw [← w.toNat_shift_mask lo (by omega), BitVec.toNat_setWidth, ← hv]
    exact (Nat.mod_eq_of_lt (Nat.lt_of_le_of_lt Nat.and_le_right (by decide))).symm
  exact isData_iff.2 ⟨hslice 28 htype, hslice 20 hmode⟩

theorem toNat_count (w : BitVec 32) : (w &&& 0x3FFFF#32).toNat = (w.slice 0 18).toNat := by
  have hmask := w.toNat_shift_mask 0 (show 18 ≤ 32 by omega)
  rwa [BitVec.ushiftRight_zero] at hmask

end Nios

namespace TopLevel
variable {rom : ProgMem} {mem : BitVec 12 → Word} {signal : BitVec 12 → BitVec 10} {x : TopLevel} {i : TopLevelInput}

/-! ### The reports -/

theorem hosts_pdOnly : (machine rom mem signal).Hosts (Chip.machine Chip.pdOnly) chip (chipInput signal) :=
  hosts_on (by decide)

theorem hosts_aspPd : (machine rom mem signal).Hosts PdAsp.machine aspPd fun x _ => x.tdmaMin.recvs 4 :=
  ⟨rfl, fun _ _ => rfl⟩

/-- The values that PdAsp has assigned are those delivered to it. -/
theorem delivered_eq_log (is : List TopLevelInput) :
    PdAsp.delivered ((machine rom mem signal).inputs (fun x _ => x.tdmaMin.recvs 4) is) =
      (machine rom mem signal).log assigned is := by
  rw [← PdAsp.log_assigned, hosts_aspPd.log]
  rfl

/-- The count of a peak at any time is one for the values assigned so far. -/
theorem counts_of_was {is : List TopLevelInput} {u : Nat} {c : BitVec 18}
    (h : Chip.Was ((machine rom mem signal).inputs (chipInput signal) is) u c) :
    Detector.Counts ((machine rom mem signal).log assigned is) c.toNat := by
  obtain ⟨-, hpeak, hcount⟩ := h
  rw [Machine.inputs_take, hosts_pdOnly.run] at hpeak hcount
  have hpd : PdAsp.machine.run ((machine rom mem signal).inputs (fun x _ => x.tdmaMin.recvs 4) (is.take u)) =
      ((machine rom mem signal).run (is.take u)).aspPd := hosts_aspPd.run _
  have hcounts := PdAsp.counts_of_peakDetected (by rw [hpd]; exact hpeak)
  rw [hpd, delivered_eq_log] at hcounts
  have hlog := (machine rom mem signal).log_append assigned (is.take u) (is.drop u)
  rw [List.take_append_drop] at hlog
  rw [hlog, ← hcount]
  exact hcounts.append _

/-- Reports come from port 4. -/
theorem run_reports {is : List TopLevelInput} (h : (machine firmware mem signal).Along (fun _ i => CarriedDelay i) is) :
    ((machine firmware mem signal).run is).tdmaMin.Carries fun p packet => isPeakReport packet.data = true → p = 4 := by
  have honly : ∀ p : Fin 8, (p, 0b0111#4) ∈ [((1 : Fin 8), 0b0001#4), (2, 0b0011#4), (2, 0b0100#4), (3, 0b0010#4),
      (3, 0b0101#4), (4, 0b0111#4), (7, 0b0110#4)] → p = 4 := by decide
  induction is using List.reverseRecOn with
  | nil => exact .init
  | append_singleton is i ih =>
    rw [Machine.along_concat] at h
    rw [Machine.run_concat]
    refine (ih h.1).clock (by omega) (by omega) fun p _ hd => honly p ?_
    exact (run_inv h.1).isData_sendPort (run_chain h.1).loop.sound (run_onlyReads ..) hd

/-- A report that the Nios can read has one of the counts. -/
theorem counts_of_report {is : List TopLevelInput}
    (h : (machine firmware mem signal).Along (fun _ i => CarriedDelay i) is)
    (hreport : Nios.isReport (((machine firmware mem signal).run is).tdmaMin.recvs 7).data = true) :
    Detector.Counts ((machine firmware mem signal).log assigned is)
      ((((machine firmware mem signal).run is).tdmaMin.recvs 7).data &&& 0x3FFFF#32).toNat := by
  have hkind := Nios.isPeakReport_of_isReport hreport
  have hfresh := Chip.fresh_run ((machine firmware mem signal).inputs (chipInput signal) is)
  rw [hosts_pdOnly.run] at hfresh
  have hlabel : (((machine firmware mem signal).run is).tdmaMin.recvs 7).addr = portAddr (4 : Fin 8) := by
    rcases (run_reports h).2 7 with h0 | ⟨p, haddr, hp⟩
    · rw [h0] at hkind
      exact absurd ((isData_zero _).symm.trans hkind) Bool.false_ne_true
    · rw [haddr, hp hkind]
  obtain ⟨u, hwas, -⟩ := hfresh.recv hkind hlabel
  rw [Nios.toNat_count]
  exact counts_of_was hwas

/-! ### The displays -/

/-- The word that the program of the Nios reads. -/
def read (x : TopLevel) (i : TopLevelInput) : List (BitVec 32) :=
  if i.poll then x.nios.reads (x.tdmaMin.recvs 7).data else []

/-- From a reset on, the accesses make the turns of the loop, on the words read. -/
theorem finish_nios {before after : List TopLevelInput} (hreset : ((machine rom mem signal).run before).nios = .init)
    (hup : ∀ i ∈ after, i.key.getLsbD 0 = true) :
    ((machine rom mem signal).run (before ++ after)).nios.finish =
      Nios.loop ((machine rom mem signal).logFrom read ((machine rom mem signal).run before) after) := by
  induction after using List.reverseRecOn with
  | nil =>
    rw [List.append_nil, hreset]
    rfl
  | append_singleton after i ih =>
    have hkey := hup i (List.mem_append_right _ (List.mem_singleton_self i))
    have ih := ih fun j hj => hup j (List.mem_append_left _ hj)
    rw [← List.append_assoc, Machine.run_concat, Machine.logFrom_append, ← Machine.run_append, Nios.loop_append, ← ih]
    show (if i.key.getLsbD 0 = false then Nios.init else if i.poll then _ else _ : Nios).finish =
      List.foldl _ _ (read _ i ++ [])
    rw [hkey, if_neg (by decide), List.append_nil, read]
    split_ifs
    · exact Nios.finish_step ..
    · rfl

/-- A count that the program reads is one for the values that PdAsp has assigned. -/
theorem counts_of_read {is : List TopLevelInput} (h : ∀ j ∈ is, CarriedDelay j) {w : BitVec 32}
    (hread : w ∈ (machine firmware mem signal).log read is) (hreport : Nios.isReport w = true) :
    Detector.Counts ((machine firmware mem signal).log assigned is) (w &&& 0x3FFFF#32).toNat := by
  obtain ⟨seen, i, ⟨rest, rfl⟩, hw⟩ := Machine.mem_log hread
  rw [List.append_assoc] at h ⊢
  rw [read, Nios.reads] at hw
  split_ifs at hw
  · rw [List.mem_singleton.1 hw] at hreport ⊢
    rw [Machine.log_append]
    have hseen : ∀ j ∈ seen, CarriedDelay j := fun j hj => h j (List.mem_append_left _ hj)
    exact (counts_of_report (Machine.along_of_forall hseen) hreport).append _
  · cases hw
  · cases hw

/-- From the correlations to the displays, with the keys used so that the delay is sixteen clocks or more. `before` is
empty or ends with KEY0 pressed, in `after` the key is up. Each count that the program has read since is one for the
values that PdAsp has assigned, be it before the reset. The largest of the counts is kept, and whenever the program is
between two turns of its loop the displays show its last three digits, or none before a count that is not zero. -/
theorem counts_displayed (mem : BitVec 12 → Word) (signal : BitVec 12 → BitVec 10) (before after : List TopLevelInput)
    (hdelay : ∀ j ∈ before ++ after, CarriedDelay j) (hreset : ∀ i ∈ before.getLast?, i.key.getLsbD 0 = false)
    (hup : ∀ i ∈ after, i.key.getLsbD 0 = true) :
    let M := machine firmware mem signal
    let counts := Nios.counts (M.logFrom read (M.run before) after)
    let nios := (M.run (before ++ after)).nios
    (∀ c ∈ counts, Detector.Counts (M.log assigned (before ++ after)) c.toNat) ∧
      (∀ c ∈ counts, c ≤ nios.maxCorr) ∧ (nios.maxCorr = 0 ∨ nios.maxCorr ∈ counts) ∧
      (nios.todo = [] → nios.Shows nios.maxCorr ∧ nios.displayed = nios.maxCorr.toNat % 1000) := by
  intro M counts nios
  have hinit : (M.run before).nios = .init := by
    rcases List.eq_nil_or_concat before with rfl | ⟨before, i, rfl⟩
    · rfl
    · rw [List.concat_eq_append] at hreset ⊢
      rw [Machine.run_concat]
      exact if_pos (hreset i (by rw [List.getLast?_concat]; rfl))
  have hloop : nios.finish = Nios.loop (M.logFrom read (M.run before) after) := finish_nios hinit hup
  obtain ⟨hle, hmem⟩ := Nios.maxCorr_loop (M.logFrom read (M.run before) after)
  rw [← hloop, Nios.maxCorr_finish] at hle hmem
  refine ⟨fun c hc => ?_, hle, hmem, fun htodo => ?_⟩
  · obtain ⟨w, hw, rfl⟩ := List.mem_map.1 hc
    obtain ⟨hread, hreport⟩ := List.mem_filter.1 hw
    refine counts_of_read hdelay ?_ hreport
    rw [Machine.log_append]
    exact List.mem_append_right _ hread
  · have hshows := Nios.shows_loop (M.logFrom read (M.run before) after)
    rw [← hloop, Nios.finish_of_nil htodo] at hshows
    exact ⟨hshows, hshows.displayed⟩

/-- KEY0 is pressed once, and out of the reset KEY2 and KEY3 set short intervals and windows; the signal falls from 100
to 1. PdAsp takes a value, a larger one and one that ends the rise, and the Nios reads the count 1. -/
theorem counts_displayed_one :
    let signal : BitVec 12 → BitVec 10 := fun a => if a.toNat < 3 then 100 else 1
    let before : List TopLevelInput := [⟨0b1110, 0, true⟩]
    let after : List TopLevelInput := List.replicate 100 ⟨0b1111, 0, true⟩ ++ [⟨0b1011, 8, true⟩, ⟨0b0111, 1, true⟩] ++
      List.replicate 163 ⟨0b1111, 0, true⟩
    Detector.Counts ((machine firmware (fun _ => 0) signal).log assigned (before ++ after)) 1 ∧
      ((machine firmware (fun _ => 0) signal).run (before ++ after)).nios.displayed = 1 := by
  intro signal before after
  obtain ⟨hread, htodo, hmax⟩ : 1 ∈ Nios.counts ((machine firmware (fun _ => 0) signal).logFrom read
        ((machine firmware (fun _ => 0) signal).run before) after) ∧
      ((machine firmware (fun _ => 0) signal).run (before ++ after)).nios.todo = [] ∧
      ((machine firmware (fun _ => 0) signal).run (before ++ after)).nios.maxCorr = 1 := by decide +kernel
  obtain ⟨hcounts, -, -, hdisplayed⟩ := counts_displayed (fun _ => 0) signal before after
    (by decide +kernel) (by decide +kernel) (by decide +kernel)
  have hshown := (hdisplayed htodo).2
  rw [hmax] at hshown
  exact ⟨hcounts 1 hread, hshown⟩

end TopLevel
end TdmaSoc
