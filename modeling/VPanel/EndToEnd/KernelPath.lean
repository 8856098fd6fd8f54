import VPanel.EndToEnd.KernelReads
import VPanel.EndToEnd.LampPath

/-!
# From the clock interrupt to the lamps

The frames of a PDP-11 are what its client read while the clock interrupt wrote
the panel.  The page shows one of these reads, with the halves of the address
exchanged.
-/

namespace VPanel.EndToEnd

open EventRun JsInteger Kernel LossyNetwork Page Proxy TornCopy Wire
open Page.Queue (handled)

/-! ## The interrupt that a read finds -/

theorem panelAt_succ {boot : PdpPanelState} {is : List Interrupt} {k : ℕ} {i : Interrupt}
    (hi : is[k]? = some i) : panelAt boot is (k + 1) = i.show (panelAt boot is k) := by
  rw [panelAt, List.take_add_one, hi]
  exact List.foldl_concat ..

theorem panelOfBytes_eq_show {boot : PdpPanelState} {is : List Interrupt} {ms : List ℕ}
    {bytes : List UInt8} (h : Copied (panelMemory boot is) ms bytes) (hlength : ms.length = 16)
    {k : ℕ} {i : Interrupt} (hms : ∀ m ∈ ms, m = k + 1) (hi : is[k]? = some i) :
    panelOfBytes bytes = i.show (panelAt boot is k) := by
  rw [eq_panelMemory h hlength hms, ← panelAt_succ hi]
  exact panelOfBytes_panelBytes _

/-! ## The frame that a page shows -/

/-- After a message the page shows a frame that was sent. -/
theorem LampPage.shows_latest {port : ℕ} {M : ProxyModule} (L : LampPage M) {tr : SystemTrace}
    {n : Network (List UInt8) ProxyState} {p : PageSide} {es : List PageEvent}
    (hM : (port, M) ∈ proxies) (h : Run (overNetwork M.reply) tr n) (hclient : L.SendsAll tr)
    (hp : p.Follows (receiverSteps tr)) (hes : messagesOf es = handled p.queueSteps)
    (hhandled : handled p.queueSteps ≠ []) :
    ∃ (earlier : List L.Sample) (x : L.Sample) (panel : Pdp.Panel), L.runEvents es = .ok panel ∧
      FullRedraw L.lamps (latestOf (shown es).testing ((earlier ++ [x]).map L.json)) panel ∧
      L.frame x ∈ sent tr ∧
      (p.CaughtUp (receiverSteps tr) n.receiver → (delivered tr).getLast? = some (L.frame x)) := by
  obtain ⟨xs, panel, hrun, hdrawn, hlength, hpart, hcaught⟩ := L.shows hM h hclient hp hes
  have hne : xs ≠ [] := by
    rintro rfl
    exact hhandled (List.eq_nil_of_length_eq_zero hlength.symm)
  obtain ⟨earlier, x, rfl⟩ : ∃ earlier x, xs = earlier ++ [x] :=
    ⟨_, _, (List.dropLast_append_getLast hne).symm⟩
  rw [List.map_append] at hpart hcaught
  refine ⟨earlier, x, panel, hrun, hdrawn, ?_, fun hdone ↦ ?_⟩
  · apply (genuine h).2
    apply hpart.subset
    exact List.mem_append_right _ List.mem_cons_self
  · obtain ⟨before, hbefore⟩ := (hcaught hdone).1
    rw [← hbefore, ← List.append_assoc]
    exact List.getLast?_concat

theorem pdpDecoded_of_sent {s s' : PdpPanelState} {junk junk' : ℕ → UInt8}
    (h : pdpSendFrames s junk = pdpSendFrames s' junk') : pdpDecoded s = pdpDecoded s' := by
  have hs := getPanelState_pdpSendFrames s junk
  rw [h, getPanelState_pdpSendFrames] at hs
  exact (Except.ok.inj (Option.some.inj hs)).symm

/-- A frame of the client is the frame of one of its reads. -/
theorem exists_read {boot : PdpPanelState} {is : List Interrupt} {reads : List (List ℕ)}
    {frames : List (List UInt8)} (h : List.Forall₂ (FrameRead boot is) reads frames)
    {frame : List UInt8} (hframe : frame ∈ frames) :
    ∃ ms, (ms, frame) ∈ reads.zip frames ∧ FrameRead boot is ms frame := by
  induction h with
  | nil => cases hframe
  | @cons ms d reads frames hread _ ih =>
      rw [List.zip_cons_cons]
      rcases List.mem_cons.mp hframe with rfl | hlater
      · exact ⟨ms, List.mem_cons_self, hread⟩
      · obtain ⟨ms', hmem, hread'⟩ := ih hlater
        exact ⟨ms', List.mem_cons_of_mem _ hmem, hread'⟩

theorem map_testBit_latest {α : Type} {testing : Bool} {count : ℕ} {key : String}
    {json : α → JsonObject} {v : α → ℕ}
    (hv : ∀ x, numberOf (json x) key % 2 ^ count = v x % 2 ^ count) (earlier : List α) (x : α) :
    (List.range count).map
        ((latestOf testing ((earlier ++ [x]).map json)).mask count key).testBit =
      (List.range count).map fun b ↦ testing || (v x).testBit b := by
  have hlatest : latestValue v (earlier ++ [x]) = v x := by
    rw [latestValue, List.getLast?_concat]
    rfl
  rw [map_testBit_mask hv, hlatest]

section

variable {m : ℕ} {c : Fin m} {boot : PdpPanelState} {htr : HostTrace m} {host : PdpHost m}
  {tr : SystemTrace} {n : Network (List UInt8) ProxyState} {p : PageSide} {es : List PageEvent}

/-- When the datagrams on the network are the frames of one PDP-11, a page that has handled a
message shows, behind any lamp tests, the sixteen bytes of one of its reads.  If no interrupt came
during that read, these are the address, with its halves exchanged, and the register of the latest
interrupt before it. -/
theorem pdp_page_shows_kernel (hhost : Run (pdpWithClient c boot) htr host)
    (h : Run (overNetwork pdProxy.reply) tr n) (hsent : ∀ d ∈ sent tr, d ∈ hostFrames htr)
    (hp : p.Follows (receiverSteps tr)) (hes : messagesOf es = handled p.queueSteps)
    (hhandled : handled p.queueSteps ≠ []) :
    ∃ (ms : List ℕ) (bytes : List UInt8) (junk : ℕ → UInt8) (panel : Pdp.Panel),
      (ms, pdpSendFrames (panelOfBytes bytes) junk) ∈ (readLog htr).reads.zip (hostFrames htr) ∧
      Copied (panelMemory boot (interrupts htr)) ms bytes ∧
      Pdp.runEvents es = .ok panel ∧
      panel.addressId.map LampStyle.lit = (List.range 22).map (fun b ↦ (shown es).testing ||
        (swapHalves (panelOfBytes bytes).psAddress.toNat).testBit b) ∧
      panel.displayId.map LampStyle.lit = (List.range 16).map (fun b ↦ (shown es).testing ||
        (panelOfBytes bytes).psData.toNat.testBit b) ∧
      (∀ k i, (∀ m ∈ ms, m = k + 1) → (interrupts htr)[k]? = some i →
        (panelOfBytes bytes).psAddress = decodePhysAddr i.aprRegs i.pc i.ps ∧
          (panelOfBytes bytes).psData = i.r0) ∧
      (p.CaughtUp (receiverSteps tr) n.receiver →
        (delivered tr).getLast? = some (pdpSendFrames (panelOfBytes bytes) junk)) := by
  have hreads := (hostReads_of_run hhost).reads
  have hclient : pdpPage.SendsAll tr := by
    intro d hd
    obtain ⟨ms, -, hread⟩ := exists_read hreads (hsent d hd)
    obtain ⟨bytes, junk, -, hframe⟩ := hread.sent
    exact ⟨(panelOfBytes bytes, junk), hframe.symm⟩
  have hM : (4000, pdProxy) ∈ proxies := List.mem_of_getElem? (i := 0) rfl
  obtain ⟨earlier, (x : PdpPanelState × (ℕ → UInt8)), panel, hrun, hdrawn, hx, hlast⟩ :=
    pdpPage.shows_latest hM h hclient hp hes hhandled
  obtain ⟨ms, hmem, hread⟩ := exists_read hreads (hsent _ hx)
  obtain ⟨bytes, junk, hcopied, hframe⟩ := hread.sent
  have hdecoded := pdpDecoded_of_sent hframe
  have haddress : swapHalves x.1.psAddress.toNat =
      swapHalves (panelOfBytes bytes).psAddress.toNat := congrFun hdecoded .psAddress
  have hdata : x.1.psData.toNat = (panelOfBytes bytes).psData.toNat := congrFun hdecoded .psData
  rw [hframe] at hmem hlast
  refine ⟨ms, bytes, junk, panel, hmem, hcopied, hrun, ?_, ?_, fun k i hms hi ↦ ?_, hlast⟩
  · have hmasked : ∀ x : PdpPanelState × (ℕ → UInt8), numberOf (pdpPage.json x) "address" % 2 ^ 22 =
        swapHalves x.1.psAddress.toNat % 2 ^ 22 := fun x ↦ and_ones_mod _ 22
    rw [hdrawn.address, ← haddress]
    exact map_testBit_latest hmasked earlier x
  · rw [hdrawn.display, ← hdata]
    exact map_testBit_latest (fun x ↦ rfl) earlier x
  · rw [panelOfBytes_eq_show hcopied hread.length hms hi]
    exact ⟨rfl, rfl⟩

end

def tornSample : pdpPage.Sample := (tornState, fun _ ↦ 0)

def laterSample : pdpPage.Sample := (laterState, fun _ ↦ 0)

/-- The second frame is delivered first, so the page shows the one that was torn. -/
theorem pdp_page_shows_kernel_torn :
    ∃ (htr : HostTrace 1) (tr : SystemTrace) (n : Network (List UInt8) ProxyState) (p : PageSide)
      (o o' : JsonObject) (panel : Pdp.Panel),
      htr.map Prod.fst = tornEvents ∧
      (overNetwork pdProxy.reply).replay ⟨0, .start⟩
          (lossyEvents (pdpPage.frame tornSample) (pdpPage.frame laterSample)) = some (tr, n) ∧
      handled p.queueSteps = [o, o'] ∧ Pdp.runEvents [.message o, .message o'] = .ok panel ∧
      panel.addressId.map LampStyle.lit = (List.range 22).map (0x2340000).testBit ∧
      panel.displayId.map LampStyle.lit = (List.range 16).map (0x0207).testBit := by
  have harrives : Arrives pdProxy (pdpPage.frame tornSample) (pdpPage.frame laterSample)
      (pdpPage.json tornSample) (pdpPage.json laterSample) := by
    unfold Arrives
    decide +kernel
  have hwrites : WritesAll (textOf (pdpPage.json laterSample))
      (textOf (pdpPage.json tornSample)) := by
    unfold WritesAll
    decide +kernel
  have hM : (4000, pdProxy) ∈ proxies := List.mem_of_getElem? (i := 0) rfl
  obtain ⟨htr, host, hhost, hevents, hframes⟩ := exists_run_tornEvents
  obtain ⟨tr, n, p, o, o', hreplay, hrun, hsent, hfollows, hcaught, ho, hdelivered, -⟩ :=
    exists_system hM pdpPage.toFrameClient tornSample laterSample harrives hwrites
  have hsource : ∀ d ∈ sent tr, d ∈ hostFrames htr := by
    rw [hsent, hframes]
    exact fun d hd ↦ hd
  have hes : messagesOf [.message o, .message o'] = handled p.queueSteps := ho.symm
  have hhandled : handled p.queueSteps ≠ [] := by
    rw [ho]
    exact List.cons_ne_nil o [o']
  obtain ⟨ms, bytes, junk, panel, -, -, hpanel, haddress, hdisplay, -, hlast⟩ :=
    pdp_page_shows_kernel hhost hrun hsource hfollows hes hhandled
  have hlatest : pdpSendFrames tornState (fun _ ↦ 0) = pdpSendFrames (panelOfBytes bytes) junk := by
    have hlast := hlast hcaught
    rw [hdelivered] at hlast
    exact Option.some.inj hlast
  have hdecoded := pdpDecoded_of_sent hlatest
  have hswapped : swapHalves (panelOfBytes bytes).psAddress.toNat = 0x2340000 :=
    (congrFun hdecoded .psAddress).symm
  have hdata : (panelOfBytes bytes).psData.toNat = 0x0207 := (congrFun hdecoded .psData).symm
  rw [hswapped] at haddress
  rw [hdata] at hdisplay
  exact ⟨htr, tr, n, p, o, o', panel, hevents, hreplay, ho, hpanel, haddress, hdisplay⟩

end VPanel.EndToEnd
