import Proninx.Kern.Storage.Ahci
import Proninx.Kern.Storage.Ide

/-!
# What a finished request says

Neither `ideintr` nor `ahci_check_port_completion` does anything about an
error but print it: the buffer is marked valid and clean in any case. What
`iderw` and `ahcirw` return is what the drive has read or written in the
runs without such errors, and only there.
-/

namespace Proninx.Storage

open Vm

/-- As long as every request that is completed was carried out with
success, a buffer that comes back from `iderw` or `ahcirw` was read or
written by the drive. -/
theorem returned_served {ν β : Type} [DecidableEq ν] [Fintype ν] :
    (∀ (s t : Ide ν β) (as : List (Ide.Act ν β)), s.Idle →
      Runs.Run (fun s a t => Ide.Fine s a ∧ Ide.step s a = some t) s as t → ∀ b w,
        t.asked b = some w → (t.bufs b).settled = true →
          Served (t.bufs b) (unitFor (t.bufs b).dev) w (t.report b)) ∧
    ∀ (s t : Port ν) (as : List (Port.Act ν)), s.Idle →
      Runs.Run (fun s a t => Port.Fine s a ∧ Port.step s a = some t) s as t → ∀ b r,
        t.asked b = some r → (t.hdrs b).settled = true →
          Served (t.buf b) t.port r.write (t.report b) :=
  ⟨fun _ _ _ hidle hrun _ _ hb hsettled => hidle.served hrun hb hsettled,
    fun _ _ _ hidle hrun _ _ hb hsettled => hidle.served hrun hb hsettled⟩

/-- Two drives with one buffer for block 5, to be read. -/
def quietIde : Ide Unit Nat where
  channel := 0
  sectors := fun _ => 100
  bufs := fun _ => ⟨⟨false, false, 1, 5⟩, 0⟩
  links := ⟨none, fun _ => none⟩
  task := none
  disk := fun _ _ => 7
  asked := fun _ => none
  report := fun _ => none

/-- A port without `HBA_CAP_S64A`, with one buffer for block 5, to be read,
at `addr`. -/
def quietPort (addr : Nat) (haddr : InKernel addr BSIZE) : Port Unit where
  port := 0
  wideDma := false
  layout := ⟨fun _ => addr, fun _ => haddr, fun _ _ hne => absurd rfl hne⟩
  hdrs := fun _ => ⟨false, false, 4, 5⟩
  mem := fun _ => 0
  links := ⟨none, fun _ => none⟩
  busy := false
  st := true
  ci := false
  is := false
  tfd := false
  command := none
  disk := fun _ => ⟨List.replicate BSIZE 1, List.length_replicate⟩
  served := none
  asked := fun _ => none
  lost := fun _ => false
  report := fun _ => none

set_option maxRecDepth 4000 in
/-- One block is read from each. -/
theorem returned_served_one :
    (∃ t, Runs.Run (fun s a t => Ide.Fine s a ∧ Ide.step s a = some t) quietIde
        [.iderw (), .intr .ok] t ∧
      t.asked () = some false ∧ (t.bufs ()).settled = true ∧
      Served (t.bufs ()) (unitFor (t.bufs ()).dev) false (t.report ())) ∧
    ∃ t, Runs.Run (fun s a t => Port.Fine s a ∧ Port.step s a = some t)
        (quietPort (KERNBASE + 2 ^ 20) (inKernel_image (by decide))) [.ahcirw () false, .serve true, .intr] t ∧
      t.asked () = some ⟨false, false⟩ ∧ (t.hdrs ()).settled = true ∧
      Served (t.buf ()) t.port false (t.report ()) := by
  constructor
  · refine Exists.imp (p := fun t => _ ∧ _ ∧ _) (fun t h => ⟨h.1, h.2.1, h.2.2,
      returned_served.1 quietIde t _ ⟨rfl, fun _ => rfl⟩ h.1 () false h.2.1 h.2.2⟩) ?_
    exact ⟨_, .cons ⟨trivial, rfl⟩ (.cons ⟨fun _ => rfl, rfl⟩ .nil), rfl, rfl⟩
  refine Exists.imp (p := fun t => _ ∧ _ ∧ _) (fun t h => ⟨h.1, h.2.1, h.2.2,
    (returned_served (β := Nat)).2 _ t _ ⟨rfl, rfl, fun _ => rfl, fun _ => rfl⟩ h.1 ()
      ⟨false, false⟩ h.2.1 h.2.2⟩) ?_
  exact ⟨_, .cons ⟨⟨rfl, rfl, .inr (by decide)⟩, rfl⟩
    (.cons ⟨rfl, rfl⟩ (.cons ⟨trivial, rfl⟩ .nil)), rfl, rfl⟩

/-- A read that the IDE drive ends with an error, one that the AHCI drive
ends with an error, and one that never reaches it because the data are out
of its reach: all three buffers come back valid. -/
theorem returned_after_error :
    (∃ t, Runs.Run (fun s a t => Ide.step s a = some t) quietIde [.iderw (), .intr .error] t ∧
      t.asked () = some false ∧ (t.bufs ()).settled = true ∧
      ¬ Served (t.bufs ()) (unitFor (t.bufs ()).dev) false (t.report ())) ∧
    (∃ t, Runs.Run (fun s a t => Port.step s a = some t) (quietPort (KERNBASE + 2 ^ 20) (inKernel_image (by decide)))
        [.ahcirw () false, .serve false, .intr] t ∧
      t.asked () = some ⟨false, false⟩ ∧ (t.hdrs ()).settled = true ∧
      ¬ Served (t.buf ()) t.port false (t.report ())) ∧
    ∃ t, Runs.Run (fun s a t => Port.step s a = some t) (quietPort (DMAP_BASE + 2 ^ 32) (inKernel_dmap (by decide)))
        [.ahcirw () false, .poll] t ∧
      t.asked () = some ⟨false, false⟩ ∧ (t.hdrs ()).settled = true ∧
      ¬ Served (t.buf ()) t.port false (t.report ()) := by
  refine ⟨⟨_, .cons rfl (.cons rfl .nil), rfl, rfl, ?_⟩,
    ⟨_, .cons rfl (.cons rfl (.cons rfl .nil)), rfl, rfl, ?_⟩,
    ⟨_, .cons rfl (.cons rfl .nil), rfl, rfl, ?_⟩⟩
  all_goals
    intro hserved
    cases hserved

end Proninx.Storage
