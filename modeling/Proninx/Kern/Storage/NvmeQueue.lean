import Proninx.Lib.PhaseRing
import Proninx.Lib.Runs

/-!
# The NVMe I/O queue

`nvme_submit_io_cmd` of `nvme.c` and the device behind it. The driver
writes a command into the submission ring, rings the doorbell, and looks
so many times whether the next entry of the completion ring has the phase
it waits for. It holds the queue's lock all the time, so there is one call
at a time; the device works in between, at its own pace: it fetches the
commands up to the doorbell, in order, and posts one completion for each,
in order, as long as the completion ring has room.

`call` in a command is the number of the call that submitted it, and
`done` has the completions the device has posted, with the number of the
call each is for. `timeouts` counts the calls that gave up.
-/

namespace Proninx.Storage

open Function List Nat Option PhaseRing

abbrev NVME_IO_Q_SIZE : Nat := 64

def NVME_SPINS : Nat := 500000

/-- `struct nvme_sqe` with the command itself of some type `κ`. -/
structure Sqe (κ : Type) where
  cid : Nat
  cmd : κ
  call : Nat
  deriving DecidableEq, Repr

structure Cqe where
  sqHead : Nat
  cid : Nat
  status : Nat
  deriving DecidableEq, Repr

/-- `status & 1` -/
def Cqe.phase (c : Cqe) : Bool := c.status % 2 = 1

/-- `status >> 1` -/
def Cqe.code (c : Cqe) : Nat := c.status / 2

structure NvmeQueue (κ : Type) where
  /-- The rings. -/
  sq : Nat → Option (Sqe κ)
  cq : Nat → Cqe
  sqTail : Nat
  cqHead : Nat
  cqPhase : Bool
  /-- The doorbells. -/
  sqDb : Nat
  cqDb : Nat
  calls : Nat
  /-- How often the call under way has looked. -/
  spin : Option Nat
  timeouts : Nat
  devHead : Nat
  devTail : Nat
  devPhase : Bool
  fetched : List (Sqe κ)
  done : List (Nat × Cqe)

namespace NvmeQueue

variable {κ : Type}

inductive Act (κ : Type) where
  /-- `nvme_submit_io_cmd` is called. -/
  | submit (cmd : κ)
  | look
  | fetch
  /-- The device posts a completion with this status code. -/
  | post (code : Nat)

inductive Reply where
  | quiet
  /-- A call returns 0, or -1. -/
  | returned (call : Nat) (ok : Bool)
  deriving DecidableEq, Repr

def init : NvmeQueue κ where
  sq := fun _ => none
  cq := fun _ => ⟨0, 0, 0⟩
  sqTail := 0
  cqHead := 0
  cqPhase := true
  sqDb := 0
  cqDb := 0
  calls := 0
  spin := none
  timeouts := 0
  devHead := 0
  devTail := 0
  devPhase := true
  fetched := []
  done := []

/-- `nvme_submit_io_cmd` up to its loop. -/
def submit (s : NvmeQueue κ) (cmd : κ) : NvmeQueue κ :=
  let tail := (s.sqTail + 1) % NVME_IO_Q_SIZE
  { s with
    sq := update s.sq s.sqTail (some ⟨s.sqTail, cmd, s.calls⟩)
    sqTail := tail
    sqDb := tail
    calls := s.calls + 1
    spin := some 0 }

/-- One round of the loop, and what follows when it is the last. -/
def look (s : NvmeQueue κ) (spin : Nat) : NvmeQueue κ × Reply :=
  let cqe := s.cq s.cqHead
  if cqe.phase = s.cqPhase then
    let head := (s.cqHead + 1) % NVME_IO_Q_SIZE
    ({ s with
        cqHead := head
        cqPhase := if head = 0 then !s.cqPhase else s.cqPhase
        cqDb := head
        spin := none }, .returned (s.calls - 1) (cqe.code = 0))
  else if spin + 1 = NVME_SPINS then
    ({ s with spin := none, timeouts := s.timeouts + 1 }, .returned (s.calls - 1) false)
  else ({ s with spin := some (spin + 1) }, .quiet)

def fetch (s : NvmeQueue κ) : Option (NvmeQueue κ) :=
  if s.devHead = s.sqDb then none
  else
    (s.sq s.devHead).map fun sqe =>
      { s with
        devHead := (s.devHead + 1) % NVME_IO_Q_SIZE
        fetched := s.fetched ++ [sqe] }

def post (s : NvmeQueue κ) (code : Nat) : Option (NvmeQueue κ) :=
  match s.fetched with
  | [] => none
  | sqe :: rest =>
    let tail := (s.devTail + 1) % NVME_IO_Q_SIZE
    if tail = s.cqDb then none
    else
      let cqe : Cqe := ⟨s.devHead, sqe.cid, 2 * code + s.devPhase.toNat⟩
      some { s with
        cq := update s.cq s.devTail cqe
        devTail := tail
        devPhase := if tail = 0 then !s.devPhase else s.devPhase
        fetched := rest
        done := s.done ++ [(sqe.call, cqe)] }

def step (s : NvmeQueue κ) : Act κ → Option (NvmeQueue κ × Reply)
  | .submit cmd => if s.spin = none then some (s.submit cmd, .quiet) else none
  | .look => s.spin.map s.look
  | .fetch => s.fetch.map (·, .quiet)
  | .post code => (s.post code).map (·, .quiet)

/-- No call is made after one has timed out. -/
def Timely (s : NvmeQueue κ) : Act κ → Prop
  | .submit _ => s.timeouts = 0
  | _ => True

/-- Driver and device count the same commands: every index is a count modulo
the size of the ring, the one command that may be under way is where the
device looks for it, and the completions are those of the calls in order. -/
structure Sound (s : NvmeQueue κ) (taken fetched : Nat) : Prop where
  order : taken ≤ s.done.length ∧ s.done.length ≤ fetched ∧ fetched ≤ s.calls
  calls : s.calls = taken + s.timeouts + (if s.spin = none then 0 else 1)
  one : s.calls ≤ taken + 1
  sqTail : s.sqTail = s.calls % NVME_IO_Q_SIZE
  sqDb : s.sqDb = s.sqTail
  cqHead : s.cqHead = taken % NVME_IO_Q_SIZE
  cqPhase : s.cqPhase = lap NVME_IO_Q_SIZE taken
  cqDb : s.cqDb = s.cqHead
  devHead : s.devHead = fetched % NVME_IO_Q_SIZE
  devTail : s.devTail = s.done.length % NVME_IO_Q_SIZE
  devPhase : s.devPhase = lap NVME_IO_Q_SIZE s.done.length
  sq : fetched < s.calls → ∃ sqe, s.sq s.devHead = some sqe ∧ sqe.call = fetched
  fetched : s.fetched.map (·.call) = List.range' s.done.length (fetched - s.done.length)
  done : s.done.map (·.1) = List.range s.done.length
  cq : Shows NVME_IO_Q_SIZE Cqe.phase s.cq (s.done.map (·.2))

variable {s t : NvmeQueue κ} {taken fetched : Nat}

lemma size_pos : 0 < NVME_IO_Q_SIZE := by decide

lemma mod_succ (i : Nat) : (i % NVME_IO_Q_SIZE + 1) % NVME_IO_Q_SIZE = (i + 1) % NVME_IO_Q_SIZE :=
  mod_add_mod i NVME_IO_Q_SIZE 1

lemma init_sound : (init : NvmeQueue κ).Sound 0 0 where
  order := ⟨le_rfl, le_rfl, le_rfl⟩
  calls := rfl
  one := Nat.zero_le 1
  sqTail := rfl
  sqDb := rfl
  cqHead := rfl
  cqPhase := rfl
  cqDb := rfl
  devHead := rfl
  devTail := rfl
  devPhase := show true = lap NVME_IO_Q_SIZE 0 by decide
  sq := nofun
  fetched := rfl
  done := rfl
  cq := shows_nil fun _ => rfl

section

variable (h : s.Sound taken fetched)
include h

lemma Sound.submit (hspin : s.spin = none) (htimely : s.timeouts = 0) (cmd : κ) :
    (s.submit cmd).Sound taken fetched := by
  have hcalls : s.calls = taken := by rw [h.calls, htimely, if_pos hspin]; rfl
  obtain ⟨htaken, hdone, hfetched⟩ := h.order
  have hall : s.calls = fetched := by omega
  refine { h with
    order := ⟨htaken, hdone, le_succ_of_le hfetched⟩
    calls := ?_
    one := succ_le_succ hcalls.le
    sqTail := ?_
    sqDb := rfl
    sq := fun _ => ⟨⟨s.sqTail, cmd, s.calls⟩, ?_, hall⟩ }
  · show s.calls + 1 = taken + s.timeouts + 1
    rw [hcalls, htimely]
  · show (s.sqTail + 1) % NVME_IO_Q_SIZE = (s.calls + 1) % NVME_IO_Q_SIZE
    rw [h.sqTail, mod_succ]
  have hhead : s.devHead = s.sqTail := by rw [h.devHead, h.sqTail, hall]
  show update s.sq s.sqTail _ s.devHead = _
  rw [hhead, update_self]

lemma Sound.ready_iff : (s.cq s.cqHead).phase = s.cqPhase ↔ taken < s.done.length := by
  obtain ⟨htaken, hdone, hfetched⟩ := h.order
  have hlen : (s.done.map (·.2)).length = s.done.length := length_map ..
  have hone := h.one
  have hpos := size_pos
  rw [h.cqHead, h.cqPhase, h.cq.ready_iff hpos (by omega) (by omega), hlen]

lemma Sound.own (hlt : taken < s.done.length) : (taken, s.cq s.cqHead) ∈ s.done := by
  obtain ⟨htaken, hdone, hfetched⟩ := h.order
  have hone := h.one
  have hpos := size_pos
  obtain ⟨c, cqe, hget⟩ : ∃ c cqe, s.done[taken]? = some (c, cqe) :=
    ⟨_, _, List.getElem?_eq_getElem hlt⟩
  have hcall : c = taken := by
    have hmap : (s.done.map (·.1))[taken]? = some c := by rw [List.getElem?_map, hget]; rfl
    rw [h.done, List.getElem?_range hlt] at hmap
    exact (some.inj hmap).symm
  have hcqe : s.cq s.cqHead = cqe := by
    rw [h.cqHead]
    refine (h.cq.old taken cqe ?_ ?_).1
    · rw [List.getElem?_map, hget]
      rfl
    rw [length_map]
    omega
  rw [hcqe]
  exact mem_of_getElem? (hcall ▸ hget)

lemma Sound.look {spin : Nat} (hspin : s.spin = some spin) :
    (∃ taken', (s.look spin).1.Sound taken' fetched) ∧
      ∀ call, (s.look spin).2 = .returned call true →
        ∃ cqe, (call, cqe) ∈ s.done ∧ cqe.code = 0 := by
  have hcalls : s.calls = taken + s.timeouts + 1 := by rw [h.calls, hspin]; rfl
  have hone := h.one
  obtain ⟨htaken, hdone, hfetched⟩ := h.order
  rw [NvmeQueue.look]
  by_cases hready : (s.cq s.cqHead).phase = s.cqPhase
  · have hlt : taken < s.done.length := h.ready_iff.mp hready
    rw [if_pos hready]
    refine ⟨⟨taken + 1, ?_⟩, fun call hcall => ?_⟩
    · refine { h with
        order := ⟨hlt, hdone, hfetched⟩
        calls := ?_
        one := le_succ_of_le hone
        cqHead := ?_
        cqPhase := ?_
        cqDb := rfl }
      · show s.calls = taken + 1 + s.timeouts + 0
        omega
      · rw [h.cqHead, mod_succ]
      rw [h.cqHead, mod_succ, h.cqPhase, lap_succ]
    · obtain ⟨hcall, hcode⟩ := Reply.returned.inj hcall
      obtain rfl : taken = call := by omega
      exact ⟨_, h.own hlt, of_decide_eq_true hcode⟩
  · rw [if_neg hready]
    split_ifs with hlast
    · refine ⟨⟨taken, { h with calls := ?_ }⟩, fun call hcall => ?_⟩
      · show s.calls = taken + (s.timeouts + 1) + 0
        omega
      · exact nomatch (Reply.returned.inj hcall).2
    · exact ⟨⟨taken, { h with calls := hcalls }⟩, nofun⟩

lemma Sound.fetch (hstep : s.fetch = some t) : t.Sound taken (fetched + 1) := by
  obtain ⟨hne, hstep⟩ := ite_none_left_eq_some.mp hstep
  obtain ⟨sqe, hsqe, rfl⟩ := map_eq_some_iff.mp hstep
  obtain ⟨htaken, hdone, hfetched⟩ := h.order
  have hone := h.one
  have hlt : fetched < s.calls := by
    refine lt_of_le_of_ne hfetched fun heq => hne ?_
    rw [h.devHead, h.sqDb, h.sqTail, heq]
  have hcall : sqe.call = fetched := by
    obtain ⟨sqe', hsqe', hcall⟩ := h.sq hlt
    rwa [some.inj (hsqe.symm.trans hsqe')]
  refine { h with
    order := ⟨htaken, le_succ_of_le hdone, hlt⟩
    devHead := ?_
    sq := fun hlt' => absurd (show fetched + 1 < s.calls from hlt') (by omega)
    fetched := ?_ }
  · rw [h.devHead, mod_succ]
  rw [map_append, h.fetched, map_singleton, hcall, succ_sub hdone, range'_concat]
  simp only [one_mul, Nat.add_sub_cancel' hdone]

lemma Sound.post {code : Nat} (hstep : s.post code = some t) : t.Sound taken fetched := by
  obtain ⟨htaken, hdone, hfetched⟩ := h.order
  rw [NvmeQueue.post] at hstep
  split at hstep
  · cases hstep
  rename_i sqe rest hlist
  obtain ⟨-, hstep⟩ := ite_none_left_eq_some.mp hstep
  obtain rfl := some.inj hstep
  have hcalls := h.fetched
  rw [hlist, map_cons] at hcalls
  obtain ⟨k, hk⟩ : ∃ k, fetched - s.done.length = k + 1 := by
    refine exists_eq_succ_of_ne_zero fun hzero => ?_
    rw [hzero] at hcalls
    cases hcalls
  rw [hk, range'_succ] at hcalls
  obtain ⟨hcall, hrest⟩ := List.cons.inj hcalls
  have hlen : ∀ p : Nat × Cqe, (s.done ++ [p]).length = s.done.length + 1 := fun _ =>
    length_append
  refine { h with
    order := ⟨?_, ?_, hfetched⟩
    devTail := ?_
    devPhase := ?_
    fetched := ?_
    done := ?_
    cq := ?_ }
  · rw [hlen]
    omega
  · rw [hlen]
    omega
  · rw [hlen, h.devTail, mod_succ]
  · rw [hlen, h.devTail, mod_succ, h.devPhase, lap_succ]
  · rw [hlen, show fetched - (s.done.length + 1) = k by omega]
    exact hrest
  · rw [hlen, map_append, h.done, map_singleton, hcall, range_succ]
  have hpost := h.cq.post size_pos (v := ⟨s.devHead, sqe.cid, 2 * code + s.devPhase.toNat⟩) (by
      rw [length_map, ← h.devPhase, Cqe.phase, mul_add_mod]
      cases s.devPhase <;> rfl)
  rw [length_map, ← h.devTail] at hpost
  rw [map_append]
  exact hpost

/-- One step keeps the counts, and a call that returns 0 has found the
device's completion of its own command. -/
lemma Sound.step {a : Act κ} {r : Reply} (htimely : s.Timely a) (hstep : s.step a = some (t, r)) :
    (∃ taken' fetched', t.Sound taken' fetched') ∧
      ∀ call, r = .returned call true → ∃ cqe, (call, cqe) ∈ s.done ∧ cqe.code = 0 := by
  cases a with
  | submit cmd =>
    obtain ⟨hspin, heq⟩ := ite_none_right_eq_some.mp hstep
    cases heq
    exact ⟨⟨taken, fetched, h.submit hspin htimely cmd⟩, nofun⟩
  | look =>
    obtain ⟨spin, hspin, heq⟩ := map_eq_some_iff.mp hstep
    obtain ⟨⟨taken', hsound⟩, hret⟩ := h.look hspin
    rw [heq] at hsound hret
    exact ⟨⟨taken', fetched, hsound⟩, hret⟩
  | fetch =>
    obtain ⟨t', ht, heq⟩ := map_eq_some_iff.mp hstep
    cases heq
    exact ⟨⟨taken, fetched + 1, h.fetch ht⟩, nofun⟩
  | post code =>
    obtain ⟨t', ht, heq⟩ := map_eq_some_iff.mp hstep
    cases heq
    exact ⟨⟨taken, fetched, h.post ht⟩, nofun⟩

end

/-- As long as no call is made after one has timed out, a call returns 0
only when the device has completed its own command with success, however
often the rings have gone round. -/
theorem returned_own_completion {as : List (Act κ × Reply)}
    (hrun : Runs.Run (fun s a t => s.Timely a.1 ∧ step s a.1 = some (t, a.2)) init as s)
    {a : Act κ} {call : Nat} (htimely : s.Timely a)
    (hstep : s.step a = some (t, .returned call true)) :
    ∃ cqe, (call, cqe) ∈ s.done ∧ cqe.code = 0 := by
  obtain ⟨taken, fetched, h⟩ : ∃ taken fetched, s.Sound taken fetched :=
    hrun.invariant ⟨0, 0, init_sound⟩
      fun _ _ _ ⟨_, _, h⟩ hst => (h.step hst.1 hst.2).1
  exact (h.step htimely hstep).2 call rfl

/-- One command, done in time. -/
theorem returned_own_completion_one :
    ∃ s t, Runs.Run (fun s a t => Timely s a.1 ∧ step s a.1 = some (t, a.2)) (init : NvmeQueue Unit)
        [(.submit (), .quiet), (.look, .quiet), (.fetch, .quiet), (.post 0, .quiet)] s ∧
      step s .look = some (t, .returned 0 true) ∧ ∃ cqe, (0, cqe) ∈ s.done ∧ cqe.code = 0 := by
  refine Exists₂.imp (p := fun s t => _ ∧ _) (fun s t h =>
    ⟨h.1, h.2, returned_own_completion h.1 (a := .look) trivial h.2⟩) ?_
  refine ⟨_, _, .cons ⟨?_, rfl⟩ (.cons ⟨?_, rfl⟩ (.cons ⟨?_, rfl⟩ (.cons ⟨?_, rfl⟩ .nil))), rfl⟩
  · exact rfl
  all_goals exact trivial

lemma looks (hphase : (s.cq s.cqHead).phase ≠ s.cqPhase) : ∀ k < NVME_SPINS,
    Runs.Run (fun s a t => step s a.1 = some (t, a.2)) { s with spin := some 0 }
      (List.replicate k (.look, .quiet)) { s with spin := some k }
  | 0, _ => .nil
  | k + 1, hk => by
    rw [replicate_succ']
    refine (looks hphase k (lt_of_succ_lt hk)).append (.cons ?_ .nil)
    show some (look _ k) = _
    rw [look, if_neg hphase, if_neg hk.ne]

/-- The first call times out, its command is completed afterwards, and the
second call takes this completion for its own, which the device has not
even fetched. -/
theorem returned_late_completion :
    ∃ s t, Runs.Run (fun s a t => step s a.1 = some (t, a.2)) (init : NvmeQueue Unit)
        ((.submit (), .quiet) :: List.replicate 499999 (.look, .quiet) ++
          [(.look, .returned 0 false), (.fetch, .quiet), (.post 0, .quiet), (.submit (), .quiet)])
        s ∧
      step s .look = some (t, .returned 1 true) ∧ ∀ cqe, (1, cqe) ∉ s.done := by
  have hlooks := looks (s := (init : NvmeQueue Unit).submit ()) nofun 499999 (by decide)
  refine ⟨_, _, .cons rfl (hlooks.append (.cons rfl (.cons rfl (.cons rfl (.cons rfl .nil))))),
    rfl, ?_⟩
  intro cqe hmem
  cases mem_singleton.mp hmem

end NvmeQueue

end Proninx.Storage
