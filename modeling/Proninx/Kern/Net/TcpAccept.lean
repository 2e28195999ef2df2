import Proninx.Kern.Net.TcpQueues

/-!
# Accepting connections

`proninx_tcp_accept` returns the handle at the head of its listener's
queue without a look at the slot. In a run of orderly steps the slot still
holds a connection announced for the listener. An error or a close before
the accept leaves the handle in the queue of a slot that anybody may open,
and the close of a listener leaves the slots of its queue taken.
-/

namespace Proninx.Tcp

open Function List Net Option RingBuffer Slot State

variable {s t : State} {Q : Fin TCP_SLOTS → List Nat} {l : Fin TCP_SLOTS} {listener : Nat}

/-- The handle at the head of the queue of a listener, for its owner: a
connection that waits for the listener. -/
lemma State.Sound.next_waits (h : s.Sound Q)
    (hl : (s.slots l).state = .listening) (hp : (s.slots l).pcb = some listener)
    (hexit : ∀ k, s.calls (s.slots l).owner ≠ .exiting k)
    (hcount : (s.slots l).accept.count ≠ 0) :
    ∃ (i : Fin TCP_SLOTS) (c : Nat) (q : List Nat), Q l = (i.val + 1) :: q ∧
      (s.slots l).accept.cells (s.slots l).accept.head = i.val + 1 ∧ s.Waits i c listener := by
  obtain ⟨x, q, hq⟩ := (h.ring l hl).exists_cons hcount
  have hx : x ∈ Q l := hq ▸ mem_cons_self
  obtain ⟨i, rfl⟩ := h.handles l hl x hx
  obtain ⟨c, hw⟩ := (h.mem l listener i hl hp fun k hk => absurd hk (hexit k)).mp hx
  exact ⟨i, c, q, hq, (hq ▸ h.ring l hl).pop.1, hw⟩

lemma State.Sound.take (h : s.Sound Q) {i : Fin TCP_SLOTS} {c : Nat} {q : List Nat}
    (hl : (s.slots l).state = .listening) (hp : (s.slots l).pcb = some listener)
    (hq : Q l = (i.val + 1) :: q) (hw : s.Waits i c listener) :
    Sound
      { s.setSlot l { s.slots l with accept := (s.slots l).accept.pop TCP_QUEUE_DEPTH } with
        taken := fun c' => s.taken c' || some c == some c' }
      (update Q l q) := by
  generalize ht : ({ s.setSlot l _ with taken := _ } : State) = t
  have hatl : t.slots l = { s.slots l with accept := (s.slots l).accept.pop TCP_QUEUE_DEPTH } := by
    rw [← ht]; exact update_self ..
  have hne : ∀ j ≠ l, t.slots j = s.slots j := fun j hj => by rw [← ht]; exact update_of_ne hj ..
  have hcalls : t.calls = s.calls := by rw [← ht]; rfl
  have hoffer : t.announcing = s.announcing := by rw [← ht]; rfl
  have hann : t.announced = s.announced := by rw [← ht]; rfl
  have hnext : t.next = s.next := by rw [← ht]; rfl
  have htaken : ∀ c', t.taken c' = true ↔ s.taken c' = true ∨ c' = c := fun c' => by
    rw [← ht]
    change (s.taken c' || some c == some c') ↔ _
    rw [Bool.or_eq_true, beq_iff_eq, some.injEq, eq_comm (a := c)]
  clear ht
  have hseat : ∀ j, (t.slots j).pcb = (s.slots j).pcb ∧ (t.slots j).owner = (s.slots j).owner ∧
      (t.slots j).state = (s.slots j).state := fun j => by
    by_cases hjl : j = l
    · simp only [hjl, hatl, and_self]
    · simp only [hne j hjl, and_self]
  have hpcb j := (hseat j).1
  have hnum := h.numbered
  have hwaits : ∀ j c' m, t.Waits j c' m ↔ s.Waits j c' m ∧ j ≠ i := by
    intro j c' m
    constructor
    · intro hw'
      have hfree : ¬ (s.taken c' = true ∨ c' = c) := by
        rw [← htaken, hw'.taken]
        simp
      refine ⟨⟨hpcb j ▸ hw'.pcb, hann ▸ hw'.announced, by simpa using (not_or.mp hfree).1⟩, ?_⟩
      rintro rfl
      exact (not_or.mp hfree).2 (some.inj ((hpcb j ▸ hw'.pcb).symm.trans hw.pcb))
    · rintro ⟨hw', hj⟩
      refine ⟨(hpcb j).trans hw'.pcb, hann ▸ hw'.announced, ?_⟩
      rw [← Bool.not_eq_true, htaken]
      rintro (hc | rfl)
      · simp [hw'.taken] at hc
      · exact hj (hnum.distinct j i c' hw'.pcb hw.pcb)
  have hring := h.ring l hl
  rw [hq] at hring
  have hnodup := h.nodup l hl
  rw [hq, nodup_cons] at hnodup
  refine h.of_hands hpcb (fun j => (hseat j).2.1) (fun j => by rw [(hseat j).2.2]) hcalls ⟨?_, ?_, ?_, ?_, ?_, ?_⟩
    (fun _ _ _ => by rw [hann]) (fun j hj => ?_) (fun j c' m hw' => ((hwaits j c' m).mp hw').1)
    (fun m hm => ?_) fun m listener' j hm hpm hcur => ?_
  · simpa only [hpcb, hnext] using hnum.pcb
  · simpa only [hann, hnext] using hnum.announced
  · simpa only [hann] using hnum.listener
  · intro c' hc'
    rw [hnext]
    obtain hc' | rfl := (htaken c').mp hc'
    · exact hnum.taken c' hc'
    · exact hnum.pcb i c' hw.pcb
  · simpa only [hpcb] using hnum.distinct
  · intro c' a ha
    obtain ⟨ha1, ha2, ha3⟩ := hnum.offered c' a (hoffer ▸ ha)
    refine ⟨hann ▸ ha1, ?_, fun j => hpcb j ▸ ha3 j⟩
    rw [← Bool.not_eq_true, htaken]
    rintro (hc | rfl)
    · simp [ha2] at hc
    · exact ha3 i hw.pcb
  · rw [hne j fun hjl => hj (hjl ▸ hl)]
  · by_cases hml : m = l
    · rw [hml, hatl, update_self]
      exact ⟨hring.pop.2, hnodup.2, fun x hx => h.handles l hl x (hq ▸ mem_cons_of_mem _ hx)⟩
    rw [hne m hml, update_of_ne hml]
    exact ⟨h.ring m hm, h.nodup m hm, h.handles m hm⟩
  have hmem := h.mem m listener' j hm hpm hcur
  simp only [hwaits]
  by_cases hml : m = l
  · subst hml
    rw [update_self]
    constructor
    · intro hj
      obtain ⟨c', hw'⟩ := hmem.mp (hq ▸ mem_cons_of_mem _ hj)
      exact ⟨c', hw', by rintro rfl; exact hnodup.1 hj⟩
    rintro ⟨c', hw', hj⟩
    have := hmem.mpr ⟨c', hw'⟩
    rw [hq, mem_cons] at this
    exact this.resolve_left fun heq => hj (Fin.ext (Nat.succ.inj heq))
  · rw [update_of_ne hml, hmem]
    refine exists_congr fun c' => ⟨fun hw' => ⟨hw', ?_⟩, And.left⟩
    -- The connection taken waited for another listener.
    rintro rfl
    obtain rfl : c = c' := some.inj (hw.pcb.symm.trans hw'.pcb)
    obtain rfl : listener = listener' :=
      some.inj (hw.announced.symm.trans hw'.announced)
    exact hml (hnum.distinct m l listener hpm hp)

/-- The handle is that of a slot of the process which holds, still after
the step, a connection that waited for the listener. -/
def Handed (s t : State) (pid listener handle : Nat) : Prop :=
  ∃ (i : Fin TCP_SLOTS) (c : Nat), handle = i.val + 1 ∧ s.Waits i c listener ∧
    (t.slots i).pcb = some c ∧ (t.slots i).owner = pid

/-- What one step keeps, and what it says if it accepts. -/
def Keeps (s : State) (x : State × Reply) : Prop :=
  (∃ Q, x.1.Sound Q) ∧
    ∀ pid listener handle, x.2 = .accepted pid listener handle → Handed s x.1 pid listener handle

lemma Keeps.of_sound {r : Reply} (h : t.Sound Q) (hr : ∀ pid l handle, r ≠ .accepted pid l handle) :
    Keeps s (t, r) :=
  ⟨⟨Q, h⟩, fun pid l handle heq => absurd heq (hr pid l handle)⟩

variable {pid : Nat}

section

variable (h : s.Sound Q)
include h

lemma State.Sound.dequeue (hl : (s.slots l).state = .listening)
    (hp : (s.slots l).pcb = some listener) (ho : (s.slots l).owner = pid)
    (hexit : ∀ k, s.calls pid ≠ .exiting k) (timeout now deadline : UInt32) :
    Keeps s (s.dequeue pid l listener timeout now deadline) := by
  have hidle : ∀ {u : State} {R : Fin TCP_SLOTS → List Nat}, u.Sound R → u.calls = s.calls →
      (u.setCall pid .idle).Sound R := fun hu hcalls =>
    hu.setCall (fun k => hcalls ▸ hexit k) nofun nofun nofun
  rw [State.dequeue, Slot.dequeue]
  by_cases hcount : (s.slots l).accept.count = 0
  · rw [if_pos hcount]
    by_cases hend : timeout = 0 ∨ expired now deadline
    · rw [if_pos hend]
      exact .of_sound (hidle h rfl) nofun
    rw [if_neg hend]
    refine .of_sound (h.setCall hexit nofun nofun ?_) nofun
    intro i listener' timeout' deadline' heq
    cases heq
    exact ⟨hp, hl, ho⟩
  rw [if_neg hcount]
  obtain ⟨i, c, q, hq, hcell, hw⟩ := h.next_waits hl hp (fun k => ho ▸ hexit k) hcount
  have hconn : ((slotFor TCP_SLOTS (i.val + 1 : Nat)).bind fun j => (s.slots j).pcb) = some c := by
    rw [slotFor_handle]
    exact hw.pcb
  have htake := hidle (h.take hl hp hq hw) rfl
  have hil : i ≠ l := by
    rintro rfl
    obtain ⟨listener', hp', hnone⟩ := h.listening i hl
    obtain rfl : c = listener' := some.inj (hw.pcb.symm.trans hp')
    exact nomatch hnone.symm.trans hw.announced
  simp only [hcell, hconn]
  refine ⟨⟨_, htake⟩, ?_⟩
  intro pid' listener' handle heq
  cases heq
  have hslot : ∀ x, (s.setSlot l x).slots i = s.slots i := fun x => update_of_ne hil ..
  refine ⟨i, c, rfl, hw, ?_, ?_⟩
  · exact (congrArg Slot.pcb (hslot _)).trans hw.pcb
  · exact (congrArg Slot.owner (hslot _)).trans ((h.owner i c listener l hw hp).symm.trans ho)

lemma Keeps.onOwned {handle : Int} {f : Fin TCP_SLOTS → State × Reply}
    (hf : ∀ i, slotFor TCP_SLOTS handle = some i → (s.slots i).owned pid → Keeps s (f i)) :
    Keeps s (s.onOwned pid handle f) := by
  rw [State.onOwned]
  cases hslot : slotFor TCP_SLOTS handle with
  | none => exact .of_sound h nofun
  | some i => ?_
  dsimp only
  split_ifs with howned
  · exact hf i hslot howned
  · exact .of_sound h nofun

lemma State.Sound.recv (hexit : ∀ k, s.calls pid ≠ .exiting k) (i : Fin TCP_SLOTS) (length : Nat)
    (timeout now deadline : UInt32) :
    Keeps s (s.recv pid i length timeout now deadline) := by
  have hseat : SameSeat (s.slots i) ((s.slots i).recv length timeout now deadline).1 := by
    rw [Slot.recv]
    split <;> exact ⟨rfl, rfl, rfl, .rfl⟩
  rw [State.recv]
  split
  · exact .of_sound (h.setCall hexit nofun nofun nofun) nofun
  · exact .of_sound (h.setCall hexit nofun nofun nofun) nofun
  rename_i slot data heq
  rw [heq] at hseat
  exact .of_sound ((h.setSlot hseat).setCall hexit nofun nofun nofun) nofun

lemma State.Sound.awaitConnect {u : State} (hexit : ∀ k, s.calls pid ≠ .exiting k)
    (i : Fin TCP_SLOTS) (now deadline : UInt32) :
    Keeps u (s.awaitConnect pid i now deadline) := by
  rw [State.awaitConnect]
  split <;> exact .of_sound (h.setCall hexit nofun nofun nofun) nofun

lemma State.Sound.scan (hexit : ∀ k, s.calls pid ≠ .exiting k) (hgone : s.calls pid ≠ .gone)
    (i : Nat) (fresh : Bool) : Keeps s (s.scan pid i fresh) := by
  rw [State.scan]
  split_ifs with hi hfree
  · have hrenew := h.renew (i := ⟨i, hi⟩) (x := (s.slots ⟨i, hi⟩).opened s.next pid) (fun hl => by
        obtain ⟨listener, hp, -⟩ := h.listening _ hl
        exact nomatch hfree.1.symm.trans hp)
      (fun c hc => nomatch hfree.1.symm.trans hc) rfl (CountedRing.queued_reset _ (by decide))
      hexit hgone
    exact .of_sound (hrenew.setCall hexit nofun nofun nofun) nofun
  · exact .of_sound (h.setCall hexit nofun nofun nofun) nofun
  · exact .of_sound (h.setCall hexit nofun nofun nofun) nofun

lemma State.Sound.listen (hidle : s.calls pid = .idle) {i : Fin TCP_SLOTS}
    (howned : (s.slots i).owned pid) (ok : Bool) :
    Keeps s (s.listen i ok) := by
  obtain ⟨hsome, howner⟩ := Slot.owned_iff.mp howned
  rw [State.listen, Slot.listen]
  split
  · exact .of_sound h nofun
  rename_i slot heq
  obtain ⟨hcond, heq⟩ := ite_none_left_eq_some.mp heq
  obtain ⟨hclosed, -, hpcb⟩ := not_or.mp hcond |>.imp_right not_or.mp
  obtain rfl := some.inj heq
  obtain ⟨hok, hplain⟩ : ok ∧ ((s.slots i).pcb.bind s.announced).isSome = false := by
    by_contra hno
    exact hpcb (if_neg hno)
  have hstate : (s.slots i).state ≠ .listening := fun hl => hclosed (by rw [hl]; exact nofun)
  have hann : ∀ c, (s.slots i).pcb = some c → s.announced c = none := fun c hc => by
    simpa [hc] using hplain
  obtain ⟨c, hc⟩ := ne_none_iff_exists'.mp hsome
  rw [if_pos ⟨hok, hplain⟩]
  exact .of_sound (h.renew hstate hann rfl (h.empty i c hc (hann c hc) hstate)
    (by simp [howner, hidle]) (by simp [howner, hidle])) nofun

lemma State.Sound.offer {conn : Nat} (hord : s.Orderly (.offer conn))
    (hstep : s.offer conn = some t) : ∃ Q', t.Sound Q' := by
  rw [State.offer] at hstep
  split at hstep
  · cases hstep
  rename_i a ha
  split_ifs at hstep with hi hfree hself
  · split at hstep
    · cases hstep
      exact ⟨Q, h.setAnnouncing nofun⟩
    rename_i listener hq
    cases hstep
    obtain ⟨hcond, heq⟩ := ite_none_left_eq_some.mp hq
    obtain ⟨hl, hcount⟩ := not_or.mp hcond
    obtain rfl := some.inj heq
    have hl := not_not.mp hl
    obtain ⟨hp, hcursor⟩ := hord a hi ha hfree hl
    exact ⟨_, h.adopt ha hl hp hfree hcount hcursor⟩
  · cases hstep
    refine ⟨Q, h.setAnnouncing fun b hb => ⟨a, ha, ?_⟩⟩
    rw [← some.inj hb]
  · cases hstep
    exact ⟨Q, h.setAnnouncing nofun⟩

lemma State.Sound.goOn {now : UInt32} {fresh : Bool} {x : State × Reply}
    (hstep : s.goOn pid now fresh = some x) : Keeps s x := by
  rw [State.goOn] at hstep
  split at hstep
  · cases hstep
  · cases hstep
  · rename_i i heq
    cases hstep
    exact h.scan (by simp [heq]) (by simp [heq]) i fresh
  · rename_i i deadline heq
    cases hstep
    exact h.awaitConnect (by simp [heq]) i now deadline
  · rename_i l listener timeout deadline heq
    cases hstep
    obtain ⟨hp, hl, ho⟩ := h.accepting pid l listener timeout deadline heq
    exact h.dequeue hl hp ho (by simp [heq]) timeout now deadline
  · rename_i i length timeout deadline heq
    cases hstep
    exact h.recv (by simp [heq]) i length timeout now deadline
  rename_i i heq
  cases hstep
  rw [State.sweep]
  split_ifs with hi howned
  · exact .of_sound (h.sweep (i := ⟨i, hi⟩) heq howned) nofun
  · refine .of_sound (h.setExiting (fun k hk => ?_) fun j hj => ?_) nofun
    · obtain rfl : i = k := by simpa [heq] using hk
      exact Nat.le_succ i
    obtain hj | hj := Nat.lt_succ_iff_lt_or_eq.mp hj
    · exact h.swept pid i heq j hj
    subst hj
    simpa using howned
  · refine .of_sound (h.setGone fun j => ?_) nofun
    exact h.swept pid i heq j (lt_of_lt_of_le j.isLt (Nat.not_lt.mp hi))

lemma State.Sound.call {a : Act} (hcaller : a.caller = some pid) (hidle : s.calls pid = .idle)
    (hord : s.Orderly a) : Keeps s (s.call a) := by
  have hfails : Keeps s (s, .fails) := .of_sound h nofun
  have hexit : ∀ k, s.calls pid ≠ .exiting k := by simp [hidle]
  cases a <;> cases hcaller
  case tcpOpen =>
    rw [State.call]
    split
    · exact .of_sound (h.setCall hexit nofun nofun nofun) nofun
    · exact hfails
  case bind handle port ok =>
    refine .onOwned h fun i _ _ => ?_
    split
    · exact hfails
    rw [Slot.bind]
    split
    · exact hfails
    rename_i slot hbind
    obtain ⟨-, hbind⟩ := ite_none_left_eq_some.mp hbind
    obtain rfl := some.inj hbind
    exact .of_sound (h.setSlot ⟨rfl, rfl, rfl, .rfl⟩) nofun
  case listen handle ok => exact .onOwned h fun i _ howned => h.listen hidle howned ok
  case connect handle endpoint ok timeout now =>
    refine .onOwned h fun i _ _ => ?_
    split_ifs with hcond hok
    · exact hfails
    all_goals
      have hclosed : (s.slots i).state = .closed := by
        by_contra hne
        exact hcond (.inr (.inr hne))
      have hseat : SameSeat (s.slots i) ((s.slots i).connect ok) :=
        ⟨rfl, rfl, rfl, by cases ok <;> simp [connect, hclosed]⟩
    · exact (h.setSlot hseat).awaitConnect hexit i now _
    · exact .of_sound (h.setSlot hseat) nofun
  case accept handle timeout now =>
    refine .onOwned h fun i _ howned => ?_
    split
    · exact hfails
    rename_i listener hp
    split
    · exact hfails
    rename_i hl
    exact h.dequeue (not_not.mp hl) hp (owned_iff.mp howned).2 hexit timeout now _
  case recv handle pointers length timeout now =>
    refine .onOwned h fun i _ _ => ?_
    split
    · exact hfails
    · exact h.recv hexit i length timeout now _
  case close handle =>
    refine .onOwned h fun i hslot howned => ?_
    obtain ⟨hw, hcount⟩ := hord i hslot howned
    exact .of_sound (h.close hidle howned hw hcount) nofun
  case exit =>
    exact .of_sound (h.setExiting (fun k hk => absurd hk (hexit k)) nofun) nofun

lemma State.Sound.step {a : Act} {r : Reply} (hord : s.Orderly a) (hstep : step s a = some (t, r))
    : Keeps s (t, r) := by
  have hcall : ∀ {a : Act} {pid : Nat}, a.caller = some pid → s.Orderly a →
      (if s.calls pid = .idle then some (s.call a) else none) = some (t, r) → Keeps s (t, r) := by
    intro a pid hcaller hord hstep
    obtain ⟨hidle, heq⟩ := ite_none_right_eq_some.mp hstep
    exact some.inj heq ▸ h.call hcaller hidle hord
  cases a
  case announce l =>
    obtain ⟨u, hu, heq⟩ := map_eq_some_iff.mp hstep
    cases heq
    exact .of_sound (h.announce hu) nofun
  case offer conn =>
    obtain ⟨u, hu, heq⟩ := map_eq_some_iff.mp hstep
    cases heq
    obtain ⟨Q', hQ'⟩ := h.offer hord hu
    exact .of_sound hQ' nofun
  case error i =>
    obtain ⟨hcalls, heq⟩ := ite_none_right_eq_some.mp hstep
    cases heq
    exact .of_sound (h.error hcalls hord) nofun
  case connected i ok =>
    obtain ⟨hcalls, heq⟩ := ite_none_right_eq_some.mp hstep
    cases heq
    refine .of_sound (h.setSlot ⟨rfl, rfl, rfl, ?_⟩) nofun
    cases ok <;> simp [connected, hcalls.2]
  case received i p ok =>
    obtain ⟨hcalls, heq⟩ := ite_none_right_eq_some.mp hstep
    cases heq
    refine .of_sound (h.setSlot ?_) nofun
    cases p with
    | none => exact ⟨rfl, rfl, rfl, by cases ok <;> simp [received, hcalls.2]⟩
    | some p => ?_
    rw [received]
    split <;> exact ⟨rfl, rfl, rfl, .rfl⟩
  case resume pid now fresh => exact h.goOn hstep
  all_goals exact hcall rfl hord hstep

end

abbrev Steps (s : State) (as : List (Act × Reply)) (t : State) : Prop :=
  Runs.Run (fun s a t => step s a.1 = some (t, a.2)) s as t

/-- In a run whose steps are all orderly, a connection that waits has its
listener still open or an owner whose exit has yet to come to its slot, a
process whose exit is over owns no slot, and a handle that an accept
returns is that of a slot which still holds a connection announced for the
listener. -/
theorem accept_of_orderly {ready : Bool} {as : List (Act × Reply)}
    (hrun : Runs.Run (fun s a t => s.Orderly a.1 ∧ step s a.1 = some (t, a.2)) (boot ready) as s) :
    (∀ i c listener, s.Waits i c listener →
      (∃ l, (s.slots l).pcb = some listener ∧ (s.slots l).state = .listening) ∨
      ∃ k, s.calls (s.slots i).owner = .exiting k ∧ k ≤ i.val) ∧
    (∀ pid, s.calls pid = .gone → ∀ i, (s.slots i).owned pid = false) ∧
    ∀ a t pid listener handle, s.Orderly a →
      step s a = some (t, .accepted pid listener handle) → Handed s t pid listener handle := by
  obtain ⟨Q, h⟩ : ∃ Q, s.Sound Q := by
    refine hrun.invariant ⟨_, boot_sound ready⟩ ?_
    rintro s a t ⟨Q, h⟩ ⟨hord, hstep⟩
    exact (h.step hord hstep).1
  refine ⟨fun i c listener hw => ?_, h.gone, ?_⟩
  · refine (h.waits i c listener hw).imp_right fun ⟨k, hk⟩ => ⟨k, hk, ?_⟩
    by_contra hlt
    have hswept := h.swept _ k hk i (not_le.mp hlt)
    rw [← Bool.not_eq_true, owned_iff] at hswept
    exact hswept ⟨by simp [hw.pcb], rfl⟩
  · intro a t pid listener handle hord hstep
    exact (h.step hord hstep).2 pid listener handle rfl

/-- Process 1 listens in the first slot, and a connection waits for it in
the second. -/
def listens : List (Act × Reply) :=
  [(.tcpOpen 1, .quiet), (.resume 1 0 true, .opened 1), (.bind 1 1 80 true, .done),
    (.listen 1 1 true, .done), (.announce 0, .quiet), (.offer 2, .quiet), (.offer 2, .quiet)]

theorem accept_of_orderly_one :
    ∃ s t, Runs.Run (fun s a t => Orderly s a.1 ∧ step s a.1 = some (t, a.2)) (boot true)
        listens s ∧
      step s (.accept 1 1 0 0) = some (t, .accepted 1 1 2) ∧ Handed s t 1 1 2 := by
  refine Exists₂.imp (p := fun s t => _ ∧ _) (fun s t h =>
    ⟨h.1, h.2, (accept_of_orderly h.1).2.2 (.accept 1 1 0 0) t 1 1 2 trivial h.2⟩) ?_
  refine ⟨_, _, .cons ⟨trivial, rfl⟩ (.cons ⟨trivial, rfl⟩ (.cons ⟨trivial, rfl⟩
    (.cons ⟨trivial, rfl⟩ (.cons ⟨trivial, rfl⟩ (.cons ⟨?_, rfl⟩ (.cons ⟨?_, rfl⟩ .nil)))))), rfl⟩
  · intro a h ha hfree
    obtain rfl := some.inj ha
    cases hfree
  intro a h ha hfree hl
  obtain rfl := some.inj ha
  exact ⟨rfl, nofun⟩

/-- An error empties the slot of the connection that waits and process 2
opens it: process 1 accepts a slot of process 2. And when process 1 closes
its listener instead, the connection keeps its slot. -/
theorem accept_opened_by_another : (∃ s t, Steps (boot true)
        (listens ++ [(.error 1, .quiet), (.tcpOpen 2, .quiet), (.resume 2 0 true, .quiet),
          (.resume 2 0 true, .opened 2)]) s ∧
      step s (.accept 1 1 0 0) = some (t, .accepted 1 1 2) ∧ (t.slots 1).owner = 2 ∧
      ¬ Handed s t 1 1 2) ∧
    ∃ s, Steps (boot true) (listens ++ [(.close 1 1, .done)]) s ∧ s.Waits 1 2 1 ∧
      (∀ l, (s.slots l).pcb ≠ some 1) ∧ s.calls 1 = .idle := by
  refine ⟨⟨_, _, .cons rfl (.cons rfl (.cons rfl (.cons rfl (.cons rfl (.cons rfl (.cons rfl
      (.cons rfl (.cons rfl (.cons rfl (.cons rfl .nil)))))))))), rfl, rfl, ?_⟩,
    ⟨_, .cons rfl (.cons rfl (.cons rfl (.cons rfl (.cons rfl (.cons rfl (.cons rfl
      (.cons rfl .nil))))))), ⟨rfl, rfl, rfl⟩, by decide, rfl⟩⟩
  rintro ⟨i, c, hi, hw, -, -⟩
  obtain rfl : (1 : Fin TCP_SLOTS) = i := Fin.ext (Nat.succ.inj hi)
  obtain rfl : 3 = c := some.inj hw.pcb
  cases hw.announced

end Proninx.Tcp
