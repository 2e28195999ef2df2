import Proninx.Kern.Net.TcpTable

/-!
# The queues of listeners

`Sound` says what the queue of each listener holds: the handles of the
connections that wait for it. A step keeps it if it is `Orderly`. The
lemmas go by what a step does to the slots: nothing that matters here, to
empty one, to give one a new pcb, or to give a connection on offer a slot.
-/

namespace Proninx.Tcp

open Function List Nat Net Option RingBuffer Slot State

/-! ## Connections that wait -/

/-- Slot `i` holds the connection `c`, announced for `listener` and not yet
accepted. -/
structure State.Waits (s : State) (i : Fin TCP_SLOTS) (c listener : Nat) : Prop where
  pcb : (s.slots i).pcb = some c
  announced : s.announced c = some listener
  taken : s.taken c = false

/-- What a step must find for the queues to stay right. No error hits a
connection that waits; a process closes neither such a connection nor a
listener that has some; and when a new connection gets a slot, its listener
is the one it was announced for, and its owner, if it exits, has yet to
come to the slot. -/
def State.Orderly (s : State) : Act → Prop
  | .error i => ∀ c listener, ¬ s.Waits i c listener
  | .close pid handle => ∀ i, slotFor TCP_SLOTS handle = some i → (s.slots i).owned pid = true →
      (∀ c listener, ¬ s.Waits i c listener) ∧
      ((s.slots i).state = .listening → (s.slots i).accept.count = 0)
  | .offer conn => ∀ a (h : a.i < TCP_SLOTS), s.announcing conn = some a →
      (s.slots ⟨a.i, h⟩).pcb = none → (s.slots a.slot).state = .listening →
      (s.slots a.slot).pcb = some a.listener ∧
      ∀ k, s.calls (s.slots a.slot).owner = .exiting k → k ≤ a.i
  | _ => True

/-- The numbers of pcbs: a number in use is below `next`, no two slots have
the same pcb, and a connection on offer is in no slot. -/
structure State.Numbered (s : State) : Prop where
  pcb : ∀ i c, (s.slots i).pcb = some c → c < s.next
  announced : ∀ c l, s.announced c = some l → c < s.next ∧ l < s.next
  listener : ∀ c l, s.announced c = some l → s.announced l = none
  taken : ∀ c, s.taken c = true → c < s.next
  distinct : ∀ i j c, (s.slots i).pcb = some c → (s.slots j).pcb = some c → i = j
  offered : ∀ c a, s.announcing c = some a →
    s.announced c = some a.listener ∧ s.taken c = false ∧ ∀ i, (s.slots i).pcb ≠ some c

/-- The queue `Q l` of a listener is that of the connections that wait for
it, apart from slots that the exit of its owner has passed. -/
structure State.Sound (s : State) (Q : Fin TCP_SLOTS → List Nat) : Prop where
  numbered : s.Numbered
  listening : ∀ l, (s.slots l).state = .listening →
    ∃ listener, (s.slots l).pcb = some listener ∧ s.announced listener = none
  empty : ∀ i c, (s.slots i).pcb = some c → s.announced c = none →
    (s.slots i).state ≠ .listening → (s.slots i).accept.Queued TCP_QUEUE_DEPTH []
  ring : ∀ l, (s.slots l).state = .listening → (s.slots l).accept.Queued TCP_QUEUE_DEPTH (Q l)
  nodup : ∀ l, (s.slots l).state = .listening → (Q l).Nodup
  handles : ∀ l, (s.slots l).state = .listening → ∀ h ∈ Q l, ∃ i : Fin TCP_SLOTS, h = i.val + 1
  mem : ∀ l listener (i : Fin TCP_SLOTS), (s.slots l).state = .listening →
    (s.slots l).pcb = some listener → (∀ k, s.calls (s.slots l).owner = .exiting k → k ≤ i.val) →
    (i.val + 1 ∈ Q l ↔ ∃ c, s.Waits i c listener)
  owner : ∀ i c listener l, s.Waits i c listener → (s.slots l).pcb = some listener →
    (s.slots l).owner = (s.slots i).owner
  waits : ∀ i c listener, s.Waits i c listener →
    (∃ l, (s.slots l).pcb = some listener ∧ (s.slots l).state = .listening) ∨
    ∃ k, s.calls (s.slots i).owner = .exiting k
  swept : ∀ pid k, s.calls pid = .exiting k → ∀ i : Fin TCP_SLOTS, i.val < k →
    (s.slots i).owned pid = false
  gone : ∀ pid, s.calls pid = .gone → ∀ i, (s.slots i).owned pid = false
  accepting : ∀ pid i listener timeout deadline,
    s.calls pid = .accepting i listener timeout deadline →
    (s.slots i).pcb = some listener ∧ (s.slots i).state = .listening ∧ (s.slots i).owner = pid

variable {s t : State} {Q : Fin TCP_SLOTS → List Nat}

lemma boot_sound (ready : Bool) : (boot ready).Sound fun _ => [] where
  numbered := ⟨nofun, nofun, nofun, nofun, nofun, nofun⟩
  listening := nofun
  empty := nofun
  ring := nofun
  nodup := nofun
  handles := nofun
  mem := nofun
  owner _ _ _ _ h := nomatch h.pcb
  waits _ _ _ h := nomatch h.pcb
  swept := nofun
  gone := nofun
  accepting := nofun

/-! ## Steps that leave the queues alone -/

/-- Two slots that differ only in what queues and owners do not look at. -/
structure SameSeat (x y : Slot) : Prop where
  pcb : y.pcb = x.pcb
  owner : y.owner = x.owner
  accept : y.accept = x.accept
  listening : y.state = .listening ↔ x.state = .listening

lemma SameSeat.refl (x : Slot) : SameSeat x x := ⟨rfl, rfl, rfl, .rfl⟩

variable {x : Slot}

lemma State.Numbered.of_pcbs (h : s.Numbered) (hp : ∀ j, (t.slots j).pcb = (s.slots j).pcb)
    (hrest : t = { s with slots := t.slots }) : t.Numbered := by
  rw [hrest]
  refine { h with pcb := ?_, distinct := ?_, offered := ?_ }
  · simpa only [hp] using h.pcb
  · simpa only [hp] using h.distinct
  · simpa only [hp] using h.offered

/-- The slot lists handles, each once, in its accept ring. -/
abbrev Slot.Queue (x : Slot) (q : List Nat) : Prop :=
  x.accept.Queued TCP_QUEUE_DEPTH q ∧ q.Nodup ∧ ∀ h ∈ q, ∃ i : Fin TCP_SLOTS, h = i.val + 1

section

variable (h : s.Sound Q)
include h

/-- No slot changes hands, and nobody begins to wait. What is left to show
are the numbers and the queues of listeners. -/
lemma State.Sound.of_hands {R : Fin TCP_SLOTS → List Nat}
    (hp : ∀ j, (t.slots j).pcb = (s.slots j).pcb) (ho : ∀ j, (t.slots j).owner = (s.slots j).owner)
    (hl : ∀ j, (t.slots j).state = .listening ↔ (s.slots j).state = .listening)
    (hcalls : t.calls = s.calls) (hnum : t.Numbered)
    (hann : ∀ j c, (s.slots j).pcb = some c → t.announced c = s.announced c)
    (haccept : ∀ j, (s.slots j).state ≠ .listening → (t.slots j).accept = (s.slots j).accept)
    (hwaits : ∀ j c l, t.Waits j c l → s.Waits j c l)
    (hqueue : ∀ l, (s.slots l).state = .listening → (t.slots l).Queue (R l))
    (hmem : ∀ l m (j : Fin TCP_SLOTS), (s.slots l).state = .listening →
      (s.slots l).pcb = some m → (∀ k, s.calls (s.slots l).owner = .exiting k → k ≤ j.val) →
      (j.val + 1 ∈ R l ↔ ∃ c, t.Waits j c m)) : t.Sound R := by
  simp only [← hl] at hqueue
  refine ⟨hnum, ?_, ?_, fun l hs => (hqueue l hs).1, fun l hs => (hqueue l hs).2.1,
    fun l hs => (hqueue l hs).2.2, ?_, ?_, ?_, ?_, ?_, ?_⟩
  · intro l hs
    obtain ⟨m, hm, hnone⟩ := h.listening l ((hl l).mp hs)
    exact ⟨m, (hp l).trans hm, (hann l m hm).trans hnone⟩
  · intro j c hc hnone hs
    rw [hp] at hc
    rw [ne_eq, hl] at hs
    exact haccept j hs ▸ h.empty j c hc (hann j c hc ▸ hnone) hs
  · simpa only [hl, hp, ho, hcalls] using hmem
  · intro j c m l hw hm
    rw [ho, ho]
    exact h.owner j c m l (hwaits j c m hw) (hp l ▸ hm)
  · intro j c m hw
    simpa only [hl, hp, ho, hcalls] using h.waits j c m (hwaits j c m hw)
  · simpa only [owned, hp, ho, hcalls] using h.swept
  · simpa only [owned, hp, ho, hcalls] using h.gone
  · simpa only [hl, hp, ho, hcalls] using h.accepting

lemma State.Sound.of_seats (hseats : ∀ j, SameSeat (s.slots j) (t.slots j))
    (hcalls : t.calls = s.calls) (htaken : t.taken = s.taken) (hnum : t.Numbered)
    (hann : ∀ j c, (s.slots j).pcb = some c → t.announced c = s.announced c) : t.Sound Q := by
  have hp j := (hseats j).pcb
  have hwaits : ∀ j c l, t.Waits j c l ↔ s.Waits j c l := fun j c l =>
    ⟨fun hw => have hc := hp j ▸ hw.pcb; ⟨hc, hann j c hc ▸ hw.announced, htaken ▸ hw.taken⟩,
      fun hw => ⟨(hp j).trans hw.pcb, hann j c hw.pcb ▸ hw.announced, htaken ▸ hw.taken⟩⟩
  refine h.of_hands hp (fun j => (hseats j).owner) (fun j => (hseats j).listening) hcalls hnum
    hann (fun j _ => (hseats j).accept) (fun j c l => (hwaits j c l).mp)
    (fun l hl => ⟨(hseats l).accept ▸ h.ring l hl, h.nodup l hl, h.handles l hl⟩) ?_
  simpa only [hwaits] using h.mem

variable {i : Fin TCP_SLOTS}

lemma State.Sound.setSlot {slot : Slot}
    (hseat : SameSeat (s.slots i) slot) : (s.setSlot i slot).Sound Q := by
  have hseats : ∀ j, SameSeat (s.slots j) ((s.setSlot i slot).slots j) := fun j => by
    by_cases hj : j = i
    · subst hj
      simpa [State.setSlot] using hseat
    · simpa [State.setSlot, hj] using SameSeat.refl _
  exact h.of_seats hseats rfl rfl
    (h.numbered.of_pcbs (fun j => (hseats j).pcb) rfl) fun _ _ _ => rfl

/-- Processes get on with their calls. An exit only advances, past slots
its process does not own, and ends when there are no others. -/
lemma State.Sound.of_calls {calls : Nat → Call}
    (hexits : ∀ p k, s.calls p = .exiting k →
      (∃ k', calls p = .exiting k' ∧ k ≤ k') ∨ ∀ i, (s.slots i).owned p = false)
    (hswept : ∀ p k, calls p = .exiting k → ∀ i : Fin TCP_SLOTS, i.val < k →
      (s.slots i).owned p = false)
    (hgone : ∀ p, calls p = .gone → ∀ i, (s.slots i).owned p = false)
    (haccept : ∀ p i listener timeout deadline, calls p = .accepting i listener timeout deadline →
      (s.slots i).pcb = some listener ∧ (s.slots i).state = .listening ∧ (s.slots i).owner = p) :
    Sound { s with calls := calls } Q := by
  have hwaits : ∀ i c l, Waits { s with calls := calls } i c l ↔ s.Waits i c l :=
    fun i c l => ⟨fun hw => ⟨hw.pcb, hw.announced, hw.taken⟩,
      fun hw => ⟨hw.pcb, hw.announced, hw.taken⟩⟩
  have howned : ∀ i c p, (s.slots i).pcb = some c → (s.slots i).owner = p →
      (s.slots i).owned p := fun i c p hc ho => by simp [owned, hc, ho]
  refine ⟨⟨h.numbered.pcb, h.numbered.announced, h.numbered.listener, h.numbered.taken,
    h.numbered.distinct, h.numbered.offered⟩, h.listening, h.empty, h.ring, h.nodup, h.handles, ?_, ?_, ?_, hswept,
    hgone, haccept⟩
  · intro l listener i hl hp hcursor
    simp only [hwaits]
    refine h.mem l listener i hl hp fun k hk => ?_
    obtain ⟨k', hk', hle⟩ | hnone := hexits _ k hk
    · exact le_trans hle (hcursor k' hk')
    · exact absurd (howned l listener _ hp rfl) (by simp [hnone])
  · simpa only [hwaits] using h.owner
  intro i c listener hw
  rw [hwaits] at hw
  refine (h.waits i c listener hw).imp_right fun ⟨k, hk⟩ => ?_
  obtain ⟨k', hk', -⟩ | hnone := hexits _ k hk
  · exact ⟨k', hk'⟩
  · exact absurd (howned i c _ hw.pcb rfl) (by simp [hnone])

variable {pid : Nat}

lemma State.Sound.of_call {c : Call} (hexits : ∀ k, s.calls pid = .exiting k →
      (∃ k', c = .exiting k' ∧ k ≤ k') ∨ ∀ i, (s.slots i).owned pid = false)
    (hswept : ∀ k, c = .exiting k → ∀ i : Fin TCP_SLOTS, i.val < k → (s.slots i).owned pid = false)
    (hgone : c = .gone → ∀ i, (s.slots i).owned pid = false)
    (haccept : ∀ i listener timeout deadline, c = .accepting i listener timeout deadline →
      (s.slots i).pcb = some listener ∧ (s.slots i).state = .listening ∧ (s.slots i).owner = pid) :
    (s.setCall pid c).Sound Q := by
  refine h.of_calls (fun p k hp => ?_) (fun p k hp => ?_) (fun p hp => ?_)
    fun p i listener timeout deadline hp => ?_
  all_goals by_cases hpid : p = pid
  · rw [hpid, update_self]
    exact hexits k (hpid ▸ hp)
  · exact .inl ⟨k, by rwa [update_of_ne hpid], le_refl k⟩
  · rw [hpid, update_self] at hp
    exact hpid ▸ hswept k hp
  · exact h.swept p k (by rwa [update_of_ne hpid] at hp)
  · rw [hpid, update_self] at hp
    exact hpid ▸ hgone hp
  · exact h.gone p (by rwa [update_of_ne hpid] at hp)
  · rw [hpid, update_self] at hp
    exact hpid ▸ haccept i listener timeout deadline hp
  · exact h.accepting p i listener timeout deadline (by rwa [update_of_ne hpid] at hp)

lemma State.Sound.setCall {c : Call}
    (hs : ∀ k, s.calls pid ≠ .exiting k) (hexit : ∀ k, c ≠ .exiting k) (hgone : c ≠ .gone)
    (haccept : ∀ i listener timeout deadline, c = .accepting i listener timeout deadline →
      (s.slots i).pcb = some listener ∧ (s.slots i).state = .listening ∧ (s.slots i).owner = pid) :
    (s.setCall pid c).Sound Q :=
  h.of_call (fun k hk => absurd hk (hs k)) (fun k hk => absurd hk (hexit k))
    (fun hk => absurd hk hgone) haccept

lemma State.Sound.setAnnouncing {conn : Nat} {a : Option Announcement}
    (ha : ∀ b, a = some b → ∃ b', s.announcing conn = some b' ∧ b.listener = b'.listener) :
    (s.setAnnouncing conn a).Sound Q := by
  refine h.of_seats (fun j => .refl _) rfl rfl ⟨h.numbered.pcb, h.numbered.announced,
    h.numbered.listener, h.numbered.taken, h.numbered.distinct, fun c b hb => ?_⟩ fun _ _ _ => rfl
  by_cases hc : c = conn
  · subst hc
    obtain ⟨b', hb', hlistener⟩ := ha b (by simpa [State.setAnnouncing] using hb)
    exact hlistener ▸ h.numbered.offered c b' hb'
  · exact h.numbered.offered c b (by simpa [State.setAnnouncing, hc] using hb)

/-! ## Exits -/

lemma State.Sound.setExiting {k : Nat}
    (hk : ∀ k', s.calls pid = .exiting k' → k' ≤ k)
    (hpassed : ∀ i : Fin TCP_SLOTS, i.val < k → (s.slots i).owned pid = false) :
    (s.setCall pid (.exiting k)).Sound Q :=
  h.of_call (fun k' hk' => .inl ⟨k, rfl, hk k' hk'⟩)
    (fun _ hk' => Call.exiting.inj hk' ▸ hpassed) nofun nofun

lemma State.Sound.setGone
    (hnone : ∀ i, (s.slots i).owned pid = false) : (s.setCall pid .gone).Sound Q :=
  h.of_call (fun _ _ => .inr hnone) nofun (fun _ => hnone) nofun

/-- The calls of processes while slot `i` is emptied: an exit may pass `i`. -/
structure Passes (s t : State) (i : Fin TCP_SLOTS) : Prop where
  exiting : ∀ p k, t.calls p = .exiting k →
    ∃ k', s.calls p = .exiting k' ∧ k' ≤ k ∧ ∀ j : Fin TCP_SLOTS, j.val < k → k' ≤ j.val → j = i
  exits : ∀ p k, s.calls p = .exiting k → ∃ k', t.calls p = .exiting k'
  gone : ∀ p, t.calls p = .gone → s.calls p = .gone
  accepting : ∀ p j listener timeout deadline,
    t.calls p = .accepting j listener timeout deadline →
    s.calls p = .accepting j listener timeout deadline ∧ j ≠ i

/-- Slot `i` is emptied. A connection that waited in it, or that waited for
a listener in it, belongs to a process that exits. -/
lemma State.Sound.vacate (hpcb : x.pcb = none)
    (hstate : x.state ≠ .listening) (hslots : t.slots = update s.slots i x)
    (hcalls : Passes s t i) (hoffer : t.announcing = s.announcing) (hnext : t.next = s.next)
    (hann : t.announced = s.announced) (htaken : t.taken = s.taken)
    (hself : ∀ c l, s.Waits i c l → ∃ k, t.calls (s.slots i).owner = .exiting k ∧ i.val < k)
    (hqueue : ∀ j c l, s.Waits j c l → (s.slots i).pcb = some l →
      ∃ k, t.calls (s.slots j).owner = .exiting k) : t.Sound Q := by
  have hat : t.slots i = x := by rw [hslots, update_self]
  have hne : ∀ j ≠ i, t.slots j = s.slots j := fun j hj => by rw [hslots, update_of_ne hj]
  have hlist : ∀ l, (t.slots l).state = .listening → l ≠ i := by
    rintro l hl rfl
    exact hstate (hat ▸ hl)
  have hsome : ∀ j c, (t.slots j).pcb = some c → j ≠ i := by
    rintro j c hc rfl
    simp [hat, hpcb] at hc
  have hold : ∀ j c, (t.slots j).pcb = some c → (s.slots j).pcb = some c := fun j c hc =>
    hne j (hsome j c hc) ▸ hc
  have hwaits : ∀ j c l, t.Waits j c l → j ≠ i ∧ s.Waits j c l := fun j c l hw =>
    ⟨hsome j c hw.pcb, hold j c hw.pcb, hann ▸ hw.announced, htaken ▸ hw.taken⟩
  have hwaits' : ∀ j c l, j ≠ i → s.Waits j c l → t.Waits j c l := fun j c l hj hw =>
    ⟨hne j hj ▸ hw.pcb, hann ▸ hw.announced, htaken ▸ hw.taken⟩
  have hnum := h.numbered
  refine ⟨⟨?_, ?_, ?_, ?_, ?_, ?_⟩, ?_, ?_, ?_, ?_, ?_, ?_, ?_, ?_, ?_, ?_, ?_⟩
  · exact fun j c hc => hnext ▸ hnum.pcb j c (hold j c hc)
  · rw [hann, hnext]
    exact hnum.announced
  · rw [hann]
    exact hnum.listener
  · rw [htaken, hnext]
    exact hnum.taken
  · exact fun j j' c hc hc' => hnum.distinct j j' c (hold j c hc) (hold j' c hc')
  · intro c a ha
    rw [hoffer] at ha
    rw [hann, htaken]
    obtain ⟨ha1, ha2, ha3⟩ := hnum.offered c a ha
    exact ⟨ha1, ha2, fun j hj => ha3 j (hold j c hj)⟩
  · intro l hl
    have hli := hlist l hl
    rw [hne l hli] at hl ⊢
    rw [hann]
    exact h.listening l hl
  · intro j c hc hnone hl
    have hj := hsome j c hc
    rw [hne j hj] at hc hl ⊢
    exact h.empty j c hc (hann ▸ hnone) hl
  · intro l hl
    have hli := hlist l hl
    rw [hne l hli] at hl ⊢
    exact h.ring l hl
  · intro l hl
    rw [hne l (hlist l hl)] at hl
    exact h.nodup l hl
  · intro l hl
    rw [hne l (hlist l hl)] at hl
    exact h.handles l hl
  · intro l listener j hl hp hcursor
    have hli := hlist l hl
    rw [hne l hli] at hl hp hcursor
    -- The cursor of the owner was no further before.
    have hbefore : ∀ k, s.calls (s.slots l).owner = .exiting k → k ≤ j.val := by
      intro k hk
      obtain ⟨k', hk'⟩ := hcalls.exits _ _ hk
      obtain ⟨k'', hk'', hle, -⟩ := hcalls.exiting _ _ hk'
      obtain rfl : k = k'' := by simpa [hk] using hk''
      exact le_trans hle (hcursor k' hk')
    rw [h.mem l listener j hl hp hbefore]
    constructor
    · rintro ⟨c, hw⟩
      refine ⟨c, hwaits' j c listener ?_ hw⟩
      rintro rfl
      obtain ⟨k, hk, hlt⟩ := hself c listener hw
      rw [← h.owner j c listener l hw hp] at hk
      exact not_lt.mpr (hcursor k hk) hlt
    · rintro ⟨c, hw⟩
      exact ⟨c, (hwaits j c listener hw).2⟩
  · intro j c listener l hw hp
    obtain ⟨hj, hw⟩ := hwaits j c listener hw
    rw [hne j hj, hne l (hsome l _ hp)]
    exact h.owner j c listener l hw (hold l _ hp)
  · intro j c listener hw
    obtain ⟨hj, hw⟩ := hwaits j c listener hw
    rw [hne j hj]
    obtain ⟨l, hp, hl⟩ | ⟨k, hk⟩ := h.waits j c listener hw
    · by_cases hli : l = i
      · exact .inr (hqueue j c listener hw (hli ▸ hp))
      · exact .inl ⟨l, by rwa [hne l hli], by rwa [hne l hli]⟩
    · exact .inr (hcalls.exits _ _ hk)
  · intro p k hp j hj
    by_cases hji : j = i
    · rw [hji, hat, owned, hpcb]
      rfl
    rw [hne j hji]
    obtain ⟨k', hk', -, hpassed⟩ := hcalls.exiting p k hp
    refine h.swept p k' hk' j ?_
    by_contra hge
    exact hji (hpassed j hj (not_lt.mp hge))
  · intro p hp j
    by_cases hji : j = i
    · rw [hji, hat, owned, hpcb]
      rfl
    rw [hne j hji]
    exact h.gone p (hcalls.gone p hp) j
  · intro p j listener timeout deadline hp
    obtain ⟨hp, hji⟩ := hcalls.accepting p j listener timeout deadline hp
    rw [hne j hji]
    exact h.accepting p j listener timeout deadline hp

omit h in
lemma Passes.refl (hcalls : t.calls = s.calls) (hnone : ∀ p listener timeout deadline,
      s.calls p ≠ .accepting i listener timeout deadline) : Passes s t i where
  exiting p k hp := ⟨k, hcalls ▸ hp, le_refl k, fun j hj hk => absurd hj (not_lt.mpr hk)⟩
  exits p k hp := ⟨k, hcalls ▸ hp⟩
  gone p hp := hcalls ▸ hp
  accepting p j listener timeout deadline hp :=
    ⟨hcalls ▸ hp, by rintro rfl; exact hnone p listener timeout deadline (hcalls ▸ hp)⟩

omit h in
lemma Slot.owned_iff {slot : Slot} :
    slot.owned pid ↔ slot.pcb ≠ none ∧ slot.owner = pid := by
  rw [owned, Bool.and_eq_true, isSome_iff_ne_none, beq_iff_eq]

/-- Connections wait for no slot that is not a listener, apart from those
of a process that exits. -/
lemma State.Sound.waits_listener {j : Fin TCP_SLOTS} {c l : Nat}
    (hw : s.Waits j c l) (hp : (s.slots i).pcb = some l) (hl : (s.slots i).state ≠ .listening) :
    ∃ k, s.calls (s.slots j).owner = .exiting k := by
  obtain ⟨l', hp', hl'⟩ | hk := h.waits j c l hw
  · obtain rfl := h.numbered.distinct l' i l hp' hp
    exact absurd hl' hl
  · exact hk

lemma State.Sound.error (hcalls : s.Calls i)
    (hw : ∀ c l, ¬ s.Waits i c l) : (s.setSlot i (s.slots i).failed).Sound Q := by
  refine h.vacate (x := (s.slots i).failed) rfl nofun rfl
    (.refl rfl fun p listener timeout deadline hp => ?_) rfl rfl rfl rfl
    (fun c l hc => absurd hc (hw c l)) fun j c l hj hp => h.waits_listener hj hp hcalls.2
  exact hcalls.2 (h.accepting p i listener timeout deadline hp).2.1

lemma State.Sound.close (hidle : s.calls pid = .idle) (howned : (s.slots i).owned pid)
    (hw : ∀ c l, ¬ s.Waits i c l)
    (hcount : (s.slots i).state = .listening → (s.slots i).accept.count = 0) :
    (s.setSlot i (s.slots i).freed).Sound Q := by
  have howner := (owned_iff.mp howned).2
  refine h.vacate (x := (s.slots i).freed) rfl nofun rfl
    (.refl rfl fun p listener timeout deadline hp => ?_) rfl rfl rfl rfl
    (fun c l hc => absurd hc (hw c l)) fun j c l hj hp => ?_
  · have hpid := (h.accepting p i listener timeout deadline hp).2.2
    rw [← hpid, howner, hidle] at hp
    cases hp
  by_cases hl : (s.slots i).state = .listening
  · -- A listener with an empty queue has nobody waiting.
    have hnil : Q i = [] :=
      length_eq_zero_iff.mp ((h.ring i hl).count.symm.trans (hcount hl))
    have hmem := (h.mem i l j hl hp (by simp [howner, hidle])).mpr ⟨c, hj⟩
    simp [hnil] at hmem
  · exact h.waits_listener hj hp hl

lemma State.Sound.sweep (hexit : s.calls pid = .exiting i) (howned : (s.slots i).owned pid) :
    ((s.setCall pid (.exiting (i.val + 1))).setSlot i (s.slots i).freed).Sound Q := by
  have howner := (owned_iff.mp howned).2
  have hself : (update s.calls pid (.exiting (i.val + 1))) pid = .exiting (i.val + 1) :=
    update_self ..
  refine h.vacate (x := (s.slots i).freed) rfl nofun rfl
    ⟨fun p k hp => ?_, fun p k hp => ?_, fun p hp => ?_,
      fun p j listener timeout deadline hp => ?_⟩ rfl rfl rfl rfl
    (fun c l _ => ⟨i.val + 1, howner ▸ hself, lt_succ_self _⟩)
    fun j c l hj hp => ⟨i.val + 1, by rw [← h.owner j c l i hj hp, howner]; exact hself⟩
  all_goals by_cases hpid : p = pid
  · obtain rfl : i.val + 1 = k := by simpa [State.setSlot, State.setCall, hpid] using hp
    refine ⟨i, hpid ▸ hexit, le_succ _, fun j hj hij => ?_⟩
    exact Fin.ext (le_antisymm (Nat.lt_succ_iff.mp hj) hij)
  · refine ⟨k, by simpa [State.setSlot, State.setCall, hpid] using hp, le_refl k, ?_⟩
    exact fun j hj hk => absurd hj (Nat.not_lt.mpr hk)
  · exact ⟨i.val + 1, by rw [hpid]; exact hself⟩
  · exact ⟨k, by simpa [State.setSlot, State.setCall, hpid] using hp⟩
  · simp [State.setSlot, State.setCall, hpid] at hp
  · simpa [State.setSlot, State.setCall, hpid] using hp
  · simp [State.setSlot, State.setCall, hpid] at hp
  · have hp' : s.calls p = .accepting j listener timeout deadline := by
      simpa [State.setSlot, State.setCall, hpid] using hp
    refine ⟨hp', ?_⟩
    rintro rfl
    exact hpid ((h.accepting p j listener timeout deadline hp').2.2.symm.trans howner)

/-! ## New pcbs -/

end

lemma State.Numbered.taken_next (h : s.Numbered) : s.taken s.next = false := by
  by_contra htaken
  exact lt_irrefl _ (h.taken s.next (by simpa using htaken))

lemma State.Numbered.announced_next (h : s.Numbered) : s.announced s.next = none := by
  by_contra hann
  obtain ⟨l, hl⟩ := ne_none_iff_exists'.mp hann
  exact lt_irrefl _ (h.announced s.next l hl).1

lemma State.Numbered.pcb_ne_next (h : s.Numbered) (i : Fin TCP_SLOTS) :
    (s.slots i).pcb ≠ some s.next :=
  fun hp => lt_irrefl _ (h.pcb i s.next hp)

lemma State.Sound.announce (h : s.Sound Q) {l : Fin TCP_SLOTS} (hstep : s.announce l = some t) :
    t.Sound Q := by
  rw [State.announce] at hstep
  split at hstep
  · cases hstep
  rename_i listener hp
  obtain ⟨hl, heq⟩ := ite_none_right_eq_some.mp hstep
  replace heq := some.inj heq
  have hslots : t.slots = s.slots := by rw [← heq]; rfl
  have hcalls : t.calls = s.calls := by rw [← heq]; rfl
  have htaken : t.taken = s.taken := by rw [← heq]; rfl
  have hnext : t.next = s.next + 1 := by rw [← heq]
  have hself : t.announced s.next = some listener := by rw [← heq]; exact update_self ..
  have hann : ∀ c ≠ s.next, t.announced c = s.announced c := fun c hc => by
    rw [← heq]; exact update_of_ne hc ..
  have hoffer : ∀ c a, t.announcing c = some a →
      c = s.next ∧ a.listener = listener ∨ c ≠ s.next ∧ s.announcing c = some a := by
    intro c a ha
    by_cases hc : c = s.next
    · subst hc
      rw [← heq] at ha
      simp only [State.setAnnouncing, update_self, some.injEq] at ha
      exact .inl ⟨rfl, by rw [← ha]⟩
    · rw [← heq] at ha
      exact .inr ⟨hc, by simpa [State.setAnnouncing, hc] using ha⟩
  have hnum := h.numbered
  have hpcb : ∀ i c, (s.slots i).pcb = some c → t.announced c = s.announced c := fun i c hc =>
    hann c (Nat.ne_of_lt (hnum.pcb i c hc))
  refine h.of_seats (fun j => hslots ▸ .refl _) hcalls htaken ⟨?_, ?_, ?_, ?_, ?_, ?_⟩ hpcb
  · exact fun i c hc => hnext ▸ lt_succ_of_lt (hnum.pcb i c (hslots ▸ hc))
  · intro c l' hc
    rw [hnext]
    by_cases heq' : c = s.next
    · subst heq'
      obtain rfl : listener = l' := some.inj (hself.symm.trans hc)
      exact ⟨lt_succ_self _, lt_succ_of_lt (hnum.pcb l listener hp)⟩
    · rw [hann c heq'] at hc
      exact (hnum.announced c l' hc).imp lt_succ_of_lt lt_succ_of_lt
  · intro c l' hc
    obtain ⟨listener', hp', hnone⟩ := h.listening l hl
    obtain rfl : listener = listener' := some.inj (hp.symm.trans hp')
    by_cases heq' : c = s.next
    · subst heq'
      obtain rfl : listener = l' := some.inj (hself.symm.trans hc)
      exact (hpcb l listener hp).trans hnone
    rw [hann c heq'] at hc
    rw [hann l' (Nat.ne_of_lt (hnum.announced c l' hc).2)]
    exact hnum.listener c l' hc
  · exact fun c hc => hnext ▸ lt_succ_of_lt (hnum.taken c (htaken ▸ hc))
  · simpa only [hslots] using hnum.distinct
  · intro c a ha
    rw [htaken, hslots]
    obtain ⟨rfl, hlistener⟩ | ⟨hc, ha⟩ := hoffer c a ha
    · exact ⟨hlistener ▸ hself, hnum.taken_next, hnum.pcb_ne_next⟩
    rw [hann c hc]
    exact hnum.offered c a ha

/-- Slot `i`, no listener and with no connection that waits, gets the pcb
`c`, which no slot had and for which none is announced. Of the other slots
only the queues of listeners change. -/
structure Fills (s t : State) (i : Fin TCP_SLOTS) (c : Nat) : Prop where
  plain : (s.slots i).state ≠ .listening
  nobody : ∀ c l, ¬ s.Waits i c l
  pcb : (t.slots i).pcb = some c
  fresh : ∀ j, (s.slots j).pcb ≠ some c
  alone : ∀ c', s.announced c' ≠ some c
  seats : ∀ j, j ≠ i → (t.slots j).pcb = (s.slots j).pcb ∧
    (t.slots j).owner = (s.slots j).owner ∧ (t.slots j).state = (s.slots j).state
  rings : ∀ j, j ≠ i → (s.slots j).state ≠ .listening → (t.slots j).accept = (s.slots j).accept
  calls : t.calls = s.calls
  announced : t.announced = s.announced
  taken : t.taken = s.taken
  next : s.next ≤ t.next
  lt : c < t.next
  offers : ∀ c' a, t.announcing c' = some a → s.announcing c' = some a ∧ c' ≠ c
  exiting : ∀ k, s.calls (t.slots i).owner = .exiting k → k ≤ i.val
  gone : s.calls (t.slots i).owner ≠ .gone

namespace Fills

variable {c : Nat} (hf : Fills s t i c)
include hf

lemma eq_of_pcb {j : Fin TCP_SLOTS} {c' : Nat} (hj : j = i) (hc : (t.slots j).pcb = some c') :
    c' = c :=
  some.inj ((hj ▸ hc).symm.trans hf.pcb)

lemma ne_of_waits {j : Fin TCP_SLOTS} {c' l : Nat} (hw : s.Waits j c' l) : j ≠ i := by
  rintro rfl
  exact hf.nobody c' l hw

lemma not_owned {j : Fin TCP_SLOTS} {p : Nat} (h : (s.slots j).owned p = false)
    (hi : j = i → (t.slots i).owner ≠ p) : (t.slots j).owned p = false := by
  by_cases hj : j = i
  · rw [← Bool.not_eq_true, owned_iff, hj]
    exact fun ho => hi hj ho.2
  · obtain ⟨hpcb, howner, -⟩ := hf.seats j hj
    rwa [owned, hpcb, howner]

lemma waits_iff (j : Fin TCP_SLOTS) (c' l : Nat) : t.Waits j c' l ↔
    s.Waits j c' l ∨ j = i ∧ c' = c ∧ s.announced c = some l ∧ s.taken c = false := by
  constructor
  · intro hw
    by_cases hj : j = i
    · obtain rfl := hf.eq_of_pcb hj hw.pcb
      exact .inr ⟨hj, rfl, hf.announced ▸ hw.announced, hf.taken ▸ hw.taken⟩
    · exact .inl ⟨(hf.seats j hj).1 ▸ hw.pcb, hf.announced ▸ hw.announced, hf.taken ▸ hw.taken⟩
  rintro (hw | ⟨rfl, rfl, hann, htaken⟩)
  · have hj := hf.ne_of_waits hw
    exact ⟨(hf.seats j hj).1.trans hw.pcb, hf.announced ▸ hw.announced, hf.taken ▸ hw.taken⟩
  · exact ⟨hf.pcb, hf.announced ▸ hann, hf.taken ▸ htaken⟩

lemma numbered (h : s.Numbered) : t.Numbered where
  pcb j c' hc := by
    by_cases hj : j = i
    · exact hf.eq_of_pcb hj hc ▸ hf.lt
    · exact (h.pcb j c' ((hf.seats j hj).1 ▸ hc)).trans_le hf.next
  announced c' l hc :=
    (h.announced c' l (hf.announced ▸ hc)).imp (·.trans_le hf.next) (·.trans_le hf.next)
  listener := hf.announced ▸ h.listener
  taken c' hc := (h.taken c' (hf.taken ▸ hc)).trans_le hf.next
  distinct j j' c' hc hc' := by
    by_cases hj : j = i <;> by_cases hj' : j' = i
    · rw [hj, hj']
    · obtain rfl := hf.eq_of_pcb hj hc
      exact absurd ((hf.seats j' hj').1 ▸ hc') (hf.fresh j')
    · obtain rfl := hf.eq_of_pcb hj' hc'
      exact absurd ((hf.seats j hj).1 ▸ hc) (hf.fresh j)
    · exact h.distinct j j' c' ((hf.seats j hj).1 ▸ hc) ((hf.seats j' hj').1 ▸ hc')
  offered c' a ha := by
    obtain ⟨ha, hne⟩ := hf.offers c' a ha
    obtain ⟨ha1, ha2, ha3⟩ := h.offered c' a ha
    refine ⟨hf.announced ▸ ha1, hf.taken ▸ ha2, fun j hj => ?_⟩
    by_cases hji : j = i
    · exact hne (hf.eq_of_pcb hji hj)
    · exact ha3 j ((hf.seats j hji).1 ▸ hj)

/-- What is left to show are the queues: that of slot `i`, if it listens,
is empty, and a connection announced for a listener joins its queue. -/
lemma sound (h : s.Sound Q) {R : Fin TCP_SLOTS → List Nat}
    (hlistens : (t.slots i).state = .listening → s.announced c = none ∧ R i = [])
    (hempty : s.announced c = none → (t.slots i).accept.Queued TCP_QUEUE_DEPTH [])
    (hwaits : ∀ m, s.announced c = some m → ∃ l, (s.slots l).pcb = some m ∧
      (s.slots l).state = .listening ∧ (s.slots l).owner = (t.slots i).owner)
    (hqueue : ∀ l ≠ i, (s.slots l).state = .listening → (t.slots l).Queue (R l))
    (hmem : ∀ l m (j : Fin TCP_SLOTS), (s.slots l).state = .listening →
      (s.slots l).pcb = some m → (∀ k, s.calls (s.slots l).owner = .exiting k → k ≤ j.val) →
      (j.val + 1 ∈ R l ↔ (∃ c', s.Waits j c' m) ∨
        j = i ∧ s.announced c = some m ∧ s.taken c = false)) : t.Sound R := by
  have hnum := h.numbered
  have hqueues : ∀ l, (t.slots l).state = .listening → (t.slots l).Queue (R l) := by
    intro l hl
    by_cases hli : l = i
    · subst hli
      obtain ⟨hnone, hnil⟩ := hlistens hl
      rw [hnil]
      exact ⟨hempty hnone, .nil, nofun⟩
    · exact hqueue l hli ((hf.seats l hli).2.2 ▸ hl)
  refine ⟨hf.numbered hnum, ?_, ?_, fun l hl => (hqueues l hl).1, fun l hl => (hqueues l hl).2.1,
    fun l hl => (hqueues l hl).2.2, ?_, ?_, ?_, ?_, ?_, ?_⟩
  · intro l hl
    rw [hf.announced]
    by_cases hli : l = i
    · exact ⟨c, hli ▸ hf.pcb, (hlistens (hli ▸ hl)).1⟩
    obtain ⟨hp, -, hs⟩ := hf.seats l hli
    exact hp ▸ h.listening l (hs ▸ hl)
  · intro j c' hc hnone hl
    rw [hf.announced] at hnone
    by_cases hj : j = i
    · exact hj ▸ hempty (hf.eq_of_pcb hj hc ▸ hnone)
    obtain ⟨hp, -, hs⟩ := hf.seats j hj
    rw [hp] at hc
    rw [hs] at hl
    rw [hf.rings j hj hl]
    exact h.empty j c' hc hnone hl
  · intro l m j hl hp hcursor
    simp only [hf.waits_iff, exists_or, exists_and_left, exists_eq_left]
    by_cases hli : l = i
    · obtain rfl := hf.eq_of_pcb hli hp
      rw [hli, (hlistens (hli ▸ hl)).2]
      refine iff_of_false nofun ?_
      rintro (⟨c', hw⟩ | ⟨-, hann, -⟩)
      · exact hf.alone c' hw.announced
      · exact hf.alone m hann
    · obtain ⟨hpcb, howner, hs⟩ := hf.seats l hli
      rw [howner, hf.calls] at hcursor
      exact hmem l m j (hs ▸ hl) (hpcb ▸ hp) hcursor
  · intro j c' m l hw hp
    -- Nobody waits for the new pcb, so `l` had its pcb before.
    have hli : l ≠ i := by
      intro hli
      obtain rfl := hf.eq_of_pcb hli hp
      exact hf.alone c' (hf.announced ▸ hw.announced)
    obtain ⟨hpcb, howner, -⟩ := hf.seats l hli
    rw [hpcb] at hp
    rw [howner]
    obtain hw | ⟨rfl, rfl, hann, -⟩ := (hf.waits_iff j c' m).mp hw
    · exact (hf.seats j (hf.ne_of_waits hw)).2.1 ▸ h.owner j c' m l hw hp
    · obtain ⟨l', hp', -, ho⟩ := hwaits m hann
      exact hnum.distinct l l' m hp hp' ▸ ho
  · intro j c' m hw
    rw [hf.calls]
    have hlistener : ∀ l, (s.slots l).pcb = some m → (s.slots l).state = .listening →
        ∃ l, (t.slots l).pcb = some m ∧ (t.slots l).state = .listening := by
      intro l hp hl
      obtain ⟨hpcb, -, hs⟩ := hf.seats l fun hli => hf.plain (hli ▸ hl)
      exact ⟨l, hpcb.trans hp, hs.trans hl⟩
    obtain hw | ⟨rfl, rfl, hann, -⟩ := (hf.waits_iff j c' m).mp hw
    · rw [(hf.seats j (hf.ne_of_waits hw)).2.1]
      exact (h.waits j c' m hw).imp_left fun ⟨l, hp, hl⟩ => hlistener l hp hl
    · obtain ⟨l, hp, hl, -⟩ := hwaits m hann
      exact .inl (hlistener l hp hl)
  · intro p k hp j hj
    rw [hf.calls] at hp
    refine hf.not_owned (h.swept p k hp j hj) ?_
    rintro hji rfl
    exact not_lt.mpr (hf.exiting k hp) (hji ▸ hj)
  · intro p hp j
    rw [hf.calls] at hp
    refine hf.not_owned (h.gone p hp j) ?_
    rintro - rfl
    exact hf.gone hp
  · intro p j listener timeout deadline hp
    have hacc := h.accepting p j listener timeout deadline (hf.calls ▸ hp)
    obtain ⟨hpcb, howner, hs⟩ := hf.seats j fun hji => hf.plain (hji ▸ hacc.2.1)
    rw [hpcb, howner, hs]
    exact hacc

end Fills

lemma State.Sound.renew (h : s.Sound Q) (hold : (s.slots i).state ≠ .listening)
    (hplain : ∀ c, (s.slots i).pcb = some c → s.announced c = none)
    (hpcb : x.pcb = some s.next) (hempty : x.accept.Queued TCP_QUEUE_DEPTH [])
    (hexit : ∀ k, s.calls x.owner ≠ .exiting k) (hgone : s.calls x.owner ≠ .gone) :
    Sound { s.setSlot i x with next := s.next + 1 } (update Q i []) := by
  have hnum := h.numbered
  have hat : (s.setSlot i x).slots i = x := update_self ..
  have hne : ∀ j ≠ i, (s.setSlot i x).slots j = s.slots j := fun j hj => update_of_ne hj ..
  have hnone := hnum.announced_next
  have hoff : ∀ l ≠ i, update Q i [] l = Q l := fun l hl => update_of_ne hl ..
  have hlistener : ∀ l, (s.slots l).state = .listening → l ≠ i := fun l hl hli => hold (hli ▸ hl)
  refine Fills.sound (t := { s.setSlot i x with next := s.next + 1 }) (c := s.next) ⟨hold,
    fun c l hw => ?_, (congrArg pcb hat).trans hpcb, hnum.pcb_ne_next,
    fun c' hc => lt_irrefl _ (hnum.announced c' _ hc).2, fun j hj => ?_,
    fun j hj _ => congrArg accept (hne j hj), rfl, rfl, rfl, le_succ _, lt_succ_self _,
    fun c' a ha => ⟨ha, ?_⟩, fun k hk => absurd (hat ▸ hk) (hexit k), fun hg => hgone (hat ▸ hg)⟩ h
    (fun _ => ⟨hnone, update_self ..⟩) (fun _ => (congrArg accept hat).symm ▸ hempty)
    (fun m hm => nomatch hnone.symm.trans hm) (fun l hl hs => ?_) fun l m j hl hp hcursor => ?_
  · exact nomatch (hplain c hw.pcb).symm.trans hw.announced
  · exact ⟨congrArg Slot.pcb (hne j hj), congrArg Slot.owner (hne j hj),
      congrArg Slot.state (hne j hj)⟩
  · rintro rfl
    exact nomatch hnone.symm.trans (hnum.offered _ a ha).1
  · rw [hoff l hl]
    exact ⟨congrArg accept (hne l hl) ▸ h.ring l hs, h.nodup l hs, h.handles l hs⟩
  rw [hoff l (hlistener l hl), h.mem l m j hl hp hcursor, hnone]
  simp

lemma State.Sound.adopt (h : s.Sound Q) {conn : Nat} {a : Announcement} {l : Fin TCP_SLOTS}
    (ha : s.announcing conn = some a) (hl : (s.slots l).state = .listening)
    (hp : (s.slots l).pcb = some a.listener) (hi : (s.slots i).pcb = none)
    (hcount : (s.slots l).accept.count ≠ TCP_QUEUE_DEPTH)
    (hcursor : ∀ k, s.calls (s.slots l).owner = .exiting k → k ≤ i.val) :
    State.Sound (((s.setSlot l
        { s.slots l with accept := (s.slots l).accept.push TCP_QUEUE_DEPTH (i.val + 1) }).setSlot i
          ((s.slots i).adopted conn (s.slots l).owner)).setAnnouncing conn none)
      (update Q l (Q l ++ [i.val + 1])) := by
  have hnum := h.numbered
  obtain ⟨hconn, hfree, hnowhere⟩ := hnum.offered conn a ha
  have hnot : ∀ c m, ¬ s.Waits i c m := fun c m hw => nomatch hi.symm.trans hw.pcb
  have hli : l ≠ i := by
    rintro rfl
    exact nomatch hi.symm.trans hp
  generalize ht : State.setAnnouncing _ conn none = t
  have hati : t.slots i = (s.slots i).adopted conn (s.slots l).owner := by
    rw [← ht]; exact update_self ..
  have hne : ∀ j ≠ i, j ≠ l → t.slots j = s.slots j := fun j hj hj' => by
    rw [← ht]; exact (update_of_ne hj ..).trans (update_of_ne hj' ..)
  have hatl : t.slots l =
      { s.slots l with accept := (s.slots l).accept.push TCP_QUEUE_DEPTH (i.val + 1) } := by
    rw [← ht]; exact (update_of_ne hli ..).trans (update_self ..)
  have howner : (t.slots i).owner = (s.slots l).owner := by rw [hati]; rfl
  have hfills : Fills s t i conn := {
    plain := fun hs => by
      obtain ⟨listener, hp', -⟩ := h.listening i hs
      exact nomatch hi.symm.trans hp'
    nobody := hnot
    pcb := by rw [hati]; rfl
    fresh := hnowhere
    alone := fun c' hc => nomatch (hnum.listener c' conn hc).symm.trans hconn
    seats := fun j hj => by
      by_cases hjl : j = l
      · rw [hjl, hatl]
        exact ⟨rfl, rfl, rfl⟩
      rw [hne j hj hjl]
      exact ⟨rfl, rfl, rfl⟩
    rings := fun j hj hs => by rw [hne j hj fun hjl => hs (hjl ▸ hl)]
    calls := by rw [← ht]; rfl
    announced := by rw [← ht]; rfl
    taken := by rw [← ht]; rfl
    next := by rw [← ht]; exact le_rfl
    lt := by rw [← ht]; exact (hnum.announced conn _ hconn).1
    offers := fun c' b hb => by
      rw [← ht] at hb
      have hc : c' ≠ conn := by
        rintro rfl
        simp [State.setAnnouncing] at hb
      exact ⟨by simpa [State.setAnnouncing, State.setSlot, hc] using hb, hc⟩
    exiting := fun k hk => hcursor k (howner ▸ hk)
    gone := fun hg => by
      have hno := h.gone _ (howner ▸ hg) l
      exact Bool.false_ne_true (hno.symm.trans (owned_iff.mpr ⟨by simp [hp], rfl⟩)) }
  have hnew : i.val + 1 ∉ Q l := fun hm => by
    obtain ⟨c, hw⟩ := (h.mem l a.listener i hl hp hcursor).mp hm
    exact hnot c _ hw
  refine hfills.sound h (fun hs => ?_) (fun hnone => nomatch hnone.symm.trans hconn)
    (fun m hm => ?_) (fun m hmi hm => ?_) fun m listener j hm hpm hcur => ?_
  · rw [hati] at hs
    cases hs
  · obtain rfl := some.inj (hconn.symm.trans hm)
    exact ⟨l, hp, hl, howner.symm⟩
  · by_cases hml : m = l
    · have hring := h.ring l hl
      have hlt : (s.slots l).accept.count < TCP_QUEUE_DEPTH :=
        lt_of_le_of_ne (hring.count ▸ hring.holds.bound) hcount
      rw [hml, hatl, update_self]
      refine ⟨hring.push hlt _, ?_, fun x hx => ?_⟩
      · rw [nodup_append]
        refine ⟨h.nodup l hl, nodup_singleton _, ?_⟩
        rintro x hx y hy rfl
        exact hnew (mem_singleton.mp hy ▸ hx)
      · obtain hx | hx := mem_append.mp hx
        · exact h.handles l hl x hx
        · exact ⟨i, mem_singleton.mp hx⟩
    · rw [hne m hmi hml, update_of_ne hml]
      exact ⟨h.ring m hm, h.nodup m hm, h.handles m hm⟩
  · have hmem := h.mem m listener j hm hpm hcur
    by_cases hml : m = l
    · subst hml
      obtain rfl := some.inj (hp.symm.trans hpm)
      rw [update_self, mem_append, mem_singleton, hmem]
      refine or_congr_right ⟨fun hj => ⟨Fin.ext (succ.inj hj), hconn, hfree⟩, ?_⟩
      rintro ⟨rfl, -⟩
      rfl
    · rw [update_of_ne hml, hmem, or_iff_left]
      rintro ⟨-, hann, -⟩
      obtain rfl := some.inj (hconn.symm.trans hann)
      exact hml (hnum.distinct m l _ hpm hp)

end Proninx.Tcp
