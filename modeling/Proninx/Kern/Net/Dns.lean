import Proninx.Kern.Net.Adapter
import Proninx.Lib.Runs

/-!
# Name resolution

`proninx_dns_resolve` has one record for the question under way and for
its answer. A call that finds no question pending puts its own in and
sleeps until the record is complete; the callback of lwIP completes the
record and takes the question off. Between the callback and the moment the
caller runs again the record is free, so the next caller may put another
question into it, and then both get the answer to that one.

`reports` is history: what the resolver answered to which name.
-/

namespace Proninx.Dns

open Function List Net Option

def NETWORK_DNS_NAME_MAX : Nat := 64

inductive Address where
  | v4 (octets : UInt8 × UInt8 × UInt8 × UInt8)
  | v6 (words : List UInt32)
  deriving DecidableEq, Repr

def Address.isV4 : Address → Bool
  | .v4 _ => true
  | .v6 _ => false

/-- The four bytes `ip4_addr1` to `ip4_addr4` read. -/
def Address.octets : Address → UInt8 × UInt8 × UInt8 × UInt8
  | .v4 octets => octets
  | .v6 _ => (0, 0, 0, 0)

abbrev Name := List UInt8

/-- `struct network_dns_request` as the caller fills it in. -/
structure Request where
  name : List UInt8
  timeout : UInt32
  deriving DecidableEq, Repr

/-- The bytes of the name before the first zero. -/
def Request.text (r : Request) : Name :=
  (r.name.take NETWORK_DNS_NAME_MAX).takeWhile (· ≠ 0)

def Request.valid (r : Request) : Bool :=
  r.timeout ≠ 0 && r.timeout ≤ 30000 && r.text ≠ [] && r.text.length ≠ NETWORK_DNS_NAME_MAX

/-- `dns_state` -/
structure Record where
  pending : Bool
  complete : Bool
  success : Bool
  address : Address

/-- The record with an answer: the part `proninx_dns_found` and the
immediate answer of `dns_gethostbyname` share. -/
def Record.answered (r : Record) (answer : Option Address) : Record where
  pending := false
  complete := true
  success := answer.any Address.isV4
  address := if answer.any Address.isV4 then answer.getD r.address else r.address

/-- What `dns_gethostbyname` answers. -/
inductive Lookup where
  | ok (address : Address)
  | inProgress
  | error
  deriving DecidableEq, Repr

inductive Call where
  | idle
  | waiting (name : Name) (deadline : UInt32)
  deriving DecidableEq, Repr

structure State where
  lwipReady : Bool
  record : Record
  /-- The questions lwIP has yet to answer. -/
  asked : List Name
  calls : Nat → Call
  reports : List (Name × Address)

inductive Act where
  | resolve (pid : Nat) (request : Option Request) (lookup : Lookup) (now : UInt32)
  /-- The callback for a question. -/
  | found (name : Name) (answer : Option Address)
  | resume (pid : Nat) (now : UInt32)
  deriving DecidableEq

inductive Reply where
  | quiet
  | fails
  /-- `return 0` with the address in the request of a process for a name. -/
  | resolved (pid : Nat) (name : Name) (address : UInt8 × UInt8 × UInt8 × UInt8)
  deriving DecidableEq

/-- The loop of `proninx_dns_resolve` and what follows it. -/
def State.await (s : State) (pid : Nat) (name : Name) (now deadline : UInt32) : State × Reply :=
  if s.record.complete = false ∧ expired now deadline = false then
    ({ s with calls := update s.calls pid (.waiting name deadline) }, .quiet)
  else
    let t := { s with calls := update s.calls pid .idle }
    if s.record.complete = false ∨ s.record.success = false then (t, .fails)
    else (t, .resolved pid name s.record.address.octets)

/-- The request passes the tests before the question is asked. -/
def State.admits (s : State) (request : Option Request) : Bool :=
  s.lwipReady && request.any Request.valid && !s.record.pending

/-- `proninx_dns_resolve` up to its loop, and the loop. -/
def State.resolve (s : State) (pid : Nat) (request : Option Request) (lookup : Lookup)
    (now : UInt32) : State × Reply :=
  match request with
  | none => (s, .fails)
  | some r =>
    if s.admits (some r) = false then (s, .fails)
    else
      let record := { s.record with pending := true, complete := false, success := false }
      match lookup with
      | .ok address =>
        { s with
          record := record.answered (some address)
          reports := s.reports ++ [(r.text, address)] : State }.await pid r.text now
            (now + r.timeout)
      | .inProgress =>
        { s with record := record, asked := s.asked ++ [r.text] : State }.await pid r.text now
          (now + r.timeout)
      | .error => ({ s with record := { record with pending := false } }, .fails)

def State.found (s : State) (name : Name) (answer : Option Address) : State :=
  { s with
    record := s.record.answered answer
    asked := s.asked.erase name
    reports := s.reports ++ (answer.map (name, ·)).toList }

def step (s : State) : Act → Option (State × Reply)
  | .resolve pid request lookup now =>
    if s.calls pid = .idle then some (s.resolve pid request lookup now) else none
  | .found name answer => if name ∈ s.asked then some (s.found name answer, .quiet) else none
  | .resume pid now =>
    match s.calls pid with
    | .idle => none
    | .waiting name deadline => some (s.await pid name now deadline)

/-- Nothing was asked yet. -/
def boot (ready : Bool) : State where
  lwipReady := ready
  record := ⟨false, false, false, .v4 (0, 0, 0, 0)⟩
  asked := []
  calls _ := .idle
  reports := []

/-- A question is put into the record only when nobody waits any more. -/
def State.Orderly (s : State) : Act → Prop
  | .resolve _ request _ _ => s.admits request = true → ∀ p, s.calls p = .idle
  | _ => True

/-- While a question is pending it is the one everybody who waits has
asked, and otherwise the record has the answer for everybody who waits. -/
structure State.Sound (s : State) : Prop where
  asked : s.record.pending = false → s.asked = []
  pending : s.record.pending = true → s.record.complete = false ∧
    ∃ name, s.asked = [name] ∧ ∀ p name' deadline, s.calls p = .waiting name' deadline → name' = name
  answered : s.record.pending = false → ∀ p name deadline, s.calls p = .waiting name deadline →
    s.record.success = true → (name, s.record.address) ∈ s.reports
  v4 : s.record.success = true → s.record.address.isV4 = true

variable {s t : State}

lemma Address.eq_octets {a : Address} (h : a.isV4) : a = .v4 a.octets := by
  cases a with
  | v4 octets => rfl
  | v6 words => cases h

lemma boot_sound (ready : Bool) : (boot ready).Sound where
  asked _ := rfl
  pending := nofun
  answered _ _ _ _ h := nomatch h
  v4 := nofun

lemma answered_mem {r : Record} {answer : Option Address} (name : Name)
    (h : (r.answered answer).success) :
    (name, (r.answered answer).address) ∈ (answer.map (name, ·)).toList ∧
      (r.answered answer).address.isV4 := by
  cases answer with
  | none => cases h
  | some a => ?_
  have ha : a.isV4 := h
  simp [Record.answered, ha]

/-- A step leaves a sound state, and an address it returns is one the
resolver reported for the name. -/
def Keeps (x : State × Reply) : Prop :=
  x.1.Sound ∧
    ∀ pid name address, x.2 = .resolved pid name address → (name, .v4 address) ∈ x.1.reports

lemma State.Sound.await (h : s.Sound) {pid : Nat} {name : Name}
    (hasked : s.record.pending → s.asked = [name])
    (hanswered : s.record.pending = false → s.record.success →
      (name, s.record.address) ∈ s.reports) (now deadline : UInt32) :
    Keeps (s.await pid name now deadline) := by
  have hset : ∀ c, (∀ name' deadline', c = .waiting name' deadline' → name' = name) →
      State.Sound { s with calls := update s.calls pid c } := by
    intro c hname
    refine ⟨h.asked, fun hp => ?_, fun hp p name' deadline' hc => ?_, h.v4⟩
    · refine ⟨(h.pending hp).1, name, hasked hp, fun p name' deadline' hc => ?_⟩
      obtain ⟨name'', heq, hall⟩ := (h.pending hp).2
      obtain rfl : name = name'' := by simpa using (hasked hp).symm.trans heq
      by_cases hpid : p = pid
      · exact hname name' deadline' (by simpa [hpid] using hc)
      · exact hall p name' deadline' (by simpa [hpid] using hc)
    · by_cases hpid : p = pid
      · exact hname name' deadline' (by simpa [hpid] using hc) ▸ hanswered hp
      · exact h.answered hp p name' deadline' (by simpa [hpid] using hc)
  rw [State.await]
  split_ifs with hsleep hfail
  · exact ⟨hset _ fun name' deadline' hc => (Call.waiting.inj hc).1.symm, nofun⟩
  · exact ⟨hset _ nofun, nofun⟩
  refine ⟨hset _ nofun, ?_⟩
  rintro pid' name' address heq
  cases heq
  simp only [not_or, Bool.not_eq_false] at hfail
  have hpending : s.record.pending = false := by
    by_contra hp
    simp [(h.pending (by simpa using hp)).1] at hfail
  rw [← Address.eq_octets (h.v4 hfail.2)]
  exact hanswered hpending hfail.2

lemma State.Sound.resolve (h : s.Sound) {pid : Nat} {request : Option Request}
    (hord : s.admits request → ∀ p, s.calls p = .idle) (lookup : Lookup) (now : UInt32) :
    Keeps (s.resolve pid request lookup now) := by
  cases request with
  | none => exact ⟨h, nofun⟩
  | some r => ?_
  rw [State.resolve]
  dsimp only
  split_ifs with hadmit
  · exact ⟨h, nofun⟩
  replace hadmit : s.admits (some r) := by simpa using hadmit
  have hall := hord hadmit
  have hpending : s.record.pending = false := by
    simp only [State.admits, Bool.and_eq_true, Bool.not_eq_true'] at hadmit
    exact hadmit.2
  have hempty := h.asked hpending
  cases lookup with
  | ok address =>
    have hu : State.Sound { s with
        record := Record.answered
          { s.record with pending := true, complete := false, success := false } (some address)
        reports := s.reports ++ [(r.text, address)] } :=
      ⟨fun _ => hempty, nofun, fun _ p name deadline hc => (nomatch (hall p).symm.trans hc),
        fun hs => (answered_mem r.text hs).2⟩
    exact hu.await nofun (fun _ hs => mem_append_right _ (answered_mem _ hs).1) now _
  | inProgress =>
    have hasked : s.asked ++ [r.text] = [r.text] := by rw [hempty]; rfl
    have hu : State.Sound { s with
        record := { s.record with pending := true, complete := false, success := false }
        asked := s.asked ++ [r.text] } :=
      ⟨nofun, fun _ => ⟨rfl, r.text, hasked,
        fun p name deadline hc => (nomatch (hall p).symm.trans hc)⟩, nofun, nofun⟩
    exact hu.await (fun _ => hasked) nofun now _
  | error =>
    refine ⟨⟨fun _ => hempty, nofun, fun _ p name deadline hc => ?_, nofun⟩, nofun⟩
    exact nomatch (hall p).symm.trans hc

lemma State.Sound.found (h : s.Sound) {name : Name} (hmem : name ∈ s.asked)
    (answer : Option Address) : (s.found name answer).Sound := by
  have hpending : s.record.pending := by
    by_contra hp
    simp [h.asked (by simpa using hp)] at hmem
  obtain ⟨name', heq, hall⟩ := (h.pending hpending).2
  obtain rfl : name = name' := by simpa [heq] using hmem
  refine ⟨fun _ => ?_, nofun, fun _ p name' deadline hc hs => ?_, fun hs => ?_⟩
  · rw [State.found, heq]
    simp
  · rw [hall p name' deadline hc]
    exact mem_append_right _ (answered_mem _ hs).1
  · exact (answered_mem name hs).2

lemma State.Sound.step {a : Act} {r : Reply} (h : s.Sound) (hord : s.Orderly a)
    (hstep : step s a = some (t, r)) : Keeps (t, r) := by
  cases a with
  | resolve pid request lookup now =>
    obtain ⟨-, heq⟩ := ite_none_right_eq_some.mp hstep
    exact some.inj heq ▸ h.resolve hord lookup now
  | found name answer =>
    obtain ⟨hmem, heq⟩ := ite_none_right_eq_some.mp hstep
    cases heq
    exact ⟨h.found hmem answer, nofun⟩
  | resume pid now => ?_
  simp only [Dns.step] at hstep
  split at hstep
  · cases hstep
  rename_i name deadline hc
  refine some.inj hstep ▸ h.await (fun hp => ?_) (fun hp => ?_) now deadline
  · obtain ⟨name', heq, hall⟩ := (h.pending hp).2
    exact hall pid name deadline hc ▸ heq
  · exact h.answered hp pid name deadline hc

abbrev Steps (s : State) (as : List (Act × Reply)) (t : State) : Prop :=
  Runs.Run (fun s a t => step s a.1 = some (t, a.2)) s as t

/-- As long as nobody asks while an earlier caller has yet to pick up its
answer, an address returned for a name is one reported for that name. -/
theorem resolved_of_orderly {ready : Bool} {as : List (Act × Reply)}
    (hrun : Runs.Run (fun s a t => s.Orderly a.1 ∧ step s a.1 = some (t, a.2)) (boot ready) as s)
    {a : Act} {pid : Nat} {name : Name} {address : UInt8 × UInt8 × UInt8 × UInt8}
    (hord : s.Orderly a) (hstep : step s a = some (t, .resolved pid name address)) :
    (name, .v4 address) ∈ t.reports := by
  have h : s.Sound := hrun.invariant (boot_sound ready) fun s a t h hst => (h.step hst.1 hst.2).1
  exact (h.step hord hstep).2 pid name address rfl

/-- Process 1 asks for `a` and gets its answer. -/
theorem resolved_of_orderly_one :
    ∃ s t, Runs.Run (fun s a t => State.Orderly s a.1 ∧ step s a.1 = some (t, a.2)) (boot true)
        [(.resolve 1 (some ⟨[97, 0], 1000⟩) .inProgress 0, .quiet),
          (.found [97] (some (.v4 (1, 1, 1, 1))), .quiet)] s ∧
      step s (.resume 1 5) = some (t, .resolved 1 [97] (1, 1, 1, 1)) ∧
      ([97], .v4 (1, 1, 1, 1)) ∈ t.reports := by
  refine Exists₂.imp (p := fun s t => _ ∧ _) (fun s t h =>
    ⟨h.1, h.2, resolved_of_orderly h.1 (a := .resume 1 5) trivial h.2⟩) ?_
  exact ⟨_, _, .cons ⟨fun _ _ => rfl, rfl⟩ (.cons ⟨trivial, rfl⟩ .nil), rfl⟩

/-- Process 2 asks for `b` before process 1 has picked up the answer for
`a`, and process 1 gets the answer for `b`. -/
theorem resolved_for_another : ∃ s t, Steps (boot true)
        [(.resolve 1 (some ⟨[97, 0], 1000⟩) .inProgress 0, .quiet),
          (.found [97] (some (.v4 (1, 1, 1, 1))), .quiet),
          (.resolve 2 (some ⟨[98, 0], 1000⟩) .inProgress 1, .quiet), (.resume 1 2, .quiet),
          (.found [98] (some (.v4 (2, 2, 2, 2))), .quiet)] s ∧
      step s (.resume 1 5) = some (t, .resolved 1 [97] (2, 2, 2, 2)) ∧
      ([97], .v4 (2, 2, 2, 2)) ∉ t.reports :=
  ⟨_, _, .cons rfl (.cons rfl (.cons rfl (.cons rfl (.cons rfl .nil)))), rfl, by decide⟩

end Proninx.Dns
