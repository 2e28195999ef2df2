import Mathlib.Data.Fintype.Card
import Proninx.Kern.Proc

/-!
# Password checks and elevations

`sys_doas_auth` leaves a grant in the process, and `sys_setuid` spends
it. As long as no process forks while it holds a grant,
the elevations so far and the grants that are left never outnumber the
checks (`elevations_checked`). `fork` copies the grant, so one check can
pay for two elevations (`forked_grant_elevates_twice`).
-/

namespace Proninx.Ptable

open ByteMem Finset Function Runs State

variable {sha256 : List UInt8 → List UInt8} {s t : State}

/-! ## Counting grants -/

def grants (s : State) : Nat := (Finset.univ.filter fun p => (s.proc p).doasGrant = true).card

lemma grants_le (h : ∀ q, (t.proc q).doasGrant → (s.proc q).doasGrant) :
    grants t ≤ grants s :=
  card_le_card (monotone_filter_right _ fun q _ => h q)

variable {p : Slot}

lemma grants_lt (h : ∀ q, (t.proc q).doasGrant → (s.proc q).doasGrant)
    (hs : (s.proc p).doasGrant) (ht : (t.proc p).doasGrant = false) :
    grants t < grants s := by
  refine Finset.card_lt_card (Finset.ssubset_iff_subset_ne.mpr
    ⟨Finset.monotone_filter_right _ fun q _ => h q, fun heq => ?_⟩)
  have hmem : p ∈ Finset.univ.filter fun q => (t.proc q).doasGrant := by
    rw [heq]
    exact mem_filter.mpr ⟨mem_univ p, hs⟩
  rw [(mem_filter.mp hmem).2] at ht
  cases ht

lemma grants_succ (h : ∀ q ≠ p, (t.proc q).doasGrant → (s.proc q).doasGrant) :
    grants t ≤ grants s + 1 := by
  refine (card_le_card fun q hq => ?_).trans (card_insert_le p _)
  by_cases hqp : q = p
  · exact hqp ▸ mem_insert_self ..
  · exact mem_insert_of_mem (mem_filter.mpr ⟨mem_univ q, h q hqp (mem_filter.mp hq).2⟩)

lemma put_grant {q : Slot} {x : Proc} (hx : x.doasGrant = false)
    (h : ((s.put p x).proc q).doasGrant) : (s.proc q).doasGrant := by
  rw [put_proc] at h
  split at h
  · rw [hx] at h; cases h
  · exact h

/-! ## Runs -/

/-- `fork` would copy a grant. -/
def Copies (s : State) : Act → Prop
  | .forkCopy p _ => (s.proc p).doasGrant = true
  | _ => False

/-- The steps in which no grant is copied. -/
def Frugal (sha256 : List UInt8 → List UInt8) (s : State) (a : Act) (t : State) : Prop :=
  step sha256 s a = some t ∧ ¬ Copies s a

/-- Every elevation so far and every grant that is left was paid for. -/
def Paid (s : State) : Prop := s.elevations + grants s ≤ s.checks

lemma frugal_paid {a : Act} (hs : Paid s) (h : Frugal sha256 s a t) : Paid t := by
  unfold Paid at *
  obtain ⟨hstep, hcopy⟩ := h
  cases step_cases hstep with
  | quiet hq =>
    have hle : grants t ≤ grants s := grants_le fun q => by rw [(hq.proc q).grant]; exact id
    have hrec := congrArg Prod.fst hq.record
    have : t.checks = s.checks := congrArg (fun r => r.2.2.1) hrec
    have : t.elevations = s.elevations := congrArg (fun r => r.2.2.2) hrec
    omega
  | alloc =>
    exact le_trans (Nat.add_le_add_left (grants_le fun q => put_grant rfl) _) hs
  | child hnp =>
    refine le_trans (Nat.add_le_add_left (grants_le fun q => put_grant ?_) _) hs
    exact Bool.eq_false_iff.mpr hcopy
  | login hlog =>
    exact le_trans (Nat.add_le_add_left (grants_le fun q => put_grant rfl) _) hs
  | @check p password hdoas =>
    have hle : grants { s.put p { s.proc p with doasGrant := true } with
        checks := s.checks + 1 } ≤ grants s + 1 := by
      refine grants_succ (p := p) fun q hqp h => ?_
      rwa [show _ = s.proc q from (put_proc ..).trans (if_neg hqp)] at h
    have : (s.put p { s.proc p with doasGrant := true }).elevations = s.elevations := rfl
    dsimp only at *
    omega
  | @elevate p hrun hne hgrant =>
    have hlt : grants { s.put p { s.proc p with uid := 0, gid := 0, doasGrant := false } with
        elevations := s.elevations + 1 } < grants s := by
      refine grants_lt (fun q => put_grant rfl) hgrant ?_
      exact congrArg Proc.doasGrant ((State.put_proc ..).trans (if_pos rfl))
    have : (s.put p { s.proc p with uid := 0, gid := 0, doasGrant := false }).checks =
      s.checks := rfl
    dsimp only at *
    omega
  | remain hrun huid =>
    exact le_trans (Nat.add_le_add_left (grants_le fun q => put_grant rfl) _) hs
  | @foreground p pid hpid =>
    have hsame : Paid (s.setforeground p pid) ↔ Paid s := by
      unfold setforeground
      rw [if_neg (not_lt.mpr hpid)]
      exact .rfl
    exact hsame.mpr hs

/-- `q` has uid 0 after the step, and did not have it, or was no process, before. -/
def GainsRoot (s t : State) (q : Slot) : Prop :=
  (t.proc q).Live ∧ (t.proc q).uid = 0 ∧ ¬ ((s.proc q).Live ∧ (s.proc q).uid = 0)

/-- The ways to uid 0. -/
inductive RootBy (sha256 : List UInt8 → List UInt8) (s : State) (q : Slot) : Act → Prop where
  | setuid (hne : (s.proc q).uid ≠ 0) (h : (s.proc q).doasGrant = true) :
      RootBy sha256 s q (.call q (.setuid 0))
  | login {name password : List UInt8} {gid : Nat}
      (h : s.table.login sha256 name password = some (0, gid)) :
      RootBy sha256 s q (.call q (.login name password))
  | fork {p : Slot} (hnp : s.forking p = some q) (h : (s.proc p).uid = 0) :
      RootBy sha256 s q (.forkCopy p true)

lemma gainsRoot_put {q : Slot} {x : Proc} (h : GainsRoot s (s.put p x) q) :
    q = p ∧ x.Live ∧ x.uid = 0 := by
  obtain ⟨hlive, huid, hnot⟩ := h
  rw [put_proc] at hlive huid
  split at hlive
  case isTrue hqp => exact ⟨hqp, hlive, by rwa [if_pos hqp] at huid⟩
  case isFalse hqp => exact absurd ⟨hlive, by rwa [if_neg hqp] at huid⟩ hnot

lemma gainsRoot_cases {a : Act} {q : Slot} (h : step sha256 s a = some t)
    (hq : GainsRoot s t q) : RootBy sha256 s q a := by
  cases step_cases h with
  | quiet hquiet =>
    obtain ⟨hlive, huid, hnot⟩ := hq
    exact absurd ⟨(hquiet.proc q).live hlive, (hquiet.proc q).uid.symm.trans huid⟩ hnot
  | @alloc p np =>
    have hput : GainsRoot s (s.put np _) q := hq
    obtain ⟨-, hlive, -⟩ := gainsRoot_put hput
    simp [Proc.Live] at hlive
  | @child p np hnp =>
    have hput : GainsRoot s (s.put np _) q := hq
    obtain ⟨rfl, -, huid⟩ := gainsRoot_put hput
    exact .fork hnp huid
  | @login p name password uid gid hlog =>
    obtain ⟨rfl, -, huid⟩ := gainsRoot_put hq
    obtain rfl : uid = 0 := huid
    exact .login hlog
  | @check p password hdoas =>
    have hput : GainsRoot s (s.put p _) q := hq
    obtain ⟨rfl, hlive, huid⟩ := gainsRoot_put hput
    exact absurd ⟨hlive, huid⟩ hq.2.2
  | @elevate p hrun hne hgrant =>
    have hput : GainsRoot s (s.put p _) q := hq
    obtain ⟨rfl, -⟩ := gainsRoot_put hput
    exact .setuid hne hgrant
  | @remain p hrun huid =>
    obtain ⟨rfl, -⟩ := gainsRoot_put hq
    exact absurd ⟨.inr (.inr hrun), huid⟩ hq.2.2
  | @foreground p pid hpid => ?_
  have hsame : (s.setforeground p pid).proc = s.proc := by
    unfold setforeground
    rw [if_neg (not_lt.mpr hpid)]
  obtain ⟨hlive, huid, hnot⟩ := hq
  rw [hsame] at hlive huid
  exact absurd ⟨hlive, huid⟩ hnot

/-- In every run without a copied grant the elevations are at most the
password checks; and in each step a process gets to uid 0 by a grant, by
a login or from its parent only. -/
theorem elevations_checked (sha256 : List UInt8 → List UInt8) (table : Auth.Table)
    {as : List Act} (h : Run (Frugal sha256) (boot table) as s) :
    s.elevations ≤ s.checks ∧
      ∀ a t q, step sha256 s a = some t → GainsRoot s t q → RootBy sha256 s q a := by
  have hboot : Paid (boot table) := by
    have hnone : grants (boot table) = 0 := by
      refine card_eq_zero.mpr (filter_eq_empty_iff.mpr fun q _ => ?_)
      rw [boot_proc]
      split <;> exact Bool.false_ne_true
    unfold Paid
    rw [hnone]
    exact le_refl 0
  have hpaid : Paid s := h.invariant hboot fun _ _ _ => frugal_paid
  exact ⟨(Nat.le_add_right ..).trans hpaid, fun a t q => gainsRoot_cases⟩

/-! ## One check, one elevation; and two -/

lemma doasAuth_eq {password : List UInt8} (h : s.table.doas sha256 (s.proc p).uid password) :
    s.call sha256 p (.doasAuth password) =
      { s.put p { s.proc p with doasGrant := true } with checks := s.checks + 1 } :=
  if_pos h

/-- The first process logs in as `admin` and checks its password. -/
def checkActs : List Act :=
  [.schedule initproc, .call initproc (.login (ascii "admin") (ascii "openproninx")),
    .call initproc (.doasAuth (ascii "openproninx"))]

def checked (table : Auth.Table) : State :=
  let s := boot table
  { s with
    proc := update s.proc initproc { s.proc initproc with
      state := .running, uid := 1000, gid := 10, doasGrant := true }
    checks := 1 }

lemma boot_checked {table : Auth.Table}
    (hlogin : table.login sha256 (ascii "admin") (ascii "openproninx") = some (1000, 10))
    (hdoas : table.doas sha256 1000 (ascii "openproninx")) :
    Run (Frugal sha256) (boot table) checkActs (checked table) := by
  refine .cons ⟨rfl, id⟩ (.cons ⟨(step_call rfl rfl).trans (congrArg some (login_eq hlogin)), id⟩
    (.cons ⟨(step_call rfl rfl).trans (congrArg some ((doasAuth_eq hdoas).trans ?_)), id⟩ .nil))
  unfold checked boot put
  simp only [update_self, update_idem]

lemma elevate_once (sha256 : List UInt8 → List UInt8) (table : Auth.Table) :
    ∃ s, Run (Frugal sha256) (checked table) [.call initproc (.setuid 0)] s ∧ s.elevations = 1 :=
  ⟨_, .cons ⟨rfl, not_false⟩ .nil, rfl⟩

theorem one_check_one_elevation :
    ∃ as s, Run (Frugal Sha256.digest) (boot Auth.bootTable) as s ∧ s.elevations = 1 ∧
      s.elevations ≤ s.checks := by
  obtain ⟨s, hlast, hone⟩ := elevate_once Sha256.digest Auth.bootTable
  have hrun := (boot_checked Auth.bootTable_admin Auth.bootTable_doas).append hlast
  exact ⟨_, s, hrun, hone, (elevations_checked Sha256.digest Auth.bootTable hrun).1⟩

lemma elevate_twice (sha256 : List UInt8 → List UInt8) (table : Auth.Table) :
    ∃ s, Run (fun s a t => step sha256 s a = some t) (checked table)
        [.call initproc .fork, .forkCopy initproc true, .schedule childproc,
          .call initproc (.setuid 0), .call childproc (.setuid 0)] s ∧
      s.checks = 1 ∧ s.elevations = 2 :=
  ⟨_, .cons rfl (.cons rfl (.cons rfl (.cons rfl (.cons rfl .nil)))), rfl, rfl⟩

/-- One check pays for two elevations. -/
theorem forked_grant_elevates_twice :
    ∃ as s, Run (fun s a t => step Sha256.digest s a = some t) (boot Auth.bootTable) as s ∧
      s.checks = 1 ∧ s.elevations = 2 := by
  have hcheck := (boot_checked Auth.bootTable_admin Auth.bootTable_doas).mono fun _ _ _ h => h.1
  obtain ⟨s, htwice, hcount⟩ := elevate_twice Sha256.digest Auth.bootTable
  exact ⟨_, s, hcheck.append htwice, hcount⟩

end Proninx.Ptable
