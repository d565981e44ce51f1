import Mathlib.Data.Finset.Max
import ProtoST.Primitives.WaitCycle

/-!
# Every cycle of waits is reported

Records are numbered in the order in which they are made (`stamp`).  The actor
whose record is the last of a cycle finds every other record in place when it
walks, for an actor that still awaits a pending future has not touched its record
since.  So its walk follows the cycle: after `k` hops it is at the `k`-th future
(`OnChain`), and it cannot stop before it is back at its own actor.  Nothing here
depends on what else happens: other walks, replies, explicit settlements, helping
and swallowed yields may be interleaved in any way.

## Main result

* `cycle_reported` — actors that wait for each other in a cycle of up to 256
  cannot all have ended their walks without a report.
-/

namespace ProtoST.Primitives.WaitCycle

open ProtoST.Lib

variable {A F : Type} {target : F → Option A} {s s' : State A F}

/-- A cycle of `n` actors that await pending futures of each other, in which the
record of the first is the last one made. -/
structure Chain (target : F → Option A) (s : State A F) (n : Nat)
    (b : Nat → A) (f : Nat → F) : Prop where
  pos : 0 < n
  short : n ≤ 256
  awaits : ∀ j, j < n → (s.pc (b j)).awaits = some (f j)
  pending : ∀ j, j < n → s.settled (f j) = false
  next : ∀ j, j + 1 < n → target (f j) = some (b (j + 1))
  closed : ∀ j, j + 1 = n → target (f j) = some (b 0)
  older : ∀ j, 0 < j → j < n → s.stamp (b j) < s.stamp (b 0)

/-- A walk along a chain: after `hop` hops it is at the future of that number,
and it has not ended. -/
def OnChain (n : Nat) (b : Nat → A) (f : Nat → F) : Pc A F → Prop
  | .loop _ _ hop fut => hop < n ∧ fut = some (f hop)
  | .readTarget _ _ hop fut => hop < n ∧ fut = f hop
  | .readRecord _ _ hop _ t => hop + 1 < n ∧ t = b (hop + 1)
  | .walked .. | .parked .. | .helping .. => False
  | _ => True

/-- The invariant of all runs. -/
structure Complete (target : F → Option A) (s : State A F) : Prop where
  record : ∀ a g, (s.pc a).awaits = some g → s.record a = some g
  stamp_lt : ∀ a g, (s.pc a).awaits = some g → s.stamp a < s.clock
  stamp_ne : ∀ a b g h, (s.pc a).awaits = some g → (s.pc b).awaits = some h →
    a ≠ b → s.stamp a ≠ s.stamp b
  walks : ∀ n b f, Chain target s n b f → OnChain n b f (s.pc (b 0))

section Steps

variable [DecidableEq A] [DecidableEq F] {act : Action A F}

/-- What an actor awaits it has awaited before the step, with the same record
and number, or it records it in this step. -/
theorem awaits_step (hdoes : Does target s act s') {a : A} {g : F}
    (hawaits : (s'.pc a).awaits = some g) :
    ((s.pc a).awaits = some g ∧ s'.stamp a = s.stamp a ∧
        (s.record a = some g → s'.record a = some g) ∧ s.clock ≤ s'.clock) ∨
      (act = .run a ∧ (∃ msg, s'.pc a = .loop msg g 0 (some g)) ∧
        s'.record a = some g ∧ s'.stamp a = s.clock ∧
        s'.clock = s.clock + 1) := by
  by_cases ha : act.actor = some a
  · cases hdoes with
    | resolve => cases ha
    | record hpc =>
        obtain rfl := Option.some.inj ha
        simp_all [State.goto, State.setRecord, Pc.awaits]
    | yield hpc =>
        obtain rfl := Option.some.inj ha
        simp_all [State.goto, State.setRecord, Pc.awaits]
    | stop hpc _ | probe hpc _ _ | foreign hpc _ | close hpc _ _
    | pass hpc _ _ | follow hpc | help hpc =>
        obtain rfl := Option.some.inj ha
        simp_all [State.goto, Pc.awaits]
    | _ =>
        obtain rfl := Option.some.inj ha
        simp [State.goto, Pc.awaits] at hawaits
  · obtain ⟨hpc, -, -, hrecord, hstamp⟩ := other_step hdoes ha
    rw [hpc] at hawaits
    refine .inl ⟨hawaits, hstamp, fun hrec => by rw [hrecord, hrec], ?_⟩
    cases hdoes <;> simp [State.goto, State.setRecord, State.settle]

variable {f : Nat → F} {b : Nat → A} {n : Nat}

/-- A chain was there before the step, or the first actor has just recorded. -/
theorem chain_back (h : Complete target s) (hdoes : Does target s act s')
    (hchain : Chain target s' n b f) :
    Chain target s n b f ∨ ∃ msg, s'.pc (b 0) = .loop msg (f 0) 0 (some (f 0)) := by
  rcases awaits_step hdoes (hchain.awaits 0 hchain.pos) with
    ⟨hfirst, hstamp, -, -⟩ | ⟨-, hloop, -⟩
  · refine .inl ⟨hchain.pos, hchain.short, ?_, ?_, hchain.next, hchain.closed, ?_⟩
    · intro j hj
      rcases awaits_step hdoes (hchain.awaits j hj) with
        ⟨hold, -⟩ | ⟨-, -, -, hnew, -⟩
      · exact hold
      · -- a record made in this step is younger than the one of the first actor
        have hlt := h.stamp_lt (b 0) (f 0) hfirst
        rcases Nat.eq_zero_or_pos j with rfl | hpos
        · exact hfirst
        · have holder := hchain.older j hpos hj
          omega
    · intro j hj
      by_contra hset
      have hpending := hchain.pending j hj
      rw [settled_mono hdoes (by simpa using hset)] at hpending
      cases hpending
    · intro j hpos hj
      have holder := hchain.older j hpos hj
      rcases awaits_step hdoes (hchain.awaits j hj) with
        ⟨-, hsame, -⟩ | ⟨-, -, -, hnew, -⟩
      · omega
      · have hlt := h.stamp_lt (b 0) (f 0) hfirst
        omega
  · exact .inr hloop

omit [DecidableEq A] [DecidableEq F] in
/-- The settling actor of a future on a chain. -/
theorem Chain.target_some (h : Chain target s n b f) {j : Nat} (hj : j < n) :
    (j + 1 < n ∧ target (f j) = some (b (j + 1))) ∨
      target (f j) = some (b 0) := by
  by_cases hlast : j + 1 < n
  · exact .inl ⟨hlast, h.next j hlast⟩
  · exact .inr (h.closed j (by omega))

/-- A step of the first actor follows the chain. -/
theorem onChain_step (h : Complete target s) (hdoes : Does target s act s')
    (hchain : Chain target s n b f)
    (ha : act.actor = some (b 0)) : OnChain n b f (s'.pc (b 0)) := by
  have hwalk := h.walks n b f hchain
  generalize hb : b 0 = a at ha hwalk
  cases hdoes with
  | resolve => cases ha
  | @stop _ _ _ hop fut hpc hstop =>
      obtain rfl := Option.some.inj ha
      rw [hpc] at hwalk
      obtain ⟨hhop, rfl⟩ := hwalk
      have hpending := hchain.pending hop hhop
      have hshort := hchain.short
      rcases hstop with hnone | hlong | ⟨f', hf', hset⟩
      · cases hnone
      · omega
      · obtain rfl := Option.some.inj hf'
        rw [hpending] at hset
        cases hset
  | probe hpc _ _ =>
      obtain rfl := Option.some.inj ha
      rw [hpc] at hwalk
      simpa [State.goto, OnChain] using hwalk
  | foreign hpc hforeign =>
      obtain rfl := Option.some.inj ha
      rw [hpc] at hwalk
      obtain ⟨hhop, rfl⟩ := hwalk
      rcases hchain.target_some hhop with ⟨-, htarget⟩ | htarget <;>
        (rw [hforeign] at htarget; cases htarget)
  | pass hpc htarget hopen =>
      obtain rfl := Option.some.inj ha
      rw [hpc] at hwalk
      obtain ⟨hhop, rfl⟩ := hwalk
      rcases hchain.target_some hhop with ⟨hnext, hb'⟩ | hb'
      · rw [htarget] at hb'
        obtain rfl := Option.some.inj hb'
        simp [State.goto, OnChain, hnext]
      · rw [htarget] at hb'
        obtain rfl := Option.some.inj hb'
        exact absurd (.inl hb) hopen
  | @follow _ t msg g f' hop hpc =>
      obtain rfl := Option.some.inj ha
      rw [hpc] at hwalk
      obtain ⟨hhop, rfl⟩ := hwalk
      have hrec := h.record _ _ (hchain.awaits (hop + 1) hhop)
      simp [State.goto, OnChain, hrec, hhop]
  | yield hpc =>
      obtain rfl := Option.some.inj ha
      rw [hpc] at hwalk
      exact hwalk.elim
  | help hpc =>
      obtain rfl := Option.some.inj ha
      rw [hpc] at hwalk
      exact hwalk.elim
  | record hpc =>
      obtain rfl := Option.some.inj ha
      have hawaits := hchain.awaits 0 hchain.pos
      rw [hb, hpc] at hawaits
      cases hawaits
  | _ =>
      obtain rfl := Option.some.inj ha
      simp [State.goto, OnChain]

/-- **Every step keeps the invariant.** -/
theorem complete_step (h : Complete target s) (hdoes : Does target s act s') :
    Complete target s' := by
  constructor
  · intro a g hawaits
    rcases awaits_step hdoes hawaits with ⟨hold, -, hrec, -⟩ | ⟨-, -, hrec, -⟩
    · exact hrec (h.record a g hold)
    · exact hrec
  · intro a g hawaits
    rcases awaits_step hdoes hawaits with
      ⟨hold, hstamp, -, hclock⟩ | ⟨-, -, -, hstamp, hclock⟩
    · have hlt := h.stamp_lt a g hold
      omega
    · omega
  · intro a b g g' ha hb hne
    rcases awaits_step hdoes ha with
      ⟨holda, hstampa, -⟩ | ⟨hact, -, -, hstampa, -⟩ <;>
    rcases awaits_step hdoes hb with
      ⟨holdb, hstampb, -⟩ | ⟨hact', -, -, hstampb, -⟩
    · have hold := h.stamp_ne a b g g' holda holdb hne
      omega
    · have hlt := h.stamp_lt a g holda
      omega
    · have hlt := h.stamp_lt b g' holdb
      omega
    · rw [hact] at hact'
      exact absurd (Action.run.inj hact') hne
  · intro n b f hchain
    rcases chain_back h hdoes hchain with hold | ⟨msg, hloop⟩
    · by_cases ha : act.actor = some (b 0)
      · exact onChain_step h hdoes hold ha
      · rw [(other_step hdoes ha).1]
        exact h.walks n b f hold
    · rw [hloop]
      exact ⟨hchain.pos, rfl⟩

omit [DecidableEq A] [DecidableEq F] in
theorem complete_initial : Complete target (initial : State A F) := by
  constructor <;> simp [initial, Pc.awaits, OnChain]

/-! ## The walk that is left -/

/-- How many steps a walk on a chain has left. -/
def stepsLeft (n : Nat) : Pc A F → Nat
  | .loop _ _ hop _ => 3 * (n - hop)
  | .readTarget _ _ hop _ => 3 * (n - hop) - 1
  | .readRecord _ _ hop _ _ => 3 * (n - hop) - 2
  | _ => 0

omit [DecidableEq F] in
/-- A chain stands while its first actor walks on. -/
theorem chain_forth (hchain : Chain target s n b f) {t : State A F} {pc' : Pc A F}
    (hpc : t.pc = Function.update s.pc (b 0) pc')
    (hawaits : pc'.awaits = some (f 0)) (hsettled : t.settled = s.settled)
    (hstamp : t.stamp = s.stamp) : Chain target t n b f := by
  refine ⟨hchain.pos, hchain.short, ?_, ?_, hchain.next, hchain.closed, ?_⟩
  · intro j hj
    rcases Nat.eq_zero_or_pos j with rfl | hpos
    · simpa [hpc] using hawaits
    · have hne : b j ≠ b 0 := by
        intro heq
        have holder := hchain.older j hpos hj
        rw [heq] at holder
        omega
      simpa [hpc, hne] using hchain.awaits j hj
  · intro j hj
    rw [hsettled]
    exact hchain.pending j hj
  · intro j hpos hj
    rw [hstamp]
    exact hchain.older j hpos hj

omit [DecidableEq F] in
/-- The first actor of a chain walks on, closer to its report. -/
theorem walk_on (h : Complete target s)
    (hchain : Chain target s n b f) (hwalk : (s.pc (b 0)).walking = true)
    (hreport : (s.pc (b 0)).reports = none) :
    ∃ t, s.walk target (b 0) = some t ∧ Chain target t n b f ∧
      (t.pc (b 0)).walking = true ∧
      stepsLeft n (t.pc (b 0)) < stepsLeft n (s.pc (b 0)) := by
  have hon := h.walks n b f hchain
  have hawaits := hchain.awaits 0 hchain.pos
  have hshort := hchain.short
  cases hpc : s.pc (b 0) with
  | loop msg g hop fut =>
      rw [hpc] at hon hawaits
      obtain ⟨hhop, rfl⟩ := hon
      obtain rfl : g = f 0 := Option.some.inj hawaits
      refine ⟨s.goto (b 0) (.readTarget msg (f 0) hop (f hop)), ?_,
        chain_forth hchain rfl rfl rfl rfl, ?_, ?_⟩
      · have hlong : ¬256 ≤ hop := by omega
        simp [State.walk, hpc, hlong, hchain.pending hop hhop]
      · simp [State.goto, Pc.walking]
      · simp only [State.goto, Function.update_self, stepsLeft]
        omega
  | readTarget msg g hop f' =>
      rw [hpc] at hon hawaits
      obtain ⟨hhop, rfl⟩ := hon
      obtain rfl : g = f 0 := Option.some.inj hawaits
      have hclose : ∀ t, target (f hop) = some t → (t = b 0 ∨ t ∈ s.below (b 0)) →
          s.walk target (b 0) =
            some (s.goto (b 0) (.report msg (f 0) (f hop))) := by
        intro t ht hend
        simp [State.walk, hpc, ht, hend]
      rcases hchain.target_some hhop with ⟨hnext, ht⟩ | ht
      · by_cases hend : b (hop + 1) = b 0 ∨ b (hop + 1) ∈ s.below (b 0)
        · refine ⟨_, hclose _ ht hend, chain_forth hchain rfl rfl rfl rfl, ?_, ?_⟩
          · simp [State.goto, Pc.walking]
          · simp only [State.goto, Function.update_self, stepsLeft]
            omega
        · refine ⟨s.goto (b 0) (.readRecord msg (f 0) hop (f hop) (b (hop + 1))),
            ?_, chain_forth hchain rfl rfl rfl rfl, ?_, ?_⟩
          · simp [State.walk, hpc, ht, hend]
          · simp [State.goto, Pc.walking]
          · simp only [State.goto, Function.update_self, stepsLeft]
            omega
      · refine ⟨_, hclose _ ht (.inl rfl), chain_forth hchain rfl rfl rfl rfl, ?_, ?_⟩
        · simp [State.goto, Pc.walking]
        · simp only [State.goto, Function.update_self, stepsLeft]
          omega
  | readRecord msg g hop f' t =>
      rw [hpc] at hon hawaits
      obtain ⟨hhop, rfl⟩ := hon
      obtain rfl : g = f 0 := Option.some.inj hawaits
      have hfollow : s.walk target (b 0) = some
          { s.goto (b 0) (.loop msg (f 0) (hop + 1) (s.record (b (hop + 1)))) with
            trail := Function.update s.trail (b 0)
              ((f', b (hop + 1)) :: s.trail (b 0)) } := by
        simp only [State.walk, hpc]
      refine ⟨_, hfollow, chain_forth hchain rfl rfl rfl rfl, ?_, ?_⟩
      · simp [State.goto, Pc.walking]
      · simp only [State.goto, Function.update_self, stepsLeft]
        omega
  | report => rw [hpc] at hreport; cases hreport
  | _ => rw [hpc] at hwalk; cases hwalk

/-- By its own steps alone the first actor of a chain comes to its report. -/
theorem walk_reports (h : Complete target s) (hchain : Chain target s n b f)
    (hwalk : (s.pc (b 0)).walking = true) :
    ∃ k t, (machine target).exec s (List.replicate k (.run (b 0))) = some t ∧
      (t.pc (b 0)).reports.isSome = true := by
  induction hleft : stepsLeft n (s.pc (b 0)) using Nat.strong_induction_on
    generalizing s with
  | _ left ih =>
      cases hreport : (s.pc (b 0)).reports with
      | some f' => exact ⟨0, s, rfl, by rw [hreport]; rfl⟩
      | none =>
          obtain ⟨t, ht, hchain', hwalk', hless⟩ :=
            walk_on h hchain hwalk hreport
          have hstep : s.step target (.run (b 0)) = some t := ht
          obtain ⟨k, u, hexec, hu⟩ := ih _ (by omega)
            (complete_step h (does_of_step hstep)) hchain' hwalk' rfl
          refine ⟨k + 1, u, ?_, hu⟩
          simp only [List.replicate_succ, Machine.exec]
          rw [show (machine target).step s (.run (b 0)) = some t from hstep]
          exact hexec

/-! ## Cycles -/

omit [DecidableEq A] [DecidableEq F] in
/-- The distance from `m` round a cycle of `n`. -/
theorem add_mod_ne {m j n : Nat} (hm : m < n) (hpos : 0 < j) (hj : j < n) :
    (m + j) % n ≠ m := by
  by_cases hlt : m + j < n
  · rw [Nat.mod_eq_of_lt hlt]
    omega
  · rw [Nat.mod_eq_sub_mod (by omega), Nat.mod_eq_of_lt (by omega)]
    omega

/-- **Every cycle of waits is reported.**  In every reachable state, when `n`
actors each await a pending future that the next of them is to settle, with
`n ≤ 256`, the walk of one of them is under way and comes by its own steps back to
an actor that cannot go on before it: it reports.  So the actors never all end up
suspended or helping with no report made. -/
theorem cycle_reported (h : (machine target).Reachable s) {n : Nat}
    (hpos : 0 < n) (hshort : n ≤ 256) {a : Nat → A} {g : Nat → F}
    (hdistinct : ∀ i j, i < n → j < n → a i = a j → i = j)
    (hawaits : ∀ i, i < n → (s.pc (a i)).awaits = some (g i))
    (hpending : ∀ i, i < n → s.settled (g i) = false)
    (htarget : ∀ i, i < n → target (g i) = some (a ((i + 1) % n))) :
    ∃ i, i < n ∧ (s.pc (a i)).walking = true ∧
      ∃ k t, (machine target).exec s (List.replicate k (.run (a i))) = some t ∧
        (t.pc (a i)).reports.isSome = true := by
  have hcomplete : Complete target s := by
    refine Machine.Reach.invariant (P := fun s => Complete target s) ?_ ?_ h
    · rintro _ rfl
      exact complete_initial
    · intro s act t _ hcomplete _ hstep
      exact complete_step hcomplete (does_of_step hstep)
  obtain ⟨m, hm, hmax⟩ := (Finset.range n).exists_max_image
    (fun i => s.stamp (a i)) ⟨0, by simpa using hpos⟩
  have hmn : m < n := by simpa using hm
  have hmod : ∀ j, (m + j) % n < n := fun j => Nat.mod_lt _ hpos
  have hstart : (m + 0) % n = m := by rw [Nat.add_zero, Nat.mod_eq_of_lt hmn]
  have hchain : Chain target s n (fun j => a ((m + j) % n))
      (fun j => g ((m + j) % n)) := by
    refine ⟨hpos, hshort, fun j _ => hawaits _ (hmod j),
      fun j _ => hpending _ (hmod j), ?_, ?_, ?_⟩
    · intro j _
      rw [htarget _ (hmod j), Nat.mod_add_mod, Nat.add_assoc]
    · intro j hj
      rw [htarget _ (hmod j), Nat.mod_add_mod, Nat.add_assoc, hj,
        Nat.add_mod_right, Nat.add_zero]
    · intro j hpos' hj
      have hne : (m + j) % n ≠ m := add_mod_ne hmn hpos' hj
      have hle := hmax _ (Finset.mem_range.mpr (hmod j))
      have hstamp := hcomplete.stamp_ne _ _ _ _ (hawaits _ (hmod j))
        (hawaits m hmn) fun heq => hne (hdistinct _ _ (hmod j) hmn heq)
      simp only [hstart]
      omega
  have hon := hcomplete.walks n _ _ hchain
  simp only [hstart] at hon
  have haw := hawaits m hmn
  have hwalk : (s.pc (a m)).walking = true := by
    cases hpc : s.pc (a m) with
    | loop | readTarget | readRecord | report => rfl
    | walked | parked | helping =>
        rw [hpc] at hon
        exact hon.elim
    | idle | running | recording =>
        rw [hpc] at haw
        cases haw
  have hreports := walk_reports hcomplete hchain (by simpa only [hstart] using hwalk)
  simp only [hstart] at hreports
  exact ⟨m, hmn, hwalk, hreports⟩

end Steps

/-- Two actors that have recorded their waits for each other, one suspended. -/
theorem cycle_reported_two : ∃ s : State Nat Nat,
    s.pc 0 = .parked (some 0) 1 ∧ ∃ i, i < 2 ∧ (s.pc i).walking = true ∧
      ∃ k t, (machine fun f => some (f % 2)).exec s
        (List.replicate k (.run i)) = some t ∧
          (t.pc i).reports.isSome = true := by
  have hrun := Machine.reach_of_exec (M := machine fun f : Nat => some (f % 2))
    (.init rfl : (machine fun f : Nat => some (f % 2)).Reachable initial)
    (show (machine fun f : Nat => some (f % 2)).exec initial
      [.start 0 (some 0) none, .wait 0 1, .run 0, .run 0, .run 0, .run 0, .run 0,
        .yield 0, .start 1 (some 1) none, .wait 1 2, .run 1] = some _ from rfl)
  refine ⟨_, rfl, cycle_reported hrun (n := 2) (a := id) (g := fun i => i + 1)
    (by omega) (by omega) (fun _ _ _ _ h => h) ?_ ?_ ?_⟩
  · intro i hi
    match i, hi with
    | 0, _ => rfl
    | 1, _ => rfl
  · intro i hi
    match i, hi with
    | 0, _ => rfl
    | 1, _ => rfl
  · intro i hi
    match i, hi with
    | 0, _ => rfl
    | 1, _ => rfl

end ProtoST.Primitives.WaitCycle
